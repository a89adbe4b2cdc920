import ShitOs.Framework.RingBuffer
import ShitOs.Construction.Process

/-!
# The line discipline

A model of `kernel/dev/line_discipline.cpp`, the part that the console and the pseudo-terminals
share: editing what is typed, the buffer of bytes ready to be read, and job control between a reader
and that buffer.

What is typed and what is read meet in three pieces of state.  `line` is the line being edited,
`ready` the bytes of the lines that have been completed, and `sawEof` says that `VEOF` was typed on
an empty line.  A read drains `ready` before it looks at `sawEof`, whatever came first.

The kernel can be preempted inside `read`.  The model is restricted to runs in which a call gives up
the CPU only where it waits, and cuts it there: `readEntry` is what comes before the loop, and
`readStretch` is the loop from its head, or from the return of a `wait`, up to the next wait or the
return.

`char` is signed; bytes are `UInt8` here, and only the comparisons of `echo` see a sign.  What
`echo` sends and which signal is raised is returned by `feed`.
-/

namespace ShitOs

def LINE_BUFFER_SIZE : ℕ := 1024
def READY_BUFFER_SIZE : ℕ := LINE_BUFFER_SIZE * 4

def SIGINT : ℕ := 2
def SIGQUIT : ℕ := 3

/-! ## `abi/termios.h` -/

def NCCS : ℕ := 32

def ISIG : BitVec 32 := 0x0001
def ICANON : BitVec 32 := 0x0002
def ECHO : BitVec 32 := 0x0008
def ICRNL : BitVec 32 := 0x0100

def VINTR : Fin NCCS := ⟨0, by decide⟩
def VQUIT : Fin NCCS := ⟨1, by decide⟩
def VERASE : Fin NCCS := ⟨2, by decide⟩
def VKILL : Fin NCCS := ⟨3, by decide⟩
def VEOF : Fin NCCS := ⟨4, by decide⟩
def VSUSP : Fin NCCS := ⟨10, by decide⟩

/-- `struct termios`, without the two words the discipline does not read. -/
structure Termios where
  iflag : BitVec 32
  lflag : BitVec 32
  cc : Fin NCCS → UInt8

def BACKSPACE : UInt8 := 0x08
def NEWLINE : UInt8 := 0x0a
def CARRIAGE_RETURN : UInt8 := 0x0d
def SPACE : UInt8 := 0x20
def AT : UInt8 := 0x40
def CARET : UInt8 := 0x5e
def DELETE : UInt8 := 0x7f

/-- `line_discipline_default_termios`. -/
def defaultTermios : Termios where
  iflag := ICRNL
  lflag := ISIG ||| ICANON ||| ECHO
  cc i :=
    if i = VINTR then 3
    else if i = VQUIT then 28
    else if i = VERASE then 8
    else if i = VKILL then 21
    else if i = VEOF then 4
    else if i = VSUSP then 26
    else 0

/-- A terminal's input side. -/
structure LineDiscipline where
  termios : Termios
  line : List UInt8
  ready : Ring UInt8 READY_BUFFER_SIZE
  foregroundGroup : ℕ
  sawEof : Bool
  hungUp : Bool
  adoptsReaders : Bool

/-- What `feed` does besides changing the discipline: the bytes it echoes, and the signal it raises
in the foreground group. -/
structure FeedEffect where
  echoed : List UInt8
  raised : Option (ℕ × ℕ)
  deriving DecidableEq

namespace LineDiscipline

variable (s : LineDiscipline)

/-- `configure`. -/
def configured (adoptsReaders : Bool) : LineDiscipline where
  termios := defaultTermios
  line := []
  ready := ⟨fun _ => 0, ⟨0, by decide⟩, ⟨0, by decide⟩⟩
  foregroundGroup := 0
  sawEof := false
  hungUp := false
  adoptsReaders := adoptsReaders

def echo (c : UInt8) : List UInt8 :=
  if s.termios.lflag &&& ECHO = 0 then []
  else if c = NEWLINE then [NEWLINE]
  else if c = BACKSPACE then [BACKSPACE, SPACE, BACKSPACE]
  else if 32 ≤ c ∧ c < 127 then [c]
  -- a byte above 127 is negative as a `char`
  else if c < 32 ∨ 128 ≤ c then [CARET, c + AT]
  else []

def pushReady (c : UInt8) : LineDiscipline :=
  if 0 < s.ready.available then { s with ready := s.ready.push c } else s

def commitLine : LineDiscipline := { s.line.foldl pushReady s with line := [] }

/-- The signal a byte stands for, if any. -/
def signalOf (c : UInt8) : Option ℕ :=
  if s.termios.lflag &&& ISIG = 0 then none
  else if c = s.termios.cc VINTR then some SIGINT
  else if c = s.termios.cc VQUIT then some SIGQUIT
  else if c = s.termios.cc VSUSP then some SIGTSTP
  else none

/-- `signal_foreground_group`: who gets it. -/
def signalForegroundGroup (signal : ℕ) : Option (ℕ × ℕ) :=
  if s.foregroundGroup = 0 then none else some (s.foregroundGroup, signal)

def feed (byte : UInt8) : LineDiscipline × FeedEffect :=
  let c := if s.termios.iflag &&& ICRNL ≠ 0 ∧ byte = CARRIAGE_RETURN then NEWLINE else byte
  match s.signalOf c with
  | some signal =>
    ({ s with line := [] }, ⟨s.echo c ++ s.echo NEWLINE, s.signalForegroundGroup signal⟩)
  | none =>
    if s.termios.lflag &&& ICANON = 0 then (s.pushReady c, ⟨s.echo c, none⟩)
    else if c = s.termios.cc VERASE ∨ c = DELETE then
      if s.line = [] then (s, ⟨[], none⟩)
      else ({ s with line := s.line.dropLast }, ⟨s.echo BACKSPACE, none⟩)
    else if c = s.termios.cc VKILL then
      ({ s with line := [] }, ⟨(s.line.map fun _ => s.echo BACKSPACE).flatten, none⟩)
    else if c = s.termios.cc VEOF then
      ({ s with sawEof := if s.line = [] then true else s.sawEof }.commitLine, ⟨[], none⟩)
    else if c = NEWLINE then
      let line := if s.line.length < LINE_BUFFER_SIZE then s.line ++ [NEWLINE] else s.line
      ({ s with line := line }.commitLine, ⟨s.echo NEWLINE, none⟩)
    else if s.line.length + 1 < LINE_BUFFER_SIZE then
      ({ s with line := s.line ++ [c] }, ⟨s.echo c, none⟩)
    else (s, ⟨[], none⟩)

/-- What the thread that feeds a byte does about processes: `for_each_in_group`, if a signal is
raised. -/
def feedActions (byte : UInt8) : List KernelAction :=
  match (s.feed byte).2.raised with
  | none => []
  | some (group, signal) => [.collectGroup group signal]

/-- `read` up to its loop: who owns the terminal now, and whether the reader may go on.  A reader in
the background gets `SIGTTIN`.  `reader` is the group of the calling process, if there is one, and
`groupExists` what `group_exists` says of the foreground group. -/
def readEntry (reader : Option ℕ) (groupExists : Bool) : Except Errno Unit × LineDiscipline :=
  let s := if s.foregroundGroup ≠ 0 ∧ ¬ groupExists then { s with foregroundGroup := 0 } else s
  match reader with
  | none => (.ok (), s)
  | some pgid =>
    let s := if s.adoptsReaders ∧ s.foregroundGroup = 0 then { s with foregroundGroup := pgid }
      else s
    if s.foregroundGroup ≠ 0 ∧ pgid ≠ s.foregroundGroup then (.error .EINTR, s) else (.ok (), s)

/-- The loop of `read` up to its next wait, and what follows it.  `none` says that it waits; an
empty result is the end of the file. -/
def readStretch (length : ℕ) : Option (List UInt8 × LineDiscipline) :=
  if s.ready.used = 0 then
    if s.sawEof then some ([], { s with sawEof := false })
    else if s.hungUp then some ([], s)
    else none
  else
    let drained := s.ready.drain length
    some (drained.1, { s with ready := drained.2 })

end LineDiscipline

/-! ## A terminal and what has been read from it -/

/-- What a reader is told: a byte, or the end of the file. -/
inductive TerminalItem
  | byte (b : UInt8)
  | endOfFile
  deriving DecidableEq

/-- What can happen to a terminal.  A read of no bytes returns at once and is left out. -/
inductive TerminalEvent
  | feed (byte : UInt8)
  | setTermios (termios : Termios)
  | read (reader : Option ℕ) (groupExists : Bool) (length : ℕ)
  | resume (length : ℕ)

/-- A discipline, and all that its reads have returned. -/
structure Terminal where
  discipline : LineDiscipline
  delivered : List TerminalItem

namespace Terminal

/-- What a read that returned `bytes` tells its caller. -/
def itemsOf (bytes : List UInt8) : List TerminalItem :=
  if bytes = [] then [.endOfFile] else bytes.map .byte

/-- A read, or one that was waiting, goes on.  If it waits nothing has changed. -/
def continueRead (s : Terminal) (length : ℕ) : Terminal :=
  match s.discipline.readStretch length with
  | none => s
  | some (bytes, discipline) =>
    { discipline := discipline, delivered := s.delivered ++ itemsOf bytes }

def step (s : Terminal) : TerminalEvent → Option Terminal
  | .feed byte => some { s with discipline := (s.discipline.feed byte).1 }
  | .setTermios termios => some { s with discipline := { s.discipline with termios := termios } }
  | .read reader groupExists length =>
    if length = 0 then none
    else
      match s.discipline.readEntry reader groupExists with
      | (.error _, discipline) => some { s with discipline := discipline }
      | (.ok (), discipline) => some ({ s with discipline := discipline }.continueRead length)
  | .resume length => if length = 0 then none else some (s.continueRead length)

def initial (adoptsReaders : Bool) : Terminal := ⟨LineDiscipline.configured adoptsReaders, []⟩

end Terminal

end ShitOs
