import ShitOs.Construction.LineDiscipline

/-!
# Pseudo-terminals

A model of the output side of `kernel/dev/pty.cpp`.  What the slave writes, and what the line
discipline echoes of what is typed at the master, goes byte by byte into a ring that the master
reads.  The output of one byte is not interrupted here.
-/

namespace ShitOs

def PTY_OUTPUT_CAPACITY : ℕ := 8192

def OPOST : BitVec 32 := 0x0001
def ONLCR : BitVec 32 := 0x0004

/-- `oflag` is the word of the termios that the discipline does not read. -/
structure Pty where
  discipline : LineDiscipline
  oflag : BitVec 32
  output : Ring UInt8 PTY_OUTPUT_CAPACITY
  masterClosed : Bool
  slaveClosed : Bool

namespace Pty

variable (s : Pty)

/-- `push` in `write_from_slave`: without room a byte is dropped. -/
def push (output : Ring UInt8 PTY_OUTPUT_CAPACITY) (value : UInt8) :
    Ring UInt8 PTY_OUTPUT_CAPACITY :=
  if 0 < output.available then output.push value else output

def create : Pty where
  discipline := .configured false
  oflag := OPOST ||| ONLCR
  output := ⟨fun _ => 0, ⟨0, by decide⟩, ⟨0, by decide⟩⟩
  masterClosed := false
  slaveClosed := false

/-- What output processing makes of a byte. -/
def processed (oflag : BitVec 32) (c : UInt8) : List UInt8 :=
  if c = NEWLINE ∧ oflag &&& (OPOST ||| ONLCR) = OPOST ||| ONLCR then [CARRIAGE_RETURN, c] else [c]

def writeFromSlave (c : UInt8) : Pty :=
  if s.masterClosed then s else { s with output := (processed s.oflag c).foldl push s.output }

/-- A byte is typed at the master; the discipline echoes by `echo_to_master`. -/
def feed (byte : UInt8) : Pty :=
  let fed := s.discipline.feed byte
  fed.2.echoed.foldl writeFromSlave { s with discipline := fed.1 }

/-- The loop of `read_from_master` and what follows it; `none` says that it waits. -/
def readFromMaster (length : ℕ) : Option (List UInt8 × Pty) :=
  if length = 0 then some ([], s)
  else if s.output.used = 0 then if s.slaveClosed then some ([], s) else none
  else
    let drained := s.output.drain length
    some (drained.1, { s with output := drained.2 })

def noteMasterClosed : Pty :=
  { s with masterClosed := true, discipline := { s.discipline with hungUp := true } }

def noteSlaveClosed : Pty := { s with slaveClosed := true }

end Pty
end ShitOs
