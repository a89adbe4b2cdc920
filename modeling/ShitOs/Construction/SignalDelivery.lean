import ShitOs.Construction.Process
import ShitOs.Framework.Memory

/-!
# Delivering signals and restarting system calls

A model of one user process between kernel and user mode: `syscall_dispatch`, `on_fault`,
`deliver_pending_signal` and the calls that decide what delivery does (`sigaction`, `sigprocmask`,
`sigreturn`), from `kernel/sys/syscall.cpp` and `kernel/sys/fault.cpp`.

A call that returns `EINTR` leaves its number in the thread, as a mark; delivery takes the mark off
when it rewinds a frame, so that the call is taken again.  `frame` is the user's registers.  All
other handlers are open: what one of them returns and leaves of process, memory and frame is part of
the step (`Handled`), and so is what user code does.

The rest is history.  `entries` counts the entries from user mode, and so numbers the frames;
`interrupted` has the frames of the calls that returned `EINTR` with the mark set, and `restarts`
those that were rewound, each with the number of the call.

Left out: what `stop` and `resume` do to the scheduler, the wait status of `do_exit`, and faults in
the kernel.
-/

namespace ShitOs

/-! ## Frames -/

structure InterruptFrame where
  r15 : U64
  r14 : U64
  r13 : U64
  r12 : U64
  r11 : U64
  r10 : U64
  r9 : U64
  r8 : U64
  rbp : U64
  rdi : U64
  rsi : U64
  rdx : U64
  rcx : U64
  rbx : U64
  rax : U64
  vector : U64
  errorCode : U64
  rip : U64
  cs : U64
  rflags : U64
  rsp : U64
  ss : U64
  deriving DecidableEq

def SYSCALL_INSTRUCTION_LENGTH : U64 := 2

def SELECTOR_USER_DATA : U64 := 0x1B
def SELECTOR_USER_CODE : U64 := 0x23
def VECTOR_SYSCALL : U64 := 0x100

namespace InterruptFrame

/-- The frame as it lies in memory. -/
def words (f : InterruptFrame) : List U64 :=
  [f.r15, f.r14, f.r13, f.r12, f.r11, f.r10, f.r9, f.r8, f.rbp, f.rdi, f.rsi, f.rdx, f.rcx, f.rbx,
    f.rax, f.vector, f.errorCode, f.rip, f.cs, f.rflags, f.rsp, f.ss]

/-- The frame that lies in memory as `ws`. -/
def ofWords (ws : List U64) : InterruptFrame :=
  let w := fun i => ws.getD i 0
  { r15 := w 0, r14 := w 1, r13 := w 2, r12 := w 3, r11 := w 4, r10 := w 5, r9 := w 6, r8 := w 7,
    rbp := w 8, rdi := w 9, rsi := w 10, rdx := w 11, rcx := w 12, rbx := w 13, rax := w 14,
    vector := w 15, errorCode := w 16, rip := w 17, cs := w 18, rflags := w 19, rsp := w 20,
    ss := w 21 }

def fromUserspace (f : InterruptFrame) : Bool := f.cs &&& 3 != 0

/-- The frame that takes call `number` again. -/
def restarted (f : InterruptFrame) (number : U64) : InterruptFrame :=
  { f with rax := number, rip := f.rip - SYSCALL_INSTRUCTION_LENGTH }

end InterruptFrame

/-! ## User memory -/

/-- The memory of the process, with what `validate_user_range` says of each byte. -/
structure UserMemory where
  byte : ℕ → BitVec 8
  readable : ℕ → Bool
  writable : ℕ → Bool

namespace UserMemory

/-- `copy_from_user` of `n` words. -/
def copyFromUser (m : UserMemory) (source : U64) (n : ℕ) : Option (List U64) :=
  if ∀ i < 8 * n, m.readable (source.toNat + i) then
    some ((List.range n).map fun i => Memory.ofBytes fun j => m.byte (source.toNat + 8 * i + j))
  else none

def copyToUser (m : UserMemory) (destination : U64) (words : List U64) : Option UserMemory :=
  let start := destination.toNat
  let length := 8 * words.length
  if ∀ i < length, m.writable (start + i) then
    some { m with
      byte := fun a =>
        if start ≤ a ∧ a < start + length then
          Memory.getByte (words.getD ((a - start) / 8) 0) ((a - start) % 8)
        else m.byte a }
  else none

end UserMemory

/-! ## The way back from a handler -/

namespace InterruptFrame

/-- `ret`: the word at the top of the stack is where the program goes on. -/
def ret (f : InterruptFrame) (m : UserMemory) : Option InterruptFrame :=
  (m.copyFromUser f.rsp 1).map fun ws => { f with rip := ws.getD 0 0, rsp := f.rsp + 8 }

/-- `__libc_sigreturn_trampoline` up to its `syscall`, as `syscall_entry` finds it: the `movq` is
seven bytes long, and the `syscall` puts the address of the next instruction in `rcx` and the flags
in `r11`. -/
def sigreturnTrampoline (f : InterruptFrame) : InterruptFrame :=
  { f with
    rax := 28
    rip := f.rip + 7 + SYSCALL_INSTRUCTION_LENGTH
    rcx := f.rip + 7 + SYSCALL_INSTRUCTION_LENGTH
    r11 := f.rflags
    cs := SELECTOR_USER_CODE
    ss := SELECTOR_USER_DATA }

end InterruptFrame

/-! ## The process -/

def SIG_DFL : U64 := 0
def SIG_IGN : U64 := 1
def SIG_BLOCK : BitVec 32 := 0
def SIG_UNBLOCK : BitVec 32 := 1
def SIG_SETMASK : BitVec 32 := 2
def SA_RESTART : BitVec 32 := 0x10000000

def SIGILL : ℕ := 4
def SIGBUS : ℕ := 7
def SIGFPE : ℕ := 8
def SIGSEGV : ℕ := 11

def SYS_sigaction : U64 := 27
def SYS_sigreturn : U64 := 28
def SYS_nanosleep : U64 := 29
def SYS_sigprocmask : U64 := 41
def SYS_EXT_BASE : U64 := 0x100
def SYS_MAX_POSIX : U64 := 52
def SYS_MAX_EXT : U64 := 4

def NO_RESTART : U64 := ~~~0

/-- `sizeof(SignalContext)`: a frame and the signal. -/
def SIGNAL_CONTEXT_SIZE : U64 := 184

/-- A process and its thread, as far as signals are concerned. -/
structure SignalSystem where
  process : Process
  handlers : ℕ → U64
  restorers : ℕ → U64
  flags : ℕ → BitVec 32
  memory : UserMemory
  frame : InterruptFrame
  restartable : U64
  exited : Bool
  entries : ℕ
  interrupted : List (ℕ × U64)
  restarts : List (ℕ × U64)

/-- What a handler leaves behind. -/
structure Handled where
  result : Except Errno U64
  process : Process
  handlers : ℕ → U64
  restorers : ℕ → U64
  flags : ℕ → BitVec 32
  memory : UserMemory
  frame : InterruptFrame

/-- One step: of user code, of somebody who raises a signal, or of the kernel on behalf of the
process.  `handled` is what a handler does that is not modelled, and `none` when it never
returns. -/
inductive SignalStep
  | user (frame : InterruptFrame) (memory : UserMemory)
  | raise (signal : ℕ)
  | syscall (handled : Option Handled)
  | fault (vector : BitVec 8) (errorCode : U64)

namespace SignalSystem

variable (s : SignalSystem)

def signalDisposition (signal : ℕ) : U64 :=
  if signal = 0 ∨ NSIG ≤ signal then 0 else s.handlers signal

def signalRestorer (signal : ℕ) : U64 :=
  if signal = 0 ∨ NSIG ≤ signal then 0 else s.restorers signal

def signalFlags (signal : ℕ) : BitVec 32 :=
  if signal = 0 ∨ NSIG ≤ signal then 0 else s.flags signal

def setSignalAction (signal : ℕ) (handler restorer : U64) (flags : BitVec 32) : SignalSystem :=
  if signal = 0 ∨ NSIG ≤ signal ∨ signal = SIGKILL ∨ signal = SIGSTOP then s
  else
    { s with
      handlers := Function.update s.handlers signal handler
      restorers := Function.update s.restorers signal restorer
      flags := Function.update s.flags signal flags }

/-- `raise_signal`, as far as the process itself sees it. -/
def raiseSignal (signal : ℕ) : SignalSystem :=
  if signal = 0 ∨ NSIG ≤ signal then s else { s with process := s.process.record signal }

def doExit : SignalSystem := { s with exited := true }

/-! ## Delivery -/

def restartInterruptedSyscall : SignalSystem :=
  if s.restartable = NO_RESTART then s
  else
    { s with
      frame := s.frame.restarted s.restartable
      restartable := NO_RESTART
      restarts := (s.entries, s.restartable) :: s.restarts }

/-- The frame that runs a handler. -/
def enterHandler (signal : ℕ) (handler stack : U64) : SignalSystem :=
  { s with
    frame := { s.frame with
      rsp := stack
      rip := handler
      rdi := BitVec.ofNat 64 signal
      rax := 0 } }

/-- Where `deliver_pending_signal` saves the context: below the red zone, aligned. -/
def contextAddress : U64 := ((s.frame.rsp - 128) &&& ~~~15) - SIGNAL_CONTEXT_SIZE

/-- The two copies of `deliver_pending_signal`: the context, and the return address below it. -/
def pushContext (signal : ℕ) (restorer : U64) : Option UserMemory :=
  (s.memory.copyToUser s.contextAddress (s.frame.words ++ [BitVec.ofNat 64 signal])).bind fun m =>
    m.copyToUser (s.contextAddress - 8) [restorer]

/-- The part of `deliver_pending_signal` about a real handler. -/
def runHandler (signal : ℕ) (handler : U64) : SignalSystem :=
  let restorer := s.signalRestorer signal
  if restorer = 0 then
    if signalTerminatesByDefault signal then s.doExit else s
  else
    match s.pushContext signal restorer with
    | none => s.doExit
    | some memory =>
      if s.signalFlags signal &&& SA_RESTART ≠ 0 ∧ s.restartable ≠ NO_RESTART then
        -- the saved frame is rewound, not the one that is about to run the handler
        match memory.copyToUser s.contextAddress (s.frame.restarted s.restartable).words with
        | none => { s with memory := memory, restartable := NO_RESTART }.doExit
        | some memory =>
          { s with
            memory := memory
            restartable := NO_RESTART
            restarts := (s.entries, s.restartable) :: s.restarts }.enterHandler signal handler
              (s.contextAddress - 8)
      else { s with memory := memory }.enterHandler signal handler (s.contextAddress - 8)

/-- `deliver_pending_signal` once it has taken `signal`. -/
def deliverSignal (signal : ℕ) : SignalSystem :=
  let handler := s.signalDisposition signal
  if signal = 0 then s
  else if signal = SIGKILL then s.doExit
  else if signal = SIGSTOP then s.restartInterruptedSyscall
  else if signal = SIGCONT ∧ (handler = SIG_IGN ∨ handler = SIG_DFL) then
    s.restartInterruptedSyscall
  else if handler = SIG_IGN then s.restartInterruptedSyscall
  else if handler = SIG_DFL then
    if signalStopsByDefault signal then s.restartInterruptedSyscall
    else if !signalTerminatesByDefault signal then s.restartInterruptedSyscall
    else s.doExit
  else s.runHandler signal handler

def deliverPendingSignal : SignalSystem :=
  if s.process.pid = 0 ∨ s.process.hasPendingSignals = false then s
  else
    { s with process := s.process.takePendingSignal.2 }.deliverSignal s.process.takePendingSignal.1

/-! ## System calls -/

def sysSigaction (signal actionPointer oldPointer : U64) : Except Errno U64 × SignalSystem :=
  let number := (signal.setWidth 32).toInt
  if number ≤ 0 ∨ (NSIG : ℤ) ≤ number then (.error .EINVAL, s)
  else
    let number := number.toNat
    let previous := [s.signalDisposition number, 0, (s.signalFlags number).setWidth 64,
      s.signalRestorer number]
    let copied := if oldPointer = 0 then some s.memory else s.memory.copyToUser oldPointer previous
    match copied with
    | none => (.error .EFAULT, s)
    | some memory =>
      let s := { s with memory := memory }
      if actionPointer = 0 then (.ok 0, s)
      else
        match s.memory.copyFromUser actionPointer 4 with
        | none => (.error .EFAULT, s)
        | some action =>
          (.ok 0, s.setSignalAction number (action.getD 0 0) (action.getD 3 0)
            ((action.getD 2 0).setWidth 32))

/-- `set_signal_mask`: the new mask. -/
def nextSignalMask (how : BitVec 32) (wanted : U64) : U64 :=
  if how = SIG_BLOCK then (s.process.signalMask ||| wanted) &&& ~~~UNBLOCKABLE_SIGNALS
  else if how = SIG_UNBLOCK then (s.process.signalMask &&& ~~~wanted) &&& ~~~UNBLOCKABLE_SIGNALS
  else if how = SIG_SETMASK then wanted &&& ~~~UNBLOCKABLE_SIGNALS
  else s.process.signalMask

def sysSigprocmask (how setPointer oldPointer : U64) : Except Errno U64 × SignalSystem :=
  let wanted := if setPointer = 0 then some [0] else s.memory.copyFromUser setPointer 1
  match wanted with
  | none => (.error .EFAULT, s)
  | some wanted =>
    let previous := s.process.signalMask
    let mask := if setPointer = 0 then previous
      else s.nextSignalMask (how.setWidth 32) (wanted.getD 0 0)
    let s := { s with process := { s.process with signalMask := mask } }
    if oldPointer = 0 then (.ok 0, s)
    else
      match s.memory.copyToUser oldPointer [previous] with
      | none => (.error .EFAULT, s)
      | some memory => (.ok 0, { s with memory := memory })

def sysSigreturn : Except Errno U64 × SignalSystem :=
  match s.memory.copyFromUser s.frame.rsp 23 with
  | none => (.error .EFAULT, s)
  | some context =>
    let saved := InterruptFrame.ofWords context
    let restored := { saved with
      cs := SELECTOR_USER_CODE
      ss := SELECTOR_USER_DATA
      rflags := (saved.rflags &&& 0xCD5) ||| 0x202
      vector := s.frame.vector
      errorCode := 0 }
    (.ok restored.rax, { s with frame := restored })

/-- Whether `number` is in one of the two tables, which have no gaps. -/
def hasHandler (number : U64) : Bool :=
  number < SYS_MAX_POSIX || (SYS_EXT_BASE ≤ number && number < SYS_EXT_BASE + SYS_MAX_EXT)

/-- What a handler that is not modelled does. -/
def apply (handled : Handled) : Except Errno U64 × SignalSystem :=
  (handled.result,
    { s with
      process := handled.process
      handlers := handled.handlers
      restorers := handled.restorers
      flags := handled.flags
      memory := handled.memory
      frame := handled.frame })

/-- The handler of call `number`; `none` when it never returns. -/
def handle (number : U64) (handled : Option Handled) : Option (Except Errno U64 × SignalSystem) :=
  if number = SYS_sigaction then some (s.sysSigaction s.frame.rdi s.frame.rsi s.frame.rdx)
  else if number = SYS_sigprocmask then some (s.sysSigprocmask s.frame.rdi s.frame.rsi s.frame.rdx)
  else if number = SYS_sigreturn then some s.sysSigreturn
  else handled.map s.apply

/-- What `syscall_dispatch` does with what the handler returns. -/
def returnResult (number : U64) : Except Errno U64 → SignalSystem
  | .ok value => { s with frame := { s.frame with rax := value } }
  | .error e =>
    let s := { s with frame := { s.frame with rax := -BitVec.ofNat 64 e.code } }
    if e = .EINTR ∧ number ≠ SYS_nanosleep then
      { s with restartable := number, interrupted := (s.entries, number) :: s.interrupted }
    else s

/-- `syscall_dispatch`, on the frame `syscall_entry` has built. -/
def syscallDispatch (handled : Option Handled) : SignalSystem :=
  let s := { s with
    frame := { s.frame with vector := VECTOR_SYSCALL, errorCode := 0 }
    entries := s.entries + 1
    restartable := NO_RESTART }
  let number := s.frame.rax
  if hasHandler number then
    match s.handle number handled with
    | none => s.doExit
    | some (result, s) => (s.returnResult number result).deliverPendingSignal
  else (s.returnResult number (.error .ENOSYS)).deliverPendingSignal

/-! ## Faults -/

def signalForVector (vector : BitVec 8) : ℕ :=
  if vector = 0 then SIGFPE
  else if vector = 6 then SIGILL
  else if vector = 17 then SIGBUS
  else SIGSEGV

/-- The vectors of `FAULT_MAPPINGS`, which `on_fault` is registered for. -/
def faultVectors : List (BitVec 8) := [0, 4, 5, 6, 12, 13, 14, 17]

/-- `on_fault` up to the delivery. -/
def faulted (vector : BitVec 8) (errorCode : U64) : SignalSystem :=
  { s with
    frame := { s.frame with vector := vector.setWidth 64, errorCode := errorCode }
    entries := s.entries + 1 }.raiseSignal (signalForVector vector)

/-! ## Steps -/

/-- One step of a process that has not exited. -/
def step : SignalStep → Option SignalSystem
  | .user frame memory =>
    if s.exited then none else some { s with frame := frame, memory := memory }
  | .raise signal => if s.exited then none else some (s.raiseSignal signal)
  | .syscall handled => if s.exited then none else some (s.syscallDispatch handled)
  | .fault vector errorCode =>
    if s.exited ∨ s.frame.fromUserspace = false ∨ vector ∉ faultVectors then none
    else some (s.faulted vector errorCode).deliverPendingSignal

/-- A thread that has just been made: no call of it has been interrupted. -/
structure Starts (s : SignalSystem) : Prop where
  restartable : s.restartable = NO_RESTART
  interrupted : s.interrupted = []
  restarts : s.restarts = []

end SignalSystem
end ShitOs
