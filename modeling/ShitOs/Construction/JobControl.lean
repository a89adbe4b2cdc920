import ShitOs.Construction.Process

/-!
# Stopping and continuing, statement by statement

`ProcessSystem` takes `stop`, `resume` and `raise_signal` in pieces as large as the code between two
locks. The timer can go off inside such a piece, and whether a stopped process can be continued is
decided there. Here the three functions are taken apart into single statements of
`kernel/sched/process.cpp`; everything else is as in `Construction.Process`.

A thread has a list of `JobStatement`s still to be performed.  A call of `raise_signal`, of
`resume`, and the first part of `stop` appear there as the action that stands for the call; what is
performed in its place is the test it begins with, and the rest of its body goes on the list.  The
list of `ProcessSystem` itself plays no part.  `m_stop_signal` is not kept.
-/

namespace ShitOs

/-- An assignment to one of the flags of a process. -/
inductive StopFlag
  | isStopped (value : Bool)
  | stopPending (value : Bool)
  | continuePending (value : Bool)
  deriving DecidableEq

/-- The process after the assignment. -/
def StopFlag.assign (p : Process) : StopFlag → Process
  | .isStopped value => { p with isStopped := value }
  | .stopPending value => { p with stopPending := value }
  | .continuePending value => { p with continuePending := value }

/-- One statement of the kernel. -/
inductive JobStatement
  /-- An action of `ProcessSystem`; for `raise`, `resume` and `setStopped`, the call. -/
  | action (a : KernelAction)
  /-- `raise_signal`: stop signals and `SIGCONT` cancel each other. -/
  | cancel (p signal : ℕ)
  /-- `raise_signal`: the bit of the signal is set. -/
  | addPending (p signal : ℕ)
  /-- `raise_signal`: the test whether to `resume`. -/
  | testStopped (p signal : ℕ)
  /-- `raise_signal`: the main thread and its state are read. -/
  | readState (p : ℕ)
  /-- `stop` and `resume`: one assignment. -/
  | store (p : ℕ) (flag : StopFlag)
  deriving DecidableEq

namespace Process

/-- The first half of recording a signal. -/
def cancelled (p : Process) (signal : ℕ) : Process :=
  if signal = SIGCONT then { p with pendingSignals := p.pendingSignals &&& ~~~STOP_SIGNAL_MASK }
  else if STOP_SIGNAL_MASK &&& signalBit signal ≠ 0 then
    { p with pendingSignals := p.pendingSignals &&& ~~~signalBit SIGCONT }
  else p

/-- The second half.  Together they are `record`. -/
def withPending (p : Process) (signal : ℕ) : Process :=
  { p with pendingSignals := p.pendingSignals ||| signalBit signal }

end Process

/-- All processes and threads, and what each thread has still to do. -/
structure JobSystem where
  sys : ProcessSystem
  todo : ℕ → List JobStatement

namespace JobSystem

/-- Performs one statement: the state after it, and what it leaves to be done next. -/
def exec (s : ProcessSystem) (choice : Bool) :
    JobStatement → Option (ProcessSystem × List JobStatement)
  | .action (.raise p signal) =>
    some (s, if signal = 0 ∨ NSIG ≤ signal then []
      else [.cancel p signal, .addPending p signal, .testStopped p signal])
  | .action (.resume p) =>
    some (s, if (s.process p).isStopped then
      [.store p (.isStopped false), .store p (.stopPending false),
        .store p (.continuePending true), .action (.notifyParent p), .action (.resumeThread p)]
      else [])
  | .action .setStopped =>
    some (s, [.store s.self (.isStopped true), .store s.self (.stopPending true),
      .store s.self (.continuePending false)])
  | .action a => (s.exec choice a).map fun r => (r.1, r.2.map .action)
  | .cancel p signal => some (s.setProcess p ((s.process p).cancelled signal), [])
  | .addPending p signal => some (s.setProcess p ((s.process p).withPending signal), [])
  | .testStopped p signal =>
    some (s, if (s.process p).isStopped && (signal == SIGCONT || signal == SIGKILL) then
      [.action (.resume p)] else [.readState p])
  | .readState p =>
    match (s.process p).mainThread with
    | none => some (s, [])
    | some t =>
      some (s, if s.sched.threadState t = .Blocked ∨ s.sched.threadState t = .Sleeping then
        [.action (.unblock t)] else [])
  | .store p flag => some (s.setProcess p (flag.assign (s.process p)), [])

/-- The thread on the CPU. -/
def current (s : JobSystem) : ℕ := s.sys.sched.current

/-- The current thread performs the next of its statements. -/
def perform (s : JobSystem) (choice : Bool) : Option JobSystem :=
  match s.todo s.current with
  | [] => none
  | a :: rest =>
    (exec s.sys choice a).map fun r =>
      ⟨r.1, Function.update s.todo s.current (r.2 ++ rest)⟩

/-- The current thread, in user mode, enters the kernel. -/
def enter (s : JobSystem) (actions : List KernelAction) : Option JobSystem :=
  if s.current ≠ IDLE ∧ s.todo s.current = [] then
    some { s with todo := Function.update s.todo s.current (actions.map .action) }
  else none

/-- The section of `idle_loop` that takes a zombie. -/
def reap (s : JobSystem) : Option JobSystem :=
  if s.current = IDLE ∧ s.todo IDLE = [] then
    match s.sys.sched.takeZombie with
    | (none, _) => none
    | (some t, sched) =>
      some ⟨{ s.sys with sched := sched },
        Function.update s.todo IDLE [.action (.freeThread t)]⟩
  else none

/-- `deliver_pending_signal`. -/
def deliver (s : JobSystem) (disposition : Disposition) : Option JobSystem :=
  let taken := (s.sys.process s.sys.self).takePendingSignal
  enter { s with sys := s.sys.setProcess s.sys.self taken.2 }
    (ProcessSystem.deliverActions s.sys.self taken.1 disposition)

/-- One step of the system. -/
def step (s : JobSystem) : ProcessStep → Option JobSystem
  | .tick now expired =>
    some { s with sys := { s.sys with sched := s.sys.sched.onTimerTick now expired } }
  | .perform choice => s.perform choice
  | .fork => s.enter [.createChild]
  | .exit => s.enter (ProcessSystem.exitActions s.sys.self)
  | .waitpid wanted options => s.enter [.scan wanted options]
  | .kill pid signal => s.enter (s.sys.killActions pid signal)
  | .setpgid pid pgid => s.enter [.findTarget pid pgid]
  | .setsid => s.enter [.startSession]
  | .deliver disposition => s.deliver disposition
  | .reap => s.reap

/-- After boot. -/
def initial : JobSystem := ⟨ProcessSystem.initial, fun _ => []⟩

end JobSystem

end ShitOs
