import ShitOs.Construction.Scheduler
import Mathlib.Data.Int.Notation

/-!
# Processes, their threads, and who frees them

A model of the part of `kernel/sched/process.cpp` and `kernel/sys/syscall.cpp` that decides how
long a `Process` and its `Thread` live and who is told of an exit: `sys_fork`, `do_exit`,
`sys_waitpid`, `sys_kill`, `sys_setpgid`, `sys_setsid`, the delivery of signals that stop, continue
or kill, the timer, and the idle thread's reaper.

Objects are numbers.  `process p` is what the object `p` holds, `processes` is the list
`s_processes`, and an object is created under a number that has never been used; `destroyed p` and
`freed t` say that the destructor has run.  Object `KERNEL` is the kernel's own process, which has
no main thread.

The kernel can be preempted whenever no lock is held, so a call is a list of *actions*, each one
section under a lock together with the unlocked code that leads to it; unlocked code that decides
about a later section is an action of its own.  `todo t` is what thread `t` has still to do before
it is back in user mode.  `choice` resolves what the model leaves open: whether an allocation
succeeds.

Left out: descriptors, working directory, terminal, address space, wait status, and the handlers'
table, in whose place the label of a delivery carries the disposition.  Process numbers are
unbounded.
-/

namespace ShitOs

open Function (update)

/-! ## Signals -/

def SIGKILL : ℕ := 9
def SIGCHLD : ℕ := 17
def SIGCONT : ℕ := 18
def SIGSTOP : ℕ := 19
def SIGTSTP : ℕ := 20
def SIGTTIN : ℕ := 21
def SIGTTOU : ℕ := 22
def SIGURG : ℕ := 23
def SIGWINCH : ℕ := 28
def NSIG : ℕ := 32

def WNOHANG : BitVec 32 := 1
def WUNTRACED : BitVec 32 := 2
def WCONTINUED : BitVec 32 := 8

/-- `1ULL << signal`. -/
def signalBit (signal : ℕ) : U64 := 1#64 <<< signal

def STOP_SIGNAL_MASK : U64 :=
  signalBit SIGSTOP ||| signalBit SIGTSTP ||| signalBit SIGTTIN ||| signalBit SIGTTOU

def UNBLOCKABLE_SIGNALS : U64 := signalBit SIGKILL ||| signalBit SIGSTOP

def signalStopsByDefault (signal : ℕ) : Bool :=
  signal == SIGSTOP || signal == SIGTSTP || signal == SIGTTIN || signal == SIGTTOU

def signalTerminatesByDefault (signal : ℕ) : Bool :=
  !(signal == SIGCHLD || signal == SIGURG || signal == SIGWINCH || signal == SIGCONT ||
    signalStopsByDefault signal)

/-- What `signal_disposition` answers. -/
inductive Disposition
  | default
  | ignore
  | handler
  deriving DecidableEq

/-! ## Processes -/

/-- What a `Process` holds. -/
structure Process where
  pid : ℤ
  parentPid : ℤ
  pgid : ℤ
  sid : ℤ
  mainThread : Option ℕ
  hasExited : Bool
  isStopped : Bool
  stopPending : Bool
  continuePending : Bool
  pendingSignals : U64
  signalMask : U64
  deriving DecidableEq

namespace Process

/-- The signals that may be delivered. -/
def deliverable (p : Process) : U64 :=
  p.pendingSignals &&& ~~~(p.signalMask &&& ~~~UNBLOCKABLE_SIGNALS)

def hasPendingSignals (p : Process) : Bool := p.deliverable != 0

/-- `take_pending_signal`; `0` when there is none. -/
def takePendingSignal (p : Process) : ℕ × Process :=
  match (List.range 64).find? p.deliverable.getLsbD with
  | none => (0, p)
  | some signal => (signal, { p with pendingSignals := p.pendingSignals &&& ~~~signalBit signal })

/-- The part of `raise_signal` that records the signal. -/
def record (p : Process) (signal : ℕ) : Process :=
  let pending :=
    if signal = SIGCONT then p.pendingSignals &&& ~~~STOP_SIGNAL_MASK
    else if STOP_SIGNAL_MASK &&& signalBit signal ≠ 0 then
      p.pendingSignals &&& ~~~signalBit SIGCONT
    else p.pendingSignals
  { p with pendingSignals := pending ||| signalBit signal }

end Process

/-- `s_kernel_process`. -/
def KERNEL : ℕ := 0

/-- How many processes `for_each_in_group` collects. -/
def MAX_GROUP : ℕ := 64

/-- One section of a kernel call. -/
inductive KernelAction
  /-- `Process::create` up to the section that hands out the pid. -/
  | createChild
  /-- The section of `Process::create` that appends to `s_processes`. -/
  | appendChild (p : ℕ)
  /-- The rest of `sys_fork`: the clone, the thread, `add_thread` and `enqueue`. -/
  | startChild (p : ℕ)
  /-- `mark_exited` sets `m_has_exited`. -/
  | setExited
  /-- The section of `mark_exited` that hands the children to init. -/
  | reparent
  /-- `by_pid(m_parent_pid)`, and what is then done to the parent of `p`. -/
  | notifyParent (p : ℕ)
  /-- `raise_signal` up to the decision whether to unblock. -/
  | raise (p signal : ℕ)
  /-- `resume` up to the lookup of the parent. -/
  | resume (p : ℕ)
  /-- The end of `resume`: `unblock` of the main thread. -/
  | resumeThread (p : ℕ)
  /-- `Scheduler::unblock`. -/
  | unblock (t : ℕ)
  /-- `wake_all`: the generation, and the loop. -/
  | bump (q : ℕ)
  | take (q : ℕ)
  /-- `reap_child`: the scan under the lock, and what follows from it. -/
  | scan (wanted : ℤ) (options : BitVec 32)
  | report (p : ℕ)
  | remove (p : ℕ)
  | destroy (p : ℕ)
  | checkSignals (wanted : ℤ) (options : BitVec 32)
  /-- `WaitQueue::wait` and `block_current`. -/
  | waitEnter (q : ℕ)
  | block (reason : ThreadState)
  | yield
  | detach (q : ℕ)
  /-- `stop` sets the flags. -/
  | setStopped
  /-- The end of `stop`. -/
  | blockIfMain
  /-- `sys_kill` on a group: the check, and the collecting. -/
  | groupExists (group : ℤ) (signal : ℕ)
  | collectGroup (group : ℤ) (signal : ℕ)
  /-- `sys_kill` on everybody, all of it under the lock. -/
  | broadcast (signal : ℕ)
  /-- `sys_kill` on one process: the lookup. -/
  | lookup (pid : ℤ) (signal : ℕ)
  /-- `set_process_group`: the lookup of the target, the checks with the search for the group, and
  the store to `m_pgid`. -/
  | findTarget (pid pgid : ℤ)
  | checkGroup (target : ℕ) (pgid : ℤ)
  | setGroup (p : ℕ) (pgid : ℤ)
  /-- `start_session` up to the store to `m_sid`. -/
  | startSession
  /-- The section of `exit_current`. -/
  | exitCurrent
  /-- `panic("a zombie thread was scheduled again")`. -/
  | panicZombie
  /-- The idle thread frees a thread it has taken off the list of zombies. -/
  | freeThread (t : ℕ)
  deriving DecidableEq

/-- All processes and threads. -/
structure ProcessSystem where
  sched : Scheduler
  processes : List ℕ
  process : ℕ → Process
  nextProcess : ℕ
  nextPid : ℤ
  processOf : ℕ → Option ℕ
  nextThread : ℕ
  destroyed : ℕ → Bool
  freed : ℕ → Bool
  todo : ℕ → List KernelAction

/-- One step.  All but `tick` are steps of the current thread. -/
inductive ProcessStep
  | tick (now : ℕ) (expired : Bool)
  | perform (choice : Bool)
  | fork
  | exit
  | waitpid (wanted : ℤ) (options : BitVec 32)
  | kill (pid : ℤ) (signal : ℕ)
  | setpgid (pid pgid : ℤ)
  | setsid
  | deliver (disposition : Disposition)
  | reap
  deriving DecidableEq

namespace ProcessSystem

/-- The queue a parent blocks on, `m_child_exit_queue`. -/
def childExitQueue (p : ℕ) : ℕ := p + 1

/-- `Process::current`. -/
def self (s : ProcessSystem) : ℕ := (s.processOf s.sched.current).getD KERNEL

def byPid (s : ProcessSystem) (pid : ℤ) : Option ℕ :=
  s.processes.find? fun p => (s.process p).pid == pid

/-- Process `p` changes. -/
def setProcess (s : ProcessSystem) (p : ℕ) (process : Process) : ProcessSystem :=
  { s with process := update s.process p process }

/-! ## Waiting for a child -/

/-- What the scan of `reap_child` finds. -/
structure Scan where
  anyChildren : Bool
  finished : Option ℕ
  changed : Option ℕ

/-- Whether `reap_child(wanted)` called by `self` is about process `child`. -/
def selects (s : ProcessSystem) (self : ℕ) (wanted : ℤ) (child : ℕ) : Bool :=
  let c := s.process child
  c.parentPid == (s.process self).pid && child != self &&
    !(0 < wanted && c.pid != wanted) &&
    !(wanted == 0 && c.pgid != (s.process self).pgid) &&
    !(wanted < -1 && c.pgid != -wanted)

/-- Whether a stop or a continue of process `child` is to be reported. -/
def reportable (s : ProcessSystem) (options : BitVec 32) (child : ℕ) : Bool :=
  (options &&& WUNTRACED != 0 && (s.process child).stopPending) ||
    (options &&& WCONTINUED != 0 && (s.process child).continuePending)

/-- The loop of `reap_child` over `s_processes`. -/
def scanChildren (s : ProcessSystem) (self : ℕ) (wanted : ℤ) (options : BitVec 32) :
    List ℕ → Scan → Scan
  | [], found => found
  | child :: rest, found =>
    if s.selects self wanted child then
      if (s.process child).hasExited then
        { found with anyChildren := true, finished := some child }
      else
        let changed := if found.changed.isNone && s.reportable options child then some child
          else found.changed
        scanChildren s self wanted options rest
          { found with anyChildren := true, changed := changed }
    else scanChildren s self wanted options rest found

/-- What `reap_child` does next. -/
def afterScan (s : ProcessSystem) (wanted : ℤ) (options : BitVec 32) (found : Scan) :
    List KernelAction :=
  match found.changed, found.finished with
  | some p, _ => [.report p]
  | none, some p => [.remove p, .destroy p]
  | none, none =>
    if !found.anyChildren then []
    else if options &&& WNOHANG ≠ 0 then []
    else
      [.waitEnter (childExitQueue s.self), .block .Blocked, .yield,
        .detach (childExitQueue s.self), .checkSignals wanted options]

/-! ## Signals -/

/-- What `raise_signal` does after it has recorded the signal. -/
def afterRaise (s : ProcessSystem) (p signal : ℕ) : List KernelAction :=
  if (s.process p).isStopped && (signal == SIGCONT || signal == SIGKILL) then [.resume p]
  else
    match (s.process p).mainThread with
    | none => []
    | some t =>
      if s.sched.threadState t = .Blocked ∨ s.sched.threadState t = .Sleeping then [.unblock t]
      else []

/-- `raise_signal` with `s_process_lock` held and so in one piece.  `resume` takes that lock
again and never gets it. -/
def raiseLocked (s : ProcessSystem) (p signal : ℕ) : Option ProcessSystem :=
  if signal = 0 ∨ NSIG ≤ signal then some s
  else
    let s := s.setProcess p ((s.process p).record signal)
    match s.afterRaise p signal with
    | .resume _ :: _ => none
    | .unblock t :: _ => some { s with sched := s.sched.unblock t }
    | _ => some s

/-- The callback of `kill(-1)`. -/
def broadcastTo (signal : ℕ) (caller : ℤ) (s : ProcessSystem) (p : ℕ) : Option ProcessSystem :=
  if (s.process p).pid ≤ 1 ∨ (s.process p).pid = caller then some s else s.raiseLocked p signal

/-- The actions of `do_exit`. -/
def exitActions (self : ℕ) : List KernelAction :=
  [.setExited, .reparent, .notifyParent self, .exitCurrent, .yield, .panicZombie]

/-- The actions of `stop`. -/
def stopActions (self : ℕ) : List KernelAction := [.setStopped, .notifyParent self, .blockIfMain]

/-- What `deliver_pending_signal` does about `signal`. -/
def deliverActions (self signal : ℕ) (disposition : Disposition) : List KernelAction :=
  if signal = 0 then []
  else if signal = SIGKILL then exitActions self
  else if signal = SIGSTOP then stopActions self
  else if signal = SIGCONT then [.resume self]
  else
    match disposition with
    | .ignore => []
    | .handler => []
    | .default =>
      if signalStopsByDefault signal then stopActions self
      else if signalTerminatesByDefault signal then exitActions self
      else []

/-- The actions of `sys_kill`. -/
def killActions (s : ProcessSystem) (pid : ℤ) (signal : ℕ) : List KernelAction :=
  if NSIG ≤ signal then []
  else if pid < -1 ∨ pid = 0 then
    [.groupExists (if pid = 0 then (s.process s.self).pgid else -pid) signal]
  else if pid = -1 then (if signal = 0 then [] else [.broadcast signal])
  else [.lookup pid signal]

/-! ## Process groups -/

/-- The loop of `set_process_group` that looks for the group in the session. -/
def groupInSession (s : ProcessSystem) (pgid sid : ℤ) : Bool :=
  s.processes.any fun p => (s.process p).pgid == pgid && (s.process p).sid == sid

/-- The checks of `set_process_group` once the target is known. -/
def mayJoin (s : ProcessSystem) (target : ℕ) (wanted : ℤ) : Bool :=
  let t := s.process target
  let caller := s.process s.self
  (target == s.self || t.parentPid == caller.pid) && t.sid == caller.sid && t.pid != t.sid &&
    (wanted == t.pid || s.groupInSession wanted caller.sid)

/-! ## One action -/

/-- The child `Process::create` makes of `parent`. -/
def childOf (parent : Process) (pid : ℤ) : Process where
  pid := pid
  parentPid := parent.pid
  pgid := parent.pgid
  sid := parent.sid
  mainThread := none
  hasExited := false
  isStopped := false
  stopPending := false
  continuePending := false
  pendingSignals := 0
  signalMask := parent.signalMask

/-- `add_thread` and `enqueue` of a thread that has just been made for process `p`. -/
def addThread (s : ProcessSystem) (p : ℕ) : ProcessSystem :=
  let t := s.nextThread
  let process := { s.process p with mainThread := some ((s.process p).mainThread.getD t) }
  { s.setProcess p process with
    sched := s.sched.enqueue t
    processOf := update s.processOf t (some p)
    nextThread := t + 1
    freed := update s.freed t false }

/-- Performs one action: the state after it, and what it leaves to be done next.  `none` says
that the kernel does not get past it. -/
def exec (s : ProcessSystem) (choice : Bool) :
    KernelAction → Option (ProcessSystem × List KernelAction)
  | .createChild =>
    if choice then
      let p := s.nextProcess
      some
        ({ s.setProcess p (childOf (s.process s.self) s.nextPid) with
            nextProcess := p + 1
            nextPid := s.nextPid + 1
            destroyed := update s.destroyed p false },
          [.appendChild p, .startChild p])
    else some (s, [])
  | .appendChild p =>
    some ({ s with processes := if p ∈ s.processes then s.processes else s.processes ++ [p] },
      [])
  | .startChild p => some (if choice then s.addThread p else s, [])
  | .setExited => some (s.setProcess s.self { s.process s.self with hasExited := true }, [])
  | .reparent =>
    let pid := (s.process s.self).pid
    some
      ({ s with
          process := fun p =>
            if p ∈ s.processes ∧ (s.process p).parentPid = pid then
              { s.process p with parentPid := 1 }
            else s.process p },
        [])
  | .notifyParent p =>
    match s.byPid (s.process p).parentPid with
    | none => some (s, [])
    | some parent => some (s, [.raise parent SIGCHLD, .bump (childExitQueue parent)])
  | .raise p signal =>
    if signal = 0 ∨ NSIG ≤ signal then some (s, [])
    else some (s.setProcess p ((s.process p).record signal), s.afterRaise p signal)
  | .resume p =>
    if (s.process p).isStopped then
      some
        (s.setProcess p
          { s.process p with isStopped := false, stopPending := false, continuePending := true },
          [.notifyParent p, .resumeThread p])
    else some (s, [])
  | .resumeThread p =>
    match (s.process p).mainThread with
    | none => some (s, [])
    | some t => some ({ s with sched := s.sched.unblock t }, [])
  | .unblock t => some ({ s with sched := s.sched.unblock t }, [])
  | .bump q => some ({ s with sched := s.sched.bumpGeneration q }, [.take q])
  | .take q =>
    match s.sched.waitTakeFirst (.queue q) with
    | (some t, sched) => some ({ s with sched := sched }, [.unblock t, .take q])
    | (none, _) => some (s, if q ≠ POLL then [.bump POLL] else [])
  | .scan wanted options =>
    some (s, s.afterScan wanted options
      (s.scanChildren s.self wanted options s.processes ⟨false, none, none⟩))
  | .report p =>
    if (s.process p).stopPending then
      some (s.setProcess p { s.process p with stopPending := false }, [])
    else some (s.setProcess p { s.process p with continuePending := false }, [])
  | .remove p => some ({ s with processes := s.processes.erase p }, [])
  | .destroy p => some ({ s with destroyed := update s.destroyed p true }, [])
  | .checkSignals wanted options =>
    some (s, if (s.process s.self).hasPendingSignals then [] else [.scan wanted options])
  | .waitEnter q => some ({ s with sched := s.sched.waitEnter q }, [])
  | .block reason => some ({ s with sched := s.sched.blockCurrent reason }, [])
  | .yield => some ({ s with sched := s.sched.switchToNext }, [])
  | .detach q => some ({ s with sched := s.sched.detachSelf q }, [])
  | .setStopped =>
    some
      (s.setProcess s.self
        { s.process s.self with isStopped := true, stopPending := true, continuePending := false },
        [])
  | .blockIfMain =>
    some (s, if (s.process s.self).mainThread = some s.sched.current then
      [.block .Stopped, .yield] else [])
  | .groupExists group signal =>
    some (s, if s.processes.any (fun p => (s.process p).pgid == group &&
      !(s.process p).hasExited) && signal != 0 then [.collectGroup group signal] else [])
  | .collectGroup group signal =>
    some (s, ((s.processes.filter fun p => (s.process p).pgid == group &&
      !(s.process p).hasExited).take MAX_GROUP).map (.raise · signal))
  | .broadcast signal =>
    (s.processes.foldlM (broadcastTo signal (s.process s.self).pid) s).map (·, [])
  | .lookup pid signal =>
    match s.byPid pid with
    | none => some (s, [])
    | some p => some (s, if signal = 0 then [] else [.raise p signal])
  | .findTarget pid pgid =>
    if pid < 0 ∨ pgid < 0 then some (s, [])
    else
      match if pid = 0 then some s.self else s.byPid pid with
      | none => some (s, [])
      | some target => some (s, [.checkGroup target pgid])
  | .checkGroup target pgid =>
    let wanted := if pgid = 0 then (s.process target).pid else pgid
    some (s, if s.mayJoin target wanted then [.setGroup target wanted] else [])
  | .setGroup p pgid => some (s.setProcess p { s.process p with pgid := pgid }, [])
  | .startSession =>
    let pid := (s.process s.self).pid
    if pid = (s.process s.self).pgid then some (s, [])
    else some (s.setProcess s.self { s.process s.self with sid := pid }, [.setGroup s.self pid])
  | .exitCurrent => some ({ s with sched := s.sched.exitCurrent }, [])
  | .panicZombie => none
  | .freeThread t => some ({ s with freed := update s.freed t true }, [])

/-! ## Steps -/

/-- The current thread goes on with `actions`. -/
def goOn (s : ProcessSystem) (actions : List KernelAction) : ProcessSystem :=
  { s with todo := update s.todo s.sched.current actions }

/-- The current thread performs the next of its actions. -/
def perform (s : ProcessSystem) (choice : Bool) : Option ProcessSystem :=
  match s.todo s.sched.current with
  | [] => none
  | action :: rest =>
    (s.exec choice action).map fun r =>
      { r.1 with todo := update r.1.todo s.sched.current (r.2 ++ rest) }

/-- The current thread, in user mode, enters the kernel. -/
def enter (s : ProcessSystem) (actions : List KernelAction) : Option ProcessSystem :=
  if s.sched.current ≠ IDLE ∧ s.todo s.sched.current = [] then some (s.goOn actions) else none

/-- The section of `idle_loop` that takes a zombie. -/
def reap (s : ProcessSystem) : Option ProcessSystem :=
  if s.sched.current = IDLE ∧ s.todo IDLE = [] then
    match s.sched.takeZombie with
    | (none, _) => none
    | (some t, sched) => some ({ s with sched := sched }.goOn [.freeThread t])
  else none

/-- `deliver_pending_signal`. -/
def deliver (s : ProcessSystem) (disposition : Disposition) : Option ProcessSystem :=
  let taken := (s.process s.self).takePendingSignal
  (s.setProcess s.self taken.2).enter (deliverActions s.self taken.1 disposition)

/-- One step of the system. -/
def step (s : ProcessSystem) : ProcessStep → Option ProcessSystem
  | .tick now expired => some { s with sched := s.sched.onTimerTick now expired }
  | .perform choice => s.perform choice
  | .fork => s.enter [.createChild]
  | .exit => s.enter (exitActions s.self)
  | .waitpid wanted options => s.enter [.scan wanted options]
  | .kill pid signal => s.enter (s.killActions pid signal)
  | .setpgid pid pgid => s.enter [.findTarget pid pgid]
  | .setsid => s.enter [.startSession]
  | .deliver disposition => s.deliver disposition
  | .reap => s.reap

/-- After boot: the kernel's process and init are on the list, init's thread is ready, and the
idle thread has the CPU. -/
def initial : ProcessSystem where
  sched :=
    { threadState := fun t => if t = IDLE then .Running else .Ready
      current := IDLE
      runQueue := [1]
      zombies := []
      allThreads := [IDLE, 1]
      waitList := fun _ => []
      waitLinked := fun _ => false
      generation := fun _ => 0
      wakeAt := fun _ => 0 }
  processes := [KERNEL, 1]
  process := fun p =>
    { pid := p
      parentPid := 0
      pgid := p
      sid := p
      mainThread := if p = 1 then some 1 else none
      hasExited := false
      isStopped := false
      stopPending := false
      continuePending := false
      pendingSignals := 0
      signalMask := 0 }
  nextProcess := 2
  nextPid := 2
  processOf := fun t => if t = 1 then some 1 else none
  nextThread := 2
  destroyed := fun _ => false
  freed := fun _ => false
  todo := fun _ => []

end ProcessSystem

end ShitOs
