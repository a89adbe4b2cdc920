import ShitOs.Construction.Scheduler

/-!
# Waiting for a condition

Any number of threads run `while (!cond) queue.wait();`, or the same loop over `wait_since` with a
generation read before each test, and any number of wakers run `cond = true; queue.wake_all();`.  So
`PipeBuffer::read`, `reap_child` and `sys_poll` wait.

One step is one section under a lock, one test of the condition, or one timer tick.  A waiter moves
only while it is on the CPU, which the timer may take from it between any two steps.  A waker moves
at any time. `WaiterPc` and `WakerPc` say which section comes next.
-/

namespace ShitOs

open Function (update)

/-- Which of the two calls a waiter loops over. -/
inductive WaitCall
  | wait
  | waitSince
  deriving DecidableEq

/-- What the waiters and the wakers are doing: which queue each thread waits on, by which call,
and which queue the wakers wake. -/
structure WaitSetup where
  queueOf : ℕ → ℕ
  call : ℕ → WaitCall
  wakes : ℕ

/-- Where a waiter is.  `seen` is the generation it read, which `wait` does not look at. -/
inductive WaiterPc
  /-- About to read the generation. -/
  | readGeneration
  /-- About to test the condition. -/
  | test (seen : U64)
  /-- In `wait` or `wait_since`, before the section that appends the thread. -/
  | enter (seen : U64)
  /-- In `block_current`, before the state change. -/
  | block
  /-- In `block_current`, before `yield`. -/
  | yield
  /-- Back from `yield`, before `detach_self`. -/
  | detach
  /-- Out of the loop. -/
  | leave
  deriving DecidableEq

/-- Where a waker is. -/
inductive WakerPc
  /-- Before `cond = true`. -/
  | idle
  /-- In `wake_all` of queue `q`, before the generation is bumped. -/
  | bump (q : ℕ)
  /-- In its loop, before `take_first`. -/
  | take (q : ℕ)
  /-- In its loop, before `unblock` of the thread it took. -/
  | unblock (q t : ℕ)
  deriving DecidableEq

/-- The scheduler, the condition, and where everybody is. -/
structure WakeSystem where
  sched : Scheduler
  cond : Bool
  waiter : ℕ → WaiterPc
  waker : ℕ → WakerPc

/-- One step of the system.  The waiter that moves is the current thread. -/
inductive WakeStep
  | tick (now : ℕ) (expired : Bool)
  | waiter
  | waker (w : ℕ)
  deriving DecidableEq

namespace WaitSetup

variable (c : WaitSetup)

/-- The top of the loop of thread `t`. -/
def top (t : ℕ) : WaiterPc :=
  match c.call t with
  | .wait => .test 0
  | .waitSince => .readGeneration

/-- Nobody has started: the threads are on the run queue and the idle thread has the CPU. -/
def initial (threads : List ℕ) : WakeSystem where
  sched :=
    { threadState := fun t => if t = IDLE then .Running else .Ready
      current := IDLE
      runQueue := threads
      zombies := []
      allThreads := IDLE :: threads
      waitList := fun _ => []
      waitLinked := fun _ => false
      generation := fun _ => 0
      wakeAt := fun _ => 0 }
  cond := false
  waiter := c.top
  waker := fun _ => .idle

/-- The current thread goes on to `pc`. -/
def goTo (s : WakeSystem) (sched : Scheduler) (pc : WaiterPc) : WakeSystem :=
  { s with sched := sched, waiter := update s.waiter s.sched.current pc }

/-- One step of the loop of the current thread. -/
def waiterStep (s : WakeSystem) : Option WakeSystem :=
  let t := s.sched.current
  if t = IDLE then none
  else
    match s.waiter t with
    | .readGeneration => some (goTo s s.sched (.test (s.sched.generation (c.queueOf t))))
    | .test seen => some (goTo s s.sched (if s.cond then .leave else .enter seen))
    | .enter seen =>
      match c.call t with
      | .wait => some (goTo s (s.sched.waitEnter (c.queueOf t)) .block)
      | .waitSince =>
        match s.sched.waitSinceEnter (c.queueOf t) seen with
        | none => some (goTo s s.sched (c.top t))
        | some sched => some (goTo s sched .block)
    | .block => some (goTo s (s.sched.blockCurrent .Blocked) .yield)
    | .yield => some (goTo s s.sched.switchToNext .detach)
    | .detach => some (goTo s (s.sched.detachSelf (c.queueOf t)) (c.top t))
    | .leave => none

/-- One step of waker `w`.  Every `wake_all` ends with the one of the poll queue. -/
def wakerStep (s : WakeSystem) (w : ℕ) : WakeSystem :=
  match s.waker w with
  | .idle => { s with cond := true, waker := update s.waker w (.bump c.wakes) }
  | .bump q =>
    { s with
      sched := s.sched.bumpGeneration q
      waker := update s.waker w (.take q) }
  | .take q =>
    match s.sched.waitTakeFirst (.queue q) with
    | (some t, sched) =>
      { s with sched := sched, waker := update s.waker w (.unblock q t) }
    | (none, _) =>
      { s with waker := update s.waker w (if q ≠ POLL then .bump POLL else .idle) }
  | .unblock q t =>
    { s with
      sched := s.sched.unblock t
      waker := update s.waker w (.take q) }

/-- One step of the system. -/
def step (s : WakeSystem) : WakeStep → Option WakeSystem
  | .tick now expired => some { s with sched := s.sched.onTimerTick now expired }
  | .waiter => c.waiterStep s
  | .waker w => some (c.wakerStep s w)

/-- The waker has begun `wake_all` and not come to its end. -/
def inWakeAll : WakerPc → Prop
  | .idle => False
  | .bump q => q ≠ c.wakes
  | .take _ => True
  | .unblock _ _ => True

/-- Thread `t` sleeps although the condition holds, nobody is about to wake it, and nobody can:
it is on no list. -/
def Lost (s : WakeSystem) (t : ℕ) : Prop :=
  s.cond = true ∧ (∀ w, ¬ c.inWakeAll (s.waker w)) ∧ s.sched.threadState t = .Blocked ∧
    (∀ q, t ∉ s.sched.waitList (.queue q)) ∧ t ∉ s.sched.runQueue

end WaitSetup

end ShitOs
