import ShitOs.Construction.Scheduler

/-!
# Threads, wakers and the timer

Everything that moves a thread between the lists of the scheduler, each section under a lock as one
step.  A thread moves only while it is on the CPU; `ThreadPc` says in which call of the scheduler it
is, if in any, and which section of it comes next.  The timer may interrupt it between any two
sections.

A waker is a `wake_one`, a turn of the loop of `wake_all`, or the delivery of a signal.  It first
gets hold of a thread -- the first one of a wait queue, which it takes off the queue, or for a
signal the thread of a process -- and in a later section unblocks it.  Both sections are possible at
any time.
-/

namespace ShitOs

open Function (update)

/-- Where a thread is. -/
inductive ThreadPc
  /-- In no call of the scheduler. -/
  | run
  /-- In `WaitQueue::wait`, on the list of queue `q`, before the state change of `block_current`. -/
  | block (q : ℕ)
  /-- In `WaitQueue::wait`, before the `yield` of `block_current`. -/
  | yieldWait (q : ℕ)
  /-- In `WaitQueue::wait`, before `detach_self`. -/
  | detach (q : ℕ)
  /-- In `sleep_ms` or in the `block_current` of `Process::stop`, before the `yield`. -/
  | yieldBack
  /-- In `exit_current`, before or behind its `yield`. -/
  | exiting
  deriving DecidableEq

/-- The scheduler, where every thread is, and which thread each waker has got hold of. -/
structure ThreadSystem where
  sched : Scheduler
  pc : ℕ → ThreadPc
  hand : ℕ → Option ℕ

/-- One section.  Those without a thread are performed by the current one. -/
inductive ThreadStep
  | tick (now : ℕ) (expired : Bool)
  /-- A new thread is made known to the scheduler. -/
  | enqueue (t : ℕ)
  | wait (q : ℕ)
  | waitSince (q : ℕ) (seen : U64)
  | block
  | stop
  | sleep (deadline : ℕ)
  | exit
  | yield
  | detach
  /-- The idle thread takes a zombie off the lists and frees it. -/
  | reap
  /-- Waker `w` takes the first thread off a wait queue. -/
  | take (w q : ℕ)
  /-- Waker `w` is to wake thread `t` for a signal. -/
  | aim (w t : ℕ)
  /-- Waker `w` unblocks its thread. -/
  | deliver (w : ℕ)
  | bump (q : ℕ)
  deriving DecidableEq

namespace ThreadSystem

/-- The boot thread runs, and there is no other one but the idle thread. -/
def initial (boot : ℕ) : ThreadSystem where
  sched :=
    { threadState := fun t => if t = boot then .Running else .Ready
      current := boot
      runQueue := []
      zombies := []
      allThreads := [IDLE, boot]
      waitList := fun _ => []
      waitLinked := fun _ => false
      generation := fun _ => 0
      wakeAt := fun _ => 0 }
  pc := fun _ => .run
  hand := fun _ => none

variable (s : ThreadSystem)

/-- The current thread performs a section and goes on to `pc`. -/
def goTo (sched : Scheduler) (pc : ThreadPc) : ThreadSystem :=
  { s with sched := sched, pc := update s.pc s.sched.current pc }

/-- What a thread does next once it has been given the CPU again. -/
def afterYield : ThreadPc → Option ThreadPc
  | .run => some .run
  | .yieldWait q => some (.detach q)
  | .yieldBack => some .run
  | .exiting => some .exiting
  | .block _ | .detach _ => none

/-- A thread in ordinary code, other than the idle thread, has the CPU. -/
def Free : Prop := s.sched.current ≠ IDLE ∧ s.pc s.sched.current = .run

instance : Decidable s.Free := by
  unfold Free
  infer_instance

/-- One section. -/
def step : ThreadStep → Option ThreadSystem
  | .tick now expired => some { s with sched := s.sched.onTimerTick now expired }
  | .enqueue t =>
    if t ≠ IDLE ∧ t ∉ s.sched.allThreads then
      some { s with sched := s.sched.enqueue t, pc := update s.pc t .run }
    else none
  | .wait q => if s.Free then some (s.goTo (s.sched.waitEnter q) (.block q)) else none
  | .waitSince q seen =>
    if s.Free then
      match s.sched.waitSinceEnter q seen with
      | none => some s
      | some sched => some (s.goTo sched (.block q))
    else none
  | .block =>
    match s.pc s.sched.current with
    | .block q => some (s.goTo (s.sched.blockCurrent .Blocked) (.yieldWait q))
    | _ => none
  | .stop => if s.Free then some (s.goTo (s.sched.blockCurrent .Stopped) .yieldBack) else none
  | .sleep deadline => if s.Free then some (s.goTo (s.sched.sleepUntil deadline) .yieldBack)
      else none
  | .exit => if s.Free then some (s.goTo s.sched.exitCurrent .exiting) else none
  | .yield =>
    if s.sched.current = IDLE then none
    else (afterYield (s.pc s.sched.current)).map (s.goTo s.sched.switchToNext)
  | .detach =>
    match s.pc s.sched.current with
    | .detach q => some (s.goTo (s.sched.detachSelf q) .run)
    | _ => none
  | .reap => if s.sched.current = IDLE then some { s with sched := s.sched.takeZombie.2 } else none
  | .take w q =>
    match s.hand w with
    | none =>
      let taken := s.sched.waitTakeFirst (.queue q)
      some { s with sched := taken.2, hand := update s.hand w taken.1 }
    | some _ => none
  | .aim w t =>
    if s.hand w = none ∧ t ∈ s.sched.allThreads ∧ s.sched.threadState t ≠ .Zombie then
      some { s with hand := update s.hand w (some t) }
    else none
  | .deliver w =>
    match s.hand w with
    | none => none
    | some t => some { s with sched := s.sched.unblock t, hand := update s.hand w none }
  | .bump q => some { s with sched := s.sched.bumpGeneration q }

end ThreadSystem

end ShitOs
