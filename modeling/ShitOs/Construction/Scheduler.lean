import ShitOs.Construction.Abi

/-!
# The scheduler and its lists

A model of `kernel/sched/scheduler.cpp` and of the two nodes a thread is listed by.  Threads are
numbers; thread `IDLE` is the idle thread, which is never on the run queue.

A thread has one `run_queue_node`, shared by the run queue and the list of zombies, and one
`wait_queue_node`, shared by the list of sleepers and by every wait queue.  `append` on an intrusive
list does nothing when the node is already linked, whichever list it is linked on.  For the first
node `linked` is membership; for the second the flag is kept as in the source (`waitLinked`).

Every function here is one section under `s_lock` or under a queue's `m_lock`.  What the source does
in several of them (`wait`, `wake_all`, `exit_current`) is left to the components that interleave
them.  Left out: frame, FPU state, address space, and the quantum counter; `onTimerTick` is told
whether the quantum has expired.
-/

namespace ShitOs

open Function (update)

inductive ThreadState
  | Ready | Running | Blocked | Sleeping | Stopped | Zombie
  deriving DecidableEq

/-- The lists that are threaded through `wait_queue_node`. -/
inductive WaitList
  | sleepers
  | queue (q : ℕ)
  deriving DecidableEq

/-- `s_idle_thread`. -/
def IDLE : ℕ := 0

/-- The wait queue `poll_queue()` returns. -/
def POLL : ℕ := 0

/-- The state of the scheduler and of all wait queues. -/
structure Scheduler where
  threadState : ℕ → ThreadState
  current : ℕ
  runQueue : List ℕ
  zombies : List ℕ
  allThreads : List ℕ
  waitList : WaitList → List ℕ
  waitLinked : ℕ → Bool
  generation : ℕ → U64
  wakeAt : ℕ → ℕ

namespace Scheduler

/-- `thread->m_state = state`. -/
def setState (s : Scheduler) (t : ℕ) (state : ThreadState) : Scheduler :=
  { s with threadState := update s.threadState t state }

/-! ## The lists -/

/-- `s_run_queue.append`. -/
def runAppend (s : Scheduler) (t : ℕ) : Scheduler :=
  if t ∈ s.runQueue ∨ t ∈ s.zombies then s else { s with runQueue := s.runQueue ++ [t] }

/-- `append` on a list of `wait_queue_node`s. -/
def waitAppend (s : Scheduler) (l : WaitList) (t : ℕ) : Scheduler :=
  if s.waitLinked t then s
  else
    { s with
      waitList := update s.waitList l (s.waitList l ++ [t])
      waitLinked := update s.waitLinked t true }

/-- `remove` on a list of `wait_queue_node`s. -/
def waitRemove (s : Scheduler) (l : WaitList) (t : ℕ) : Scheduler :=
  if s.waitLinked t then
    { s with
      waitList := update s.waitList l ((s.waitList l).erase t)
      waitLinked := update s.waitLinked t false }
  else s

/-- `take_first` on a list of `wait_queue_node`s. -/
def waitTakeFirst (s : Scheduler) (l : WaitList) : Option ℕ × Scheduler :=
  match s.waitList l with
  | [] => (none, s)
  | t :: rest =>
    (some t,
      { s with
        waitList := update s.waitList l rest
        waitLinked := update s.waitLinked t false })

/-! ## Switching -/

def enqueue (s : Scheduler) (t : ℕ) : Scheduler :=
  let s := if t ∈ s.allThreads then s else { s with allThreads := s.allThreads ++ [t] }
  (s.setState t .Ready).runAppend t

/-- The first half of `switch_to_next`: what becomes of the thread that was running. -/
def requeueCurrent (s : Scheduler) : Scheduler :=
  if s.threadState s.current = .Running then
    let s' := s.setState s.current .Ready
    if s.current = IDLE then s' else s'.runAppend s.current
  else s

/-- The second half: the head of the run queue, or the idle thread. -/
def dispatch (s : Scheduler) : Scheduler :=
  match s.runQueue with
  | [] => { s.setState IDLE .Running with current := IDLE }
  | t :: rest => { s.setState t .Running with runQueue := rest, current := t }

/-- `switch_to_next(frame, true)`, which is also what `yield` comes down to. -/
def switchToNext (s : Scheduler) : Scheduler := s.requeueCurrent.dispatch

/-- The loop of `on_timer_tick` over the sleepers. -/
def wakeSleepers (s : Scheduler) (now : ℕ) : Scheduler :=
  (s.waitList .sleepers).foldl (fun s t =>
    if s.wakeAt t ≤ now then ((s.waitRemove .sleepers t).setState t .Ready).runAppend t else s) s

/-- `on_timer_tick`.  `expired` says whether the quantum of the current thread has run out. -/
def onTimerTick (s : Scheduler) (now : ℕ) (expired : Bool) : Scheduler :=
  let s := s.wakeSleepers now
  let someoneWaiting := !s.runQueue.isEmpty
  if !expired && !(s.current == IDLE && someoneWaiting) then s
  else if !someoneWaiting && s.threadState s.current == .Running then s
  else s.switchToNext

/-! ## Blocking and waking -/

/-- The section of `block_current` that changes the state; `yield` follows it. -/
def blockCurrent (s : Scheduler) (reason : ThreadState) : Scheduler := s.setState s.current reason

def unblock (s : Scheduler) (t : ℕ) : Scheduler :=
  if s.threadState t = .Running ∨ s.threadState t = .Ready then s
  else
    let s' := if s.threadState t = .Sleeping then s.waitRemove .sleepers t else s
    (s'.setState t .Ready).runAppend t

/-- The section of `sleep_ms` under the lock; `yield` follows it. -/
def sleepUntil (s : Scheduler) (deadline : ℕ) : Scheduler :=
  ({ s with wakeAt := update s.wakeAt s.current deadline }.setState s.current
    .Sleeping).waitAppend .sleepers s.current

/-- The section of `exit_current` under the lock; `yield` follows it. -/
def exitCurrent (s : Scheduler) : Scheduler :=
  let s' := s.setState s.current .Zombie
  if s.current ∈ s.runQueue ∨ s.current ∈ s.zombies then s'
  else { s' with zombies := s'.zombies ++ [s.current] }

/-- The section of `idle_loop` that takes one zombie off the lists, to be freed. -/
def takeZombie (s : Scheduler) : Option ℕ × Scheduler :=
  match s.zombies with
  | [] => (none, s)
  | t :: rest => (some t, { s with zombies := rest, allThreads := s.allThreads.erase t })

/-! ## Wait queues -/

/-- The first section of `WaitQueue::wait`. -/
def waitEnter (s : Scheduler) (q : ℕ) : Scheduler := s.waitAppend (.queue q) s.current

/-- The first section of `WaitQueue::wait_since`; `none` says that it returns at once. -/
def waitSinceEnter (s : Scheduler) (q : ℕ) (seen : U64) : Option Scheduler :=
  if s.generation q ≠ seen then none else some (s.waitAppend (.queue q) s.current)

def detachSelf (s : Scheduler) (q : ℕ) : Scheduler := s.waitRemove (.queue q) s.current

/-- The first section of `WaitQueue::wake_all`. -/
def bumpGeneration (s : Scheduler) (q : ℕ) : Scheduler :=
  { s with generation := update s.generation q (s.generation q + 1) }

end Scheduler

end ShitOs
