import ShitOs.Construction.Pipe

/-!
# Opening a FIFO (`PipeBuffer::await_peer` and the FIFO path of `open`)

Opening one end of a FIFO waits for the other.  An opener counts itself as pending and as arrived,
wakes whoever waits, notes how many peers have arrived so far, and then loops: it goes on when a
peer is present or another one has arrived.  Only after it has stopped counting as pending does
`open` create the description, and that is what counts as an open end.

The kernel can be preempted between any two statements, so one step of an opener is one statement
that others can see (`OpenerPc` says which comes next).  Going to sleep is a step of its own: from
the test on until `block_current` has changed its state an opener is `entering` the queue, and a
wake-up passes it by.  `wake_all` is one step, and reads and writes are the stretches of
`Construction/Pipe.lean`.

Every step has a time, at which no code looks.
-/

namespace ShitOs

/-- Which statement of `open` comes next.  From its announcement on an opener carries the time of
it. -/
inductive OpenerPc
  | idle
  /-- `++m_pending_…` -/
  | announce
  /-- `++m_…_arrivals` -/
  | arrive (since : ℕ)
  /-- `m_open_queue.wake_all()` in `await_peer` -/
  | wakePeers (since : ℕ)
  /-- `arrivals_at_entry = …` -/
  | snapshot (since : ℕ)
  /-- The test of the loop. -/
  | test (since arrivalsAtEntry : ℕ)
  /-- The test has failed, and the opener is not blocked yet. -/
  | entering (since arrivalsAtEntry : ℕ)
  /-- In `m_open_queue.wait()`. -/
  | asleep (since arrivalsAtEntry : ℕ)
  /-- `--m_pending_…` behind the loop -/
  | admitted
  /-- `--m_pending_…` before `EINTR` is returned -/
  | interrupted
  /-- The description is made. -/
  | create
  /-- `m_open_queue.wake_all()` in `opened` -/
  | wakeOpened
  deriving DecidableEq

/-- A thread in `open`. -/
structure Opener where
  flags : BitVec 32
  pc : OpenerPc
  deriving DecidableEq

namespace Opener

variable (o : Opener)

def access : BitVec 32 := o.flags &&& O_ACCMODE

/-- `as_reader` in `await_peer`. -/
def asReader : Bool := o.access = O_RDONLY

/-- `open` calls `await_peer`, and that does not return at once. -/
def waitsForPeer : Bool :=
  o.flags &&& O_NONBLOCK = 0 ∧ (o.access = O_RDONLY ∨ o.access = O_WRONLY)

end Opener

/-- A description onto the FIFO, and when it was made. -/
structure FifoDescription where
  flags : BitVec 32
  created : ℕ
  deriving DecidableEq

namespace FifoDescription

variable (d : FifoDescription)

/-- It holds the reading end. -/
def reads : Bool := d.flags &&& O_ACCMODE ≠ O_WRONLY

/-- It holds the writing end. -/
def writes : Bool := d.flags &&& O_ACCMODE ≠ O_RDONLY

end FifoDescription

/-- One FIFO: its pipe with the calls on it, the arrival counters, the openers, the open
descriptions, the time, and every description there ever was. -/
structure FifoSystem where
  io : PipeSystem
  readerArrivals : ℕ
  writerArrivals : ℕ
  openers : ℕ → Opener
  descriptions : List FifoDescription
  clock : ℕ
  openings : List FifoDescription

/-- One step.  `pending` is what `has_pending_signals` answers, `memory` whether `kmalloc` succeeds.
-/
inductive FifoStep
  | openFifo (k : ℕ) (flags : BitVec 32)
  | advance (k : ℕ) (pending memory : Bool)
  /-- A sleeping opener wakes up for another reason. -/
  | rouse (k : ℕ)
  | close (d : FifoDescription)
  /-- A stretch of a `read` or a `write`. -/
  | transfer (a : PipeStep)

namespace FifoSystem

/-- A FIFO nobody has opened yet. -/
def initial : FifoSystem where
  io := PipeSystem.initial
  readerArrivals := 0
  writerArrivals := 0
  openers := fun _ => ⟨0, .idle⟩
  descriptions := []
  clock := 0
  openings := []

variable (s : FifoSystem)

/-- The arrivals a waiting opener looks at. -/
def peerArrivals (asReader : Bool) : ℕ := if asReader then s.writerArrivals else s.readerArrivals

/-- `present` in `await_peer`. -/
def present (asReader : Bool) : ℕ :=
  if asReader then s.io.pipe.writers + s.io.pipe.pendingWriters
  else s.io.pipe.readers + s.io.pipe.pendingReaders

/-- The condition that ends the loop. -/
def PeerFound (asReader : Bool) (arrivalsAtEntry : ℕ) : Prop :=
  s.present asReader > 0 ∨ s.peerArrivals asReader ≠ arrivalsAtEntry

instance (asReader : Bool) (arrivalsAtEntry : ℕ) :
    Decidable (s.PeerFound asReader arrivalsAtEntry) :=
  inferInstanceAs (Decidable (_ ∨ _))

/-- Opener `k` goes on to `pc`. -/
def goTo (k : ℕ) (pc : OpenerPc) : FifoSystem :=
  { s with openers := Function.update s.openers k { s.openers k with pc := pc } }

def withPipe (pipe : PipeBuffer) : FifoSystem := { s with io := { s.io with pipe := pipe } }

/-- `m_open_queue.wake_all()`. -/
def wakeAll : FifoSystem :=
  { s with
    openers := fun k =>
      match (s.openers k).pc with
      | .asleep since seen => { s.openers k with pc := .test since seen }
      | _ => s.openers k }

/-- An opener arrives. -/
def countArrival (asReader : Bool) : FifoSystem :=
  if asReader then { s with readerArrivals := s.readerArrivals + 1 }
  else { s with writerArrivals := s.writerArrivals + 1 }

/-- The description is constructed, which reports it to the pipe. -/
def createDescription (flags : BitVec 32) : FifoSystem :=
  { s.withPipe (s.io.pipe.opened flags) with
    descriptions := s.descriptions ++ [⟨flags, s.clock⟩]
    openings := s.openings ++ [⟨flags, s.clock⟩] }

/-- One statement of opener `k`. -/
def advance (k : ℕ) (pending memory : Bool) : Option FifoSystem :=
  let o := s.openers k
  match o.pc with
  | .idle => none
  | .announce => some ((s.withPipe (s.io.pipe.announce o.asReader)).goTo k (.arrive s.clock))
  | .arrive since => some ((s.countArrival o.asReader).goTo k (.wakePeers since))
  | .wakePeers since => some (s.wakeAll.goTo k (.snapshot since))
  | .snapshot since => some (s.goTo k (.test since (s.peerArrivals o.asReader)))
  | .test since seen =>
    some (s.goTo k
      (if s.PeerFound o.asReader seen then .admitted
      else if pending then .interrupted else .entering since seen))
  | .entering since seen => some (s.goTo k (.asleep since seen))
  | .asleep _ _ => none
  | .admitted => some ((s.withPipe (s.io.pipe.withdraw o.asReader)).goTo k .create)
  | .interrupted => some ((s.withPipe (s.io.pipe.withdraw o.asReader)).goTo k .idle)
  | .create =>
    some (if memory then (s.createDescription o.flags).goTo k .wakeOpened else s.goTo k .idle)
  | .wakeOpened => some (s.wakeAll.goTo k .idle)

/-- One step of everybody, but for the time.  There are `n` openers. -/
def move (n : ℕ) : FifoStep → Option FifoSystem
  | .openFifo k flags =>
    if k < n ∧ (s.openers k).pc = .idle then
      let o : Opener := ⟨flags, .create⟩
      some { s with
        openers := Function.update s.openers k
          (if o.waitsForPeer then ⟨flags, .announce⟩ else o) }
    else none
  | .advance k pending memory => if k < n then s.advance k pending memory else none
  | .rouse k =>
    match (s.openers k).pc with
    | .asleep since seen => if k < n then some (s.goTo k (.test since seen)) else none
    | _ => none
  | .close d =>
    if d ∈ s.descriptions then
      some { s.withPipe (s.io.pipe.closed d.flags) with descriptions := s.descriptions.erase d }
    else none
  | .transfer a =>
    match a with
    | .read _ _ _ | .write _ _ _ | .resume _ _ => (s.io.step a).map fun io => { s with io := io }
    | .opened _ | .closed _ | .announce _ | .withdraw _ => none

/-- One step takes one unit of time. -/
def step (n : ℕ) (s : FifoSystem) (a : FifoStep) : Option FifoSystem :=
  (s.move n a).map fun s' => { s' with clock := s'.clock + 1 }

end FifoSystem

end ShitOs
