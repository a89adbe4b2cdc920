import ShitOs.Framework.RingBuffer
import ShitOs.Construction.Abi

/-!
# Pipes and FIFOs (`kernel/fs/pipe.cpp`)

`PipeBuffer` is the one implementation behind an anonymous pipe and a named FIFO: a ring of
`PIPE_CAPACITY` bytes and the counts of live and pending ends.

The kernel can be preempted inside `read` and `write`, which hold no lock.  The model is restricted
to runs in which they give up the CPU only where they wait on a queue, and cuts them there: a
*stretch* is the code from the entry of the call, or from the return of a `wait`, to the next wait
or to the return. `readStretch` and `writeStretch` are the loops of the source run up to there.
Both loops re-test their condition, so a waiting call may be resumed at any time.

The system is a pipe, the call each thread has in progress, and the history: what was put into the
ring, what the reads returned, and how each write ended.  No stretch looks at it.
-/

namespace ShitOs

open Function (update)

def PIPE_CAPACITY : ℕ := 4096

/-- `PIPE_BUF` of the C library's `limits.h`. -/
def PIPE_BUF : ℕ := 4095

/-- The state of one pipe.  The wait queues are not here: which threads sleep on them is the
`calls` field of `PipeSystem`. -/
structure PipeBuffer where
  ring : Ring UInt8 PIPE_CAPACITY
  readers : ℕ
  writers : ℕ
  pendingReaders : ℕ
  pendingWriters : ℕ

namespace PipeBuffer

def empty : PipeBuffer where
  ring := ⟨fun _ => 0, ⟨0, by decide⟩, ⟨0, by decide⟩⟩
  readers := 0
  writers := 0
  pendingReaders := 0
  pendingWriters := 0

def used (p : PipeBuffer) : ℕ := p.ring.used

def available (p : PipeBuffer) : ℕ := p.ring.available

/-- A description onto the pipe was created. -/
def opened (p : PipeBuffer) (flags : BitVec 32) : PipeBuffer :=
  let access := flags &&& O_ACCMODE
  if access = O_RDONLY then { p with readers := p.readers + 1 }
  else if access = O_WRONLY then { p with writers := p.writers + 1 }
  -- `O_RDWR` is both ends held by one description
  else { p with readers := p.readers + 1, writers := p.writers + 1 }

/-- The last reference to a description went away. -/
def closed (p : PipeBuffer) (flags : BitVec 32) : PipeBuffer :=
  let access := flags &&& O_ACCMODE
  let readers := if access ≠ O_WRONLY ∧ p.readers > 0 then p.readers - 1 else p.readers
  let writers := if access ≠ O_RDONLY ∧ p.writers > 0 then p.writers - 1 else p.writers
  { p with readers := readers, writers := writers }

/-- `await_peer` announces an opener that has no description yet. -/
def announce (p : PipeBuffer) (asReader : Bool) : PipeBuffer :=
  if asReader then { p with pendingReaders := p.pendingReaders + 1 }
  else { p with pendingWriters := p.pendingWriters + 1 }

/-- `await_peer` returns, with or without a peer. -/
def withdraw (p : PipeBuffer) (asReader : Bool) : PipeBuffer :=
  if asReader then { p with pendingReaders := p.pendingReaders - 1 }
  else { p with pendingWriters := p.pendingWriters - 1 }

def canReadWithoutBlocking (p : PipeBuffer) : Bool := 0 < p.used || p.writers = 0

def canWriteWithoutBlocking (p : PipeBuffer) : Bool := 0 < p.available || p.readers = 0

def isHungUp (p : PipeBuffer) : Bool := p.writers = 0 && p.used = 0

/-- The copying loop of `write`: how many of the bytes went in, and the pipe after them. -/
def fill : List UInt8 → PipeBuffer → ℕ × PipeBuffer
  | [], p => (0, p)
  | b :: bytes, p =>
    if 0 < p.available then
      let rest := fill bytes { p with ring := p.ring.push b }
      (rest.1 + 1, rest.2)
    else (0, p)

/-- How a stretch of `read` ends. -/
inductive ReadEnd
  | wait
  | done (result : Except Errno (List UInt8))

/-- `read` from its entry, or from the return of `m_read_queue.wait()`.  `pending` is what
`has_pending_signals` answers. -/
def readStretch (p : PipeBuffer) (length : ℕ) (pending : Bool) : ReadEnd × PipeBuffer :=
  if length = 0 then (.done (.ok []), p)
  else if p.used = 0 then
    if p.writers = 0 then (.done (.ok []), p)
    else if pending then (.done (.error .EINTR), p)
    else (.wait, p)
  else
    let copied := p.ring.drain length
    (.done (.ok copied.1), { p with ring := copied.2 })

/-- How a stretch of `write` ends. -/
inductive WriteEnd
  | wait (written : ℕ)
  | done (result : Except Errno ℕ)

/-- What a stretch of `write` did: how it ended, the pieces it copied in, and the pipe. -/
structure WriteStretch where
  ending : WriteEnd
  chunks : List (List UInt8)
  pipe : PipeBuffer

/-- The loop of `write` from `written` on.  Each turn that does not leave the loop copies at
least one byte, so the bytes still to go bound the number of turns. -/
def writeLoop (bytes : List UInt8) (pending : Bool) : ℕ → PipeBuffer → ℕ → WriteStretch
  | 0, p, written => ⟨.done (.ok written), [], p⟩
  | fuel + 1, p, written =>
    if written < bytes.length then
      if p.readers + p.pendingReaders = 0 then ⟨.done (.error .EPIPE), [], p⟩
      else if p.available = 0 then
        if pending then
          ⟨.done (if written > 0 then .ok written else .error .EINTR), [], p⟩
        else ⟨.wait written, [], p⟩
      else
        let copied := p.fill (bytes.drop written)
        let rest := writeLoop bytes pending fuel copied.2 (written + copied.1)
        { rest with chunks := (bytes.drop written).take copied.1 :: rest.chunks }
    else ⟨.done (.ok written), [], p⟩

/-- `write` from its entry, or from the return of `m_write_queue.wait()`. -/
def writeStretch (p : PipeBuffer) (bytes : List UInt8) (written : ℕ) (pending : Bool) :
    WriteStretch :=
  writeLoop bytes pending (bytes.length - written) p written

end PipeBuffer

/-! ## Any number of readers and writers -/

/-- What happened, in the order it happened.  Every call has a number of its own. -/
inductive PipeEvent
  /-- A stretch of write `call` copied `chunk` into the ring. -/
  | put (call : ℕ) (chunk : List UInt8)
  /-- Read `call` returned `bytes`. -/
  | got (call : ℕ) (bytes : List UInt8)
  /-- Write `call` of `bytes` returned. -/
  | wrote (call : ℕ) (bytes : List UInt8) (result : Except Errno ℕ)

/-- The call a thread is waiting in. -/
inductive PipeCall
  | idle
  | reading (call length : ℕ)
  | writing (call : ℕ) (bytes : List UInt8) (written : ℕ)

/-- One pipe, the threads using it, and the history. -/
structure PipeSystem where
  pipe : PipeBuffer
  calls : ℕ → PipeCall
  nextCall : ℕ
  trace : List PipeEvent

/-- One move of the system.  `pending` resolves `has_pending_signals`. -/
inductive PipeStep
  | read (thread length : ℕ) (pending : Bool)
  | write (thread : ℕ) (bytes : List UInt8) (pending : Bool)
  | resume (thread : ℕ) (pending : Bool)
  | opened (flags : BitVec 32)
  | closed (flags : BitVec 32)
  | announce (asReader : Bool)
  | withdraw (asReader : Bool)

namespace PipeSystem

/-- A pipe nobody has opened yet. -/
def initial : PipeSystem := ⟨PipeBuffer.empty, fun _ => .idle, 0, []⟩

/-- Records what a stretch of read `call` did. -/
def afterRead (s : PipeSystem) (thread call length : ℕ) :
    PipeBuffer.ReadEnd × PipeBuffer → PipeSystem
  | (.wait, p) => { s with pipe := p, calls := update s.calls thread (.reading call length) }
  | (.done (.ok bytes), p) =>
    { s with
      pipe := p
      calls := update s.calls thread .idle
      trace := s.trace ++ [.got call bytes] }
  | (.done (.error _), p) =>
    { s with pipe := p, calls := update s.calls thread .idle }

/-- Records what a stretch of write `call` did. -/
def afterWrite (s : PipeSystem) (thread call : ℕ) (bytes : List UInt8)
    (w : PipeBuffer.WriteStretch) : PipeSystem :=
  let trace := s.trace ++ w.chunks.map (.put call)
  match w.ending with
  | .wait written =>
    { s with
      pipe := w.pipe
      calls := update s.calls thread (.writing call bytes written)
      trace := trace }
  | .done result =>
    { s with
      pipe := w.pipe
      calls := update s.calls thread .idle
      trace := trace ++ [.wrote call bytes result] }

/-- A thread can only start a call when it is in none, and only resume the one it is in. -/
def step (s : PipeSystem) : PipeStep → Option PipeSystem
  | .read thread length pending =>
    match s.calls thread with
    | .idle =>
      some (afterRead { s with nextCall := s.nextCall + 1 } thread s.nextCall length
        (s.pipe.readStretch length pending))
    | _ => none
  | .write thread bytes pending =>
    match s.calls thread with
    | .idle =>
      some (afterWrite { s with nextCall := s.nextCall + 1 } thread s.nextCall bytes
        (s.pipe.writeStretch bytes 0 pending))
    | _ => none
  | .resume thread pending =>
    match s.calls thread with
    | .idle => none
    | .reading call length =>
      some (afterRead s thread call length (s.pipe.readStretch length pending))
    | .writing call bytes written =>
      some (afterWrite s thread call bytes (s.pipe.writeStretch bytes written pending))
  | .opened flags => some { s with pipe := s.pipe.opened flags }
  | .closed flags => some { s with pipe := s.pipe.closed flags }
  | .announce asReader => some { s with pipe := s.pipe.announce asReader }
  | .withdraw asReader => some { s with pipe := s.pipe.withdraw asReader }

end PipeSystem

end ShitOs
