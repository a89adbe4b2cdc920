import ShitOs.Construction.Pipe

/-!
# Descriptions on pipes, and a server that speaks through them

`FileDescription::read` and `FileDescription::write` (`kernel/fs/vfs.cpp`) on a description whose
inode is a pipe, `poll_one` (`kernel/sys/syscall.cpp`) on such descriptions, and the event loop of
the window server (`user/wsys/wsys.c`) as far as its pipes are concerned.

A call is cut at its waits like those of `PipeBuffer`: `read` and `write` go from the entry to the
first wait or to the return, `resumeRead` and `resumeWrite` from the return of a wait.

The server's thread is at its `poll`, or has operations to do before it is there again: what it
reads from its clients and the messages it sends them.  Which operations an iteration consists of is
part of the step that returns from `poll`.  In between anybody may use the other ends of its
channels.

Left out: the kernel buffer of `sys_read` and `sys_write`, and what of the server touches no
channel.
-/

namespace ShitOs

/-- What a `FileDescription` holds beside its inode. -/
structure FileDescription where
  flags : BitVec 32
  offset : U64

namespace FileDescription

variable (d : FileDescription)

def isReadable : Bool := d.flags &&& O_ACCMODE != O_WRONLY

def isWritable : Bool := d.flags &&& O_ACCMODE != O_RDONLY

/-- The offset moves by the bytes a call has returned. -/
def advance (n : ℕ) : FileDescription := { d with offset := d.offset + BitVec.ofNat 64 n }

/-- The end of a stretch of `read`. -/
def afterRead : PipeBuffer.ReadEnd × PipeBuffer →
    PipeBuffer.ReadEnd × PipeBuffer × FileDescription
  | (.done (.ok bytes), p) => (.done (.ok bytes), p, d.advance bytes.length)
  | (ending, p) => (ending, p, d)

/-- `read`.  A pipe is no directory. -/
def read (p : PipeBuffer) (length : ℕ) (pending : Bool) :
    PipeBuffer.ReadEnd × PipeBuffer × FileDescription :=
  if d.isReadable then d.afterRead (p.readStretch length pending)
  else (.done (.error .EBADF), p, d)

/-- `read` from the return of a wait. -/
def resumeRead (p : PipeBuffer) (length : ℕ) (pending : Bool) :
    PipeBuffer.ReadEnd × PipeBuffer × FileDescription :=
  d.afterRead (p.readStretch length pending)

/-- The end of a stretch of `write`. -/
def afterWrite (w : PipeBuffer.WriteStretch) : PipeBuffer.WriteEnd × PipeBuffer × FileDescription :=
  match w.ending with
  | .done (.ok written) => (.done (.ok written), w.pipe, d.advance written)
  | ending => (ending, w.pipe, d)

def write (p : PipeBuffer) (bytes : List UInt8) (pending : Bool) :
    PipeBuffer.WriteEnd × PipeBuffer × FileDescription :=
  if d.isWritable then
    let d := if d.flags &&& O_APPEND ≠ 0 then { d with offset := BitVec.ofNat 64 p.used } else d
    d.afterWrite (p.writeStretch bytes 0 pending)
  else (.done (.error .EBADF), p, d)

/-- `write` from the return of a wait. -/
def resumeWrite (p : PipeBuffer) (bytes : List UInt8) (written : ℕ) (pending : Bool) :
    PipeBuffer.WriteEnd × PipeBuffer × FileDescription :=
  d.afterWrite (p.writeStretch bytes written pending)

end FileDescription

/-! ## `poll` -/

def POLLIN : BitVec 16 := 0x0001
def POLLOUT : BitVec 16 := 0x0004
def POLLHUP : BitVec 16 := 0x0010
def POLLNVAL : BitVec 16 := 0x0020

/-- `struct pollfd`. -/
structure PollEntry where
  fd : BitVec 32
  events : BitVec 16
  revents : BitVec 16
  deriving DecidableEq

/-- What `poll_one` reports for a pipe. -/
def PipeBuffer.reported (p : PipeBuffer) (events : BitVec 16) : BitVec 16 :=
  (if events &&& POLLIN ≠ 0 ∧ p.canReadWithoutBlocking then POLLIN else 0) |||
    (if events &&& POLLOUT ≠ 0 ∧ p.canWriteWithoutBlocking then POLLOUT else 0) |||
    (if p.isHungUp then POLLHUP else 0)

/-- `poll_one`, in a process all of whose descriptors are on pipes: whether anything is reported,
and the entry with its `revents`. -/
def pollOne (pipeOf : BitVec 32 → Option PipeBuffer) (entry : PollEntry) : Bool × PollEntry :=
  if entry.fd.toInt < 0 then (false, { entry with revents := 0 })
  else
    match pipeOf entry.fd with
    | none => (true, { entry with revents := POLLNVAL })
    | some p =>
      let reported := p.reported entry.events
      (reported ≠ 0, { entry with revents := reported })

/-- One turn of the loop of `sys_poll` with no deadline: the number of entries that have something
to report, or `none` when there is none and the call sleeps. -/
def pollTurn (pipeOf : BitVec 32 → Option PipeBuffer) (entries : List PollEntry) : Option ℕ :=
  let ready := (entries.map (pollOne pipeOf)).countP (·.1)
  if 0 < ready then some ready else none

/-! ## The server -/

/-- A pipe and the server's description on it. -/
structure Channel where
  description : FileDescription
  pipe : PipeBuffer

/-- `sizeof(struct WsysMessage)`. -/
def WSYS_MESSAGE_SIZE : ℕ := 120

/-- What the loop does between two polls: it reads from a channel, or sends a message, as
`send_to_client` does. -/
inductive ServerOperation
  | receive (channel length : ℕ)
  | send (channel : ℕ) (message : List UInt8)
  deriving DecidableEq

/-- The server.  `waiting` is the call of the first operation, when it waits in the kernel: how much
it has written. -/
structure EventLoop where
  channels : ℕ → Channel
  todo : List ServerOperation
  waiting : Option ℕ

/-- What somebody else does to the other end of a channel. -/
inductive ClientMove
  | read (length : ℕ)
  | write (bytes : List UInt8) (written : ℕ)
  | opened (flags : BitVec 32)
  | closed (flags : BitVec 32)
  | announce (asReader : Bool)
  | withdraw (asReader : Bool)

/-- One step: `poll` returns, the server's thread runs, or somebody else does something. -/
inductive ServerStep
  | poll (todo : List ServerOperation)
  | perform (pending : Bool)
  | client (channel : ℕ) (move : ClientMove) (pending : Bool)

namespace EventLoop

variable (s : EventLoop)

/-- The pipe after a move of somebody else. -/
def moved (p : PipeBuffer) (pending : Bool) : ClientMove → PipeBuffer
  | .read length => (p.readStretch length pending).2
  | .write bytes written => (p.writeStretch bytes written pending).pipe
  | .opened flags => p.opened flags
  | .closed flags => p.closed flags
  | .announce asReader => p.announce asReader
  | .withdraw asReader => p.withdraw asReader

/-- The channel after a stretch of the server on it, and whether the server goes on. -/
def after (rest : List ServerOperation) (channel : ℕ) (p : PipeBuffer) (d : FileDescription) :
    Option ℕ → EventLoop
  | none =>
    { channels := Function.update s.channels channel ⟨d, p⟩, todo := rest, waiting := none }
  | some written =>
    { s with channels := Function.update s.channels channel ⟨d, p⟩, waiting := some written }

/-- How much a call that waits has written, and `none` when it has returned. -/
def waitOfRead : PipeBuffer.ReadEnd → Option ℕ
  | .wait => some 0
  | .done _ => none

def waitOfWrite : PipeBuffer.WriteEnd → Option ℕ
  | .wait written => some written
  | .done _ => none

/-- The server's thread runs to its next wait or to the end of its first operation. -/
def perform (pending : Bool) : Option EventLoop :=
  match s.todo with
  | [] => none
  | .receive channel length :: rest =>
    let c := s.channels channel
    let r := match s.waiting with
      | none => c.description.read c.pipe length pending
      | some _ => c.description.resumeRead c.pipe length pending
    some (s.after rest channel r.2.1 r.2.2 (waitOfRead r.1))
  | .send channel message :: rest =>
    let c := s.channels channel
    let r := match s.waiting with
      | none => c.description.write c.pipe message pending
      | some written => c.description.resumeWrite c.pipe message written pending
    some (s.after rest channel r.2.1 r.2.2 (waitOfWrite r.1))

def step : ServerStep → Option EventLoop
  | .poll todo => if s.todo.isEmpty then some { s with todo := todo } else none
  | .perform pending => s.perform pending
  | .client channel move pending =>
    let c := s.channels channel
    some { s with channels :=
      Function.update s.channels channel { c with pipe := moved c.pipe pending move } }

end EventLoop
end ShitOs
