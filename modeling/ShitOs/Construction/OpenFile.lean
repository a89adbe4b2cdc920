import ShitOs.Construction.Descriptors
import ShitOs.Construction.Vfs
import ShitOs.Framework.Program

/-!
# The `open` system call

`fs::open` of `kernel/fs/vfs.cpp` from the path to the description.  The inode is found and checked
as in `Construction/Vfs.lean`; what comes on top here are the contents that `O_TRUNC` cuts off, the
wait at a FIFO, and the ends of a pipe that a description counts as.  Around it `sys_open`, which
puts the description into the table of the process.

The state is the tree with its reference counts, what is in the files, the pipes behind the FIFOs,
and the table of the process that makes the call.  A failing call keeps what it has changed so far.
What the call does not decide is in `OpenChances`.

Left out: modes and times, `O_CLOEXEC`, the offset that `O_APPEND` sets, the counters of arrivals at
a FIFO.
-/

namespace ShitOs

open Function (update)

/-- The tree, what is in it, and the table of a process.  An entry of the table says which inode it
is open on. -/
structure OpenSystem where
  vfs : Vfs
  contents : ℕ → List (BitVec 8)
  pipes : ℕ → Option PipeBuffer
  descriptors : ℕ → Option ℕ

/-- Whether there is memory for an inode and for a description, and whether a signal comes before
the other end of a FIFO does. -/
structure OpenChances where
  inodeMemory : Bool
  descriptionMemory : Bool
  interrupted : Bool
  deriving DecidableEq

/-- The code of `open`. -/
abbrev OpenM := Program OpenSystem Errno

namespace OpenSystem

variable (s : OpenSystem)

/-- The pipe of an inode changes, if it has one. -/
def updatePipe (inode : ℕ) (f : PipeBuffer → PipeBuffer) : OpenSystem :=
  { s with pipes := update s.pipes inode ((s.pipes inode).map f) }

/-- The inode is found or created.  A new file is empty. -/
def findOrCreate (path : Text) (flags : BitVec 32) (base : Option ℕ) (chances : OpenChances) :
    OpenM ℕ := do
  let s ← get
  match s.vfs.findOrCreate path flags base chances.inodeMemory with
  | (.error e, _) => throw e
  | (.ok inode, vfs) =>
    if inode = s.vfs.next then
      modify fun s => { s with
        vfs := vfs
        contents := update s.contents inode []
        pipes := update s.pipes inode none }
    return inode

/-- `truncate(0)`. -/
def truncate (inode : ℕ) : OpenM Unit := do
  if (← get).vfs.kindOf inode ≠ .tmpfs then throw .EROFS
  else modify fun s => { s with contents := update s.contents inode [] }

/-- `present` in `await_peer`. -/
def present (pipe : PipeBuffer) (asReader : Bool) : ℕ :=
  if asReader then pipe.writers + pipe.pendingWriters else pipe.readers + pipe.pendingReaders

def awaitPeer (inode : ℕ) (flags : BitVec 32) (interrupted : Bool) : OpenM Unit := do
  match (← get).pipes inode with
  | none => return ()
  | some pipe =>
    let access := flags &&& O_ACCMODE
    if access ≠ O_RDONLY ∧ access ≠ O_WRONLY then return ()
    else
      let asReader : Bool := access = O_RDONLY
      modify (updatePipe · inode (·.announce asReader))
      if present (pipe.announce asReader) asReader = 0 ∧ interrupted then
        modify (updatePipe · inode (·.withdraw asReader))
        throw .EINTR
      else modify (updatePipe · inode (·.withdraw asReader))

/-- The end of `open`; the description takes a reference and tells the inode. -/
def createDescription (inode : ℕ) (flags : BitVec 32) (memory : Bool) : OpenM Unit :=
  if memory then modify fun s => ({ s with vfs := s.vfs.ref inode }).updatePipe inode
    (·.opened flags)
  else throw .ENOMEM

/-- The rest of `open`. -/
def openInode (inode : ℕ) (flags : BitVec 32) (chances : OpenChances) : OpenM Unit := do
  let s ← get
  match s.vfs.openChecks inode flags with
  | some e => throw e
  | none =>
    if flags &&& O_TRUNC ≠ 0 ∧ flags &&& O_ACCMODE ≠ O_RDONLY ∧
        (s.vfs.inodes inode).type = .regular then
      truncate inode
    if s.vfs.AwaitsPeer inode flags then awaitPeer inode flags chances.interrupted
    createDescription inode flags chances.descriptionMemory

/-- `allocate_descriptor`. -/
def firstFree :
    Option ℕ := (List.range MAX_FILE_DESCRIPTORS).find? fun fd => (s.descriptors fd).isNone

/-- `release_description`, by the only holder. -/
def releaseDescription (inode : ℕ) (flags : BitVec 32) : OpenSystem :=
  let s := s.updatePipe inode (·.closed flags)
  { s with vfs := s.vfs.unref inode }

/-- The second part of `sys_open`: the description gets a descriptor. -/
def allocateDescriptor (inode : ℕ) (flags : BitVec 32) : OpenM ℕ := do
  match (← get).firstFree with
  | none => do
    modify (releaseDescription · inode flags)
    throw .EMFILE
  | some fd => do
    modify fun s => { s with descriptors := update s.descriptors fd (some inode) }
    return fd

def sysOpen (path : Text) (flags : BitVec 32) (base : Option ℕ) (chances : OpenChances) :
    OpenM ℕ := do
  let inode ← findOrCreate path flags base chances
  openInode inode flags chances
  allocateDescriptor inode flags

end OpenSystem

end ShitOs
