import ShitOs.Construction.Pipe
import Mathlib.Data.Int.Notation

/-!
# File descriptors

A model of the descriptor tables of all processes and of the descriptions they share:
`allocate_descriptor`, `close_descriptor`, `duplicate_descriptor` and the loops over a table
(`kernel/sched/process.cpp`), `release_description` (`kernel/fs/vfs.cpp`), and the calls that use
them (`kernel/sys/syscall.cpp`): `open`, `close`, `dup`, `dup2`, `fcntl`, `pipe`, `fork`, `execve`
and `exit`.

`slots (p, fd)` is entry `fd` of the table of process `p`.  Processes, descriptions and inodes are
numbers that are handed out once.  An inode is its reference count and, when it is a pipe or a FIFO,
its `PipeBuffer`.  `released` is history: the descriptions that were destroyed.

A call is one step.  Which inode a path names, whether memory is found and whether a user buffer can
be written are part of it.

Left out: offsets, what `open` does before the description exists, and the destruction of inodes.
Reference counts do not wrap.
-/

namespace ShitOs

open Function (update)

def MAX_FILE_DESCRIPTORS : ℕ := 64

/-- An entry of `m_descriptors` that is in use. -/
structure Descriptor where
  description : ℕ
  closeOnExec : Bool
  deriving DecidableEq

/-- A `FileDescription`, as far as its lifetime is concerned. -/
structure OpenDescription where
  inode : ℕ
  flags : BitVec 32
  referenceCount : ℕ
  deriving DecidableEq

/-- All tables, descriptions and inodes. -/
structure DescriptorSystem where
  slots : ℕ × ℕ → Option Descriptor
  nextProcess : ℕ
  exited : ℕ → Bool
  descriptions : ℕ → Option OpenDescription
  nextDescription : ℕ
  pipes : ℕ → Option PipeBuffer
  references : ℕ → ℕ
  nextInode : ℕ
  released : List ℕ

/-- A call of a process. -/
inductive DescriptorCall
  | open (inode : ℕ) (flags : BitVec 32)
  | close (fd : ℤ)
  | dup (fd : ℤ)
  | dup2 (fd target : ℤ)
  | dupfd (fd lowest : ℤ) (closeOnExec : Bool)
  | setfd (fd : ℤ) (closeOnExec : Bool)
  | setfl (fd : ℤ) (flags : BitVec 32)
  | pipe (copied : Bool)
  | fork (cloned threaded : Bool)
  | execve
  | exit
  deriving DecidableEq

/-- What a call returns, and the state after it. -/
abbrev DescriptorResult (α : Type) := Except Errno α × DescriptorSystem

namespace DescriptorSystem

variable (s : DescriptorSystem)

/-! ## Descriptions -/

/-- An end of a pipe was opened or closed. -/
def updatePipe (inode : ℕ) (f : PipeBuffer → PipeBuffer) : DescriptorSystem :=
  { s with pipes := update s.pipes inode ((s.pipes inode).map f) }

/-- The constructor of `FileDescription`, which takes a reference on the inode and tells it. -/
def createDescription (inode : ℕ) (flags : BitVec 32) : DescriptorSystem :=
  let s := { s with
    descriptions := update s.descriptions s.nextDescription (some ⟨inode, flags, 1⟩)
    nextDescription := s.nextDescription + 1
    references := update s.references inode (s.references inode + 1) }
  s.updatePipe inode (·.opened flags)

def ref (n : ℕ) : DescriptorSystem :=
  let d := (s.descriptions n).map fun d => { d with referenceCount := d.referenceCount + 1 }
  { s with descriptions := update s.descriptions n d }

/-- The end of `release_description`, for the last holder. -/
def destroyDescription (n : ℕ) (d : OpenDescription) : DescriptorSystem :=
  let s := { s with
    descriptions := update s.descriptions n none
    references := update s.references d.inode (s.references d.inode - 1)
    released := n :: s.released }
  s.updatePipe d.inode (·.closed d.flags)

def releaseDescription (n : ℕ) : DescriptorSystem :=
  match s.descriptions n with
  | none => s
  | some d =>
    if d.referenceCount = 1 then s.destroyDescription n d
    else
      let d := { d with referenceCount := d.referenceCount - 1 }
      { s with descriptions := update s.descriptions n (some d) }

/-! ## Tables -/

def setSlot (p fd : ℕ) (slot : Option Descriptor) : DescriptorSystem :=
  { s with slots := update s.slots (p, fd) slot }

def descriptionFor (p : ℕ) (fd : ℤ) : Except Errno ℕ :=
  if fd < 0 ∨ (MAX_FILE_DESCRIPTORS : ℤ) ≤ fd then .error .EBADF
  else
    match s.slots (p, fd.toNat) with
    | none => .error .EBADF
    | some slot => .ok slot.description

/-- The loop of `allocate_descriptor`. -/
def firstFree (p lowest : ℕ) : Option ℕ :=
  (List.range' lowest (MAX_FILE_DESCRIPTORS - lowest)).find? fun fd => (s.slots (p, fd)).isNone

def allocateDescriptor (p n : ℕ) (lowest : ℤ) : DescriptorResult ℕ :=
  if lowest < 0 then (.error .EINVAL, s)
  else
    match s.firstFree p lowest.toNat with
    | none => (.error .EMFILE, s)
    | some fd => (.ok fd, s.setSlot p fd (some ⟨n, false⟩))

def closeDescriptor (p : ℕ) (fd : ℤ) : DescriptorResult Unit :=
  match s.descriptionFor p fd with
  | .error e => (.error e, s)
  | .ok n => (.ok (), (s.setSlot p fd.toNat none).releaseDescription n)

/-- `set_descriptor_close_on_exec`. -/
def setCloseOnExec (p : ℕ) (fd : ℤ) (closeOnExec : Bool) : DescriptorResult Unit :=
  match s.descriptionFor p fd with
  | .error e => (.error e, s)
  | .ok n => (.ok (), s.setSlot p fd.toNat (some ⟨n, closeOnExec⟩))

/-- `duplicate_descriptor` of a description `fd` names. -/
def duplicate (p : ℕ) (fd target : ℤ) (n : ℕ) : DescriptorResult ℕ :=
  if target < 0 then
    match s.allocateDescriptor p n 0 with
    | (.error e, s) => (.error e, s)
    | (.ok allocated, s) => (.ok allocated, s.ref n)
  else if (MAX_FILE_DESCRIPTORS : ℤ) ≤ target then (.error .EBADF, s)
  else if target = fd then (.ok target.toNat, s)
  else
    -- closing a descriptor that is not open changes nothing
    (.ok target.toNat,
      ((s.closeDescriptor p target).2.ref n).setSlot p target.toNat (some ⟨n, false⟩))

def duplicateDescriptor (p : ℕ) (fd target : ℤ) : DescriptorResult ℕ :=
  match s.descriptionFor p fd with
  | .error e => (.error e, s)
  | .ok n => s.duplicate p fd target n

/-- The body of the loops that close part of a table. -/
def closeIf (p : ℕ) (wanted : Descriptor → Bool) (s : DescriptorSystem) (fd : ℕ) :
    DescriptorSystem :=
  match s.slots (p, fd) with
  | none => s
  | some slot => if wanted slot then (s.closeDescriptor p fd).2 else s

def closeAllDescriptors (p : ℕ) : DescriptorSystem :=
  (List.range MAX_FILE_DESCRIPTORS).foldl (closeIf p fun _ => true) s

def closeOnExecDescriptors (p : ℕ) : DescriptorSystem :=
  (List.range MAX_FILE_DESCRIPTORS).foldl (closeIf p Descriptor.closeOnExec) s

/-! ## Calls -/

/-- `sys_open` from the point where the inode is known. -/
def sysOpen (p inode : ℕ) (flags : BitVec 32) : DescriptorResult ℕ :=
  let n := s.nextDescription
  match (s.createDescription inode flags).allocateDescriptor p n 0 with
  | (.error e, s) => (.error e, s.releaseDescription n)
  | (.ok fd, s) =>
    if flags &&& O_CLOEXEC ≠ 0 then (.ok fd, (s.setCloseOnExec p fd true).2) else (.ok fd, s)

/-- `fcntl(F_DUPFD)` and `fcntl(F_DUPFD_CLOEXEC)`. -/
def sysDupfd (p : ℕ) (fd lowest : ℤ) (closeOnExec : Bool) : DescriptorResult ℕ :=
  match s.descriptionFor p fd with
  | .error e => (.error e, s)
  | .ok n =>
    match s.allocateDescriptor p n lowest with
    | (.error e, s) => (.error e, s)
    | (.ok duplicate, s) =>
      match (s.ref n).setCloseOnExec p duplicate closeOnExec with
      | (.error e, s) => (.error e, s)
      | (.ok _, s) => (.ok duplicate, s)

/-- `fcntl(F_SETFL)`. -/
def sysSetfl (p : ℕ) (fd : ℤ) (flags : BitVec 32) : DescriptorResult Unit :=
  match s.descriptionFor p fd with
  | .error e => (.error e, s)
  | .ok n =>
    let d := (s.descriptions n).map fun d =>
      { d with flags := (d.flags &&& ~~~O_SETFL_MASK) ||| (flags &&& O_SETFL_MASK) }
    (.ok (), { s with descriptions := update s.descriptions n d })

/-- `PipeInode::create_pair`: a new inode, and a description for each end. -/
def createPair : DescriptorSystem :=
  let pipe := s.nextInode
  let s := { s with
    nextInode := pipe + 1
    pipes := update s.pipes pipe (some PipeBuffer.empty)
    references := update s.references pipe 0 }
  (s.createDescription pipe O_RDONLY).createDescription pipe O_WRONLY

/-- `sys_pipe`.  `copied` says whether the numbers can be handed to the caller. -/
def sysPipe (p : ℕ) (copied : Bool) : DescriptorResult Unit :=
  let readEnd := s.nextDescription
  let writeEnd := s.nextDescription + 1
  match s.createPair.allocateDescriptor p readEnd 0 with
  | (.error e, s) => (.error e, (s.releaseDescription readEnd).releaseDescription writeEnd)
  | (.ok readFd, s) =>
    match s.allocateDescriptor p writeEnd 0 with
    | (.error e, s) => (.error e, (s.closeDescriptor p readFd).2.releaseDescription writeEnd)
    | (.ok writeFd, s) =>
      if copied then (.ok (), s)
      else (.error .EFAULT, ((s.closeDescriptor p readFd).2.closeDescriptor p writeFd).2)

/-- The body of the loop of `sys_fork` over the parent's table. -/
def inherit (parent child : ℕ) (s : DescriptorSystem) (fd : ℕ) : DescriptorSystem :=
  match s.slots (parent, fd) with
  | none => s
  | some slot =>
    let s := ((s.ref slot.description).allocateDescriptor child slot.description fd).2
    (s.setCloseOnExec child fd slot.closeOnExec).2

/-- `sys_fork`.  The child exists as soon as `Process::create` has returned, and keeps what it has
when the call fails later; `cloned` and `threaded` say whether the address space can be copied and a
thread made. -/
def sysFork (parent : ℕ) (cloned threaded : Bool) : DescriptorResult ℕ :=
  let child := s.nextProcess
  let s := { s with nextProcess := child + 1, exited := update s.exited child false }
  if cloned then
    let s := (List.range MAX_FILE_DESCRIPTORS).foldl (inherit parent child) s
    if threaded then (.ok child, s) else (.error .ENOMEM, s)
  else (.error .ENOMEM, s)

/-- The state after a call of process `p`. -/
def call (p : ℕ) : DescriptorCall → DescriptorSystem
  | .open inode flags => (s.sysOpen p inode flags).2
  | .close fd => (s.closeDescriptor p fd).2
  | .dup fd => (s.duplicateDescriptor p fd (-1)).2
  | .dup2 fd target => (s.duplicateDescriptor p fd target).2
  | .dupfd fd lowest closeOnExec => (s.sysDupfd p fd lowest closeOnExec).2
  | .setfd fd closeOnExec => (s.setCloseOnExec p fd closeOnExec).2
  | .setfl fd flags => (s.sysSetfl p fd flags).2
  | .pipe copied => (s.sysPipe p copied).2
  | .fork cloned threaded => (s.sysFork p cloned threaded).2
  | .execve => s.closeOnExecDescriptors p
  | .exit => { s.closeAllDescriptors p with exited := update s.exited p true }

/-- The inode a call opens by name. -/
def opens : DescriptorCall → Option ℕ
  | .open inode _ => some inode
  | _ => none

/-- One call of one process.  A path names an inode somebody holds a reference to. -/
def step (a : ℕ × DescriptorCall) : Option DescriptorSystem :=
  if a.1 < s.nextProcess ∧ s.exited a.1 = false ∧ ∀ inode ∈ opens a.2, 0 < s.references inode then
    some (s.call a.1 a.2)
  else none

/-- Nothing is open yet: processes have empty tables, and nobody has an end of a pipe.  The first
process is given its terminal as if it had opened it and called `dup` twice. -/
structure Starts (s : DescriptorSystem) : Prop where
  slots : ∀ x, s.slots x = none
  descriptions : ∀ n, s.descriptions n = none
  nextDescription : s.nextDescription = 0
  pipes : ∀ i pipe, s.pipes i = some pipe → pipe.readers = 0 ∧ pipe.writers = 0
  references : ∀ i, s.nextInode ≤ i → s.references i = 0
  released : s.released = []

end DescriptorSystem
end ShitOs
