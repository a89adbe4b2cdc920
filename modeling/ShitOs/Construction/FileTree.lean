import ShitOs.Construction.Vfs

/-!
# Processes on a directory tree

Any number of processes, each with a working directory, and the open descriptions.  Both hold
references on inodes, next to directory entries and mounts, and give them up in
`set_working_directory` (`kernel/sched/process.cpp`) and `release_description`
(`kernel/fs/vfs.cpp`).

A call is one step, but for an `open` that waits in `await_peer` for the other end of a FIFO: it has
the inode in hand, without a reference, and makes the description in a later step.  Descriptions are
numbers that are handed out once.  Left out: descriptors that share one, and calls that start from
an open directory.
-/

namespace ShitOs

/-- The directory tree, and who holds on to which part of it. -/
structure FileTree where
  vfs : Vfs
  processes : ℕ
  workingDirectory : ℕ → ℕ
  descriptions : ℕ → Option ℕ
  nextDescription : ℕ
  /-- The FIFO at which a process waits in `await_peer`. -/
  waiting : ℕ → Option ℕ

/-- A call of a process. -/
inductive FileCall
  | open (path : Path) (flags : BitVec 32) (made memory : Bool)
  /-- The rest of an `open` that has waited.  `memory` is false if there is none for the
  description, or if a signal has come first. -/
  | arrive (memory : Bool)
  | close (description : ℕ)
  | mkdir (path : Path) (memory : Bool)
  | mkfifo (path : Path) (memory : Bool)
  | unlink (path : Path)
  | rmdir (path : Path)
  | rename (source destination : Path) (memory : Bool)
  | chdir (path : Path)

namespace FileTree

variable (s : FileTree)

/-- Where the paths of a process begin. -/
def base (p : ℕ) : Option ℕ := some (s.workingDirectory p)

/-- A new description onto an inode. -/
def describe (n : ℕ) : FileTree :=
  { s with
    descriptions := Function.update s.descriptions s.nextDescription (some n)
    nextDescription := s.nextDescription + 1 }

/-- The end of `open`. -/
def createDescription (n : ℕ) (memory : Bool) : FileTree :=
  if memory then { s with vfs := s.vfs.ref n }.describe n else s

/-- `open` once the inode is known.  `await_peer` waits when one end is asked for. -/
def openInode (p n : ℕ) (flags : BitVec 32) (memory : Bool) : FileTree :=
  if (s.vfs.openChecks n flags).isSome then s
  else if s.vfs.AwaitsPeer n flags ∧
      (flags &&& O_ACCMODE = O_RDONLY ∨ flags &&& O_ACCMODE = O_WRONLY) then
    { s with waiting := Function.update s.waiting p (some n) }
  else s.createDescription n memory

def sysOpen (p : ℕ) (path : Path) (flags : BitVec 32) (made memory : Bool) : FileTree :=
  match s.vfs.findOrCreate path.bytes flags (s.base p) made with
  | (.error _, vfs) => { s with vfs := vfs }
  | (.ok n, vfs) => { s with vfs := vfs }.openInode p n flags memory

/-- The wait of process `p` is over. -/
def arrive (p : ℕ) (memory : Bool) : FileTree :=
  match s.waiting p with
  | none => s
  | some n =>
    { s with waiting := Function.update s.waiting p none }.createDescription n memory

/-- `release_description` of the last reference. -/
def closeDescription (d : ℕ) : FileTree :=
  match s.descriptions d with
  | none => s
  | some n =>
    { s with descriptions := Function.update s.descriptions d none, vfs := s.vfs.unref n }

def setWorkingDirectory (p n : ℕ) : FileTree :=
  { s with
    vfs := (s.vfs.ref n).unref (s.workingDirectory p)
    workingDirectory := Function.update s.workingDirectory p n }

def sysChdir (p : ℕ) (path : Path) : FileTree :=
  match s.vfs.resolve path.bytes (s.base p) with
  | .error _ => s
  | .ok n => if (s.vfs.inodes n).isDirectory then s.setWorkingDirectory p n else s

/-- The state after a call of process `p`. -/
def call (p : ℕ) : FileCall → FileTree
  | .open path flags made memory => s.sysOpen p path flags made memory
  | .arrive memory => s.arrive p memory
  | .close d => s.closeDescription d
  | .mkdir path memory => { s with vfs := (s.vfs.sysMkdir path.bytes (s.base p) memory).2 }
  | .mkfifo path memory => { s with vfs := (s.vfs.sysMkfifo path.bytes (s.base p) memory).2 }
  | .unlink path => { s with vfs := (s.vfs.sysUnlink path.bytes (s.base p)).2 }
  | .rmdir path => { s with vfs := (s.vfs.sysRmdir path.bytes (s.base p)).2 }
  | .rename source destination memory =>
    { s with vfs := (s.vfs.rename source.bytes destination.bytes (s.base p) memory).2 }
  | .chdir path => s.sysChdir p path

/-- Whether a call is the rest of another. -/
def continues : FileCall → Bool
  | .arrive _ => true
  | _ => false

/-- One call of one process, which makes no other while it waits. -/
def step (a : ℕ × FileCall) : Option FileTree :=
  if a.1 < s.processes ∧ (s.waiting a.1).isSome = continues a.2 then some (s.call a.1 a.2)
  else none

/-- What `mount_boot_filesystems` leaves behind, with an archive that holds nothing but the
directory `tmp`, and `processes` processes in the root directory. -/
def booted (processes : ℕ) : FileTree where
  vfs :=
    { inodes := fun n => match n with
        | 0 => ⟨0, .directory, [SLASH], none, [1], 1 + processes, false⟩
        | 1 => ⟨0, .directory, [0x74, 0x6d, 0x70], some 0, [], 2, false⟩
        | _ => ⟨1, .directory, [SLASH], none, [], 1, false⟩
      next := 3
      destroyed := []
      filesystems := fun n => match n with
        | 0 => ⟨.ustar, 0⟩
        | _ => ⟨.tmpfs, 2⟩
      rootFilesystem := 0
      mounts := [⟨none, 0⟩, ⟨some 1, 1⟩] }
  processes := processes
  workingDirectory := fun _ => 0
  descriptions := fun _ => none
  nextDescription := 0
  waiting := fun _ => none

end FileTree
end ShitOs
