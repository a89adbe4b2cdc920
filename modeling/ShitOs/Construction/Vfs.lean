import ShitOs.Construction.Abi
import Mathlib.Logic.Function.Basic

/-!
# The virtual filesystem

A model of path resolution and directory operations: `next_component`, `resolve`, `resolve_parent`,
`open` and `rename` of `kernel/fs/vfs.cpp`, the directory operations of `kernel/fs/tmpfs.cpp`, and
the system calls that create, remove and move names (`kernel/sys/syscall.cpp`).

Inodes are numbers, handed out once.  `inodes` gives the fields of each, also of one that has been
destroyed; `destroyed` is history.  A name is kept in the child, as in the source, and a directory
is a vector of children.  The three kinds of filesystem look names up in the same way; only a
`tmpfs` overrides the operations that change a directory.

Creating a name splits the path at its last slash (`resolveParent`), looking one up takes it apart
from the front (`components`).  Both cut what they find down to `FILENAME_MAX_LENGTH - 1` bytes.

Left out: contents (so `O_TRUNC` too), modes, times, inode numbers and device nodes.  The parts of
`open` are put together where it is used: with the wait at a FIFO in `FileTree`, with that and the
contents in `OpenSystem`, and without either, for a name that is created, in `openPath`.  The table
of mounts does not change: `mount` is called only while the kernel starts.
-/

namespace ShitOs

def FILENAME_MAX_LENGTH : ℕ := 128
def PATH_MAX_LENGTH : ℕ := 1024

/-- The bytes of a string before its NUL. -/
abbrev Text := List UInt8

def SLASH : UInt8 := 0x2f
def DOT : Text := [0x2e]
def DOT_DOT : Text := [0x2e, 0x2e]

/-- A path as `copy_string_from_user` hands it over. -/
structure Path where
  bytes : Text
  terminated : 0 ∉ bytes
  fits : bytes.length < PATH_MAX_LENGTH

inductive InodeType
  | regular | directory | characterDevice | blockDevice | fifo | symbolicLink
  deriving DecidableEq

inductive FileSystemKind
  | ustar | tmpfs | devfs
  deriving DecidableEq

def FileSystemKind.isReadOnly : FileSystemKind → Bool
  | .ustar => true
  | .tmpfs => false
  | .devfs => false

structure FileSystem where
  kind : FileSystemKind
  root : ℕ

structure Inode where
  filesystem : ℕ
  type : InodeType
  name : Text
  parent : Option ℕ
  children : List ℕ
  referenceCount : ℕ
  unlinked : Bool
  deriving DecidableEq

def Inode.isDirectory (inode : Inode) : Bool := inode.type = .directory

/-- A `MountEntry`.  Nothing is covered by the root filesystem. -/
structure Mount where
  covered : Option ℕ
  filesystem : ℕ

/-- The inodes, the filesystems they belong to, and how those are put together. -/
structure Vfs where
  inodes : ℕ → Inode
  next : ℕ
  destroyed : List ℕ
  filesystems : ℕ → FileSystem
  rootFilesystem : ℕ
  mounts : List Mount

/-- What an operation returns, and the state after it. -/
abbrev VfsResult (α : Type) := Except Errno α × Vfs

/-! ## Paths -/

/-- `next_component`: the component, and the rest of the path. -/
def nextComponent (path : Text) : Option (Text × Text) :=
  let rest := path.dropWhile (· == SLASH)
  if rest = [] then none
  else some ((rest.takeWhile (· != SLASH)).take (FILENAME_MAX_LENGTH - 1),
    rest.dropWhile (· != SLASH))

/-- The components the loop of `resolve` sees, in at most `fuel` turns. -/
def componentsWithin : ℕ → Text → List Text
  | 0, _ => []
  | fuel + 1, path =>
    match nextComponent path with
    | none => []
    | some (component, rest) => component :: componentsWithin fuel rest

/-- The components the loop of `resolve` sees.  Each is at least one byte of the path. -/
def components (path : Text) : List Text := componentsWithin path.length path

/-- The loop of `resolve_parent`: the index of the last slash that something follows. -/
def lastSlash : Text → Option ℕ
  | [] => none
  | byte :: rest =>
    match lastSlash rest with
    | some k => some (k + 1)
    | none => if byte = SLASH ∧ rest ≠ [] then some 0 else none

namespace Vfs

variable (s : Vfs)

/-! ## Looking names up -/

def rootInode : ℕ := (s.filesystems s.rootFilesystem).root

/-- The kind of filesystem an inode belongs to. -/
def kindOf (n : ℕ) : FileSystemKind := (s.filesystems (s.inodes n).filesystem).kind

def followMount (n : ℕ) : ℕ :=
  match s.mounts.find? fun mount => mount.covered = some n with
  | none => n
  | some mount => (s.filesystems mount.filesystem).root

def findChild (children : List ℕ) (name : Text) : Option ℕ :=
  children.find? fun child => (s.inodes child).name = name

def lookup (directory : ℕ) (name : Text) : Except Errno ℕ :=
  if (s.inodes directory).isDirectory then
    match s.findChild (s.inodes directory).children name with
    | none => .error .ENOENT
    | some child => .ok child
  else .error .ENOTDIR

/-- The body of the loop of `resolve`. -/
def enter (current : ℕ) (component : Text) : Except Errno ℕ :=
  if component = DOT then .ok current
  else if component = DOT_DOT then .ok ((s.inodes current).parent.getD current)
  else
    match s.lookup current component with
    | .error e => .error e
    | .ok next => .ok (s.followMount next)

/-- The loop of `resolve`. -/
def walk : List Text → ℕ → Except Errno ℕ
  | [], current => .ok current
  | component :: components, current =>
    match s.enter current component with
    | .error e => .error e
    | .ok next => walk components next

/-- Where the walk along a path starts. -/
def startOf (path : Text) (base : Option ℕ) : ℕ :=
  if path.head? = some SLASH then s.rootInode else base.getD s.rootInode

def resolve (path : Text) (base : Option ℕ) : Except Errno ℕ :=
  s.walk (components path) (s.followMount (s.startOf path base))

/-- `resolve_parent`: the directory and the final component. -/
def resolveParent (path : Text) (base : Option ℕ) : Except Errno (ℕ × Text) :=
  match lastSlash path with
  | none => .ok (s.followMount (s.startOf path base), path.take (FILENAME_MAX_LENGTH - 1))
  | some k =>
    let directory := path.take (min k (PATH_MAX_LENGTH - 1))
    let name := (path.drop (k + 1)).take (FILENAME_MAX_LENGTH - 1)
    if directory.length = 0 then .ok (s.followMount s.rootInode, name)
    else
      match s.resolve directory base with
      | .error e => .error e
      | .ok parent => .ok (parent, name)

/-! ## References -/

def set (n : ℕ) (inode : Inode) : Vfs := { s with inodes := Function.update s.inodes n inode }

def ref (n : ℕ) : Vfs :=
  s.set n { s.inodes n with referenceCount := (s.inodes n).referenceCount + 1 }

/-- `Inode::unref`, with the destructor it may run.  A directory that is destroyed lets go of its
children; `depth` is how far down that can go. -/
def unrefWithin : ℕ → Vfs → ℕ → Vfs
  | 0, s, _ => s
  | depth + 1, s, n =>
    let inode := s.inodes n
    let s := s.set n { inode with referenceCount := inode.referenceCount - 1 }
    if inode.referenceCount = 1 then
      inode.children.foldl (unrefWithin depth) { s with destroyed := n :: s.destroyed }
    else s

def unref (n : ℕ) : Vfs := unrefWithin s.next s n

def markUnlinked (n : ℕ) : Vfs := s.set n { s.inodes n with unlinked := true, parent := none }

/-! ## Changing a directory -/

/-- Replace the children of a directory. -/
def setChildren (directory : ℕ) (children : List ℕ) : Vfs :=
  s.set directory { s.inodes directory with children := children }

/-- The inode `TmpfsInode::create` makes. -/
def newInode (directory : ℕ) (name : Text) (type : InodeType) : Inode where
  filesystem := (s.inodes directory).filesystem
  type := type
  name := name.take (FILENAME_MAX_LENGTH - 1)
  parent := some directory
  children := []
  referenceCount := 1
  unlinked := false

/-- `Inode::create`.  `memory` says whether it can be had. -/
def create (directory : ℕ) (name : Text) (type : InodeType) (memory : Bool) : VfsResult ℕ :=
  if s.kindOf directory ≠ .tmpfs then (.error .EROFS, s)
  else if ¬ (s.inodes directory).isDirectory then (.error .ENOTDIR, s)
  else if FILENAME_MAX_LENGTH ≤ name.length then (.error .ENAMETOOLONG, s)
  else if (s.findChild (s.inodes directory).children name).isSome then (.error .EEXIST, s)
  else if ¬ memory then (.error .ENOMEM, s)
  else
    let child := s.next
    let created := { s.set child (s.newInode directory name type) with next := child + 1 }
    (.ok child, created.setChildren directory ((s.inodes directory).children ++ [child]))

def unlink (directory : ℕ) (name : Text) : VfsResult Unit :=
  if s.kindOf directory ≠ .tmpfs then (.error .EROFS, s)
  else if ¬ (s.inodes directory).isDirectory then (.error .ENOTDIR, s)
  else
    match s.findChild (s.inodes directory).children name with
    | none => (.error .ENOENT, s)
    | some child =>
      if (s.inodes child).isDirectory ∧ (s.inodes child).children ≠ [] then
        (.error .ENOTEMPTY, s)
      else
        let removed := s.setChildren directory ((s.inodes directory).children.erase child)
        (.ok (), (removed.markUnlinked child).unref child)

def removeChild (directory child : ℕ) : Vfs :=
  s.setChildren directory ((s.inodes directory).children.erase child)

/-- A child gets another name and another parent. -/
def adopt (child : ℕ) (name : Text) (parent : ℕ) : Vfs :=
  s.set child { s.inodes child with
    name := name.take (FILENAME_MAX_LENGTH - 1)
    parent := some parent }

/-- The middle of `TmpfsInode::rename`: `source` leaves `directory` and arrives in `destination`,
where nothing or `replaced` has its new name. -/
def relink (directory source destination : ℕ) (newName : Text) (replaced : Option ℕ) : Vfs :=
  let s := match replaced with
    | none => s
    | some replaced => s.removeChild destination replaced
  let s := (s.removeChild directory source).adopt source newName destination
  s.setChildren destination ((s.inodes destination).children ++ [source])

/-- The part of `TmpfsInode::rename` that cannot fail. -/
def move (directory source destination : ℕ) (newName : Text) (replaced : Option ℕ) : Vfs :=
  let s := s.relink directory source destination newName replaced
  match replaced with
  | none => s
  | some replaced => (s.markUnlinked replaced).unref replaced

/-- `TmpfsInode::rename`. -/
def tmpfsRename (directory : ℕ) (name : Text) (destination : ℕ) (newName : Text)
    (memory : Bool) : VfsResult Unit :=
  if ¬ (s.inodes directory).isDirectory ∨ ¬ (s.inodes destination).isDirectory then
    (.error .ENOTDIR, s)
  else if FILENAME_MAX_LENGTH ≤ newName.length then (.error .ENAMETOOLONG, s)
  else
    match s.findChild (s.inodes directory).children name with
    | none => (.error .ENOENT, s)
    | some source =>
      let replaced := s.findChild (s.inodes destination).children newName
      if destination = directory ∧ name = newName then (.ok (), s)
      else if replaced = some source then (.ok (), s)
      else
        match replaced with
        | none =>
          if memory then (.ok (), s.move directory source destination newName none)
          else (.error .ENOMEM, s)
        | some old =>
          if (s.inodes old).isDirectory ≠ (s.inodes source).isDirectory then
            (.error (if (s.inodes source).isDirectory then .ENOTDIR else .EISDIR), s)
          else if (s.inodes old).isDirectory ∧ (s.inodes old).children ≠ [] then
            (.error .ENOTEMPTY, s)
          else if memory then (.ok (), s.move directory source destination newName (some old))
          else (.error .ENOMEM, s)

/-- `Inode::rename`. -/
def renameEntry (directory : ℕ) (name : Text) (destination : ℕ) (newName : Text) (memory : Bool) :
    VfsResult Unit :=
  if s.kindOf directory ≠ .tmpfs then (.error .ENOTSUP, s)
  else s.tmpfsRename directory name destination newName memory

/-! ## `fs::open` and `fs::rename` -/

/-- The first part of `open`: the inode is found or created.  `made` says whether there is memory
for it. -/
def findOrCreate (path : Text) (flags : BitVec 32) (base : Option ℕ) (made : Bool) : VfsResult ℕ :=
  match s.resolve path base with
  | .error e =>
    if e ≠ .ENOENT ∨ flags &&& O_CREAT = 0 then (.error e, s)
    else
      match s.resolveParent path base with
      | .error e => (.error e, s)
      | .ok (parent, name) =>
        if (s.kindOf parent).isReadOnly then (.error .EROFS, s)
        else s.create parent name .regular made
  | .ok inode =>
    if flags &&& O_CREAT ≠ 0 ∧ flags &&& O_EXCL ≠ 0 then (.error .EEXIST, s) else (.ok inode, s)

/-- What `open` has against the inode. -/
def openChecks (inode : ℕ) (flags : BitVec 32) : Option Errno :=
  let wantsWrite := flags &&& O_ACCMODE ≠ O_RDONLY ∨ flags &&& (O_CREAT ||| O_TRUNC) ≠ 0
  if wantsWrite ∧ (s.kindOf inode).isReadOnly then some .EROFS
  else if flags &&& O_DIRECTORY ≠ 0 ∧ ¬ (s.inodes inode).isDirectory then some .ENOTDIR
  else if (s.inodes inode).isDirectory ∧ flags &&& O_ACCMODE ≠ O_RDONLY then some .EISDIR
  else none

/-- Whether `open` calls `await_peer`. -/
def AwaitsPeer (inode : ℕ) (flags : BitVec 32) : Prop :=
  (s.inodes inode).type = .fifo ∧ flags &&& O_NONBLOCK = 0

instance (inode : ℕ) (flags : BitVec 32) : Decidable (s.AwaitsPeer inode flags) :=
  inferInstanceAs (Decidable (_ ∧ _))

/-- `open` of what is no FIFO.  The description holds a reference; `memory` says whether there is
any for it. -/
def openPath (path : Text) (flags : BitVec 32) (base : Option ℕ) (made memory : Bool) :
    VfsResult ℕ :=
  match s.findOrCreate path flags base made with
  | (.error e, s) => (.error e, s)
  | (.ok inode, s) =>
    match s.openChecks inode flags with
    | some e => (.error e, s)
    | none => if memory then (.ok inode, s.ref inode) else (.error .ENOMEM, s)

/-- The loop of `rename` over the directories above `walk`.  In a tree it ends before `fuel` does;
one that does not end is taken for one that finds `source`. -/
def isWithin (source : ℕ) : ℕ → Option ℕ → Bool
  | _, none => false
  | 0, some _ => true
  | fuel + 1, some walk => walk = source || isWithin source fuel (s.inodes walk).parent

def rename (source destination : Text) (base : Option ℕ) (memory : Bool) : VfsResult Unit :=
  match s.resolveParent source base with
  | .error e => (.error e, s)
  | .ok (fromParent, fromName) =>
    match s.resolveParent destination base with
    | .error e => (.error e, s)
    | .ok (toParent, toName) =>
      if (s.inodes fromParent).filesystem ≠ (s.inodes toParent).filesystem then
        (.error .EXDEV, s)
      else if (s.kindOf fromParent).isReadOnly then (.error .EROFS, s)
      else if fromName = DOT ∨ fromName = DOT_DOT ∨ toName = DOT ∨ toName = DOT_DOT then
        (.error .EINVAL, s)
      else
        match s.lookup fromParent fromName with
        | .error e => (.error e, s)
        | .ok inode =>
          if (s.inodes inode).isDirectory ∧ s.isWithin inode s.next (some toParent) then
            (.error .EINVAL, s)
          else s.renameEntry fromParent fromName toParent toName memory

/-! ## System calls -/

/-- What `sys_mkdir` and `sys_mkfifo` do.  They return zero; the inode is returned here so that it
can be spoken about. -/
def makeNode (type : InodeType) (path : Text) (base : Option ℕ) (memory : Bool) : VfsResult ℕ :=
  match s.resolve path base with
  | .ok _ => (.error .EEXIST, s)
  | .error _ =>
    match s.resolveParent path base with
    | .error e => (.error e, s)
    | .ok (parent, name) =>
      if (s.kindOf parent).isReadOnly then (.error .EROFS, s)
      else s.create parent name type memory

def sysMkdir (path : Text) (base : Option ℕ) (memory : Bool) : VfsResult ℕ :=
  s.makeNode .directory path base memory

def sysMkfifo (path : Text) (base : Option ℕ) (memory : Bool) : VfsResult ℕ :=
  s.makeNode .fifo path base memory

def sysUnlinkCommon (path : Text) (base : Option ℕ) (mustBeDirectory : Bool) : VfsResult Unit :=
  match s.resolve path base with
  | .error e => (.error e, s)
  | .ok target =>
    if mustBeDirectory ∧ ¬ (s.inodes target).isDirectory then (.error .ENOTDIR, s)
    else if ¬ mustBeDirectory ∧ (s.inodes target).isDirectory then (.error .EISDIR, s)
    else
      match s.resolveParent path base with
      | .error e => (.error e, s)
      | .ok (parent, name) =>
        if (s.kindOf parent).isReadOnly then (.error .EROFS, s) else s.unlink parent name

def sysUnlink (path : Text) (base : Option ℕ) : VfsResult Unit := s.sysUnlinkCommon path base false

def sysRmdir (path : Text) (base : Option ℕ) : VfsResult Unit := s.sysUnlinkCommon path base true

end Vfs
end ShitOs
