import ShitOs.Construction.Vfs

/-!
# Reading a directory while it changes

`get_directory_entries` of `kernel/fs/vfs.cpp`, `read_directory` of `kernel/fs/tmpfs.cpp` and
`sys_getdents`.  An open directory has a cursor, `m_directory_index`: zero and one stand for `.` and
`..`, and what follows are indices into the vector of children, as it is when the call is made.
Between two calls anybody can create, unlink and rename.

A record carries the inode instead of its number.  Left out: `d_reclen`, `d_type`, and a buffer that
cannot be copied to.
-/

namespace ShitOs

/-- What `read_directory` returns of an entry. -/
structure DirectoryEntry where
  inode : ℕ
  name : Text
  type : InodeType
  deriving DecidableEq

/-- `sizeof(struct dirent)`. -/
def DIRENT_SIZE : ℕ := 16

/-- How long the record of an entry is: `align_up(sizeof(struct dirent) + name_length + 1, 8)`. -/
def DirectoryEntry.recordLength (entry : DirectoryEntry) : ℕ :=
  (DIRENT_SIZE + entry.name.length + 1 + 7) / 8 * 8

/-- `TmpfsInode::read_directory` and `UstarInode::read_directory` of a directory. -/
def Vfs.readDirectory (s : Vfs) (directory index : ℕ) : Option DirectoryEntry :=
  if index = 0 then some ⟨directory, DOT, .directory⟩
  else if index = 1 then some ⟨(s.inodes directory).parent.getD directory, DOT_DOT, .directory⟩
  else
    ((s.inodes directory).children[index - 2]?).map fun child =>
      ⟨child, (s.inodes child).name.take (FILENAME_MAX_LENGTH - 1), (s.inodes child).type⟩

/-- The loop of `get_directory_entries`, with `written` bytes in the buffer: the records it adds. -/
def Vfs.fillRecords (s : Vfs) (directory capacity : ℕ) : ℕ → ℕ → ℕ → List DirectoryEntry
  | 0, _, _ => []
  | fuel + 1, index, written =>
    match s.readDirectory directory index with
    | none => []
    | some entry =>
      if capacity < written + entry.recordLength then []
      else entry :: fillRecords s directory capacity fuel (index + 1) (written + entry.recordLength)

/-- An open directory. -/
structure DirectoryStream where
  vfs : Vfs
  inode : ℕ
  index : ℕ

namespace DirectoryStream

/-- How many turns the loop can make. -/
def turns (s : DirectoryStream) : ℕ := (s.vfs.inodes s.inode).children.length + 3 - s.index

def getDirectoryEntries (s : DirectoryStream) (capacity : ℕ) :
    Except Errno (List DirectoryEntry) × DirectoryStream :=
  if ¬ (s.vfs.inodes s.inode).isDirectory then (.error .ENOTDIR, s)
  else
    let entries := s.vfs.fillRecords s.inode capacity s.turns s.index 0
    if entries = [] ∧ (s.vfs.readDirectory s.inode s.index).isSome then (.error .EINVAL, s)
    else (.ok entries, { s with index := s.index + entries.length })

/-- `sys_getdents`.  `memory` says whether there is some for the buffer. -/
def sysGetdents (s : DirectoryStream) (length : ℕ) (memory : Bool) :
    Except Errno (List DirectoryEntry) × DirectoryStream :=
  if memory then s.getDirectoryEntries (min length (16 * 1024)) else (.error .ENOMEM, s)

/-- A call of the one who reads the directory, or an operation of anybody on some directory. -/
inductive Call
  | getdents (length : ℕ) (memory : Bool)
  | create (directory : ℕ) (name : Text) (type : InodeType) (memory : Bool)
  | unlink (directory : ℕ) (name : Text)
  | rename (directory : ℕ) (name : Text) (destination : ℕ) (newName : Text) (memory : Bool)

/-- What a call does. -/
def step (s : DirectoryStream) : Call → Option DirectoryStream
  | .getdents length memory => some (s.sysGetdents length memory).2
  | .create directory name type memory =>
      some { s with vfs := (s.vfs.create directory name type memory).2 }
  | .unlink directory name => some { s with vfs := (s.vfs.unlink directory name).2 }
  | .rename directory name destination newName memory =>
    some { s with vfs := (s.vfs.renameEntry directory name destination newName memory).2 }

/-- The entries a call returns. -/
def returned (s : DirectoryStream) : Call → List DirectoryEntry
  | .getdents length memory =>
    match (s.sysGetdents length memory).1 with
    | .ok entries => entries
    | .error _ => []
  | _ => []

end DirectoryStream

end ShitOs
