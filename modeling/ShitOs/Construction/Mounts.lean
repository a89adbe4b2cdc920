import ShitOs.Construction.DirectoryStream

/-!
# Mounting, and the way back to a path

`mount`, `mount_point_of` and `absolute_path_of` of `kernel/fs/vfs.cpp`.  `resolve` goes down: it
crosses into a mounted filesystem when it comes to the directory that is covered by it.
`absolute_path_of` goes up, along the parents, and when it has come to the root of a mounted
filesystem it asks the table of mounts where that is.

Each turn of the loop of `absolute_path_of` puts a slash and a name into a buffer of
`PATH_MAX_LENGTH` bytes, from its end on, so there are not more turns than bytes.  The path in a
`MountEntry` is left out.
-/

namespace ShitOs

def MAX_MOUNTS : ℕ := 8

namespace Vfs

variable (s : Vfs)

/-- The root of a filesystem. -/
def rootOf (filesystem : ℕ) : ℕ := (s.filesystems filesystem).root

def mount (path : Text) (filesystem : ℕ) : VfsResult Unit :=
  match s.resolve path none with
  | .error e => (.error e, s)
  | .ok mountPoint =>
    if ¬ (s.inodes mountPoint).isDirectory then (.error .ENOTDIR, s)
    else if MAX_MOUNTS ≤ s.mounts.length then (.error .ENOSPC, s)
    else if s.mounts.any fun mount => mount.covered = some mountPoint then (.error .EBUSY, s)
    else (.ok (), { s.ref mountPoint with mounts := s.mounts ++ [⟨some mountPoint, filesystem⟩] })

def mountPointOf (filesystemRoot : ℕ) : Option ℕ :=
  (s.mounts.find? fun mount => mount.covered.isSome ∧ s.rootOf mount.filesystem =
  filesystemRoot).bind
    (·.covered)

/-- Where the loop of `absolute_path_of` goes on from `current`: it ends at an inode, or looks for
the name of an inode in a directory. -/
def above (current : ℕ) : ℕ ⊕ (ℕ × ℕ) :=
  match (s.inodes current).parent with
  | some parent => .inr (current, parent)
  | none =>
    match s.mountPointOf current with
    | none => .inl current
    | some covered =>
      if covered = s.rootInode then .inl covered
      else
        match (s.inodes covered).parent with
        | none => .inl covered
        | some parent => .inr (covered, parent)

/-- The name of an inode in a directory, by `read_directory` and `lookup`. -/
def nameIn (directory inode : ℕ) : Option Text :=
  if (s.inodes directory).isDirectory then
    (List.range ((s.inodes directory).children.length + 2)).findSome? fun index =>
      (s.readDirectory directory index).bind fun entry =>
        if s.lookup directory entry.name = .ok inode then some entry.name else none
  else none

/-- The loop of `absolute_path_of`; what is in the buffer before it, and after it. -/
def climb : ℕ → ℕ → Text → Except Errno Text
  | 0, _, _ => .error .ENAMETOOLONG
  | fuel + 1, current, scratch =>
    if current = s.rootInode then .ok scratch
    else
      match s.above current with
      | .inl last => if last = s.rootInode then .ok scratch else .error .ENOENT
      | .inr (named, parent) =>
        match s.nameIn parent named with
        | none => .error .ENOENT
        | some name =>
          if name = [] then .error .ENOENT
          else if PATH_MAX_LENGTH - 1 - scratch.length < name.length + 1 then .error .ENAMETOOLONG
          else climb fuel parent (SLASH :: name ++ scratch)

def absolutePathOf (inode capacity : ℕ) : Except Errno Text :=
  if inode = s.rootInode then if capacity < 2 then .error .ERANGE else .ok [SLASH]
  else
    match s.climb (PATH_MAX_LENGTH + 1) inode [] with
    | .error e => .error e
    | .ok path => if capacity < path.length + 1 then .error .ERANGE else .ok path

/-- A `mount` that succeeds, as a step. -/
def mountStep (call : Text × ℕ) : Option Vfs :=
  match s.mount call.1 call.2 with
  | (.ok _, s') => some s'
  | (.error _, _) => none

end Vfs

end ShitOs
