import ShitOs.Construction.Vfs
import ShitOs.Framework.Overwrite

/-!
# The initial ramdisk

`kernel/fs/ustar.cpp`: `parse` goes through a tar archive, header by header, and `ensure_path` makes
the inodes; `read` and `lookup` are what is done with them later.

The archive is a list of bytes and `m_data` an offset into it.  A header is a block of 512 bytes,
read as a whole.  The one buffer there is, `path`, is modelled byte by byte: a store outside of its
256 bytes, like a read outside of the archive, ends the model with a `Stop` that says so.

An inode is a tree.  Nothing is ever moved or shared between directories, so what `parse` does with
the inode that `ensure_path` has returned is handed to `ensureParts` as a function.  `memory` says
for which inodes there is memory, by the number they would get.  The archive is in memory, so
`offset + BLOCK_SIZE` does not wrap.

Left out: `m_parent`, which `ensure_path` sets and nothing here reads, the reference counts, and the
log.
-/

namespace ShitOs

def BLOCK_SIZE : ℕ := 512

/-- `sizeof(path)`. -/
def PATH_SIZE : ℕ := 256

/-- How a function ends that does not return. -/
inductive UstarStop
  | errno (e : Errno)
  | readOutside (offset : ℕ)
  | storeOutside (index : ℕ)
  deriving DecidableEq

/-- The fields of a `TarHeader` that are read. -/
structure TarHeader where
  name : List UInt8
  mode : List UInt8
  size : List UInt8
  mtime : List UInt8
  typeFlag : UInt8
  magic : List UInt8
  pathPrefix : List UInt8
  deriving DecidableEq

/-- The bytes of a field of a block. -/
def field (block : List UInt8) (start length : ℕ) : List UInt8 := (block.drop start).take length

def TarHeader.ofBlock (block : List UInt8) : TarHeader where
  name := field block 0 100
  mode := field block 100 8
  size := field block 124 12
  mtime := field block 136 12
  typeFlag := block.getD 156 0
  magic := field block 257 6
  pathPrefix := field block 345 155

/-- The loop of `parse_octal`. -/
def parseOctalFrom : ℕ → List UInt8 → ℕ
  | value, [] => value
  | value, c :: rest =>
    if c = 0 ∨ c = 0x20 then value
    else if c < 0x30 ∨ 0x37 < c then parseOctalFrom value rest
    else parseOctalFrom (value * 8 + (c.toNat - 0x30)) rest

def parseOctal (bytes : List UInt8) : ℕ := parseOctalFrom 0 bytes

/-- What is before the NUL of a string, or the whole of it if there is none: the `strnlen` bytes of
a field. -/
def textOf (bytes : List UInt8) : Text := bytes.takeWhile (· ≠ 0)

/-- `ustar`, what `is_ustar` compares with. -/
def USTAR : Text := [0x75, 0x73, 0x74, 0x61, 0x72]

def TarHeader.isUstar (header : TarHeader) : Bool := header.magic.take 5 = USTAR

def isZeroBlock (block : List UInt8) : Bool := block.all (· = 0)

/-- A part of the archive. -/
def readBytes (archive : List UInt8) (offset length : ℕ) : Except UstarStop (List UInt8) :=
  if offset + length ≤ archive.length then .ok (field archive offset length)
  else .error (.readOutside (max offset archive.length))

/-! ## The path of a header -/

/-- Store bytes in an array. -/
def store (array : List UInt8) (index : ℕ) (bytes : List UInt8) : Except UstarStop (List UInt8) :=
  if index + bytes.length ≤ array.length then .ok (overwrite 0 array bytes index)
  else .error (.storeOutside (max index array.length))

/-- The `prefix`, if there is one, and a slash. -/
def TarHeader.storePrefix (header : TarHeader) (path : List UInt8) :
    Except UstarStop (List UInt8) :=
  if header.pathPrefix.head? ≠ some 0 then do
    let leading := textOf header.pathPrefix
    let path ← store path 0 leading
    let path ← store path leading.length [SLASH]
    store path (leading.length + 1) [0]
  else pure path

/-- The `name`, behind what is in `path` already. -/
def TarHeader.storeName (header : TarHeader) (path : List UInt8) :
    Except UstarStop (List UInt8) := do
  let used := (textOf path).length
  let name := textOf header.name
  let path ← store path used name
  store path (used + name.length) [0]

/-- The path that is split across `prefix` and `name`, put together in the array `path`. -/
def TarHeader.path (header : TarHeader) (path : List UInt8) : Except UstarStop Text := do
  let path ← store path 0 [0]
  let path ← header.storePrefix path
  let path ← header.storeName path
  return textOf path

/-- The path without a leading `./`. -/
def cleanPath (path : Text) : Text := if path.take 2 = [0x2e, SLASH] then path.drop 2 else path

/-! ## Inodes -/

structure UstarInode where
  name : Text
  type : InodeType
  mode : ℕ
  times : ℕ
  data : Option ℕ
  size : ℕ
  children : List UstarInode

namespace UstarInode

/-- A new inode. -/
def make (name : Text) (type : InodeType) (mode : ℕ) :
    UstarInode := ⟨name, type, mode, 0, none, 0, []⟩

def read (archive : List UInt8) (inode : UstarInode) (offset length : ℕ) :
    Except UstarStop (List UInt8) :=
  if inode.type ≠ .regular then .error (.errno .EISDIR)
  else if inode.size ≤ offset then .ok []
  else readBytes archive (inode.data.getD 0 + offset) (min length (inode.size - offset))

/-- The child of a name. -/
def child (inode : UstarInode) (name : Text) :
    Option UstarInode := inode.children.find? (·.name = name)

def lookup (inode : UstarInode) (name : Text) : Except Errno UstarInode :=
  if inode.type ≠ .directory then .error .ENOTDIR
  else
    match inode.child name with
    | none => .error .ENOENT
    | some child => .ok child

/-- `resolve` below an inode, for components that lead down. -/
def resolve : List Text → UstarInode → Except Errno UstarInode
  | [], inode => .ok inode
  | component :: components, inode =>
    match inode.lookup component with
    | .error e => .error e
    | .ok child => resolve components child

/-- Children with a child that is new, or has changed. -/
def putInto (child : UstarInode) : List UstarInode → List UstarInode
  | [] => [child]
  | first :: rest => if first.name = child.name then child :: rest else first :: putInto child rest

def put (inode child : UstarInode) :
    UstarInode := { inode with children := putInto child inode.children }

end UstarInode

/-! ## `ensure_path` -/

/-- The components the loop of `ensure_path` sees, with `is_last`, in at most `fuel` turns. -/
def partsWithin : ℕ → Text → List (Text × Bool)
  | 0, _ => []
  | fuel + 1, cursor =>
    match nextComponent cursor with
    | none => []
    | some (component, rest) =>
      if rest = [] ∨ rest = [SLASH] then [(component, true)]
      else (component, false) :: partsWithin fuel rest

/-- The components the loop of `ensure_path` sees, with `is_last`. -/
def parts (path : Text) : List (Text × Bool) := partsWithin path.length path

/-- What `ensure_path` was asked for, and what is done with the inode it returns. -/
structure Wanted where
  type : InodeType
  mode : ℕ
  fill : UstarInode → UstarInode

/-- The child that a turn of the loop makes. -/
def Wanted.make (wanted : Wanted) (component : Text) (isLast : Bool) : UstarInode :=
  .make component (if isLast then wanted.type else .directory)
  (if isLast then wanted.mode else 0o755)

/-- The loop of `ensure_path` below `current`: what becomes of `current`, and the next inode number.
-/
def ensureParts (memory : ℕ → Bool) (wanted : Wanted) : List (Text × Bool) → UstarInode → ℕ →
    Except Errno Unit × UstarInode × ℕ
  | [], current, next => (.ok (), wanted.fill current, next)
  | (component, isLast) :: rest, current, next =>
    match current.child component with
    | some child =>
      let (result, child, next) := ensureParts memory wanted rest child next
      (result, current.put child, next)
    | none =>
      if memory next then
        let (result, child, next) :=
          ensureParts memory wanted rest (wanted.make component isLast) (next + 1)
        (result, current.put child, next)
      else (.error .ENOMEM, current, next)

/-! ## `parse` -/

structure UstarFileSystem where
  root : UstarInode
  nextInodeNumber : ℕ
  fileCount : ℕ
  totalBytes : ℕ

/-- The filesystem as `create` hands it to `parse`. -/
def UstarFileSystem.empty : UstarFileSystem := ⟨.make [SLASH] .directory 0o755, 2, 0, 0⟩

def UstarFileSystem.ensurePath (s : UstarFileSystem) (memory : ℕ → Bool) (path : Text)
    (wanted : Wanted) : Except Errno Unit × UstarFileSystem :=
  let (result, root, next) := ensureParts memory wanted (parts path) s.root s.nextInodeNumber
  (result, { s with root := root, nextInodeNumber := next })

/-- What a header is for. -/
inductive EntryKind
  | directory | file | other
  deriving DecidableEq

namespace TarHeader

variable (header : TarHeader)

def kind : EntryKind :=
  if header.typeFlag = 0x35 then .directory
  else if header.typeFlag = 0x30 ∨ header.typeFlag = 0 then .file
  else .other

def sizeOf : ℕ := parseOctal header.size

def modeOf : ℕ := parseOctal header.mode % 2 ^ 32

def modified : ℕ := parseOctal header.mtime

/-- What `ensure_path` is asked for by the header of a directory. -/
def wantsDirectory : Wanted where
  type := .directory
  mode := if header.modeOf ≠ 0 then header.modeOf else 0o755
  fill := fun inode => { inode with times := header.modified }

/-- What `ensure_path` is asked for by the header of a file whose data begins at `offset`. -/
def wantsFile (offset : ℕ) : Wanted where
  type := .regular
  mode := if header.modeOf ≠ 0 then header.modeOf else 0o644
  fill := fun inode => { inode with data := some offset, size := header.sizeOf, times :=
    header.modified }

end TarHeader

/-- The `switch` of `parse`, for a header with a path, whose data begins at `offset`. -/
def UstarFileSystem.enter (s : UstarFileSystem) (memory : ℕ → Bool) (header : TarHeader)
    (path : Text) (offset : ℕ) : Except Errno Unit × UstarFileSystem :=
  if path = [] then (.ok (), s)
  else
    match header.kind with
    | .directory => s.ensurePath memory path header.wantsDirectory
    | .file =>
      match s.ensurePath memory path (header.wantsFile offset) with
      | (.error e, s) => (.error e, s)
      | (.ok _, s) => (.ok (), { s with
          fileCount := s.fileCount + 1
          totalBytes := s.totalBytes + header.sizeOf })
    | .other => (.ok (), s)

/-- `align_up(size, BLOCK_SIZE)`. -/
def padded (size : ℕ) : ℕ := (size + BLOCK_SIZE - 1) / BLOCK_SIZE * BLOCK_SIZE

namespace Ustar

/-- Where the loop of `parse` is. -/
structure State where
  offset : ℕ
  filesystem : UstarFileSystem

/-- What a turn of the loop ends with. -/
inductive Turn
  | finish
  | fail (why : UstarStop) (filesystem : UstarFileSystem)
  | next (s : State)

/-- A turn of the loop of `parse`. -/
def turn (archive : List UInt8) (memory : ℕ → Bool) (s : State) : Turn :=
  if s.offset + BLOCK_SIZE ≤ archive.length then
    match readBytes archive s.offset BLOCK_SIZE with
    | .error why => .fail why s.filesystem
    | .ok block =>
      let header := TarHeader.ofBlock block
      if isZeroBlock block then .finish
      else if ¬ header.isUstar then .finish
      else
        match header.path (List.replicate PATH_SIZE 0) with
        | .error why => .fail why s.filesystem
        | .ok path =>
          let offset := s.offset + BLOCK_SIZE
          match s.filesystem.enter memory header (cleanPath path) offset with
          | (.error e, filesystem) => .fail (.errno e) filesystem
          | (.ok _, filesystem) => .next ⟨offset + padded header.sizeOf, filesystem⟩
  else .finish

/-- The loop of `parse`, or none if it does not end within `fuel` turns. -/
def parseWithin (archive : List UInt8) (memory : ℕ → Bool) : ℕ → State →
    Option (Except UstarStop Unit × UstarFileSystem)
  | 0, _ => none
  | fuel + 1, s =>
    match turn archive memory s with
    | .finish => some (.ok (), s.filesystem)
    | .fail why filesystem => some (.error why, filesystem)
    | .next s => parseWithin archive memory fuel s

/-- `parse`, in at most one turn for each block and one more. -/
def parse (archive : List UInt8) (memory : ℕ → Bool) :
    Option (Except UstarStop Unit × UstarFileSystem) :=
  parseWithin archive memory (archive.length / BLOCK_SIZE + 1) ⟨0, .empty⟩

end Ustar

end ShitOs
