import ShitOs.Construction.AddressSpace
import ShitOs.Construction.Vfs
import ShitOs.Framework.Pieces

/-!
# Contents of a file in tmpfs

`ensure_pages`, `release_pages_from`, `read`, `write` and `truncate` of `kernel/fs/tmpfs.cpp`.  A
file has a size and a vector of page frames, whose bytes are bytes of physical memory.

The frames come from the page allocator.  `room` says how many frames the vector, on the kernel
heap, gets to hold.  At an index outside the vector the model stops.

Left out: an inode that is a FIFO, whose calls go to its pipe, and the times that `touch` sets.
-/

namespace ShitOs

/-- A file, and the machine its pages are on. -/
structure TmpfsFile where
  machine : Machine
  pages : List ℕ
  size : U64
  type : InodeType

/-- The calls of a file. -/
abbrev TmpfsM := Program TmpfsFile Errno

namespace TmpfsFile

open Physical Program

/-- `pages_for`, in arithmetic that wraps. -/
def pagesFor (bytes : U64) : ℕ := ((bytes + 4096 - 1) / 4096).toNat

/-- A call of the page allocator. -/
def onMachine {α : Type} (x : MachineM α) : TmpfsM α :=
  zoom machine (fun m s => { s with machine := m }) x

/-- One turn of the loop of `release_pages_from`. -/
def releaseLast : TmpfsM Unit := do
  match (← get).pages.getLast? with
  | none => halt
  | some page =>
    onMachine (freePage page)
    modify fun s => { s with pages := s.pages.dropLast }

def releasePagesFrom (firstIndex : ℕ) : TmpfsM Unit := do
  (List.range ((← get).pages.length - firstIndex)).forM fun _ => releaseLast

/-- Gives back the pages that `m_size` does not account for. -/
def abandon {α : Type} (e : Errno) : TmpfsM α := do
  releasePagesFrom (pagesFor (← get).size)
  throw e

/-- One turn of the loop of `ensure_pages`. -/
def addPage (room : ℕ) : TmpfsM Unit := do
  let page ← tryCatch (onMachine allocateZeroedPage) abandon
  if (← get).pages.length < room then modify fun s => { s with pages := s.pages ++ [page] }
  else
    onMachine (freePage page)
    abandon .ENOMEM

def ensurePages (wantedBytes : U64) (room : ℕ) : TmpfsM Unit := do
  (List.range (pagesFor wantedBytes - (← get).pages.length)).forM fun _ => addPage room

/-- The page a position is on, `m_pages[position / PAGE_SIZE]`. -/
def pageOf (s : TmpfsFile) (position : ℕ) : Option ℕ := s.pages[position % 2 ^ 64 / PAGE_SIZE]?

/-- One turn of the loop of `read`. -/
def readPiece (s : TmpfsFile) (piece : ℕ × ℕ) : Option (List (BitVec 8)) :=
  (s.pageOf piece.1).map fun page =>
    (List.range piece.2).map fun i =>
      Memory.loadByte s.machine.words (page * PAGE_SIZE + piece.1 % PAGE_SIZE + i)

/-- `read`; what it returns is how many bytes the list has. -/
def read (offset length : U64) : TmpfsM (List (BitVec 8)) := do
  let s ← get
  if s.type = .directory then throw .EISDIR
  else if s.size ≤ offset then return []
  else
    match (pieces PAGE_SIZE offset.toNat (min length.toNat (s.size - offset).toNat)).mapM
      s.readPiece with
    | none => halt
    | some parts => return parts.flatten

/-- `memcpy` or `memset` to a page of the file. -/
def store (position count : ℕ) (bytes : ℕ → BitVec 8) : TmpfsM Unit := do
  match (← get).pageOf position with
  | none => halt
  | some page => modify fun s => { s with machine := { s.machine with
      words := Memory.storeBytes s.machine.words (page * PAGE_SIZE + position % PAGE_SIZE)
        count bytes } }

def write (offset : U64) (data : List (BitVec 8)) (room : ℕ) : TmpfsM U64 := do
  let length := BitVec.ofNat 64 data.length
  if (← get).type = .directory then throw .EISDIR
  else if length = 0 then return 0
  else
    ensurePages (offset + length) room
    (pieces PAGE_SIZE offset.toNat data.length).forM fun piece =>
      store piece.1 piece.2 fun i => data.getD (piece.1 - offset.toNat + i) 0
    modify fun s => { s with size := if s.size < offset + length then offset + length else s.size }
    return length

def truncate (size : U64) (room : ℕ) : TmpfsM Unit := do
  let s ← get
  if s.type = .directory then throw .EISDIR
  else
    if s.size < size then ensurePages size room
    else if size < s.size then
      let keep := pagesFor size
      let within := (size % 4096).toNat
      if within ≠ 0 ∧ 0 < keep then
        store ((keep - 1) * PAGE_SIZE + within) (PAGE_SIZE - within) fun _ => 0
      releasePagesFrom keep
    modify fun s => { s with size := size }

end TmpfsFile

/-! ## Calls, and what others do in between -/

/-- A call of the file, or something that others do with the memory. -/
inductive TmpfsCall
  | read (offset length : U64)
  | write (offset : U64) (data : List (BitVec 8)) (room : ℕ)
  | truncate (size : U64) (room : ℕ)
  | others (machine : Machine)

/-- What a call returns. -/
inductive TmpfsAnswer
  | bytes (bytes : List (BitVec 8))
  | count (count : U64)
  | done
  deriving DecidableEq

/-- Performs a call. -/
def TmpfsCall.perform : TmpfsCall → TmpfsM TmpfsAnswer
  | read offset length => .bytes <$> TmpfsFile.read offset length
  | write offset data room => .count <$> TmpfsFile.write offset data room
  | truncate size room => (fun _ => .done) <$> TmpfsFile.truncate size room
  | others machine => do
    modify fun s => { s with machine := machine }
    return .done

/-- A call as a step; what it returns is observed. -/
def TmpfsFile.step (s : TmpfsFile) (call : TmpfsCall) :
    Option TmpfsFile := (call.perform s).map (·.2)

def TmpfsFile.answer (s : TmpfsFile) (call : TmpfsCall) : List (Except Errno TmpfsAnswer) :=
  ((call.perform s).map (·.1)).toList

end ShitOs
