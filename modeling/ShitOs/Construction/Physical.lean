import ShitOs.Construction.Abi
import ShitOs.Framework.Memory

/-!
# The physical page allocator

A model of `kernel/mm/physical.cpp`: one bit per page frame, a count of the frames in use, and the
hint where the last search ended.  Frames are numbers; the source's physical addresses are `4096`
times them. The bitmap is a function from frames to bits, looked at in words of 64 as in the source.

`freeContiguous` panics on a frame that is free already; `none` stands for the panic.
-/

namespace ShitOs

namespace Kstd

/-- `align_down`; the alignment is a power of two. -/
def alignDown (value alignment : U64) : U64 := value &&& ~~~(alignment - 1)

/-- `align_up`, in arithmetic that wraps. -/
def alignUp (value alignment : U64) : U64 := (value + alignment - 1) &&& ~~~(alignment - 1)

end Kstd

def PAGE_SIZE : ℕ := 4096

def BITS_PER_WORD : ℕ := 64

/-- The allocator's variables. -/
structure PageAllocator where
  totalPages : ℕ
  inUse : ℕ → Bool
  usedPages : ℕ
  searchHint : ℕ

namespace PageAllocator

/-- `s_bitmap_words`. -/
def bitmapWords (p : PageAllocator) : ℕ := (p.totalPages + BITS_PER_WORD - 1) / BITS_PER_WORD

/-- `__builtin_ctzll(~s_bitmap[word])`; `none` for a word that is all ones. -/
def firstClear (p : PageAllocator) (word : ℕ) : Option ℕ :=
  (List.range BITS_PER_WORD).find? fun bit => !p.inUse (word * BITS_PER_WORD + bit)

/-- The loop of `allocate_page` over the words of the bitmap, up to the frame `limit`. -/
def searchWords (p : PageAllocator) (limit : ℕ) : List ℕ → Option ℕ
  | [] => none
  | word :: words =>
    match p.firstClear word with
    | none => searchWords p limit words
    | some bit =>
      let index := word * BITS_PER_WORD + bit
      if p.totalPages ≤ index ∨ limit ≤ index then none else some index

/-- Marks a frame that was free as used. -/
def take (p : PageAllocator) (frame : ℕ) : PageAllocator :=
  { p with inUse := Function.update p.inUse frame true, usedPages := p.usedPages + 1 }

/-- The two attempts of `allocate_page`: the first starts at the hint, the second ends there. -/
def search (p : PageAllocator) : Option ℕ :=
  let start := p.searchHint / BITS_PER_WORD
  match p.searchWords p.totalPages (List.range' start (p.bitmapWords - start)) with
  | some index => some index
  | none => p.searchWords p.searchHint (List.range p.bitmapWords)

def allocatePage (p : PageAllocator) : Except Errno (ℕ × PageAllocator) :=
  match p.search with
  | some index => .ok (index, { p.take index with searchHint := index + 1 })
  | none => .error .ENOMEM

def markUsed (p : PageAllocator) (first count : ℕ) : PageAllocator :=
  (List.range' first count).foldl
    (fun p i => if i < p.totalPages ∧ p.inUse i = false then p.take i else p) p

/-- The loop of `allocate_contiguous` from `index` on, with `fuel` frames to go. -/
def findRun (p : PageAllocator) (count : ℕ) : ℕ → ℕ → ℕ → ℕ → Option ℕ
  | 0, _, _, _ => none
  | fuel + 1, index, runStart, runLength =>
    if p.inUse index then findRun p count fuel (index + 1) runStart 0
    else
      let runStart := if runLength = 0 then index else runStart
      if runLength + 1 = count then some runStart
      else findRun p count fuel (index + 1) runStart (runLength + 1)

def allocateContiguous (p : PageAllocator) (count : ℕ) : Except Errno (ℕ × PageAllocator) :=
  if count = 0 then .error .EINVAL
  else if count = 1 then p.allocatePage
  else
    match p.findRun count p.totalPages 0 0 0 with
    | some runStart => .ok (runStart, p.markUsed runStart count)
    | none => .error .ENOMEM

/-- One turn of the loop of `free_contiguous`. -/
def release (p : PageAllocator) (frame : ℕ) : Option PageAllocator :=
  if frame < p.totalPages then
    if p.inUse frame then
      some { p with inUse := Function.update p.inUse frame false, usedPages := p.usedPages - 1 }
    else none
  else some p

def freeContiguous (p : PageAllocator) (first count : ℕ) : Option PageAllocator :=
  if p.totalPages ≤ first then some p
  else
    ((List.range' first count).foldlM release p).map fun p =>
      { p with searchHint := min p.searchHint first }

def freePage (p : PageAllocator) (frame : ℕ) : Option PageAllocator := p.freeContiguous frame 1

end PageAllocator

end ShitOs
