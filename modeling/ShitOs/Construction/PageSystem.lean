import ShitOs.Construction.BootMemory
import ShitOs.Framework.Transition

/-!
# The page allocator and who uses it

The five calls of `kernel/mm/physical.cpp` that change the bitmap, in any order, from the state that
`physical_initialize` leaves.  The state also has which frames are handed out: callers only give
back what they have.
-/

namespace ShitOs

def PageAllocator.reserveRange (p : PageAllocator) (base length : U64) : PageAllocator :=
  p.applyToRange base length .markUsed

/-- A call. -/
inductive PageCall
  | allocatePage
  | allocateContiguous (count : ℕ)
  | freePage (frame : ℕ)
  | freeContiguous (first count : ℕ)
  | reserveRange (base length : U64)
  deriving DecidableEq

/-- The allocator, and the frames that are with somebody. -/
structure PageSystem where
  pages : PageAllocator
  handedOut : ℕ → Bool

namespace PageSystem

variable (s : PageSystem)

/-- A run of frames is handed out. -/
def hand (first count : ℕ) (pages : PageAllocator) : PageSystem where
  pages := pages
  handedOut f := (first ≤ f && f < first + count) || s.handedOut f

/-- The caller has all frames of the run. -/
def has (first count : ℕ) : Bool := (List.range' first count).all s.handedOut

/-- A run of frames is given back; `none` if the caller does not have it, or the allocator panics.
-/
def giveBack (first count : ℕ) : Option PageSystem :=
  if s.has first count then
    (s.pages.freeContiguous first count).map fun pages =>
      { pages := pages
        handedOut := fun f => !(first ≤ f && f < first + count) && s.handedOut f }
  else none

/-- What a call does. -/
def step (s : PageSystem) : PageCall → Option PageSystem
  | .allocatePage =>
    match s.pages.allocatePage with
    | .ok (frame, pages) => some (s.hand frame 1 pages)
    | .error _ => some s
  | .allocateContiguous count =>
    match s.pages.allocateContiguous count with
    | .ok (first, pages) => some (s.hand first count pages)
    | .error _ => some s
  | .freePage frame => s.giveBack frame 1
  | .freeContiguous first count => s.giveBack first count
  | .reserveRange base length => some { s with pages := s.pages.reserveRange base length }

end PageSystem

end ShitOs
