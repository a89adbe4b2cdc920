import Mathlib.Data.UInt
import Mathlib.Logic.Function.Basic

/-!
# Sorting and searching

A model of `swap_bytes`, `qsort` and `bsearch` in `user/libc/src/stdlib.c`.  The array is memory
from `base` on; `compare` is given the bytes of two elements.
-/

namespace ShitOs
namespace Qsort

open Function

abbrev Bytes := ℕ → UInt8

def swapBytes : ℕ → ℕ → ℕ → Bytes → Bytes
  | _, _, 0, array => array
  | a, b, size + 1, array =>
    swapBytes (a + 1) (b + 1) size (update (update array a (array b)) b (array a))

/-- The bytes of element `k`. -/
def element (array : Bytes) (size k : ℕ) : List UInt8 :=
  (List.range size).map fun i => array (k * size + i)

variable (compare : List UInt8 → List UInt8 → ℤ) (size : ℕ)

/-- The inner loop: element `j` goes down in steps of `gap`. -/
def siftDown (gap j : ℕ) (array : Bytes) : Bytes :=
  if 0 < gap ∧ gap ≤ j then
    if compare (element array size (j - gap)) (element array size j) ≤ 0 then array
    else siftDown gap (j - gap) (swapBytes ((j - gap) * size) (j * size) size array)
  else array
termination_by j

def GAPS : List ℕ := [701, 301, 132, 57, 23, 10, 4, 1]

/-- The pass for one gap. -/
def pass (count : ℕ) (array : Bytes) (gap : ℕ) : Bytes :=
  if count ≤ gap then array
  else (List.range' gap (count - gap)).foldl (fun array i => siftDown compare size gap i array)
    array

def qsort (array : Bytes) (count : ℕ) : Bytes :=
  if count < 2 ∨ size = 0 then array else GAPS.foldl (pass compare size count) array

/-- The loop of `bsearch`: the index of the element that is found. -/
def bsearchLoop (key : List UInt8) (array : Bytes) (low high : ℕ) : Option ℕ :=
  if low < high then
    let middle := low + (high - low) / 2
    let order := compare key (element array size middle)
    if order = 0 then some middle
    else if order < 0 then bsearchLoop key array low middle
    else bsearchLoop key array (middle + 1) high
  else none
termination_by high - low

def bsearch (key : List UInt8) (array : Bytes) (count : ℕ) : Option ℕ :=
  bsearchLoop compare size key array 0 count

end Qsort
end ShitOs
