import ShitOs.Construction.Qsort
import Mathlib.Logic.Equiv.Basic
import Mathlib.GroupTheory.Perm.Basic

/-!
# The array is sorted

Swapping two elements byte by byte permutes the elements (`element_swapBytes`), so every pass of
`qsort` does.  Sorted is what the last one leaves, where the gap is 1 (`Sorting`).  `bsearch` keeps
every element that compares equal to the key between its two bounds.
-/

namespace ShitOs
namespace Qsort

open Function

variable {cmp : List UInt8 → List UInt8 → ℤ} {size count : ℕ} {array array' : Bytes}

/-! ## Elements change places -/

lemma swapBytes_apply (a b n : ℕ) (array : Bytes) (x : ℕ) (hapart : a + n ≤ b) :
    swapBytes a b n array x = if a ≤ x ∧ x < a + n then array (x - a + b)
      else if b ≤ x ∧ x < b + n then array (x - b + a) else array x := by
  induction n generalizing a b array with
  | zero => rw [swapBytes, if_neg (by omega), if_neg (by omega)]
  | succ n ih =>
    rw [swapBytes, ih _ _ _ (by omega)]
    by_cases ha : x = a
    · subst ha
      rw [if_neg (by omega), if_neg (by omega), if_pos (by omega),
        update_of_ne (by omega), update_self]
      congr 1
      omega
    · by_cases hb : x = b
      · subst hb
        rw [if_neg (by omega), if_neg (by omega), if_neg (by omega), if_pos (by omega), update_self]
        congr 1
        omega
      · rw [update_of_ne hb, update_of_ne ha]
        split_ifs
        all_goals first
          | omega
          | (rw [update_of_ne (by omega), update_of_ne (by omega)]; congr 1; omega)
          | rfl

lemma element_swapBytes {i j : ℕ} (hij : i < j) (k : ℕ) :
    element (swapBytes (i * size) (j * size) size array) size k =
      element array size (Equiv.swap i j k) := by
  have hmul : ∀ {a b : ℕ}, a < b → a * size + size ≤ b * size := fun {a b} h => by
    rw [← Nat.succ_mul]
    exact Nat.mul_le_mul_right size h
  refine List.map_congr_left fun x hx => ?_
  rw [List.mem_range] at hx
  rw [swapBytes_apply _ _ _ _ _ (hmul hij)]
  obtain rfl | hki := eq_or_ne k i
  · rw [Equiv.swap_apply_left, if_pos ⟨by omega, by omega⟩]
    congr 1
    omega
  obtain rfl | hkj := eq_or_ne k j
  · have := hmul hij
    rw [Equiv.swap_apply_right, if_neg (by omega), if_pos ⟨by omega, by omega⟩]
    congr 1
    omega
  rw [Equiv.swap_apply_of_ne_of_ne hki hkj, if_neg, if_neg]
  · obtain h | h := Nat.lt_or_gt_of_ne hkj <;> have := hmul h <;> omega
  · obtain h | h := Nat.lt_or_gt_of_ne hki <;> have := hmul h <;> omega

/-- The elements have changed places, and nothing behind the array has changed. -/
structure Rearranged (size count : ℕ) (array array' : Bytes) : Prop where
  permuted : ∃ σ : Equiv.Perm (Fin count), ∀ k : Fin count, element array' size k =
    element array size (σ k)
  outside : ∀ x, count * size ≤ x → array' x = array x

lemma Rearranged.refl (array : Bytes) : Rearranged size count array array :=
  ⟨⟨1, fun _ => rfl⟩, fun _ _ => rfl⟩

lemma Rearranged.trans {array'' : Bytes} (h : Rearranged size count array array')
    (h' : Rearranged size count array' array'') : Rearranged size count array array'' := by
  obtain ⟨σ, hσ⟩ := h.permuted
  obtain ⟨τ, hτ⟩ := h'.permuted
  exact ⟨⟨σ * τ, fun k => (hτ k).trans (hσ (τ k))⟩, fun x hx =>
    (h'.outside x hx).trans (h.outside x hx)⟩

lemma rearranged_swapBytes {i j : ℕ} (hij : i < j) (hj : j < count) :
    Rearranged size count array (swapBytes (i * size) (j * size) size array) := by
  refine ⟨⟨Equiv.swap ⟨i, hij.trans hj⟩ ⟨j, hj⟩, fun k => ?_⟩, fun x hx => ?_⟩
  · rw [element_swapBytes hij, Equiv.swap_apply_def, Equiv.swap_apply_def]
    simp only [Fin.ext_iff]
    split_ifs <;> rfl
  · have hlow : i * size + size ≤ j * size := by
      rw [← Nat.succ_mul]
      exact Nat.mul_le_mul_right size hij
    have hhigh : j * size + size ≤ count * size := by
      rw [← Nat.succ_mul]
      exact Nat.mul_le_mul_right size hj
    rw [swapBytes_apply _ _ _ _ _ hlow, if_neg (by omega), if_neg (by omega)]

lemma rearranged_siftDown {gap j : ℕ} (hj : j < count) :
    Rearranged size count array (siftDown cmp size gap j array) := by
  fun_induction siftDown cmp size gap j array with
  | case1 => exact .refl _
  | case2 j array hgap hgreater ih =>
    exact (rearranged_swapBytes (by omega) hj).trans (ih (by omega))
  | case3 => exact .refl _

lemma rearranged_foldl {α : Type} {step : Bytes → α → Bytes} {l : List α}
    (h : ∀ a ∈ l, ∀ array, Rearranged size count array (step array a)) (array : Bytes) :
    Rearranged size count array (l.foldl step array) := by
  induction l generalizing array with
  | nil => exact .refl array
  | cons a l ih =>
    exact (h a List.mem_cons_self array).trans (ih (fun b hb => h b (List.mem_cons_of_mem a hb)) _)

lemma rearranged_pass (array : Bytes) (gap : ℕ) :
    Rearranged size count array (pass cmp size count array gap) := by
  unfold pass
  split_ifs
  · exact .refl array
  · refine rearranged_foldl (fun i hi array => rearranged_siftDown ?_) array
    have := List.mem_range'_1.mp hi
    omega

/-! ## The last pass sorts -/

/-- The signs of a comparison that is a total preorder. -/
structure TotalPreorder (compare : List UInt8 → List UInt8 → ℤ) : Prop where
  neg_iff : ∀ a b, compare a b < 0 ↔ 0 < compare b a
  trans : ∀ a b c, compare a b ≤ 0 → compare b c ≤ 0 → compare a c ≤ 0

/-- The first `n` elements are in order. -/
def Sorted (compare : List UInt8 → List UInt8 → ℤ) (size n : ℕ) (array : Bytes) : Prop :=
  ∀ x y, x < y → y < n → compare (element array size x) (element array size y) ≤ 0

/-- The first elements up to `i` are in order, except that element `j` is on its way down. -/
structure Sorting (compare : List UInt8 → List UInt8 → ℤ) (size i j : ℕ) (array : Bytes) :
    Prop where
  others : ∀ x y, x < y → y ≤ i → x ≠ j → y ≠ j →
    compare (element array size x) (element array size y) ≤ 0
  above : ∀ y, j < y → y ≤ i → compare (element array size j) (element array size y) ≤ 0

section

variable (hcompare : TotalPreorder cmp)
include hcompare

lemma Sorting.siftDown {i j : ℕ} (hj : j ≤ i)
    (h : Sorting cmp size i j array) : Sorted cmp size (i + 1) (siftDown cmp size 1 j array) := by
  -- element `j` is at its place if the one below it is not greater
  have hdone : ∀ {j : ℕ} {array : Bytes}, j ≤ i → Sorting cmp size i j array →
      (∀ x, x + 1 = j → cmp (element array size x) (element array size j) ≤ 0) →
      Sorted cmp size (i + 1) array := by
    intro j array hj h hbelow x y hxy hy
    obtain rfl | hxj := eq_or_ne x j
    · exact h.above y hxy (by omega)
    obtain rfl | hyj := eq_or_ne y j
    · obtain hlast | hlast := eq_or_ne (x + 1) y
      · exact hbelow x hlast
      · exact hcompare.trans _ (element array size (y - 1)) _
          (h.others x (y - 1) (by omega) (by omega) hxj (by omega)) (hbelow (y - 1) (by omega))
    · exact h.others x y hxy (by omega) hxj hyj
  fun_induction Qsort.siftDown cmp size 1 j array with
  | case1 j array hgap hle =>
    refine hdone hj h fun x hx => ?_
    obtain rfl : x = j - 1 := by omega
    exact hle
  | case2 j array hgap hgreater ih =>
    have hswap := @element_swapBytes size array (j - 1) j (by omega)
    have hkeep : ∀ x, x ≠ j - 1 → x ≠ j →
        element (swapBytes ((j - 1) * size) (j * size) size array) size x =
        element array size x := by
      intro x hx hxj
      rw [hswap, Equiv.swap_apply_of_ne_of_ne hx hxj]
    have hat : element (swapBytes ((j - 1) * size) (j * size) size array) size j =
        element array size (j - 1) := by rw [hswap, Equiv.swap_apply_right]
    have hbelow : element (swapBytes ((j - 1) * size) (j * size) size array) size (j - 1) =
        element array size j := by rw [hswap, Equiv.swap_apply_left]
    refine ih (by omega) ⟨fun x y hxy hy hx hy' => ?_, fun y hjy hy => ?_⟩
    · obtain rfl | hxj := eq_or_ne x j
      · rw [hat, hkeep y hy' (by omega)]
        exact h.others _ y (by omega) hy (by omega) (by omega)
      obtain rfl | hyj := eq_or_ne y j
      · rw [hat, hkeep x hx hxj]
        exact h.others x _ (by omega) (by omega) hxj (by omega)
      · rw [hkeep x hx hxj, hkeep y hy' hyj]
        exact h.others x y hxy hy hxj hyj
    · rw [hbelow]
      obtain rfl | hyj := eq_or_ne y j
      · rw [hat]
        exact ((hcompare.neg_iff _ _).mpr (not_le.mp hgreater)).le
      · rw [hkeep y (by omega) hyj]
        exact h.above y (by omega) hy
  | case3 j array hgap => exact hdone hj h fun x hx => by omega

/-- The insertions of the last pass, from element `first` on. -/
lemma sorted_foldl (first n : ℕ) (h : Sorted cmp size first array) : Sorted cmp size (first + n)
      ((List.range' first n).foldl (fun array i => siftDown cmp size 1 i array) array) := by
  induction n generalizing first array with
  | zero => exact h
  | succ n ih =>
    have hnext : Sorted cmp size (first + 1) (siftDown cmp size 1 first array) := by
      refine Sorting.siftDown hcompare le_rfl ⟨fun x y hxy hy _ hy' => ?_, fun y hy hy' => ?_⟩
      · exact h x y hxy (by omega)
      · omega
    rw [List.range'_succ, List.foldl_cons, ← Nat.add_assoc, Nat.add_right_comm]
    exact ih (first + 1) hnext

lemma sorted_qsort (hsize : size ≠ 0) : Sorted cmp size count (qsort cmp size array count) := by
  unfold qsort
  split_ifs with hsmall
  · intro x y hxy hy
    omega
  · -- the last gap is 1
    rw [show GAPS = [701, 301, 132, 57, 23, 10, 4] ++ [1] from rfl, List.foldl_append]
    simp only [List.foldl_cons, List.foldl_nil, pass.eq_1 _ _ _ _ 1,
      if_neg (show ¬ count ≤ 1 by omega)]
    have h := @sorted_foldl cmp size
      ([701, 301, 132, 57, 23, 10, 4].foldl (pass cmp size count) array)
      hcompare 1 (count - 1) fun x y hxy hy => by omega
    rwa [Nat.add_sub_cancel' (by omega)] at h

/-! ## Searching -/

lemma bsearchLoop_spec (hsorted : Sorted cmp size count array)
    (key : List UInt8) (low high : ℕ) (hhigh : high ≤ count)
    (hin : ∀ k < count, cmp key (element array size k) = 0 → low ≤ k ∧ k < high) :
    match bsearchLoop cmp size key array low high with
    | some k => k < count ∧ cmp key (element array size k) = 0
    | none => ∀ k < count, cmp key (element array size k) ≠ 0 := by
  have hle : ∀ x y, x ≤ y → y < count → x ≠ y → cmp (element array size x) (element array size y) ≤
    0 :=
    fun x y hxy hy hne => hsorted x y (by omega) hy
  fun_induction bsearchLoop cmp size key array low high with
  | case1 low high hlt middle order hfound => exact ⟨by omega, hfound⟩
  | case2 low high hlt middle order hne hless ih =>
    refine ih (by omega) fun k hk heq => ⟨(hin k hk heq).1, ?_⟩
    by_contra hge
    obtain rfl | hmid := eq_or_ne middle k
    · exact hne heq
    · have hback : cmp (element array size k) key ≤ 0 := by
        by_contra hpos
        have := (hcompare.neg_iff _ _).mpr (not_le.mp hpos)
        omega
      have := hcompare.trans _ _ _ (hle middle k (by omega) hk hmid) hback
      have := (hcompare.neg_iff _ _).mp hless
      omega
  | case3 low high hlt middle order hne hless ih =>
    refine ih hhigh fun k hk heq => ⟨?_, (hin k hk heq).2⟩
    by_contra hge
    obtain rfl | hmid := eq_or_ne middle k
    · exact hne heq
    · have := hcompare.trans _ _ _ heq.le (hle k middle (by omega) (by omega) (Ne.symm hmid))
      omega
  | case4 low high hlt => exact fun k hk heq => hlt (by have := hin k hk heq; omega)

end

/-- **Sorting and searching.**  `qsort` leaves a permutation of the elements in order and nothing
else changed, and `bsearch` finds an element equal to the key there if and only if there is one. -/
theorem qsort_bsearch_spec (compare : List UInt8 → List UInt8 → ℤ)
    (hcompare : TotalPreorder compare) (array : Bytes) (count size : ℕ) (hsize : 1 ≤ size) :
    Rearranged size count array (qsort compare size array count) ∧
      Sorted compare size count (qsort compare size array count) ∧
      ∀ key, match bsearch compare size key (qsort compare size array count) count with
        | some k => k < count ∧ compare key (element (qsort compare size array count) size k) = 0
        | none => ∀ k < count, compare key (element (qsort compare size array count) size k) ≠
            0 := by
  have hsorted := @sorted_qsort compare size count array hcompare (by omega)
  refine ⟨?_, hsorted, fun key => ?_⟩
  · unfold qsort
    split_ifs
    · exact .refl array
    · exact rearranged_foldl (fun gap _ array => rearranged_pass array gap) array
  · exact bsearchLoop_spec hcompare hsorted key 0 count le_rfl fun k hk _ => ⟨Nat.zero_le k, hk⟩

/-- Bytes that are compared as numbers: 3, 1, 2. -/
theorem qsort_bsearch_spec_bytes :
    Sorted (fun a b => (a.headD 0).toNat - (b.headD 0).toNat) 1 3
      (qsort (fun a b => (a.headD 0).toNat - (b.headD 0).toNat)
        1 (fun i => [3, 1, 2].getD i 0) 3) := by
  refine (qsort_bsearch_spec _ ⟨?_, ?_⟩ (fun i => [3, 1, 2].getD i 0) 3 1 le_rfl).2.1
  · intro a b
    omega
  · intro a b c
    omega

end Qsort
end ShitOs
