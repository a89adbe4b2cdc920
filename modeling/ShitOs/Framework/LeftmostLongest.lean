import Mathlib.Data.Nat.Find

/-!
# The leftmost-longest pair of a relation

A relation between a beginning and an end has at most one pair that begins first and, of those that
begin there, ends last.  It has one as soon as it has any, if no end is above some bound.
-/

namespace ShitOs

/-- The pair begins no later than any other, and ends no earlier than any that begins with it. -/
structure LeftmostLongest (M : ℕ → ℕ → Prop) (i j : ℕ) : Prop where
  holds : M i j
  leftmost : ∀ i' j', M i' j' → i ≤ i'
  longest : ∀ j', M i j' → j' ≤ j

namespace LeftmostLongest

variable {M S : ℕ → ℕ → Prop} {i j i' j' : ℕ}

lemma unique (h : LeftmostLongest M i j) (h' : LeftmostLongest M i' j') : i = i' ∧ j = j' := by
  obtain rfl : i = i' := Nat.le_antisymm (h.leftmost _ _ h'.holds) (h'.leftmost _ _ h.holds)
  exact ⟨rfl, Nat.le_antisymm (h'.longest _ h.holds) (h.longest _ h'.holds)⟩

lemma exists_of_bounded {bound : ℕ} (hbound : ∀ i j, M i j → j ≤ bound) (h : M i j) :
    ∃ i j, LeftmostLongest M i j := by
  classical
  have hbegin : ∃ i, ∃ j, M i j := ⟨i, j, h⟩
  obtain ⟨j₀, hj₀⟩ := Nat.find_spec hbegin
  refine ⟨Nat.find hbegin, Nat.findGreatest (M (Nat.find hbegin)) bound, ?_, fun i' j' h' => ?_,
    fun j' h' => ?_⟩
  · exact Nat.findGreatest_spec (hbound _ _ hj₀) hj₀
  · exact Nat.find_min' hbegin ⟨j', h'⟩
  · exact Nat.le_findGreatest (hbound _ _ h') h'

/-- If one relation implies another that has the pair, they have it both or neither. -/
lemma eq_of_imp (hS : ∀ i j, S i j → M i j) (h : LeftmostLongest S i j)
    (h' : LeftmostLongest M i' j') (hstrict : S i' j') : i = i' ∧ j = j' := by
  obtain rfl : i = i' :=
    Nat.le_antisymm (h.leftmost _ _ hstrict) (h'.leftmost _ _ (hS _ _ h.holds))
  exact ⟨rfl, Nat.le_antisymm (h'.longest _ (hS _ _ h.holds)) (h.longest _ hstrict)⟩

end LeftmostLongest

end ShitOs
