import Mathlib.Algebra.BigOperators.Group.Finset.Piecewise
import Mathlib.Algebra.Order.BigOperators.Group.Finset
import Mathlib.Data.Finset.Card

/-!
# Counting the entries of a table

A table is a function on a finite set of indices, and `count I P f` is the number of indices in `I`
whose entry satisfies `P`.  When one entry is replaced the count changes by what the old and the new
entry contribute (`count_update`).
-/

namespace ShitOs
namespace Counting

variable {ι α : Type*} {I J : Finset ι} {P Q : α → Prop} [DecidablePred P] [DecidablePred Q]
  {f g : ι → α}

/-- The number of indices in `I` whose entry satisfies `P`. -/
def count (I : Finset ι) (P : α → Prop) [DecidablePred P] (f : ι → α) : ℕ :=
  (I.filter fun i => P (f i)).card

lemma count_update [DecidableEq ι] {i : ι} (hi : i ∈ I) (v : α) :
    count I P (Function.update f i v) + (if P (f i) then 1 else 0) =
      count I P f + (if P v then 1 else 0) := by
  have hsplit : ∀ g : ι → α, count I P g =
      (if P (g i) then 1 else 0) + ∑ j ∈ I.erase i, if P (g j) then 1 else 0 := fun g => by
    rw [count, Finset.card_filter, ← Finset.add_sum_erase I _ hi]
  have hrest : (∑ j ∈ I.erase i, if P (Function.update f i v j) then 1 else 0) =
      ∑ j ∈ I.erase i, if P (f j) then 1 else 0 :=
    Finset.sum_congr rfl fun j hj => by rw [Function.update_of_ne (Finset.ne_of_mem_erase hj)]
  rw [hsplit, hsplit f, hrest, Function.update_self]
  omega

lemma count_congr (h : ∀ i ∈ I, (P (f i) ↔ Q (g i))) : count I P f = count I Q g :=
  congrArg Finset.card (Finset.filter_congr h)

lemma count_subset (hsub : I ⊆ J) (h : ∀ i ∈ J, i ∉ I → ¬ P (f i)) : count J P f = count I P f := by
  refine congrArg Finset.card (Finset.ext fun i => ?_)
  simp only [Finset.mem_filter]
  exact ⟨fun ⟨hi, hp⟩ => ⟨by_contra fun hn => h i hi hn hp, hp⟩, fun ⟨hi, hp⟩ => ⟨hsub hi, hp⟩⟩

lemma count_eq_zero_iff : count I P f = 0 ↔ ∀ i ∈ I, ¬ P (f i) := by
  rw [count, Finset.card_eq_zero, Finset.filter_eq_empty_iff]

end Counting
end ShitOs
