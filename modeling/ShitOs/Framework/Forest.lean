import Mathlib.Logic.Relation
import Mathlib.Order.WellFounded

/-!
# Forests given by parent pointers

A forest on `α` is a function `parent : α → Option α` for which every point is accessible.  Nothing
is above itself (`not_transGen_self`), and hanging a point to a place that is not below it leaves a
forest (`acc_of_moved`).
-/

namespace ShitOs
namespace Forest

variable {α : Type*} {parent parent' : α → Option α} {n : α}

lemma not_transGen_self (hacc : Acc (fun d c => parent c = some d) n) :
    ¬ Relation.TransGen (fun d c => parent c = some d) n n := by
  induction hacc with
  | intro n _ ih =>
    intro hloop
    obtain ⟨d, hpath, hd⟩ := Relation.TransGen.tail'_iff.mp hloop
    exact ih d hd (Relation.TransGen.head' hd hpath)

section Moved

variable [DecidableEq α] {moved gone : Option α} {destination : α}
  (hparent : ∀ n, parent' n = if gone = some n then none
    else if moved = some n then some destination else parent n)
include hparent

lemma eq_some_of_moved {d : α} (hd : parent' n = some d) :
    gone ≠ some n ∧ (moved = some n ∧ d = destination ∨ moved ≠ some n ∧ parent n = some d) := by
  rw [hparent] at hd
  split_ifs at hd with hgone hmoved
  · exact ⟨hgone, .inl ⟨hmoved, by simpa using hd.symm⟩⟩
  · exact ⟨hgone, .inr ⟨hmoved, hd⟩⟩

/-- A point, if there is one, is hung to `destination`, which is not below it; another one, if there
is one, becomes a root. -/
lemma acc_of_moved (hdest : ∀ s, moved = some s → Acc (fun d c => parent c = some d) destination ∧
      ¬ Relation.ReflTransGen (fun c d => parent c = some d) destination s)
    (hacc : Acc (fun d c => parent c = some d) n) : Acc (fun d c => parent' c = some d) n := by
  -- what is not below the moved point has kept everything above it
  have hkeep : ∀ m, Acc (fun d c => parent c = some d) m →
      (∀ s, moved = some s → ¬ Relation.ReflTransGen (fun c d => parent c = some d) m s) →
        Acc (fun d c => parent' c = some d) m := by
    intro m hm
    induction hm with
    | intro m _ ih =>
      intro hout
      refine Acc.intro m fun d hd => ?_
      obtain ⟨-, ⟨hm, -⟩ | ⟨-, hd⟩⟩ := eq_some_of_moved hparent hd
      · exact absurd .refl (hout m hm)
      · exact ih d hd fun s hs hpath => hout s hs (.head hd hpath)
  induction hacc with
  | intro m _ ih =>
    refine Acc.intro m fun d hd => ?_
    obtain ⟨-, ⟨hm, rfl⟩ | ⟨-, hd⟩⟩ := eq_some_of_moved hparent hd
    · exact hkeep d (hdest m hm).1 fun s hs => (hdest s hs).2
    · exact ih d hd

end Moved

end Forest
end ShitOs
