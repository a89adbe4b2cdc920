import Mathlib.Tactic.Common
import Mathlib.Data.List.Basic

/-!
# Runs of a labelled step function

A component is a *partial step function* `step : σ → α → Option σ`: the label says who moves and how
the nondeterminism is resolved, and `none` that the label is not enabled.  A run is a list of
labels.

`run step s as` is the state after performing `as` from `s`.  `Along step C s as` says that each
label of the run satisfies the side condition `C` *in the state it is performed from*.

`run_invariant` packages the induction, and `run_observes` is the same rule for a predicate of the
state and of what has been observed so far.
-/

namespace ShitOs
namespace Transition

variable {σ α : Type*} {step : σ → α → Option σ} {C : σ → α → Prop}

/-- The state after performing the labels in order; `none` once a label is not enabled. -/
def run (step : σ → α → Option σ) : σ → List α → Option σ
  | s, [] => some s
  | s, a :: as => (step s a).bind fun s' => run step s' as

/-- Every label of the run meets `C` in the state it is performed from. -/
def Along (step : σ → α → Option σ) (C : σ → α → Prop) : σ → List α → Prop
  | _, [] => True
  | s, a :: as => C s a ∧ ∀ s' ∈ step s a, Along step C s' as

/-- Along a given run, a decidable condition can be checked. -/
instance decidableAlong [∀ s a, Decidable (C s a)] :
    ∀ (as : List α) (s : σ), Decidable (Along step C s as)
  | [], _ => inferInstanceAs (Decidable True)
  | a :: as, s =>
    haveI : ∀ s', Decidable (Along step C s' as) := decidableAlong as
    inferInstanceAs (Decidable (C s a ∧ ∀ s' ∈ step s a, Along step C s' as))

lemma along_of_forall (hC : ∀ s a, C s a) : ∀ (as : List α) (s : σ), Along step C s as
  | [], _ => trivial
  | a :: as, s => ⟨hC s a, fun s' _ => along_of_forall hC as s'⟩

lemma Along.and {D : σ → α → Prop} :
    ∀ {as : List α} {s : σ}, Along step C s as → Along step D s as →
    Along step (fun s a => C s a ∧ D s a) s as
  | [], _, _, _ => trivial
  | _ :: _, _, h, h' => ⟨⟨h.1, h'.1⟩, fun t ht => (h.2 t ht).and (h'.2 t ht)⟩

@[simp] lemma run_nil (s : σ) : run step s [] = some s := rfl

lemma run_cons {s s' : σ} {a : α} {as : List α} :
    run step s (a :: as) = some s' ↔ ∃ t, step s a = some t ∧ run step t as = some s' := by
  simp [run, Option.bind_eq_some_iff]

lemma run_append {s s' : σ} {as bs : List α} : run step s (as ++ bs) = some s' ↔
      ∃ t, run step s as = some t ∧ run step t bs = some s' := by
  induction as generalizing s with
  | nil => simp
  | cons a as ih =>
    simp only [List.cons_append, run_cons, ih]
    constructor
    · rintro ⟨t, ht, u, hu, hs⟩
      exact ⟨u, ⟨t, ht, hu⟩, hs⟩
    · rintro ⟨u, ⟨t, ht, hu⟩, hs⟩
      exact ⟨t, ht, u, hu, hs⟩

section Given

variable {s : σ} {as : List α} {P : σ → Prop}

/-- A run of given labels: a part of what holds after it is computed, and the rest follows from
that. -/
lemma exists_run_mono (Q : σ → Prop) (hrun : ∃ s', run step s as = some s' ∧ Q s')
    (h : ∀ s', run step s as = some s' → Q s' → P s') : ∃ s', run step s as = some s' ∧ P s' := by
  obtain ⟨s', hs', hQ⟩ := hrun
  exact ⟨s', hs', h s' hs' hQ⟩

lemma exists_run_of_map {β : Type*} (f : σ → β) (b : β) (hrun : (run step s as).map f = some b)
    (h : ∀ s', run step s as = some s' → f s' = b → P s') : ∃ s', run step s as = some s' ∧ P s' :=
  exists_run_mono (f · = b) (Option.map_eq_some_iff.mp hrun) h

end Given

/-- **The invariant rule.**  What every step meeting `C` keeps, every run meeting `C` keeps. -/
theorem run_invariant {I : σ → Prop} (hstep : ∀ s a s', I s → C s a → step s a = some s' → I s') :
    ∀ (as : List α) (s s' : σ), I s → Along step C s as → run step s as = some s' → I s'
  | [], s, s', hI, _, hrun => by
    obtain rfl : s = s' := by simpa using hrun
    exact hI
  | a :: as, s, s', hI, hC, hrun => by
    obtain ⟨t, ht, hrest⟩ := run_cons.mp hrun
    exact run_invariant hstep as t s' (hstep s a t hI hC.1 ht) (hC.2 t ht) hrest

/-- What is observed along a run, when `see` says what each step lets be seen. -/
def observed {ε : Type*} (step : σ → α → Option σ) (see : σ → α → List ε) : σ → List α → List ε
  | _, [] => []
  | s, a :: as => see s a ++ ((step s a).map fun s' => observed step see s' as).getD []

/-- **The rule for observations.**  What every step meeting `C` keeps, with what it lets be seen
added at the end, every run meeting `C` keeps. -/
theorem run_observes {ε : Type*} {see : σ → α → List ε} {I : σ → List ε → Prop}
    (hstep : ∀ s a s' l, I s l → C s a → step s a = some s' → I s' (l ++ see s a)) :
    ∀ (as : List α) (s s' : σ) (l : List ε), I s l → Along step C s as → run step s as = some s' →
      I s' (l ++ observed step see s as)
  | [], s, s', l, hI, _, hrun => by
    obtain rfl : s = s' := by simpa using hrun
    rwa [observed, List.append_nil]
  | a :: as, s, s', l, hI, hC, hrun => by
    obtain ⟨t, ht, hrest⟩ := run_cons.mp hrun
    have := run_observes hstep as t s' _ (hstep s a t l hI hC.1 ht) (hC.2 t ht) hrest
    rwa [List.append_assoc, show see s a ++ observed step see t as =
      observed step see s (a :: as) by
      rw [observed, ht, Option.map_some, Option.getD_some]] at this

end Transition
end ShitOs
