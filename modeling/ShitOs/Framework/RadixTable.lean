import Mathlib.Data.List.Induction
import Mathlib.Tactic.Common

/-!
# Tables in memory that link to tables

Tables of `fanout` entries lie one after the other in a memory; entry `i` of table `t` is at
`slot t i`. An entry may link to another table (`next`), and `walk` follows a path of indices from
table to table.

To reason about writes into such a memory, every table is given the place it has:
`own t = some (k, p)` if it is the table of tree `k` at the end of the path `p`.  In a memory that
respects the places (`Placed`), a walk ends where the place says (`Placed.own_walk`), so that two
paths never lead to the same table.  A write is then seen by those walks only that pass the slot
written (`Placed.walk_eq`), and attaching a new empty table adds the one walk that ends there
(`Attaches.walk`).
-/

namespace ShitOs
namespace RadixTable

variable {t : ℕ} {p q : List ℕ}

/-- Where entry `i` of table `t` is. -/
def slot (fanout t i : ℕ) : ℕ := t * fanout + i

section Slot

variable {fanout t i : ℕ}

@[simp] lemma slot_div (hi : i < fanout) : slot fanout t i / fanout = t := by
  rw [slot, Nat.mul_comm, Nat.mul_add_div (by omega), Nat.div_eq_of_lt hi, Nat.add_zero]

@[simp] lemma slot_mod (hi : i < fanout) : slot fanout t i % fanout = i := by
  rw [slot, Nat.mul_comm, Nat.mul_add_mod, Nat.mod_eq_of_lt hi]

lemma slot_inj {t' i' : ℕ} (hi : i < fanout) (hi' : i' < fanout)
    (h : slot fanout t i = slot fanout t' i') : t = t' ∧ i = i' := by
  have hdiv := congrArg (· / fanout) h
  have hmod := congrArg (· % fanout) h
  simp only [slot_div hi, slot_div hi', slot_mod hi, slot_mod hi'] at hdiv hmod
  exact ⟨hdiv, hmod⟩

end Slot

variable {V : Type} {fanout : ℕ} {next : V → Option ℕ} {m m' : ℕ → V}

/-- The table at the end of a path. -/
def walk (fanout : ℕ) (next : V → Option ℕ) (m : ℕ → V) : ℕ → List ℕ → Option ℕ
  | t, [] => some t
  | t, i :: path => (next (m (slot fanout t i))).bind fun t' => walk fanout next m t' path

@[simp] lemma walk_nil : walk fanout next m t [] = some t := rfl

lemma walk_append : walk fanout next m t (p ++ q) =
      (walk fanout next m t p).bind fun u => walk fanout next m u q := by
  induction p generalizing t with
  | nil => rfl
  | cons i p ih =>
    simp only [List.cons_append, walk, Option.bind_assoc]
    exact congrArg _ (funext fun _ => ih)

lemma walk_concat {u i : ℕ} : walk fanout next m t (p ++ [i]) = some u ↔
      ∃ v, walk fanout next m t p = some v ∧ next (m (slot fanout v i)) = some u := by
  rw [walk_append, Option.bind_eq_some_iff]
  simp [walk]

theorem walk_congr {path : List ℕ}
    (h : ∀ p i q u, path = p ++ i :: q → walk fanout next m t p = some u →
      next (m' (slot fanout u i)) = next (m (slot fanout u i))) :
    walk fanout next m' t path = walk fanout next m t path := by
  induction path generalizing t with
  | nil => rfl
  | cons i path ih =>
    rw [walk, walk, h [] i path t rfl rfl]
    cases hnext : next (m (slot fanout t i)) with
    | none => rfl
    | some t' =>
      refine ih fun p j q u hpath hwalk => h (i :: p) j q u (by rw [hpath]; rfl) ?_
      rw [walk, hnext]
      exact hwalk

/-! ## Places -/

/-- Which paths there are: all beginnings of one are, and indices are below the fanout. -/
structure Paths (fanout : ℕ) where
  valid : List ℕ → Prop
  init : ∀ {p i}, valid (p ++ [i]) → valid p
  index : ∀ {p i}, valid (p ++ [i]) → i < fanout

lemma Paths.of_append (paths : Paths fanout) (h : paths.valid (p ++ q)) : paths.valid p := by
  induction q using List.reverseRecOn with
  | nil => rwa [List.append_nil] at h
  | append_singleton q i ih =>
    rw [← List.append_assoc] at h
    exact ih (paths.init h)

/-- The memory respects the places. -/
def Placed {K : Type} (paths : Paths fanout) (next : V → Option ℕ) (m : ℕ → V)
    (own : ℕ → Option (K × List ℕ)) : Prop :=
  ∀ t k p i t', own t = some (k, p) → paths.valid (p ++ [i]) →
    next (m (slot fanout t i)) = some t' → own t' = some (k, p ++ [i])

section Placed

variable {K : Type} {paths : Paths fanout} {own : ℕ → Option (K × List ℕ)} {k : K} {t u : ℕ}
  {p q : List ℕ}

lemma Placed.own_walk (h : Placed paths next m own) (ht : own t = some (k, p))
    (hval : paths.valid (p ++ q)) (hwalk : walk fanout next m t q = some u) :
    own u = some (k, p ++ q) := by
  induction q generalizing t p with
  | nil =>
    obtain rfl : t = u := by simpa using hwalk
    rwa [List.append_nil]
  | cons i q ih =>
    rw [walk, Option.bind_eq_some_iff] at hwalk
    obtain ⟨t', hnext, hwalk⟩ := hwalk
    rw [List.append_cons] at hval ⊢
    exact ih (h _ _ _ _ _ ht (paths.of_append hval) hnext) hval hwalk

/-- A write that no table's own slots see changes no walk. -/
lemma Placed.walk_eq (h : Placed paths next m own) (ht : own t = some (k, []))
    (hsame : ∀ u p i, own u = some (k, p) → paths.valid (p ++ [i]) →
      next (m' (slot fanout u i)) = next (m (slot fanout u i))) (hval : paths.valid q) :
    walk fanout next m' t q = walk fanout next m t q := by
  refine walk_congr fun p i rest u hq hwalk => ?_
  rw [hq, List.append_cons] at hval
  exact hsame u p i (h.own_walk ht (paths.of_append (paths.of_append hval)) hwalk)
    (paths.of_append hval)

/-- A table that is linked to a slot which linked to nothing. -/
structure Attaches (paths : Paths fanout) (next : V → Option ℕ) (own : ℕ → Option (K × List ℕ))
    (m m' : ℕ → V) (k : K) (p : List ℕ) (t i f : ℕ) : Prop where
  place : own t = some (k, p)
  valid : paths.valid (p ++ [i])
  fresh : own f = none
  before : next (m (slot fanout t i)) = none
  after : next (m' (slot fanout t i)) = some f
  empty : ∀ j < fanout, next (m' (slot fanout f j)) = none
  others : ∀ u j, u ≠ f → j < fanout → (u, j) ≠ (t, i) →
    next (m' (slot fanout u j)) = next (m (slot fanout u j))

lemma Attaches.placed {i f : ℕ} (h : Attaches paths next own m m' k p t i f)
    (hplaced : Placed paths next m own) :
    Placed paths next m' (Function.update own f (some (k, p ++ [i]))) := by
  intro u k' q j u' hu hval hnext
  have hj := paths.index hval
  by_cases huf : u = f
  · rw [huf, h.empty j hj] at hnext
    cases hnext
  rw [Function.update_of_ne huf] at hu
  by_cases heq : (u, j) = (t, i)
  · cases heq
    rw [h.after] at hnext
    cases hnext
    cases h.place.symm.trans hu
    exact Function.update_self ..
  · rw [h.others u j huf hj heq] at hnext
    have hu' := hplaced _ _ _ _ _ hu hval hnext
    have hne : u' ≠ f := fun heq => by simp [heq, h.fresh] at hu'
    rwa [Function.update_of_ne hne]

/-- The walks of the tree there were are still there, and one is new. -/
lemma Attaches.walk {i f r : ℕ} (h : Attaches paths next own m m' k p t i f)
    (hplaced : Placed paths next m own) (hr : own r = some (k, []))
    (hwalk : walk fanout next m r p = some t) (hval : paths.valid q) :
    walk fanout next m' r q = if q = p ++ [i] then some f else walk fanout next m r q := by
  -- From the end of the path, which is where the new table is.
  induction q using List.reverseRecOn with
  | nil => simp
  | append_singleton q j ih =>
    have hq := ih (paths.init hval)
    have hj := paths.index hval
    rw [walk_append, walk_append, hq]
    by_cases hnew : q = p ++ [i]
    · have hnone : RadixTable.walk fanout next m r q = none := by
        rw [hnew, walk_append, hwalk, Option.bind_some]
        simp [RadixTable.walk, h.before]
      have hlonger : q ++ [j] ≠ p ++ [i] := fun heq => by
        have := congrArg List.length (hnew ▸ heq)
        simp at this
      rw [if_pos hnew, if_neg hlonger, hnone, Option.bind_some, Option.bind_none]
      simp [RadixTable.walk, h.empty j hj]
    · rw [if_neg hnew]
      cases hu : RadixTable.walk fanout next m r q with
      | none =>
        have hother : q ++ [j] ≠ p ++ [i] := fun heq => by
          rw [(List.append_inj_left' heq rfl), hwalk] at hu
          cases hu
        rw [if_neg hother]
        rfl
      | some u =>
        have hown := hplaced.own_walk hr (paths.init hval) hu
        rw [List.nil_append] at hown
        by_cases hslot : q ++ [j] = p ++ [i]
        · obtain ⟨rfl, hji⟩ := List.append_inj' hslot rfl
          obtain rfl : j = i := by simpa using hji
          rw [hwalk] at hu
          cases hu
          rw [if_pos rfl, Option.bind_some]
          simp [RadixTable.walk, h.after]
        · rw [if_neg hslot, Option.bind_some, Option.bind_some]
          have huf : u ≠ f := fun heq => by simp [heq, h.fresh] at hown
          have hne : (u, j) ≠ (t, i) := fun heq => by
            cases heq
            cases hown.symm.trans h.place
            exact hslot rfl
          rw [RadixTable.walk, RadixTable.walk, h.others u j huf hj hne]
          rfl

end Placed

end RadixTable
end ShitOs
