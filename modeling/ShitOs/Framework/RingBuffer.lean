import Mathlib.Tactic.Common
import Mathlib.Data.List.Basic
import Mathlib.Data.Fin.Basic

/-!
# Ring buffers with one slot kept empty

A ring of `N` cells with a write index `head` and a read index `tail`.  The two are equal exactly
when the ring is empty, so a full ring holds `N - 1` elements.

`content` reads the queued elements off the cells in order.  The two lemmas clients need are
`content_push`, which says that a push onto a ring with room appends, and `content_pop`, which says
that a pop from a non-empty ring removes the first element.
-/

namespace ShitOs

/-- A ring of `N` cells.  The indices are `Fin N`, so they cannot leave the buffer. -/
structure Ring (α : Type*) (N : ℕ) where
  buffer : Fin N → α
  head : Fin N
  tail : Fin N

namespace Ring

variable {α : Type*} {N : ℕ} {k : ℕ}

/-- The cell after `i`, wrapping at the end of the buffer. -/
def next (i : Fin N) : Fin N := ⟨(i + 1) % N, Nat.mod_lt _ i.pos⟩

/-- The cell `k` places after `i`. -/
def offset (i : Fin N) (k : ℕ) : Fin N := ⟨(i + k) % N, Nat.mod_lt _ i.pos⟩

/-- How many elements are queued. -/
def used (r : Ring α N) : ℕ := (r.head + N - r.tail) % N

/-- How many more fit. -/
def available (r : Ring α N) : ℕ := N - 1 - r.used

/-- Stores `v` at the head and advances it. -/
def push (r : Ring α N) (v : α) : Ring α N :=
  { r with buffer := Function.update r.buffer r.head v, head := next r.head }

/-- The element a pop would return. -/
def front (r : Ring α N) : α := r.buffer r.tail

/-- Advances the tail past the front element, which stays behind as a stale cell. -/
def pop (r : Ring α N) : Ring α N := { r with tail := next r.tail }

/-- Pops at most `n` elements, as long as there are any. -/
def drain : ℕ → Ring α N → List α × Ring α N
  | 0, r => ([], r)
  | n + 1, r =>
    if 0 < r.used then
      let rest := drain n r.pop
      (r.front :: rest.1, rest.2)
    else ([], r)

/-- The queued elements, oldest first. -/
def content (r : Ring α N) : List α :=
  (List.range r.used).map fun k => r.buffer (offset r.tail k)

/-! ## Index arithmetic -/

section

variable (r : Ring α N)
include r

lemma used_eq :
    r.used = if (r.tail : ℕ) ≤ r.head then (r.head : ℕ) - r.tail else r.head + N - r.tail := by
  have hh := r.head.isLt
  have ht := r.tail.isLt
  unfold used
  split
  · rw [show (r.head : ℕ) + N - r.tail = (r.head - r.tail) + N by omega, Nat.add_mod_right]
    exact Nat.mod_eq_of_lt (by omega)
  · exact Nat.mod_eq_of_lt (by omega)

lemma used_lt : r.used < N := Nat.mod_lt _ r.head.pos

omit r in
lemma val_offset (i : Fin N) (hk : k < N) :
    (offset i k : ℕ) = if (i : ℕ) + k < N then (i : ℕ) + k else i + k - N := by
  have hi := i.isLt
  show ((i : ℕ) + k) % N = _
  split
  · exact Nat.mod_eq_of_lt ‹_›
  · rw [Nat.mod_eq_sub_mod (by omega)]
    exact Nat.mod_eq_of_lt (by omega)

omit r in
lemma val_next (i : Fin N) : (next i : ℕ) = if (i : ℕ) + 1 < N then (i : ℕ) + 1 else 0 := by
  have hi := i.isLt
  show ((i : ℕ) + 1) % N = _
  split
  · exact Nat.mod_eq_of_lt ‹_›
  · rw [show (i : ℕ) + 1 = N by omega, Nat.mod_self]

lemma offset_used : offset r.tail r.used = r.head := by
  have hh := r.head.isLt
  have ht := r.tail.isLt
  apply Fin.ext
  rw [val_offset _ r.used_lt, used_eq]
  split <;> split <;> omega

lemma offset_ne_head (hk : k < r.used) : offset r.tail k ≠ r.head := by
  have hh := r.head.isLt
  have ht := r.tail.isLt
  have hu := r.used_lt
  intro heq
  have hval := congrArg Fin.val heq
  rw [val_offset _ (by omega)] at hval
  rw [used_eq] at hk
  split at hval <;> split at hk <;> omega

omit r in
lemma offset_zero (i : Fin N) : offset i 0 = i := by
  apply Fin.ext
  rw [val_offset _ i.pos]
  simp

omit r in
lemma offset_next (i : Fin N) (hk : k + 1 < N) : offset (next i) k = offset i (k + 1) := by
  have hi := i.isLt
  apply Fin.ext
  rw [val_offset _ (by omega), val_offset _ hk, val_next]
  split <;> split <;> split <;> omega

/-! ## The queue the ring implements -/

@[simp] lemma length_content : r.content.length = r.used := by
  simp [content]

lemma used_push (v : α) (h : 0 < r.available) : (r.push v).used = r.used + 1 := by
  have hh := r.head.isLt
  have ht := r.tail.isLt
  have hroom : r.used + 1 < N := by
    unfold available at h
    omega
  rw [used_eq] at hroom
  rw [used_eq, used_eq]
  simp only [push, val_next]
  split at hroom <;> split <;> split <;> omega

lemma used_pop (h : 0 < r.used) : r.pop.used + 1 = r.used := by
  have hh := r.head.isLt
  have ht := r.tail.isLt
  rw [used_eq] at h
  rw [used_eq, used_eq]
  simp only [pop, val_next]
  split at h <;> split <;> split <;> omega

theorem content_push (v : α) (h : 0 < r.available) : (r.push v).content = r.content ++ [v] := by
  have hlast : (r.push v).buffer (offset (r.push v).tail r.used) = v := by
    simp [push, offset_used r]
  have hinit : ∀ k ∈ List.range r.used,
      (r.push v).buffer (offset (r.push v).tail k) = r.buffer (offset r.tail k) := by
    intro k hk
    simp only [push]
    exact Function.update_of_ne (offset_ne_head r (List.mem_range.mp hk)) _ _
  rw [content, used_push r v h, List.range_succ, List.map_append, List.map_singleton, hlast,
    List.map_congr_left hinit, content]

theorem content_pop (h : 0 < r.used) : r.content = r.front :: r.pop.content := by
  have hu := used_pop r h
  have hN := r.used_lt
  rw [content, ← hu, List.range_succ_eq_map, List.map_cons, List.map_map, offset_zero, content]
  refine congrArg (r.front :: ·) (List.map_congr_left fun k hk => ?_)
  have hk' := List.mem_range.mp hk
  simp only [Function.comp, pop, Nat.succ_eq_add_one]
  rw [offset_next _ (by omega)]

omit r in
/-- What was drained, followed by the rest, is what was there. -/
lemma content_drain (n : ℕ) (r : Ring α N) :
    r.content = (r.drain n).1 ++ (r.drain n).2.content := by
  induction n generalizing r with
  | zero => rfl
  | succ n ih =>
    rw [drain]
    split
    · next hused =>
        rw [content_pop r hused, List.cons_append]
        exact congrArg (r.front :: ·) (ih r.pop)
    · rfl

lemma content_eq_nil_iff : r.content = [] ↔ r.used = 0 := by
  rw [← List.length_eq_zero_iff, length_content]

lemma available_pos_iff : 0 < r.available ↔ r.used + 1 < N := by
  have hu := r.used_lt
  unfold available
  omega

end

end Ring
end ShitOs
