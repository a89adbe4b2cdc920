import ShitOs.Construction.Memmove

/-!
# `memmove` moves

`memmove_moves`: the destination holds what the source held before the call, and no other byte has
changed, however the two ranges overlap.  What a step of a loop overwrites is not read again: the
loop goes up only when the destination is below the source (`copyBytes_eq`, `memcpy_eq`), and down
otherwise (`copyDown_eq`).
-/

namespace ShitOs
namespace ByteCopy

variable {m : ℕ → BitVec 8} {d s : ℕ}

/-- The memory after `n` bytes have moved from `s` to `d` at once: byte `d + i` is what byte `s + i`
was, and the others are the same. -/
def moved (m : ℕ → BitVec 8) (d s n : ℕ) : ℕ → BitVec 8 := fun a =>
  if d ≤ a ∧ a < d + n then m (s + (a - d)) else m a

/-- The first `k` bytes may move before the others when the move is towards lower addresses. -/
lemma moved_add (h : d < s) (k n : ℕ) :
    moved (moved m d s k) (d + k) (s + k) n = moved m d s (k + n) := by
  funext a
  unfold moved
  grind

/-- The last byte may move before the others when the move is not towards lower addresses. -/
lemma moved_succ (h : s ≤ d) (n : ℕ) :
    moved (Function.update m (d + n) (m (s + n))) d s n = moved m d s (n + 1) := by
  funext a
  unfold moved
  grind [Function.update_apply]

lemma moved_one : Function.update m d (m s) = moved m d s 1 := by
  funext a
  unfold moved
  grind [Function.update_apply]

/-- A word is loaded in full before it is stored: its eight bytes move at once. -/
lemma storeWord_loadWord : storeWord m d (loadWord m s) = moved m d s 8 := by
  funext a
  unfold storeWord moved loadWord
  by_cases h : d ≤ a ∧ a < d + 8
  · rw [if_pos h, if_pos h, Memory.getByte_ofBytes (by omega)]
  · rw [if_neg h, if_neg h]

lemma moved_zero : moved m d s 0 = m := by
  funext a
  exact if_neg (by omega)

lemma copyBytes_eq (h : d < s) (n : ℕ) : copyBytes m d s n = moved m d s n := by
  induction n generalizing m d s with
  | zero => rw [copyBytes, moved_zero]
  | succ n ih => rw [copyBytes, ih (by omega), moved_one, moved_add h, Nat.add_comm]

lemma memcpy_eq (h : d < s) (n : ℕ) : memcpy m d s n = moved m d s n := by
  fun_induction memcpy m d s n with
  | case1 m d s n hn ih => rw [ih (by omega), storeWord_loadWord, moved_add h, Nat.add_sub_of_le hn]
  | case2 m d s n hn => exact copyBytes_eq h n

lemma copyDown_eq (h : s ≤ d) (n : ℕ) : copyDown m d s n = moved m d s n := by
  induction n generalizing m with
  | zero => rw [copyDown, moved_zero]
  | succ n ih => rw [copyDown, ih, moved_succ h]

lemma memmove_eq (n : ℕ) : memmove m d s n = moved m d s n := by
  unfold memmove
  by_cases hsame : d = s ∨ n = 0
  · rw [if_pos hsame]
    funext a
    unfold moved
    grind
  rw [if_neg hsame]
  by_cases hdown : d < s
  · rw [if_pos hdown, memcpy_eq hdown]
  · rw [if_neg hdown, copyDown_eq (by omega)]

/-- After `memmove`, in the kernel and in the C library, the destination holds the bytes the source
held before the call, and every other byte is as it was. -/
theorem memmove_moves (m : ℕ → BitVec 8) (d s n : ℕ) :
    Kernel.memmove m d s n = moved m d s n ∧ Libc.memmove m d s n = moved m d s n :=
  ⟨memmove_eq n, memmove_eq n⟩

end ByteCopy
end ShitOs
