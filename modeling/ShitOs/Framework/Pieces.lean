import ShitOs.Framework.Program
import Mathlib.Data.List.Range

/-!
# Going through a range block by block

Code that copies a range of bytes of memory that is contiguous only within a block goes in pieces,
each to the end of its block or of the range.  `pieces size start length` is the list of these
pieces, as pairs of a position and a number of bytes.

`ensures_pieces` is the rule for a loop over them: what holds of a position before a piece and of
the position behind it after the piece, holds of the end of the range after the loop.
-/

namespace ShitOs

/-- The loop, with `left` bytes to go from `position` on. -/
def piecesFrom (size : ℕ) : ℕ → ℕ → ℕ → List (ℕ × ℕ)
  | 0, _, _ => []
  | fuel + 1, position, left =>
    if left = 0 then []
    else
      let run := min left (size - position % size)
      (position, run) :: piecesFrom size fuel (position + run) (left - run)

/-- The pieces of a range; each of them has a byte at least. -/
def pieces (size start length : ℕ) : List (ℕ × ℕ) := piecesFrom size length start length

section Pieces

variable {size start length : ℕ}

/-- More turns than there are bytes make no difference. -/
lemma piecesFrom_eq (hsize : 0 < size) :
    ∀ {fuel fuel' position left : ℕ}, left ≤ fuel → left ≤ fuel' →
    piecesFrom size fuel position left = piecesFrom size fuel' position left
  | 0, 0, _, _, _, _ => rfl
  | 0, fuel' + 1, _, left, h, _ => by
    obtain rfl : left = 0 := by omega
    rfl
  | fuel + 1, 0, _, left, _, h => by
    obtain rfl : left = 0 := by omega
    rfl
  | fuel + 1, fuel' + 1, position, left, h, h' => by
    rw [piecesFrom, piecesFrom]
    split_ifs with hleft
    · rfl
    · have hmod := Nat.mod_lt position hsize
      exact congrArg _ (piecesFrom_eq hsize (by omega) (by omega))

@[simp] lemma pieces_zero : pieces size start 0 = [] := rfl

lemma pieces_eq_cons (hsize : 0 < size) (start : ℕ) (hlen : 0 < length) : pieces size start length =
    (start, min length (size - start % size)) ::
      pieces size (start + min length (size - start % size))
        (length - min length (size - start % size)) := by
  obtain ⟨fuel, rfl⟩ : ∃ fuel, length = fuel + 1 := ⟨length - 1, by omega⟩
  have hmod := Nat.mod_lt start hsize
  rw [pieces, piecesFrom, if_neg (by omega)]
  dsimp only
  rw [pieces, piecesFrom_eq hsize (by omega) (Nat.le_refl _)]

/-- What holds of no bytes, and of a range when it holds of what follows its first piece, holds of
every range. -/
theorem pieces_induction (hsize : 0 < size) {P : ℕ → ℕ → Prop} (hzero : ∀ start, P start 0)
    (hpiece : ∀ start run rest, 0 < run → start % size + run ≤ size →
      pieces size start (run + rest) = (start, run) :: pieces size (start + run) rest →
      P (start + run) rest → P start (run + rest)) (start length : ℕ) : P start length := by
  induction length using Nat.strong_induction_on generalizing start with
  | _ length ih =>
    rcases Nat.eq_zero_or_pos length with rfl | hpos
    · exact hzero start
    · have hmod := Nat.mod_lt start hsize
      have hcons := pieces_eq_cons hsize start hpos
      generalize hrun : min length (size - start % size) = run at hcons
      obtain ⟨rest, rfl⟩ : ∃ rest, length = run + rest := ⟨length - run, by omega⟩
      rw [Nat.add_sub_cancel_left] at hcons
      exact hpiece start run rest (by omega) (by omega) hcons (ih rest (by omega) (start + run))

namespace Program

variable {σ ε : Type} {s : σ} {E : ε → σ → Prop} {f : ℕ × ℕ → Program σ ε PUnit}

/-- **The rule for a loop over pieces.**  `I position` holds before the piece that starts there. -/
theorem ensures_pieces (hsize : 0 < size) (I : ℕ → σ → Prop)
    (hstep : ∀ position run s, start ≤ position → 0 < run → position + run ≤ start + length →
      position % size + run ≤ size → I position s →
        Ensures (f (position, run)) s (fun _ => I (position + run)) E) (hinit : I start s) :
    Ensures ((pieces size start length).forM f) s (fun _ => I (start + length)) E := by
  induction start, length using pieces_induction hsize generalizing s with
  | hzero => exact ensures_forM_nil.mpr hinit
  | hpiece start run rest hrun hblock hcons ih =>
    rw [hcons]
    refine ensures_forM_cons.mpr
      ((hstep start run s (Nat.le_refl _) hrun (by omega) hblock hinit).imp
      (fun _ s' hI => ?_))
    have := ih (fun position run s hlow hpos hhigh =>
      hstep position run s (by omega) hpos (by omega)) hI
    rwa [Nat.add_assoc] at this

end Program

end Pieces

end ShitOs
