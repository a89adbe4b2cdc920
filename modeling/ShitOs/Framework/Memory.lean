import Mathlib.Logic.Function.Basic
import Mathlib.Data.List.Range
import Mathlib.Tactic.Common

/-!
# A memory of 64-bit words with a byte view

Allocators and page tables keep their own data in aligned 64-bit words (`Words`), and everybody else
reads and writes bytes: `loadByte`, `storeByte`, `fill`, `copy` and `storeBytes`, with byte `a` in
word `a / 8`, least significant byte first.

A run of bytes that was stored is read back (`loadByte_storeBytes`), and an operation on bytes
leaves every word outside its range alone (`storeByte_of_ne`, `fill_word`, `copy_word`,
`storeBytes_word`).
-/

namespace ShitOs
namespace Memory

variable {w : BitVec 64} {a i n : ℕ} {b : ℕ → BitVec 8} {m : Words}

/-- Word `w` of the memory holds bytes `8 * w` to `8 * w + 7`. -/
abbrev Words := ℕ → BitVec 64

/-! ## One byte -/

/-- Replaces byte `i` of a word. -/
def setByte (w : BitVec 64) (i : ℕ) (b : BitVec 8) : BitVec 64 :=
  (w &&& ~~~((BitVec.allOnes 8).setWidth 64 <<< (8 * i))) ||| (b.setWidth 64 <<< (8 * i))

/-- Byte `i` of a word. -/
def getByte (w : BitVec 64) (i : ℕ) : BitVec 8 := w.extractLsb' (8 * i) 8

lemma getLsbD_setByte {k : ℕ} {b : BitVec 8} (hk : k < 64) : (setByte w i b).getLsbD k =
      if 8 * i ≤ k ∧ k < 8 * i + 8 then b.getLsbD (k - 8 * i) else w.getLsbD k := by
  simp only [setByte, BitVec.getLsbD_or, BitVec.getLsbD_and, BitVec.getLsbD_not,
    BitVec.getLsbD_shiftLeft, BitVec.getLsbD_setWidth, BitVec.getLsbD_allOnes, hk]
  split_ifs with hin
  · simp [show ¬ k < 8 * i by omega, show k - 8 * i < 8 by omega, show k - 8 * i < 64 by omega]
  · by_cases hlo : k < 8 * i
    · simp [hlo]
    · simp [hlo, show ¬ k - 8 * i < 8 by omega, BitVec.getLsbD_of_ge b (k - 8 * i) (by omega)]

lemma getByte_setByte_self {b : BitVec 8} (hi : i < 8) : getByte (setByte w i b) i = b := by
  refine BitVec.eq_of_getLsbD_eq fun j hj => ?_
  rw [getByte, BitVec.getLsbD_extractLsb', getLsbD_setByte (by omega), if_pos (by omega)]
  simp [hj]

lemma getByte_setByte_of_ne {j : ℕ} {b : BitVec 8} (hij : j ≠ i) :
    getByte (setByte w i b) j = getByte w j := by
  refine BitVec.eq_of_getLsbD_eq fun k hk => ?_
  rw [getByte, getByte, BitVec.getLsbD_extractLsb', BitVec.getLsbD_extractLsb']
  by_cases hlt : 8 * j + k < 64
  · rw [getLsbD_setByte hlt, if_neg (by omega)]
  · rw [BitVec.getLsbD_of_ge _ _ (by omega), BitVec.getLsbD_of_ge _ _ (by omega)]

/-- The word with the given bytes. -/
def ofBytes (b : ℕ → BitVec 8) : BitVec 64 :=
  (List.range 8).foldl (fun w i => setByte w i (b i)) 0

lemma getByte_ofBytes (hi : i < 8) : getByte (ofBytes b) i = b i := by
  -- The bytes written after byte `i` leave it alone.
  have hfold : ∀ n w, i < n → n ≤ 8 →
      getByte ((List.range n).foldl (fun w i => setByte w i (b i)) w) i = b i := by
    intro n
    induction n with
    | zero => intro w hin; omega
    | succ n ih =>
      intro w hin hn
      rw [List.range_succ, List.foldl_append, List.foldl_cons, List.foldl_nil]
      by_cases hlast : i = n
      · rw [hlast, getByte_setByte_self (by omega)]
      · rw [getByte_setByte_of_ne hlast]
        exact ih w (by omega) (by omega)
  exact hfold 8 0 hi (Nat.le_refl 8)

lemma eq_of_getByte {w' : BitVec 64} (h : ∀ i < 8, getByte w i = getByte w' i) : w = w' := by
  refine BitVec.eq_of_getLsbD_eq fun k hk => ?_
  have hbit := congrArg (fun b : BitVec 8 => b.getLsbD (k % 8)) (h (k / 8) (by omega))
  simpa [getByte, BitVec.getLsbD_extractLsb', Nat.mod_lt, Nat.div_add_mod] using hbit

lemma ofBytes_eq (h : ∀ i < 8, b i = getByte w i) : ofBytes b = w :=
  eq_of_getByte fun i hi => (getByte_ofBytes hi).trans (h i hi)

/-- The byte at address `a`. -/
def loadByte (m : Words) (a : ℕ) : BitVec 8 := getByte (m (a / 8)) (a % 8)

/-- Stores a byte at address `a`. -/
def storeByte (m : Words) (a : ℕ) (b : BitVec 8) : Words :=
  Function.update m (a / 8) (setByte (m (a / 8)) (a % 8) b)

lemma storeByte_of_ne {w : ℕ} {b : BitVec 8} (h : w ≠ a / 8) :
    storeByte m a b w = m w := Function.update_of_ne h ..

lemma loadByte_congr {m' : Words} (h : m' (a / 8) = m (a / 8)) : loadByte m' a = loadByte m a := by
  rw [loadByte, loadByte, h]

/-! ## Runs of bytes -/

/-- `memset`: `n` copies of `b` from address `a` on. -/
def fill (m : Words) (a : ℕ) (b : BitVec 8) : ℕ → Words
  | 0 => m
  | n + 1 => storeByte (fill m a b n) (a + n) b

/-- Copies one byte. -/
def copyByte (m : Words) (dst src : ℕ) : Words := storeByte m dst (loadByte m src)

/-- `memcpy`: `n` bytes from `src` on, one after the other. -/
def copy (m : Words) (dst src : ℕ) : ℕ → Words
  | 0 => m
  | n + 1 => copyByte (copy m dst src n) (dst + n) (src + n)

/-- Stores `n` bytes that come from elsewhere, from address `a` on. -/
def storeBytes (m : Words) (a n : ℕ) (b : ℕ → BitVec 8) : Words := fun w =>
  if 8 * w + 8 ≤ a ∨ a + n ≤ 8 * w then m w
  else ofBytes fun j =>
    if a ≤ 8 * w + j ∧ 8 * w + j < a + n then b (8 * w + j - a) else getByte (m w) j

lemma storeBytes_word {w : ℕ} (h : 8 * w + 8 ≤ a ∨ a + n ≤ 8 * w) :
    storeBytes m a n b w = m w := if_pos h

lemma loadByte_storeBytes {c : ℕ} : loadByte (storeBytes m a n b) c =
      if a ≤ c ∧ c < a + n then b (c - a) else loadByte m c := by
  have hc : 8 * (c / 8) + c % 8 = c := Nat.div_add_mod c 8
  have hmod : c % 8 < 8 := Nat.mod_lt c (by decide)
  unfold loadByte storeBytes
  split_ifs with hout hin hin
  · omega
  · rfl
  · rw [getByte_ofBytes hmod, hc, if_pos hin]
  · rw [getByte_ofBytes hmod, hc, if_neg hin]

lemma fill_word {w : ℕ} {b : BitVec 8} (h : ∀ i < n, w ≠ (a + i) / 8) : fill m a b n w = m w := by
  induction n with
  | zero => rfl
  | succ n ih =>
    rw [fill, storeByte_of_ne (h n (Nat.lt_succ_self n))]
    exact ih fun i hi => h i (Nat.lt_succ_of_lt hi)

lemma copy_word {dst src w : ℕ} (h : ∀ i < n, w ≠ (dst + i) / 8) : copy m dst src n w = m w := by
  induction n with
  | zero => rfl
  | succ n ih =>
    rw [copy, copyByte, storeByte_of_ne (h n (Nat.lt_succ_self n))]
    exact ih fun i hi => h i (Nat.lt_succ_of_lt hi)

end Memory
end ShitOs
