import Mathlib.Order.Interval.Set.Basic
import ShitOs.Construction.Kerning

/-!
# Minimum values are taken for kerning values

The coverage of a subtable says whether it is horizontal, whether its values are kerning values or
minimum values, and of which format it is.  `tt_kern` returns what is stored for the pair in the
first horizontal subtable of format 0 that contains it: as the pairs are sorted, the binary search
finds every one.  It does not look at the bit for minimum values.  `ttKern_iff` says when the value
is right.
-/

namespace ShitOs

/-- A pair of glyphs with its value. -/
structure KernPair where
  left : ℕ
  right : ℕ
  value : ℤ

structure KernSubtable where
  coverage : ℕ
  pairs : List KernPair

def KernPair.key (q : KernPair) : ℕ := q.left <<< 16 ||| q.right

namespace KernSubtable

variable (t : KernSubtable) (left right : ℕ)

def format0 : Bool := t.coverage &&& 0xff00 == 0
def horizontal : Bool := t.coverage &&& 1 != 0
def minimum : Bool := t.coverage &&& 2 != 0

/-- What is stored for a pair. -/
def value : Option ℤ :=
  (t.pairs.find? fun q => q.left = left ∧ q.right = right).map KernPair.value

/-- The pair is in a horizontal subtable of format 0. -/
def covers : Bool := t.format0 && t.horizontal && (t.value left right).isSome

end KernSubtable

namespace TtFont

/-- Where a pair of the subtable at `p` is. -/
abbrev entryAt (p k : ℕ) : ℕ := p + 14 + k * 6

def pairAt (data : ℕ → BitVec 8) (entry : ℕ) : KernPair :=
  ⟨u16At data entry, u16At data (entry + 2), i16At data (entry + 4)⟩

def subtableAt (data : ℕ → BitVec 8) (p : ℕ) : KernSubtable :=
  ⟨u16At data (p + 4), (List.range (u16At data (p + 6))).map fun k => pairAt data (entryAt p k)⟩

/-- So many subtables from `p` on; each says how long it is. -/
def subtablesAt (data : ℕ → BitVec 8) : ℕ → ℕ → List KernSubtable
  | 0, _ => []
  | n + 1, p => subtableAt data p :: subtablesAt data n (p + u16At data (p + 2))

def kernTable (font : TtFont) : List KernSubtable :=
  if font.kern = 0 then []
  else subtablesAt font.data (u16At font.data (font.kern + 2)) (font.kern + 4)

/-- The pairs of each subtable of format 0 are sorted. -/
def WellFormed (tables : List KernSubtable) : Prop :=
  ∀ t ∈ tables, t.format0 → t.pairs.Pairwise (·.key < ·.key)

/-- What is stored for a pair in the first subtable that is chosen; 0 if there is none. -/
def firstValue (tables : List KernSubtable) (chosen : KernSubtable → Bool) (left right : ℕ) : ℤ :=
  ((tables.find? chosen).bind (·.value left right)).getD 0

/-- What is stored for a pair in the first horizontal subtable of format 0 with kerning values. -/
def kerning (tables : List KernSubtable) (left right : ℕ) : ℤ :=
  firstValue tables (fun t => t.covers left right && !t.minimum) left right

variable {data : ℕ → BitVec 8} {font : TtFont} {want low high n p left right : ℕ}

lemma u16At_lt (data : ℕ → BitVec 8) (p : ℕ) : u16At data p < 2 ^ 16 := by
  refine Nat.or_lt_two_pow ?_ (by omega)
  rw [Nat.shiftLeft_eq]
  omega

lemma key_pairAt (data : ℕ → BitVec 8) (p : ℕ) : (pairAt data p).key = u32At data p := by
  simp [KernPair.key, pairAt, u16At, u32At, Nat.shiftLeft_or_distrib,
    ← Nat.shiftLeft_add, Nat.or_assoc]

lemma key_inj {a b c d : ℕ} (hb : b < 2 ^ 16) (hd : d < 2 ^ 16) :
    a <<< 16 ||| b = c <<< 16 ||| d ↔ a = c ∧ b = d := by
  rw [← Nat.shiftLeft_add_eq_or_of_lt hb, ← Nat.shiftLeft_add_eq_or_of_lt hd, Nat.shiftLeft_eq,
    Nat.shiftLeft_eq]
  omega

/-- **The binary search** finds a key, if it is there and within the bounds. -/
lemma search_eq_some (value : ℤ)
    (hsorted : StrictMonoOn (fun k => u32At data (entryAt p k)) (Set.Iio n)) (hhigh : high ≤ n)
    (hinside : ∀ k < n, u32At data (entryAt p k) = want → low ≤ k ∧ k < high) :
    search data p want low high = some value ↔
      ∃ k < n, u32At data (entryAt p k) = want ∧ (pairAt data (entryAt p k)).value = value := by
  fun_induction search with
  | case1 low high hlt middle entry key hkey ih =>
    have hmiddle : middle < n := by omega
    exact ih hhigh fun k hk heq =>
      ⟨(hsorted.lt_iff_lt hmiddle hk).mp (hkey.trans_eq heq.symm), (hinside k hk heq).2⟩
  | case2 low high hlt middle entry key _ hkey ih =>
    have hmiddle : middle < n := by omega
    exact ih hmiddle.le fun k hk heq =>
      ⟨(hinside k hk heq).1, (hsorted.lt_iff_lt hk hmiddle).mp (heq.trans_lt hkey)⟩
  | case3 low high hlt middle entry key hkey hkey' =>
    have hmiddle : middle < n := by omega
    have heq : key = want := by omega
    refine ⟨fun h => ⟨middle, hmiddle, heq, Option.some.inj h⟩, fun ⟨k, hk, hk', hvalue⟩ => ?_⟩
    obtain rfl := hsorted.injOn hk hmiddle (hk'.trans heq.symm)
    rw [← hvalue]
    rfl
  | case4 low high hlt =>
    refine ⟨nofun, fun ⟨k, hk, heq, _⟩ => ?_⟩
    have := hinside k hk heq
    omega

section

variable (hleft : left < 2 ^ 16) (hright : right < 2 ^ 16)
include hleft hright

/-- In sorted pairs the search finds what is stored for a pair. -/
lemma search_subtableAt (hsorted : (subtableAt data p).pairs.Pairwise (·.key < ·.key)) :
    search data p ((left <<< 16 ||| right) % 2 ^ 32) 0 (u16At data (p + 6)) =
      (subtableAt data p).value left right := by
  have hwant : (left <<< 16 ||| right) % 2 ^ 32 = left <<< 16 ||| right := by
    refine Nat.mod_eq_of_lt (Nat.or_lt_two_pow ?_ (by omega))
    rw [Nat.shiftLeft_eq]
    omega
  have hkey : ∀ k, u32At data (entryAt p k) = left <<< 16 ||| right ↔
      (pairAt data (entryAt p k)).left = left ∧ (pairAt data (entryAt p k)).right =
      right := fun k => by
    rw [← key_pairAt]
    exact key_inj (u16At_lt ..) hright
  have hmono : StrictMonoOn (fun k => u32At data (entryAt p k)) (Set.Iio (u16At data (p + 6))) := by
    intro i hi j hj hij
    simpa [subtableAt, key_pairAt] using
      List.pairwise_iff_getElem.mp hsorted i j (by simpa [subtableAt]) (by simpa [subtableAt]) hij
  have hsearch := fun value => search_eq_some value hmono le_rfl fun k hk
    (_ : _ = left <<< 16 ||| right) => ⟨k.zero_le, hk⟩
  simp only [hkey] at hsearch
  rw [hwant, KernSubtable.value]
  cases hfind : (subtableAt data p).pairs.find? fun q => q.left = left ∧ q.right = right with
  | none =>
    refine Option.eq_none_iff_forall_ne_some.mpr fun value hvalue => ?_
    obtain ⟨k, hk, hpair, -⟩ := (hsearch value).mp hvalue
    simpa [hpair] using List.find?_eq_none.mp hfind _
      (List.mem_map.mpr ⟨k, List.mem_range.mpr hk, rfl⟩)
  | some q =>
    have hpair := List.find?_some hfind
    obtain ⟨k, hk, rfl⟩ := List.mem_map.mp (List.mem_of_find?_eq_some hfind)
    exact (hsearch _).mpr ⟨k, List.mem_range.mp hk, of_decide_eq_true hpair, rfl⟩

lemma kernLoop_eq (hwf : WellFormed (subtablesAt data n p)) :
    kernLoop data left right n p = firstValue (subtablesAt data n p) (·.covers left right)
      left right := by
  induction n generalizing p with
  | zero => rfl
  | succ n ih =>
    have hreads : (u16At data (p + 4) &&& 0xff00 = 0 ∧ u16At data (p + 4) &&& 1 ≠ 0) ↔
        (subtableAt data p).format0 ∧ (subtableAt data p).horizontal := by
      rw [KernSubtable.format0, KernSubtable.horizontal, beq_iff_eq, bne_iff_ne]
      rfl
    have hrest := ih fun t ht => hwf t (List.mem_cons_of_mem _ ht)
    simp only [kernLoop, hreads, hrest, firstValue, subtablesAt, List.find?_cons]
    split_ifs with h
    · rw [search_subtableAt hleft hright (hwf _ List.mem_cons_self h.1)]
      cases hvalue : (subtableAt data p).value left right <;> simp [KernSubtable.covers, h, hvalue]
    · have hnot : (subtableAt data p).covers left right = false := by
        rw [KernSubtable.covers]
        grind
      rw [hnot]

/-- **`tt_kern`** returns what is stored for the pair in the first horizontal subtable of format 0
that contains it. -/
lemma ttKern_eq (hwf : WellFormed font.kernTable) :
    font.ttKern left right = firstValue font.kernTable (·.covers left right) left right := by
  unfold ttKern kernTable at *
  split_ifs at * with hkern
  · rfl
  · exact kernLoop_eq hleft hright hwf

end

/-- `tt_kern` returns the kerning of a pair unless the first horizontal subtable of format 0 that
contains it has minimum values, and another value than the kerning. -/
theorem ttKern_iff (hleft : left < 2 ^ 16) (hright : right < 2 ^ 16)
    (hwf : WellFormed font.kernTable) : font.ttKern left right = kerning font.kernTable left right ↔
      ∀ t ∈ font.kernTable.find? (·.covers left right), t.minimum →
        t.value left right = some (kerning font.kernTable left right) := by
  rw [ttKern_eq hleft hright hwf, kerning, firstValue, firstValue]
  cases hfirst : font.kernTable.find? (·.covers left right) with
  | none =>
    have hnone : font.kernTable.find? (fun t => t.covers left right && !t.minimum) = none := by
      grind [List.find?_eq_none]
    simp [hnone]
  | some t =>
    obtain ⟨hcov, before, after, htables, hbefore⟩ := List.find?_eq_some_iff_append.mp hfirst
    obtain ⟨value, hvalue⟩ := Option.isSome_iff_exists.mp (Bool.and_eq_true_iff.mp hcov).2
    cases hmin : t.minimum with
    | false =>
      have hsame : font.kernTable.find? (fun t => t.covers left right && !t.minimum) = some t :=
        List.find?_eq_some_iff_append.mpr
        ⟨by simp [hcov, hmin], before, after, htables, fun u hu => by
          simp [hbefore u hu]⟩
      simp [hsame, hmin]
    | true => simp [hvalue, hmin]

/-- A font whose kern table is one subtable, with the value 5 for the glyphs 1 and 2. -/
def sample (coverage : BitVec 8) : TtFont where
  data p := [0, 0, 0, 1, 0, 0, 0, 20, 0, coverage, 0, 1, 0, 6, 0, 0, 0, 0, 0, 1, 0, 2, 0, 5].getD
    (p - 4) 0
  kern := 4

theorem ttKern_iff_sample : (sample 1).ttKern 1 2 = kerning (sample 1).kernTable 1 2 :=
  (ttKern_iff (by decide) (by decide) (by unfold WellFormed; decide)).mpr (by decide)

/-- The minimum value 5 is returned; no kerning value is stored. -/
theorem minimum_taken : WellFormed (sample 3).kernTable ∧ (sample 3).ttKern 1 2 = 5 ∧
    kerning (sample 3).kernTable 1 2 = 0 := by
  have hwf : WellFormed (sample 3).kernTable := by unfold WellFormed; decide
  exact ⟨hwf, (ttKern_eq (by decide) (by decide) hwf).trans (by decide), by decide⟩

end TtFont
end ShitOs
