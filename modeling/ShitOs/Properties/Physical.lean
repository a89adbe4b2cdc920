import ShitOs.Construction.Physical
import ShitOs.Framework.Align

/-!
# What the page allocator hands out

A frame that is handed out was free and is inside the machine's memory, and nothing else changes
(`allocatePage_spec`, `allocateContiguous_spec`); a page is refused only if none is free
(`allocatePage_error`); giving back a run of frames that are in use does not panic and clears
exactly those bits (`freeContiguous_spec`).
-/

namespace ShitOs

namespace Kstd

lemma toNat_alignDown (a : U64) : (alignDown a 4096).toNat = a.toNat / 4096 * 4096 :=
  Align.toNat_and_not_mask (k := 12) rfl

lemma toNat_alignUp (a : U64) :
    (alignUp a 4096).toNat = (a.toNat + 4095) % 2 ^ 64 / 4096 * 4096 := by
  have hsum : a + 4096 - 1 = a + (4096 - 1) := by
    rw [BitVec.sub_eq_add_neg, BitVec.add_assoc]
    rfl
  rw [alignUp, hsum]
  exact Align.toNat_round_up (k := 12) rfl

end Kstd

namespace PageAllocator

variable {p q : PageAllocator} {count f first i index limit runLength : ℕ}

/-- The frames `first, …, first + count - 1`. -/
def InRun (first count frame : ℕ) : Prop := first ≤ frame ∧ frame < first + count

instance (first count i : ℕ) : Decidable (InRun first count i) :=
  inferInstanceAs (Decidable (_ ∧ _))

/-- `q` is `p` after the frames of a run have been taken, all of which were free. -/
structure Takes (p q : PageAllocator) (first count : ℕ) : Prop where
  total : q.totalPages = p.totalPages
  bound : first + count ≤ p.totalPages
  free : ∀ i, InRun first count i → p.inUse i = false
  taken : ∀ i, InRun first count i → q.inUse i = true
  others : ∀ i, ¬ InRun first count i → q.inUse i = p.inUse i
  used : q.usedPages = p.usedPages + count

/-! ## One page -/

lemma searchWords_spec : ∀ {words : List ℕ},
    p.searchWords limit words = some i → i < p.totalPages ∧ i < limit ∧ p.inUse i = false
  | [], h => by simp [searchWords] at h
  | word :: words, h => by
    rw [searchWords] at h
    cases hclear : p.firstClear word with
    | none =>
      rw [hclear] at h
      exact searchWords_spec h
    | some bit =>
      rw [hclear] at h
      dsimp only at h
      split_ifs at h with hbound
      cases h
      have hfree := List.find?_some hclear
      exact ⟨by omega, by omega, by simpa using hfree⟩

lemma search_spec (h : p.search = some i) : i < p.totalPages ∧ p.inUse i = false := by
  unfold search at h
  dsimp only at h
  split at h
  case h_1 index hfound =>
    cases h
    exact (searchWords_spec hfound).imp_right And.right
  case h_2 => exact (searchWords_spec h).imp_right And.right

/-- The loop over consecutive words stops at the first frame that is free. -/
lemma searchWords_passed : ∀ {n first : ℕ} {found : Option ℕ},
    p.searchWords limit (List.range' first n) = found → first * BITS_PER_WORD ≤ f →
    (match found with
    | none => f < (first + n) * BITS_PER_WORD ∧ f < p.totalPages ∧ f < limit
    | some r => f < r) → p.inUse f = true
  | 0, first, _, rfl, hfirst, hpassed => absurd hpassed.1 (Nat.not_lt.mpr hfirst)
  | n + 1, first, found, h, hfirst, hpassed => by
    rw [List.range'_succ, searchWords] at h
    have hf : first * BITS_PER_WORD + (f - first * BITS_PER_WORD) = f := by omega
    cases hclear : p.firstClear first with
    | none =>
      rw [hclear] at h
      by_cases hword : f < (first + 1) * BITS_PER_WORD
      · rw [Nat.succ_mul] at hword
        have := List.find?_eq_none.mp hclear (f - first * BITS_PER_WORD)
          (List.mem_range.mpr (by omega))
        rw [hf] at this
        simpa using this
      · exact searchWords_passed h (Nat.not_lt.mp hword) (by rwa [Nat.add_assoc, Nat.add_comm 1 n])
    | some bit =>
      rw [hclear] at h
      dsimp only at h
      have hbit : f < first * BITS_PER_WORD + bit := by
        split_ifs at h <;> subst h
        · omega
        · exact hpassed
      obtain ⟨-, -, hbefore⟩ := List.find?_range_eq_some.mp hclear
      have := hbefore (f - first * BITS_PER_WORD) (by omega)
      rw [hf] at this
      simpa using this

lemma search_none (h : p.search = none) (hf : f < p.totalPages) : p.inUse f = true := by
  unfold search at h
  dsimp only at h
  split at h
  case h_1 => cases h
  case h_2 hfirst =>
    rw [List.range_eq_range'] at h
    have hwords : p.totalPages ≤ p.bitmapWords * BITS_PER_WORD := by
      unfold bitmapWords BITS_PER_WORD
      omega
    by_cases hhint : p.searchHint / BITS_PER_WORD * BITS_PER_WORD ≤ f
    · refine searchWords_passed hfirst hhint ⟨?_, hf, hf⟩
      unfold BITS_PER_WORD at *
      omega
    · refine searchWords_passed h (by omega) ⟨by rw [Nat.zero_add]; omega, hf, ?_⟩
      have := Nat.div_mul_le_self p.searchHint BITS_PER_WORD
      omega

lemma inRun_one : InRun first 1 i ↔ i = first := by
  unfold InRun
  omega

section One

variable {f g : ℕ}

section

variable (h : Takes p q f 1)
include h

lemma Takes.free_one : p.inUse f = false := h.free f (inRun_one.mpr rfl)

lemma Takes.taken_one : q.inUse f = true := h.taken f (inRun_one.mpr rfl)

lemma Takes.others_one (hg : g ≠ f) : q.inUse g = p.inUse g :=
  h.others g fun hin => hg (inRun_one.mp hin)

lemma Takes.ne (hg : p.inUse g = true) : g ≠ f := by
  rintro rfl
  rw [h.free_one] at hg
  cases hg

lemma Takes.ne_of_held (hg : p.inUse g = true ∨ p.totalPages ≤ g) : g ≠ f :=
  hg.elim h.ne fun hle => by have := h.bound; omega

lemma Takes.kept (hg : p.inUse g = true) : q.inUse g = true :=
  (h.others_one (h.ne hg)).trans hg

end

end One

lemma takes_take {hint : ℕ} (hi : i < p.totalPages) (hfree : p.inUse i = false) :
    Takes p { p.take i with searchHint := hint } i 1 where
  total := rfl
  bound := hi
  free j hj := inRun_one.mp hj ▸ hfree
  taken j hj := by simp [take, inRun_one.mp hj]
  others j hj := Function.update_of_ne (fun heq => hj (inRun_one.mpr heq)) ..
  used := rfl

lemma allocatePage_spec (h : p.allocatePage = .ok (i, q)) : Takes p q i 1 := by
  unfold allocatePage at h
  split at h
  case h_2 => simp at h
  case h_1 index hfound =>
    obtain ⟨rfl, rfl⟩ : index = i ∧ { p.take index with searchHint := index + 1 } = q := by
      simpa using h
    exact takes_take (search_spec hfound).1 (search_spec hfound).2

lemma allocatePage_error {e : Errno} (h : p.allocatePage = .error e) :
    e = .ENOMEM ∧ ∀ f < p.totalPages, p.inUse f = true := by
  unfold allocatePage at h
  split at h
  case h_1 => cases h
  case h_2 hnone => exact ⟨(Except.error.inj h).symm, fun f hf => search_none hnone hf⟩

/-! ## Runs of pages -/

/-- Taking one run and then the frame behind it is taking a longer run. -/
lemma Takes.snoc {r : PageAllocator} (h : Takes p q first count)
    (h' : Takes q r (first + count) 1) : Takes p r first (count + 1) := by
  have hnot : ¬ InRun first count (first + count) := fun hin => Nat.lt_irrefl _ hin.2
  refine ⟨h'.total.trans h.total, ?_, fun i hi => ?_, fun i hi => ?_, fun i hi => ?_, ?_⟩
  · have := h'.bound
    rw [h.total] at this
    omega
  · by_cases hlast : i = first + count
    · rw [hlast, ← h.others _ hnot]
      exact h'.free _ (inRun_one.mpr rfl)
    · exact h.free i ⟨hi.1, by have := hi.2; omega⟩
  · by_cases hlast : i = first + count
    · exact h'.taken i (inRun_one.mpr hlast)
    · rw [h'.others i fun hin => hlast (inRun_one.mp hin)]
      exact h.taken i ⟨hi.1, by have := hi.2; omega⟩
  · rw [h'.others i fun hin => hi ⟨by rw [inRun_one.mp hin]; omega,
      by rw [inRun_one.mp hin]; omega⟩]
    exact h.others i fun hin => hi ⟨hin.1, Nat.lt_succ_of_lt hin.2⟩
  · rw [h'.used, h.used, Nat.add_assoc]

lemma markUsed_spec : ∀ count : ℕ, first + count ≤ p.totalPages →
    (∀ i, InRun first count i → p.inUse i = false) → Takes p (p.markUsed first count) first count
  | 0, hbound, _ => by
    refine ⟨rfl, hbound, fun i hi => ?_, fun i hi => ?_, fun i _ => rfl, rfl⟩
    · exact absurd hi.2 (by have := hi.1; omega)
    · exact absurd hi.2 (by have := hi.1; omega)
  | count + 1, hbound, hfree => by
    have ih := markUsed_spec count (by omega) fun i hi =>
      hfree i ⟨hi.1, Nat.lt_succ_of_lt hi.2⟩
    have hnext : (p.markUsed first count).inUse (first + count) = false := by
      rw [ih.others _ fun hin => Nat.lt_irrefl _ hin.2]
      exact hfree _ ⟨Nat.le_add_right .., Nat.lt_succ_self _⟩
    have hlt : first + count < (p.markUsed first count).totalPages := by
      rw [ih.total]
      omega
    have hstep : p.markUsed first (count + 1) = (p.markUsed first count).take (first + count) := by
      rw [markUsed, List.range'_concat, List.foldl_append, ← markUsed]
      simp [hnext, hlt]
    rw [hstep]
    exact ih.snoc (takes_take hlt hnext)

/-- All frames of the run are free, and it lies in the machine's memory. -/
def FreeRun (p : PageAllocator) (count first : ℕ) : Prop :=
  first + count ≤ p.totalPages ∧ ∀ i, InRun first count i → p.inUse i = false

/-- The lowest run of free frames. -/
structure LowestRun (p : PageAllocator) (count first : ℕ) : Prop where
  run : p.FreeRun count first
  lowest : ∀ g < first, ¬ p.FreeRun count g

/-- What the loop of `allocate_contiguous` knows at `index`: no run ends at or before it, and the
frame before the current stretch of free ones is in use. -/
structure Scanned (p : PageAllocator) (count index runLength : ℕ) : Prop where
  none : ∀ g, g + count ≤ index → ¬ p.FreeRun count g
  before : ∀ j, j + runLength + 1 = index → p.inUse j = true

lemma Scanned.start (hcnt : 0 < count) : Scanned p count 0 0 where
  none g hg := by omega
  before j hj := by omega

lemma Scanned.used (h : Scanned p count index runLength) (hcnt : 0 < count)
    (hused : p.inUse index = true) : Scanned p count (index + 1) 0 where
  none g hg hrun := by
    by_cases hend : g + count ≤ index
    · exact h.none g hend hrun
    · have := hrun.2 index ⟨by omega, by omega⟩
      rw [hused] at this
      cases this
  before j hj := by
    obtain rfl : j = index := by omega
    exact hused

lemma Scanned.free (h : Scanned p count index runLength)
    (hlt : runLength + 1 < count) : Scanned p count (index + 1) (runLength + 1) where
  none g hg hrun := by
    by_cases hend : g + count ≤ index
    · exact h.none g hend hrun
    · -- Such a run is longer than the current stretch, and so begins before it.
      have hused := h.before (index - runLength - 1) (by omega)
      have := hrun.2 (index - runLength - 1) ⟨by omega, by omega⟩
      rw [hused] at this
      cases this
  before j hj := h.before j (by omega)

/-- The loop of `allocate_contiguous`: `runStart` and `runLength` describe free frames that end
where the loop stands. -/
lemma findRun_spec (hcnt : 0 < count) : ∀ {fuel index runStart runLength : ℕ} {found : Option ℕ},
      p.findRun count fuel index runStart runLength = found → index + fuel = p.totalPages →
      (0 < runLength → runStart + runLength = index) →
      (∀ i, InRun runStart runLength i → p.inUse i = false) → runLength < count →
      Scanned p count index runLength →
      match found with
      | none => ∀ g, ¬ p.FreeRun count g
      | some r => p.LowestRun count r
  | 0, _, _, _, _, rfl, hfuel, _, _, _, hscanned => by
    intro g hrun
    exact hscanned.none g (by have := hrun.1; omega) hrun
  | fuel + 1, index, runStart, runLength, found, h, hfuel, hend, hfree, hlt, hscanned => by
    rw [findRun] at h
    by_cases hused : p.inUse index = true
    · rw [if_pos hused] at h
      exact findRun_spec hcnt h (by omega) (by simp) (fun i hi => absurd hi.2 (by
        have := hi.1
        omega)) hcnt (hscanned.used hcnt hused)
    · rw [if_neg hused] at h
      -- The run with the frame the loop stands on.
      obtain ⟨start, hstart⟩ : ∃ start, start = if runLength = 0 then index else runStart :=
        ⟨_, rfl⟩
      rw [← hstart] at h
      have hend' : start + (runLength + 1) = index + 1 := by
        split_ifs at hstart
        · omega
        · have := hend (by omega)
          omega
      have hfree' : ∀ i, InRun start (runLength + 1) i → p.inUse i = false := by
        intro i hi
        by_cases hlast : i = index
        · simpa [hlast] using hused
        · have hin : InRun runStart runLength i := by
            obtain ⟨h₁, h₂⟩ := hi
            split_ifs at hstart with hzero
            · omega
            · exact ⟨by omega, by have := hend (by omega); omega⟩
          exact hfree i hin
      by_cases hdone : runLength + 1 = count
      · rw [if_pos hdone] at h
        subst h
        exact ⟨⟨by omega, hdone ▸ hfree'⟩, fun g hg => hscanned.none g (by omega)⟩
      · rw [if_neg hdone] at h
        exact findRun_spec hcnt h (by omega) (fun _ => hend') hfree' (by omega)
          (hscanned.free (by omega))

lemma findRun_lowest {found : Option ℕ} (hcnt : 0 < count) :
    p.findRun count p.totalPages 0 0 0 = found →
    match found with
    | none => ∀ g, ¬ p.FreeRun count g
    | some r => p.LowestRun count r := fun h =>
  findRun_spec hcnt h (Nat.zero_add _) (by simp) (fun i hi => absurd hi.2 (by
    omega)) hcnt (.start hcnt)

lemma allocateContiguous_spec (h : p.allocateContiguous count = .ok (i, q)) :
    0 < count ∧ Takes p q i count := by
  unfold allocateContiguous at h
  split_ifs at h with hzero hone
  · rw [hone]
    exact ⟨Nat.one_pos, allocatePage_spec h⟩
  · split at h
    case h_2 => simp at h
    case h_1 start hfound =>
      obtain ⟨rfl, rfl⟩ : start = i ∧ p.markUsed start count = q := by simpa using h
      have hpos : 0 < count := Nat.pos_of_ne_zero hzero
      obtain ⟨hbound, hfree⟩ := (findRun_lowest hpos hfound).run
      exact ⟨hpos, markUsed_spec count hbound hfree⟩

/-! ## Giving pages back -/

/-- `q` is `p` after the frames of a run, all in use, have been given back. -/
structure Frees (p q : PageAllocator) (first count : ℕ) : Prop where
  total : q.totalPages = p.totalPages
  freed : ∀ i, InRun first count i → q.inUse i = false
  others : ∀ i, ¬ InRun first count i → q.inUse i = p.inUse i
  used : q.usedPages = p.usedPages - count

lemma release_spec : ∀ count : ℕ, first + count ≤ p.totalPages →
    (∀ i, InRun first count i → p.inUse i = true) →
    ∃ q, (List.range' first count).foldlM release p = some q ∧ Frees p q first count
  | 0, _, _ => by
    refine ⟨p, rfl, rfl, fun i hi => ?_, fun i _ => rfl, rfl⟩
    exact absurd hi.2 (by have := hi.1; omega)
  | count + 1, hbound, hused => by
    obtain ⟨q, hfold, hq⟩ := release_spec count (by omega) fun i hi =>
      hused i ⟨hi.1, Nat.lt_succ_of_lt hi.2⟩
    have hnot : ¬ InRun first count (first + count) := fun hin => Nat.lt_irrefl _ hin.2
    have hnext : q.inUse (first + count) = true := by
      rw [hq.others _ hnot]
      exact hused _ ⟨Nat.le_add_right .., Nat.lt_succ_self _⟩
    have hlt : first + count < q.totalPages := by
      rw [hq.total]
      omega
    refine ⟨{ q with
        inUse := Function.update q.inUse (first + count) false
        usedPages := q.usedPages - 1 }, ?_, hq.total, fun i hi => ?_, fun i hi => ?_, ?_⟩
    · rw [List.range'_concat, List.foldlM_append, hfold]
      simp only [Nat.one_mul, Option.bind_eq_bind, Option.bind_some, List.foldlM_cons,
        List.foldlM_nil, release, if_pos hlt, if_pos hnext]
      rfl
    · by_cases hlast : i = first + count
      · simp [hlast]
      · exact (Function.update_of_ne hlast ..).trans <| hq.freed i ⟨hi.1, by have := hi.2; omega⟩
    · have hlast : i ≠ first + count := by
        rintro rfl
        exact hi ⟨Nat.le_add_right .., Nat.lt_succ_self _⟩
      exact (Function.update_of_ne hlast ..).trans <| hq.others i fun hin =>
        hi ⟨hin.1, Nat.lt_succ_of_lt hin.2⟩
    · simp only [hq.used, Nat.sub_sub]

lemma freeContiguous_spec (first count : ℕ) (hpos : 0 < count)
    (hbound : first + count ≤ p.totalPages) (hused : ∀ i, InRun first count i → p.inUse i = true) :
    ∃ q, p.freeContiguous first count = some q ∧ Frees p q first count := by
  obtain ⟨q, hfold, hq⟩ := release_spec count hbound hused
  refine ⟨{ q with searchHint := min q.searchHint first }, ?_, hq.total, hq.freed, hq.others,
    hq.used⟩
  rw [freeContiguous, if_neg (by omega), hfold]
  rfl

lemma Frees.freed_one (h : Frees p q f 1) : q.inUse f = false := h.freed f (inRun_one.mpr rfl)

lemma Frees.others_one {g : ℕ} (h : Frees p q f 1) (hg : g ≠ f) : q.inUse g = p.inUse g :=
  h.others g fun hin => hg (inRun_one.mp hin)

lemma freePage_spec (hbound : f < p.totalPages) (hused : p.inUse f = true) :
    ∃ q, p.freePage f = some q ∧ Frees p q f 1 :=
  freeContiguous_spec f 1 Nat.one_pos hbound fun _ hi => inRun_one.mp hi ▸ hused

end PageAllocator
end ShitOs
