import ShitOs.Construction.PageSystem
import ShitOs.Framework.Counting
import ShitOs.Properties.BootMemory
import ShitOs.Properties.Physical

/-!
# The page allocator over whole runs

Two facts about the allocator's variables hold after every call.  `s_used_pages` is the number of
bits that are set (`Tallied`), and no frame below `s_search_hint` is free.  The second is what makes
the hint sound: with it the first frame that `allocate_page` comes to is the lowest free one
(`search_lowest`), although the search begins at the hint.  `allocate_contiguous` does not use the
hint (`findRun_lowest`). `booted_allocator_right` begins with `physical_initialize`.
-/

namespace ShitOs

open PageAllocator

namespace PageAllocator

variable {p q : PageAllocator} {f : ℕ}

/-! ## The count of the frames in use -/

/-- The number of bits that are set below `s_total_pages`. -/
def setBits (p : PageAllocator) : ℕ :=
  Counting.count (Finset.range p.totalPages) (· = true) p.inUse

/-- `s_used_pages` is the number of bits that are set. -/
def Tallied (p : PageAllocator) : Prop := p.usedPages = p.setBits

lemma Tallied.take (h : p.Tallied) (hf : f < p.totalPages) (hfree : p.inUse f = false) :
    (p.take f).Tallied := by
  have hcnt := Counting.count_update (P := (· = true)) (f := p.inUse) (Finset.mem_range.mpr hf) true
  rw [hfree, if_neg (by decide), if_pos rfl] at hcnt
  unfold Tallied setBits at *
  simp only [PageAllocator.take]
  omega

lemma Tallied.release (h : p.Tallied) (hq : p.release f = some q) : q.Tallied := by
  unfold PageAllocator.release at hq
  split_ifs at hq with hf hused
  · cases hq
    have hcnt := Counting.count_update (P := (· = true)) (f := p.inUse)
      (Finset.mem_range.mpr hf) false
    rw [hused, if_pos rfl, if_neg (by decide)] at hcnt
    unfold Tallied setBits at *
    dsimp only
    omega
  · cases hq
    exact h

/-! ## The loops that set and clear bits -/

lemma Tallied.markUsed (h : p.Tallied) (first count : ℕ) :
    (p.markUsed first count).Tallied ∧ (p.markUsed first count).totalPages = p.totalPages ∧
      (p.markUsed first count).searchHint = p.searchHint ∧
      ∀ f, p.inUse f = true → (p.markUsed first count).inUse f = true := by
  unfold PageAllocator.markUsed
  generalize List.range' first count = frames
  induction frames generalizing p with
  | nil => exact ⟨h, rfl, rfl, fun _ hf => hf⟩
  | cons i frames ih =>
    rw [List.foldl_cons]
    split_ifs with hi
    · obtain ⟨htallied, htotal, hhint, hkeep⟩ := ih (h.take hi.1 hi.2)
      refine ⟨htallied, htotal, hhint, fun f hf => hkeep f ?_⟩
      by_cases heq : f = i
      · simp [heq, PageAllocator.take]
      · exact (Function.update_of_ne heq ..).trans hf
    · exact ih h

lemma reserveRange_eq (p : PageAllocator) (base len : U64) :
    ∃ first count, p.reserveRange base len = p.markUsed first count := by
  unfold reserveRange applyToRange
  by_cases hzero : len = 0
  · exact ⟨0, 0, by rw [if_pos hzero]; rfl⟩
  · rw [if_neg hzero]
    dsimp only
    split_ifs
    · exact ⟨0, 0, rfl⟩
    · exact ⟨_, _, rfl⟩

lemma Tallied.foldlM_release : ∀ {frames : List ℕ} {p q : PageAllocator}, p.Tallied →
    frames.foldlM PageAllocator.release p = some q → q.Tallied ∧ q.totalPages = p.totalPages ∧
      q.searchHint = p.searchHint ∧ ∀ f, f ∉ frames → q.inUse f = p.inUse f
  | [], p, q, h, hq => by
    obtain rfl : p = q := by simpa using hq
    exact ⟨h, rfl, rfl, fun _ _ => rfl⟩
  | i :: frames, p, q, h, hq => by
    rw [List.foldlM_cons, Option.bind_eq_bind, Option.bind_eq_some_iff] at hq
    obtain ⟨p₁, hp₁, hq⟩ := hq
    obtain ⟨htallied, htotal, hhint, hothers⟩ := foldlM_release (h.release hp₁) hq
    unfold PageAllocator.release at hp₁
    split_ifs at hp₁
    · cases hp₁
      refine ⟨htallied, htotal, hhint, fun f hf => ?_⟩
      obtain ⟨hfi, hf⟩ := not_or.mp (List.mem_cons.not.mp hf)
      rw [hothers f hf]
      exact Function.update_of_ne hfi ..
    · cases hp₁
      exact ⟨htallied, htotal, hhint, fun f hf => hothers f fun hmem =>
        hf (List.mem_cons_of_mem i hmem)⟩

/-! ## The lowest free frame -/

/-- The lowest frame that is free. -/
structure LowestFree (p : PageAllocator) (f : ℕ) : Prop where
  managed : f < p.totalPages
  free : p.inUse f = false
  lowest : ∀ g < f, p.inUse g = true

lemma search_lowest (hhint : ∀ g < p.searchHint, p.inUse g = true) (h : p.search = some f) :
    p.LowestFree f := by
  obtain ⟨hmanaged, hfree⟩ := search_spec h
  refine ⟨hmanaged, hfree, fun g hg => ?_⟩
  unfold search at h
  dsimp only at h
  split at h
  case h_1 index hfirst =>
    cases h
    by_cases hword : p.searchHint / BITS_PER_WORD * BITS_PER_WORD ≤ g
    · exact searchWords_passed hfirst hword hg
    · have := Nat.div_mul_le_self p.searchHint BITS_PER_WORD
      exact hhint g (by omega)
  case h_2 =>
    rw [List.range_eq_range'] at h
    exact searchWords_passed h (by omega) hg

end PageAllocator

/-! ## Runs -/

namespace PageSystem

variable {s s' : PageSystem} {count f first : ℕ} {pages : PageAllocator}

/-- What holds after every call. -/
structure Sound (s : PageSystem) : Prop where
  tallied : s.pages.Tallied
  hint : ∀ f < s.pages.searchHint, s.pages.inUse f = true
  handed : ∀ f, s.handedOut f = true → f < s.pages.totalPages ∧ s.pages.inUse f = true

lemma has_iff : s.has first count = true ↔ ∀ f, InRun first count f → s.handedOut f = true := by
  simp [has, InRun, List.mem_range'_1]

lemma handedOut_hand :
    (s.hand first count pages).handedOut f = true ↔ InRun first count f ∨ s.handedOut f = true := by
  simp [hand, InRun]

lemma Sound.hand (h : s.Sound) (htakes : s.pages.Takes pages first count) (htallied : pages.Tallied)
    (hhint : ∀ f < pages.searchHint, pages.inUse f = true) : (s.hand first count pages).Sound where
  tallied := htallied
  hint := hhint
  handed f hf := by
    have hbound := htakes.bound
    rcases handedOut_hand.mp hf with hin | hf
    · exact ⟨htakes.total ▸ lt_of_lt_of_le hin.2 hbound, htakes.taken f hin⟩
    · obtain ⟨hmanaged, hused⟩ := h.handed f hf
      refine ⟨htakes.total ▸ hmanaged, ?_⟩
      by_cases hin : InRun first count f
      · exact htakes.taken f hin
      · exact (htakes.others f hin).trans hused

lemma Sound.allocatePage (h : s.Sound) (hok : s.pages.allocatePage = .ok (f, pages)) :
    s.pages.LowestFree f ∧ (s.hand f 1 pages).Sound := by
  have htakes := allocatePage_spec hok
  unfold PageAllocator.allocatePage at hok
  split at hok
  case h_2 => cases hok
  case h_1 index hfound =>
    obtain ⟨rfl, rfl⟩ : index = f ∧ { s.pages.take index with searchHint := index + 1 } =
      pages := by
      simpa using hok
    have hlowest := search_lowest h.hint hfound
    refine ⟨hlowest, h.hand htakes (h.tallied.take hlowest.managed hlowest.free) fun g hg => ?_⟩
    by_cases heq : g = index
    · exact htakes.taken g (inRun_one.mpr heq)
    · rw [htakes.others_one heq]
      exact hlowest.lowest g (lt_of_le_of_ne (Nat.le_of_lt_succ hg) heq)

lemma Sound.allocateContiguous (h : s.Sound)
    (hok : s.pages.allocateContiguous count = .ok (first, pages)) :
    s.pages.LowestRun count first ∧ (s.hand first count pages).Sound := by
  obtain ⟨hpos, htakes⟩ := allocateContiguous_spec hok
  unfold PageAllocator.allocateContiguous at hok
  split_ifs at hok with hzero hone
  · subst hone
    obtain ⟨hlowest, hsound⟩ := h.allocatePage hok
    refine ⟨⟨⟨htakes.bound, htakes.free⟩, fun g hg hrun => ?_⟩, hsound⟩
    have := hrun.2 g (inRun_one.mpr rfl)
    rw [hlowest.lowest g hg] at this
    cases this
  · split at hok
    case h_2 => cases hok
    case h_1 start hfound =>
      obtain ⟨rfl, rfl⟩ : start = first ∧ s.pages.markUsed start count = pages := by simpa using hok
      obtain ⟨htallied, -, hhint, hkeep⟩ := h.tallied.markUsed start count
      refine ⟨findRun_lowest hpos hfound, h.hand htakes htallied fun f hf => ?_⟩
      rw [hhint] at hf
      exact hkeep f (h.hint f hf)

lemma Sound.giveBack (h : s.Sound) (hs' : s.giveBack first count = some s') : s'.Sound := by
  unfold PageSystem.giveBack at hs'
  split_ifs at hs' with hhas
  obtain ⟨pages, hfree, rfl⟩ := Option.map_eq_some_iff.mp hs'
  unfold freeContiguous at hfree
  split_ifs at hfree with hbeyond
  · cases hfree
    refine ⟨h.tallied, h.hint, fun f hf => h.handed f ?_⟩
    simp only [Bool.and_eq_true] at hf
    exact hf.2
  · obtain ⟨q, hfold, rfl⟩ := Option.map_eq_some_iff.mp hfree
    obtain ⟨htallied, htotal, hhint, hothers⟩ := h.tallied.foldlM_release hfold
    refine ⟨htallied, fun f hf => ?_, fun f hf => ?_⟩
    · change f < min q.searchHint first at hf
      rw [hhint] at hf
      change q.inUse f = true
      rw [hothers f fun hmem => ?_]
      · exact h.hint f (by omega)
      · have := (List.mem_range'_1.mp hmem).1
        omega
    · simp only [Bool.and_eq_true, Bool.not_eq_true', Bool.and_eq_false_iff,
        decide_eq_false_iff_not] at hf
      obtain ⟨hmanaged, hused⟩ := h.handed f hf.2
      refine ⟨htotal ▸ hmanaged, ?_⟩
      rw [hothers f fun hmem => ?_, hused]
      have := List.mem_range'_1.mp hmem
      omega

lemma Sound.reserveRange (h : s.Sound) (base len : U64) :
    Sound { s with pages := s.pages.reserveRange base len } := by
  obtain ⟨first, count, hmark⟩ := reserveRange_eq s.pages base len
  obtain ⟨htallied, htotal, hhint, hkeep⟩ := h.tallied.markUsed first count
  rw [hmark]
  refine ⟨htallied, fun f hf => hkeep f (h.hint f (hhint ▸ hf)), fun f hf => ?_⟩
  obtain ⟨hmanaged, hused⟩ := h.handed f hf
  exact ⟨htotal ▸ hmanaged, hkeep f hused⟩

lemma Sound.step {call : PageCall} (h : s.Sound) (hs' : s.step call = some s') : s'.Sound := by
  cases call with
  | allocatePage =>
    unfold PageSystem.step at hs'
    dsimp only at hs'
    split at hs'
    case h_1 frame pages hok => exact Option.some.inj hs' ▸ (h.allocatePage hok).2
    case h_2 => exact Option.some.inj hs' ▸ h
  | allocateContiguous count =>
    unfold PageSystem.step at hs'
    dsimp only at hs'
    split at hs'
    case h_1 first pages hok => exact Option.some.inj hs' ▸ (h.allocateContiguous hok).2
    case h_2 => exact Option.some.inj hs' ▸ h
  | freePage frame => exact h.giveBack hs'
  | freeContiguous first count => exact h.giveBack hs'
  | reserveRange base len => exact Option.some.inj hs' ▸ h.reserveRange base len

/-- The state that `physical_initialize` leaves: nothing has been handed out, and the hint is zero.
-/
structure Booted (s : PageSystem) : Prop where
  tallied : s.pages.Tallied
  hint : s.pages.searchHint = 0
  handed : ∀ f, s.handedOut f = false

lemma Booted.sound (h : s.Booted) : s.Sound where
  tallied := h.tallied
  hint f hf := by
    rw [h.hint] at hf
    omega
  handed f hf := by
    rw [h.handed f] at hf
    cases hf

/-- What is asked of the allocator. -/
structure Right (s : PageSystem) : Prop where
  /-- `s_used_pages` is the number of bits that are set. -/
  tallied : s.pages.usedPages = s.pages.setBits
  /-- Every page below the hint is in use. -/
  hint : ∀ f < s.pages.searchHint, s.pages.inUse f = true
  /-- `allocate_page` returns the lowest free page, and fails if and only if there is none. -/
  page : match s.pages.allocatePage with
    | .ok (f, _) => s.pages.LowestFree f
    | .error e => e = .ENOMEM ∧ ∀ f < s.pages.totalPages, s.pages.inUse f = true
  /-- `allocate_contiguous` returns the lowest run, and fails if and only if there is none. -/
  contiguous : ∀ count > 1, match s.pages.allocateContiguous count with
    | .ok (first, _) => s.pages.LowestRun count first
    | .error e => e = .ENOMEM ∧ ∀ first, ¬ s.pages.FreeRun count first
  /-- No page is handed out that somebody still has. -/
  once : ∀ first count, s.pages.FreeRun count first → ∀ f, InRun first count f →
    s.handedOut f = false
  /-- Giving back what one has does not panic. -/
  back : ∀ first count, s.has first count = true → (s.giveBack first count).isSome

lemma Sound.right (h : s.Sound) : s.Right where
  tallied := h.tallied
  hint := h.hint
  page := by
    cases hres : s.pages.allocatePage with
    | ok result => exact (h.allocatePage hres).1
    | error e => exact allocatePage_error hres
  contiguous count hcnt := by
    cases hres : s.pages.allocateContiguous count with
    | ok result => exact (h.allocateContiguous hres).1
    | error e =>
      unfold PageAllocator.allocateContiguous at hres
      rw [if_neg (by omega), if_neg (by omega)] at hres
      split at hres
      case h_1 => cases hres
      case h_2 hnone => exact ⟨(Except.error.inj hres).symm, findRun_lowest (by omega) hnone⟩
  once first count hrun f hf := by
    by_contra hhanded
    have := (h.handed f (by simpa using hhanded)).2
    rw [hrun.2 f hf] at this
    cases this
  back first count hhas := by
    have hused := has_iff.mp hhas
    rcases Nat.eq_zero_or_pos count with rfl | hpos
    · unfold PageSystem.giveBack PageAllocator.freeContiguous
      split_ifs <;> simp
    · have hlast := h.handed (first + count - 1) (hused _ ⟨by omega, by omega⟩)
      obtain ⟨q, hq, -⟩ := freeContiguous_spec first count hpos (by omega) fun i hi =>
        (h.handed i (hused i hi)).2
      rw [PageSystem.giveBack, if_pos hhas, hq]
      rfl

/-- **The page allocator is right after every run of calls**, from the state that
`physical_initialize` leaves. -/
theorem page_allocator_right (s₀ s : PageSystem) (calls : List PageCall) (hboot : s₀.Booted)
    (hrun : Transition.run step s₀ calls = some s) : s.Right :=
  (Transition.run_invariant (I := Sound) (fun _ _ _ h _ hs' => h.step hs') calls s₀ s hboot.sound
    (Transition.along_of_forall (C := fun _ _ => True) (fun _ _ => trivial) calls s₀) hrun).right

/-- Four pages, of which the first is in use. -/
def fourPages : PageSystem where
  pages := ⟨4, fun f => f = 0 || 4 ≤ f, 1, 0⟩
  handedOut _ := false

/-- A run with a page given back below the hint. -/
theorem page_allocator_right_fourPages : ∃ s,
    Transition.run step fourPages
      [.allocateContiguous 2, .allocatePage, .freePage 1, .reserveRange 0 8192,
      .freePage 2, .allocatePage] = some s ∧ s.Right ∧ s.pages.searchHint = 3 ∧
        s.pages.usedPages = 4 := by
  have hboot : fourPages.Booted := ⟨show 1 = fourPages.pages.setBits by decide, rfl, fun _ => rfl⟩
  exact Transition.exists_run_of_map (fun s => (s.pages.searchHint, s.pages.usedPages)) (3, 4)
    (by decide +kernel) fun s hs hend =>
      ⟨page_allocator_right fourPages s _ hboot hs, Prod.mk.inj hend⟩

end PageSystem

/-! ## The state after booting -/

namespace PageAllocator

variable {p : PageAllocator} {operation : PageAllocator → ℕ → ℕ → PageAllocator}

/-- What the loops of `physical_initialize` keep. -/
structure Unused (p : PageAllocator) : Prop where
  tallied : p.Tallied
  hint : p.searchHint = 0

lemma Unused.markUsed (h : p.Unused) (first count : ℕ) : (p.markUsed first count).Unused := by
  obtain ⟨htallied, -, hhint, -⟩ := h.tallied.markUsed first count
  exact ⟨htallied, hhint.trans h.hint⟩

lemma Unused.markFree (h : p.Unused) (first count : ℕ) : (p.markFree first count).Unused := by
  unfold PageAllocator.markFree
  generalize List.range' first count = frames
  induction frames generalizing p with
  | nil => exact h
  | cons i frames ih =>
    rw [List.foldl_cons]
    split_ifs with hi
    · refine ih ⟨h.tallied.release (f := i) ?_, h.hint⟩
      rw [PageAllocator.release, if_pos hi.1, if_pos hi.2]
    · exact ih h

lemma Unused.applyToRange (h : p.Unused)
    (hoperation : ∀ first count, (operation p first count).Unused) (base len : U64) :
    (p.applyToRange base len operation).Unused := by
  unfold PageAllocator.applyToRange
  by_cases hzero : len = 0
  · rwa [if_pos hzero]
  · rw [if_neg hzero]
    dsimp only
    split_ifs
    · exact h
    · exact hoperation _ _

lemma Unused.foldl (select : MemoryRegion → Prop) [DecidablePred select]
    (hoperation : ∀ p : PageAllocator, p.Unused → ∀ first count, (operation p first count).Unused) :
    ∀ (regions : List MemoryRegion) {p : PageAllocator}, p.Unused →
      (regions.foldl (fun p region =>
        if select region then p.applyToRange region.base region.length operation else p) p).Unused
  | [], _, h => h
  | region :: regions, p, h => by
    rw [List.foldl_cons]
    refine Unused.foldl select hoperation regions ?_
    split_ifs
    · exact h.applyToRange (hoperation p h) region.base region.length
    · exact h

end PageAllocator

/-- `physical_initialize` leaves such a state. -/
theorem BootInfo.physicalInitialize_booted {info : BootInfo} {p : PageAllocator} {bitmapPhys : U64}
    (h : info.physicalInitialize = some (p, bitmapPhys)) :
    PageSystem.Booted ⟨p, fun _ => false⟩ := by
  suffices hunused : p.Unused from ⟨hunused.tallied, hunused.hint, fun _ => rfl⟩
  unfold physicalInitialize at h
  dsimp only at h
  split at h
  case h_1 => cases h
  case h_2 =>
    cases h
    have hall : Unused ⟨totalPages info.memoryRegions, fun _ => true,
        totalPages info.memoryRegions, 0⟩ := by
      refine ⟨?_, rfl⟩
      simp [Tallied, setBits, Counting.count]
    have hfree := Unused.foldl (fun region => region.kind = .Usable) (fun _ h => h.markFree)
      info.memoryRegions hall
    have hused := Unused.foldl (fun region => region.kind.isCarved = true) (fun _ h => h.markUsed)
      info.memoryRegions hfree
    have hbitmap := hused.applyToRange hused.markUsed
    exact (hbitmap _ _).applyToRange (hbitmap _ _).markUsed _ _

/-! ## From boot on -/

namespace PageSystem

variable {s s' : PageSystem} {p pages : PageAllocator} {count first : ℕ}

/-- What was in use at boot still is, and is with nobody. -/
def Apart (p : PageAllocator) (s : PageSystem) : Prop :=
  ∀ f, p.inUse f = true → s.pages.inUse f = true ∧ s.handedOut f = false

lemma Apart.hand (h : s.Apart p) (htakes : s.pages.Takes pages first count) :
    (s.hand first count pages).Apart p := by
  intro f hf
  obtain ⟨hused, hhanded⟩ := h f hf
  have hout : ¬ InRun first count f := fun hin => by simp [htakes.free f hin] at hused
  refine ⟨(htakes.others f hout).trans hused, ?_⟩
  rw [Bool.eq_false_iff, Ne, handedOut_hand]
  simp [hout, hhanded]

lemma Apart.giveBack (h : s.Apart p) (hsound : s.Sound) (hs' : s.giveBack first count = some s') :
    s'.Apart p := by
  unfold PageSystem.giveBack at hs'
  split_ifs at hs' with hhas
  obtain ⟨pages, hfree, rfl⟩ := Option.map_eq_some_iff.mp hs'
  intro f hf
  obtain ⟨hused, hhanded⟩ := h f hf
  refine ⟨?_, by simp [hhanded]⟩
  unfold freeContiguous at hfree
  split_ifs at hfree
  · exact Option.some.inj hfree ▸ hused
  · obtain ⟨q, hfold, rfl⟩ := Option.map_eq_some_iff.mp hfree
    obtain ⟨-, -, -, hothers⟩ := hsound.tallied.foldlM_release hfold
    refine (hothers f fun hmem => ?_).trans hused
    -- the caller would have a frame that is with nobody
    simp [has_iff.mp hhas f (List.mem_range'_1.mp hmem)] at hhanded

lemma Apart.step {call : PageCall} (h : s.Apart p) (hsound : s.Sound)
    (hs' : s.step call = some s') : s'.Apart p := by
  cases call with
  | allocatePage =>
    unfold PageSystem.step at hs'
    dsimp only at hs'
    split at hs'
    case h_1 hok => exact Option.some.inj hs' ▸ h.hand (allocatePage_spec hok)
    case h_2 => exact Option.some.inj hs' ▸ h
  | allocateContiguous count =>
    unfold PageSystem.step at hs'
    dsimp only at hs'
    split at hs'
    case h_1 hok => exact Option.some.inj hs' ▸ h.hand (allocateContiguous_spec hok).2
    case h_2 => exact Option.some.inj hs' ▸ h
  | freePage frame => exact h.giveBack hsound hs'
  | freeContiguous first count => exact h.giveBack hsound hs'
  | reserveRange base len =>
    obtain rfl := Option.some.inj hs'
    obtain ⟨first, count, hmark⟩ := reserveRange_eq s.pages base len
    obtain ⟨-, -, -, hkeep⟩ := hsound.tallied.markUsed first count
    rw [hmark]
    exact fun f hf => ⟨hkeep f (h f hf).1, (h f hf).2⟩

end PageSystem

end ShitOs
