import ShitOs.Construction.BootMemory
import ShitOs.Properties.Physical

/-!
# Which pages the kernel believes to be free after boot

A page may be handed out if it lies wholly inside memory the firmware calls usable, and neither
another entry of the memory map nor the kernel image, a boot module or the bitmap reaches into it.

`physical_initialize` first marks the pages of the usable regions free and then carves out the
kernel image, the modules, the bitmap and page zero.  `FreeIs` follows the set of free pages through
these loops, and `physicalInitialize_free` says what it is at the end.  `apply_to_range` rounds
outward, so a page that is usable only in part is marked free as well; regions of another kind are
never looked at; and what the table of regions has no room for is not carved out.

So the free pages are safe for exactly those memory maps in which none of this matters:
`free_pages_safe_iff`.  `MapSound` is about the map, the image and the modules, and by `BitmapAt`
about where the bitmap goes (`findBitmap_spec`).
-/

namespace ShitOs

open BitVec (le_def ofNat toNat_udiv)
open Kstd BootInfo

/-! ## Ranges of pages -/

/-- The pages `apply_to_range` applies its operation to: those the range touches, unless the end of
the range, or its rounding, wraps. -/
def InPages (base length : U64) (page : ℕ) : Prop :=
  length ≠ 0 ∧ base.toNat / 4096 ≤ page ∧
    page < ((base.toNat + length.toNat) % 2 ^ 64 + 4095) % 2 ^ 64 / 4096

instance (base length : U64) (page : ℕ) : Decidable (InPages base length page) := by
  unfold InPages
  infer_instance

/-- A byte of a range that does not wrap is in one of its pages. -/
lemma inPages_of_mem {base len : U64} {a : ℕ} (hfits : base.toNat + len.toNat + 4095 < 2 ^ 64)
    (hbase : base.toNat ≤ a) (hend : a < base.toNat + len.toNat) : InPages base len (a / 4096) := by
  refine ⟨?_, by omega, ?_⟩
  · rintro rfl
    simp at hend
    omega
  · rw [Nat.mod_eq_of_lt (by omega), Nat.mod_eq_of_lt (by omega)]
    omega

namespace PageAllocator

variable {p : PageAllocator} {base len : U64} {i : ℕ}

lemma applyToRange_eq (htotal : p.totalPages < 2 ^ 64)
    (operation : PageAllocator → ℕ → ℕ → PageAllocator) (hnone : ∀ first, operation p first 0 = p) :
    p.applyToRange base len operation =
      operation p (base.toNat / 4096)
        (if len = 0 then 0
          else min (((base.toNat + len.toNat) % 2 ^ 64 + 4095) % 2 ^ 64 / 4096) p.totalPages -
            base.toNat / 4096) := by
  unfold applyToRange
  have hfirst : (alignDown base 4096 / 4096).toNat = base.toNat / 4096 := by
    rw [toNat_udiv, toNat_alignDown]
    exact Nat.mul_div_cancel _ (by decide)
  have hlast : (alignUp (base + len) 4096 / 4096).toNat =
      ((base.toNat + len.toNat) % 2 ^ 64 + 4095) % 2 ^ 64 / 4096 := by
    rw [toNat_udiv, toNat_alignUp, BitVec.toNat_add]
    exact Nat.mul_div_cancel _ (by decide)
  dsimp only
  generalize alignDown base 4096 / 4096 = first at *
  generalize alignUp (base + len) 4096 / 4096 = last at *
  have hsum : first + (Kstd.min last (ofNat 64 p.totalPages) - first) =
      Kstd.min last (ofNat 64 p.totalPages) := by
    rw [BitVec.add_comm, BitVec.sub_add_cancel]
  have hmin : (Kstd.min last (ofNat 64 p.totalPages)).toNat = min last.toNat p.totalPages := by
    unfold Kstd.min
    have htoNat : (ofNat 64 p.totalPages).toNat = p.totalPages := by
      rw [BitVec.toNat_ofNat, Nat.mod_eq_of_lt htotal]
    split_ifs with hlt <;> rw [BitVec.lt_def, htoNat] at hlt <;> omega
  rw [hsum, hmin, hfirst, hlast]
  split_ifs with hzero hout
  · rw [hnone]
  · rw [Nat.sub_eq_zero_of_le (le_trans (min_le_right _ _) hout), hnone]
  · rfl

lemma inRun_succ {first count : ℕ} :
    InRun first (count + 1) i ↔ i = first ∨ InRun (first + 1) count i := by
  unfold InRun
  omega

/-- The operation leaves the pages of a run in one state, and the others as they are. -/
structure Marks (operation : PageAllocator → ℕ → ℕ → PageAllocator) (used : Bool) : Prop where
  none : ∀ p first, operation p first 0 = p
  run : ∀ p first count, (operation p first count).totalPages = p.totalPages ∧
    ∀ i, (operation p first count).inUse i =
      if InRun first count i ∧ i < p.totalPages then used else p.inUse i

lemma Marks.of_step {f : PageAllocator → ℕ → PageAllocator} {used : Bool}
    (hstep : ∀ p j, (f p j).totalPages = p.totalPages ∧
      ∀ i, (f p j).inUse i = if i = j ∧ i < p.totalPages then used else p.inUse i) :
    Marks (fun p first count => (List.range' first count).foldl f p) used := by
  refine ⟨fun _ _ => rfl, fun p first count => ?_⟩
  induction count generalizing first p with
  | zero =>
    refine ⟨rfl, fun i => ?_⟩
    simp [InRun]
  | succ n ih =>
    rw [List.range'_succ, List.foldl_cons]
    obtain ⟨htotal, hinUse⟩ := ih (f p first) (first + 1)
    refine ⟨htotal.trans (hstep p first).1, fun i => ?_⟩
    rw [hinUse, (hstep p first).1, (hstep p first).2]
    grind [inRun_succ]

lemma Marks.markFree : Marks PageAllocator.markFree false := by
  refine Marks.of_step fun p j => ?_
  split_ifs with hj
  · refine ⟨rfl, fun i => ?_⟩
    grind [Function.update_apply]
  · grind

lemma Marks.markUsed : Marks PageAllocator.markUsed true := by
  refine Marks.of_step fun p j => ?_
  split_ifs with hj
  · refine ⟨rfl, fun i => ?_⟩
    change Function.update p.inUse j true i = _
    grind [Function.update_apply]
  · grind

lemma inRun_pages (htotal : i < p.totalPages) : InRun (base.toNat / 4096)
    (if len = 0 then 0
          else min (((base.toNat + len.toNat) % 2 ^ 64 + 4095) % 2 ^ 64 / 4096) p.totalPages -
            base.toNat / 4096) i ↔ InPages base len i := by
  unfold InRun InPages
  split_ifs with hzero
  · simp [hzero]
  · simp only [hzero, ne_eq, not_false_eq_true, true_and]
    omega

/-- There are `n` pages, and the free ones are those in `F`. -/
structure FreeIs (p : PageAllocator) (n : ℕ) (F : ℕ → Prop) : Prop where
  total : p.totalPages = n
  free : ∀ i, p.inUse i = false ↔ F i

section FreeIs

variable {n : ℕ} {F : ℕ → Prop} {operation : PageAllocator → ℕ → ℕ → PageAllocator} {used : Bool}

lemma FreeIs.applyToRange (h : FreeIs p n F) (hop : Marks operation used) (hn : n < 2 ^ 64)
    (base len : U64) : FreeIs (p.applyToRange base len operation) n
      fun i => ¬ (i < n ∧ InPages base len i) ∧ F i ∨ (i < n ∧ InPages base len i) ∧
        used = false := by
  obtain ⟨rfl, hfree⟩ := h
  rw [applyToRange_eq hn _ (hop.none p)]
  refine ⟨(hop.run p _ _).1, fun i => ?_⟩
  rw [(hop.run p _ _).2 i]
  grind [inRun_pages]

lemma FreeIs.foldl (hop : Marks operation used) (hn : n < 2 ^ 64) (Q : MemoryRegion → Prop)
    [DecidablePred Q] (regions : List MemoryRegion) :
    ∀ {p : PageAllocator} {F : ℕ → Prop}, FreeIs p n F → FreeIs (regions.foldl (fun p region =>
        if Q region then p.applyToRange region.base region.length operation else p) p) n
      fun i => ¬ (i < n ∧ ∃ region ∈ regions, Q region ∧ InPages region.base region.length i) ∧
        F i ∨
        (i < n ∧ ∃ region ∈ regions, Q region ∧ InPages region.base region.length i) ∧
          used = false := by
  induction regions with
  | nil =>
    intro p F h
    simpa using h
  | cons region regions ih =>
    intro p F h
    rw [List.foldl_cons]
    by_cases hkind : Q region
    · rw [if_pos hkind]
      obtain ⟨htotal, hfree⟩ := ih (h.applyToRange hop hn region.base region.length)
      refine ⟨htotal, fun i => (hfree i).trans ?_⟩
      rw [List.exists_mem_cons_iff]
      generalize (∃ x ∈ regions, Q x ∧ InPages x.base x.length i) = later
      tauto
    · rw [if_neg hkind]
      obtain ⟨htotal, hfree⟩ := ih h
      refine ⟨htotal, fun i => (hfree i).trans ?_⟩
      rw [List.exists_mem_cons_iff]
      generalize (∃ x ∈ regions, Q x ∧ InPages x.base x.length i) = later
      tauto

end FreeIs

end PageAllocator

namespace BootInfo

lemma totalPages_lt (regions : List MemoryRegion) : totalPages regions < 2 ^ 64 := BitVec.isLt _

lemma physicalInitialize_free {info : BootInfo} {p : PageAllocator} {bitmapPhys : U64}
    (hinit : info.physicalInitialize = some (p, bitmapPhys)) :
    findBitmap info.memoryRegions info.memoryRegions = some bitmapPhys ∧
      p.FreeIs (totalPages info.memoryRegions) fun i =>
        i < totalPages info.memoryRegions ∧ i ≠ 0 ∧
        (∃ region ∈ info.memoryRegions, region.kind = .Usable ∧
          InPages region.base region.length i) ∧
        (∀ region ∈ info.memoryRegions, region.kind.isCarved →
          ¬ InPages region.base region.length i) ∧
        ¬ InPages bitmapPhys (bitmapBytes info.memoryRegions) i := by
  unfold physicalInitialize at hinit
  dsimp only at hinit
  split at hinit
  case h_1 => cases hinit
  case h_2 b hfound =>
    obtain ⟨rfl, rfl⟩ : _ = p ∧ b = bitmapPhys := by simpa using hinit
    have hn := totalPages_lt info.memoryRegions
    have htaken : PageAllocator.FreeIs ⟨totalPages info.memoryRegions, fun _ => true,
        totalPages info.memoryRegions, 0⟩ (totalPages info.memoryRegions) fun _ => False :=
      ⟨rfl, fun _ => by simp⟩
    have husable := PageAllocator.FreeIs.foldl .markFree hn
      (fun region => region.kind = .Usable) info.memoryRegions htaken
    have hcarved := PageAllocator.FreeIs.foldl .markUsed hn
      (fun region => region.kind.isCarved = true) info.memoryRegions husable
    obtain ⟨htotal, hfree⟩ := (hcarved.applyToRange .markUsed hn b
      (bitmapBytes info.memoryRegions)).applyToRange .markUsed hn 0 4096
    refine ⟨hfound, htotal, fun i => (hfree i).trans ?_⟩
    have hzero : InPages 0 4096 i ↔ i = 0 := by
      simp [InPages]
    simp only [hzero, Bool.true_eq_false, and_true, and_false, or_false, not_and, not_exists]
    tauto

end BootInfo

/-! ## The table of regions -/

/-- All entries of the memory map. -/
def memoryMap (tags : List BootTag) : List MmapEntry :=
  tags.flatMap fun
    | .mmapTag entries => entries
    | _ => []

/-- All boot modules. -/
def bootModules (tags : List BootTag) : List BootModule :=
  tags.flatMap fun
    | .moduleTag modStart modEnd => [⟨modStart.setWidth 64, modEnd.setWidth 64⟩]
    | _ => []

def MmapEntry.region (entry : MmapEntry) : MemoryRegion :=
  ⟨entry.addr, entry.len, kindFromMultiboot entry.type⟩

def KernelImage.region (image : KernelImage) : MemoryRegion :=
  ⟨KERNEL_LMA, image.finish - KERNEL_LMA, .KernelImage⟩

def BootModule.region (m : BootModule) : MemoryRegion :=
  ⟨m.physStart, m.physEnd - m.physStart, .BootModule⟩

/-- What the table of regions has room for: the entries of the map come first, then the kernel
image, then the first few modules. -/
def regionTable (image : KernelImage) (tags : List BootTag) : List MemoryRegion :=
  (((memoryMap tags).map MmapEntry.region ++
    image.region :: ((bootModules tags).take MAX_BOOT_MODULES).map BootModule.region).filter
      (·.length ≠ 0)).take MAX_MEMORY_REGIONS

namespace BootInfo

variable {info : BootInfo} {added : List MemoryRegion}

/-- The table after `added` have been added to it in order. -/
def Recorded (info : BootInfo) (added : List MemoryRegion) : Prop :=
  info.memoryRegions = (added.filter (·.length ≠ 0)).take MAX_MEMORY_REGIONS

lemma Recorded.addRegion (h : Recorded info added) (base len : U64) (kind : MemoryKind) :
    Recorded (info.addRegion base len kind) (added ++ [⟨base, len, kind⟩]) := by
  unfold Recorded at h ⊢
  unfold BootInfo.addRegion
  have hlen := congrArg List.length h
  rw [List.length_take] at hlen
  rw [List.filter_append]
  by_cases hcase : len = 0 ∨ MAX_MEMORY_REGIONS ≤ info.memoryRegions.length
  · rw [if_pos hcase]
    rcases hcase with rfl | hfull
    · simpa using h
    · rw [List.take_append_of_le_length (by omega)]
      exact h
  · rw [if_neg hcase]
    obtain ⟨hnonempty, hroom⟩ := not_or.mp hcase
    have hshort : (added.filter (·.length ≠ 0)).length < MAX_MEMORY_REGIONS := by omega
    rw [List.filter_cons_of_pos (by simpa using hnonempty), List.filter_nil, List.take_of_length_le
      (by rw [List.length_append]; exact hshort), h, List.take_of_length_le hshort.le]

lemma addRegion_frame (info : BootInfo) (base len : U64) (kind : MemoryKind) :
    (info.addRegion base len kind).modules = info.modules ∧
      (info.addRegion base len kind).kernelPhysStart = info.kernelPhysStart ∧
      (info.addRegion base len kind).kernelPhysEnd = info.kernelPhysEnd := by
  unfold BootInfo.addRegion
  split_ifs <;> exact ⟨rfl, rfl, rfl⟩

lemma Recorded.foldl {α : Type} (f : α → MemoryRegion) (xs : List α) :
    ∀ {info : BootInfo} {added : List MemoryRegion}, Recorded info added →
    let info' := xs.foldl (fun out x => out.addRegion (f x).base (f x).length (f x).kind) info
    Recorded info' (added ++ xs.map f) ∧ info'.modules = info.modules ∧
      info'.kernelPhysStart = info.kernelPhysStart ∧ info'.kernelPhysEnd = info.kernelPhysEnd := by
  induction xs with
  | nil =>
    intro info added h
    simpa using h
  | cons x xs ih =>
    intro info added h
    obtain ⟨hrec, hframe⟩ := ih (h.addRegion (f x).base (f x).length (f x).kind)
    obtain ⟨hmodules, hstart, hend⟩ := addRegion_frame info (f x).base (f x).length (f x).kind
    rw [hmodules, hstart, hend] at hframe
    refine ⟨?_, hframe⟩
    rw [List.append_assoc] at hrec
    exact hrec

lemma Recorded.parseTags (tags : List BootTag) :
    ∀ {info : BootInfo} {added : List MemoryRegion} (seen : List BootModule), Recorded info added →
    info.modules = seen.take MAX_BOOT_MODULES →
    let info' := tags.foldl parseTag info
    Recorded info' (added ++ (memoryMap tags).map MmapEntry.region) ∧
      info'.modules = (seen ++ bootModules tags).take MAX_BOOT_MODULES ∧
      info'.kernelPhysStart = info.kernelPhysStart ∧ info'.kernelPhysEnd = info.kernelPhysEnd := by
  induction tags with
  | nil =>
    intro info added seen h hseen
    simpa [memoryMap, bootModules] using ⟨h, hseen⟩
  | cons tag tags ih =>
    intro info added seen h hseen
    rw [List.foldl_cons]
    cases tag with
    | moduleTag modStart modEnd =>
      have hlen := congrArg List.length hseen
      rw [List.length_take] at hlen
      have hstep : (info.parseTag (.moduleTag modStart modEnd)).modules =
          (seen ++ [(⟨modStart.setWidth 64, modEnd.setWidth 64⟩ : BootModule)]).take
            MAX_BOOT_MODULES := by
        unfold BootInfo.parseTag
        split_ifs with hroom
        · rw [List.take_of_length_le (by simp; omega), hseen, List.take_of_length_le (by omega)]
        · rw [List.take_append_of_le_length (by omega)]
          exact hseen
      have hrec : Recorded (info.parseTag (.moduleTag modStart modEnd)) added := by
        unfold BootInfo.parseTag
        dsimp only
        split_ifs <;> exact h
      obtain ⟨hrec', hmodules, hstart, hend⟩ := ih _ hrec hstep
      refine ⟨hrec', ?_, hstart.trans ?_, hend.trans ?_⟩
      · rw [hmodules, List.append_assoc]
        rfl
      all_goals
        unfold BootInfo.parseTag
        split_ifs <;> rfl
    | mmapTag entries =>
      obtain ⟨hrec, hmodules, hstart, hend⟩ := h.foldl MmapEntry.region entries
      obtain ⟨hrec', hmodules', hstart', hend'⟩ := ih _ hrec (hmodules.trans hseen)
      refine ⟨?_, hmodules', hstart'.trans hstart, hend'.trans hend⟩
      rw [List.append_assoc, ← List.map_append] at hrec'
      exact hrec'
    | other => exact ih _ h hseen

lemma parseMultiboot2_regions {magic : BitVec 32} {image : KernelImage} {tags : List BootTag}
    (hparse : parseMultiboot2 magic image tags = some info) :
    info.memoryRegions = regionTable image tags := by
  unfold parseMultiboot2 at hparse
  split_ifs at hparse
  cases hparse
  have hempty : Recorded ⟨[], 0, 0, [], KERNEL_LMA, image.finish⟩ [] := rfl
  obtain ⟨htags, hmodules, hstart, hend⟩ := hempty.parseTags tags [] rfl
  refine ((htags.addRegion _ _ .KernelImage).foldl BootModule.region _).1.trans ?_
  rw [(addRegion_frame _ _ _ _).1, hmodules, hstart, hend, List.append_assoc]
  rfl

/-! ## Where the bitmap goes -/

/-- The first of the page addresses from `start` on that are clear of the kernel image and the
modules is `bitmapPhys`, and up to there the bitmap does not reach beyond the region. -/
def FirstClear (regions : List MemoryRegion) (region : MemoryRegion) (start bitmapPhys : U64) :
    Prop :=
  ∃ k : ℕ, bitmapPhys = start + ofNat 64 (4096 * k) ∧
    rangeIsClear regions bitmapPhys (bitmapBytes regions) ∧
    (∀ j ≤ k, start + ofNat 64 (4096 * j) + bitmapBytes regions ≤ region.base + region.length) ∧
    ∀ j < k, ¬ rangeIsClear regions (start + ofNat 64 (4096 * j)) (bitmapBytes regions)

/-- A usable region has room for the bitmap, and `bitmapPhys` is its first place. -/
def Offers (regions : List MemoryRegion) (region : MemoryRegion) (bitmapPhys : U64) : Prop :=
  region.kind = .Usable ∧ bitmapBytes regions ≤ region.length ∧
    FirstClear regions region (alignUp (Kstd.max region.base 0x100000) 4096) bitmapPhys

/-- The first region with room for the bitmap offers the place `bitmapPhys`. -/
def FirstOffer (regions : List MemoryRegion) : List MemoryRegion → U64 → Prop
  | [], _ => False
  | region :: rest, bitmapPhys =>
    Offers regions region bitmapPhys ∨
      ((∀ b, ¬ Offers regions region b) ∧ FirstOffer regions rest bitmapPhys)

/-- Where the bitmap has to go. -/
def BitmapAt (regions : List MemoryRegion) (bitmapPhys : U64) : Prop :=
  FirstOffer regions regions bitmapPhys

variable {regions : List MemoryRegion} {region : MemoryRegion} {b b' : U64}

lemma FirstClear.unique {start : U64} (h : FirstClear regions region start b)
    (h' : FirstClear regions region start b') : b = b' := by
  obtain ⟨k, rfl, hclear, -, hbefore⟩ := h
  obtain ⟨k', rfl, hclear', -, hbefore'⟩ := h'
  rcases lt_trichotomy k k' with hlt | rfl | hlt
  · exact absurd hclear (hbefore' k hlt)
  · rfl
  · exact absurd hclear' (hbefore k' hlt)

lemma FirstOffer.unique : ∀ {rest : List MemoryRegion}, FirstOffer regions rest b →
    FirstOffer regions rest b' → b = b'
  | _ :: _, .inl h, .inl h' => h.2.2.unique h'.2.2
  | _ :: _, .inl h, .inr h' => absurd h (h'.1 _)
  | _ :: _, .inr h, .inl h' => absurd h' (h.1 _)
  | _ :: _, .inr h, .inr h' => h.2.unique h'.2

lemma firstClear_next {start : U64}
    (hbound : start + bitmapBytes regions ≤ region.base + region.length)
    (hclear : ¬ rangeIsClear regions start (bitmapBytes regions)) :
    FirstClear regions region start b ↔ FirstClear regions region (start + 4096) b := by
  have hshift : ∀ k : ℕ, start + ofNat 64 (4096 * (k + 1)) =
      start + 4096 + ofNat 64 (4096 * k) := fun k => by
    rw [Nat.mul_succ, Nat.add_comm, BitVec.ofNat_add, ← BitVec.add_assoc, BitVec.ofNat_eq_ofNat]
  have hzero : start + ofNat 64 (4096 * 0) = start := by simp
  constructor
  · rintro ⟨k, hb, hfound, hbounds, hbefore⟩
    obtain _ | k := k
    · rw [hzero] at hb
      exact absurd (hb ▸ hfound) hclear
    · refine ⟨k, hb.trans (hshift k), hfound, fun j hj => ?_, fun j hj => ?_⟩
      · rw [← hshift]
        exact hbounds (j + 1) (by omega)
      · rw [← hshift]
        exact hbefore (j + 1) (by omega)
  · rintro ⟨k, hb, hfound, hbounds, hbefore⟩
    refine ⟨k + 1, hb.trans (hshift k).symm, hfound, fun j hj => ?_, fun j hj => ?_⟩
    · obtain _ | j := j
      · rwa [hzero]
      · rw [hshift]
        exact hbounds j (by omega)
    · obtain _ | j := j
      · rwa [hzero]
      · rw [hshift]
        exact hbefore j (by omega)

lemma searchRegion_spec (regions : List MemoryRegion) (region : MemoryRegion) :
    ∀ (fuel : ℕ) (start : U64),
    (∀ b, searchRegion regions region fuel start = .found b → FirstClear regions region start b) ∧
      (searchRegion regions region fuel start = .full → ∀ b, ¬ FirstClear regions region start b)
  | 0, start => by simp [searchRegion]
  | fuel + 1, start => by
    have hzero : start + ofNat 64 (4096 * 0) = start := by simp
    unfold searchRegion
    split_ifs with hbound hclear
    · refine ⟨fun b hb => ?_, nofun⟩
      obtain rfl := RegionSearch.found.inj hb
      refine ⟨0, hzero.symm, hclear, fun j hj => ?_, nofun⟩
      rwa [Nat.le_zero.mp hj, hzero]
    · simp only [firstClear_next hbound hclear]
      exact searchRegion_spec regions region fuel (start + 4096)
    · refine ⟨nofun, fun _ b hb => ?_⟩
      obtain ⟨k, -, -, hbounds, -⟩ := hb
      exact hbound (hzero ▸ hbounds 0 (Nat.zero_le k))

lemma findBitmap_spec : ∀ {rest : List MemoryRegion}, findBitmap regions rest = some b →
    FirstOffer regions rest b
  | [], h => by simp [findBitmap] at h
  | region :: rest, h => by
    unfold findBitmap at h
    split_ifs at h with hskip
    · refine .inr ⟨fun b hoffers => ?_, findBitmap_spec h⟩
      rcases hskip with hkind | hshort
      · exact hkind hoffers.1
      · exact absurd hshort (BitVec.not_lt.mpr hoffers.2.1)
    · obtain ⟨hkind, hlong⟩ := not_or.mp hskip
      obtain ⟨hfound, hfull⟩ := searchRegion_spec regions region (2 ^ 52)
        (alignUp (Kstd.max region.base 0x100000) 4096)
      split at h
      case h_1 b' hsearch =>
        cases h
        exact .inl ⟨not_not.mp hkind, BitVec.not_lt.mp hlong, hfound _ hsearch⟩
      case h_2 hsearch =>
        exact .inr ⟨fun b hoffers => hfull hsearch b hoffers.2.2, findBitmap_spec h⟩
      case h_3 => cases h

end BootInfo

/-! ## Safety -/

/-- The entry says something about the byte at `a`. -/
def MmapEntry.Covers (entry : MmapEntry) (a : ℕ) : Prop :=
  entry.addr.toNat ≤ a ∧ a < entry.addr.toNat + entry.len.toNat

instance (entry : MmapEntry) (a : ℕ) : Decidable (entry.Covers a) :=
  inferInstanceAs (Decidable (_ ∧ _))

def MmapEntry.IsUsable (entry : MmapEntry) : Prop := kindFromMultiboot entry.type = .Usable

instance (entry : MmapEntry) : Decidable entry.IsUsable := inferInstanceAs (Decidable (_ = _))

def KernelImage.Covers (image : KernelImage) (a : ℕ) : Prop :=
  KERNEL_LMA.toNat ≤ a ∧ a < image.finish.toNat

def BootModule.Covers (m : BootModule) (a : ℕ) : Prop := m.physStart.toNat ≤ a ∧ a < m.physEnd.toNat

/-- Every byte of page `i` may be handed out. -/
structure SafePage (image : KernelImage) (tags : List BootTag) (p : PageAllocator)
    (bitmapPhys : U64) (i : ℕ) : Prop where
  usable : ∀ a, a / 4096 = i → ∃ entry ∈ memoryMap tags, entry.IsUsable ∧ entry.Covers a
  alone : ∀ a, a / 4096 = i → ∀ entry ∈ memoryMap tags, ¬ entry.IsUsable → ¬ entry.Covers a
  image : ∀ a, a / 4096 = i → ¬ image.Covers a
  modules : ∀ a, a / 4096 = i → ∀ m ∈ bootModules tags, ¬ m.Covers a
  bitmap : ∀ a, a / 4096 = i →
    ¬ (bitmapPhys.toNat ≤ a ∧ a < bitmapPhys.toNat + p.bitmapWords * 8)
  nonzero : i ≠ 0

/-- Page `i` is touched by a usable region of the table, but not by what is carved out of those. -/
structure HandedOut (regions : List MemoryRegion) (i : ℕ) : Prop where
  inside : i < BootInfo.totalPages regions
  nonzero : i ≠ 0
  usable : ∃ region ∈ regions, region.kind = .Usable ∧ InPages region.base region.length i
  carved : ∀ region ∈ regions, region.kind.isCarved → ¬ InPages region.base region.length i
  bitmap : ∀ b, BootInfo.BitmapAt regions b → ¬ InPages b (BootInfo.bitmapBytes regions) i

/-- What a memory map has to be like.  Pages that usable regions touch are wholly usable and touched
by no other entry, unless they are carved out; and what the table of regions has no room for is not
in such a page.  The last field is about a bitmap that reaches around the end of the address space.
-/
structure MapSound (image : KernelImage) (tags : List BootTag) : Prop where
  usable : ∀ i, HandedOut (regionTable image tags) i →
    ∀ a, a / 4096 = i → ∃ entry ∈ memoryMap tags, entry.IsUsable ∧ entry.Covers a
  alone : ∀ i, HandedOut (regionTable image tags) i →
    ∀ a, a / 4096 = i → ∀ entry ∈ memoryMap tags, ¬ entry.IsUsable → ¬ entry.Covers a
  kernel : image.region ∉ regionTable image tags → ∀ i, HandedOut (regionTable image tags) i →
    ∀ a, a / 4096 = i → ¬ image.Covers a
  modules : ∀ m ∈ bootModules tags, m.region ∉ regionTable image tags →
    ∀ i, HandedOut (regionTable image tags) i → ∀ a, a / 4096 = i → ¬ m.Covers a
  bitmap : ∀ b, BootInfo.BitmapAt (regionTable image tags) b →
    2 ^ 64 ≤ b.toNat + (BootInfo.bitmapBytes (regionTable image tags)).toNat + 4095 →
    ∀ i, HandedOut (regionTable image tags) i → ∀ a, a / 4096 = i →
      ¬ (b.toNat ≤ a ∧ a < b.toNat + (BootInfo.bitmapBytes (regionTable image tags)).toNat)

section Safety

variable {image : KernelImage} {tags : List BootTag} {i a : ℕ}

lemma KernelImage.not_covers (hhanded : HandedOut (regionTable image tags) (a / 4096))
    (hmem : image.region ∈ regionTable image tags) : ¬ image.Covers a := by
  rintro ⟨hstart, hend⟩
  have hlt : KERNEL_LMA.toNat < image.finish.toNat := image.nonempty
  have hle : image.finish.toNat ≤ 0x80000000 := image.linked
  have hlen : (image.finish - KERNEL_LMA).toNat = image.finish.toNat - KERNEL_LMA.toNat :=
    BitVec.toNat_sub_of_le (le_def.mpr hlt.le)
  have hpage : InPages KERNEL_LMA (image.finish - KERNEL_LMA) (a / 4096) :=
    inPages_of_mem (by omega) hstart (by omega)
  exact hhanded.carved _ hmem rfl hpage

lemma BootModule.not_covers {m : BootModule} (hm : m ∈ bootModules tags)
    (hhanded : HandedOut (regionTable image tags) (a / 4096))
    (hmem : m.region ∈ regionTable image tags) : ¬ m.Covers a := by
  rintro ⟨hstart, hend⟩
  have hle : m.physStart ≤ m.physEnd := by
    rw [le_def]
    omega
  have hlen : (m.physEnd - m.physStart).toNat = m.physEnd.toNat - m.physStart.toNat :=
    BitVec.toNat_sub_of_le hle
  have hlow : m.physEnd.toNat < 2 ^ 32 := by
    obtain ⟨tag, -, htag⟩ := List.mem_flatMap.mp hm
    cases tag with
    | moduleTag modStart modEnd =>
      obtain rfl := List.mem_singleton.mp htag
      simp only [BitVec.toNat_setWidth]
      omega
    | mmapTag entries => cases htag
    | other => cases htag
  have hpage : InPages m.physStart (m.physEnd - m.physStart) (a / 4096) :=
    inPages_of_mem (by omega) hstart (by omega)
  exact hhanded.carved _ hmem rfl hpage

lemma toNat_bitmapBytes (regions : List MemoryRegion) :
    (bitmapBytes regions).toNat = (totalPages regions + 63) / 64 * 8 := by
  have hlt : totalPages regions ≤ 2 ^ 52 := by
    have htotal : totalPages regions =
        (alignUp (highestUsable regions) 4096).toNat / 4096 := toNat_udiv
    omega
  unfold bitmapBytes
  rw [BitVec.toNat_ofNat, Nat.mod_eq_of_lt]
  · rfl
  · unfold BITS_PER_WORD
    omega

/-- **Which memory maps are safe.**  After parsing and `physical_initialize`, every page that the
bitmap marks free may be handed out, if and only if the memory map is sound. -/
theorem free_pages_safe_iff {magic : BitVec 32} {info : BootInfo} {p : PageAllocator}
    {bitmapPhys : U64} (hparse : BootInfo.parseMultiboot2 magic image tags = some info)
    (hinit : info.physicalInitialize = some (p, bitmapPhys)) :
    (∀ i < p.totalPages, p.inUse i = false → SafePage image tags p bitmapPhys i) ↔
      MapSound image tags := by
  obtain ⟨hfound, htotal, hfree⟩ := BootInfo.physicalInitialize_free hinit
  rw [BootInfo.parseMultiboot2_regions hparse] at hfound htotal hfree
  have hplace : BootInfo.BitmapAt (regionTable image tags) bitmapPhys :=
    BootInfo.findBitmap_spec hfound
  have hhanded : ∀ i, p.inUse i = false ↔ HandedOut (regionTable image tags) i := fun i => by
    rw [hfree]
    refine ⟨fun ⟨hlt, hpos, husable, hcarved, hbitmap⟩ =>
      ⟨hlt, hpos, husable, hcarved, fun b hb => ?_⟩, fun h =>
      ⟨h.inside, h.nonzero, h.usable, h.carved, h.bitmap _ hplace⟩⟩
    rwa [hb.unique hplace]
  have hbytes : p.bitmapWords * 8 = (BootInfo.bitmapBytes (regionTable image tags)).toNat := by
    rw [toNat_bitmapBytes, ← htotal]
    rfl
  constructor
  · intro h
    have hsafe : ∀ i, HandedOut (regionTable image tags) i → SafePage image tags p bitmapPhys i :=
      fun i hi => h i (htotal ▸ hi.inside) ((hhanded i).mpr hi)
    refine ⟨fun i hi => (hsafe i hi).usable, fun i hi => (hsafe i hi).alone,
      fun _ i hi => (hsafe i hi).image, fun m hm _ i hi a ha => (hsafe i hi).modules a ha m hm,
      fun b hb _ i hi a ha => ?_⟩
    rw [hb.unique hplace, ← hbytes]
    exact (hsafe i hi).bitmap a ha
  · intro h i _ hfree
    have hi := (hhanded i).mp hfree
    refine ⟨h.usable i hi, h.alone i hi, fun a ha => ?_, fun a ha m hm => ?_,
      fun a ha => ?_, hi.nonzero⟩
    · subst ha
      by_cases hmem : image.region ∈ regionTable image tags
      · exact KernelImage.not_covers hi hmem
      · exact h.kernel hmem _ hi a rfl
    · subst ha
      by_cases hmem : m.region ∈ regionTable image tags
      · exact BootModule.not_covers hm hi hmem
      · exact h.modules m hm hmem _ hi a rfl
    · rw [hbytes]
      by_cases hwraps : 2 ^ 64 ≤
          bitmapPhys.toNat + (BootInfo.bitmapBytes (regionTable image tags)).toNat + 4095
      · exact h.bitmap bitmapPhys hplace hwraps i hi a ha
      · rintro ⟨hstart, hend⟩
        subst ha
        exact hi.bitmap _ hplace (inPages_of_mem (by omega) hstart hend)

/-- A kernel image of 32 KiB. -/
def smallImage : KernelImage := ⟨0x108000, by decide, by decide⟩

/-- 64 KiB of memory behind the first MiB, a reserved page far above, and a module. -/
def pageAlignedMap : List BootTag :=
  [.mmapTag [⟨0x100000, 0x10000, 1⟩, ⟨0xFEC00000, 0x1000, 2⟩], .moduleTag 0x10A000 0x10B800]

lemma mapSound_pageAlignedMap : MapSound smallImage pageAlignedMap := by
  have htable : regionTable smallImage pageAlignedMap =
      [⟨0x100000, 0x10000, .Usable⟩, ⟨0xFEC00000, 0x1000, .Reserved⟩,
        ⟨0x100000, 0x8000, .KernelImage⟩, ⟨0x10A000, 0x1800, .BootModule⟩] := by decide +kernel
  have hrange : ∀ i, HandedOut (regionTable smallImage pageAlignedMap) i → 0x100 ≤ i ∧
    i < 0x110 := by
    intro i hi
    obtain ⟨region, hmem, hkind, -, hfirst, hlast⟩ := hi.usable
    rw [htable] at hmem
    obtain rfl : region = ⟨0x100000, 0x10000, .Usable⟩ := by
      simp only [List.mem_cons, List.not_mem_nil, or_false] at hmem
      rcases hmem with rfl | rfl | rfl | rfl
      · rfl
      all_goals cases hkind
    exact ⟨hfirst, hlast⟩
  refine ⟨fun i hi a ha => ?_, fun i hi a ha entry hentry husable => ?_, fun himage => ?_,
    fun m hm hmodule => ?_, fun b hb hwraps i hi a ha hbitmap => ?_⟩
  · have := hrange i hi
    refine ⟨⟨0x100000, 0x10000, 1⟩, by decide +kernel, rfl, ?_⟩
    show 0x100000 ≤ a ∧ a < 0x100000 + 0x10000
    omega
  · have := hrange i hi
    obtain rfl | rfl : entry = ⟨0x100000, 0x10000, 1⟩ ∨ entry = ⟨0xFEC00000, 0x1000, 2⟩ := by
      simpa [memoryMap, pageAlignedMap] using hentry
    · exact absurd rfl husable
    · rintro ⟨hstart, -⟩
      change 0xFEC00000 ≤ a at hstart
      omega
  · exact absurd (by rw [htable]; decide) himage
  · obtain rfl : m = ⟨0x10A000, 0x10B800⟩ := by simpa [bootModules, pageAlignedMap] using hm
    exact absurd (by rw [htable]; decide) hmodule
  · have := hrange i hi
    have hbytes : (bitmapBytes (regionTable smallImage pageAlignedMap)).toNat = 40 := by
      rw [htable]
      decide +kernel
    omega

/-- With this map the kernel boots, has free pages, and all of them may be handed out. -/
theorem free_pages_safe_pageAlignedMap : ∃ info p bitmapPhys,
    BootInfo.parseMultiboot2 MULTIBOOT2_BOOTLOADER_MAGIC smallImage pageAlignedMap = some info ∧
      info.physicalInitialize = some (p, bitmapPhys) ∧ p.inUse 0x109 = false ∧
      ∀ i < p.totalPages, p.inUse i = false → SafePage smallImage pageAlignedMap p
        bitmapPhys i := by
  have hboot :
    ((BootInfo.parseMultiboot2 MULTIBOOT2_BOOTLOADER_MAGIC smallImage pageAlignedMap).bind
      BootInfo.physicalInitialize).map (fun r => r.1.inUse 0x109) = some false := by decide +kernel
  obtain ⟨⟨p, bitmapPhys⟩, hboot, hfree⟩ := Option.map_eq_some_iff.mp hboot
  obtain ⟨info, hparse, hinit⟩ := Option.bind_eq_some_iff.mp hboot
  exact ⟨info, p, bitmapPhys, hparse, hinit, hfree,
    (free_pages_safe_iff hparse hinit).mpr mapSound_pageAlignedMap⟩

/-- The low memory of a PC, with the firmware's data area at its end, and 64 KiB above. -/
def biosMap : List BootTag :=
  [.mmapTag [⟨0, 0x9FC00, 1⟩, ⟨0x9FC00, 0x400, 2⟩, ⟨0x100000, 0x10000, 1⟩]]

/-- The page that the firmware's data area shares with usable memory is marked free. -/
theorem reserved_page_free : ∃ info p bitmapPhys,
    BootInfo.parseMultiboot2 MULTIBOOT2_BOOTLOADER_MAGIC smallImage biosMap = some info ∧
      info.physicalInitialize = some (p, bitmapPhys) ∧ 0x9F < p.totalPages ∧ p.inUse 0x9F = false ∧
      ¬ SafePage smallImage biosMap p bitmapPhys 0x9F := by
  have hboot : ((BootInfo.parseMultiboot2 MULTIBOOT2_BOOTLOADER_MAGIC smallImage biosMap).bind
      BootInfo.physicalInitialize).map (fun r => (r.1.totalPages, r.1.inUse 0x9F)) =
        some (0x110, false) := by decide +kernel
  obtain ⟨⟨p, bitmapPhys⟩, hboot, hpage⟩ := Option.map_eq_some_iff.mp hboot
  obtain ⟨info, hparse, hinit⟩ := Option.bind_eq_some_iff.mp hboot
  obtain ⟨htotal, hfree⟩ := Prod.mk.inj hpage
  refine ⟨info, p, bitmapPhys, hparse, hinit, ?_, hfree, fun hsafe => ?_⟩
  · show 0x9F < p.totalPages
    rw [show p.totalPages = 0x110 from htotal]
    decide
  · exact hsafe.alone 0x9FC00 rfl ⟨0x9FC00, 0x400, 2⟩ (by decide +kernel) (by decide) (by decide)

end Safety

end ShitOs
