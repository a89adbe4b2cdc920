import Mathlib.Data.List.Basic
import ShitOs.Properties.AddressSpace

/-!
# Operations on ranges of pages

`unmap_range`, `protect` and `map_anonymous` go from page to page (`ensures_pages`).  On a range of
the user half each comes to an end, and its effect on the array of page table entries is the one on
each page of the range, up to where it stops.

When `map_anonymous` stops it unmaps everything from the start of its range to where it is.  That
takes away pages that were there before, and forgets the frames it has given to the others: of a
failing call nothing is left exactly if it fails at the first page (`mapAnonymous_all_or_nothing`).
-/

namespace ShitOs

open Function Kstd PageFlags Physical AddressSpace Program RadixTable

variable {first n : ℕ} {a len : U64} {α : Type}

/-! ## Ranges -/

/-- The address of a page. -/
def pageAddress (n : ℕ) : U64 := BitVec.ofNat 64 (n * 4096)

/-- The page after the last one that a range touches. -/
def pageEnd (a length : U64) : ℕ := (a.toNat + length.toNat + 4095) / 4096

lemma pageOf_pageAddress (hn : n < USER_PAGES) : pageOf (pageAddress n) = n := by
  unfold USER_PAGES at hn
  rw [pageOf, pageAddress, BitVec.toNat_ofNat]
  omega

lemma toNat_and_4095 (a : U64) : (a &&& 4095).toNat = a.toNat % 4096 := by
  rw [BitVec.toNat_and]
  exact Nat.and_two_pow_sub_one_eq_mod a.toNat 12

lemma pageOf_le_pageEnd (a len : U64) : pageOf a ≤ pageEnd a len := by
  unfold pageOf pageEnd
  omega

lemma pageEnd_le (h : a.toNat + len.toNat ≤ 2 ^ 47) : pageEnd a len ≤ USER_PAGES := by
  unfold pageEnd USER_PAGES
  omega

lemma pageRange_eq (h : a.toNat + len.toNat ≤ 2 ^ 47) :
    pageRange (alignDown a 4096) (alignUp (a + len) 4096) =
      (List.range' (pageOf a) (pageEnd a len - pageOf a)).map pageAddress := by
  have hcnt : ((alignUp (a + len) 4096).toNat - (alignDown a 4096).toNat) / PAGE_SIZE =
      pageEnd a len - pageOf a := by
    rw [toNat_alignUp, toNat_alignDown, BitVec.toNat_add, pageEnd, pageOf, PAGE_SIZE]
    omega
  rw [pageRange, hcnt, List.range'_eq_map_range, List.map_map]
  refine List.map_congr_left fun i hi => BitVec.eq_of_toNat_eq ?_
  rw [Function.comp_apply, pageAddress, BitVec.toNat_add, toNat_alignDown, BitVec.toNat_ofNat,
    BitVec.toNat_ofNat, pageOf, PAGE_SIZE]
  omega

lemma update_below {g h : ℕ → α} (hn : first ≤ n) :
    update (fun i => if first ≤ i ∧ i < n then g i else h i) n (g n) =
      fun i => if first ≤ i ∧ i < n + 1 then g i else h i := by
  funext i
  obtain rfl | hne := eq_or_ne i n
  · rw [update_self, if_pos (by omega)]
  · rw [update_of_ne hne]
    exact if_congr (by omega) rfl rfl

lemma none_below {g h : ℕ → α} : h = fun i => if first ≤ i ∧ i < first then g i else h i := by
  funext i
  exact (if_neg (by omega)).symm

section Ranges

variable {r n : ℕ} {own own' : Places} {m m' : Machine} {a len flags : U64} {f first k : ℕ}
  {frame : ℕ → ℕ} {own'' : Places} {m'' : Machine}

/-- **The loops** over a range of user pages, with an invariant for the pages before `n`. -/
lemma ensures_pages {f : U64 → MachineM PUnit} {E : Errno → Machine → Prop}
    (h : a.toNat + len.toNat ≤ 2 ^ 47) (I : ℕ → Machine → Prop)
    (hstep : ∀ n s, pageOf a ≤ n → n < pageEnd a len → n < USER_PAGES →
      pageOf (pageAddress n) = n → I n s → Ensures (f (pageAddress n)) s (fun _ => I (n + 1)) E)
    (hinit : I (pageOf a) m) :
    Ensures ((pageRange (alignDown a 4096) (alignUp (a + len) 4096)).forM f) m
      (fun _ => I (pageEnd a len)) E := by
  have hend := pageEnd_le h
  have hle := pageOf_le_pageEnd a len
  rw [pageRange_eq h, List.forM_eq_forM, List.forM_map]
  have hloop := ensures_forM_range' (k := pageEnd a len - pageOf a) I (fun n s hn hlt hI =>
    hstep n s hn (by omega) (by omega) (pageOf_pageAddress (by omega)) hI) hinit
  rwa [Nat.add_sub_cancel' hle] at hloop

/-! ## `unmap_range` -/

section

variable (htab : Tables own m) (hr : own r = some (r, [])) (h : a.toNat + len.toNat ≤ 2 ^ 47)
include htab hr h

lemma ensures_unmapRange : Ensures (unmapRange r a len) m
      (fun _ m' => Effect r 0 own m own m' ∧ m'.pages = m.pages ∧ (Counted r m → Counted r m') ∧
        leaves m'.words r = fun i => if pageOf a ≤ i ∧ i < pageEnd a len then
          unmapped (leaves m.words r i) else leaves m.words r i)
      (fun _ _ => False) := by
  refine ensures_pages h (fun n m' => Effect r 0 own m own m' ∧ m'.pages = m.pages ∧
    (Counted r m → Counted r m') ∧ leaves m'.words r = fun i => if pageOf a ≤ i ∧ i < n then
      unmapped (leaves m.words r i) else leaves m.words r i)
    (fun n s hn hlt huser hpage ⟨heff, hpages, hcnt, hleaves⟩ => ?_) ⟨.refl htab, rfl, id, ?_⟩
  · refine (ensures_unmap heff.tables hr (by rwa [hpage])).imp
      (fun _ s' ⟨heff', hpages', hcnt', hleaves'⟩ => ⟨heff.trans heff', hpages'.trans hpages,
        hcnt' ∘ hcnt, ?_⟩)
    have hold : leaves s.words r n = leaves m.words r n := by rw [hleaves]; exact if_neg (by omega)
    rw [hleaves', hpage, hold, hleaves]
    exact update_below hn
  · exact none_below

/-! ## `protect` -/

/-- **`protect`** changes the flags of its pages, up to one that is not there. -/
lemma ensures_protect (flags : U64) : Ensures (protect r a len flags) m
      (fun _ m' => Effect r 0 own m own m' ∧ (Counted r m → Counted r m') ∧
        (∀ i, pageOf a ≤ i → i < pageEnd a len → hasFlag (leaves m.words r i) Present) ∧
        leaves m'.words r = fun i => if pageOf a ≤ i ∧ i < pageEnd a len then
          leafOf (leaves m.words r i) flags else leaves m.words r i)
      (fun e m' => e = .EFAULT ∧ Effect r 0 own m own m' ∧ (Counted r m → Counted r m') ∧
        ∃ n, pageOf a ≤ n ∧ n < pageEnd a len ∧ hasFlag (leaves m.words r n) Present = false ∧
          (∀ i, pageOf a ≤ i → i < n → hasFlag (leaves m.words r i) Present) ∧
          leaves m'.words r = fun i => if pageOf a ≤ i ∧ i < n then
            leafOf (leaves m.words r i) flags else leaves m.words r i) := by
  refine ensures_pages h (fun n m' => Effect r 0 own m own m' ∧ (Counted r m → Counted r m') ∧
    (∀ i, pageOf a ≤ i → i < n → hasFlag (leaves m.words r i) Present) ∧
    leaves m'.words r = fun i => if pageOf a ≤ i ∧ i < n then
      leafOf (leaves m.words r i) flags else leaves m.words r i)
    (fun n s hn hlt huser hpage ⟨heff, hcnt, hpres, hleaves⟩ => ?_)
    ⟨.refl htab, id, fun i hi hlt => by omega, none_below⟩
  have hold : leaves s.words r n = leaves m.words r n := by rw [hleaves]; exact if_neg (by omega)
  refine (ensures_protectPage heff.tables hr (by rwa [hpage]) flags).mono
    (fun _ s' ⟨heff', hcnt', hthere, hleaves'⟩ => ⟨heff.trans heff', hcnt' ∘ hcnt, ?_,
      ?_⟩) fun e s' ⟨hs', he, habs⟩ => ?_
  · rw [hpage, hold] at hthere
    intro i hi hin
    obtain rfl | hne := eq_or_ne i n
    · exact hthere
    · exact hpres i hi (by omega)
  · rw [hleaves', hpage, hold, hleaves]
    exact update_below hn
  · rw [hpage, hold] at habs
    exact ⟨he, hs' ▸ heff, hs' ▸ hcnt, n, hn, hlt, habs, hpres, hs' ▸ hleaves⟩

end

/-! ## `map_anonymous` -/

/-- The indices of an address in `levels` tables above the page table. -/
def upperIndices (a : U64) : ℕ → List ℕ
  | 0 => []
  | levels + 1 => indexOf a (levels + 2) :: upperIndices a levels

/-- The walk of `translate` and `query` goes through the tables to an entry that is there. -/
lemma walkToEntry_eq_bind (htab : Tables own m) {a : U64} {levels t : ℕ} {p : List ℕ}
    (ht : own t = some (r, p)) (hval : userPaths.valid (p ++ upperIndices a levels)) :
    walkToEntry m.words a levels t =
      (walk ENTRIES_PER_TABLE nextTable m.words t (upperIndices a levels)).bind fun pt =>
        if hasFlag (m.entry pt (indexOf a 1)) Present then some (m.entry pt (indexOf a 1), 1)
          else none := by
  induction levels generalizing t p with
  | zero =>
    simp only [walkToEntry, upperIndices, walk_nil, Option.bind_some, ite_not]
    rfl
  | succ levels ih =>
    rw [upperIndices, List.append_cons] at hval
    have hp := userPaths.of_append hval
    have hnext := htab.nextTable_eq ht hp
    rw [Machine.entry] at hnext
    rw [walkToEntry, upperIndices, walk, hnext]
    by_cases hpres : hasFlag (m.entry t (indexOf a (levels + 2))) Present
    · have hsmall := htab.small t r p _ ht hp hpres
      have hlink : nextTable (m.words (slot ENTRIES_PER_TABLE t (indexOf a (levels + 2)))) =
          some (tableAt (m.entry t (indexOf a (levels + 2)))) := hnext.trans (if_pos hpres)
      rw [Machine.entry] at hpres hsmall
      rw [if_neg (by simp [hpres]), if_neg (by simp [hsmall]), if_pos hpres, Option.bind_some]
      exact ih (htab.placed _ _ _ _ _ ht hp hlink) hval
    · rw [Machine.entry] at hpres
      rw [if_pos hpres, if_neg hpres]
      rfl

/-- **The walk** ends at the page's entry, or there is none. -/
lemma walkToEntry_eq (htab : Tables own m) (hr : own r = some (r, [])) {a : U64}
    (ha : pageOf a < USER_PAGES) :
    walkToEntry m.words a 3 r = if hasFlag (leaves m.words r (pageOf a)) Present then
      some (leaves m.words r (pageOf a), 1) else none := by
  have hpath : upperIndices a 3 = pathOf (pageOf a) := path_pageOf a
  rw [walkToEntry_eq_bind htab hr (by rw [hpath]; exact valid_pathOf ha), hpath, indexOf_pageOf]
  cases hwalk : walk ENTRIES_PER_TABLE nextTable m.words r (pathOf (pageOf a)) with
  | none =>
    rw [leaves_of_walk_none (List.append_nil (pathOf (pageOf a))) hwalk]
    rfl
  | some pt =>
    rw [leaves_of_walk ha hwalk]
    rfl

lemma isMapped_eq (htab : Tables own m) (hr : own r = some (r, [])) {a : U64}
    (ha : pageOf a < USER_PAGES) :
    isMapped m.words r a = hasFlag (leaves m.words r (pageOf a)) Present := by
  rw [isMapped, AddressSpace.translate, walkToEntry_eq htab hr ha]
  by_cases hpres : hasFlag (leaves m.words r (pageOf a)) Present
  · rw [if_pos hpres, hpres]
  · rw [if_neg hpres]
    simpa using hpres

/-- A new frame is none of the tables, and not seen by any page. -/
lemma Fills.effect (h : Fills m m' f) (htab : Tables own m) (hr : own r = some (r, [])) :
    Effect r 1 own m own m' ∧ leaves m'.words r = leaves m.words r ∧ own f = none ∧
      ∀ w, own (w / ENTRIES_PER_TABLE) ≠ none → m'.words w = m.words w := by
  have hwords : ∀ w, own (w / ENTRIES_PER_TABLE) ≠ none → m'.words w = m.words w := fun w hw =>
    h.others w (h.takes.ne (htab.used _ hw))
  refine ⟨⟨htab.congr h.takes.total (fun t ht => h.takes.kept (htab.used t ht)) hwords,
    fun _ _ => rfl, fun t hnone hsome => absurd hnone hsome, fun _ => h.takes.kept, h.takes.total,
    fun w hw _ => h.others w (h.takes.ne_of_held hw), fun s _ => congrFun h.resident s,
    fun q t hr hq hwalk => ?_, Nat.le_of_eq (freeFrames_takes h.takes)⟩,
    leaves_congr htab hr hwords, htab.fresh h.takes, hwords⟩
  refine (htab.walk_eq hr hq fun u p i hu hval => congrArg nextTable <| hwords _ ?_).trans hwalk
  rw [slot_div (userPaths.index hval), hu]
  simp

/-- Giving back a frame that the operations so far have taken and that is not a table. -/
lemma Effect.release (h : Effect r k own m own' m') (hfree : m.pages.inUse f = false)
    (htable : own' f = none) (hused : m'.pages.inUse f = true) (hbound : f < m'.pages.totalPages) :
    Ensures (freePage f) m'
      (fun _ m'' => Effect r k own m own' m'' ∧ m''.words = m'.words ∧
        m''.residentPages = m'.residentPages ∧ m''.pages.inUse = update m'.pages.inUse f false)
      (fun _ _ => False) := by
  obtain ⟨pages, hpages, hfrees⟩ := m'.pages.freePage_spec hbound hused
  have hinUse : pages.inUse = update m'.pages.inUse f false := by
    funext g
    obtain rfl | hg := eq_or_ne g f
    · rw [update_self, hfrees.freed_one]
    · rw [update_of_ne hg, hfrees.others_one hg]
  have hcnt : freeFrames m'.pages ≤ freeFrames pages := by
    have := Counting.count_update (P := (· = false)) (f := m'.pages.inUse)
      (Finset.mem_range.mpr hbound) false
    rw [hused, if_pos rfl] at this
    rw [freeFrames, freeFrames, hinUse, hfrees.total]
    simp only [Bool.true_eq_false, if_false] at this
    omega
  rw [ensures_of_ok (a := ()) (t := { m' with pages := pages })
    (by rw [freePage, hpages]; rfl)]
  refine ⟨⟨?_, h.keep, h.fresh, fun g hg => ?_, hfrees.total.trans h.total, h.words,
    h.resident, h.walks, ?_⟩, rfl, rfl, hinUse⟩
  · refine h.tables.congr hfrees.total (fun t ht => ?_) fun _ _ => rfl
    have hne : t ≠ f := fun heq => ht (heq ▸ htable)
    exact (hfrees.others_one hne).trans (h.tables.used t ht)
  · have hne : g ≠ f := fun heq => by simp [heq, hfree] at hg
    exact (hfrees.others_one hne).trans (h.used g hg)
  · exact h.spent.trans (Nat.add_le_add_right hcnt k)

lemma ensures_rollback (htab : Tables own m) (hr : own r = some (r, [])) (hn : pageOf a ≤ n)
    (huser : n < USER_PAGES) :
    Ensures (unmapRange r (alignDown a 4096) (pageAddress n - alignDown a 4096)) m
      (fun _ m' => Effect r 0 own m own m' ∧ m'.pages = m.pages ∧ (Counted r m → Counted r m') ∧
        leaves m'.words r = fun i => if pageOf a ≤ i ∧ i < n then
          unmapped (leaves m.words r i) else leaves m.words r i)
      (fun _ _ => False) := by
  unfold USER_PAGES at huser
  have hlen : (pageAddress n - alignDown a 4096).toNat = n * 4096 - pageOf a * 4096 := by
    rw [BitVec.toNat_sub, toNat_alignDown, pageAddress, BitVec.toNat_ofNat]
    unfold pageOf at hn ⊢
    omega
  have hend : pageEnd (alignDown a 4096) (pageAddress n - alignDown a 4096) = n := by
    rw [pageEnd, hlen, toNat_alignDown]
    unfold pageOf at hn ⊢
    omega
  have hrange : (alignDown a 4096).toNat + (pageAddress n - alignDown a 4096).toNat ≤ 2 ^ 47 := by
    rw [hlen, toNat_alignDown]
    unfold pageOf at hn ⊢
    omega
  have hunmap := ensures_unmapRange htab hr hrange
  rwa [hend, pageOf_alignDown] at hunmap

/-- A page has got a new frame of zeros. -/
structure Adds (r n : ℕ) (flags : U64) (own : Places) (m : Machine) (own' : Places) (m' : Machine)
    (f : ℕ) : Prop where
  effect : Effect r 4 own m own' m'
  counted : Counted r m → Counted r m'
  entries : leaves m'.words r = update (leaves m.words r) n (leafOf (physOf f) flags)
  free : m.pages.inUse f = false
  bound : f < m.pages.totalPages
  used : m'.pages.inUse f = true
  table : own' f = none
  zero : ∀ w, w / ENTRIES_PER_TABLE = f → m'.words w = 0
  enough : missingTables m.words r (pathOf n) < freeFrames m.pages

/-- A page could not get a frame, and the pages from `first` up to it have been unmapped. -/
structure RollsBack (r first n : ℕ) (own : Places) (m : Machine) (own' : Places) (m' : Machine) :
    Prop where
  effect : Effect r 4 own m own' m'
  counted : Counted r m → Counted r m'
  entries : leaves m'.words r = fun i => if first ≤ i ∧ i < n then
    unmapped (leaves m.words r i) else leaves m.words r i
  taken : ∀ f, m'.pages.inUse f = true → m.pages.inUse f = false →
    ∃ q, userPaths.valid q ∧ walk ENTRIES_PER_TABLE nextTable m'.words r q = some f
  short : freeFrames m.pages ≤ missingTables m.words r (pathOf n)

lemma ensures_mapAnonymousPage (htab : Tables own m) (hr : own r = some (r, [])) (hn : pageOf a ≤ n)
    (huser : n < USER_PAGES) (flags : U64) :
    Ensures (mapAnonymousPage r (alignDown a 4096) flags (pageAddress n)) m
      (fun _ m' => if hasFlag (leaves m.words r n) Present then m' = m
        else ∃ own' f, Adds r n flags own m own' m' f)
      (fun e m' => hasFlag (leaves m.words r n) Present = false ∧ e = .ENOMEM ∧
        ∃ own', RollsBack r (pageOf a) n own m own' m') := by
  have hpage := pageOf_pageAddress huser
  have hmapped := isMapped_eq (a := pageAddress n) htab hr (by rwa [hpage])
  rw [hpage] at hmapped
  unfold mapAnonymousPage
  simp only [ensures_bind, ensures_get, ensures_ite, ensures_pure, ensures_tryCatch,
    ensures_throw, hmapped]
  refine ⟨fun hpres => by simp [hpres], fun hpres => ?_⟩
  have habs : hasFlag (leaves m.words r n) Present = false := by simpa using hpres
  simp only [if_neg hpres]
  refine ensures_allocateZeroedPage.mono (fun f m₁ hzero => ?_) ?_
  · obtain ⟨heffect₁, hleaves₁, htable, hwords⟩ := hzero.toFills.effect htab hr
    have hfree : m.pages.inUse f = false := hzero.takes.free_one
    have hused₁ : m₁.pages.inUse f = true := hzero.takes.taken_one
    have hspent := freeFrames_takes hzero.takes
    have hmissing := missingTables_congr htab hr (valid_pathOf huser) hwords
    have hcounted₁ : Counted r m → Counted r m₁ := fun h =>
      h.congr hleaves₁ (congrFun hzero.resident r)
    have hmap := ensures_map heffect₁.tables hr (a := pageAddress n) (by rwa [hpage])
      (physOf f) flags
    rw [hpage, hmissing, hleaves₁] at hmap
    -- the frame of the page does not become a table
    have hnotTable : ∀ {k own' m'}, Effect r k own m₁ own' m' → own' f = none := fun h => by
      by_contra hsome
      simp [(h.fresh f htable hsome).1] at hused₁
    refine hmap.mono ?_ ?_
    · rintro _ m₂ ⟨own', heffect₂, hcounted₂, hspent₂, -, hleaves₂⟩
      refine ⟨own', f, heffect₁.trans heffect₂, hcounted₂ ∘ hcounted₁, hleaves₂, hfree,
        hzero.takes.bound, heffect₂.used f hused₁, hnotTable heffect₂, fun w hw => ?_, by omega⟩
      rw [heffect₂.words w (by rw [hw]; exact .inl hused₁) ?_, hzero.cleared w hw]
      rintro ⟨p, hp, -⟩
      rw [hw, htable] at hp
      cases hp
    · rintro e m₂ ⟨own', hgrows₂, herror⟩
      rw [if_neg hpres] at herror
      obtain ⟨rfl, hshort⟩ := herror
      have heffect₂ := heffect₁.trans hgrows₂.effect
      have hbound : f < m₂.pages.totalPages := heffect₂.total ▸ hzero.takes.bound
      refine (heffect₂.release hfree (hnotTable hgrows₂.effect)
        (hgrows₂.effect.used f hused₁) hbound).mono
        (fun _ m₃ h₃ => ?_) fun _ _ h => h.elim
      obtain ⟨heffect₃, hwords₃, hresident₃, hinUse₃⟩ := h₃
      have hleaves₃ : leaves m₃.words r = leaves m.words r := by
        rw [hwords₃, hgrows₂.leaves, hleaves₁]
      refine (ensures_rollback heffect₃.tables (heffect₃.root hr) hn huser).mono
        (fun _ m₄ h₄ => ?_) fun _ _ h => h.elim
      obtain ⟨heffect₄, hpages₄, hcounted₄, hleaves₄⟩ := h₄
      refine ⟨habs, rfl, own', heffect₃.trans heffect₄, fun h => hcounted₄ ?_, ?_,
        fun g hg hgfree => ?_, ?_⟩
      · refine (hcounted₁ h).congr (by rw [hleaves₃, hleaves₁]) ?_
        rw [hresident₃, hgrows₂.resident]
      · rw [hleaves₄, hleaves₃]
      · rw [hpages₄, hinUse₃] at hg
        obtain rfl | hne := eq_or_ne g f
        · simp at hg
        · rw [update_of_ne hne] at hg
          have hgfree₁ : m₁.pages.inUse g = false := by
            rw [hzero.takes.others_one hne, hgfree]
          obtain ⟨q, hq, hwalk⟩ := hgrows₂.taken g hr hg hgfree₁
          rw [← hwords₃] at hwalk
          exact ⟨q, hq, heffect₄.walks q g (heffect₃.root hr) hq hwalk⟩
      · omega
  · rintro e m₁ ⟨he, hm₁, hfree⟩
    subst hm₁
    refine (ensures_rollback htab hr hn huser).mono
      (fun _ m₂ h₂ => ?_) fun _ _ h => h.elim
    obtain ⟨heffect₂, hpages₂, hcounted₂, hleaves₂⟩ := h₂
    refine ⟨habs, he, own, heffect₂.mono (Nat.zero_le 4), hcounted₂, hleaves₂,
      fun g hg hgfree => ?_, by omega⟩
    simp [hpages₂, hgfree] at hg

/-- The entry of a page after `map_anonymous`. -/
def populated (L : ℕ → U64) (flags : U64) (frame : ℕ → ℕ) (i : ℕ) : U64 :=
  if hasFlag (L i) Present then L i else leafOf (physOf (frame i)) flags

lemma hasFlag_populated {L : ℕ → U64} {i : ℕ} : hasFlag (populated L flags frame i) Present := by
  unfold populated
  split_ifs with h
  · exact h
  · exact hasFlag_leafOf

/-- How many of the pages from `first` up to `n` are not mapped. -/
def absentPages (L : ℕ → U64) (first n : ℕ) : ℕ :=
  (List.range' first (n - first)).countP fun i => !hasFlag (L i) Present

lemma absentPages_succ {L : ℕ → U64} (hn : first ≤ n) : absentPages L first (n + 1) =
    absentPages L first n + if hasFlag (L n) Present then 0 else 1 := by
  rw [absentPages, absentPages, Nat.succ_sub hn, List.range'_1_concat, List.countP_append,
    List.countP_singleton, Nat.add_sub_cancel' hn]
  cases hasFlag (L n) Present <;> rfl

lemma absentPages_mono {L : ℕ → U64} {k : ℕ} (hn : n ≤ k) :
    absentPages L first n ≤ absentPages L first k :=
  (List.range'_sublist_right.mpr (Nat.sub_le_sub_right hn first)).countP_le

lemma absent_of_absentPages {L : ℕ → U64} {i : ℕ} (h : absentPages L first n = n - first)
    (hi : first ≤ i) (hlt : i < n) : hasFlag (L i) Present = false := by
  have hall := List.countP_eq_length.mp (h.trans List.length_range'.symm)
  simpa using hall i (List.mem_range'_1.mpr (by omega))

/-- The pages from `first` up to `n` have frames. -/
structure Populates (r first n : ℕ) (flags : U64) (own : Places) (m : Machine) (own' : Places)
    (m' : Machine) (frame : ℕ → ℕ) : Prop where
  effect : Effect r (4 * absentPages (leaves m.words r) first n) own m own' m'
  counted : Counted r m → Counted r m'
  entries : leaves m'.words r = fun i => if first ≤ i ∧ i < n then
    populated (leaves m.words r) flags frame i else leaves m.words r i
  frames : ∀ i, first ≤ i → i < n → hasFlag (leaves m.words r i) Present = false →
    m.pages.inUse (frame i) = false ∧ frame i < m.pages.totalPages ∧
    m'.pages.inUse (frame i) = true ∧
      own' (frame i) = none ∧ ∀ w, w / ENTRIES_PER_TABLE = frame i → m'.words w = 0
  injective : ∀ i j, first ≤ i → i < n → hasFlag (leaves m.words r i) Present = false →
    first ≤ j → j < n → hasFlag (leaves m.words r j) Present = false → frame i = frame j → i = j
  start : n = first → own' = own ∧ m' = m
  enough : first < n → hasFlag (leaves m.words r first) Present = false →
    missingTables m.words r (pathOf first) < freeFrames m.pages

/-- The page `n` could not get a frame, and those from `first` up to it are gone. -/
structure Abandons (r first n : ℕ) (own : Places) (m : Machine) (own' : Places) (m' : Machine)
    (frame : ℕ → ℕ) : Prop where
  effect : Effect r (4 * absentPages (leaves m.words r) first n + 4) own m own' m'
  counted : Counted r m → Counted r m'
  entries : leaves m'.words r = fun i => if first ≤ i ∧ i < n then 0 else leaves m.words r i
  leaked : ∀ i, first ≤ i → i < n → hasFlag (leaves m.words r i) Present = false →
    m.pages.inUse (frame i) = false ∧ m'.pages.inUse (frame i) = true ∧ own' (frame i) = none
  taken : n = first → ∀ f, m'.pages.inUse f = true → m.pages.inUse f = false →
    ∃ q, userPaths.valid q ∧ walk ENTRIES_PER_TABLE nextTable m'.words r q = some f
  short : n = first → freeFrames m.pages ≤ missingTables m.words r (pathOf first)
  few : freeFrames m.pages < 4 * absentPages (leaves m.words r) first n + 4
  enough : first < n → hasFlag (leaves m.words r first) Present = false →
    missingTables m.words r (pathOf first) < freeFrames m.pages

lemma Populates.refl (htab : Tables own m) : Populates r first first flags own m own m frame where
  effect := by rw [absentPages, Nat.sub_self]; exact .refl htab
  counted := id
  entries := none_below
  frames i hi hlt := by omega
  injective i j hi hlt := by omega
  start _ := ⟨rfl, rfl⟩
  enough h := absurd h (Nat.lt_irrefl _)

section

variable (h : Populates r first n flags own m own' m' frame)
include h

lemma Populates.skip (hn : first ≤ n) (hpres : hasFlag (leaves m.words r n) Present) :
    Populates r first (n + 1) flags own m own' m' frame where
  effect := h.effect.mono (by rw [absentPages_succ hn]; omega)
  counted := h.counted
  entries := by
    have hsame : leaves m'.words r n = populated (leaves m.words r) flags frame n := by
      rw [h.entries, populated, if_pos hpres]
      exact if_neg (by omega)
    rw [← update_eq_self n (leaves m'.words r), hsame, h.entries]
    exact update_below hn
  frames i hi hlt habs := by
    obtain rfl | hne := eq_or_ne i n
    · simp [hpres] at habs
    · exact h.frames i hi (by omega) habs
  injective i j hi hlt habs hj hjlt hjabsent := by
    obtain rfl | hne := eq_or_ne i n
    · simp [hpres] at habs
    obtain rfl | hjne := eq_or_ne j n
    · simp [hpres] at hjabsent
    exact h.injective i j hi (by omega) habs hj (by omega) hjabsent
  start heq := by omega
  enough _ habs := by
    obtain rfl | hne := eq_or_ne first n
    · simp [hpres] at habs
    · exact h.enough (by omega) habs

omit h in
lemma Effect.keeps_frame (h : Effect r k own' m' own'' m'')
    (hused : m'.pages.inUse f = true) (htable : own' f = none) :
    m''.pages.inUse f = true ∧ own'' f = none ∧
      ∀ w, w / ENTRIES_PER_TABLE = f → m''.words w = m'.words w := by
  refine ⟨h.used f hused, ?_, fun w hw => h.words w (.inl (hw ▸ hused)) ?_⟩
  · by_contra hsome
    simp [(h.fresh f htable hsome).1] at hused
  · rintro ⟨p, hp, -⟩
    rw [hw, htable] at hp
    cases hp

lemma Populates.add (hn : first ≤ n) (habs : hasFlag (leaves m.words r n) Present = false)
    (hadds : Adds r n flags own' m' own'' m'' f) :
    Populates r first (n + 1) flags own m own'' m'' (update frame n f) := by
  have hother : ∀ i, i < n → update frame n f i = frame i := fun i hi =>
    update_of_ne (by omega) ..
  have hnew : ∀ i, first ≤ i → i < n → hasFlag (leaves m.words r i) Present = false →
    frame i ≠ f := by
    intro i hi hlt hi' heq
    have hused := (h.frames i hi hlt hi').2.2.1
    rw [heq, hadds.free] at hused
    cases hused
  refine ⟨(h.effect.trans hadds.effect).mono ?_, hadds.counted ∘ h.counted, ?_,
    fun i hi hlt hi' => ?_,
    fun i j hi hlt hi' hj hjlt hj' heq => ?_, fun heq => by omega, fun _ hfirst => ?_⟩
  · rw [absentPages_succ hn, if_neg (by simp [habs])]
    omega
  · rw [hadds.entries, h.entries]
    have hentry : leafOf (physOf f) flags =
        populated (leaves m.words r) flags (update frame n f) n := by
      rw [populated, if_neg (by simp [habs]), update_self]
    rw [hentry, ← update_below hn]
    refine congrArg (fun L => update L n _) (funext fun i => ?_)
    split_ifs with hin
    · simp only [populated, hother i hin.2]
    · rfl
  · obtain rfl | hne := eq_or_ne i n
    · rw [update_self]
      refine ⟨?_, h.effect.total ▸ hadds.bound, hadds.used, hadds.table, hadds.zero⟩
      by_contra hused
      have := h.effect.used f (by simpa using hused)
      rw [hadds.free] at this
      cases this
    · have hlt : i < n := by omega
      obtain ⟨hfree, hbound, hused, htable, hzero⟩ := h.frames i hi hlt hi'
      obtain ⟨hused', htable', hwords⟩ := hadds.effect.keeps_frame hused htable
      rw [hother i hlt]
      exact ⟨hfree, hbound, hused', htable', fun w hw => (hwords w hw).trans (hzero w hw)⟩
  · obtain rfl | hne := eq_or_ne n i <;> obtain rfl | hjne := eq_or_ne n j
    · rfl
    · rw [update_self, hother j (by omega)] at heq
      exact absurd heq.symm (hnew j hj (by omega) hj')
    · rw [update_self, hother i (by omega)] at heq
      exact absurd heq (hnew i hi (by omega) hi')
    · rw [hother i (by omega), hother j (by omega)] at heq
      exact h.injective i j hi (by omega) hi' hj (by omega) hj' heq
  · obtain rfl | hne := eq_or_ne first n
    · obtain ⟨rfl, rfl⟩ := h.start rfl
      exact hadds.enough
    · exact h.enough (by omega) hfirst

lemma Populates.rollsBack (hback : RollsBack r first n own' m' own'' m'') :
    Abandons r first n own m own'' m'' frame where
  effect := h.effect.trans hback.effect
  counted := hback.counted ∘ h.counted
  entries := by
    rw [hback.entries, h.entries]
    funext i
    dsimp only
    split_ifs with hin
    · rw [unmapped, if_pos hasFlag_populated]
    · rfl
  leaked i hi hlt habs := by
    obtain ⟨hfree, -, hused, htable, -⟩ := h.frames i hi hlt habs
    obtain ⟨hused', htable', -⟩ := hback.effect.keeps_frame hused htable
    exact ⟨hfree, hused', htable'⟩
  taken heq := by
    obtain ⟨rfl, rfl⟩ := h.start heq
    exact hback.taken
  short heq := by
    obtain ⟨rfl, rfl⟩ := h.start heq
    exact heq ▸ hback.short
  few := by
    have hspent := h.effect.spent
    have hshort := hback.short
    have hthree := missingTables_pathOf m'.words r n
    omega
  enough := h.enough

end

/-- **`map_anonymous`** gives frames to the pages of its range that have none, or, when there is no
frame for one of them, takes away those before it. -/
lemma ensures_mapAnonymous (htab : Tables own m) (hr : own r = some (r, []))
    (h : a.toNat + len.toNat ≤ 2 ^ 47) (flags : U64) : Ensures (mapAnonymous r a len flags) m
      (fun _ m' => ∃ own' frame, Populates r (pageOf a) (pageEnd a len) flags own m own' m' frame)
      (fun e m' => e = .ENOMEM ∧ ∃ n own' frame, pageOf a ≤ n ∧ n < pageEnd a len ∧
        hasFlag (leaves m.words r n) Present = false ∧
          Abandons r (pageOf a) n own m own' m' frame) := by
  refine ensures_pages h
    (fun n m' => ∃ own' frame, Populates r (pageOf a) n flags own m own' m' frame)
    (fun n s hn hlt huser hpage ⟨own', frame, hpop⟩ => ?_) ⟨own, fun _ => 0, .refl htab⟩
  have hold : leaves s.words r n = leaves m.words r n := by
    rw [hpop.entries]
    exact if_neg (by omega)
  refine (ensures_mapAnonymousPage hpop.effect.tables (hpop.effect.root hr) hn huser flags).mono
    (fun _ s' hok => ?_) fun e s' ⟨habs, he, own'', hback⟩ => ?_
  · rw [hold] at hok
    split_ifs at hok with hpres
    · exact ⟨own', frame, hok ▸ hpop.skip hn hpres⟩
    · obtain ⟨own'', f, hadds⟩ := hok
      exact ⟨own'', _, hpop.add hn (by simpa using hpres) hadds⟩
  · rw [hold] at habs
    exact ⟨he, n, own'', frame, hn, hlt, habs, hpop.rollsBack hback⟩

/-! ## All or nothing -/

/-- A call that failed has changed no translation, and the frames it has taken are page tables. -/
def AllOrNothing (r : ℕ) (m m' : Machine) : Prop :=
  (∀ a : U64, a.toNat < 2 ^ 47 → translate m'.words r a = translate m.words r a ∧
    query m'.words r a = query m.words r a) ∧
  ∀ f, m'.pages.inUse f = true → m.pages.inUse f = false →
    ∃ q, userPaths.valid q ∧ walk ENTRIES_PER_TABLE nextTable m'.words r q = some f

lemma pageOf_lt {a : U64} (ha : a.toNat < 2 ^ 47) : pageOf a < USER_PAGES := by
  unfold pageOf USER_PAGES
  omega

lemma Abandons.allOrNothing (h : Abandons r first first own m own' m' frame)
    (htab : Tables own m) (hr : own r = some (r, [])) : AllOrNothing r m m' := by
  have hleaves : leaves m'.words r = leaves m.words r := by
    rw [h.entries]
    exact none_below.symm
  refine ⟨fun a ha => ?_, h.taken rfl⟩
  have hwalk : walkToEntry m'.words a 3 r = walkToEntry m.words a 3 r := by
    rw [walkToEntry_eq h.effect.tables (h.effect.root hr) (pageOf_lt ha),
      walkToEntry_eq htab hr (pageOf_lt ha), hleaves]
  exact ⟨by rw [AddressSpace.translate, AddressSpace.translate, hwalk], by rw [query, query, hwalk]⟩

lemma Abandons.not_allOrNothing (h : Abandons r (pageOf a) n own m own' m' frame)
    (htab : Tables own m) (hr : own r = some (r, [])) (ha : a.toNat < 2 ^ 47) (hn : pageOf a < n) :
    ¬AllOrNothing r m m' := by
  rintro ⟨htr, htaken⟩
  have hr' := h.effect.root hr
  by_cases hpres : hasFlag (leaves m.words r (pageOf a)) Present
  · have hgone : leaves m'.words r (pageOf a) = 0 := by
      rw [h.entries]
      exact if_pos ⟨Nat.le_refl _, hn⟩
    have hmapped : isMapped m'.words r a = isMapped m.words r a := by
      rw [isMapped, isMapped, (htr a ha).1]
    rw [isMapped_eq htab hr (pageOf_lt ha), isMapped_eq h.effect.tables hr' (pageOf_lt ha), hgone,
      hpres] at hmapped
    cases hmapped
  · obtain ⟨hfree, hused, htable⟩ := h.leaked _ (Nat.le_refl _) hn (by simpa using hpres)
    obtain ⟨q, hq, hwalk⟩ := htaken _ hused hfree
    rw [h.effect.tables.own_walk hr' hq hwalk] at htable
    cases htable

/-- **When a failing `map_anonymous` leaves nothing behind.**  A call that fails on a range of user
pages has changed no translation and kept no frame but for tables exactly if it could not even map
its first page: that page was not mapped, and there were not enough frames for it and the tables on
its way. -/
theorem mapAnonymous_all_or_nothing (htables : Tables own m) (hr : own r = some (r, []))
    (h : a.toNat + length.toNat ≤ 2 ^ 47) {e : Errno}
    (herror : mapAnonymous r a length flags m = some (.error e, m')) :
    AllOrNothing r m m' ↔ isMapped m.words r a = false ∧
      freeFrames m.pages < 1 + missingTables m.words r (pathOf (pageOf a)) := by
  have hensures := ensures_mapAnonymous htables hr h flags
  rw [ensures_of_error herror] at hensures
  obtain ⟨-, n, own', frame, hn, hlt, habsent, habandons⟩ := hensures
  have ha : a.toNat < 2 ^ 47 := by
    unfold pageEnd at hlt
    unfold pageOf at hn
    omega
  rw [isMapped_eq htables hr (pageOf_lt ha)]
  obtain heq | hlater := Nat.eq_or_lt_of_le hn
  · subst heq
    have hshort := habandons.short rfl
    exact ⟨fun _ => ⟨habsent, by omega⟩, fun _ => habandons.allOrNothing htables hr⟩
  · refine ⟨fun hnothing => absurd hnothing (habandons.not_allOrNothing htables hr ha hlater),
      fun ⟨hfirst, hshort⟩ => ?_⟩
    have := habandons.enough hlater hfirst
    omega

end Ranges

/-- A machine with the frames below `count`, all in use, and the words given. -/
def exhausted (count : ℕ) (words : Memory.Words) : Machine where
  pages := { inUse := fun f => f < count, totalPages := count, usedPages := count, searchHint := 0 }
  words := words
  residentPages _ := 0

/-- What a failed call has returned, and what it has left of a space with root 0. -/
def failure (result : Option (Except Errno PUnit × Machine)) : Option (Errno × Bool) :=
  result.bind fun r => match r.1 with
    | .ok _ => none
    | .error e => some (e, isMapped r.2.words 0 0)

lemma exists_of_failure {result : Option (Except Errno PUnit × Machine)} {e : Errno} {mapped : Bool}
    (h : failure result = some (e, mapped)) :
    ∃ m', result = some (.error e, m') ∧ isMapped m'.words 0 0 = mapped := by
  obtain ⟨⟨outcome, m'⟩, hres, houtcome⟩ := Option.bind_eq_some_iff.mp h
  cases outcome with
  | ok _ => cases houtcome
  | error e' =>
    cases houtcome
    exact ⟨m', hres, rfl⟩

/-- Without a frame for its first page `map_anonymous` changes nothing. -/
theorem mapAnonymous_all_or_nothing_empty :
    ∃ own m', Tables own (exhausted 1 fun _ => 0) ∧ own 0 = some (0, []) ∧
      mapAnonymous 0 0 4096 (Writable ||| User) (exhausted 1 fun _ => 0) =
        some (.error .ENOMEM, m') ∧ AllOrNothing 0 (exhausted 1 fun _ => 0) m' := by
  have hfails : failure (mapAnonymous 0 0 4096 (Writable ||| User) (exhausted 1 fun _ => 0)) =
      some (.ENOMEM, false) := by
    decide +kernel
  obtain ⟨m', hrun, -⟩ := exists_of_failure hfails
  have htables : Tables (fun t => if t = 0 then some (0, []) else none)
    (exhausted 1 fun _ => 0) := by
    refine ⟨by decide, fun t ht => ?_,
      fun t k p i t' _ _ hnext => ?_, fun t r p i _ _ hpresent => ?_⟩
    · by_cases hzero : t = 0
      · simp [hzero, exhausted]
      · simp [hzero] at ht
    · have hnone : nextTable 0 = none := by decide
      cases hnone.symm.trans hnext
    · exact absurd (show hasFlag 0 Present = true from hpresent) (by decide)
  refine ⟨_, m', htables, rfl, hrun, (mapAnonymous_all_or_nothing htables rfl (by decide) hrun).mpr
    ⟨?_, ?_⟩⟩
  · decide +kernel
  · decide +kernel

/-- A space with one page, page 0 in frame 4, and its three tables. -/
def onePage : Machine :=
  exhausted 5 fun w => if w = 0 then 0x1007 else if w = 512 then 0x2007 else if w = 1024 then 0x3007
    else if w = 1536 then 0x4007 else 0

/-- Asked for the pages 0 and 1, `map_anonymous` finds no frame for the second, and the way back
takes away the first. -/
theorem mapAnonymous_unmaps_old_page :
    ∃ m', mapAnonymous 0 0 8192 (Writable ||| User) onePage = some (.error .ENOMEM, m') ∧
      isMapped onePage.words 0 0 = true ∧ isMapped m'.words 0 0 = false ∧
        ¬AllOrNothing 0 onePage m' := by
  have hfails : failure (mapAnonymous 0 0 8192 (Writable ||| User) onePage) =
    some (.ENOMEM, false) := by
    decide +kernel
  obtain ⟨m', hrun, hgone⟩ := exists_of_failure hfails
  have hthere : isMapped onePage.words 0 0 = true := by decide +kernel
  refine ⟨m', hrun, hthere, hgone, fun h => ?_⟩
  rw [isMapped, (h.1 0 (by decide)).1, ← isMapped, hthere] at hgone
  cases hgone

end ShitOs
