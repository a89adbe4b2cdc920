import ShitOs.Properties.PageTables

/-!
# Operations on one page

`map`, `unmap` and the turns of `protect`, in terms of the array of page table entries
(`PageTables`): each changes the entry of its own page or none, and keeps `m_resident_pages` the
number of entries that are there (`Counted`).  `map` fails on a page that is there, and, if it is
not, exactly when the frames left are fewer than the tables that are missing on its way.
-/

namespace ShitOs

open Function Kstd PageFlags Physical AddressSpace Program RadixTable

/-! ## Counting the pages that are there -/

/-- How many pages of the array are there. -/
@[irreducible] noncomputable def residents (L : ℕ → U64) : ℕ :=
  Counting.count (Finset.range USER_PAGES) (fun e => hasFlag e Present = true) L

/-- `m_resident_pages` is the number of pages that are there. -/
def Counted (r : ℕ) (m : Machine) : Prop :=
  m.residentPages r = BitVec.ofNat 64 (residents (leaves m.words r))

lemma residents_update {L : ℕ → U64} {n : ℕ} (hn : n < USER_PAGES) (e : U64) :
    residents (update L n e) + (if hasFlag (L n) Present = true then 1 else 0) =
      residents L + (if hasFlag e Present = true then 1 else 0) := by
  unfold residents
  exact Counting.count_update (Finset.mem_range.mpr hn) e

lemma ofNat_succ_sub (count : ℕ) : BitVec.ofNat 64 (count + 1) - 1 = BitVec.ofNat 64 count := by
  rw [BitVec.ofNat_add]
  exact BitVec.add_sub_cancel ..

/-- The page table entry that `map` makes. -/
def leafOf (page flags : U64) : U64 := (page &&& ADDRESS_MASK) ||| (flags ||| Present)

@[simp] lemma hasFlag_leafOf {page flags : U64} : hasFlag (leafOf page flags) Present := by
  have : hasFlag Present Present = true := rfl
  simp [leafOf, this]

section Operations

variable {r t n : ℕ} {own : Places} {m m' : Machine} {a e : U64}

lemma Counted.congr (h : Counted r m) (hleaves : leaves m'.words r = leaves m.words r)
    (hresid : m'.residentPages r = m.residentPages r) : Counted r m' := by
  rw [Counted, hleaves, hresid, h]

section

variable (h : Counted r m) (hn : n < USER_PAGES)
include h hn

lemma Counted.add (habs : hasFlag (leaves m.words r n) Present = false) (he : hasFlag e Present)
    (hleaves : leaves m'.words r = update (leaves m.words r) n e)
    (hresid : m'.residentPages r = m.residentPages r + 1) : Counted r m' := by
  have hcnt := residents_update hn e (L := leaves m.words r)
  rw [if_neg (by simp [habs]), if_pos he, ← hleaves, Nat.add_zero] at hcnt
  rw [Counted, hresid, h, hcnt, BitVec.ofNat_add]
  rfl

lemma Counted.sub (hpres : hasFlag (leaves m.words r n) Present) (he : hasFlag e Present = false)
    (hleaves : leaves m'.words r = update (leaves m.words r) n e)
    (hresid : m'.residentPages r = m.residentPages r - 1) : Counted r m' := by
  have hcnt := residents_update hn e (L := leaves m.words r)
  rw [if_pos hpres, if_neg (by simp [he]), ← hleaves, Nat.add_zero (residents _)] at hcnt
  rw [Counted, hresid, h, ← hcnt, ofNat_succ_sub]

lemma Counted.same (hpres : hasFlag (leaves m.words r n) Present) (he : hasFlag e Present)
    (hleaves : leaves m'.words r = update (leaves m.words r) n e)
    (hresid : m'.residentPages r = m.residentPages r) : Counted r m' := by
  have hcnt := residents_update hn e (L := leaves m.words r)
  rw [if_pos hpres, if_pos he, ← hleaves] at hcnt
  rw [Counted, hresid, h, Nat.add_right_cancel hcnt]

end

/-! ## `map` -/

variable (htab : Tables own m) (hr : own r = some (r, []))

include htab hr

lemma pokes_leaf (hn : n < USER_PAGES)
    (hwalk : walk ENTRIES_PER_TABLE nextTable m.words r (pathOf n) = some t) (e c : U64) :
    Effect r 0 own m own ((m.setEntry t (n % 512) e).setResident r c) ∧
      leaves ((m.setEntry t (n % 512) e).setResident r c).words r =
        update (leaves m.words r) n e := by
  have ht := htab.own_walk hr (valid_pathOf hn) hwalk
  have hlt : n % 512 < ENTRIES_PER_TABLE := Nat.mod_lt n (by decide)
  have hpokes : Pokes r own m ((m.setEntry t (n % 512) e).setResident r c) t (n % 512) :=
    ⟨⟨_, ht, fun hnil => by simp [pathOf] at hnil⟩, hlt, rfl, fun w hw => Machine.words_setEntry hw,
      fun s hs => update_of_ne hs ..⟩
  refine ⟨hpokes.effect htab fun q hq hval => ?_, ?_⟩
  · cases ht.symm.trans hq
    exact absurd hval not_valid_pathOf
  · rw [hpokes.leaves_update htab hr hn hwalk]
    exact congrArg _ Machine.entry_setEntry_self

lemma ensures_mapLeaf (hn : n < USER_PAGES)
    (hwalk : walk ENTRIES_PER_TABLE nextTable m.words r (pathOf n) = some t) (page flags : U64) :
    Ensures (mapLeaf r t (n % 512) page flags) m
      (fun _ m' => Effect r 0 own m own m' ∧ m'.pages = m.pages ∧ (Counted r m → Counted r m') ∧
        hasFlag (leaves m.words r n) Present = false ∧
        leaves m'.words r = update (leaves m.words r) n (leafOf page flags))
      (fun e m' => m' = m ∧ e = .EEXIST ∧ hasFlag (leaves m.words r n) Present) := by
  rw [leaves_of_walk hn hwalk]
  unfold mapLeaf
  simp only [ensures_bind, ensures_get, ensures_ite, ensures_throw, ensures_modify]
  refine ⟨fun hpres => ⟨trivial, trivial, hpres⟩, fun hpres => ?_⟩
  obtain ⟨heff, hleaves⟩ := pokes_leaf htab hr hn hwalk (leafOf page flags) (m.residentPages r + 1)
  have habs : hasFlag (m.entry t (n % 512)) Present = false := by simpa using hpres
  refine ⟨heff, rfl, fun hcnt => ?_, habs, hleaves⟩
  rw [← leaves_of_walk hn hwalk] at habs
  exact hcnt.add hn habs hasFlag_leafOf hleaves (update_self ..)

/-- **`map`** fills the entry of a page that is not there, and refuses one that is. -/
lemma ensures_map (ha : pageOf a < USER_PAGES) (page flags : U64) : Ensures (map r a page flags) m
      (fun _ m' => ∃ own', Effect r 3 own m own' m' ∧ (Counted r m → Counted r m') ∧
        freeFrames m.pages = freeFrames m'.pages + missingTables m.words r (pathOf (pageOf a)) ∧
        hasFlag (leaves m.words r (pageOf a)) Present = false ∧
        leaves m'.words r = update (leaves m.words r) (pageOf a) (leafOf page flags))
      (fun e m' => ∃ own', Grows r 3 own m own' m' ∧
        if hasFlag (leaves m.words r (pageOf a)) Present then e = .EEXIST
        else e = .ENOMEM ∧ freeFrames m.pages < missingTables m.words r (pathOf (pageOf a))) := by
  have hval := valid_pathOf ha
  have h₁ : userPaths.valid ([] ++ [pageOf a / 2 ^ 27 % 512]) :=
    userPaths.of_append (q := _ :: _) hval
  have h₂ : userPaths.valid ([pageOf a / 2 ^ 27 % 512] ++ [pageOf a / 2 ^ 18 % 512]) :=
    userPaths.of_append (q := [_]) hval
  have hpath := path_pageOf (alignDown a 4096)
  rw [pageOf_alignDown] at hpath
  obtain ⟨hi₄, hi₃, hi₂⟩ : indexOf (alignDown a 4096) 4 = pageOf a / 2 ^ 27 % 512 ∧
      indexOf (alignDown a 4096) 3 = pageOf a / 2 ^ 18 % 512 ∧
      indexOf (alignDown a 4096) 2 = pageOf a / 2 ^ 9 % 512 := by
    simpa [pathOf] using hpath
  -- A table on the way could not be made, so the page is not there.
  have hfails : ∀ {k own₁ e m'} {p q : List ℕ}, k ≤ 3 → p ++ q = pathOf (pageOf a) →
      (e = Errno.ENOMEM ∧ Grows r k own m own₁ m' ∧ freeFrames m.pages < missingTables m.words r p ∧
        walk ENTRIES_PER_TABLE nextTable m.words r p = none) →
      ∃ own', Grows r 3 own m own' m' ∧
        if hasFlag (leaves m.words r (pageOf a)) Present then e = .EEXIST
        else e = .ENOMEM ∧ freeFrames m.pages < missingTables m.words r (pathOf (pageOf a)) := by
    rintro k own₁ e m' p q hk hpath ⟨he, hgrows, hmissing, hnone⟩
    refine ⟨own₁, hgrows.mono hk, ?_⟩
    rw [leaves_of_walk_none hpath hnone, if_neg (by decide), ← hpath]
    exact ⟨he, Nat.lt_of_lt_of_le hmissing (missingTables_append q)⟩
  unfold map
  simp only [ensures_bind, hi₄, hi₃, hi₂, indexOf_pageOf, pageOf_alignDown]
  refine ((Climbs.refl htab).ensures hr h₁ _).mono (fun pdpt m₁ ⟨own₁, hclimbs₁⟩ => ?_)
    fun e m' herror => hfails (by simp) rfl herror
  refine (hclimbs₁.ensures hr h₂ _).mono (fun pd m₂ ⟨own₂, hclimbs₂⟩ => ?_)
    fun e m' herror => hfails (by simp) rfl herror
  refine (hclimbs₂.ensures hr hval _).mono (fun pt m₃ ⟨own₃, hclimbs₃⟩ => ?_)
    fun e m' herror => hfails (by simp) (List.append_nil _) herror
  obtain ⟨hgrows, hwalk, hspent, -⟩ := hclimbs₃
  have hcounted₃ : Counted r m → Counted r m₃ := fun h =>
    h.congr hgrows.leaves (congrFun hgrows.resident r)
  refine (ensures_mapLeaf hgrows.effect.tables (hgrows.effect.root hr) ha hwalk page flags).mono
    (fun _ m' hok => ?_) fun e m' herror => ?_
  · obtain ⟨heff, hpages, hcnt, habs, hleaves⟩ := hok
    rw [hgrows.leaves] at habs hleaves
    exact ⟨own₃, hgrows.effect.trans heff, hcnt ∘ hcounted₃, by rw [hpages]; exact hspent, habs,
      hleaves⟩
  · obtain ⟨rfl, rfl, hpres⟩ := herror
    rw [hgrows.leaves] at hpres
    exact ⟨own₃, hgrows, by rw [if_pos hpres]⟩

/-! ## `unmap` and `protect` on one page -/

/-- What `unmap` leaves of an entry. -/
def unmapped (e : U64) : U64 := if hasFlag e Present then 0 else e

lemma ensures_unmap (ha : pageOf a < USER_PAGES) : Ensures (unmap r a) m
      (fun _ m' => Effect r 0 own m own m' ∧ m'.pages = m.pages ∧ (Counted r m → Counted r m') ∧
        leaves m'.words r =
          update (leaves m.words r) (pageOf a) (unmapped (leaves m.words r (pageOf a))))
      (fun _ _ => False) := by
  have hsame : hasFlag (leaves m.words r (pageOf a)) Present = false →
      leaves m.words r = update (leaves m.words r) (pageOf a)
        (unmapped (leaves m.words r (pageOf a))) := fun habs => by
    rw [unmapped, if_neg (by simp [habs]), update_eq_self]
  unfold unmap
  simp only [ensures_bind, ensures_get, walkToLeafTable_eq, pageOf_alignDown, indexOf_pageOf]
  cases hwalk : walk ENTRIES_PER_TABLE nextTable m.words r (pathOf (pageOf a)) with
  | none =>
    have hzero : leaves m.words r (pageOf a) = 0 :=
      leaves_of_walk_none (List.append_nil (pathOf (pageOf a))) hwalk
    exact ensures_pure.mpr ⟨.refl htab, rfl, id, hsame (by rw [hzero]; rfl)⟩
  | some pt =>
    have hentry := leaves_of_walk ha hwalk
    simp only [ensures_bind, ensures_get, ensures_ite, ensures_modify, ensures_pure, ← hentry]
    refine ⟨fun hpres => ?_, fun habs => ?_⟩
    · obtain ⟨heff, hleaves⟩ := pokes_leaf htab hr ha hwalk 0 (m.residentPages r - 1)
      refine ⟨heff, rfl, fun hcnt => ?_, ?_⟩
      · exact hcnt.sub ha hpres rfl hleaves (update_self ..)
      · rw [unmapped, if_pos hpres]
        exact hleaves
    · exact ⟨.refl htab, trivial, id, hsame (by simpa using habs)⟩

lemma ensures_protectPage (ha : pageOf a < USER_PAGES) (flags : U64) :
    Ensures (protectPage r flags a) m
      (fun _ m' => Effect r 0 own m own m' ∧ (Counted r m → Counted r m') ∧
        hasFlag (leaves m.words r (pageOf a)) Present ∧ leaves m'.words r =
          update (leaves m.words r) (pageOf a) (leafOf (leaves m.words r (pageOf a)) flags))
      (fun e m' => m' = m ∧ e = .EFAULT ∧ hasFlag (leaves m.words r (pageOf a)) Present =
        false) := by
  unfold protectPage
  simp only [ensures_bind, ensures_get, walkToLeafTable_eq, indexOf_pageOf]
  cases hwalk : walk ENTRIES_PER_TABLE nextTable m.words r (pathOf (pageOf a)) with
  | none =>
    have hzero : leaves m.words r (pageOf a) = 0 :=
      leaves_of_walk_none (List.append_nil (pathOf (pageOf a))) hwalk
    exact ensures_throw.mpr ⟨rfl, rfl, by rw [hzero]; rfl⟩
  | some pt =>
    have hentry := leaves_of_walk ha hwalk
    simp only [ensures_bind, ensures_get, ensures_ite, ensures_modify, ensures_throw, ← hentry]
    refine ⟨fun habs => ⟨trivial, trivial, by simpa using habs⟩, fun hpres => ?_⟩
    have hpres : hasFlag (leaves m.words r (pageOf a)) Present := by simpa using hpres
    obtain ⟨heff, hleaves⟩ := pokes_leaf htab hr ha hwalk
      (leafOf (leaves m.words r (pageOf a)) flags) (m.residentPages r)
    have hsame : (m.setEntry pt (pageOf a % 512)
        (leafOf (leaves m.words r (pageOf a)) flags)).setResident r (m.residentPages r) =
        m.setEntry pt (pageOf a % 512) (leafOf (leaves m.words r (pageOf a)) flags) := by
      simp [Machine.setResident, Machine.setEntry]
    rw [hsame] at heff hleaves
    refine ⟨heff, fun hcnt => ?_, hpres, hleaves⟩
    exact hcnt.same ha hpres hasFlag_leafOf hleaves rfl

end Operations

end ShitOs
