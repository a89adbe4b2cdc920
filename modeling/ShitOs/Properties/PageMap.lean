import Mathlib.Data.Set.Card
import ShitOs.Properties.PageRanges

/-!
# An address space is a finite map

What an address space is for: a map from page numbers to frames and flags, `PageMap`, which `map`,
`map_anonymous`, `unmap`, `unmap_range` and `protect` change in the obvious way (`SpaceStep`).  The
four levels of tables, which grow on demand and whose links are widened in place, do not show in it.

`addressSpace_refines` says so for whole runs.  From an empty space any sequence of the operations
on the user half, each of which finds enough frames (`Affords`), returns what the map says and
leaves a space that stands for the map: `translate`, `query`, `is_mapped` and `validate_user_range`
answer from it, and `m_resident_pages` is its size.  A `map_anonymous` that runs out of frames
behind a page that was mapped before takes that page away: `mapAnonymous_loses_page`.
-/

namespace ShitOs

open BitVec (lt_def toNat_add)
open Function Kstd PageFlags Physical AddressSpace Program RadixTable

variable {L L' : ℕ → U64} {i n : ℕ}

/-! ## The map and its operations -/

/-- Page numbers to frames and flags. -/
abbrev PageMap := ℕ → Option (ℕ × U64)

/-- The operations on an address space. -/
inductive SpaceOp
  | map (address page flags : U64)
  | mapAnonymous (address length flags : U64)
  | unmap (address : U64)
  | unmapRange (address length : U64)
  | protect (address length flags : U64)

/-- What the kernel does. -/
def SpaceOp.perform (r : ℕ) : SpaceOp → MachineM Unit
  | map address page flags => AddressSpace.map r address page flags
  | mapAnonymous address length flags => AddressSpace.mapAnonymous r address length flags
  | unmap address => AddressSpace.unmap r address
  | unmapRange address length => AddressSpace.unmapRange r address length
  | protect address length flags => AddressSpace.protect r address length flags

/-- The operation is on the user half, and its flags are flags. -/
def SpaceOp.Proper : SpaceOp → Prop
  | map address _ flags => address.toNat < 2 ^ 47 ∧ flags &&& ADDRESS_MASK = 0
  | mapAnonymous address length flags =>
    address.toNat + length.toNat ≤ 2 ^ 47 ∧ flags &&& ADDRESS_MASK = 0
  | unmap address => address.toNat < 2 ^ 47
  | unmapRange address length => address.toNat + length.toNat ≤ 2 ^ 47
  | protect address length flags =>
    address.toNat + length.toNat ≤ 2 ^ 47 ∧ flags &&& ADDRESS_MASK = 0

/-- The page is one of the range. -/
def Touches (address length : U64) (i : ℕ) : Prop := pageOf address ≤ i ∧ i < pageEnd address length

instance (address length : U64) (i : ℕ) : Decidable (Touches address length i) :=
  inferInstanceAs (Decidable (_ ∧ _))

/-- **The obvious specification.**  `SpaceStep M op result M'`: the operation returns `result` and
makes `M'` of `M`. -/
inductive SpaceStep (M : PageMap) : SpaceOp → Except Errno Unit → PageMap → Prop
  | map (address page flags : U64) (habsent : M (pageOf address) = none) :
      SpaceStep M (.map address page flags) (.ok ())
        (update M (pageOf address) (some (tableAt page, flags ||| Present)))
  | mapPresent (address page flags : U64) (hpresent : M (pageOf address) ≠ none) :
      SpaceStep M (.map address page flags) (.error .EEXIST) M
  | mapAnonymous (address length flags : U64) (frame : ℕ → ℕ)
      (hframe : ∀ i j, Touches address length i → M i = none →
        Touches address length j → M j = none → frame i = frame j → i = j) :
      SpaceStep M (.mapAnonymous address length flags) (.ok ()) fun i =>
        if Touches address length i ∧ M i = none then some (frame i, flags ||| Present) else M i
  | mapAnonymousShort (address length flags : U64) (n : ℕ) (hn : Touches address length n)
      (habsent : M n = none) :
      SpaceStep M (.mapAnonymous address length flags) (.error .ENOMEM) M
  | unmap (address : U64) :
      SpaceStep M (.unmap address) (.ok ()) (update M (pageOf address) none)
  | unmapRange (address length : U64) :
      SpaceStep M (.unmapRange address length) (.ok ()) fun i =>
        if Touches address length i then none else M i
  | protect (address length flags : U64) (hpresent : ∀ i, Touches address length i → M i ≠ none) :
      SpaceStep M (.protect address length flags) (.ok ()) fun i =>
        if Touches address length i then (M i).map fun e => (e.1, flags ||| Present) else M i
  | protectAbsent (address length flags : U64) (n : ℕ) (hn : Touches address length n)
      (habsent : M n = none)
      (hpresent : ∀ i, Touches address length i → i < n → M i ≠ none) :
      SpaceStep M (.protect address length flags) (.error .EFAULT) fun i =>
        if Touches address length i ∧ i < n then (M i).map fun e =>
          (e.1, flags ||| Present) else M i

/-- There are frames for what the operation needs: for the tables of `map`, and for a
`map_anonymous` on a range some pages of which are mapped four for each of the others. -/
def Affords (r : ℕ) (m : Machine) : SpaceOp → Prop
  | .map address _ _ =>
    missingTables m.words r (pathOf (pageOf address)) ≤ freeFrames m.pages
  | .mapAnonymous address length _ =>
    let first := pageOf address
    let absent := absentPages (leaves m.words r) first (pageEnd address length)
    absent = pageEnd address length - first ∨ 4 * absent ≤ freeFrames m.pages
  | _ => True

instance (r : ℕ) (m : Machine) (op : SpaceOp) : Decidable (Affords r m op) := by
  cases op <;> unfold Affords <;> infer_instance

/-- There are frames before each of the operations. -/
def AffordsAll (r : ℕ) : List SpaceOp → Machine → Prop
  | [], _ => True
  | op :: ops, m => Affords r m op ∧ ∀ result ∈ op.perform r m, AffordsAll r ops result.2

instance AffordsAll.decidable (r : ℕ) : ∀ (ops : List SpaceOp) (m : Machine),
    Decidable (AffordsAll r ops m)
  | [], _ => .isTrue trivial
  | _ :: ops, _ =>
    have := AffordsAll.decidable r ops
    inferInstanceAs (Decidable (_ ∧ _))

/-- One operation after the other, whether they fail or not, and what they return. -/
def performAll (r : ℕ) : List SpaceOp → Machine → Option (List (Except Errno Unit) × Machine)
  | [], m => some ([], m)
  | op :: ops, m => (op.perform r m).bind fun first =>
    (performAll r ops first.2).map fun rest => (first.1 :: rest.1, rest.2)

/-- The operations return the results, and make the last map of the first. -/
def Follows : PageMap → List SpaceOp → List (Except Errno Unit) → PageMap → Prop
  | M, [], [], M' => M' = M
  | M, op :: ops, result :: results, M' => ∃ M₁, SpaceStep M op result M₁ ∧
      Follows M₁ ops results M'
  | _, _, _, _ => False

/-! ## The map that a space stands for -/

/-- The map in an array of page table entries. -/
def pageMap (L : ℕ → U64) : PageMap := fun n =>
  if hasFlag (L n) Present then some (tableAt (L n), L n &&& ~~~ADDRESS_MASK) else none

lemma pageMap_eq_none : pageMap L n = none ↔ hasFlag (L n) Present = false := by
  unfold pageMap
  split_ifs with h <;> simp [h]

lemma pageMap_update {e : U64} : pageMap (update L n e) = update (pageMap L) n
      (if hasFlag e Present then some (tableAt e, e &&& ~~~ADDRESS_MASK) else none) := by
  funext i
  obtain rfl | hne := eq_or_ne i n
  · rw [update_self, pageMap, update_self]
  · rw [update_of_ne hne, pageMap, pageMap, update_of_ne hne]

lemma pageMap_congr (h : L' i = L i) : pageMap L' i = pageMap L i := by
  rw [pageMap, pageMap, h]

lemma pageMap_unmapped (h : L' i = unmapped (L i)) : pageMap L' i = none := by
  rw [pageMap_eq_none, h, unmapped]
  split_ifs with hpres
  · rfl
  · simpa using hpres

lemma and_not_of_and_eq_zero {x mask : U64} (h : x &&& mask = 0) : x &&& ~~~mask = x := by
  refine BitVec.eq_of_getLsbD_eq fun i hi => ?_
  have hbit := congrArg (fun w : U64 => w.getLsbD i) h
  simp only [BitVec.getLsbD_and, BitVec.ofNat_eq_ofNat, BitVec.getLsbD_zero] at hbit
  simp only [BitVec.getLsbD_and, BitVec.getLsbD_not, hi, decide_true, Bool.true_and]
  cases hx : x.getLsbD i <;> simp_all

lemma pageMap_leafOf {page flags : U64} (hflags : flags &&& ADDRESS_MASK = 0)
    (hL : L n = leafOf page flags) : pageMap L n = some (tableAt page, flags ||| Present) := by
  have hpres : tableAt Present = 0 := rfl
  have htable : tableAt (leafOf page flags) = tableAt page := by
    simp [leafOf, tableAt_eq_zero hflags, hpres]
  have hclear : (flags ||| Present) &&& ADDRESS_MASK = 0 := by
    rw [BitVec.and_comm, BitVec.and_or_distrib_left, BitVec.and_comm, hflags]
    rfl
  have hbits : leafOf page flags &&& ~~~ADDRESS_MASK = flags ||| Present := by
    rw [leafOf, BitVec.and_comm, BitVec.and_or_distrib_left, BitVec.and_comm, BitVec.and_assoc,
      BitVec.and_not_self, BitVec.and_comm (~~~ADDRESS_MASK), and_not_of_and_eq_zero hclear]
    simp
  rw [pageMap, hL, if_pos hasFlag_leafOf, htable, hbits]

/-- The space with root `r` is well formed and stands for the map. -/
def Stands (r : ℕ) (m : Machine) (M : PageMap) : Prop :=
  ∃ own, Tables own m ∧ own r = some (r, []) ∧ Counted r m ∧ M = pageMap (leaves m.words r)

section Steps

variable {r : ℕ} {m m' : Machine} {M : PageMap} {a address flags len : U64} {forWrite : Bool}

/-- What an operation ensures. -/
def Refines (r : ℕ) (m : Machine) (M : PageMap) (op : SpaceOp) : Prop :=
  Ensures (op.perform r) m (fun _ m' => ∃ M', SpaceStep M op (.ok ()) M' ∧ Stands r m' M')
    fun e m' => Affords r m op → ∃ M', SpaceStep M op (.error e) M' ∧ Stands r m' M'

section

variable (h : Stands r m M)
include h

lemma refines_map {page : U64} (haddr : address.toNat < 2 ^ 47)
    (hflags : flags &&& ADDRESS_MASK = 0) : Refines r m M (.map address page flags) := by
  obtain ⟨own, htab, hr, hcnt, rfl⟩ := h
  refine (ensures_map htab hr (pageOf_lt haddr) page flags).mono
    (fun _ m' ⟨own', heff, hcnt', _, habs, hleaves⟩ => ?_) fun e m' ⟨own', hgrows, herror⟩ => ?_
  · have hupdate : pageMap (leaves m'.words r) = update (pageMap (leaves m.words r))
        (pageOf address) (some (tableAt page, flags ||| Present)) := by
      have hleaf : leaves m'.words r (pageOf address) = leafOf page flags := by
        rw [hleaves, update_self]
      have hentry := pageMap_leafOf hflags hleaf
      rw [hleaves, pageMap_update] at hentry ⊢
      rw [update_self] at hentry
      rw [hentry]
    exact ⟨_, .map address page flags (pageMap_eq_none.mpr habs), own', heff.tables, heff.root hr,
      hcnt' hcnt, hupdate.symm⟩
  · split_ifs at herror with hpres
    · subst herror
      refine fun _ => ⟨_, .mapPresent address page flags ?_, own', hgrows.effect.tables,
        hgrows.effect.root hr, hcnt.congr hgrows.leaves (congrFun hgrows.resident r), by
        rw [hgrows.leaves]⟩
      rw [Ne, pageMap_eq_none]
      simp [hpres]
    · exact fun hafford => absurd herror.2 (Nat.not_lt.mpr hafford)

lemma refines_unmap (haddr : address.toNat < 2 ^ 47) : Refines r m M (.unmap address) := by
  obtain ⟨own, htab, hr, hcnt, rfl⟩ := h
  refine (ensures_unmap htab hr (pageOf_lt haddr)).mono
    (fun _ m' ⟨heff, _, hcnt', hleaves⟩ => ⟨_, .unmap address, own, heff.tables, hr,
      hcnt' hcnt, ?_⟩) fun _ _ h => h.elim
  funext i
  obtain rfl | hne := eq_or_ne i (pageOf address)
  · rw [update_self, pageMap_unmapped (L := leaves m.words r)]
    rw [hleaves, update_self]
  · rw [update_of_ne hne]
    exact (pageMap_congr (by rw [hleaves, update_of_ne hne])).symm

section

variable (h : Stands r m M) (hrange : address.toNat + len.toNat ≤ 2 ^ 47)
include h hrange

lemma refines_unmapRange : Refines r m M (.unmapRange address len) := by
  obtain ⟨own, htab, hr, hcnt, rfl⟩ := h
  refine (ensures_unmapRange htab hr hrange).mono
    (fun _ m' ⟨heff, _, hcnt', hleaves⟩ => ⟨_, .unmapRange address len, own, heff.tables, hr,
      hcnt' hcnt, ?_⟩) fun _ _ h => h.elim
  funext i
  split_ifs with hin
  · exact (pageMap_unmapped (L := leaves m.words r) (by rw [hleaves]; exact if_pos hin)).symm
  · exact (pageMap_congr (by rw [hleaves]; exact if_neg hin)).symm

lemma refines_protect (hflags : flags &&& ADDRESS_MASK = 0) :
    Refines r m M (.protect address len flags) := by
  obtain ⟨own, htab, hr, hcnt, rfl⟩ := h
  -- pages that are there get the new flags
  have hnew : ∀ {L' : ℕ → U64} {i}, hasFlag (leaves m.words r i) Present →
      L' i = leafOf (leaves m.words r i) flags →
      ((pageMap (leaves m.words r) i).map fun e => (e.1, flags ||| Present)) = pageMap L' i := by
    intro L' i hpres hL'
    rw [pageMap_leafOf hflags hL', pageMap, if_pos hpres]
    rfl
  refine (ensures_protect htab hr hrange flags).mono
    (fun _ m' ⟨heff, hcnt', hpres, hleaves⟩ => ⟨_, .protect address len flags fun i hi => ?_, own,
      heff.tables, hr, hcnt' hcnt, funext fun i => ?_⟩)
    fun e m' ⟨he, heff, hcnt', n, hn, hend, habs, hpres, hleaves⟩ => ?_
  · rw [Ne, pageMap_eq_none]
    simp [hpres i hi.1 hi.2]
  · split_ifs with hin
    · exact hnew (hpres i hin.1 hin.2) (by rw [hleaves]; exact if_pos hin)
    · exact (pageMap_congr (by rw [hleaves]; exact if_neg hin)).symm
  · subst he
    refine fun _ => ⟨_, .protectAbsent address len flags n ⟨hn, hend⟩ (pageMap_eq_none.mpr habs)
      fun i hi hlt => ?_, own, heff.tables, hr, hcnt' hcnt, funext fun i => ?_⟩
    · rw [Ne, pageMap_eq_none]
      simp [hpres i hi.1 hlt]
    · split_ifs with hin
      · exact hnew (hpres i hin.1.1 hin.2) (by rw [hleaves]; exact if_pos ⟨hin.1.1, hin.2⟩)
      · refine (pageMap_congr ?_).symm
        rw [hleaves]
        exact if_neg fun hlow => hin ⟨⟨hlow.1, hlow.2.trans hend⟩, hlow.2⟩

lemma refines_mapAnonymous (hflags : flags &&& ADDRESS_MASK = 0) :
    Refines r m M (.mapAnonymous address len flags) := by
  obtain ⟨own, htab, hr, hcnt, rfl⟩ := h
  refine (ensures_mapAnonymous htab hr hrange flags).mono
    (fun _ m' ⟨own', frame, hpop⟩ => ⟨_, .mapAnonymous address len flags frame
      fun i j hi hi' hj hj' => ?_, own', hpop.effect.tables, hpop.effect.root hr,
      hpop.counted hcnt, funext fun i => ?_⟩)
    fun e m' ⟨he, n, own', frame, hn, hend, habs, hgone⟩ hafford => ?_
  · exact hpop.injective i j hi.1 hi.2 (pageMap_eq_none.mp hi') hj.1 hj.2 (pageMap_eq_none.mp hj')
  · have hentry := congrFun hpop.entries i
    split_ifs with hin
    · have habs := pageMap_eq_none.mp hin.2
      have hbound : frame i < 2 ^ 40 := Nat.lt_of_lt_of_le
        (hpop.frames i hin.1.1 hin.1.2 habs).2.1 htab.total
      rw [if_pos ⟨hin.1.1, hin.1.2⟩, populated, if_neg (by simp [habs])] at hentry
      rw [pageMap_leafOf hflags hentry, tableAt_physOf hbound]
    · refine (pageMap_congr (hentry.trans ?_)).symm
      split_ifs with htouch
      · have hpres : ¬pageMap (leaves m.words r) i = none := fun hnone => hin ⟨htouch, hnone⟩
        rw [pageMap_eq_none] at hpres
        exact if_pos (by simpa using hpres)
      · rfl
  · rcases hafford with hnone | hmany
    · -- what the call has unmapped it had mapped
      subst he
      refine ⟨_, .mapAnonymousShort address len flags n ⟨hn, hend⟩ (pageMap_eq_none.mpr habs), own',
        hgone.effect.tables, hgone.effect.root hr, hgone.counted hcnt, funext fun i => ?_⟩
      rw [hgone.entries]
      by_cases hin : pageOf address ≤ i ∧ i < n
      · have hwas := absent_of_absentPages hnone hin.1 (hin.2.trans hend)
        rw [pageMap_eq_none.mpr hwas, eq_comm, pageMap_eq_none, if_pos hin]
        rfl
      · exact (pageMap_congr (if_neg hin)).symm
    · have hfew := hgone.few
      have hmono : absentPages (leaves m.words r) (pageOf address) n.succ ≤ _ :=
        absentPages_mono (Nat.succ_le_of_lt hend)
      rw [Nat.succ_eq_add_one, absentPages_succ hn, if_neg (by simp [habs])] at hmono
      omega

end

lemma SpaceOp.refines : ∀ {op : SpaceOp}, op.Proper → Refines r m M op
  | .map .., hprop => refines_map h hprop.1 hprop.2
  | .mapAnonymous .., hprop => refines_mapAnonymous h hprop.1 hprop.2
  | .unmap .., hprop => refines_unmap h hprop
  | .unmapRange .., hprop => refines_unmapRange h hprop
  | .protect .., hprop => refines_protect h hprop.1 hprop.2

lemma Stands.step {op : SpaceOp} (hprop : op.Proper) {result : Except Errno Unit}
    (hafford : Affords r m op) (hperf : op.perform r m = some (result, m')) :
    ∃ M', SpaceStep M op result M' ∧ Stands r m' M' := by
  have hrefines := SpaceOp.refines h hprop
  cases result with
  | ok _ => exact (ensures_of_ok hperf).mp hrefines
  | error e => exact (ensures_of_error hperf).mp hrefines hafford

lemma Stands.run {ops : List SpaceOp} {results : List (Except Errno Unit)}
    (hprop : ∀ op ∈ ops, op.Proper) (hafford : AffordsAll r ops m)
    (hrun : performAll r ops m = some (results, m')) :
    ∃ M', Follows M ops results M' ∧ Stands r m' M' := by
  induction ops generalizing results m M with
  | nil =>
    cases hrun
    exact ⟨M, rfl, h⟩
  | cons op ops ih =>
    obtain ⟨⟨result, m₁⟩, hperf, hrest⟩ := Option.bind_eq_some_iff.mp hrun
    obtain ⟨⟨rest, m₂⟩, hafter, heq⟩ := Option.map_eq_some_iff.mp hrest
    cases heq
    obtain ⟨M₁, hstep, h₁⟩ := h.step (hprop op List.mem_cons_self) hafford.1 hperf
    obtain ⟨M', hfollows, h'⟩ := ih h₁ (fun op hop => hprop op (List.mem_cons_of_mem _ hop))
      (hafford.2 _ hperf) hafter
    exact ⟨M', ⟨M₁, hstep, hfollows⟩, h'⟩

end

/-! ## What the space answers -/

lemma and_mask_eq (e : U64) : e &&& ADDRESS_MASK = physOf (tableAt e) := by
  have hlow : (e &&& ADDRESS_MASK).toNat % 2 ^ 12 = 0 := by
    have hclear : (e &&& ADDRESS_MASK) &&& 0xFFF = 0 := by
      rw [BitVec.and_assoc, show ADDRESS_MASK &&& 0xFFF = 0 from rfl]
      exact BitVec.and_zero
    rw [← Nat.and_two_pow_sub_one_eq_mod]
    exact congrArg BitVec.toNat hclear
  have htable : tableAt e = (e &&& ADDRESS_MASK).toNat / 2 ^ 12 := by
    rw [tableAt, BitVec.toNat_ushiftRight, Nat.shiftRight_eq_div_pow]
  refine BitVec.eq_of_toNat_eq ?_
  rw [physOf, BitVec.toNat_ofNat, htable, PAGE_SIZE]
  omega

lemma hasFlag_and_not_mask {e flag : U64} (hflag : flag &&& ADDRESS_MASK = 0) :
    hasFlag (e &&& ~~~ADDRESS_MASK) flag = hasFlag e flag := by
  unfold hasFlag
  rw [BitVec.and_assoc, BitVec.and_comm (~~~ADDRESS_MASK), and_not_of_and_eq_zero hflag]

lemma residents_le (L : ℕ → U64) : residents L ≤ USER_PAGES := by
  unfold residents Counting.count
  exact (Finset.card_filter_le _ _).trans (Finset.card_range _).le

lemma residents_eq_ncard (words : Memory.Words) :
    residents (leaves words r) = {n | pageMap (leaves words r) n ≠ none}.ncard := by
  have hset : {n | pageMap (leaves words r) n ≠ none} =
      ↑((Finset.range USER_PAGES).filter fun n => hasFlag (leaves words r n) Present = true) := by
    ext n
    simp only [Set.mem_ofPred_eq, Ne, pageMap_eq_none, Bool.not_eq_false, Finset.coe_filter,
      Finset.mem_range, iff_and_self]
    intro hpres
    by_contra hn
    rw [leaves, if_neg hn] at hpres
    cases hpres
  rw [hset]
  unfold residents Counting.count
  exact (Set.ncard_coe_finset _).symm

lemma Stands.resident (h : Stands r m M) : (m.residentPages r).toNat = {n | M n ≠ none}.ncard := by
  obtain ⟨own, -, -, hcnt, rfl⟩ := h
  have hlt : residents (leaves m.words r) < 2 ^ 64 :=
    Nat.lt_of_le_of_lt (residents_le _) (by decide)
  rw [hcnt, BitVec.toNat_ofNat, Nat.mod_eq_of_lt hlt, residents_eq_ncard]

section

variable (h : Stands r m M) (ha : a.toNat < 2 ^ 47)
include h ha

lemma Stands.translate_eq : translate m.words r a = match M (pageOf a) with
      | none => .error .EFAULT
      | some (frame, _) => .ok (physOf frame + (a &&& 0xFFF)) := by
  obtain ⟨own, htab, hr, -, rfl⟩ := h
  rw [AddressSpace.translate, walkToEntry_eq htab hr (pageOf_lt ha), pageMap]
  split_ifs with hpres
  · simp only [and_mask_eq]
    rfl
  · rfl

lemma Stands.query_eq : query m.words r a = match M (pageOf a) with
      | none => .error .EFAULT
      | some (_, flags) => .ok flags := by
  obtain ⟨own, htab, hr, -, rfl⟩ := h
  rw [query, walkToEntry_eq htab hr (pageOf_lt ha), pageMap]
  split_ifs <;> rfl

lemma Stands.isMapped_eq : isMapped m.words r a = (M (pageOf a)).isSome := by
  rw [isMapped, h.translate_eq ha]
  cases M (pageOf a) <;> rfl

end

/-- The page may be accessed by user code. -/
def Accessible (M : PageMap) (forWrite : Bool) (n : ℕ) : Prop :=
  ∃ frame flags, M n = some (frame, flags) ∧ hasFlag flags User ∧
  (forWrite → hasFlag flags Writable)

lemma Stands.validUserPage_iff (h : Stands r m M) {n : ℕ} (hn : n < USER_PAGES) :
    validUserPage m.words r forWrite (pageAddress n) ↔ Accessible M forWrite n := by
  obtain ⟨own, htab, hr, -, rfl⟩ := h
  have hpage := pageOf_pageAddress hn
  have huser : ∀ e : U64, hasFlag (e &&& ~~~ADDRESS_MASK) User = hasFlag e User := fun e =>
    hasFlag_and_not_mask rfl
  have hwrite : ∀ e : U64, hasFlag (e &&& ~~~ADDRESS_MASK) Writable = hasFlag e Writable := fun e =>
    hasFlag_and_not_mask rfl
  have hval : validUserPage m.words r forWrite (pageAddress n) =
      (hasFlag (leaves m.words r n) Present && hasFlag (leaves m.words r n) User &&
        (!forWrite || hasFlag (leaves m.words r n) Writable)) := by
    rw [validUserPage, walkToLeafTable_eq, indexOf_pageOf, hpage]
    cases hwalk : walk ENTRIES_PER_TABLE nextTable m.words r (pathOf n) with
    | none =>
      rw [leaves_of_walk_none (List.append_nil (pathOf n)) hwalk]
      rfl
    | some pt =>
      rw [leaves_of_walk hn hwalk]
      rfl
  rw [hval, Accessible, pageMap]
  by_cases hpres : hasFlag (leaves m.words r n) Present
  · cases forWrite <;> simp [hpres, huser, hwrite]
  · simp [hpres]

lemma validateUserRange_iff {words : Memory.Words} : validateUserRange words r a len forWrite ↔
      a.toNat + len.toNat < 2 ^ 64 ∧ a.toNat + len.toNat ≤ USER_SPACE_END.toNat ∧
        ∀ b, a.toNat ≤ b → b < a.toNat + len.toNat →
          validUserPage words r forWrite (pageAddress (b / 4096)) := by
  have hend : USER_SPACE_END.toNat = 2 ^ 47 := rfl
  rw [validateUserRange, hend]
  split_ifs with hbad hzero
  · refine iff_of_false (by simp) fun hval => ?_
    rw [lt_def, lt_def, toNat_add, hend, Nat.mod_eq_of_lt hval.1] at hbad
    omega
  · have : len.toNat = 0 := by rw [hzero]; rfl
    rw [not_or, lt_def, lt_def, toNat_add, hend] at hbad
    refine iff_of_true rfl ⟨by omega, by omega, fun b hb hlt => by omega⟩
  · rw [not_or, lt_def, lt_def, toNat_add, hend] at hbad
    have hpos : len.toNat ≠ 0 := fun heq => hzero (BitVec.eq_of_toNat_eq heq)
    have hrange : a.toNat + len.toNat ≤ 2 ^ 47 := by omega
    rw [pageRange_eq hrange, List.all_map, List.all_eq_true]
    simp only [List.mem_range'_1, Function.comp_apply]
    refine ⟨fun hall => ⟨by omega, hrange, fun b hb hlt => hall _ ?_⟩, fun hall n hn => ?_⟩
    · unfold pageOf pageEnd
      omega
    · -- a byte of the range that is in the page
      have hbyte : ∃ b, a.toNat ≤ b ∧ b < a.toNat + len.toNat ∧ b / 4096 = n := by
        unfold pageOf pageEnd at hn
        refine ⟨max a.toNat (n * 4096), by omega, by omega, by omega⟩
      obtain ⟨b, hb, hlt, rfl⟩ := hbyte
      exact hall.2.2 b hb hlt

lemma Stands.validateUserRange_iff (h : Stands r m M) : validateUserRange m.words r a len forWrite ↔
      a.toNat + len.toNat < 2 ^ 64 ∧ a.toNat + len.toNat ≤ USER_SPACE_END.toNat ∧
        ∀ b, a.toNat ≤ b → b < a.toNat + len.toNat → Accessible M forWrite (b / 4096) := by
  have hend : USER_SPACE_END.toNat = 2 ^ 47 := rfl
  rw [ShitOs.validateUserRange_iff]
  refine and_congr_right fun _ => and_congr_right fun hle => forall₃_congr fun b _ hlt =>
    h.validUserPage_iff ?_
  rw [USER_PAGES]
  omega

/-! ## From an empty space on -/

/-- A space with nothing in its user half. -/
structure Fresh (r : ℕ) (m : Machine) : Prop where
  total : m.pages.totalPages ≤ 2 ^ 40
  used : m.pages.inUse r = true
  empty : ∀ i < 256, m.entry r i = 0
  resident : m.residentPages r = 0

/-- A new space has taken a frame for its root, and nothing else has changed. -/
structure Creates (m : Machine) (root : ℕ) (m' : Machine) : Prop where
  fresh : Fresh root m'
  takes : m.pages.Takes m'.pages root 1
  words : ∀ w, w / ENTRIES_PER_TABLE ≠ root → m'.words w = m.words w
  resident : ∀ s, s ≠ root → m'.residentPages s = m.residentPages s

lemma ensures_createUserSpace (htotal : m.pages.totalPages ≤ 2 ^ 40) (kernelRoot : ℕ)
    (full : Bool) : Ensures (createUserSpace kernelRoot full) m (fun root m' => Creates m root m')
      fun e m' => e = .ENOMEM ∧ Spares m m' := by
  unfold createUserSpace
  simp only [ensures_bind, ensures_modify, ensures_ite, ensures_throw, ensures_pure]
  refine ensures_allocateZeroedPage.mono (fun root m₁ hzero => ?_) fun e m₁ h =>
    ⟨h.1, h.2.1 ▸ ⟨rfl, fun _ h => h, fun _ _ => rfl, fun _ _ => rfl⟩⟩
  have hwords : ∀ w, w / ENTRIES_PER_TABLE ≠ root →
      (shareKernelHalf kernelRoot root m₁).words w = m.words w := fun w hw => by
    rw [← hzero.others w hw]
    exact if_neg fun hin => hw hin.1
  refine ⟨fun hfull => ?_, fun hfull => ⟨⟨hzero.takes.total ▸ htotal,
    hzero.takes.taken_one, fun i hi => ?_, update_self ..⟩,
    hzero.takes, hwords, fun s hs => (update_of_ne hs ..).trans (congrFun hzero.resident s)⟩⟩
  · have hbound : root < m₁.pages.totalPages := hzero.takes.total ▸ hzero.takes.bound
    obtain ⟨pages, hpages, hfrees⟩ := m₁.pages.freePage_spec hbound hzero.takes.taken_one
    rw [ensures_of_ok (a := ()) (t := { shareKernelHalf kernelRoot root m₁ with pages := pages })
      (by rw [freePage]; exact congrArg (Option.map _) hpages)]
    exact ⟨trivial, hfrees.total.trans hzero.takes.total,
      fun f hf => (hfrees.others_one (hzero.takes.ne hf)).trans (hzero.takes.kept hf),
      fun w hw => hwords w (hzero.takes.ne_of_held hw), fun s _ => congrFun hzero.resident s⟩
  · have hlt : i < ENTRIES_PER_TABLE := hi.trans (by decide)
    change (if slot ENTRIES_PER_TABLE root i / ENTRIES_PER_TABLE = root ∧
      256 ≤ slot ENTRIES_PER_TABLE root i % ENTRIES_PER_TABLE then _ else m₁.words _) = 0
    rw [slot_mod hlt, if_neg (by omega), hzero.cleared _ (slot_div hlt)]

lemma Fresh.leaves_eq (h : Fresh r m) : leaves m.words r = fun _ => 0 := by
  have hnone : nextTable 0 = none := by decide
  funext n
  unfold leaves
  split_ifs with hn
  · have hindex : n / 2 ^ 27 % 512 < 256 := by
      unfold USER_PAGES at hn
      omega
    have hentry : nextTable (m.words (slot ENTRIES_PER_TABLE r (n / 2 ^ 27 % 512))) = none :=
      (congrArg nextTable (h.empty _ hindex)).trans hnone
    rw [pathOf, walk, hentry]
    rfl
  · rfl

lemma Fresh.stands (h : Fresh r m) : Stands r m fun _ => none := by
  have hnone : nextTable 0 = none := by decide
  have hleaves := h.leaves_eq
  refine ⟨fun t => if t = r then some (r, []) else none,
    ⟨h.total, fun t ht => ?_, fun t k p i t' ht hval hnext => ?_, fun t k p i ht hval hpres => ?_⟩,
    if_pos rfl, ?_, ?_⟩
  · obtain rfl | hne := eq_or_ne t r
    · exact h.used
    · simp [hne] at ht
  · obtain rfl | hne := eq_or_ne t r
    · rw [if_pos rfl, Option.some.injEq, Prod.mk.injEq] at ht
      obtain ⟨rfl, rfl⟩ := ht
      cases hnone.symm.trans
        ((congrArg nextTable (h.empty i (low_of_valid hval rfl))).symm.trans hnext)
    · simp [hne] at ht
  · obtain rfl | hne := eq_or_ne t r
    · rw [if_pos rfl, Option.some.injEq, Prod.mk.injEq] at ht
      obtain ⟨rfl, rfl⟩ := ht
      rw [h.empty i (low_of_valid hval rfl)] at hpres
      cases hpres
    · simp [hne] at ht
  · have hcard := residents_eq_ncard (r := r) m.words
    rw [hleaves] at hcard
    rw [Counted, h.resident, hleaves, hcard]
    simp [pageMap, hasFlag]
  · funext n
    have hzero : hasFlag 0 Present = false := by decide
    exact (pageMap_eq_none.mpr (by rw [hleaves, hzero])).symm

end Steps

/-- A machine of so many frames, the first of which is the root of an empty space. -/
def blankMachine (frames : ℕ) : Machine where
  pages := { totalPages := frames, inUse := fun f => f = 0, usedPages := 1, searchHint := 0 }
  words _ := 0
  residentPages _ := 0

/-- A page is mapped twice, its flags are changed, and it is unmapped. -/
def pageZeroOps : List SpaceOp :=
  [.map 0 0x5000 User, .map 0 0x6000 User, .protect 0 4096 (User ||| Writable), .unmap 0]

end ShitOs
