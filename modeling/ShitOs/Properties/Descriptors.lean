import ShitOs.Framework.Counting
import ShitOs.Framework.Transition
import ShitOs.Construction.Descriptors
import Mathlib.Data.Finset.Prod

/-!
# Reference counts of descriptions

A description is counted by the slots that name it and, while a call is at work, by that call's own
variables: `open` has a description before it has a slot, `dup` has a slot before it has taken the
reference, `close` has cleared the slot before it gives the reference up.  `Counted base held` is
the invariant with this difference as a parameter.  Each primitive changes `held` by what it takes
or gives, and each call starts and ends with nothing held (`Balanced`), on every one of its paths.

The other counts follow the descriptions alone: the ends of a pipe, and the references to an inode
but for those (`base`) that are not descriptions at all.
-/

namespace ShitOs
namespace DescriptorSystem

open Function Transition Counting

variable {s s' : DescriptorSystem} {base : ℕ → ℕ} {held held' : ℕ → ℤ} {p fd n i : ℕ}
  {access : BitVec 32 → Bool} {d : OpenDescription} {slot : Descriptor} {child inode k parent : ℕ}
  {target : ℤ}

/-! ## What is counted -/

/-- All entries of all tables. -/
def table (s : DescriptorSystem) : Finset (ℕ × ℕ) :=
  Finset.range s.nextProcess ×ˢ Finset.range MAX_FILE_DESCRIPTORS

/-- An entry names description `n`. -/
def Names (n : ℕ) (slot : Option Descriptor) : Prop := slot.map Descriptor.description = some n

instance : DecidablePred (Names n) := fun slot =>
  inferInstanceAs (Decidable (slot.map Descriptor.description = some n))

/-- How many descriptor slots, over all processes, name description `n`. -/
def slotCount (s : DescriptorSystem) (n : ℕ) : ℕ := count s.table (Names n) s.slots

/-- A description is live, on inode `i`, and has such flags. -/
def On (i : ℕ) (access : BitVec 32 → Bool) (d : Option OpenDescription) : Prop :=
  d.any (fun d => d.inode == i && access d.flags) = true

instance {access : BitVec 32 → Bool} : DecidablePred (On i access) := fun _ =>
  inferInstanceAs (Decidable (_ = true))

@[simp] lemma on_none : ¬ On i access none := by simp [On]

@[simp] lemma on_some : On i access (some d) ↔ d.inode = i ∧ access d.flags = true := by
  simp [On]

@[simp] lemma not_names_none : ¬ Names n none := by simp [Names]

@[simp] lemma names_some : Names n (some slot) ↔ slot.description = n := by
  simp [Names]

/-- How many live descriptions are on inode `i` and have such flags. -/
def liveCount (s : DescriptorSystem) (i : ℕ) (access : BitVec 32 → Bool) : ℕ :=
  count (Finset.range s.nextDescription) (On i access) s.descriptions

/-- The access modes that hold a read end. -/
def holdsRead (flags : BitVec 32) : Bool := flags &&& O_ACCMODE != O_WRONLY

/-- The access modes that hold a write end. -/
def holdsWrite (flags : BitVec 32) : Bool := flags &&& O_ACCMODE != O_RDONLY

/-- The access modes that hold an end, a read end or a write end. -/
def holdsEnd : Bool → BitVec 32 → Bool
  | true => holdsRead
  | false => holdsWrite

/-- The open ends of a pipe. -/
def openEnds (pipe : PipeBuffer) : Bool → ℕ
  | true => pipe.readers
  | false => pipe.writers

/-! ## The invariant -/

/-- What is known of description `n`, which has `held` references more than slots. -/
def Kept (s : DescriptorSystem) (n : ℕ) (held : ℤ) : Option OpenDescription → Prop
  | none => held = 0 ∧ s.slotCount n = 0 ∧ (n ∈ s.released ↔ n < s.nextDescription)
  | some d => (d.referenceCount : ℤ) = s.slotCount n + held ∧ 0 < d.referenceCount ∧
      n < s.nextDescription ∧ n ∉ s.released ∧ d.inode < s.nextInode

/-- What is known of inode `i`, to which `base` references are not those of descriptions. -/
structure Ended (s : DescriptorSystem) (i base : ℕ) : Prop where
  ends : ∀ pipe side, s.pipes i = some pipe → openEnds pipe side = s.liveCount i (holdsEnd side)
  references : s.references i = base + s.liveCount i fun _ => true

/-- The counts are right, up to the references the call in progress holds in its variables:
`held n` is how many more references than slots description `n` has.  `base i` is how many
references to inode `i` are not those of descriptions. -/
structure Counted (base : ℕ → ℕ) (held : ℕ → ℤ) (s : DescriptorSystem) : Prop where
  inside : ∀ x, s.slots x ≠ none → x ∈ s.table
  kept : ∀ n, s.Kept n (held n) (s.descriptions n)
  ended : ∀ i, s.Ended i (base i)
  once : s.released.Nodup
  unused : ∀ i, s.nextInode ≤ i → base i = 0

section

variable (h : Counted base held s)
include h

lemma Counted.live (hd : s.descriptions n = some d) : s.Kept n (held n) (some d) :=
  hd ▸ h.kept n

lemma Counted.dead (hn : s.descriptions n = none) : s.Kept n (held n) none :=
  hn ▸ h.kept n

lemma Counted.named {x : ℕ × ℕ} (hslot : s.slots x = some slot) :
    (s.descriptions slot.description).isSome := by
  by_contra hdead
  have hzero := (h.dead (Option.not_isSome_iff_eq_none.mp hdead)).2.1
  exact count_eq_zero_iff.mp hzero x (h.inside x (by simp [hslot])) (by simp [hslot])

lemma Counted.holding (hn : held n ≠ 0) : (s.descriptions n).isSome := by
  by_contra hdead
  exact hn (h.dead (Option.not_isSome_iff_eq_none.mp hdead)).1

/-! ## Changes of a slot -/

omit h in
lemma slotCount_setSlot (hin : (p, fd) ∈ s.table) (slot : Option Descriptor) (m : ℕ) :
    (s.setSlot p fd slot).slotCount m + (if Names m (s.slots (p, fd)) then 1 else 0) =
      s.slotCount m + (if Names m slot then 1 else 0) :=
  count_update hin slot

lemma Counted.setSlot (hin : (p, fd) ∈ s.table)
    {slot : Option Descriptor} (hlive : ∀ d ∈ slot, (s.descriptions d.description).isSome)
    (hheld : ∀ m, held' m = held m + (if Names m (s.slots (p, fd)) then 1 else 0) -
      (if Names m slot then 1 else 0)) : Counted base held' (s.setSlot p fd slot) where
  inside x hx := by
    by_cases hxp : x = (p, fd)
    · exact hxp ▸ hin
    · exact h.inside x (by simpa [DescriptorSystem.setSlot, hxp] using hx)
  kept m := by
    have hcnt := slotCount_setSlot hin slot m
    change Kept _ m _ (s.descriptions m)
    cases hm : s.descriptions m with
    | none =>
      obtain ⟨hzero, hslots, hreleased⟩ := h.dead hm
      have hold : ¬ Names m (s.slots (p, fd)) := count_eq_zero_iff.mp hslots _ hin
      have hnew : ¬ Names m slot := fun hnames => by
        obtain ⟨d, hd, rfl⟩ := Option.map_eq_some_iff.mp hnames
        simpa [hm] using hlive d hd
      refine ⟨by simp [hheld, hold, hnew, hzero], ?_, hreleased⟩
      simpa [hold, hnew, hslots] using hcnt
    | some d =>
      obtain ⟨hreferences, hrest⟩ := h.live hm
      refine ⟨?_, hrest⟩
      rw [hheld]
      split_ifs at * <;> omega
  ended i := ⟨(h.ended i).ends, (h.ended i).references⟩
  once := h.once
  unused := h.unused

/-! ## Changes of a description -/

/-- **One description** is made, changed or destroyed.  The live ones are counted anew. -/
lemma Counted.replace {d : Option OpenDescription}
    (hsame : s'.slots = s.slots ∧ s'.nextProcess = s.nextProcess ∧ s'.nextInode = s.nextInode)
    (hdescs : s'.descriptions = update s.descriptions n d) (hn : n < s'.nextDescription)
    (hothers : ∀ m, m ≠ n → held' m = held m ∧ (m ∈ s'.released ↔ m ∈ s.released) ∧
      (m < s'.nextDescription ↔ m < s.nextDescription))
    (hkept : s'.Kept n (held' n) d) (honce : s'.released.Nodup)
    (hended : ∀ i,
      (∀ access, s'.liveCount i access + (if On i access (s.descriptions n) then 1 else 0) =
      s.liveCount i access + if On i access d then 1 else 0) → s'.Ended i (base i)) :
    Counted base held' s' := by
  obtain ⟨hslots, hproc, hinode⟩ := hsame
  have hcnt : ∀ m, s'.slotCount m = s.slotCount m := fun m => by
    simp only [slotCount, table, hslots, hproc]
  refine ⟨fun x hx => ?_, fun m => ?_, fun i => hended i fun access => ?_, honce, hinode ▸ h.unused⟩
  · rw [table, hproc]
    exact h.inside x (hslots ▸ hx)
  · rw [hdescs]
    obtain rfl | hm := eq_or_ne m n
    · rwa [update_self]
    · obtain ⟨hheld, hreleased, hnext⟩ := hothers m hm
      rw [update_of_ne hm]
      have hold := h.kept m
      cases hd : s.descriptions m <;> rw [hd] at hold <;>
        simpa only [Kept, hcnt, hheld, hreleased, hnext, hinode] using hold
  · -- what is at or beyond the next number is not live
    have hgrow : count (Finset.range s'.nextDescription) (On i access) s.descriptions =
        s.liveCount i access := by
      have hdead : ∀ m, ¬ m < s.nextDescription → s.descriptions m = none := fun m hge => by
        by_contra hlive
        obtain ⟨e, he⟩ := Option.ne_none_iff_exists'.mp hlive
        exact hge (h.live he).2.2.1
      refine count_subset (fun m hm => ?_) fun m _ hm => ?_
      · have hm := Finset.mem_range.mp hm
        obtain rfl | hne := eq_or_ne m n
        · exact Finset.mem_range.mpr hn
        · exact Finset.mem_range.mpr ((hothers m hne).2.2.mpr hm)
      · rw [hdead m (by simpa using hm)]
        exact on_none
    rw [liveCount, hdescs, ← hgrow]
    exact count_update (Finset.mem_range.mpr hn) d

/-- A live description is changed, apart from its inode and its access mode. -/
lemma Counted.alter {d' : OpenDescription} (hd : s.descriptions n = some d)
    (hinode : d'.inode = d.inode) (haccess : d'.flags &&& O_ACCMODE = d.flags &&& O_ACCMODE)
    (hpos : 0 < d'.referenceCount) (hheld : ∀ m, held' m =
      held m + if m = n then (d'.referenceCount : ℤ) - d.referenceCount else 0) :
    Counted base held'
      { s with descriptions := update s.descriptions n (some d') } := by
  obtain ⟨hreferences, -, hlt, hnot, hmade⟩ := h.live hd
  refine h.replace ⟨rfl, rfl, rfl⟩ rfl hlt (fun m hm => by simp [hheld, hm])
    ⟨?_, hpos, hlt, hnot, hinode ▸ hmade⟩ h.once fun i hlive => ?_
  · rw [hheld, if_pos rfl]
    change _ = (s.slotCount n : ℤ) + _
    omega
  · have hsame : ∀ access, access d'.flags = access d.flags → liveCount
        { s with descriptions := update s.descriptions n (some d') } i access =
          s.liveCount i access := by
      intro access heq
      simpa [hd, hinode, heq] using hlive access
    refine ⟨fun pipe side hpipe => ?_, ?_⟩
    · rw [hsame _ (by cases side <;> simp [holdsEnd, holdsRead, holdsWrite, haccess])]
      exact (h.ended i).ends pipe side hpipe
    · rw [hsame _ rfl]
      exact (h.ended i).references

lemma Counted.ref (hlive : (s.descriptions n).isSome)
    (hheld : ∀ m, held' m = held m + if m = n then 1 else 0) : Counted base held' (s.ref n) := by
  obtain ⟨d, hd⟩ := Option.isSome_iff_exists.mp hlive
  simp only [DescriptorSystem.ref, hd, Option.map_some]
  refine h.alter hd rfl rfl (Nat.succ_pos _) fun m => ?_
  rw [hheld]
  split_ifs <;> push_cast <;> omega

/-! ## The life of a description -/

omit h in
lemma openEnds_opened (pipe : PipeBuffer) (flags : BitVec 32) (side : Bool) :
    openEnds (pipe.opened flags) side = openEnds pipe side + if holdsEnd side flags then 1
      else 0 := by
  cases side <;> simp only [openEnds, holdsEnd, PipeBuffer.opened, holdsRead, holdsWrite,
    bne_iff_ne] <;>
    split_ifs <;> simp_all [O_RDONLY, O_WRONLY]

omit h in
lemma openEnds_closed (pipe : PipeBuffer) (flags : BitVec 32) (side : Bool) :
    openEnds (pipe.closed flags) side = openEnds pipe side - if holdsEnd side flags then 1
      else 0 := by
  cases side <;> simp only [openEnds, holdsEnd, PipeBuffer.closed, holdsRead, holdsWrite,
    bne_iff_ne] <;>
    split_ifs <;> simp_all

omit h in
lemma pipes_updatePipe {f : PipeBuffer → PipeBuffer} {pipe : PipeBuffer}
    (hpipe : (s.updatePipe inode f).pipes i = some pipe) :
    ∃ old, s.pipes i = some old ∧ pipe = if inode = i then f old else old := by
  by_cases hi : inode = i
  · subst hi
    have hmap : (s.pipes inode).map f = some pipe := by simpa [updatePipe] using hpipe
    obtain ⟨old, hold, rfl⟩ := Option.map_eq_some_iff.mp hmap
    exact ⟨old, hold, (if_pos rfl).symm⟩
  · have hne : i ≠ inode := fun h => hi h.symm
    exact ⟨pipe, by simpa [updatePipe, hne] using hpipe, (if_neg hi).symm⟩

/-- The constructor of a description: the caller holds the one reference. -/
lemma Counted.create (hinode : inode < s.nextInode)
    (flags : BitVec 32) (hheld : ∀ m, m ≠ s.nextDescription → held' m = held m)
    (hnew : held' s.nextDescription = 1) :
    Counted base held' (s.createDescription inode flags) := by
  have hfresh : s.descriptions s.nextDescription = none := by
    by_contra hlive
    obtain ⟨d, hd⟩ := Option.ne_none_iff_exists'.mp hlive
    exact Nat.lt_irrefl _ (h.live hd).2.2.1
  obtain ⟨-, hzero, hreleased⟩ := h.dead hfresh
  refine h.replace ⟨rfl, rfl, rfl⟩ rfl (Nat.lt_succ_self _) (fun m hm => ⟨hheld m hm, Iff.rfl, ?_⟩)
    ⟨?_, Nat.one_pos, Nat.lt_succ_self _, mt hreleased.mp (Nat.lt_irrefl _), hinode⟩ h.once
    fun i hlive => ⟨fun pipe side hpipe => ?_, ?_⟩
  · change m < s.nextDescription + 1 ↔ _
    omega
  · change (1 : ℤ) = s.slotCount s.nextDescription + _
    simp [hzero, hnew]
  · obtain ⟨old, hold, rfl⟩ := pipes_updatePipe hpipe
    have hends := (h.ended i).ends old side hold
    by_cases hi : inode = i
    · simp_all [openEnds_opened]
    · simp_all
  · have hreferences := (h.ended i).references
    have hmore := hlive fun _ => true
    change update s.references inode _ i = _
    by_cases hi : inode = i
    · simp only [hfresh, hi, on_none, on_some, update_self, and_self, if_true, if_false] at hmore ⊢
      omega
    · rw [update_of_ne fun he => hi he.symm]
      simp only [hfresh, hi, on_none, on_some, false_and, if_false] at hmore
      omega

/-- The last reference goes: no slot names the description any more. -/
lemma Counted.destroyDescription (hd : s.descriptions n = some d) (hlast : d.referenceCount = 1)
    (hone : held n = 1) (hheld : ∀ m, held' m = if m = n then 0 else held m) :
    Counted base held' (s.destroyDescription n d) := by
  obtain ⟨hreferences, -, hlt, hnot, -⟩ := h.live hd
  have hslots : s.slotCount n = 0 := by omega
  refine h.replace ⟨rfl, rfl, rfl⟩ rfl hlt (fun m hm => ⟨by rw [hheld, if_neg hm], ?_, Iff.rfl⟩)
    ⟨by rw [hheld, if_pos rfl], hslots, iff_of_true List.mem_cons_self hlt⟩
      (List.nodup_cons.mpr ⟨hnot, h.once⟩)
    fun i hlive => ⟨fun pipe side hpipe => ?_, ?_⟩
  · change m ∈ n :: s.released ↔ _
    simp [hm]
  · obtain ⟨old, hold, rfl⟩ := pipes_updatePipe hpipe
    have hends := (h.ended i).ends old side hold
    have hless := hlive (holdsEnd side)
    simp only [hd, on_some, on_none, if_false, Nat.add_zero] at hless
    by_cases hi : d.inode = i
    · simp only [hi, if_true, true_and, openEnds_closed] at hless ⊢
      omega
    · simp only [hi, if_false, false_and] at hless ⊢
      omega
  · have hcnt := (h.ended i).references
    have hless := hlive fun _ => true
    simp only [hd, on_some, on_none, if_false, Nat.add_zero] at hless
    change update s.references d.inode _ i = _
    by_cases hi : d.inode = i
    · simp only [hi, update_self, and_self, if_true] at hless ⊢
      omega
    · rw [update_of_ne fun he => hi he.symm]
      simp only [hi, false_and, if_false] at hless
      omega

lemma Counted.releaseDescription (hone : held n = 1)
    (hheld : ∀ m, held' m = if m = n then 0 else held m) :
    Counted base held' (s.releaseDescription n) := by
  obtain ⟨d, hd⟩ := Option.isSome_iff_exists.mp (h.holding (n := n) (by simp [hone]))
  have hpos := (h.live hd).2.1
  simp only [DescriptorSystem.releaseDescription, hd]
  split_ifs with hlast
  · exact h.destroyDescription hd hlast hone hheld
  · refine h.alter hd rfl rfl (by dsimp only; omega) fun m => ?_
    rw [hheld]
    split_ifs with hm
    · subst hm
      dsimp only
      omega
    · rw [Int.add_zero]

end

/-! ## Tables -/

@[simp] lemma slots_releaseDescription : (s.releaseDescription n).slots = s.slots := by
  unfold DescriptorSystem.releaseDescription
  split
  · rfl
  · split <;> rfl

lemma mem_table : (p, fd) ∈ s.table ↔ p < s.nextProcess ∧ fd < MAX_FILE_DESCRIPTORS := by
  simp [table]

@[simp] lemma slots_setSlot_self {slot : Option Descriptor} :
    (s.setSlot p fd slot).slots (p, fd) = slot := by
  simp [DescriptorSystem.setSlot]

lemma descriptionFor_eq_ok {fd : ℤ} (hfor : s.descriptionFor p fd = .ok n) :
    ∃ slot, fd = fd.toNat ∧ fd.toNat < MAX_FILE_DESCRIPTORS ∧
      s.slots (p, fd.toNat) = some slot ∧ slot.description = n := by
  unfold descriptionFor at hfor
  split_ifs at hfor with hrange
  split at hfor
  · cases hfor
  · next slot hslot => exact ⟨slot, by omega, by omega, hslot, by simpa using hfor⟩

lemma descriptionFor_of_slot (hfd : fd < MAX_FILE_DESCRIPTORS)
    (hslot : s.slots (p, fd) = some slot) : s.descriptionFor p fd = .ok slot.description := by
  simp [descriptionFor, hslot, hfd]

/-- `allocate_descriptor` fails and changes nothing, or fills a free slot. -/
lemma allocateDescriptor_cases (s : DescriptorSystem) (p n : ℕ) (lowest : ℤ) :
    (∃ e, s.allocateDescriptor p n lowest = (.error e, s)) ∨
      ∃ fd, fd < MAX_FILE_DESCRIPTORS ∧ s.slots (p, fd) = none ∧
        s.allocateDescriptor p n lowest = (.ok fd, s.setSlot p fd (some ⟨n, false⟩)) := by
  unfold allocateDescriptor
  split_ifs with hlowest
  · exact Or.inl ⟨_, rfl⟩
  · split
    · exact Or.inl ⟨_, rfl⟩
    · next fd hfree =>
        have hmem := List.mem_of_find?_eq_some hfree
        have hnone := List.find?_some hfree
        rw [List.mem_range'_1] at hmem
        exact Or.inr ⟨fd, by omega, by simpa using hnone, rfl⟩

lemma allocateDescriptor_of_free (hfd : fd < MAX_FILE_DESCRIPTORS)
    (hfree : s.slots (p, fd) = none) :
    s.allocateDescriptor p n fd = (.ok fd, s.setSlot p fd (some ⟨n, false⟩)) := by
  have hneg : ¬ (fd : ℤ) < 0 := by omega
  have hrange : List.range' fd (MAX_FILE_DESCRIPTORS - fd) =
      fd :: List.range' (fd + 1) (MAX_FILE_DESCRIPTORS - fd - 1) := by
    rw [show MAX_FILE_DESCRIPTORS - fd = MAX_FILE_DESCRIPTORS - fd - 1 + 1 by omega,
      List.range'_succ, Nat.add_sub_cancel]
  simp [allocateDescriptor, firstFree, hneg, hrange, hfree]

section

variable (h : Counted base held s)
include h

lemma Counted.fill (hp : p < s.nextProcess) (hfd : fd < MAX_FILE_DESCRIPTORS)
    (hfree : s.slots (p, fd) = none) (hlive : (s.descriptions n).isSome) (marked : Bool)
    (hheld : ∀ m, held' m = held m - if m = n then 1 else 0) :
    Counted base held' (s.setSlot p fd (some ⟨n, marked⟩)) := by
  refine h.setSlot (mem_table.mpr ⟨hp, hfd⟩) (by simpa using hlive) fun m => ?_
  rw [hheld, hfree]
  simp [eq_comm]

lemma Counted.clear (hslot : s.slots (p, fd) = some slot)
    (hheld : ∀ m, held' m = held m + if m = slot.description then 1 else 0) :
    Counted base held' (s.setSlot p fd none) := by
  refine h.setSlot (h.inside _ (by simp [hslot])) (by simp) fun m => ?_
  rw [hheld, hslot]
  simp [eq_comm]

lemma Counted.closeDescriptor {fd : ℤ} (hzero : ∀ n, s.descriptionFor p fd = .ok n → held n = 0) :
    Counted base held (s.closeDescriptor p fd).2 := by
  unfold DescriptorSystem.closeDescriptor
  split
  · exact h
  · next n hfor =>
      obtain ⟨slot, -, -, hslot, rfl⟩ := descriptionFor_eq_ok hfor
      have hzero := hzero _ hfor
      have hclear : Counted base (fun m => held m + if m = slot.description then 1 else 0)
          (s.setSlot p fd.toNat none) := h.clear hslot fun _ => rfl
      refine hclear.releaseDescription (by simp [hzero]) fun m => ?_
      split_ifs with hm
      · rw [hm, hzero]
      · rw [Int.add_zero]

lemma Counted.setCloseOnExec (fd : ℤ) (closeOnExec : Bool) :
    Counted base held (s.setCloseOnExec p fd closeOnExec).2 := by
  unfold DescriptorSystem.setCloseOnExec
  split
  · exact h
  · next n hfor =>
      obtain ⟨slot, -, -, hslot, rfl⟩ := descriptionFor_eq_ok hfor
      refine h.setSlot (h.inside _ (by simp [hslot])) ?_ fun m => ?_
      · simpa using h.named hslot
      · rw [hslot]
        simp

end

lemma slots_closeDescriptor (hfd : fd < MAX_FILE_DESCRIPTORS)
    (hslot : s.slots (p, fd) = some slot) :
    (s.closeDescriptor p fd).2.slots = update s.slots (p, fd) none := by
  simp [DescriptorSystem.closeDescriptor, descriptionFor_of_slot hfd hslot,
    DescriptorSystem.setSlot]

/-! ## Calls -/

/-- At the boundary of a call nothing is held. -/
def Balanced (base : ℕ → ℕ) (s : DescriptorSystem) : Prop := Counted base (fun _ => 0) s

lemma Counted.liveCount_eq_zero (h : Counted base held s) (hi : s.nextInode ≤ i)
    (access : BitVec 32 → Bool) : s.liveCount i access = 0 := by
  refine count_eq_zero_iff.mpr fun m _ hon => ?_
  cases hd : s.descriptions m with
  | none => simp [hd] at hon
  | some d =>
    have hinode := (h.live hd).2.2.2.2
    simp only [hd, on_some] at hon
    omega

lemma Counted.lt_nextInode (h : Counted base held s) (hpos : 0 < s.references i) :
    i < s.nextInode := by
  by_contra hge
  have := h.liveCount_eq_zero (Nat.le_of_not_lt hge) fun _ => true
  have := (h.ended i).references
  have := h.unused i (by omega)
  omega

lemma Balanced.sysOpen (h : Balanced base s) (hp : p < s.nextProcess)
    (hinode : 0 < s.references inode) (flags : BitVec 32) :
    Balanced base (s.sysOpen p inode flags).2 := by
  have hcreate : Counted base (fun m => if m = s.nextDescription then 1 else 0)
      (s.createDescription inode flags) :=
    h.create (h.lt_nextInode hinode) flags (fun m hm => if_neg hm) (if_pos rfl)
  have hlive := hcreate.holding (n := s.nextDescription) (by simp)
  unfold DescriptorSystem.sysOpen
  obtain ⟨e, heq⟩ | ⟨fd, hfd, hfree, heq⟩ :=
    allocateDescriptor_cases (s.createDescription inode flags) p s.nextDescription 0
  · simp only [heq]
    exact hcreate.releaseDescription (if_pos rfl) fun m => by split_ifs <;> rfl
  · have hfill : Balanced base ((s.createDescription inode flags).setSlot p fd
        (some ⟨s.nextDescription, false⟩)) :=
      hcreate.fill hp hfd hfree hlive false fun m => by omega
    simp only [heq]
    split_ifs
    · exact Counted.setCloseOnExec hfill fd true
    · exact hfill

/-- `dup` and `F_DUPFD` fill the slot first and take the reference afterwards. -/
lemma Balanced.fill_ref (h : Balanced base s) (hp : p < s.nextProcess)
    (hfd : fd < MAX_FILE_DESCRIPTORS) (hfree : s.slots (p, fd) = none)
    (hlive : (s.descriptions n).isSome) :
    Balanced base ((s.setSlot p fd (some ⟨n, false⟩)).ref n) := by
  have hfill : Counted base (fun m => 0 - if m = n then 1 else 0)
      (s.setSlot p fd (some ⟨n, false⟩)) := h.fill hp hfd hfree hlive false fun _ => rfl
  exact hfill.ref hlive fun m => by omega

@[simp] lemma nextProcess_releaseDescription :
    (s.releaseDescription n).nextProcess = s.nextProcess := by
  unfold DescriptorSystem.releaseDescription
  split
  · rfl
  · split <;> rfl

@[simp] lemma nextProcess_closeDescriptor {fd : ℤ} :
    (s.closeDescriptor p fd).2.nextProcess = s.nextProcess := by
  unfold DescriptorSystem.closeDescriptor
  split
  · rfl
  · exact nextProcess_releaseDescription

lemma slots_close (s : DescriptorSystem) (p : ℕ) (hfd : fd < MAX_FILE_DESCRIPTORS) :
    (s.closeDescriptor p fd).2.slots = update s.slots (p, fd) none := by
  cases hslot : s.slots (p, fd) with
  | none =>
    have hsame : (s.closeDescriptor p fd).2 = s := by
      simp [DescriptorSystem.closeDescriptor, descriptionFor, hslot]
    rw [hsame, ← hslot, update_eq_self]
  | some slot => exact slots_closeDescriptor hfd hslot

section

variable (h : Balanced base s) (hp : p < s.nextProcess)
include h hp

lemma Balanced.duplicate {fd : ℤ}
    (hfor : s.descriptionFor p fd = .ok n) : Balanced base (s.duplicate p fd target n).2 := by
  obtain ⟨slot, hnat, -, hslot, rfl⟩ := descriptionFor_eq_ok hfor
  unfold DescriptorSystem.duplicate
  split_ifs with hneg hlarge hsame
  · obtain ⟨e, heq⟩ | ⟨free, hfree, hnone, heq⟩ :=
      allocateDescriptor_cases s p slot.description 0
    · simp only [heq]
      exact h
    · simp only [heq]
      exact h.fill_ref hp hfree hnone (h.named hslot)
  · exact h
  · exact h
  · -- the slot `fd` keeps the description alive while `target` is closed
    obtain ⟨t, rfl⟩ : ∃ t : ℕ, target = t := ⟨target.toNat, by omega⟩
    have ht : t < MAX_FILE_DESCRIPTORS := by omega
    have hclose : Balanced base (s.closeDescriptor p t).2 :=
      Counted.closeDescriptor h fun _ _ => rfl
    have hslots := slots_close s p ht
    have hkept : (s.closeDescriptor p t).2.slots (p, fd.toNat) = some slot := by
      rw [hslots, update_of_ne (by simp; omega), hslot]
    have hlive := hclose.named hkept
    have href : Counted base (fun m => 0 + if m = slot.description then 1 else 0)
        ((s.closeDescriptor p t).2.ref slot.description) := Counted.ref hclose hlive fun _ => rfl
    have hnone : ((s.closeDescriptor p t).2.ref slot.description).slots (p, t) = none := by
      change (s.closeDescriptor p t).2.slots (p, t) = none
      rw [hslots, update_self]
    refine href.fill (by simpa [DescriptorSystem.ref] using hp) ht hnone
      (href.holding (by simp)) false fun m => ?_
    omega

lemma Balanced.duplicateDescriptor {fd : ℤ} :
    Balanced base (s.duplicateDescriptor p fd target).2 := by
  unfold DescriptorSystem.duplicateDescriptor
  split
  · exact h
  · next hfor => exact h.duplicate hp hfor

lemma Balanced.sysDupfd {fd lowest : ℤ}
    {closeOnExec : Bool} : Balanced base (s.sysDupfd p fd lowest closeOnExec).2 := by
  unfold DescriptorSystem.sysDupfd
  split
  · exact h
  · next n hfor =>
      obtain ⟨slot, -, -, hslot, rfl⟩ := descriptionFor_eq_ok hfor
      obtain ⟨e, heq⟩ | ⟨free, hfree, hnone, heq⟩ :=
        allocateDescriptor_cases s p slot.description lowest
      · simp only [heq]
        exact h
      · have hfill := h.fill_ref hp hfree hnone (h.named hslot)
        have hmarked := Counted.setCloseOnExec (p := p) hfill (↑free) closeOnExec
        simp only [heq]
        split <;> next hset => exact congrArg Prod.snd hset ▸ hmarked

end

lemma accessMode_setfl (old flags : BitVec 32) :
    ((old &&& ~~~O_SETFL_MASK) ||| (flags &&& O_SETFL_MASK)) &&& O_ACCMODE = old &&& O_ACCMODE := by
  have hkept : ~~~O_SETFL_MASK &&& O_ACCMODE = O_ACCMODE := by decide
  have hmasked : O_SETFL_MASK &&& O_ACCMODE = 0 := by decide
  rw [BitVec.and_comm, BitVec.and_or_distrib_left, BitVec.and_comm _ (old &&& _),
    BitVec.and_comm _ (flags &&& _), BitVec.and_assoc, BitVec.and_assoc, hkept, hmasked]
  simp

lemma Balanced.sysSetfl (h : Balanced base s) {fd : ℤ} {flags : BitVec 32} :
    Balanced base (s.sysSetfl p fd flags).2 := by
  unfold DescriptorSystem.sysSetfl
  split
  · exact h
  · next n hfor =>
      obtain ⟨slot, -, -, hslot, rfl⟩ := descriptionFor_eq_ok hfor
      obtain ⟨d, hd⟩ := Option.isSome_iff_exists.mp (h.named hslot)
      simp only [hd, Option.map_some]
      refine Counted.alter h hd rfl (accessMode_setfl d.flags flags) (h.live hd).2.1 ?_
      simp

/-! ### `pipe` -/

lemma Balanced.newInode (h : Balanced base s) : Balanced base { s with
      nextInode := s.nextInode + 1
      pipes := update s.pipes s.nextInode (some PipeBuffer.empty)
      references := update s.references s.nextInode 0 } := by
  have hnone := h.liveCount_eq_zero (Nat.le_refl s.nextInode)
  refine ⟨h.inside, fun m => ?_, fun i => ⟨fun pipe side hpipe => ?_, ?_⟩, h.once,
    fun i hi => h.unused i (Nat.le_of_succ_le hi)⟩
  · have hold := h.kept m
    cases hd : s.descriptions m <;> rw [hd] at hold
    · exact hold
    · exact ⟨hold.1, hold.2.1, hold.2.2.1, hold.2.2.2.1, Nat.lt_succ_of_lt hold.2.2.2.2⟩
  · by_cases hi : i = s.nextInode
    · obtain rfl : PipeBuffer.empty = pipe := by simpa [hi] using hpipe
      subst hi
      exact Eq.trans (by cases side <;> rfl) (hnone (holdsEnd side)).symm
    · exact (h.ended i).ends pipe side (by simpa [hi] using hpipe)
  · by_cases hi : i = s.nextInode
    · subst hi
      have hlive := hnone fun _ => true
      have hbase := h.unused _ (Nat.le_refl _)
      simp only [update_self]
      exact (Nat.add_eq_zero_iff.mpr ⟨hbase, hlive⟩).symm
    · exact (update_of_ne hi _ _).trans (h.ended i).references

/-- Between `create_pair` and the tables, the call holds both ends. -/
def heldEnds (readEnd writeEnd m : ℕ) : ℤ :=
  if m = readEnd then 1 else if m = writeEnd then 1 else 0

section

variable (h : Balanced base s)
include h

lemma Balanced.createPair :
    Counted base (heldEnds s.nextDescription (s.nextDescription + 1)) s.createPair := by
  have hread : Counted base (fun m => if m = s.nextDescription then 1 else 0) _ :=
    Counted.create h.newInode (Nat.lt_succ_self _) O_RDONLY (fun m hm => if_neg hm) (if_pos rfl)
  refine hread.create (Nat.lt_succ_self _) O_WRONLY (fun m hm => ?_) ?_
  · have hm : m ≠ s.nextDescription + 1 := hm
    simp [heldEnds, hm]
  · change heldEnds s.nextDescription (s.nextDescription + 1) (s.nextDescription + 1) = 1
    simp [heldEnds]

lemma Balanced.sysPipe (hp : p < s.nextProcess) {copied : Bool} :
    Balanced base (s.sysPipe p copied).2 := by
  have hpair := h.createPair
  have hlive := hpair.holding (n := s.nextDescription) (by simp [heldEnds])
  unfold DescriptorSystem.sysPipe
  obtain ⟨e, heq⟩ | ⟨readFd, hreadFd, hfree, heq⟩ :=
    allocateDescriptor_cases s.createPair p s.nextDescription 0
  · have hread : Counted base (fun m => if m = s.nextDescription + 1 then 1 else 0)
        (s.createPair.releaseDescription s.nextDescription) :=
      hpair.releaseDescription (by simp [heldEnds]) fun m => by
        unfold heldEnds
        split_ifs <;> omega
    simp only [heq]
    exact hread.releaseDescription (if_pos rfl) fun m => by split_ifs <;> rfl
  have hread : Counted base (fun m => if m = s.nextDescription + 1 then 1 else 0)
      (s.createPair.setSlot p readFd (some ⟨s.nextDescription, false⟩)) :=
    hpair.fill hp hreadFd hfree hlive false fun m => by
      unfold heldEnds
      split_ifs <;> omega
  have hother := hread.holding (n := s.nextDescription + 1) (by simp)
  simp only [heq]
  obtain ⟨e, heq'⟩ | ⟨writeFd, hwriteFd, hfree', heq'⟩ := allocateDescriptor_cases
    (s.createPair.setSlot p readFd (some ⟨s.nextDescription, false⟩)) p (s.nextDescription + 1) 0
  · simp only [heq']
    refine (hread.closeDescriptor fun n hfor => ?_).releaseDescription (if_pos rfl) fun m => by
      split_ifs <;> rfl
    -- the slot just filled is the one being closed
    obtain ⟨slot, -, -, hslot, rfl⟩ := descriptionFor_eq_ok hfor
    obtain rfl : _ = slot := by simpa using hslot
    simp
  · have hboth : Balanced base ((s.createPair.setSlot p readFd
        (some ⟨s.nextDescription, false⟩)).setSlot p writeFd
          (some ⟨s.nextDescription + 1, false⟩)) :=
      hread.fill hp hwriteFd hfree' hother false fun m => by omega
    simp only [heq']
    split_ifs
    · exact hboth
    · exact Counted.closeDescriptor (Counted.closeDescriptor hboth fun _ _ => rfl) fun _ _ => rfl

/-! ### Loops over a table -/

/-- What the loops that close part of a table have done after `k` turns. -/
lemma Balanced.foldl_closeIf (want : Descriptor → Bool)
    (hk : k ≤ MAX_FILE_DESCRIPTORS) : let after := (List.range k).foldl (closeIf p want) s
    Balanced base after ∧ ∀ x, after.slots x =
      if x.1 = p ∧ x.2 < k ∧ (s.slots x).any want then none else s.slots x := by
  induction k with
  | zero => exact ⟨h, fun x => by simp⟩
  | succ k ih =>
    obtain ⟨hbalanced, hslots⟩ := ih (Nat.le_of_succ_le hk)
    simp only [List.range_succ, List.foldl_append, List.foldl_cons, List.foldl_nil]
    generalize (List.range k).foldl (closeIf p want) s = before at *
    have hcur : before.slots (p, k) = s.slots (p, k) := by simp [hslots]
    -- the turn of the loop for slot `k`
    have hturn : ∀ x, (closeIf p want before k).slots x =
        if x = (p, k) ∧ (s.slots x).any want then none else before.slots x := by
      intro x
      unfold closeIf
      rw [hcur]
      split
      · next hnone =>
          split_ifs with hx
          · rw [hx.1, hnone] at hx
            simp at hx
          · rfl
      · next slot hslot =>
          split_ifs with hwanted hx hx
          · rw [slots_close before p hk, hx.1, update_self]
          · have hne : x ≠ (p, k) := fun he => hx ⟨he, by simpa [he, hslot] using hwanted⟩
            rw [slots_close before p hk, update_of_ne hne]
          · rw [hx.1, hslot] at hx
            exact absurd hx.2 (by simpa using hwanted)
          · rfl
    refine ⟨?_, fun x => ?_⟩
    · unfold closeIf
      split
      · exact hbalanced
      · split_ifs
        · exact Counted.closeDescriptor hbalanced fun _ _ => rfl
        · exact hbalanced
    · rw [hturn, hslots]
      obtain ⟨q, fd⟩ := x
      by_cases hany : (s.slots (q, fd)).any want = true
      · simp only [hany, and_true, Prod.mk.injEq]
        split_ifs <;> first | rfl | omega
      · simp [hany]

lemma Balanced.newProcess : Balanced base { s with
      nextProcess := s.nextProcess + 1
      exited := update s.exited s.nextProcess false } := by
  have hsub : s.table ⊆ Finset.range (s.nextProcess + 1) ×ˢ Finset.range MAX_FILE_DESCRIPTORS :=
    Finset.product_subset_product_left (Finset.range_mono (Nat.le_succ _))
  have hsame : ∀ m, count (Finset.range (s.nextProcess + 1) ×ˢ Finset.range MAX_FILE_DESCRIPTORS)
      (Names m) s.slots = s.slotCount m := by
    intro m
    refine count_subset hsub fun x _ hx hnames => hx (h.inside x fun hnone => ?_)
    simp [hnone] at hnames
  refine ⟨fun x hx => hsub (h.inside x hx), fun m => ?_, fun i =>
    ⟨(h.ended i).ends, (h.ended i).references⟩, h.once, h.unused⟩
  have hold := h.kept m
  cases hd : s.descriptions m <;> rw [hd] at hold <;>
    simpa only [Kept, slotCount, table, hsame] using hold

omit h in
lemma inherit_of_slot (hfd : fd < MAX_FILE_DESCRIPTORS)
    (hfree : s.slots (child, fd) = none) (hslot : s.slots (parent, fd) = some slot) :
    inherit parent child s fd = (s.ref slot.description).setSlot child fd (some slot) := by
  have hfree' : (s.ref slot.description).slots (child, fd) = none := hfree
  have hfor : ((s.ref slot.description).setSlot child fd
      (some ⟨slot.description, false⟩)).descriptionFor child fd = .ok slot.description :=
    @descriptionFor_of_slot _ _ _ ⟨slot.description, false⟩ hfd slots_setSlot_self
  simp only [inherit, hslot, allocateDescriptor_of_free hfd hfree', DescriptorSystem.setCloseOnExec,
    hfor]
  simp only [DescriptorSystem.setSlot, Int.toNat_natCast, update_idem]

omit h in
lemma inherit_of_none (hnone : s.slots (parent, fd) = none) : inherit parent child s fd = s := by
  simp [inherit, hnone]

omit h in
lemma slots_inherit (hfd : fd < MAX_FILE_DESCRIPTORS) (hfree : s.slots (child, fd) = none) :
    (inherit parent child s fd).slots =
      update s.slots (child, fd) (s.slots (parent, fd)) := by
  cases hslot : s.slots (parent, fd) with
  | none => rw [inherit_of_none hslot, ← hfree, update_eq_self]
  | some slot =>
    rw [inherit_of_slot hfd hfree hslot]
    rfl

lemma Balanced.inherit (hchild : child < s.nextProcess)
    (hfd : fd < MAX_FILE_DESCRIPTORS) (hfree : s.slots (child, fd) = none) :
    Balanced base (inherit parent child s fd) ∧ (inherit parent child s fd).nextProcess =
      s.nextProcess := by
  cases hslot : s.slots (parent, fd) with
  | none =>
    rw [inherit_of_none hslot]
    exact ⟨h, rfl⟩
  | some slot =>
    have href : Counted base (fun m => 0 + if m = slot.description then 1 else 0)
        (s.ref slot.description) := Counted.ref h (h.named hslot) fun _ => rfl
    rw [inherit_of_slot hfd hfree hslot]
    refine ⟨href.fill hchild hfd hfree (href.holding (by simp)) slot.closeOnExec fun m => ?_, rfl⟩
    omega

omit h in
lemma slots_foldl_inherit (hne : parent ≠ child) (hempty : ∀ fd, s.slots (child, fd) = none)
    (hk : k ≤ MAX_FILE_DESCRIPTORS) (x : ℕ × ℕ) :
    ((List.range k).foldl (DescriptorSystem.inherit parent child) s).slots x =
      if x.1 = child ∧ x.2 < k then s.slots (parent, x.2) else s.slots x := by
  induction k generalizing x with
  | zero => simp
  | succ k ih =>
    have hslots := ih (Nat.le_of_succ_le hk)
    simp only [List.range_succ, List.foldl_append, List.foldl_cons, List.foldl_nil]
    generalize (List.range k).foldl (DescriptorSystem.inherit parent child) s = before at *
    rw [slots_inherit hk (by simp [hslots, hempty])]
    obtain ⟨q, fd⟩ := x
    by_cases hx : (q, fd) = (child, k)
    · cases hx
      simp [hslots, hne]
    · rw [update_of_ne hx, hslots]
      simp only [Prod.mk.injEq] at hx
      split_ifs <;> first | rfl | omega

lemma Balanced.foldl_inherit (hne : parent ≠ child)
    (hchild : child < s.nextProcess) (hempty : ∀ fd, s.slots (child, fd) = none)
    (hk : k ≤ MAX_FILE_DESCRIPTORS) :
    let after := (List.range k).foldl (DescriptorSystem.inherit parent child) s
    Balanced base after ∧ after.nextProcess = s.nextProcess := by
  induction k with
  | zero => exact ⟨h, rfl⟩
  | succ k ih =>
    obtain ⟨hbalanced, hproc⟩ := ih (Nat.le_of_succ_le hk)
    have hslots := slots_foldl_inherit hne hempty (Nat.le_of_succ_le hk) (child, k)
    simp only [List.range_succ, List.foldl_append, List.foldl_cons, List.foldl_nil]
    generalize (List.range k).foldl (DescriptorSystem.inherit parent child) s = before at *
    have hfree : before.slots (child, k) = none := by simp [hslots, hempty]
    exact (hbalanced.inherit (hproc ▸ hchild) hk hfree).imp_right fun hsame => hsame.trans hproc

lemma Balanced.sysFork (hp : p < s.nextProcess) {cloned threaded : Bool} :
    Balanced base (s.sysFork p cloned threaded).2 := by
  have hempty : ∀ fd, s.slots (s.nextProcess, fd) = none := by
    intro fd
    by_contra hne
    exact absurd (mem_table.mp (h.inside _ hne)).1 (Nat.lt_irrefl _)
  have hloop := (h.newProcess.foldl_inherit (Nat.ne_of_lt hp) (Nat.lt_succ_self _) hempty
    (Nat.le_refl _)).1
  unfold DescriptorSystem.sysFork
  split_ifs
  · exact hloop
  · exact hloop
  · exact h.newProcess

/-! ## Every run -/

lemma Balanced.call (hp : p < s.nextProcess) {a : DescriptorCall}
    (hopens : ∀ inode ∈ opens a, 0 < s.references inode) : Balanced base (s.call p a) := by
  cases a with
  | «open» inode flags => exact h.sysOpen hp (hopens inode rfl) flags
  | close fd => exact Counted.closeDescriptor h fun _ _ => rfl
  | dup fd => exact h.duplicateDescriptor hp
  | dup2 fd target => exact h.duplicateDescriptor hp
  | dupfd fd lowest closeOnExec => exact h.sysDupfd hp
  | setfd fd closeOnExec => exact Counted.setCloseOnExec h fd closeOnExec
  | setfl fd flags => exact h.sysSetfl
  | pipe copied => exact h.sysPipe hp
  | fork cloned threaded => exact h.sysFork hp
  | execve => exact (h.foldl_closeIf Descriptor.closeOnExec (Nat.le_refl _)).1
  | exit =>
    have hclosed := (h.foldl_closeIf (p := p) (fun _ => true) (Nat.le_refl _)).1
    exact ⟨hclosed.inside, hclosed.kept, fun i =>
      ⟨(hclosed.ended i).ends, (hclosed.ended i).references⟩,
      hclosed.once, hclosed.unused⟩

lemma Balanced.step {a : ℕ × DescriptorCall} (hstep : s.step a = some s') : Balanced base s' := by
  unfold DescriptorSystem.step at hstep
  split_ifs at hstep with hguard
  obtain rfl : s.call a.1 a.2 = s' := by simpa using hstep
  exact h.call hguard.1 hguard.2.2

end

lemma Starts.balanced (h : Starts s) : Balanced s.references s := by
  have hlive : ∀ i access, s.liveCount i access = 0 := fun i access =>
    count_eq_zero_iff.mpr fun m _ hon => by simp [h.descriptions m] at hon
  refine ⟨fun x hx => absurd (h.slots x) hx, fun n => ?_, fun i =>
    ⟨fun pipe side hpipe => ?_, ?_⟩, ?_, h.references⟩
  · have hslots : s.slotCount n = 0 := count_eq_zero_iff.mpr fun x _ hnames => by
      simp [h.slots x] at hnames
    simp [h.descriptions, Kept, hslots, h.released, h.nextDescription]
  · rw [hlive]
    cases side
    · exact (h.pipes i pipe hpipe).2
    · exact (h.pipes i pipe hpipe).1
  · simp [hlive]
  · simp [h.released]

/-- What the counts say about each other, in a state reached from `start`. -/
structure CountsAgree (start s : DescriptorSystem) : Prop where
  /-- A description has as many references as there are slots that name it. -/
  slots : ∀ n d, s.descriptions n = some d → d.referenceCount = s.slotCount n
  /-- No description is destroyed twice. -/
  once : s.released.Nodup
  /-- The descriptions that were destroyed are the ones no slot names any more. -/
  released : ∀ n, n ∈ s.released ↔ n < s.nextDescription ∧ s.slotCount n = 0
  /-- The others are live. -/
  live : ∀ n, (s.descriptions n).isSome ↔ n < s.nextDescription ∧ n ∉ s.released
  /-- The ends of a pipe are its live descriptions, by access mode. -/
  ends : ∀ i pipe, s.pipes i = some pipe →
    pipe.readers = s.liveCount i holdsRead ∧ pipe.writers = s.liveCount i holdsWrite
  /-- Each live description holds one reference on its inode. -/
  references : ∀ i, s.references i = start.references i + s.liveCount i fun _ => true

lemma Balanced.countsAgree {start : DescriptorSystem} (h : Balanced start.references s) :
    CountsAgree start s where
  slots n d hd := by
    have := (h.live hd).1
    omega
  once := h.once
  released n := by
    cases hd : s.descriptions n with
    | none => simp [(h.dead hd).2.1, (h.dead hd).2.2]
    | some d =>
      obtain ⟨hreferences, hpos, hlt, hnot, -⟩ := h.live hd
      exact iff_of_false hnot fun ⟨_, hzero⟩ => by omega
  live n := by
    cases hd : s.descriptions n with
    | none => simp [(h.dead hd).2.2]
    | some d => exact iff_of_true rfl ⟨(h.live hd).2.2.1, (h.live hd).2.2.2.1⟩
  ends i pipe hpipe := ⟨(h.ended i).ends pipe true hpipe, (h.ended i).ends pipe false hpipe⟩
  references i := (h.ended i).references

lemma Balanced.run {calls : List (ℕ × DescriptorCall)} (h : Balanced base s)
    (hrun : Transition.run DescriptorSystem.step s calls = some s') : Balanced base s' :=
  run_invariant (fun _ _ _ h _ hstep => Balanced.step h hstep) calls s s' h
    (along_of_forall (fun _ _ => trivial) calls s) hrun

/-- However the processes open, duplicate, inherit and close, the counts agree in every state that
is reached, and an `execve` from there closes exactly the slots of the caller that are marked. -/
theorem counts_agree {start : DescriptorSystem} (hstart : Starts start)
    {calls : List (ℕ × DescriptorCall)} (hrun : Transition.run step start calls = some s) :
    CountsAgree start s ∧ ∀ p s', s.step (p, .execve) = some s' → ∀ x, s'.slots x =
      if x.1 = p ∧ (s.slots x).any Descriptor.closeOnExec then none else s.slots x := by
  have hbalanced := hstart.balanced.run hrun
  refine ⟨hbalanced.countsAgree, fun p s' hstep x => ?_⟩
  unfold DescriptorSystem.step at hstep
  split_ifs at hstep
  obtain rfl : s.closeOnExecDescriptors p = s' := by simpa [DescriptorSystem.call] using hstep
  refine ((hbalanced.foldl_closeIf Descriptor.closeOnExec (Nat.le_refl _)).2 x).trans ?_
  by_cases hslot : s.slots x = none
  · simp [hslot]
  · have hfd : x.2 < MAX_FILE_DESCRIPTORS := (mem_table.mp (hbalanced.inside x hslot)).2
    simp only [hfd, true_and]

/-- One process and one file, with nothing open. -/
def booted : DescriptorSystem where
  slots := fun _ => none
  nextProcess := 1
  exited := fun _ => false
  descriptions := fun _ => none
  nextDescription := 0
  pipes := fun _ => none
  references := fun i => if i = 0 then 1 else 0
  nextInode := 1
  released := []

/-- The process opens the file, makes a pipe and a child, and closes what the child goes on using;
the child replaces its image and exits. -/
theorem counts_agree_pipe : ∃ s,
    Transition.run step booted [(0, .open 0 O_CLOEXEC), (0, .dup 0), (0, .pipe true),
      (0, .fork true true), (0, .close 2), (1, .execve), (0, .dup2 1 3), (1, .exit)] = some s ∧
    s.released = [2, 1] ∧
    (CountsAgree booted s ∧ ∀ p s', s.step (p, .execve) = some s' → ∀ x, s'.slots x =
      if x.1 = p ∧ (s.slots x).any Descriptor.closeOnExec then none else s.slots x) := by
  have hstart : Starts booted :=
    ⟨fun _ => rfl, fun _ => rfl, rfl, fun _ _ h => (nomatch h),
      fun _ h => if_neg (Nat.ne_of_gt h), rfl⟩
  exact Transition.exists_run_of_map released [2, 1] (by decide +kernel) fun s hrun hreleased =>
    ⟨hreleased, counts_agree hstart hrun⟩

end DescriptorSystem
end ShitOs
