import ShitOs.Properties.DestroySpace

/-!
# Copying an address space

`clone_user_space` goes through the tables of the parent, page by page in the order of their
numbers, and maps each page into a new space: one that is `Foreign` to the same frame, any other to
a new frame with the same contents.  `Copies` is what holds when the pages below `n` have been done.
Where a table of the parent is missing the loops pass over all its pages (`Copying.skip`).

When a frame is missing everything that the copy has got so far is given back by
`destroy_user_mappings`.  The frames of the copy were all free when it was begun, and each lies in
one place of it (`Copies.exclusive`), so that this comes to an end and frees none of the parent's.

`cloneUserSpace_copies` is the outcome.
-/

namespace ShitOs

open BitVec (ofNat toNat_ofNat)
open Function Kstd PageFlags Physical AddressSpace Program RadixTable

variable {e : U64} {frame : ℕ}

/-! ## The entries of the copy -/

/-- The page is there and its frame belongs to the space. -/
def Owned (e : U64) : Prop := hasFlag e Present ∧ hasFlag e Foreign = false

/-- The copy's entry for a page of the parent. -/
def copied (frame : ℕ) (e : U64) : U64 :=
  if ¬hasFlag e Present then 0
  else if hasFlag e Foreign then e
  else leafOf (physOf frame) (e &&& ~~~ADDRESS_MASK)

lemma or_present (hpres : hasFlag e Present) : e ||| Present = e := by
  have hone : Present = 1 := rfl
  have hbit : e.getLsbD 0 = true := by
    by_contra hzero
    have hnone : e &&& 1#64 = 0#64 := by
      rw [BitVec.and_one_eq_setWidth_ofBool_getLsbD, Bool.eq_false_iff.mpr hzero]
      rfl
    simp [hasFlag, hone, hnone] at hpres
  refine BitVec.eq_of_getLsbD_eq fun i hi => ?_
  obtain rfl | hpos := Nat.eq_zero_or_pos i
  · rw [BitVec.getLsbD_or, hbit, Bool.true_or]
  · simp [hone, BitVec.getLsbD_one, Nat.pos_iff_ne_zero.mp hpos]

lemma leafOf_and_mask (hpres : hasFlag e Present) :
    leafOf (e &&& ADDRESS_MASK) (e &&& ~~~ADDRESS_MASK) = e := by
  rw [leafOf, BitVec.and_assoc, BitVec.and_self, ← BitVec.or_assoc, ← BitVec.and_or_distrib_left,
    BitVec.or_not_self, BitVec.and_allOnes, or_present hpres]

lemma copied_eq_zero (h : hasFlag e Present = false) : copied frame e = 0 :=
  if_pos (by simp [h])

lemma flags_or_present (hpres : hasFlag e Present) :
    (e &&& ~~~ADDRESS_MASK) ||| Present = e &&& ~~~ADDRESS_MASK :=
  or_present ((hasFlag_and_not_mask rfl).trans hpres)

lemma tableAt_copied (hframe : frame < 2 ^ 40) (he : Owned e) :
    tableAt (copied frame e) = frame := by
  have hflags : tableAt (e &&& ~~~ADDRESS_MASK) = 0 :=
    tableAt_eq_zero (by rw [BitVec.and_assoc, BitVec.not_and_self]; exact BitVec.and_zero)
  rw [copied, if_neg (by simp [he.1]), if_neg (by simp [he.2]), leafOf, flags_or_present he.1]
  simp [hflags, tableAt_physOf hframe]

lemma hasFlag_copied {flag : U64} (hflag : flag &&& ADDRESS_MASK = 0)
    (hpres : hasFlag e Present) : hasFlag (copied frame e) flag = hasFlag e flag := by
  rw [copied, if_neg (by simp [hpres])]
  split_ifs with hforeign
  · rfl
  · rw [leafOf, flags_or_present hpres, hasFlag_or, hasFlag_and_mask _ (by rwa [BitVec.and_comm]),
      Bool.false_or, hasFlag_and_not_mask hflag]

lemma owned_copied : Owned (copied frame e) ↔ Owned e := by
  by_cases hpres : hasFlag e Present
  · rw [Owned, hasFlag_copied rfl hpres, hasFlag_copied rfl hpres, Owned]
  · refine iff_of_false (fun h => ?_) fun h => hpres h.1
    rw [copied_eq_zero (by simpa using hpres)] at h
    cases h.1

/-! ## Pages that have been copied -/

/-- The pages below `n` are in the copy, whose root is `c`; `L` are the entries of the parent, and
`m` the machine when the copy was empty. -/
structure Copies (c k n : ℕ) (L : ℕ → U64) (own : Places) (m : Machine)
    (own' : Places) (m' : Machine) (frame : ℕ → ℕ) : Prop where
  effect : Effect c k own m own' m'
  counted : Counted c m'
  entries : leaves m'.words c = fun i => if i < n then copied (frame i) (L i) else 0
  frames : ∀ i < n, Owned (L i) → m.pages.inUse (frame i) = false ∧ frame i < m.pages.totalPages ∧
    m'.pages.inUse (frame i) = true ∧ own' (frame i) = none
  contents : ∀ i < n, Owned (L i) → ∀ j < ENTRIES_PER_TABLE, m'.entry (frame i) j =
    m.entry (tableAt (L i)) j
  injective : ∀ i < n, ∀ j < n, Owned (L i) → Owned (L j) → frame i = frame j → i = j

/-- Nothing outside the new space has changed. -/
structure Beside (c : ℕ) (m m' : Machine) : Prop where
  total : m'.pages.totalPages = m.pages.totalPages
  used : ∀ f, m.pages.inUse f = true → m'.pages.inUse f = true
  words : ∀ w, Held m.pages (w / ENTRIES_PER_TABLE) → w / ENTRIES_PER_TABLE ≠ c →
    m'.words w = m.words w
  resident : ∀ s, s ≠ c → m'.residentPages s = m.residentPages s

section Copies

variable {c k k' n f : ℕ} {L : ℕ → U64} {own own' own'' : Places} {m m' m'' : Machine}
  {frame : ℕ → ℕ}

section

variable (h : Copies c k n L own m own' m' frame)
include h

lemma Copies.extend (heff : Effect c k' own' m' own'' m'')
    (hleaves : leaves m''.words c = leaves m'.words c)
    (hresid : m''.residentPages c = m'.residentPages c) :
    Copies c (k + k') n L own m own'' m'' frame where
  effect := h.effect.trans heff
  counted := h.counted.congr hleaves hresid
  entries := hleaves.trans h.entries
  frames i hi hown := by
    obtain ⟨hfree, hbound, hused, htable⟩ := h.frames i hi hown
    obtain ⟨hused', htable', -⟩ := heff.keeps_frame hused htable
    exact ⟨hfree, hbound, hused', htable'⟩
  contents i hi hown j hj := by
    obtain ⟨-, -, hused, htable⟩ := h.frames i hi hown
    obtain ⟨-, -, hwords⟩ := heff.keeps_frame hused htable
    rw [← h.contents i hi hown j hj]
    exact hwords _ (slot_div hj)
  injective := h.injective

lemma Copies.release (hfree : m.pages.inUse f = false)
    (hne : ∀ i < n, Owned (L i) → frame i ≠ f) (htable : own' f = none)
    (hused : m'.pages.inUse f = true) (hbound : f < m'.pages.totalPages) :
    Ensures (freePage f) m' (fun _ m'' => Copies c k n L own m own' m'' frame) fun _ _ =>
      False := by
  refine (h.effect.release hfree htable hused hbound).imp
    (fun _ m'' ⟨heff, hwords, hresid, hinUse⟩ => ?_)
  refine ⟨heff, h.counted.congr (by rw [hwords]) (by rw [hresid]), by rw [hwords, h.entries],
    fun i hi hown => ?_, fun i hi hown j hj => ?_, h.injective⟩
  · obtain ⟨hfree', hbound', hused', htable'⟩ := h.frames i hi hown
    exact ⟨hfree', hbound', by rw [hinUse, update_of_ne (hne i hi hown), hused'], htable'⟩
  · rw [← h.contents i hi hown j hj, Machine.entry, hwords]
    rfl

lemma Copies.skip {n' : ℕ} (hle : n ≤ n')
    (habs : ∀ i, n ≤ i → i < n' → hasFlag (L i) Present = false) :
    Copies c k n' L own m own' m' frame := by
  have hold : ∀ i < n', Owned (L i) → i < n := fun i hi hown => by
    by_contra hge
    simp [habs i (by omega) hi, Owned] at hown
  refine ⟨h.effect, h.counted, ?_, fun i hi hown => h.frames i (hold i hi hown) hown,
    fun i hi hown => h.contents i (hold i hi hown) hown, fun i hi j hj hown hjowned =>
      h.injective i (hold i hi hown) j (hold j hj hjowned) hown hjowned⟩
  rw [h.entries]
  funext i
  by_cases hi : i < n
  · rw [if_pos hi, if_pos (by omega)]
  · rw [if_neg hi]
    split_ifs with hi'
    · rw [copied_eq_zero (habs i (by omega) hi')]
    · rfl

/-- One page more: its entry, and its frame if it has got one. -/
lemma Copies.add (heff : Effect c k' own' m' own'' m'') (hcounted : Counted c m'')
    (hentries : leaves m''.words c = update (leaves m'.words c) n (copied f (L n)))
    (hnew : Owned (L n) → m'.pages.inUse f = false ∧ f < m'.pages.totalPages ∧
      m''.pages.inUse f = true ∧ own'' f = none ∧ ∀ j < ENTRIES_PER_TABLE, m''.entry f j =
      m.entry (tableAt (L n)) j) :
    Copies c (k + k') (n + 1) L own m own'' m'' (update frame n f) := by
  have hother : ∀ i < n, update frame n f i = frame i := fun i hi =>
    update_of_ne (by omega) ..
  have hne : Owned (L n) → ∀ i < n, Owned (L i) → frame i ≠ f := fun hown i hi hi' heq => by
    have hused := (h.frames i hi hi').2.2.1
    rw [heq, (hnew hown).1] at hused
    cases hused
  refine ⟨h.effect.trans heff, hcounted, ?_, fun i hi hown => ?_, fun i hi hown => ?_,
    fun i hi j hj hown hjowned heq => ?_⟩
  · rw [hentries, h.entries]
    funext i
    obtain rfl | hin := eq_or_ne i n
    · rw [update_self, if_pos (Nat.lt_succ_self i), update_self]
    · rw [update_of_ne hin]
      split_ifs with hlt hlt' hlt'
      · rw [hother i hlt]
      · omega
      · omega
      · rfl
  · obtain rfl | hin := eq_or_ne i n
    · obtain ⟨hfree, hbound, hused, htable, -⟩ := hnew hown
      rw [update_self]
      refine ⟨?_, h.effect.total ▸ hbound, hused, htable⟩
      by_contra hheld
      rw [h.effect.used f (by simpa using hheld)] at hfree
      cases hfree
    · have hlt : i < n := by omega
      obtain ⟨hfree, hbound, hused, htable⟩ := h.frames i hlt hown
      obtain ⟨hused', htable', -⟩ := heff.keeps_frame hused htable
      rw [hother i hlt]
      exact ⟨hfree, hbound, hused', htable'⟩
  · obtain rfl | hin := eq_or_ne i n
    · rw [update_self]
      exact (hnew hown).2.2.2.2
    · have hlt : i < n := by omega
      obtain ⟨-, -, hused, htable⟩ := h.frames i hlt hown
      obtain ⟨-, -, hwords⟩ := heff.keeps_frame hused htable
      intro j hj
      rw [hother i hlt, ← h.contents i hlt hown j hj]
      exact hwords _ (slot_div hj)
  · obtain rfl | hin := eq_or_ne n i <;> obtain rfl | hjn := eq_or_ne n j
    · rfl
    · rw [update_self, hother j (by omega)] at heq
      exact absurd heq.symm (hne hown j (by omega) hjowned)
    · rw [update_self, hother i (by omega)] at heq
      exact absurd heq (hne hjowned i (by omega) hown)
    · rw [hother i (by omega), hother j (by omega)] at heq
      exact h.injective i (by omega) j (by omega) hown hjowned heq

end

/-! ## Giving up -/

variable (hc : own c = some (c, [])) (honly : ∀ t p, own t = some (c, p) → t = c)

include hc honly

/-- The frames of the copy were free before, and each lies in one place. -/
lemma Copies.exclusive (h : Copies c k n L own m own' m' frame) :
    Exclusive m' c ∧ ∀ f q, Lies m' c f q → m.pages.inUse f = false := by
  have htables := h.effect.tables
  have hc' := h.effect.root hc
  -- The two kinds of frames.
  have hkinds : ∀ f q, Lies m' c f q →
      (own' f = some (c, q) ∧ m.pages.inUse f = false ∧ f < m.pages.totalPages) ∨
        ∃ i < n, Owned (L i) ∧ f = frame i ∧ i < USER_PAGES ∧ q = pathOf i ++ [i % 512] := by
    intro f q hlies
    cases hlies with
    | table hval hne hwalk =>
      have hown := htables.own_walk hc' hval hwalk
      have hnone : own f = none := by
        by_contra hsome
        have hold := (h.effect.keep f hsome).symm.trans hown
        obtain rfl := honly f q hold
        cases hc.symm.trans hold
        exact hne rfl
      exact .inl ⟨hown, h.effect.fresh f hnone (by simp [hown])⟩
    | @page i hi hpres howned =>
      rw [h.entries] at hpres howned ⊢
      dsimp only at hpres howned ⊢
      split_ifs at hpres howned with hlt
      · have howned' : Owned (L i) := owned_copied.mp ⟨hpres, howned⟩
        obtain ⟨-, hbound, -⟩ := h.frames i hlt howned'
        have := h.effect.tables.total
        have := h.effect.total
        rw [if_pos hlt, tableAt_copied (by omega) howned']
        exact .inr ⟨i, hlt, howned', rfl, hi, rfl⟩
      · cases hpres
  refine ⟨⟨fun f q hlies => ?_, fun f q q' hlies hlies' => ?_⟩, fun f q hlies => ?_⟩
  · rw [h.effect.total]
    obtain ⟨hown, -, hbound⟩ | ⟨i, hi, howned, rfl, -⟩ := hkinds f q hlies
    · exact ⟨htables.used f (by simp [hown]), hbound⟩
    · obtain ⟨-, hbound, hused, -⟩ := h.frames i hi howned
      exact ⟨hused, hbound⟩
  · obtain ⟨hown, -⟩ | ⟨i, hi, howned, rfl, -, rfl⟩ := hkinds f q hlies <;>
      obtain ⟨hown', -⟩ | ⟨j, hj, hjowned, heq, -, rfl⟩ := hkinds _ q' hlies'
    · cases hown.symm.trans hown'
      rfl
    · rw [heq, (h.frames j hj hjowned).2.2.2] at hown
      cases hown
    · rw [(h.frames i hi howned).2.2.2] at hown'
      cases hown'
    · rw [h.injective i hi j hj howned hjowned heq]
  · obtain ⟨-, hfree, -⟩ | ⟨i, hi, howned, rfl, -⟩ := hkinds f q hlies
    · exact hfree
    · exact (h.frames i hi howned).1

/-- **Giving up** leaves everything outside the copy as it was. -/
lemma Copies.ensures_destroy (h : Copies c k n L own m own' m' frame) :
    Ensures (destroyUserMappings c) m' (fun _ => Beside c m) fun _ _ => False := by
  obtain ⟨hex, hfree⟩ := h.exclusive hc honly
  refine (ensures_destroyUserMappings h.effect.tables (h.effect.root hc) hex).imp
    (fun _ s hs => ⟨hs.total.trans h.effect.total, fun f hf => ?_,
      fun w hw hne => ?_, fun t ht => ?_⟩)
  · refine (hs.inUse f).mpr ⟨h.effect.used f hf, fun q _ hlies => ?_⟩
    rw [hfree f q hlies] at hf
    cases hf
  · rw [hs.words w fun ⟨heq, _⟩ => hne heq, h.effect.words w hw fun ⟨p, hp, _⟩ =>
      hne (honly _ p hp)]
  · rw [hs.resident t ht, h.effect.resident t ht]

/-! ## One page -/

variable (hcounted : Counted c m)
  (hsource : ∀ i, hasFlag (L i) Present → Held m.pages (tableAt (L i)) ∧ tableAt (L i) ≠ c)

include hsource

/-- **`clone_user_space` on one entry.** -/
lemma ensures_clonePage (h : Copies c k n L own m own' m' frame) (hn : n < USER_PAGES)
    (hpres : hasFlag (L n) Present) : Ensures (clonePage c (pageAddress n) (L n)) m'
      (fun _ m'' => ∃ k' own'' frame', Copies c k' (n + 1) L own m own'' m'' frame')
      (fun e m'' => e = .ENOMEM ∧ Beside c m m'') := by
  have htables := h.effect.tables
  have hc' := h.effect.root hc
  have hpage := pageOf_pageAddress hn
  have hempty : leaves m'.words c n = 0 := by
    rw [h.entries]
    exact if_neg (Nat.lt_irrefl n)
  have habs : ¬hasFlag (leaves m'.words c n) Present := by
    rw [hempty]
    decide
  unfold clonePage
  simp only [ensures_bind, ensures_ite, ensures_tryCatch, ensures_throw, ensures_modify]
  refine ⟨fun hforeign => ?_, fun hforeign => ?_⟩
  · have hmap := ensures_map htables hc' (a := pageAddress n) (by rwa [hpage])
      (L n &&& ADDRESS_MASK)
      (L n &&& ~~~ADDRESS_MASK)
    rw [hpage] at hmap
    refine hmap.mono ?_ ?_
    · rintro _ m₁ ⟨own₁, heff, hcounted₁, -, -, hleaves⟩
      refine ⟨_, own₁, _, h.add (f := 0) heff (hcounted₁ h.counted) ?_ fun hown => ?_⟩
      · rw [hleaves, leafOf_and_mask hpres, copied, if_neg (by simp [hpres]), if_pos hforeign]
      · rw [hown.2] at hforeign
        cases hforeign
    · rintro e m₁ ⟨own₁, hgrows, herror⟩
      rw [if_neg habs] at herror
      have hcopies := h.extend hgrows.effect hgrows.leaves (congrFun hgrows.resident c)
      exact (hcopies.ensures_destroy hc honly).mono (fun _ s hs => ⟨herror.1, hs⟩)
        fun _ _ hfalse => hfalse.elim
  · have hown : Owned (L n) := ⟨hpres, by simpa using hforeign⟩
    refine ensures_allocatePage.mono ?_ ?_
    · rintro f m₁ ⟨htakes, hm₁⟩
      have hfree : m'.pages.inUse f = false := htakes.free_one
      have hwords₁ : m₁.words = m'.words := by rw [hm₁]
      have hfills : Fills m' (m₁.copyFrame f (tableAt (L n))) f :=
        ⟨htakes, fun w hw => (if_neg hw).trans (congrFun hwords₁ w), by rw [hm₁]; rfl⟩
      -- the new frame has what the parent's has, which is what it had at the beginning
      have hcopy : ∀ j < ENTRIES_PER_TABLE,
          (m₁.copyFrame f (tableAt (L n))).entry f j = m.entry (tableAt (L n)) j := fun j hj => by
        obtain ⟨hheld, hne⟩ := hsource n hpres
        have hslot : (m₁.copyFrame f (tableAt (L n))).entry f j = m'.entry (tableAt (L n)) j := by
          refine (if_pos (slot_div hj)).trans ?_
          rw [slot_mod hj, Machine.entry, hwords₁]
          rfl
        rw [hslot]
        refine h.effect.words _ ?_ ?_
        · rwa [slot_div hj]
        · rintro ⟨p, hp, -⟩
          rw [slot_div hj] at hp
          exact hne (honly _ p hp)
      obtain ⟨heffect₂, hleaves₂, htable, -⟩ := hfills.effect htables hc'
      generalize m₁.copyFrame f (tableAt (L n)) = m₂ at hfills hcopy heffect₂ hleaves₂
      have hused₂ : m₂.pages.inUse f = true := hfills.takes.taken_one
      have hcounted₂ : Counted c m₂ := h.counted.congr hleaves₂ (congrFun hfills.resident c)
      have hmap := ensures_map heffect₂.tables hc' (a := pageAddress n) (by rwa [hpage]) (physOf f)
        (L n &&& ~~~ADDRESS_MASK)
      rw [hpage, hleaves₂] at hmap
      refine hmap.mono ?_ ?_
      · rintro _ m₃ ⟨own₃, heffect₃, hcounted₃, -, -, hleaves₃⟩
        obtain ⟨hused₃, htable₃, hwords₃⟩ := heffect₃.keeps_frame hused₂ htable
        refine ⟨_, own₃, _, h.add (f := f) (heffect₂.trans heffect₃)
          (hcounted₃ hcounted₂) ?_ fun _ =>
          ⟨hfree, hfills.takes.bound, hused₃, htable₃, fun j hj => ?_⟩⟩
        · rw [hleaves₃, copied, if_neg (by simp [hpres]), if_neg hforeign]
        · rw [← hcopy j hj]
          exact hwords₃ _ (slot_div hj)
      · rintro e m₃ ⟨own₃, hgrows₃, herror⟩
        rw [if_neg habs] at herror
        have heffect₃ := heffect₂.trans hgrows₃.effect
        obtain ⟨hused₃, htable₃, -⟩ := hgrows₃.effect.keeps_frame hused₂ htable
        have hcopies := h.extend heffect₃ (hgrows₃.leaves.trans hleaves₂)
          (by rw [hgrows₃.resident, hfills.resident])
        have hbefore : m.pages.inUse f = false := by
          by_contra hused
          rw [h.effect.used f (by simpa using hused)] at hfree
          cases hfree
        refine (hcopies.release hbefore (fun i hi hown heq => ?_) htable₃ hused₃ ?_).mono
          (fun _ m₄ hcopies' => ?_) fun _ _ hfalse => hfalse.elim
        · rw [← heq, (h.frames i hi hown).2.2.1] at hfree
          cases hfree
        · rw [heffect₃.total]
          exact hfills.takes.bound
        · exact (hcopies'.ensures_destroy hc honly).mono (fun _ s hs => ⟨herror.1, hs⟩)
            fun _ _ hfalse => hfalse.elim
    · rintro e m₁ ⟨he, hm₁, -⟩
      subst hm₁
      exact (h.ensures_destroy hc honly).mono (fun _ s hs => ⟨he, hs⟩) fun _ _ hfalse => hfalse.elim

end Copies

/-! ## The loops -/

section Loops

variable {c n : ℕ} {L : ℕ → U64} {own : Places} {m m' : Machine}

/-- The address of the first page of a table, or of a page, with `bits` bits for what is below. -/
def tableBase (bits n : ℕ) : U64 := ofNat 64 (n * 2 ^ bits)

lemma tableBase_or {bits i : ℕ} (hi : i < 512) (hbound : (n * 512 + i) * 2 ^ bits < 2 ^ 64) :
    tableBase (bits + 9) n ||| (ofNat 64 i <<< bits) = tableBase bits (n * 512 + i) := by
  have hhigh : 2 ^ (bits + 9) * n = n * 512 * 2 ^ bits := by
    rw [Nat.pow_add, Nat.mul_comm, Nat.mul_comm (2 ^ bits), ← Nat.mul_assoc]
  have hlow : i * 2 ^ bits < 2 ^ (bits + 9) := by
    rw [Nat.pow_add, Nat.mul_comm (2 ^ bits)]
    exact Nat.mul_lt_mul_of_pos_right hi (Nat.two_pow_pos bits)
  rw [Nat.add_mul] at hbound
  refine BitVec.eq_of_toNat_eq ?_
  rw [tableBase, tableBase, BitVec.toNat_or, BitVec.toNat_shiftLeft, toNat_ofNat, toNat_ofNat,
    toNat_ofNat, Nat.mod_eq_of_lt (hi.trans (by decide)), Nat.shiftLeft_eq, Nat.mul_comm n, hhigh,
    Nat.add_mul, Nat.mod_eq_of_lt (by omega), Nat.mod_eq_of_lt (by omega),
    Nat.mod_eq_of_lt hbound, ← hhigh]
  exact (Nat.two_pow_add_eq_or_of_lt hlow n).symm

/-- The pages below `n` have been copied. -/
def Copying (c : ℕ) (L : ℕ → U64) (own : Places) (m : Machine) (n : ℕ) (s : Machine) : Prop :=
  ∃ k own' frame, Copies c k n L own m own' s frame

lemma Copying.skip {n' : ℕ} (h : Copying c L own m n m') (hle : n ≤ n')
    (habs : ∀ i, n ≤ i → i < n' → hasFlag (L i) Present = false) : Copying c L own m n' m' := by
  obtain ⟨k, own', frame, hcopies⟩ := h
  exact ⟨k, own', frame, hcopies.skip hle habs⟩

/-- A loop over entries, where entry `i` is for the pages from `first i` on. -/
lemma Copying.loop {l : ℕ} {body : ℕ → MachineM PUnit} {E : Errno → Machine → Prop} (first : ℕ → ℕ)
    (h : Copying c L own m (first 0) m') (hstep : ∀ i < l, ∀ s, Copying c L own m (first i) s →
      Ensures (body i) s (fun _ => Copying c L own m (first (i + 1))) E) :
    Ensures ((List.range l).forM body) m' (fun _ => Copying c L own m (first l)) E := by
  have hloop := ensures_forM_range' (k := l) (fun i s => Copying c L own m (first i) s)
    (fun i s _ hi hI => hstep i (by omega) s hI) (a := 0) (s := m') h
  rwa [Nat.zero_add, ← List.range_eq_range'] at hloop

section Parent

variable {r t : ℕ} (htables : Tables own m) (hr : own r = some (r, [])) (hrc : r ≠ c) {N : ℕ}

include htables hrc

lemma Copying.entry_eq (h : Copying c L own m n m') {p : List ℕ} {i : ℕ} (ht : own t = some (r, p))
    (hi : i < ENTRIES_PER_TABLE) : m'.entry t i = m.entry t i := by
  obtain ⟨k, own', frame, hcopies⟩ := h
  refine hcopies.effect.words _ ?_ fun ⟨q, hq, _⟩ => ?_
  · rw [slot_div hi]
    exact .inl (htables.used t (by simp [ht]))
  · rw [slot_div hi, ht] at hq
    exact hrc (Prod.mk.inj (Option.some.inj hq)).1

include hr in
/-- An entry above the last level: with a table under it `body` copies the pages it is for, and
without one there is nothing to copy. -/
lemma Copying.descend (h : Copying c (leaves m.words r) own m n m') {n' k : ℕ} {p : List ℕ}
    {P : U64 → Prop} [DecidablePred P] {body : ℕ → MachineM PUnit} {E : Errno → Machine → Prop}
    (hpos : ∀ e, P e → hasFlag e Present)
    (hneg : ∀ e, hasFlag e Present → hasFlag e Huge = false → P e)
    (hlt : n < n') (hlast : n' ≤ USER_PAGES)
    (hwalk : walk ENTRIES_PER_TABLE nextTable m.words r p = some t)
    (hpath : ∀ i, n ≤ i → i < n' → ∃ q, p ++ [k] ++ q = pathOf i)
    (hbody : ∀ t', walk ENTRIES_PER_TABLE nextTable m.words r (p ++ [k]) = some t' →
      Ensures (body t') m' (fun _ => Copying c (leaves m.words r) own m n') E) :
    Ensures (do
      let entry := (← get).entry t k
      if P entry then body (tableAt entry) : MachineM PUnit) m'
      (fun _ => Copying c (leaves m.words r) own m n') E := by
  have hval : userPaths.valid (p ++ [k]) := by
    obtain ⟨q, hq⟩ := hpath n (Nat.le_refl _) hlt
    exact userPaths.of_append (hq ▸ valid_pathOf (Nat.lt_of_lt_of_le hlt hlast))
  have ht := htables.own_walk hr (userPaths.init hval) hwalk
  simp only [ensures_bind, ensures_get, ensures_ite, ensures_pure,
    h.entry_eq htables hrc ht (userPaths.index hval)]
  refine ⟨fun hP => hbody _ (walk_of_present htables hr hval hwalk (hpos _ hP)), fun hP => ?_⟩
  have habs : hasFlag (m.entry t k) Present = false := by
    rw [← Bool.not_eq_true]
    exact fun hpres => hP (hneg _ hpres (htables.small t r _ k ht hval hpres))
  refine h.skip hlt.le fun i hi hlt => ?_
  obtain ⟨q, hq⟩ := hpath i hi hlt
  rw [leaves_of_walk_none hq (walk_of_absent htables hr hval hwalk habs)]
  rfl

variable (hc : own c = some (c, [])) (honly : ∀ t p, own t = some (c, p) → t = c)
  (hheld : ∀ i, hasFlag (leaves m.words r i) Present →
    Held m.pages (tableAt (leaves m.words r i)) ∧ tableAt (leaves m.words r i) ≠ c)

include hr hc honly hheld

lemma ensures_clonePt (hN : N < 2 ^ 26)
    (hwalk : walk ENTRIES_PER_TABLE nextTable m.words r (pathOf (N * 512)) = some t)
    (h : Copying c (leaves m.words r) own m (N * 512) m') :
    Ensures (clonePt c (tableBase 21 N) t) m'
      (fun _ => Copying c (leaves m.words r) own m (N * 512 + ENTRIES_PER_TABLE))
      fun e s => e = .ENOMEM ∧ Beside c m s := by
  have hpages : ∀ i < 512, N * 512 + i < USER_PAGES := fun i hi => by
    unfold USER_PAGES
    omega
  have hval : userPaths.valid (pathOf (N * 512)) :=
    valid_pathOf (Nat.lt_of_le_of_lt (Nat.le_add_right _ 1) (hpages 1 (by decide)))
  have ht := htables.own_walk hr hval hwalk
  refine Copying.loop (fun i => N * 512 + i) (by rwa [Nat.add_zero]) fun i hi s hs => ?_
  have hpath : pathOf (N * 512 + i) = pathOf (N * 512) := by
    unfold ENTRIES_PER_TABLE at hi
    simp only [pathOf, List.cons.injEq, and_true]
    omega
  have hindex : (N * 512 + i) % 512 = i := by
    unfold ENTRIES_PER_TABLE at hi
    omega
  have hentry : s.entry t i = leaves m.words r (N * 512 + i) := by
    rw [hs.entry_eq htables hrc ht hi, leaves_of_walk (hpages i hi) (by rw [hpath]; exact hwalk),
      hindex]
  have haddr : tableBase 21 N ||| (ofNat 64 i <<< 12) = pageAddress (N * 512 + i) := by
    exact tableBase_or hi (by omega)
  simp only [ensures_bind, ensures_get, ensures_ite, ensures_pure, hentry, haddr]
  refine ⟨fun hpres => ?_, fun habs => hs.skip (Nat.le_succ _) fun j hj hlt => ?_⟩
  · obtain ⟨k, own', frame, hcopies⟩ := hs
    refine (ensures_clonePage hc honly hheld hcopies (hpages i hi) hpres).imp fun _ s' hs' => ?_
    rwa [Nat.add_assoc] at hs'
  · obtain rfl : j = N * 512 + i := by omega
    simpa using habs

lemma ensures_clonePd (hN : N < 2 ^ 17)
    (hwalk : walk ENTRIES_PER_TABLE nextTable m.words r [N / 512, N % 512] = some t)
    (h : Copying c (leaves m.words r) own m (N * 2 ^ 18) m') :
    Ensures (clonePd c (tableBase 30 N) t) m'
      (fun _ => Copying c (leaves m.words r) own m ((N * 512 + ENTRIES_PER_TABLE) * 512))
      fun e s => e = .ENOMEM ∧ Beside c m s := by
  refine Copying.loop (fun k => (N * 512 + k) * 512) (by rwa [Nat.add_zero, Nat.mul_assoc])
    fun k hk s hs => ?_
  unfold ENTRIES_PER_TABLE at hk
  have hpath : ∀ i, (N * 512 + k) * 512 ≤ i → i < (N * 512 + (k + 1)) * 512 →
      [N / 512, N % 512] ++ [k] = pathOf i := fun i hi hlt => by
    simp only [pathOf, List.cons_append, List.nil_append, List.cons.injEq, and_true]
    omega
  refine hs.descend htables hr hrc (fun _ => And.left)
    (fun _ hp hh => ⟨hp, Bool.eq_false_iff.mp hh⟩) (by omega) (by unfold USER_PAGES; omega) hwalk
    (fun i hi hlt => ⟨[], (List.append_nil _).trans (hpath i hi hlt)⟩) fun t' hwalk' => ?_
  rw [hpath _ (Nat.le_refl _) (by omega)] at hwalk'
  rw [tableBase_or hk (by omega)]
  have hpt := ensures_clonePt htables hr hrc hc honly hheld (by omega) hwalk' hs
  rwa [ENTRIES_PER_TABLE, ← Nat.succ_mul] at hpt

lemma ensures_clonePdpt (hN : N < 256)
    (hwalk : walk ENTRIES_PER_TABLE nextTable m.words r [N] = some t)
    (h : Copying c (leaves m.words r) own m (N * 2 ^ 27) m') :
    Ensures (clonePdpt c (tableBase 39 N) t) m'
      (fun _ => Copying c (leaves m.words r) own m ((N * 512 + ENTRIES_PER_TABLE) * 2 ^ 18))
      fun e s => e = .ENOMEM ∧ Beside c m s := by
  refine Copying.loop (fun k => (N * 512 + k) * 2 ^ 18) (by rwa [Nat.add_zero, Nat.mul_assoc])
    fun k hk s hs => ?_
  unfold ENTRIES_PER_TABLE at hk
  refine hs.descend htables hr hrc (fun _ => id) (fun _ hp _ => hp) (by omega)
    (by unfold USER_PAGES; omega) hwalk (fun i hi hlt => ⟨[i / 2 ^ 9 % 512], ?_⟩)
    fun t' hwalk' => ?_
  · simp only [pathOf, List.cons_append, List.nil_append, List.cons.injEq, and_true]
    omega
  · have hsplit : [N] ++ [k] = [(N * 512 + k) / 512, (N * 512 + k) % 512] := by
      simp only [List.cons_append, List.nil_append, List.cons.injEq, and_true]
      omega
    rw [hsplit] at hwalk'
    rw [tableBase_or hk (by omega)]
    have hpd := ensures_clonePd htables hr hrc hc honly hheld (by omega) hwalk' hs
    rwa [ENTRIES_PER_TABLE, ← Nat.succ_mul, Nat.mul_assoc] at hpd

lemma ensures_clonePml4 (h : Copying c (leaves m.words r) own m 0 m') :
    Ensures ((List.range 256).forM fun pml4Index => do
      let pml4Entry := (← get).entry r pml4Index
      if hasFlag pml4Entry Present then
        clonePdpt c (ofNat 64 pml4Index <<< 39) (tableAt pml4Entry) : MachineM PUnit) m'
      (fun _ => Copying c (leaves m.words r) own m USER_PAGES)
      fun e s => e = .ENOMEM ∧ Beside c m s := by
  refine Copying.loop (fun k => k * 2 ^ 27) (by rwa [Nat.zero_mul]) fun k hk s hs => ?_
  refine hs.descend htables hr hrc (p := []) (fun _ => id) (fun _ hp _ => hp) (by omega)
    (by unfold USER_PAGES; omega) rfl
    (fun i hi hlt => ⟨[i / 2 ^ 18 % 512, i / 2 ^ 9 % 512], ?_⟩) fun t' hwalk' => ?_
  · simp only [pathOf, List.cons_append, List.nil_append, List.cons.injEq, and_true]
    omega
  · have haddr : ofNat 64 k <<< 39 = tableBase 39 k := by
      refine BitVec.eq_of_toNat_eq ?_
      rw [BitVec.toNat_shiftLeft, tableBase, toNat_ofNat, toNat_ofNat, Nat.shiftLeft_eq]
      omega
    rw [haddr]
    have hpdpt := ensures_clonePdpt htables hr hrc hc honly hheld hk hwalk' hs
    rwa [ENTRIES_PER_TABLE, ← Nat.succ_mul, Nat.mul_assoc] at hpdpt

end Parent

end Loops

/-! ## The whole call -/

section Clone

variable {r c : ℕ} {own : Places} {m m' : Machine} {L : ℕ → U64} {n : ℕ} {frame : ℕ → ℕ}

/-- The places in the space with root `r` alone. -/
def placesOf (r : ℕ) (own : Places) : Places := fun t => (own t).filter fun place => place.1 = r

lemma placesOf_eq_some {t s : ℕ} {p : List ℕ} :
    placesOf r own t = some (s, p) ↔ own t = some (s, p) ∧ s = r := by
  simp [placesOf, Option.filter_eq_some_iff]

lemma Tables.placesOf (h : Tables own m) : Tables (placesOf r own) m where
  total := h.total
  used t ht := h.used t fun hnone => ht (by simp [ShitOs.placesOf, hnone])
  placed t s p i t' ht hval hnext := by
    rw [placesOf_eq_some] at ht ⊢
    exact ⟨h.placed _ _ _ _ _ ht.1 hval hnext, ht.2⟩
  small t s p i ht := h.small t s p i (placesOf_eq_some.mp ht).1

lemma Creates.tables (h : Creates m c m') (htables : Tables own m) :
    Tables (update own c (some (c, []))) m' := by
  have hzero : ∀ t s p i, t = c → update own c (some (c, [])) t = some (s, p) →
      userPaths.valid (p ++ [i]) → m'.entry t i = 0 := by
    rintro t s p i rfl ht hval
    rw [update_self, Option.some.injEq, Prod.mk.injEq] at ht
    exact h.fresh.empty i (low_of_valid hval ht.2.symm)
  have hsame : ∀ t i, t ≠ c → i < ENTRIES_PER_TABLE → m'.entry t i = m.entry t i := fun t i ht hi =>
    h.words _ (by rwa [slot_div hi])
  refine ⟨h.fresh.total, fun t ht => ?_,
    fun t s p i t' ht hval hnext => ?_, fun t s p i ht hval => ?_⟩
  · obtain rfl | hne := eq_or_ne t c
    · exact h.fresh.used
    · rw [update_of_ne hne] at ht
      rw [h.takes.others_one hne]
      exact htables.used t ht
  · obtain heq | hne := eq_or_ne t c
    · have hempty : nextTable 0 = none := by decide
      cases hempty.symm.trans ((congrArg nextTable (hzero t s p i heq ht hval)).symm.trans hnext)
    · rw [update_of_ne hne] at ht
      have hlink : nextTable (m.entry t i) = some t' := by
        rw [← hsame t i hne (userPaths.index hval)]
        exact hnext
      have ht' := htables.placed _ _ _ _ _ ht hval hlink
      rwa [update_of_ne fun heq => by rw [heq, htables.fresh h.takes] at ht'; cases ht']
  · obtain heq | hne := eq_or_ne t c
    · rw [hzero t s p i heq ht hval]
      intro hpres
      cases hpres
    · rw [update_of_ne hne] at ht
      rw [hsame t i hne (userPaths.index hval)]
      exact htables.small t s p i ht hval

/-- What has not been changed beside the new space has not been changed at all. -/
lemma Creates.spares {m₁ : Machine} (h : Creates m c m₁) (hbeside : Beside c m₁ m') :
    Spares m m' := by
  refine ⟨hbeside.total.trans h.takes.total, fun f hf => hbeside.used f (h.takes.kept hf),
    fun w hw => ?_, fun s hs => ?_⟩
  · have hother := h.takes.ne_of_held hw
    rw [hbeside.words w (hw.imp h.takes.kept fun hle => h.takes.total ▸ hle) hother,
      h.words w hother]
  · rw [hbeside.resident s (h.takes.ne hs), h.resident s (h.takes.ne hs)]

/-- The map of a copy: the same flags, and new frames for the pages that are not `Foreign`. -/
def duplicate (frame : ℕ → ℕ) (M : PageMap) : PageMap := fun n =>
  (M n).map fun e => (if hasFlag e.2 Foreign then e.1 else frame n, e.2)

/-- `M` has a page `n` in frame `f` that is not `Foreign`. -/
def OwnPage (M : PageMap) (n f : ℕ) :
    Prop := ∃ flags, M n = some (f, flags) ∧ hasFlag flags Foreign = false

/-- The space with root `c` is a copy of one with the map `M` in `m`. -/
structure Duplicates (M : PageMap) (m : Machine) (c : ℕ) (m' : Machine) (frame : ℕ → ℕ) : Prop where
  space : Stands c m' (duplicate frame M)
  fresh : ∀ n f, OwnPage M n f → m.pages.inUse (frame n) = false ∧ m'.pages.inUse (frame n) = true
  contents : ∀ n f, OwnPage M n f → ∀ i < ENTRIES_PER_TABLE, m'.entry (frame n) i = m.entry f i
  distinct : ∀ n n' f f', OwnPage M n f → OwnPage M n' f' → frame n = frame n' → n = n'

lemma ownPage_iff {f : ℕ} : OwnPage (pageMap L) n f ↔ Owned (L n) ∧ tableAt (L n) = f := by
  unfold OwnPage pageMap Owned
  by_cases hpres : hasFlag (L n) Present
  · have hforeign : hasFlag (L n &&& ~~~ADDRESS_MASK) Foreign = hasFlag (L n) Foreign :=
      hasFlag_and_not_mask rfl
    simp [hpres, hforeign, and_comm]
  · simp [hpres]

lemma pageMap_copied {L' : ℕ → U64} (hframe : Owned (L n) → frame n < 2 ^ 40)
    (hentry : L' n = copied (frame n) (L n)) : pageMap L' n = duplicate frame (pageMap L) n := by
  unfold duplicate
  by_cases hpres : hasFlag (L n) Present
  · have hforeign : hasFlag (L n &&& ~~~ADDRESS_MASK) Foreign = hasFlag (L n) Foreign :=
      hasFlag_and_not_mask rfl
    rw [pageMap, hentry, hasFlag_copied rfl hpres, if_pos hpres, pageMap, if_pos hpres,
      Option.map_some, hforeign]
    by_cases hshared : hasFlag (L n) Foreign
    · rw [if_pos hshared, copied, if_neg (by simp [hpres]), if_pos hshared]
    · have hown : Owned (L n) := ⟨hpres, by simpa using hshared⟩
      have hflags : copied (frame n) (L n) &&& ~~~ADDRESS_MASK = L n &&& ~~~ADDRESS_MASK := by
        rw [copied, if_neg (by simp [hpres]), if_neg hshared, leafOf, flags_or_present hpres,
          BitVec.and_or_distrib_right, BitVec.and_assoc, BitVec.and_not_self, BitVec.and_assoc,
          BitVec.and_self]
        simp
      rw [if_neg hshared, tableAt_copied (hframe hown) hown, hflags]
  · have habs : hasFlag (L n) Present = false := by simpa using hpres
    rw [pageMap_eq_none.mpr habs, Option.map_none, pageMap_eq_none, hentry, copied_eq_zero habs]
    rfl

lemma Copies.duplicates {k : ℕ} {own' : Places} (hc : own c = some (c, []))
    (hL : ∀ n, USER_PAGES ≤ n → L n = 0) (h : Copies c k USER_PAGES L own m own' m' frame) :
    Duplicates (pageMap L) m c m' frame := by
  have hin : ∀ {n f}, OwnPage (pageMap L) n f → n < USER_PAGES ∧ Owned (L n) ∧
    tableAt (L n) = f := by
    intro n f hown
    obtain ⟨howned, hf⟩ := ownPage_iff.mp hown
    refine ⟨?_, howned, hf⟩
    by_contra hge
    rw [hL n (by omega)] at howned
    cases howned.1
  refine ⟨⟨own', h.effect.tables, h.effect.root hc, h.counted, funext fun n => ?_⟩,
    fun n f hown => ?_, fun n f hown => ?_, fun n n' f f' hown hown' heq => ?_⟩
  · by_cases hn : n < USER_PAGES
    · refine (pageMap_copied (fun howned => ?_) (by rw [h.entries]; exact if_pos hn)).symm
      have hbound := (h.frames n hn howned).2.1
      have := h.effect.tables.total
      have := h.effect.total
      omega
    · refine (pageMap_copied (fun howned => ?_) ?_).symm
      · rw [hL n (by omega)] at howned
        cases howned.1
      · rw [h.entries, hL n (by omega), copied_eq_zero rfl]
        exact if_neg hn
  · obtain ⟨hn, howned, -⟩ := hin hown
    obtain ⟨hfree, -, hused, -⟩ := h.frames n hn howned
    exact ⟨hfree, hused⟩
  · obtain ⟨hn, howned, rfl⟩ := hin hown
    exact h.contents n hn howned
  · obtain ⟨hn, howned, -⟩ := hin hown
    obtain ⟨hn', howned', -⟩ := hin hown'
    exact h.injective n hn n' hn' howned howned' heq

/-- **`clone_user_space` copies exactly.**  From any space whose frames are held it comes to an end.
If it returns, the copy has the pages and flags of the space, its `Foreign` pages are in the same
frames, and the others in new frames of their own with the same contents.  If it fails it is for
want of memory.  In both cases nothing has changed that was held before, and no frame has been given
back. -/
theorem cloneUserSpace_copies (htables : Tables own m) (hr : own r = some (r, []))
    (hheld : ∀ n f flags, pageMap (leaves m.words r) n = some (f, flags) → Held m.pages f)
    (kernelRoot : ℕ) (full : Bool) :
    Ensures (cloneUserSpace kernelRoot r full) m
      (fun c m' => Spares m m' ∧ ∃ frame, Duplicates (pageMap (leaves m.words r)) m c m' frame)
      fun e m' => e = .ENOMEM ∧ Spares m m' := by
  unfold cloneUserSpace
  simp only [ensures_bind, ensures_pure]
  refine (ensures_createUserSpace htables.total kernelRoot full).imp fun c m₁ hcreates => ?_
  have hnew : ∀ t, own t ≠ none → t ≠ c := fun t ht => hcreates.takes.ne (htables.used t ht)
  have hrc : r ≠ c := hnew r (by simp [hr])
  -- the parent's tables and the new root, and no others
  have htables₁ := hcreates.tables (htables.placesOf (r := r))
  have hr₁ : update (placesOf r own) c (some (c, [])) r = some (r, []) := by
    rw [update_of_ne hrc]
    exact placesOf_eq_some.mpr ⟨hr, rfl⟩
  have hc₁ : update (placesOf r own) c (some (c, [])) c = some (c, []) := update_self ..
  have honly : ∀ t p, update (placesOf r own) c (some (c, [])) t = some (c, p) → t = c := by
    intro t p ht
    by_contra hne
    rw [update_of_ne hne] at ht
    exact hrc (placesOf_eq_some.mp ht).2.symm
  have hleaves : leaves m₁.words r = leaves m.words r :=
    leaves_congr htables hr fun w hw => hcreates.words w (hnew _ hw)
  have hsource : ∀ i, hasFlag (leaves m₁.words r i) Present →
    Held m₁.pages (tableAt (leaves m₁.words r i)) ∧
      tableAt (leaves m₁.words r i) ≠ c := by
    intro i hpresent
    rw [hleaves] at hpresent ⊢
    obtain hused | hle := hheld i _ _ (if_pos hpresent)
    · exact ⟨.inl (hcreates.takes.kept hused), hcreates.takes.ne hused⟩
    · have := hcreates.takes.bound
      exact ⟨.inr (hcreates.takes.total ▸ hle), by omega⟩
  obtain ⟨-, -, -, hcounted, -⟩ := hcreates.fresh.stands
  have hinit : Copying c (leaves m₁.words r) (update (placesOf r own) c (some (c, []))) m₁ 0 m₁ :=
    ⟨0, _, fun _ => 0, .refl htables₁,
    hcounted, by simp [hcreates.fresh.leaves_eq], by simp, by simp, by simp⟩
  refine (ensures_clonePml4 htables₁ hr₁ hrc hc₁ honly hsource hinit).mono (fun _ m' hcopying => ?_)
    fun e m' h => ⟨h.1, hcreates.spares h.2⟩
  obtain ⟨k, own', frame, hcopies⟩ := hcopying
  have hbeside : Beside c m₁ m' := ⟨hcopies.effect.total, hcopies.effect.used, fun w hw hne =>
    hcopies.effect.words w hw fun h => hne (honly _ _ h.choose_spec.1), hcopies.effect.resident⟩
  have hduplicates := hcopies.duplicates hc₁ fun n hn => by
    exact if_neg (by omega)
  rw [hleaves] at hduplicates
  refine ⟨hcreates.spares hbeside, frame, hduplicates.space, fun n f hown =>
    ⟨?_, (hduplicates.fresh n f hown).2⟩, fun n f hown i hi => ?_, hduplicates.distinct⟩
  · by_contra hheld
    have hused : m.pages.inUse (frame n) = true := by simpa using hheld
    have hstill := (hduplicates.fresh n f hown).1
    rw [hcreates.takes.kept hused] at hstill
    cases hstill
  · rw [hduplicates.contents n f hown i hi]
    obtain ⟨howned, rfl⟩ := ownPage_iff.mp hown
    refine hcreates.words _ ?_
    rw [slot_div hi, ← hleaves]
    exact (hsource n (by rw [hleaves]; exact howned.1)).2

end Clone

/-- A machine of sixteen frames: frame 0 is the root of an empty space, and frame 5 is in use. -/
def sixteenFrames : Machine where
  pages := { totalPages := 16, inUse := fun f => f = 0 ∨ f = 5, usedPages := 2, searchHint := 0 }
  words w := if w / ENTRIES_PER_TABLE = 5 then 0xCAFE else 0
  residentPages _ := 0

/-- A page of memory, and one of a device. -/
def twoPages :
    List SpaceOp := [.map 0 0x5000 (User ||| Writable), .map 0x1000 0xB8000 (User ||| Foreign)]

/-- The space with the two pages is copied. -/
theorem cloneUserSpace_copies_twoPages :
    ∃ results m c m' frame, performAll 0 twoPages sixteenFrames = some (results, m) ∧
      isMapped m.words 0 0 = true ∧ isMapped m.words 0 0x1000 = true ∧
      cloneUserSpace 0 0 false m = some (.ok c, m') ∧ Spares m m' ∧
      Duplicates (pageMap (leaves m.words 0)) m c m' frame := by
  have hrun : (performAll 0 twoPages sixteenFrames).map (fun r => (r.1, r.2.pages.inUse 5,
      r.2.pages.totalPages, (cloneUserSpace 0 0 false r.2).map (·.1.toOption.isSome))) =
      some ([.ok (), .ok ()], true, 16, some true) := by
    decide +kernel
  obtain ⟨⟨results, m⟩, hrun, hresults⟩ := Option.map_eq_some_iff.mp hrun
  obtain ⟨rfl, hused, htotal, hok⟩ : results = [.ok (), .ok ()] ∧ m.pages.inUse 5 = true ∧
      m.pages.totalPages = 16 ∧
      (cloneUserSpace 0 0 false m).map (·.1.toOption.isSome) = some true := by
    simpa only [Prod.mk.injEq] using hresults
  have hempty : ∀ i < 256, sixteenFrames.entry 0 i = 0 := fun i hi => by
    refine if_neg ?_
    rw [slot_div (hi.trans (by decide))]
    decide
  have hfresh : Fresh 0 sixteenFrames := ⟨by decide, by decide, hempty, rfl⟩
  have hproper : ∀ op ∈ twoPages, op.Proper := by
    simp only [twoPages, List.forall_mem_cons]
    exact ⟨⟨by decide, by decide⟩, ⟨by decide, by decide⟩, nofun⟩
  obtain ⟨M, ⟨M₁, hfirst, M₂, hsecond, hM⟩, hstands⟩ := hfresh.stands.run hproper
    (by decide +kernel) hrun
  cases hfirst
  cases hsecond
  subst hM
  have hmapped : isMapped m.words 0 0 = true ∧ isMapped m.words 0 0x1000 = true := by
    rw [hstands.isMapped_eq (by decide), hstands.isMapped_eq (by decide)]
    exact ⟨rfl, rfl⟩
  obtain ⟨own, htables, hr, -, hM⟩ := hstands
  have hheld : ∀ n f flags, pageMap (leaves m.words 0) n = some (f, flags) → Held m.pages f := by
    intro n f flags hpage
    rw [← hM] at hpage
    have hfirst : tableAt 0x5000 = 5 := by decide
    have hsecond : tableAt 0xB8000 = 184 := by decide
    obtain rfl | hn := eq_or_ne n (pageOf 0x1000)
    · rw [update_self, Option.some.injEq, Prod.mk.injEq, hsecond] at hpage
      exact .inr (by omega)
    · rw [update_of_ne hn] at hpage
      obtain rfl | hn := eq_or_ne n (pageOf 0)
      · rw [update_self, Option.some.injEq, Prod.mk.injEq, hfirst] at hpage
        exact .inl (hpage.1 ▸ hused)
      · rw [update_of_ne hn] at hpage
        cases hpage
  rcases ensures_iff.mp (cloneUserSpace_copies htables hr hheld 0 false) with
    ⟨c, m', hclone, hspares, frame, hduplicates⟩ | ⟨e, m', hclone, -⟩
  · exact ⟨_, m, c, m', frame, hrun, hmapped.1, hmapped.2, hclone, hspares, hduplicates⟩
  · rw [hclone] at hok
    cases hok

end ShitOs
