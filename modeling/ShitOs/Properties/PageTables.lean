import ShitOs.Construction.AddressSpace
import ShitOs.Framework.Counting
import ShitOs.Properties.Physical

/-!
# Page tables as one array

The user half of an address space is a tree of tables in physical memory, three levels above the
page tables. Seen from a page number it is one array of page table entries, `leaves`: entry `n` is
the one that the walk of `walk_to_leaf_table` comes to, and zero where a table is missing.

For writes to stay apart, every table is in one place of one tree (`Places`, `Tables`).  Then a
write to a page table is a write to the array (`Pokes.leaves_update`), and a write above that links
to the same table as before, or attaches a new empty one, is not seen in it (`Pokes.leaves_eq`,
`Zeroes.attach`).

`Effect` is what all operations on the user half of one space have in common, and what they leave
alone. `Grows` is an effect that no page sees, and `Climbs.ensures` the one step of `map` down the
tree: the next table, which is made if it is missing and a frame is left.
-/

namespace ShitOs

open Function Kstd PageFlags Physical AddressSpace Program RadixTable Machine

variable {f n : ℕ}

/-! ## Addresses and entries in numbers -/

lemma indexOf_eq (a : U64) (level : ℕ) :
    indexOf a level = a.toNat / 2 ^ (12 + 9 * (level - 1)) % 512 := by
  unfold indexOf
  rw [BitVec.toNat_and, BitVec.toNat_ushiftRight, Nat.shiftRight_eq_div_pow]
  exact Nat.and_two_pow_sub_one_eq_mod _ 9

lemma tableAt_eq (e : U64) : tableAt e = e.toNat / 2 ^ 12 % 2 ^ 40 := by
  unfold tableAt
  rw [BitVec.toNat_ushiftRight, BitVec.toNat_and, Nat.shiftRight_eq_div_pow, Nat.and_div_two_pow]
  exact Nat.and_two_pow_sub_one_eq_mod _ 40

@[simp] lemma tableAt_or (a b : U64) : tableAt (a ||| b) = tableAt a ||| tableAt b := by
  rw [tableAt_eq, tableAt_eq, tableAt_eq, BitVec.toNat_or, Nat.or_div_two_pow, Nat.or_mod_two_pow]

lemma tableAt_physOf (hf : f < 2 ^ 40) : tableAt (physOf f) = f := by
  rw [tableAt_eq, physOf, BitVec.toNat_ofNat, PAGE_SIZE]
  omega

@[simp] lemma tableAt_and_mask (e : U64) : tableAt (e &&& ADDRESS_MASK) = tableAt e := by
  unfold tableAt
  rw [BitVec.and_assoc, BitVec.and_self]

@[simp] lemma hasFlag_or (a b f : U64) : hasFlag (a ||| b) f = (hasFlag a f || hasFlag b f) := by
  unfold hasFlag
  rw [BitVec.and_or_distrib_right, Bool.eq_iff_iff]
  simp [BitVec.or_eq_zero_iff]

lemma hasFlag_and_mask {f : U64} (e : U64) (hf : ADDRESS_MASK &&& f = 0) :
    hasFlag (e &&& ADDRESS_MASK) f = false := by
  unfold hasFlag
  rw [BitVec.and_assoc, hf]
  simp

lemma tableAt_eq_zero {flags : U64} (hflags : flags &&& ADDRESS_MASK = 0) : tableAt flags = 0 := by
  unfold tableAt
  rw [hflags]
  rfl

lemma physOf_and_mask (hf : f < 2 ^ 40) : physOf f &&& ADDRESS_MASK = physOf f := by
  have hphys : (physOf f).toNat = f * 2 ^ 12 := by
    rw [physOf, BitVec.toNat_ofNat, PAGE_SIZE]
    omega
  refine BitVec.eq_of_toNat_eq (Nat.eq_of_testBit_eq fun i => ?_)
  have hmask : ADDRESS_MASK.toNat = (2 ^ 40 - 1) * 2 ^ 12 := rfl
  rw [BitVec.toNat_and, hphys, hmask, Nat.testBit_and, Nat.testBit_mul_two_pow,
    Nat.testBit_mul_two_pow, Nat.testBit_two_pow_sub_one]
  by_cases hi : i - 12 < 40
  · simp +contextual [hi]
  · have : f.testBit (i - 12) = false :=
      Nat.testBit_lt_two_pow (hf.trans_le (Nat.pow_le_pow_right (by decide) (by omega)))
    simp [this]

lemma hasFlag_physOf {flag : U64} (hf : f < 2 ^ 40) (hflag : ADDRESS_MASK &&& flag = 0) :
    hasFlag (physOf f) flag = false := by
  rw [← physOf_and_mask hf]
  exact hasFlag_and_mask _ hflag

/-! ## The machine's memory -/

namespace Machine

variable {m : Machine} {t i : ℕ} {v : U64}

@[simp] lemma entry_setEntry_self : (m.setEntry t i v).entry t i = v := update_self ..

@[simp] lemma setEntry_setEntry {v' : U64} :
    (m.setEntry t i v).setEntry t i v' = m.setEntry t i v' := by
  simp [setEntry]

@[simp] lemma pages_setEntry : (m.setEntry t i v).pages = m.pages := rfl

@[simp] lemma pages_clearFrame {f : ℕ} : (m.clearFrame f).pages = m.pages := rfl

lemma words_setEntry {w : ℕ} (h : w ≠ RadixTable.slot ENTRIES_PER_TABLE t i) :
    (m.setEntry t i v).words w = m.words w := update_of_ne h ..

end Machine

lemma word_of_byte (f i : ℕ) : (f * 4096 + i % 4096) / 8 / ENTRIES_PER_TABLE = f := by
  rw [ENTRIES_PER_TABLE]
  omega

/-! ## Pages of the user half -/

/-- How many pages the user half has. -/
def USER_PAGES : ℕ := 2 ^ 35

/-- The indices of a page in the upper three levels of tables. -/
def pathOf (n : ℕ) : List ℕ := [n / 2 ^ 27 % 512, n / 2 ^ 18 % 512, n / 2 ^ 9 % 512]

/-- The number of the page an address is in. -/
def pageOf (a : U64) : ℕ := a.toNat / 4096

lemma indexOf_pageOf (a : U64) : indexOf a 1 = pageOf a % 512 := by
  rw [indexOf_eq, pageOf]
  rfl

lemma path_pageOf (a : U64) : [indexOf a 4, indexOf a 3, indexOf a 2] = pathOf (pageOf a) := by
  simp only [indexOf_eq, pathOf, pageOf, Nat.div_div_eq_div_mul]
  rfl

lemma walkToLeafTable_eq (words : Memory.Words) (root : ℕ) (a : U64) :
    walkToLeafTable words root a = walk ENTRIES_PER_TABLE nextTable words root
      (pathOf (pageOf a)) := by
  rw [walkToLeafTable, path_pageOf]

lemma pageOf_alignDown (a : U64) : pageOf (alignDown a 4096) = pageOf a := by
  rw [pageOf, toNat_alignDown, pageOf]
  omega

/-- The paths of the user half: the lower half of the root. -/
def userPaths : Paths ENTRIES_PER_TABLE where
  valid p := p.length ≤ 3 ∧ (∀ i ∈ p, i < ENTRIES_PER_TABLE) ∧ ∀ i ∈ p.head?, i < 256
  init := by
    rintro p i ⟨hlen, hindex, hhead⟩
    refine ⟨?_, fun j hj => hindex j (List.mem_append_left _ hj), fun j hj => hhead j ?_⟩
    · rw [List.length_append] at hlen
      omega
    · cases p with
      | nil => cases hj
      | cons k p => exact hj
  index h := h.2.1 _ (by simp)

lemma valid_pathOf (hn : n < USER_PAGES) : userPaths.valid (pathOf n) := by
  unfold USER_PAGES at hn
  refine ⟨Nat.le_refl _, fun i hi => ?_, fun i hi => ?_⟩
  · simp only [pathOf, List.mem_cons, List.not_mem_nil, or_false] at hi
    unfold ENTRIES_PER_TABLE
    omega
  · obtain rfl : n / 2 ^ 27 % 512 = i := by simpa [pathOf] using hi
    omega

lemma eq_of_pathOf {n' : ℕ} (hn : n < USER_PAGES) (hn' : n' < USER_PAGES)
    (hpath : pathOf n = pathOf n') (hindex : n % 512 = n' % 512) : n = n' := by
  unfold USER_PAGES at hn hn'
  simp only [pathOf, List.cons.injEq, and_true] at hpath
  omega

/-- The entries of the page tables of the user half, as one array; zero where there is no table. -/
def leaves (words : Memory.Words) (root n : ℕ) : U64 :=
  if n < USER_PAGES then
    match walk ENTRIES_PER_TABLE nextTable words root (pathOf n) with
    | none => 0
    | some pt => words (slot ENTRIES_PER_TABLE pt (n % 512))
  else 0

/-! ## Where the tables are -/

/-- `own t = some (r, p)` if `t` is the table at the end of path `p` in the user half of the space
with root `r`. -/
abbrev Places := ℕ → Option (ℕ × List ℕ)

/-- The tables of the user halves are in use and in their places, and no entry in the upper three
levels is a huge page. -/
structure Tables (own : Places) (m : Machine) : Prop where
  total : m.pages.totalPages ≤ 2 ^ 40
  used : ∀ t, own t ≠ none → m.pages.inUse t = true
  placed : Placed userPaths nextTable m.words own
  small : ∀ t r p i, own t = some (r, p) → userPaths.valid (p ++ [i]) →
    hasFlag (m.entry t i) Present → hasFlag (m.entry t i) Huge = false

/-- A word of the user half's tables. -/
def UserSlot (own : Places) (r w : ℕ) : Prop :=
  ∃ p, own (w / ENTRIES_PER_TABLE) = some (r, p) ∧ (p = [] → w % ENTRIES_PER_TABLE < 256)

/-- The number of frames the allocator has left. -/
def freeFrames (p : PageAllocator) : ℕ :=
  Counting.count (Finset.range p.totalPages) (· = false) p.inUse

/-- The frame is in use, or none of the allocator's. -/
def Held (p : PageAllocator) (f : ℕ) : Prop := p.inUse f = true ∨ p.totalPages ≤ f

/-- Nothing of what was held has changed, and no frame has been given back. -/
structure Spares (m m' : Machine) : Prop where
  total : m'.pages.totalPages = m.pages.totalPages
  used : ∀ f, m.pages.inUse f = true → m'.pages.inUse f = true
  words : ∀ w, Held m.pages (w / ENTRIES_PER_TABLE) → m'.words w = m.words w
  resident : ∀ s, m.pages.inUse s = true → m'.residentPages s = m.residentPages s

/-- What operations on the user half of the space with root `r` do: they may use up frames, at most
`k`, add tables, and write to the words of the user half's tables.  Nothing else changes that was
not free. -/
structure Effect (r k : ℕ) (own : Places) (m : Machine) (own' : Places) (m' : Machine) : Prop where
  tables : Tables own' m'
  keep : ∀ t, own t ≠ none → own' t = own t
  fresh : ∀ t, own t = none → own' t ≠ none → m.pages.inUse t = false ∧ t < m.pages.totalPages
  used : ∀ f, m.pages.inUse f = true → m'.pages.inUse f = true
  total : m'.pages.totalPages = m.pages.totalPages
  words : ∀ w, Held m.pages (w / ENTRIES_PER_TABLE) → ¬ UserSlot own r w → m'.words w = m.words w
  resident : ∀ s, s ≠ r → m'.residentPages s = m.residentPages s
  walks : ∀ q t, own r = some (r, []) → userPaths.valid q →
    walk ENTRIES_PER_TABLE nextTable m.words r q = some t →
    walk ENTRIES_PER_TABLE nextTable m'.words r q = some t
  spent : freeFrames m.pages ≤ freeFrames m'.pages + k

section Effect

variable {r k k' t i n f : ℕ} {p : List ℕ} {own own' own'' : Places} {m m' m'' : Machine}
  {q : List ℕ} {v : U64} {words : Memory.Words}

section

variable (h : Effect r k own m own' m')
include h

lemma Effect.held (hf : Held m.pages f) : Held m'.pages f :=
  hf.imp (h.used f) fun hle => h.total ▸ hle

omit h in
lemma Effect.refl (h : Tables own m) : Effect r 0 own m own m where
  tables := h
  keep _ _ := rfl
  fresh _ hnone hsome := absurd hnone hsome
  used _ h := h
  total := rfl
  words _ _ _ := rfl
  resident _ _ := rfl
  walks _ _ _ _ hwalk := hwalk
  spent := Nat.le_refl _

lemma Effect.trans (h' : Effect r k' own' m' own'' m'') : Effect r (k + k') own m own'' m'' where
  tables := h'.tables
  keep t ht := by
    have hkeep := h.keep t ht
    rw [h'.keep t (by rwa [hkeep]), hkeep]
  fresh t hnone hsome := by
    by_cases hmid : own' t = none
    · obtain ⟨hfree, hbound⟩ := h'.fresh t hmid hsome
      refine ⟨?_, h.total ▸ hbound⟩
      by_contra hused
      rw [h.used t (by simpa using hused)] at hfree
      cases hfree
    · exact h.fresh t hnone hmid
  used f hf := h'.used f (h.used f hf)
  total := h'.total.trans h.total
  words w hw hslot := by
    rw [h'.words w (h.held hw) ?_, h.words w hw hslot]
    rintro ⟨p, hp, hlow⟩
    by_cases hnone : own (w / ENTRIES_PER_TABLE) = none
    · obtain ⟨hfree, hbound⟩ := h.fresh _ hnone (by simp [hp])
      obtain hused | hle := hw
      · rw [hfree] at hused
        cases hused
      · omega
    · exact hslot ⟨p, by rw [← h.keep _ hnone, hp], hlow⟩
  resident s hs := (h'.resident s hs).trans (h.resident s hs)
  walks q t hr hq hwalk :=
    h'.walks q t ((h.keep r (by simp [hr])).trans hr) hq (h.walks q t hr hq hwalk)
  spent := by
    have := h.spent
    have := h'.spent
    omega

lemma Effect.root {s : ℕ} (hs : own s = some (s, [])) :
    own' s = some (s, []) := (h.keep s (by simp [hs])).trans hs

lemma Effect.mono (hk : k ≤ k') : Effect r k' own m own' m' :=
  { h with spent := h.spent.trans (Nat.add_le_add_left hk _) }

end

/-- An effect that no page sees: the frames that are used up have become tables. -/
structure Grows (r k : ℕ) (own : Places) (m : Machine) (own' : Places) (m' : Machine) : Prop where
  effect : Effect r k own m own' m'
  leaves : leaves m'.words r = leaves m.words r
  resident : m'.residentPages = m.residentPages
  taken : ∀ f, own r = some (r, []) → m'.pages.inUse f = true → m.pages.inUse f = false →
    ∃ q, userPaths.valid q ∧ walk ENTRIES_PER_TABLE nextTable m'.words r q = some f

lemma Grows.refl (h : Tables own m) : Grows r 0 own m own m :=
  ⟨.refl h, rfl, rfl, fun f _ hf hfree => by simp [hf] at hfree⟩

lemma Grows.trans (h : Grows r k own m own' m') (h' : Grows r k' own' m' own'' m'') :
    Grows r (k + k') own m own'' m'' where
  effect := h.effect.trans h'.effect
  leaves := h'.leaves.trans h.leaves
  resident := h'.resident.trans h.resident
  taken f hr hf hfree := by
    have hr' := h.effect.root hr
    by_cases hmid : m'.pages.inUse f = true
    · obtain ⟨q, hq, hwalk⟩ := h.taken f hr hmid hfree
      exact ⟨q, hq, h'.effect.walks q f hr' hq hwalk⟩
    · exact h'.taken f hr' hf (by simpa using hmid)

lemma Grows.mono (h : Grows r k own m own' m') (hk : k ≤ k') : Grows r k' own m own' m' :=
  { h with effect := h.effect.mono hk }

/-! ## What one write does -/

lemma Tables.nextTable_eq (h : Tables own m) (ht : own t = some (r, p))
    (hp : userPaths.valid (p ++ [i])) : nextTable (m.entry t i) =
      if hasFlag (m.entry t i) Present then some (tableAt (m.entry t i)) else none := by
  unfold nextTable
  by_cases hpres : hasFlag (m.entry t i) Present
  · simp [hpres, h.small t r p i ht hp hpres]
  · simp [hpres]

lemma userSlot_slot (ht : own t = some (r, p)) (hi : i < ENTRIES_PER_TABLE)
    (hlow : p = [] → i < 256) : UserSlot own r (slot ENTRIES_PER_TABLE t i) :=
  ⟨p, by rwa [slot_div hi], fun hnil => by rw [slot_mod hi]; exact hlow hnil⟩

lemma low_of_valid (h : userPaths.valid (p ++ [i])) (hnil : p = []) : i < 256 := by
  subst hnil
  exact h.2.2 i rfl

/-- The machine with one word of a user half's table changed. -/
structure Pokes (r : ℕ) (own : Places) (m m' : Machine) (t i : ℕ) : Prop where
  place : ∃ p, own t = some (r, p) ∧ (p = [] → i < 256)
  index : i < ENTRIES_PER_TABLE
  pages : m'.pages = m.pages
  words : ∀ w, w ≠ slot ENTRIES_PER_TABLE t i → m'.words w = m.words w
  resident : ∀ s, s ≠ r → m'.residentPages s = m.residentPages s

lemma Pokes.entry_eq (h : Pokes r own m m' t i) {u j : ℕ} (hj : j < ENTRIES_PER_TABLE)
    (hne : (u, j) ≠ (t, i)) : m'.entry u j = m.entry u j :=
  h.words _ fun heq => hne (Prod.ext (slot_inj hj h.index heq).1 (slot_inj hj h.index heq).2)

/-- A write that links to the same table as before, or one in a page table, keeps all tables. -/
lemma Pokes.effect (h : Pokes r own m m' t i) (htab : Tables own m)
    (hnext : ∀ p, own t = some (r, p) → userPaths.valid (p ++ [i]) →
      nextTable (m'.entry t i) = nextTable (m.entry t i) ∧
        (hasFlag (m'.entry t i) Present → hasFlag (m'.entry t i) Huge = false)) :
    Effect r 0 own m own m' where
  tables :=
    { total := h.pages ▸ htab.total
      used := h.pages ▸ htab.used
      placed := by
        intro u s q j u' hu hval hlink
        refine htab.placed _ _ _ _ _ hu hval ?_
        by_cases heq : (u, j) = (t, i)
        · cases heq
          obtain ⟨p, hp, -⟩ := h.place
          cases hp.symm.trans hu
          exact (hnext q hu hval).1.symm.trans hlink
        · exact (congrArg nextTable (h.entry_eq (userPaths.index hval) heq)).symm.trans hlink
      small := by
        intro u s q j hu hval
        by_cases heq : (u, j) = (t, i)
        · cases heq
          obtain ⟨p, hp, -⟩ := h.place
          cases hp.symm.trans hu
          exact (hnext q hu hval).2
        · rw [h.entry_eq (userPaths.index hval) heq]
          exact htab.small u s q j hu hval }
  keep _ _ := rfl
  fresh _ hnone hsome := absurd hnone hsome
  used _ hf := h.pages ▸ hf
  total := by rw [h.pages]
  words w _ hslot := by
    obtain ⟨p, hp, hlow⟩ := h.place
    refine h.words w fun heq => hslot ?_
    rw [heq]
    exact userSlot_slot hp h.index hlow
  resident := h.resident
  walks q u hr hq hwalk := by
    refine (htab.placed.walk_eq hr (fun v p j hv hval => ?_) hq).trans hwalk
    by_cases heq : (v, j) = (t, i)
    · cases heq
      exact (hnext p hv hval).1
    · exact congrArg nextTable (h.entry_eq (userPaths.index hval) heq)
  spent := by rw [h.pages]; exact Nat.le_refl _

lemma Tables.walk_eq (h : Tables own m) (hr : own r = some (r, [])) (hq : userPaths.valid q)
    (hnext : ∀ t p i, own t = some (r, p) → userPaths.valid (p ++ [i]) →
      nextTable (m'.entry t i) = nextTable (m.entry t i)) :
    walk ENTRIES_PER_TABLE nextTable m'.words r q = walk ENTRIES_PER_TABLE nextTable m.words r q :=
  h.placed.walk_eq hr hnext hq

lemma Tables.own_walk (h : Tables own m) (hr : own r = some (r, []))
    (hq : userPaths.valid q) (hwalk : walk ENTRIES_PER_TABLE nextTable m.words r q = some t) :
    own t = some (r, q) := h.placed.own_walk hr hq hwalk

lemma not_valid_pathOf : ¬ userPaths.valid (pathOf n ++ [i]) := fun h => by
  have := h.1
  simp [pathOf] at this

/-- A write in the upper three levels that links to the same table as before is not seen. -/
lemma Pokes.leaves_eq (h : Pokes r own m m' t i) (htab : Tables own m) (hr : own r = some (r, []))
    (ht : own t = some (r, p)) (hp : userPaths.valid (p ++ [i]))
    (hnext : nextTable (m'.entry t i) = nextTable (m.entry t i)) :
    leaves m'.words r = leaves m.words r := by
  funext n
  unfold leaves
  split_ifs with hn
  · have hwalk : walk ENTRIES_PER_TABLE nextTable m'.words r (pathOf n) =
        walk ENTRIES_PER_TABLE nextTable m.words r (pathOf n) := by
      refine htab.walk_eq hr (valid_pathOf hn) fun u q j hu hval => ?_
      by_cases heq : (u, j) = (t, i)
      · cases heq
        exact hnext
      · rw [h.entry_eq (userPaths.index hval) heq]
    rw [hwalk]
    cases hpt : walk ENTRIES_PER_TABLE nextTable m.words r (pathOf n) with
    | none => rfl
    | some pt =>
      have hown := htab.own_walk hr (valid_pathOf hn) hpt
      refine h.entry_eq (Nat.mod_lt n (by decide)) fun heq => ?_
      cases heq
      cases ht.symm.trans hown
      exact not_valid_pathOf hp
  · rfl

/-- A write in a page table is a write to the array. -/
lemma Pokes.leaves_update (h : Pokes r own m m' t (n % 512)) (htab : Tables own m)
    (hr : own r = some (r, [])) (hn : n < USER_PAGES)
    (hwalk : walk ENTRIES_PER_TABLE nextTable m.words r (pathOf n) = some t) :
    leaves m'.words r = update (leaves m.words r) n (m'.entry t (n % 512)) := by
  have ht := htab.own_walk hr (valid_pathOf hn) hwalk
  have hwalks : ∀ n' < USER_PAGES, walk ENTRIES_PER_TABLE nextTable m'.words r (pathOf n') =
      walk ENTRIES_PER_TABLE nextTable m.words r (pathOf n') := fun n' hn' => by
    refine htab.walk_eq hr (valid_pathOf hn') fun u q j hu hval => ?_
    rw [h.entry_eq (userPaths.index hval) fun heq => ?_]
    cases heq
    cases ht.symm.trans hu
    exact not_valid_pathOf hval
  funext n'
  by_cases heq : n' = n
  · subst heq
    rw [update_self, leaves, if_pos hn, hwalks n' hn, hwalk]
    rfl
  · rw [update_of_ne heq]
    unfold leaves
    split_ifs with hn'
    · rw [hwalks n' hn']
      cases hpt : walk ENTRIES_PER_TABLE nextTable m.words r (pathOf n') with
      | none => rfl
      | some pt =>
        have hown := htab.own_walk hr (valid_pathOf hn') hpt
        refine h.entry_eq (Nat.mod_lt n' (by decide)) fun hslot => heq ?_
        obtain ⟨rfl, hindex⟩ := Prod.mk.inj hslot
        have hpath := Option.some.inj (hown.symm.trans ht)
        exact eq_of_pathOf hn' hn (Prod.mk.inj hpath).2 hindex
    · rfl

/-! ## A new frame -/

lemma freeFrames_takes {p q : PageAllocator} (h : p.Takes q f 1) :
    freeFrames p = freeFrames q + 1 := by
  have hinUse : q.inUse = update p.inUse f true := by
    funext g
    by_cases hg : g = f
    · rw [hg, update_self, h.taken_one]
    · rw [update_of_ne hg, h.others_one hg]
  have hcnt := Counting.count_update (P := (· = false)) (f := p.inUse)
    (Finset.mem_range.mpr h.bound) true
  rw [h.free_one, if_pos rfl, if_neg (by decide)] at hcnt
  rw [freeFrames, freeFrames, hinUse, h.total]
  omega

/-- `m'` is `m` with a new frame, whatever is in it. -/
structure Fills (m m' : Machine) (f : ℕ) : Prop where
  takes : m.pages.Takes m'.pages f 1
  others : ∀ w, w / ENTRIES_PER_TABLE ≠ f → m'.words w = m.words w
  resident : m'.residentPages = m.residentPages

/-- `m'` is `m` with a new frame of zeros. -/
structure Zeroes (m m' : Machine) (f : ℕ) : Prop extends Fills m m' f where
  cleared : ∀ w, w / ENTRIES_PER_TABLE = f → m'.words w = 0

lemma ensures_allocatePage : Ensures allocatePage m
    (fun f m' => m.pages.Takes m'.pages f 1 ∧ m' = { m with pages := m'.pages })
    (fun e m' => e = .ENOMEM ∧ m' = m ∧ freeFrames m.pages = 0) := by
  unfold Ensures allocatePage
  cases h : m.pages.allocatePage with
  | ok result => exact ⟨PageAllocator.allocatePage_spec h, rfl⟩
  | error e =>
    obtain ⟨he, hused⟩ := PageAllocator.allocatePage_error h
    refine ⟨he, rfl, Counting.count_eq_zero_iff.mpr fun f hf => ?_⟩
    simp [hused f (Finset.mem_range.mp hf)]

lemma ensures_allocateZeroedPage : Ensures allocateZeroedPage m (fun f m' => Zeroes m m' f)
    (fun e m' => e = .ENOMEM ∧ m' = m ∧ freeFrames m.pages = 0) := by
  unfold allocateZeroedPage
  simp only [ensures_bind, ensures_modify, ensures_pure]
  refine ensures_allocatePage.mono ?_ fun _ _ h => h
  rintro f m' ⟨htakes, hm'⟩
  have hwords : m'.words = m.words := by rw [hm']
  refine ⟨⟨htakes, fun w hw => ?_, by rw [clearFrame, hm']⟩, fun w hw => if_pos hw⟩
  rw [← hwords]
  exact if_neg hw

lemma ensures_freePage {f : ℕ} (hbound : f < m.pages.totalPages) (hused : m.pages.inUse f = true) :
    Ensures (freePage f)
      m (fun _ m' => m.pages.Frees m'.pages f 1 ∧ m' = { m with pages := m'.pages })
      fun _ _ => False := by
  obtain ⟨pages, hpages, hfrees⟩ := m.pages.freePage_spec hbound hused
  have hfree : freePage f m = some (.ok (), { m with pages := pages }) := by
    rw [freePage, hpages]
    rfl
  exact (ensures_of_ok hfree).mpr ⟨hfrees, rfl⟩

lemma Tables.fresh {pages : PageAllocator} {f : ℕ} (h : Tables own m)
    (htakes : m.pages.Takes pages f 1) : own f = none := by
  by_contra hsome
  exact htakes.ne (h.used f hsome) rfl

lemma Tables.congr (h : Tables own m) (htotal : m'.pages.totalPages = m.pages.totalPages)
    (hused : ∀ t, own t ≠ none → m'.pages.inUse t = true)
    (hwords : ∀ w, own (w / ENTRIES_PER_TABLE) ≠ none → m'.words w = m.words w) :
    Tables own m' := by
  have hentry : ∀ t s p i, own t = some (s, p) → userPaths.valid (p ++ [i]) →
      m'.entry t i = m.entry t i := fun t s p i ht hval =>
    hwords _ (by rw [slot_div (userPaths.index hval), ht]; simp)
  refine ⟨htotal ▸ h.total, hused, fun t s p i t' ht hval hnext => ?_, fun t s p i ht hval => ?_⟩
  · exact h.placed _ _ _ _ _ ht hval
      ((congrArg nextTable (hentry t s p i ht hval)).symm.trans hnext)
  · rw [hentry t s p i ht hval]
    exact h.small t s p i ht hval

lemma leaves_congr (h : Tables own m) (hr : own r = some (r, []))
    (hwords : ∀ w, own (w / ENTRIES_PER_TABLE) ≠ none → m'.words w = m.words w) :
    leaves m'.words r = leaves m.words r := by
  have hentry : ∀ t i, own t ≠ none → i < ENTRIES_PER_TABLE → m'.entry t i = m.entry t i :=
    fun t i ht hi => hwords _ (by rwa [slot_div hi])
  funext n
  unfold leaves
  split_ifs with hn
  · rw [h.walk_eq hr (valid_pathOf hn) fun t p i ht hval =>
      congrArg nextTable (hentry t i (by simp [ht]) (userPaths.index hval))]
    cases hpt : walk ENTRIES_PER_TABLE nextTable m.words r (pathOf n) with
    | none => rfl
    | some pt =>
      exact hentry pt _ (by simp [h.own_walk hr (valid_pathOf hn) hpt]) (Nat.mod_lt n (by decide))
  · rfl

/-! ## `ensure_table` -/

lemma nextTable_or_user (e : U64) : nextTable (e ||| User) = nextTable e := by
  have htable : tableAt User = 0 := rfl
  have hpres : hasFlag User Present = false := rfl
  have hhuge : hasFlag User Huge = false := rfl
  unfold nextTable
  simp [htable, hpres, hhuge]

/-- `ensure_table` on an entry that is there: it may permit more afterwards. -/
lemma ensures_ensureTable_present (htab : Tables own m) (hr : own r = some (r, []))
    (hp : userPaths.valid (p ++ [i]))
    (hwalk : walk ENTRIES_PER_TABLE nextTable m.words r p = some t)
    (hpres : hasFlag (m.entry t i) Present) (user : Bool) : Ensures (ensureTable t i user) m
      (fun t' m' => Grows r 0 own m own m' ∧ m'.pages = m.pages ∧
        (∀ q, userPaths.valid q → walk ENTRIES_PER_TABLE nextTable m'.words r q =
          walk ENTRIES_PER_TABLE nextTable m.words r q) ∧
        walk ENTRIES_PER_TABLE nextTable m.words r (p ++ [i]) = some t')
      (fun _ _ => False) := by
  have ht := htab.own_walk hr (userPaths.init hp) hwalk
  have hsmall := htab.small t r p i ht hp hpres
  have hnext : nextTable (m.entry t i) = some (tableAt (m.entry t i)) := by
    rw [htab.nextTable_eq ht hp, if_pos hpres]
  have hlink : walk ENTRIES_PER_TABLE nextTable m.words r (p ++ [i]) =
    some (tableAt (m.entry t i)) :=
    walk_concat.mpr ⟨t, hwalk, hnext⟩
  have hpokes : Pokes r own m (m.setEntry t i (m.entry t i ||| User)) t i :=
    ⟨⟨p, ht, low_of_valid hp⟩, userPaths.index hp, rfl, fun w hw => words_setEntry hw,
    fun _ _ => rfl⟩
  have hsame : nextTable ((m.setEntry t i (m.entry t i ||| User)).entry t i) =
    nextTable (m.entry t i) := by
    rw [entry_setEntry_self, nextTable_or_user]
  unfold ensureTable
  cases user with
  | false =>
    simp only [ensures_bind, ensures_get, ensures_ite, ensures_modify, ensures_pure, ensures_throw,
      hpres, hsmall]
    simpa using ⟨.refl htab, hlink⟩
  | true =>
    have hhuge : hasFlag User Huge = false := rfl
    have htable : tableAt User = 0 := rfl
    have hwalks : ∀ q, userPaths.valid q →
        walk ENTRIES_PER_TABLE nextTable (m.setEntry t i (m.entry t i ||| User)).words r q =
          walk ENTRIES_PER_TABLE nextTable m.words r q := fun q hq => by
      refine htab.walk_eq hr hq fun u q j hu hval => ?_
      by_cases heq : (u, j) = (t, i)
      · cases heq
        exact hsame
      · rw [hpokes.entry_eq (userPaths.index hval) heq]
    have heff : Effect r 0 own m own (m.setEntry t i (m.entry t i ||| User)) :=
      hpokes.effect htab fun q hq hval =>
        ⟨hsame, fun _ => by simp [hsmall, hhuge]⟩
    simpa [hpres, hsmall, hhuge, htable] using
      ⟨⟨heff, hpokes.leaves_eq htab hr ht hp hsame, rfl, fun f _ hf hfree =>
        absurd hf (by simp [hfree])⟩, hwalks, hlink⟩

/-- `ensure_table` on an entry that is not there first makes one. -/
lemma ensures_ensureTable_absent {user : Bool} {Q : ℕ → Machine → Prop} {E : Errno → Machine → Prop}
    (habs : hasFlag (m.entry t i) Present = false) :
    Ensures (ensureTable t i user) m Q E ↔ Ensures allocateZeroedPage m
      (fun f m' => Ensures (ensureTable t i user)
        (m'.setEntry t i (physOf f ||| Present ||| Writable)) Q E) E := by
  have hpres : ∀ f, hasFlag (physOf f ||| Present ||| Writable) Present = true := fun f => by
    have : hasFlag Present Present = true := rfl
    simp [this]
  unfold ensureTable
  simp [habs, hpres]

lemma Zeroes.attaches (h : Zeroes m m' f) (htab : Tables own m)
    (ht : own t = some (r, p)) (hp : userPaths.valid (p ++ [i]))
    (habs : hasFlag (m.entry t i) Present = false) (hv : nextTable v = some f) :
    Attaches userPaths nextTable own m.words (m'.setEntry t i v).words r p t i f := by
  have htf : t ≠ f := h.takes.ne (htab.used t (by simp [ht]))
  have hi := userPaths.index hp
  have hne : ∀ u j, j < ENTRIES_PER_TABLE → (u, j) ≠ (t, i) →
      (m'.setEntry t i v).words (slot ENTRIES_PER_TABLE u j) =
      m'.words (slot ENTRIES_PER_TABLE u j) :=
    fun u j hj hne => words_setEntry fun heq =>
      hne (Prod.ext (slot_inj hj hi heq).1 (slot_inj hj hi heq).2)
  refine ⟨ht, hp, htab.fresh h.takes, ?_, ?_, fun j hj => ?_, fun u j huf hj huj => ?_⟩
  · change nextTable (m.entry t i) = none
    rw [htab.nextTable_eq ht hp, if_neg (by simp [habs])]
  · exact (congrArg nextTable entry_setEntry_self).trans hv
  · rw [hne f j hj fun heq => htf (Prod.mk.inj heq).1.symm, h.cleared _ (slot_div hj)]
    rfl
  · rw [hne u j hj huj, h.others _ (by rwa [slot_div hj])]

/-- Attaching a new table is an effect that no page sees. -/
lemma Zeroes.attach (h : Zeroes m m' f) (htab : Tables own m) (hr : own r = some (r, []))
    (hp : userPaths.valid (p ++ [i]))
    (hwalk : walk ENTRIES_PER_TABLE nextTable m.words r p = some t)
    (habs : hasFlag (m.entry t i) Present = false) (hv : nextTable v = some f) :
    Grows r 1 own m (update own f (some (r, p ++ [i]))) (m'.setEntry t i v) ∧
      ∀ q, userPaths.valid q → walk ENTRIES_PER_TABLE nextTable (m'.setEntry t i v).words r q =
        if q = p ++ [i] then some f else walk ENTRIES_PER_TABLE nextTable m.words r q := by
  have ht := htab.own_walk hr (userPaths.init hp) hwalk
  have hattach := h.attaches htab ht hp habs hv
  have hi := userPaths.index hp
  have hword : ∀ w, w / ENTRIES_PER_TABLE ≠ f → w ≠ slot ENTRIES_PER_TABLE t i →
      (m'.setEntry t i v).words w = m.words w := fun w hw hne => by
    rw [words_setEntry hne, h.others w hw]
  have hzero : ∀ j < ENTRIES_PER_TABLE, (m'.setEntry t i v).words (slot ENTRIES_PER_TABLE f j) =
    0 :=
    fun j hj => by
      rw [words_setEntry fun heq => ?_, h.cleared _ (slot_div hj)]
      exact h.takes.ne (htab.used t (by simp [ht])) (slot_inj hj hi heq).1.symm
  refine ⟨⟨⟨⟨?_, fun u hu => ?_, hattach.placed htab.placed, fun u s q j hu hval => ?_⟩,
    fun u hu => ?_, fun u hnone hsome => ?_, fun _ => h.takes.kept, h.takes.total,
    fun w hw hslot => ?_, fun s _ => ?_, fun q u _ hq hu => ?_, ?_⟩, ?_, h.resident,
    fun g _ hg hgfree => ?_⟩, fun q hq => hattach.walk htab.placed hr hwalk hq⟩
  · exact h.takes.total ▸ htab.total
  · by_cases huf : u = f
    · exact huf ▸ h.takes.taken_one
    · rw [update_of_ne huf] at hu
      exact h.takes.kept (htab.used u hu)
  · have hj := userPaths.index hval
    by_cases huf : u = f
    · intro hpres
      rw [huf, entry, hzero j hj] at hpres
      cases hpres
    · rw [update_of_ne huf] at hu
      by_cases heq : slot ENTRIES_PER_TABLE u j = slot ENTRIES_PER_TABLE t i
      · rw [entry, heq]
        change hasFlag ((m'.setEntry t i v).entry t i) Present →
          hasFlag ((m'.setEntry t i v).entry t i) Huge = false
        rw [entry_setEntry_self]
        intro _
        unfold nextTable at hv
        split_ifs at hv with hflags
        simpa using hflags.2
      · rw [entry, hword _ (by rwa [slot_div hj]) heq]
        exact htab.small u s q j hu hval
  · exact update_of_ne (h.takes.ne (htab.used u hu)) ..
  · by_cases huf : u = f
    · exact huf ▸ ⟨h.takes.free_one, h.takes.bound⟩
    · rw [update_of_ne huf] at hsome
      exact absurd hnone hsome
  · refine hword w (h.takes.ne_of_held hw) fun heq => hslot ?_
    rw [heq]
    exact userSlot_slot ht hi (low_of_valid hp)
  · exact congrFun h.resident s
  · rw [hattach.walk htab.placed hr hwalk hq, if_neg fun hnew => ?_, hu]
    rw [hnew, walk_append, hwalk, Option.bind_some] at hu
    simp [walk, hattach.before] at hu
  · have := freeFrames_takes h.takes
    exact Nat.le_of_eq this
  · funext n
    unfold leaves
    split_ifs with hn
    · rw [hattach.walk htab.placed hr hwalk (valid_pathOf hn)]
      split_ifs with hnew
      · have hnone : walk ENTRIES_PER_TABLE nextTable m.words r (pathOf n) = none := by
          rw [hnew, walk_append, hwalk, Option.bind_some]
          simp [walk, hattach.before]
        rw [hnone]
        exact hzero _ (Nat.mod_lt n (by decide))
      · cases hpt : walk ENTRIES_PER_TABLE nextTable m.words r (pathOf n) with
        | none => rfl
        | some pt =>
          have hown := htab.own_walk hr (valid_pathOf hn) hpt
          have hlt : n % 512 < ENTRIES_PER_TABLE := Nat.mod_lt n (by decide)
          refine hword _ ?_ fun heq => ?_
          · rw [slot_div hlt]
            exact h.takes.ne (htab.used pt (by simp [hown]))
          · obtain ⟨rfl, -⟩ := slot_inj hlt hi heq
            cases ht.symm.trans hown
            exact not_valid_pathOf hp
    · rfl
  · by_cases hgf : g = f
    · exact ⟨p ++ [i], hp, by rw [hattach.walk htab.placed hr hwalk hp, if_pos rfl, hgf]⟩
    · have hsame := h.takes.others_one hgf
      rw [pages_setEntry, hsame, hgfree] at hg
      cases hg

lemma ensures_ensureTable (htab : Tables own m) (hr : own r = some (r, []))
    (hp : userPaths.valid (p ++ [i]))
    (hwalk : walk ENTRIES_PER_TABLE nextTable m.words r p = some t) (user : Bool) :
    Ensures (ensureTable t i user) m (fun t' m' => ∃ own', Grows r 1 own m own' m' ∧
        freeFrames m.pages = freeFrames m'.pages +
          (if walk ENTRIES_PER_TABLE nextTable m.words r (p ++ [i]) = none then 1 else 0) ∧
        ∀ q, userPaths.valid q → walk ENTRIES_PER_TABLE nextTable m'.words r q =
          if q = p ++ [i] then some t' else walk ENTRIES_PER_TABLE nextTable m.words r q)
      (fun e m' => m' = m ∧ e = .ENOMEM ∧ freeFrames m.pages = 0 ∧
        walk ENTRIES_PER_TABLE nextTable m.words r (p ++ [i]) = none) := by
  have ht := htab.own_walk hr (userPaths.init hp) hwalk
  by_cases hpres : hasFlag (m.entry t i) Present
  · exact (ensures_ensureTable_present htab hr hp hwalk hpres user).mono
      (fun t' m' h => ⟨own, h.1.mono (Nat.zero_le 1), by rw [h.2.2.2, h.2.1]; rfl, fun q hq => by
        rw [h.2.2.1 q hq]
        split_ifs with hnew
        · rw [hnew, h.2.2.2]
        · rfl⟩) fun _ _ h => h.elim
  · have habs : hasFlag (m.entry t i) Present = false := by simpa using hpres
    have hnone : walk ENTRIES_PER_TABLE nextTable m.words r (p ++ [i]) = none := by
      have hnext : nextTable (m.words (slot ENTRIES_PER_TABLE t i)) = none := by
        change nextTable (m.entry t i) = none
        rw [htab.nextTable_eq ht hp, if_neg hpres]
      rw [walk_append, hwalk, Option.bind_some]
      simp [walk, hnext]
    rw [ensures_ensureTable_absent habs]
    refine ensures_allocateZeroedPage.mono (fun f m₁ hzero => ?_)
      fun e m' h => ⟨h.2.1, h.1, h.2.2, hnone⟩
    have hf : f < 2 ^ 40 := by
      have := hzero.takes.bound
      have := htab.total
      omega
    have hv : nextTable (physOf f ||| Present ||| Writable) = some f := by
      have hhuge : hasFlag (physOf f ||| Present ||| Writable) Huge = false := by
        have h₁ : hasFlag Present Huge = false := rfl
        have h₂ : hasFlag Writable Huge = false := rfl
        simp [h₁, h₂, hasFlag_physOf hf (show ADDRESS_MASK &&& Huge = 0 from rfl)]
      have hpres : hasFlag (physOf f ||| Present ||| Writable) Present = true := by
        have : hasFlag Present Present = true := rfl
        simp [this]
      have htable : tableAt (physOf f ||| Present ||| Writable) = f := by
        have h₁ : tableAt Present = 0 := rfl
        have h₂ : tableAt Writable = 0 := rfl
        simp [h₁, h₂, tableAt_physOf hf]
      rw [nextTable, if_pos ⟨hpres, by simp [hhuge]⟩, htable]
    obtain ⟨hgrows, hwalks⟩ := hzero.attach htab hr hp hwalk habs hv
    have hr' := hgrows.effect.root hr
    have hwalk' := hwalks p (userPaths.init hp)
    rw [if_neg (by simp), hwalk] at hwalk'
    have hpres' : hasFlag ((m₁.setEntry t i (physOf f ||| Present ||| Writable)).entry t i)
      Present := by
      unfold nextTable at hv
      split_ifs at hv with hflags
      rw [entry_setEntry_self]
      exact hflags.1
    refine (ensures_ensureTable_present hgrows.effect.tables hr' hp hwalk' hpres' user).mono
      (fun t' m' h => ?_) fun _ _ h => h.elim
    obtain ⟨hgrows', hpages, hsame, hlink⟩ := h
    refine ⟨_, hgrows.trans hgrows', ?_, fun q hq => ?_⟩
    · rw [hpages, hnone, if_pos rfl]
      exact freeFrames_takes hzero.takes
    · rw [hsame q hq]
      split_ifs with hnew
      · rw [hnew, hlink]
      · rw [hwalks q hq, if_neg hnew]

/-! ## The tables along a path -/

/-- How many of the tables along a path are missing. -/
def missingTables (words : Memory.Words) (r : ℕ) (path : List ℕ) : ℕ :=
  path.inits.countP fun p => (walk ENTRIES_PER_TABLE nextTable words r p).isNone

lemma missingTables_concat : missingTables words r (p ++ [i]) = missingTables words r p +
      if walk ENTRIES_PER_TABLE nextTable words r (p ++ [i]) = none then 1 else 0 := by
  simp [missingTables, List.inits_append, List.countP_append, List.countP_singleton]

lemma missingTables_append (q : List ℕ) :
    missingTables words r p ≤ missingTables words r (p ++ q) := by
  induction q using List.reverseRecOn with
  | nil => rw [List.append_nil]
  | append_singleton q i ih =>
    rw [← List.append_assoc, missingTables_concat]
    exact ih.trans (Nat.le_add_right _ _)

lemma missingTables_congr (h : Tables own m) (hr : own r = some (r, [])) (hp : userPaths.valid p)
    (hwords : ∀ w, own (w / ENTRIES_PER_TABLE) ≠ none → m'.words w = m.words w) :
    missingTables m'.words r p = missingTables m.words r p := by
  refine List.countP_congr fun q hq => ?_
  obtain ⟨rest, rfl⟩ := (List.mem_inits q p).mp hq
  rw [h.walk_eq hr (userPaths.of_append hp) fun t q i ht hval => congrArg nextTable <|
    hwords _ (by rw [slot_div (userPaths.index hval), ht]; simp)]

lemma missingTables_pathOf (words : Memory.Words) (r n : ℕ) :
    missingTables words r (pathOf n) ≤ 3 := by
  have hroot : missingTables words r [] = 0 := rfl
  rw [show pathOf n = [] ++ [_] ++ [_] ++ [_] from rfl, missingTables_concat, missingTables_concat,
    missingTables_concat, hroot]
  split_ifs <;> decide

/-- The tables along a path have been made, as far as they were missing. -/
structure Climbs (r : ℕ) (own : Places) (m : Machine) (p : List ℕ) (own' : Places) (m' : Machine)
    (t : ℕ) : Prop where
  grows : Grows r p.length own m own' m'
  here : walk ENTRIES_PER_TABLE nextTable m'.words r p = some t
  spent : freeFrames m.pages = freeFrames m'.pages + missingTables m.words r p
  others : ∀ q, userPaths.valid q → p.length < q.length →
    walk ENTRIES_PER_TABLE nextTable m'.words r q = walk ENTRIES_PER_TABLE nextTable m.words r q

lemma Climbs.refl (htab : Tables own m) : Climbs r own m [] own m r :=
  ⟨.refl htab, rfl, rfl, fun _ _ _ => rfl⟩

/-- **One table further**, unless there is no frame for it. -/
lemma Climbs.ensures (h : Climbs r own m p own' m' t) (hr : own r = some (r, []))
    (hp : userPaths.valid (p ++ [i])) (user : Bool) : Ensures (ensureTable t i user) m'
      (fun t' m'' => ∃ own'', Climbs r own m (p ++ [i]) own'' m'' t')
      (fun e m'' => e = .ENOMEM ∧ Grows r p.length own m own' m'' ∧
        freeFrames m.pages < missingTables m.words r (p ++ [i]) ∧
        walk ENTRIES_PER_TABLE nextTable m.words r (p ++ [i]) = none) := by
  have hsame := h.others _ hp (by simp)
  refine (ensures_ensureTable h.grows.effect.tables (h.grows.effect.root hr) hp h.here user).mono
    (fun t' m'' ⟨own'', hgrows, hspent, hwalks⟩ => ⟨own'', ?_, ?_, ?_, fun q hq hlonger => ?_⟩)
    fun e m'' ⟨hm'', he, hfree, hnone⟩ => ?_
  · rw [List.length_append]
    exact h.grows.trans hgrows
  · rw [hwalks _ hp, if_pos rfl]
  · rw [h.spent, hspent, hsame, missingTables_concat]
    omega
  · have hne : q ≠ p ++ [i] := fun heq => by simp [heq] at hlonger
    rw [hwalks q hq, if_neg hne]
    exact h.others q hq (by simp at hlonger; omega)
  · subst hm''
    rw [hsame] at hnone
    refine ⟨he, h.grows, ?_, hnone⟩
    rw [h.spent, hfree, missingTables_concat, if_pos hnone]
    omega

/-! ## The entry of a page -/

lemma leaves_of_walk (hn : n < USER_PAGES)
    (hwalk : walk ENTRIES_PER_TABLE nextTable m.words r (pathOf n) = some t) :
    leaves m.words r n = m.entry t (n % 512) := by
  rw [leaves, if_pos hn, hwalk]
  rfl

lemma leaves_of_walk_none (hpath : p ++ q = pathOf n)
    (hwalk : walk ENTRIES_PER_TABLE nextTable m.words r p = none) : leaves m.words r n = 0 := by
  unfold leaves
  rw [← hpath, walk_append, hwalk, Option.bind_none]
  split_ifs <;> rfl

end Effect

end ShitOs
