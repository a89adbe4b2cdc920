import Mathlib.Data.List.GetD
import ShitOs.Construction.Tmpfs
import ShitOs.Framework.Overwrite
import ShitOs.Framework.Transition
import ShitOs.Properties.PageTables

/-!
# A file in tmpfs is a list of bytes

What a regular file is for: a finite list of bytes, of which `read` returns a part, over which
`write` writes and which `truncate` cuts or fills up with zeros (`TmpfsSpec`).  Pages show in it
only when they run out (`Lacks`): a call that fails for that leaves the list as it was.

The file's pages hold a function from positions to bytes, and what each part of the code does is
said about that function (`Holds`).  The list stands for the function that has zeros behind its end
(`Represents`), up to the end of the last page: pages that are added come as zeros, and what
`truncate` cuts off within a page it sets to zero.

`tmpfs_refines` is about whole runs, in which others work with the rest of the memory between the
calls.
-/

namespace ShitOs

open BitVec (le_def lt_def ofNat)
open Physical Program Transition

namespace TmpfsFile

variable {m : Machine} {f pos : ℕ}

/-! ## What the pages hold -/

/-- Byte `i` of the file's pages. -/
def byteAt (s : TmpfsFile) (i : ℕ) : BitVec 8 :=
  Memory.loadByte s.machine.words (s.pages.getD (i / 4096) 0 * 4096 + i % 4096)

/-- A file of size `b` has `n` pages, which are its own, and they hold the function `g`. -/
structure Holds (s : TmpfsFile) (b : U64) (n : ℕ) (g : ℕ → BitVec 8) : Prop where
  regular : s.type ≠ .directory
  size : s.size = b
  count : s.pages.length = n
  nodup : s.pages.Nodup
  held : ∀ f ∈ s.pages, f < s.machine.pages.totalPages ∧ s.machine.pages.inUse f = true
  bytes : ∀ i < n * 4096, s.byteAt i = g i

/-- Nothing of the file's pages has changed. -/
structure Undisturbed (s : TmpfsFile) (m : Machine) : Prop where
  held : ∀ f ∈ s.pages, f < m.pages.totalPages ∧ m.pages.inUse f = true
  words : ∀ w, w / ENTRIES_PER_TABLE ∈ s.pages → m.words w = s.machine.words w

variable {s : TmpfsFile} {size : U64} {n : ℕ} {g : ℕ → BitVec 8}

lemma getD_pages_mem {i : ℕ} (hi : i / 4096 < s.pages.length) :
    s.pages.getD (i / 4096) 0 ∈ s.pages := by
  rw [List.getD_eq_getElem s.pages 0 hi]
  exact List.getElem_mem hi

section

variable (h : Holds s size n g)
include h

lemma Holds.undisturbed (hm : s.Undisturbed m) : Holds { s with machine := m } size n g where
  regular := h.regular
  size := h.size
  count := h.count
  nodup := h.nodup
  held := hm.held
  bytes i hi := by
    have hmem := getD_pages_mem (s := s) (i := i) (by have := h.count; omega)
    rw [← h.bytes i hi]
    exact Memory.loadByte_congr (hm.words _ (by rw [word_of_byte]; exact hmem))

lemma Holds.congr {g' : ℕ → BitVec 8} (hg : ∀ i < n * 4096, g' i = g i) : Holds s size n g' :=
  { h with bytes := fun i hi => (h.bytes i hi).trans (hg i hi).symm }

/-! ## Pages come and go -/

lemma Holds.fills (hfills : Fills s.machine m f) : f ∉ s.pages ∧ s.Undisturbed m := by
  have hnew : f ∉ s.pages := fun hf => hfills.takes.ne (h.held f hf).2 rfl
  refine ⟨hnew, fun q hq => ?_, fun w hw => hfills.others w fun heq => hnew (heq ▸ hw)⟩
  exact (h.held q hq).imp (hfills.takes.total.symm ▸ ·) hfills.takes.kept

lemma Holds.frees (hf : f ∉ s.pages)
    (hfrees : s.machine.pages.Frees m.pages f 1) (hm : m = { s.machine with pages := m.pages }) :
    s.Undisturbed m := by
  refine ⟨fun q hq => ?_, fun w _ => by rw [hm]⟩
  have hne : q ≠ f := fun heq => hf (heq ▸ hq)
  rw [hfrees.total, hfrees.others_one hne]
  exact h.held q hq

omit h in
lemma ensures_releaseLast (h : Holds s size (n + 1) g) :
    Ensures releaseLast s (fun _ s' => Holds s' size n g) fun _ _ => False := by
  obtain ⟨pages, f, hpages⟩ : ∃ pages f, s.pages = pages ++ [f] :=
    ⟨_, _, (List.dropLast_append_getLast
    (List.ne_nil_of_length_pos (by have := h.count; omega))).symm⟩
  have hf : f ∈ s.pages := by simp [hpages]
  have hnodup := h.nodup
  rw [hpages, List.nodup_append] at hnodup
  have hlen : pages.length = n := by simpa [hpages] using h.count
  -- The file without its last page.
  have hrest : Holds { s with pages := pages } size n g := by
    refine ⟨h.regular, h.size, hlen, hnodup.1, fun q hq => h.held q (by simp [hpages, hq]),
      fun i hi => ?_⟩
    have hlt : i < (n + 1) * 4096 := Nat.lt_of_lt_of_le hi (Nat.mul_le_mul_right 4096 n.le_succ)
    have hpage : i / 4096 < pages.length := by omega
    rw [← h.bytes i hlt, byteAt, byteAt, hpages, List.getD_append _ _ _ _ hpage]
  unfold releaseLast
  simp only [ensures_bind, ensures_get, hpages, List.getLast?_append, List.getLast?_singleton,
    Option.some_or, onMachine, ensures_zoom, ensures_modify, List.dropLast_concat]
  refine (ensures_freePage (h.held f hf).1 (h.held f hf).2).imp fun _ m hm => ?_
  exact hrest.undisturbed (hrest.frees (fun hmem => hnodup.2.2 f hmem f (by simp) rfl) hm.1 hm.2)

section

variable (h : Holds s size n g)
include h

lemma ensures_releasePagesFrom {first : ℕ} (hfirst : first ≤ n) :
    Ensures (releasePagesFrom first) s (fun _ s' => Holds s' size first g) fun _ _ => False := by
  unfold releasePagesFrom
  simp only [ensures_bind, ensures_get, h.count, List.range_eq_range']
  have hloop := ensures_forM_range' (a := 0) (k := n - first) (f := fun _ => releaseLast)
    (E := fun _ _ => False) (s := s) (fun k s' => Holds s' size (n - k) g)
    (fun k s' _ hk hs' => by
      rw [show n - k = n - (k + 1) + 1 by omega] at hs'
      exact ensures_releaseLast hs') h
  rwa [Nat.zero_add, Nat.sub_sub_self hfirst] at hloop

lemma ensures_abandon (hn : pagesFor size ≤ n) {α : Type} {Q : α → TmpfsFile → Prop}
    {e : Errno} :
    Ensures (abandon e) s Q fun e' s' => e' = e ∧ Holds s' size (pagesFor size) g := by
  unfold abandon
  simp only [ensures_bind, ensures_get, ensures_throw, h.size]
  exact (ensures_releasePagesFrom h hn).mono (fun _ s' hs' => ⟨trivial, hs'⟩) fun _ _ => False.elim

lemma Holds.append (hzeroes : Zeroes s.machine m f) (hzero : ∀ i, n * 4096 ≤ i → g i = 0) :
    Holds { s with machine := m, pages := s.pages ++ [f] } size (n + 1) g := by
  obtain ⟨hnew, hundisturbed⟩ := h.fills hzeroes.toFills
  have hold := h.undisturbed hundisturbed
  refine ⟨h.regular, h.size, by simp [h.count], ?_, fun q hq => ?_, fun i hi => ?_⟩
  · refine List.nodup_append.mpr ⟨h.nodup, List.pairwise_singleton _ f, fun q hq r hr => ?_⟩
    rintro rfl
    exact hnew (List.mem_singleton.mp hr ▸ hq)
  · rcases List.mem_append.mp hq with hq | hq
    · exact hundisturbed.held q hq
    · obtain rfl := List.mem_singleton.mp hq
      have := hzeroes.takes.bound
      exact ⟨by rw [hzeroes.takes.total]; omega, hzeroes.takes.taken_one⟩
  · rw [byteAt]
    rcases Nat.lt_or_ge i (n * 4096) with hlt | hge
    · rw [← hold.bytes i hlt, byteAt, List.getD_append _ _ _ _ (by rw [h.count]; omega)]
    · rw [hzero i hge, List.getD_append_right _ _ _ _ (by rw [h.count]; omega), h.count,
        show i / 4096 - n = 0 by omega, List.getD_cons_zero, Memory.loadByte,
        hzeroes.cleared _ (word_of_byte f i)]
      simp [Memory.getByte]

lemma ensures_addPage (hn : pagesFor size ≤ n) (hzero : ∀ i, n * 4096 ≤ i → g i = 0)
    (room : ℕ) : Ensures (addPage room) s
      (fun _ s' => Holds s' size (n + 1) g ∧
        freeFrames s.machine.pages = freeFrames s'.machine.pages + 1)
      fun e s' => (e = .ENOMEM ∧ (freeFrames s.machine.pages = 0 ∨ room ≤ n)) ∧
        Holds s' size (pagesFor size) g := by
  unfold addPage
  simp only [ensures_bind, ensures_tryCatch, onMachine, ensures_zoom, ensures_get, ensures_ite,
    ensures_modify]
  refine ensures_allocateZeroedPage.mono (fun f m hzeroes =>
    ⟨fun _ => ⟨h.append hzeroes hzero, freeFrames_takes hzeroes.takes⟩, fun hfull => ?_⟩) ?_
  · obtain ⟨hnew, hundisturbed⟩ := h.fills hzeroes.toFills
    have hold := h.undisturbed hundisturbed
    have := hzeroes.takes.bound
    refine (ensures_freePage (by rw [hzeroes.takes.total]; omega)
      hzeroes.takes.taken_one).mono (fun _ m' hm' => ?_) fun _ _ => False.elim
    refine (ensures_abandon (hold.undisturbed (hold.frees hnew hm'.1 hm'.2)) hn).mono
      (fun _ _ h => h) fun _ _ hs' => ⟨⟨hs'.1, .inr ?_⟩, hs'.2⟩
    exact h.count ▸ Nat.le_of_not_lt hfull
  · rintro e m ⟨he, hm, hnone⟩
    subst hm he
    exact (ensures_abandon h hn).mono (fun _ _ h => h) fun _ _ hs' => ⟨⟨hs'.1, .inl hnone⟩, hs'.2⟩

lemma ensures_ensurePages (hn : pagesFor size ≤ n)
    (hzero : ∀ i, n * 4096 ≤ i → g i = 0) (want : U64) (room : ℕ) :
    Ensures (ensurePages want room) s (fun _ s' => Holds s' size (max n (pagesFor want)) g)
      fun e s' => (e = .ENOMEM ∧ n < pagesFor want ∧
        (freeFrames s.machine.pages + n < pagesFor want ∨ room < pagesFor want)) ∧
          Holds s' size (pagesFor size) g := by
  unfold ensurePages
  simp only [ensures_bind, ensures_get, h.count, List.range_eq_range']
  have hloop := ensures_forM_range' (a := 0) (k := pagesFor want - n) (f := fun _ => addPage room)
    (E := fun e s' => (e = .ENOMEM ∧ n < pagesFor want ∧
      (freeFrames s.machine.pages + n < pagesFor want ∨ room < pagesFor want)) ∧
        Holds s' size (pagesFor size) g) (s := s)
    (fun k s' => Holds s' size (n + k) g ∧
      freeFrames s.machine.pages = freeFrames s'.machine.pages + k)
    (fun k s' _ hk hs' => (ensures_addPage hs'.1 (by omega)
      (fun i hi => hzero i (le_trans (Nat.mul_le_mul_right 4096 (n.le_add_right k)) hi)) room).mono
        (fun _ _ h => ⟨h.1, by omega⟩) fun _ _ h => ⟨⟨h.1.1, by omega⟩, h.2⟩) ⟨h, rfl⟩
  rw [Nat.zero_add, show n + (pagesFor want - n) = max n (pagesFor want) by omega] at hloop
  exact hloop.imp fun _ _ h => h.1

end

/-! ## Storing and loading -/

omit h in
lemma pageOf_eq (hlt : pos < 2 ^ 64) (hpage : pos / 4096 < s.pages.length) :
    s.pageOf pos = some (s.pages.getD (pos / 4096) 0) := by
  rw [pageOf, PAGE_SIZE, Nat.mod_eq_of_lt hlt, List.getD_eq_getElem s.pages 0 hpage,
    List.getElem?_eq_getElem hpage]

lemma ensures_store {count : ℕ} (hlt : pos < 2 ^ 64)
    (hpage : pos / 4096 < n) (hblock : pos % 4096 + count ≤ 4096) (bytes : ℕ → BitVec 8) :
    Ensures (store pos count bytes) s
      (fun _ s' => Holds s' size n fun i =>
        if pos ≤ i ∧ i < pos + count then bytes (i - pos) else g i) fun _ _ => False := by
  unfold store
  simp only [ensures_bind, ensures_get, pageOf_eq hlt (h.count ▸ hpage), ensures_modify]
  refine { h with bytes := fun i hi => ?_ }
  rw [← h.bytes i hi, byteAt, byteAt, PAGE_SIZE, Memory.loadByte_storeBytes]
  have hi' : i / 4096 < s.pages.length := by have := h.count; omega
  have hposition : pos / 4096 < s.pages.length := by have := h.count; omega
  simp only [List.getD_eq_getElem s.pages 0 hi', List.getD_eq_getElem s.pages 0 hposition]
  -- Frames are different unless the index is the same.
  by_cases hsame : i / 4096 = pos / 4096
  · simp only [hsame]
    by_cases hin : pos ≤ i ∧ i < pos + count
    · rw [if_pos hin, if_pos (by omega)]
      congr 1
      omega
    · rw [if_neg hin, if_neg (by omega)]
  · have hne : s.pages[i / 4096] ≠ s.pages[pos / 4096] := fun heq =>
      hsame ((h.nodup.getElem_inj_iff).mp heq)
    rw [if_neg (by omega), if_neg (by omega)]

lemma ensures_storeAll {start : ℕ} {data : List (BitVec 8)}
    (hlt : start + data.length ≤ 2 ^ 64) (hpages : start + data.length ≤ n * 4096) :
    Ensures ((pieces PAGE_SIZE start data.length).forM fun piece =>
        store piece.1 piece.2 fun i => data.getD (piece.1 - start + i) 0) s
      (fun _ s' => Holds s' size n fun i =>
        if start ≤ i ∧ i < start + data.length then data.getD (i - start) 0 else g i) fun _ _ =>
          False := by
  refine ensures_pieces (by decide) (fun pos s' => Holds s' size n fun i =>
    if start ≤ i ∧ i < pos then data.getD (i - start) 0 else g i)
    (fun pos run s' hlow hrun hhigh hblock hs' => ?_) (h.congr fun i _ => if_neg (by omega))
  refine (ensures_store hs' (by omega) (by omega) hblock _).imp
    (fun _ s'' hs'' => hs''.congr fun i _ => ?_)
  -- What this piece stores, what the pieces before it have stored, and the rest.
  by_cases hpiece : pos ≤ i ∧ i < pos + run
  · rw [if_pos hpiece, if_pos (by omega)]
    congr 1
    omega
  · rw [if_neg hpiece]
    by_cases hbefore : start ≤ i ∧ i < pos
    · rw [if_pos hbefore, if_pos (by omega)]
    · rw [if_neg hbefore, if_neg (by omega)]

lemma readPiece_eq {p : ℕ × ℕ} (hlt : p.1 < 2 ^ 64) (hpage : p.1 / 4096 < n)
    (hblock : p.1 % 4096 + p.2 ≤ 4096) : s.readPiece p = some ((List.range' p.1 p.2).map g) := by
  rw [readPiece, pageOf_eq hlt (h.count ▸ hpage), Option.map_some,
    List.range'_eq_map_range, List.map_map]
  refine congrArg some (List.map_congr_left fun i hi => ?_)
  have hi := List.mem_range.mp hi
  rw [Function.comp_apply, ← h.bytes _ (by omega), byteAt, PAGE_SIZE,
    show (p.1 + i) / 4096 =
      p.1 / 4096 by omega, show (p.1 + i) % 4096 = p.1 % 4096 + i by omega, Nat.add_assoc]

lemma mapM_readPiece (start len : ℕ) (hlt : start + len ≤ 2 ^ 64)
    (hpages : start + len ≤ n * 4096) :
    ((pieces PAGE_SIZE start len).mapM s.readPiece).map List.flatten =
      some ((List.range' start len).map g) := by
  induction start, len using pieces_induction (show 0 < 4096 by decide) with
  | hzero => rfl
  | hpiece start run rest hrun hblock hcons ih =>
    have ih := ih (by omega) (by omega)
    obtain ⟨parts, hparts, hflatten⟩ := Option.map_eq_some_iff.mp ih
    rw [PAGE_SIZE, hcons, List.mapM_cons, readPiece_eq h (by dsimp only; omega)
      (by dsimp only; omega) hblock]
    rw [PAGE_SIZE] at hparts
    simp only [hparts, Option.bind_eq_bind, Option.bind_some, Option.pure_def, Option.map_some,
      List.flatten_cons, hflatten, Option.some.injEq]
    rw [← List.map_append, List.range'_append_1]

end

/-! ## The list of bytes -/

/-- A regular file stands for a list of bytes: it has the pages for them, and behind their end there
are zeros. -/
structure Represents (s : TmpfsFile) (c : List (BitVec 8)) : Prop where
  length : s.size.toNat = c.length
  pages : Holds s s.size ((c.length + 4095) / 4096) fun i => c.getD i 0

/-- There are not the frames for a file of `length` bytes to grow to `wanted`, or there is no room
for them in its vector. -/
def Lacks (free room length wanted : ℕ) : Prop :=
  (length + 4095) / 4096 < (wanted + 4095) / 4096 ∧
    (free + (length + 4095) / 4096 < (wanted + 4095) / 4096 ∨ room < (wanted + 4095) / 4096)

lemma pagesFor_eq {b : U64} (hb : b.toNat ≤ 2 ^ 63 + 2 ^ 47) :
    pagesFor b = (b.toNat + 4095) / 4096 := by
  have hsum : (b + 4096 - 1).toNat = b.toNat + 4095 := by bv_omega
  rw [pagesFor, BitVec.toNat_udiv, hsum]
  rfl

lemma Holds.setSize (h : Holds s size n g) (b : U64) : Holds { s with size := b } b n g :=
  { h with size := rfl }

lemma take_drop_eq (c : List (BitVec 8)) (off len : ℕ) : (c.drop off).take len =
    (List.range' off (min len (c.length - off))).map fun i => c.getD i 0 := by
  refine List.ext_getElem (by simp) fun i hi hi' => ?_
  have hlt : off + i < c.length := by
    rw [List.length_take, List.length_drop] at hi
    omega
  simp [List.getElem_take, List.getElem_drop, List.getElem_range', hlt]

lemma getD_rightpad_take (c : List (BitVec 8)) (n i : ℕ) : ((c.rightpad n 0).take n).getD i 0 =
    if i < n then c.getD i 0 else 0 := by
  simp only [List.getD_eq_getElem?_getD, List.getElem?_take, List.rightpad, List.getElem?_append,
    List.getElem?_replicate]
  split_ifs with hn hc hlt
  · rfl
  · rw [List.getElem?_eq_none (by omega)]
    rfl
  · rw [List.getElem?_eq_none (by omega)]
  · rfl

lemma getD_behind {c : List (BitVec 8)} (i : ℕ) (hi : (c.length + 4095) / 4096 * 4096 ≤ i) :
    c.getD i 0 = 0 :=
  List.getD_eq_default _ _ (by omega)

section Calls

variable {c : List (BitVec 8)} (h : s.Represents c) (hsmall : c.length ≤ 2 ^ 63 + 2 ^ 47)

include h hsmall

lemma Represents.pagesFor_size : pagesFor s.size = (c.length + 4095) / 4096 := by
  rw [pagesFor_eq (by rw [h.length]; exact hsmall), h.length]

/-- A call that runs out of pages. -/
lemma Represents.abandoned {s' : TmpfsFile}
    (h' : Holds s' s.size (pagesFor s.size) fun i => c.getD i 0) : s'.Represents c := by
  rw [h.pagesFor_size hsmall] at h'
  exact ⟨by rw [h'.size, h.length], h'.size.symm ▸ h'⟩

lemma Represents.ensures_read (off len : U64) : Ensures (read off len) s
      (fun l s' => l = (c.drop off.toNat).take len.toNat ∧ s' = s) fun _ _ => False := by
  unfold read
  simp only [ensures_bind, ensures_get, ensures_ite, ensures_throw, ensures_pure]
  refine ⟨fun hdir => h.pages.regular hdir, fun _ => ⟨fun hend => ⟨?_, trivial⟩, fun hend => ?_⟩⟩
  · rw [List.drop_eq_nil_of_le (by rw [← h.length]; exact le_def.mp hend), List.take_nil]
  · have hoffset : off.toNat < c.length := by
      rw [← h.length]
      exact Nat.lt_of_not_le fun hle => hend (le_def.mpr hle)
    have hsub : (s.size - off).toNat = c.length - off.toNat := by
      rw [← h.length, BitVec.toNat_sub_of_le (le_def.mpr (by rw [h.length]; omega))]
    rw [hsub]
    obtain ⟨parts, hparts, hflatten⟩ := Option.map_eq_some_iff.mp (mapM_readPiece h.pages
      off.toNat (min len.toNat (c.length - off.toNat)) (by omega) (by omega))
    rw [hparts]
    exact ensures_pure.mpr ⟨by rw [hflatten, take_drop_eq], rfl⟩

lemma Represents.ensures_write {off : U64} {data : List (BitVec 8)} (hoffset : off.toNat < 2 ^ 63)
    (hdata : data.length < 2 ^ 47) (room : ℕ) : Ensures (write off data room) s
      (fun count s' => count.toNat = data.length ∧ s'.Represents (overwrite 0 c data off.toNat))
      fun e s' => (e = .ENOMEM ∧ Lacks (freeFrames s.machine.pages) room c.length
        (off.toNat + data.length)) ∧ s'.Represents c := by
  have hlen : (ofNat 64 data.length).toNat = data.length :=
    Nat.mod_eq_of_lt (by omega)
  have hend : (off + ofNat 64 data.length).toNat = off.toNat + data.length := by
    rw [BitVec.toNat_add_of_lt (by omega), hlen]
  unfold write
  simp only [ensures_bind, ensures_get, ensures_ite, ensures_throw, ensures_pure, ensures_modify]
  refine ⟨fun hdir => absurd hdir h.pages.regular, fun _ => ⟨fun hempty => ?_, fun hsome => ?_⟩⟩
  · obtain rfl : data = [] := List.eq_nil_of_length_eq_zero (by rw [← hlen, hempty]; rfl)
    exact ⟨rfl, h⟩
  have hne : data ≠ [] := by
    rintro rfl
    exact hsome rfl
  have hn := h.pagesFor_size hsmall
  have hwanted : pagesFor (off + ofNat 64 data.length) =
      (off.toNat + data.length + 4095) / 4096 := by rw [pagesFor_eq (by omega), hend]
  refine (ensures_ensurePages h.pages hn.le getD_behind _ room).mono (fun _ s₁ hs₁ => ?_)
    fun e s' hs' => ⟨⟨hs'.1.1, by rw [Lacks, ← hwanted]; exact hs'.1.2⟩, h.abandoned hsmall hs'.2⟩
  refine (ensures_storeAll hs₁ (by omega) (by omega)).mono (fun _ s' hs' => ⟨hlen, ?_⟩)
    fun _ _ => False.elim
  have hlist := length_overwrite 0 c off.toNat hne
  have hsize : (if s'.size < off + ofNat 64 data.length then off + ofNat 64 data.length
      else s'.size).toNat = (overwrite 0 c data off.toNat).length := by
    rw [hlist, hs'.size]
    split_ifs with hlt
    · rw [lt_def, h.length, hend] at hlt
      omega
    · rw [lt_def, h.length, hend] at hlt
      rw [h.length]
      omega
  refine ⟨hsize, ?_⟩
  have hcnt : max ((c.length + 4095) / 4096) (pagesFor (off + ofNat 64 data.length)) =
      ((overwrite 0 c data off.toNat).length + 4095) / 4096 := by
    rw [hwanted, hlist]
    omega
  rw [hcnt] at hs'
  exact (hs'.setSize _).congr fun i _ => getD_overwrite 0 c data off.toNat i

lemma Represents.ensures_truncate {b : U64} (hb : b.toNat < 2 ^ 63) (room : ℕ) :
    Ensures (truncate b room) s (fun _ s' => s'.Represents ((c.rightpad b.toNat 0).take b.toNat))
      fun e s' => (e = .ENOMEM ∧ Lacks (freeFrames s.machine.pages) room c.length b.toNat) ∧
        s'.Represents c := by
  have hn := h.pagesFor_size hsmall
  have hkeep : pagesFor b = (b.toNat + 4095) / 4096 := pagesFor_eq (by omega)
  have hlen : ((c.rightpad b.toNat 0).take b.toNat).length = b.toNat := by
    rw [List.length_take, List.length_rightpad]
    omega
  have hrepresents : ∀ {s' : TmpfsFile} {b' : U64} {g : ℕ → BitVec 8},
      Holds s' b' ((b.toNat + 4095) / 4096) g →
      (∀ i < (b.toNat + 4095) / 4096 * 4096, g i = if i < b.toNat then c.getD i 0 else 0) →
        ({ s' with size := b } : TmpfsFile).Represents ((c.rightpad b.toNat 0).take b.toNat) := by
    intro s' b' g hs' hg
    refine ⟨hlen.symm, ?_⟩
    rw [hlen]
    exact (hs'.setSize b).congr fun i hi => (getD_rightpad_take c b.toNat i).trans (hg i hi).symm
  unfold truncate
  simp only [ensures_bind, ensures_get, ensures_ite, ensures_throw, ensures_modify]
  refine ⟨fun hdir => absurd hdir h.pages.regular, fun _ => ⟨fun hgrow => ?_, fun hgrow => ?_⟩⟩
  · rw [lt_def, h.length] at hgrow
    refine (ensures_ensurePages h.pages hn.le getD_behind b room).mono (fun _ s' hs' => ?_)
      fun e s' hs' => ⟨⟨hs'.1.1, by rw [Lacks, ← hkeep]; exact hs'.1.2⟩, h.abandoned hsmall hs'.2⟩
    rw [hkeep, Nat.max_eq_right (by omega)] at hs'
    refine hrepresents hs' fun i _ => ?_
    split_ifs with hlt
    · rfl
    · exact List.getD_eq_default _ _ (by omega)
  · rw [lt_def, h.length] at hgrow
    refine ⟨fun hcut => ?_, fun hcut => ?_⟩
    · rw [lt_def, h.length] at hcut
      have hwithin : (b % 4096).toNat = b.toNat % 4096 := rfl
      rw [hwithin, hkeep, PAGE_SIZE]
      refine ⟨fun htail => ?_, fun htail => ?_⟩
      · rw [show ((b.toNat + 4095) / 4096 - 1) * 4096 + b.toNat % 4096 = b.toNat by omega]
        refine (ensures_store h.pages (by omega) (by omega) (by omega) _).mono (fun _ s₁ hs₁ => ?_)
          fun _ _ => False.elim
        refine (ensures_releasePagesFrom hs₁ (by omega)).mono
          (fun _ s' hs' => hrepresents hs' fun i hi => ?_)
          fun _ _ => False.elim
        by_cases hlt : i < b.toNat
        · rw [if_neg (by omega), if_pos hlt]
        · rw [if_pos (by omega), if_neg hlt]
      · refine (ensures_releasePagesFrom h.pages (by omega)).mono
          (fun _ s' hs' => hrepresents hs' fun i hi => ?_) fun _ _ => False.elim
        rw [if_pos (by omega)]
    · rw [lt_def, h.length] at hcut
      have heq : c.length = b.toNat := by omega
      refine hrepresents (heq ▸ h.pages) fun i _ => ?_
      split_ifs with hlt
      · rfl
      · exact List.getD_eq_default _ _ (by omega)

end Calls

end TmpfsFile

/-! ## Runs -/

/-- What a call may do with the list of bytes, and return, with so many frames that nobody has. -/
inductive TmpfsSpec (free : ℕ) :
    List (BitVec 8) → TmpfsCall → Except Errno TmpfsAnswer → List (BitVec 8) → Prop
  | read (c : List (BitVec 8)) (offset length : U64) :
      TmpfsSpec free c (.read offset length)
        (.ok (.bytes ((c.drop offset.toNat).take length.toNat))) c
  | write (c : List (BitVec 8)) (offset : U64) (data : List (BitVec 8)) (room : ℕ) (count : U64)
      (hcount : count.toNat = data.length) :
      TmpfsSpec free c (.write offset data room) (.ok (.count count))
        (overwrite 0 c data offset.toNat)
  | writeFails (c : List (BitVec 8)) (offset : U64) (data : List (BitVec 8)) (room : ℕ)
      (hlacks : TmpfsFile.Lacks free room c.length (offset.toNat + data.length)) :
      TmpfsSpec free c (.write offset data room) (.error .ENOMEM) c
  | truncate (c : List (BitVec 8)) (size : U64) (room : ℕ) :
      TmpfsSpec free c (.truncate size room) (.ok .done) ((c.rightpad size.toNat 0).take size.toNat)
  | truncateFails (c : List (BitVec 8)) (size : U64) (room : ℕ)
      (hlacks : TmpfsFile.Lacks free room c.length size.toNat) :
      TmpfsSpec free c (.truncate size room) (.error .ENOMEM) c
  | others (c : List (BitVec 8)) (machine : Machine) :
      TmpfsSpec free c (.others machine) (.ok .done) c

/-- The calls return the answers, and make the last list of the first. -/
inductive TmpfsRun : TmpfsFile → List (BitVec 8) → List TmpfsCall →
      List (Except Errno TmpfsAnswer) → List (BitVec 8) → Prop
  | nil (s : TmpfsFile) (c : List (BitVec 8)) : TmpfsRun s c [] [] c
  | cons {s s' : TmpfsFile} {c c' c'' : List (BitVec 8)} {call : TmpfsCall}
      {calls : List TmpfsCall} {answer : Except Errno TmpfsAnswer}
      {answers : List (Except Errno TmpfsAnswer)}
      (hcall : TmpfsSpec (freeFrames s.machine.pages) c call answer c')
      (hstep : s.step call = some s') (hcalls : TmpfsRun s' c' calls answers c'') :
      TmpfsRun s c (call :: calls) (answer :: answers) c''

namespace TmpfsFile

variable {s : TmpfsFile} {c : List (BitVec 8)}

/-- What the system calls let through, and what others leave alone. -/
def Proper (s : TmpfsFile) : TmpfsCall → Prop
  | .read offset length => offset.toNat < 2 ^ 63 ∧ length.toNat < 2 ^ 47
  | .write offset data _ => offset.toNat < 2 ^ 63 ∧ data.length < 2 ^ 47
  | .truncate size _ => size.toNat < 2 ^ 63
  | .others machine => s.Undisturbed machine

lemma Represents.perform (h : s.Represents c) (hsmall : c.length ≤ 2 ^ 63 + 2 ^ 47)
    {call : TmpfsCall} (hprop : s.Proper call) :
    ∃ answer s' c', call.perform s = some (answer, s') ∧
      TmpfsSpec (freeFrames s.machine.pages) c call answer c' ∧ s'.Represents c' ∧
        c'.length ≤ 2 ^ 63 + 2 ^ 47 := by
  suffices Ensures call.perform s
      (fun a s' => ∃ c', TmpfsSpec (freeFrames s.machine.pages) c call (.ok a) c' ∧
        s'.Represents c' ∧ c'.length ≤ 2 ^ 63 + 2 ^ 47)
      fun e s' => ∃ c', TmpfsSpec (freeFrames s.machine.pages) c call (.error e) c' ∧
        s'.Represents c' ∧ c'.length ≤ 2 ^ 63 + 2 ^ 47 by
    rcases ensures_iff.mp this with ⟨a, s', hrun, c', hspec⟩ | ⟨e, s', hrun, c', hspec⟩
    · exact ⟨_, s', c', hrun, hspec⟩
    · exact ⟨_, s', c', hrun, hspec⟩
  cases call with
  | read off len =>
    simp only [TmpfsCall.perform, Program.ensures_map]
    refine (h.ensures_read hsmall off len).mono (fun l s' hs' => ?_) fun _ _ => False.elim
    obtain ⟨rfl, rfl⟩ := hs'
    exact ⟨c, .read c off len, h, hsmall⟩
  | write off data room =>
    simp only [TmpfsCall.perform, Program.ensures_map]
    refine (h.ensures_write hsmall hprop.1 hprop.2 room).mono (fun count s' hs' => ?_)
      fun e s' hs' => ?_
    · refine ⟨_, .write c off data room count hs'.1, hs'.2, ?_⟩
      rcases eq_or_ne data [] with rfl | hne
      · exact hsmall
      · have := hprop.1
        have := hprop.2
        rw [length_overwrite 0 c off.toNat hne]
        omega
    · obtain ⟨⟨rfl, hlacks⟩, hs'⟩ := hs'
      exact ⟨c, .writeFails c off data room hlacks, hs', hsmall⟩
  | truncate size room =>
    simp only [TmpfsCall.perform, Program.ensures_map]
    have hsize : size.toNat < 2 ^ 63 := hprop
    refine (h.ensures_truncate hsmall hsize room).mono (fun _ s' hs' => ?_) fun e s' hs' => ?_
    · refine ⟨_, .truncate c size room, hs', ?_⟩
      rw [List.length_take]
      omega
    · obtain ⟨⟨rfl, hlacks⟩, hs'⟩ := hs'
      exact ⟨c, .truncateFails c size room hlacks, hs', hsmall⟩
  | others machine =>
    simp only [TmpfsCall.perform, ensures_bind, ensures_modify, ensures_pure]
    exact ⟨c, .others c machine, ⟨h.length, h.pages.undisturbed hprop⟩, hsmall⟩

lemma Represents.run :
    ∀ {calls : List TmpfsCall} {s : TmpfsFile} {c : List (BitVec 8)}, s.Represents c →
    c.length ≤ 2 ^ 63 + 2 ^ 47 → Along step Proper s calls →
      ∃ s' c', run step s calls = some s' ∧ TmpfsRun s c calls (observed step answer s calls) c' ∧
        s'.Represents c'
  | [], s, c, h, _, _ => ⟨s, c, rfl, .nil s c, h⟩
  | call :: calls, s, c, h, hsmall, hprop => by
    obtain ⟨result, s₁, c₁, hperf, hspec, hs₁, hsmall₁⟩ := h.perform hsmall hprop.1
    have hstep : step s call = some s₁ := by rw [step, hperf, Option.map_some]
    obtain ⟨s', c', hrun, hcalls, hs'⟩ := Represents.run hs₁ hsmall₁ (hprop.2 s₁ hstep)
    refine ⟨s', c', run_cons.mpr ⟨s₁, hstep, hrun⟩, ?_, hs'⟩
    rw [observed, hstep, Option.map_some, Option.getD_some, answer, hperf]
    exact .cons hspec hstep hcalls

/-- A file that has just been created. -/
structure New (s : TmpfsFile) : Prop where
  regular : s.type = .regular
  pages : s.pages = []
  size : s.size = 0

/-- **A file is a list of bytes.**  Any sequence of calls on a new file, with others working with
the rest of the memory in between, comes to an end and returns what the list of bytes says; and the
file has just the pages for it. -/
theorem tmpfs_refines (hnew : s.New) {calls : List TmpfsCall}
    (hproper : Along step Proper s calls) : ∃ s' c', Transition.run step s calls = some s' ∧
      TmpfsRun s [] calls (observed step answer s calls) c' ∧ s'.Represents c' := by
  refine Represents.run ⟨by rw [hnew.size]; rfl, ?_⟩ (by simp) hproper
  refine ⟨by rw [hnew.regular]; decide, rfl, by rw [hnew.pages]; rfl, by simp [hnew.pages],
    by simp [hnew.pages], fun i hi => ?_⟩
  exact absurd hi (by simp)

/-- A file on a machine with two frames. -/
def twoFrames : TmpfsFile where
  machine :=
    { pages := { totalPages := 2, inUse := fun _ => false, usedPages := 0, searchHint := 0 }
      words := fun _ => 0
      residentPages := fun _ => 0 }
  pages := []
  size := 0
  type := .regular

/-- Two bytes on two pages; one of them is cut off and does not come back, and there is no third
page. -/
def acrossPages : List TmpfsCall :=
  [.write 4095 [1, 2] 4, .truncate 4096 4, .truncate 4097 4, .read 4095 10, .truncate 8193 4]

theorem tmpfs_refines_acrossPages : ∃ s' c', Transition.run step twoFrames acrossPages = some s' ∧
    TmpfsRun twoFrames [] acrossPages
      [.ok (.count 2), .ok .done, .ok .done, .ok (.bytes [1, 0]), .error .ENOMEM] c' ∧
    s'.Represents c' := by
  have hanswers : observed step answer twoFrames acrossPages =
      [.ok (.count 2), .ok .done, .ok .done, .ok (.bytes [1, 0]), .error .ENOMEM] := by
    decide +kernel
  rw [← hanswers]
  exact tmpfs_refines ⟨rfl, rfl, rfl⟩ ⟨⟨by decide, by decide⟩, fun _ _ =>
    ⟨(by decide : (4096 : U64).toNat < 2 ^ 63), fun _ _ =>
      ⟨(by decide : (4097 : U64).toNat < 2 ^ 63), fun _ _ => ⟨⟨by decide, by decide⟩, fun _ _ =>
        ⟨(by decide : (8193 : U64).toNat < 2 ^ 63), fun _ _ => trivial⟩⟩⟩⟩⟩

end TmpfsFile

end ShitOs
