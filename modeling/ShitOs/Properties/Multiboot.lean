import ShitOs.Construction.Multiboot

/-!
# Whether the walk over the information block ends inside of it

`Laid` says how a block has to be laid out: so many tags and then an `End` tag, every tag with what
is read of it inside of the block.  `walk_in_bounds_iff` says that the walk over a block ends and
reads nothing else exactly if the block is laid out like this.  The walk itself makes sure of
nothing: `endless_and_outside` has a tag of size zero, at which it stays for ever, and a block
without an `End` tag, which it leaves.
-/

namespace ShitOs
namespace InfoBlock

variable {b : InfoBlock} {fuel modules tag limit : ℕ} {reads : List (ℕ × ℕ)}

/-- A range of bytes is in the first `limit`. -/
def Within (limit : ℕ) (reads : List (ℕ × ℕ)) : Prop := ∀ r ∈ reads, r.1 + r.2 ≤ limit

@[simp] lemma within_nil : Within limit [] := by simp [Within]

@[simp] lemma within_cons {o n : ℕ} :
    Within limit ((o, n) :: reads) ↔ o + n ≤ limit ∧ Within limit reads := by
  simp [Within]

@[simp] lemma within_append {rest : List (ℕ × ℕ)} :
    Within limit (reads ++ rest) ↔ Within limit reads ∧ Within limit rest := by
  simp [Within, or_imp, forall_and]

/-! ## The entries of a memory map -/

/-- The loop ends only if it goes on, and then it has read every entry that the tag's size has room
for. -/
lemma within_of_mmapEntries {entries : List MmapEntry} {i : ℕ}
    (h : b.mmapEntries tag fuel (tag + 16 + i * b.entrySize tag) = some (entries, reads)) :
    (16 + (i + 1) * b.entrySize tag ≤ (b.tagSize tag).toNat → 0 < b.entrySize tag) ∧
      (Within limit reads ↔ ∀ j ≥ i, 16 + (j + 1) * b.entrySize tag ≤ (b.tagSize tag).toNat →
        tag + 16 + j * b.entrySize tag + 20 ≤ limit) := by
  induction fuel generalizing i entries reads with
  | zero => cases h
  | succ fuel ih =>
    have hnext : tag + 16 + i * b.entrySize tag + b.entrySize tag =
      tag + 16 + (i + 1) * b.entrySize tag := by
      rw [Nat.succ_mul, ← Nat.add_assoc]
    rw [mmapEntries, hnext] at h
    split_ifs at h with hroom
    · obtain ⟨⟨entries', reads'⟩, hrest, heq⟩ := Option.map_eq_some_iff.mp h
      cases heq
      obtain ⟨hpos, hwithin⟩ := ih hrest
      refine ⟨fun _ => Nat.pos_of_ne_zero fun hzero => ?_, ?_⟩
      · -- without a step the loop would be where it was
        have := hpos (by rw [hzero] at hroom ⊢; omega)
        omega
      · rw [within_cons, hwithin]
        refine ⟨fun hall j hj hj' => ?_, fun hall =>
          ⟨hall i le_rfl (by omega), fun j hj => hall j (by omega)⟩⟩
        obtain rfl | hlt := hj.eq_or_lt
        · exact hall.1
        · exact hall.2 j hlt hj'
    · cases h
      refine ⟨fun hle => absurd (by omega) hroom, iff_of_true within_nil fun j hj hj' => ?_⟩
      have := Nat.mul_le_mul_right (b.entrySize tag) (Nat.add_le_add_right hj 1)
      exact absurd (by omega) hroom

lemma isSome_mmapEntries (hpos : 0 < b.entrySize tag) {cursor : ℕ}
    (hfuel : tag + (b.tagSize tag).toNat < cursor + fuel) :
    (b.mmapEntries tag (fuel + 1) cursor).isSome := by
  induction fuel generalizing cursor with
  | zero =>
    rw [mmapEntries, if_neg (by omega)]
    rfl
  | succ fuel ih =>
    rw [mmapEntries]
    split_ifs with hroom
    · rw [Option.isSome_map]
      exact ih (by omega)
    · rfl

/-! ## A tag -/

/-- What is read of a tag is in the first `limit` bytes, and its memory map can be walked. -/
def Fits (b : InfoBlock) (limit modules tag : ℕ) : Prop :=
  tag + 8 ≤ limit ∧
  (b.tagType tag = MODULE_TAG → modules < MAX_BOOT_MODULES → tag + 16 ≤ limit) ∧
  (b.tagType tag = MMAP_TAG → tag + 12 ≤ limit ∧
    (16 + b.entrySize tag ≤ (b.tagSize tag).toNat → 0 < b.entrySize tag) ∧
    ∀ i, 16 + (i + 1) * b.entrySize tag ≤ (b.tagSize tag).toNat →
      tag + 16 + i * b.entrySize tag + 20 ≤ limit) ∧
  (b.tagType tag = FRAMEBUFFER_TAG → tag + 30 ≤ limit ∧
    (b.bytes (tag + 29) = RGB → tag + 38 ≤ limit))

lemma within_readTag {t : BootTag} (h : b.readTag fuel modules tag = some (t, reads)) :
    Within limit ((tag, 8) :: reads) ↔ b.Fits limit modules tag := by
  have hmodule_mmap : MODULE_TAG ≠ MMAP_TAG := by decide
  have hmodule_framebuffer : MODULE_TAG ≠ FRAMEBUFFER_TAG := by decide
  have hmmap_framebuffer : MMAP_TAG ≠ FRAMEBUFFER_TAG := by decide
  unfold Fits
  unfold readTag at h
  split_ifs at h with hmodule hcnt hmmap hframebuffer hrgb
  · cases h
    simp [hmodule, hcnt, hmodule_mmap, hmodule_framebuffer]
  · cases h
    simp [hmodule, hcnt, hmodule_mmap, hmodule_framebuffer]
  · obtain ⟨⟨entries, rest⟩, hentries, heq⟩ := Option.map_eq_some_iff.mp h
    cases heq
    have hfirst : tag + 16 = tag + 16 + 0 * b.entrySize tag := by omega
    rw [hfirst] at hentries
    obtain ⟨hpos, hrest⟩ : _ ∧ (Within limit _ ↔ _) := within_of_mmapEntries hentries
    rw [Nat.zero_add, Nat.one_mul] at hpos
    simp only [within_cons, hrest, hmmap, hmodule_mmap.symm, hmmap_framebuffer,
      false_implies, true_implies, and_true, true_and, Nat.zero_le, ge_iff_le]
    exact and_congr_right fun _ => and_congr_right fun _ => (and_iff_right hpos).symm
  · cases h
    simp [hframebuffer, hmodule_framebuffer.symm, hmmap_framebuffer.symm, hrgb]
  · cases h
    simp [hframebuffer, hmodule_framebuffer.symm, hmmap_framebuffer.symm, hrgb]
  · cases h
    simp [hmodule, hmmap, hframebuffer]

lemma Fits.isSome_readTag (h : b.Fits limit modules tag) (hfuel : 2 ^ 32 ≤ fuel) :
    (b.readTag (fuel + 1) modules tag).isSome := by
  obtain ⟨-, -, hmmap', -⟩ := h
  unfold readTag
  split_ifs with hmodule hcnt hmmap
  · rfl
  · rfl
  · rw [Option.isSome_map]
    by_cases hroom : 16 + b.entrySize tag ≤ (b.tagSize tag).toNat
    · exact isSome_mmapEntries ((hmmap' hmmap).2.1 hroom) (by omega)
    · rw [mmapEntries, if_neg (by omega)]
      rfl
  · rfl
  · rfl
  · rfl

/-! ## The block -/

/-- From `tag` on there are `count` tags and then an `End` tag, and what is read of them is in the
block. -/
def Laid (b : InfoBlock) : ℕ → ℕ → ℕ → Prop
  | 0, _, tag => b.tagType tag = END_TAG ∧ tag + 4 ≤ b.totalSize
  | count + 1, modules, tag => b.tagType tag ≠ END_TAG ∧ b.Fits b.totalSize modules tag ∧
      Laid b count (b.countModule modules tag) (b.next tag)

lemma exists_laid_of_walk {tags : List BootTag}
    (h : b.walk fuel modules tag = some (tags, reads)) (hreads : Within b.totalSize reads) :
    ∃ count, b.Laid count modules tag := by
  induction fuel generalizing modules tag tags reads with
  | zero => cases h
  | succ fuel ih =>
    rw [walk] at h
    split_ifs at h with hend
    · cases h
      exact ⟨0, hend, (within_cons.mp hreads).1⟩
    · obtain ⟨⟨t, body⟩, hbody, h⟩ := Option.bind_eq_some_iff.mp h
      obtain ⟨⟨tags', rest⟩, hrest, heq⟩ := Option.map_eq_some_iff.mp h
      cases heq
      rw [within_append] at hreads
      obtain ⟨count, hlaid⟩ := ih hrest hreads.2
      exact ⟨count + 1, hend, (within_readTag hbody).mp hreads.1, hlaid⟩

lemma Laid.walk {count : ℕ} (h : b.Laid count modules tag) (hfuel : 2 ^ 32 + 1 + count ≤ fuel) :
    ∃ tags reads, b.walk (fuel + 1) modules tag = some (tags, reads) ∧
      Within b.totalSize reads := by
  induction count generalizing modules tag fuel with
  | zero =>
    refine ⟨[], [(tag, 4)], ?_, within_cons.mpr ⟨h.2, within_nil⟩⟩
    rw [InfoBlock.walk, if_pos h.1]
  | succ count ih =>
    obtain ⟨hend, hfits, hlaid⟩ := h
    obtain ⟨fuel, rfl⟩ := Nat.exists_eq_add_one.mpr (show 0 < fuel by omega)
    obtain ⟨⟨t, body⟩, hbody⟩ := Option.isSome_iff_exists.mp
      (hfits.isSome_readTag (show 2 ^ 32 ≤ fuel by omega))
    obtain ⟨tags, rest, hrest, hwithin⟩ := ih hlaid (show 2 ^ 32 + 1 + count ≤ fuel by omega)
    refine ⟨t :: tags, (tag, 8) :: body ++ rest, ?_, ?_⟩
    · rw [InfoBlock.walk, if_neg hend, hbody, Option.bind_some, hrest]
      rfl
    · exact within_append.mpr ⟨(within_readTag hbody).mpr hfits, hwithin⟩

/-- **Whether the walk ends inside of the block**, for every block. -/
theorem walk_in_bounds_iff (b : InfoBlock) :
    (∃ fuel tags reads, b.walk fuel 0 8 = some (tags, reads) ∧ ∀ r ∈ reads,
      r.1 + r.2 ≤ b.totalSize) ↔ ∃ count, b.Laid count 0 8 := by
  constructor
  · rintro ⟨fuel, tags, reads, hwalk, hreads⟩
    exact exists_laid_of_walk hwalk hreads
  · rintro ⟨count, hlaid⟩
    obtain ⟨tags, reads, hwalk, hwithin⟩ := hlaid.walk le_rfl
    exact ⟨_, tags, reads, hwalk, hwithin⟩

/-- A block of 16 bytes with one tag of type 1 (`Cmdline`) and the given size. -/
def oneTag (size : BitVec 8) : InfoBlock where
  bytes o := if o = 0 then 16 else if o = 8 then 1 else if o = 12 then size else 0

/-- With size zero the walk never ends.  With size eight it reads the type of a tag behind the
block. -/
theorem endless_and_outside :
    (∀ fuel, (oneTag 0).walk fuel 0 8 = none) ∧
      (oneTag 8).totalSize = 16 ∧ (oneTag 8).walk 2 0 8 = some ([.other], [(8, 8), (16, 4)]) := by
  refine ⟨fun fuel => ?_, by decide, by decide⟩
  induction fuel with
  | zero => rfl
  | succ fuel ih =>
    have htag : (oneTag 0).readTag fuel 0 8 = some (.other, []) := rfl
    rw [walk, if_neg (by decide), htag, Option.bind_some]
    exact congrArg (Option.map _) ih

end InfoBlock
end ShitOs
