import ShitOs.Construction.ElfLoader
import ShitOs.Properties.PageMap

/-!
# What a loaded program finds in its memory

The user half of an address space is a `UserImage`: the pages, their flags, and the bytes in them.
`map_anonymous` on pages that are not there adds pages of zeros, `copy_into_space` replaces bytes
and `protect` replaces flags (`Carries.returns_mapAnonymous`, `Carries.returns_copyIntoSpace`,
`Carries.returns_protect`); the four levels of tables and the frames behind the pages are in
`Backs`.

So a turn of the loop of `load_executable` is a function on images (`UserImage.load`), and the loop
the composition of these.  When the segments have no page in common, a page of the result is what
the one turn that touches it has made of it (`UserImage.loadAll_of_mem`,
`UserImage.loadAll_of_notMem`), and `load_executable_builds_image` says what that comes to, for
every file and every byte.
-/

namespace ShitOs

open BitVec (lt_def ofNat ofNat_add toNat_add toNat_ofNat)
open Kstd PageFlags Physical AddressSpace Program RadixTable Memory

/-! ## Images -/

/-- What is in the user half of a space: the flags of the pages that are there, and the bytes. -/
structure UserImage where
  flags : ℕ → Option U64
  bytes : ℕ → BitVec 8

namespace UserImage

/-- Nothing is there. -/
def empty : UserImage := ⟨fun _ => none, fun _ => 0⟩

/-- With pages of zeros from `first` up to `last`. -/
def addPages (image : UserImage) (first last : ℕ) (flags : U64) : UserImage where
  flags i := if first ≤ i ∧ i < last then some flags else image.flags i
  bytes a := if first ≤ a / 4096 ∧ a / 4096 < last then 0 else image.bytes a

/-- With `length` bytes from `start` on replaced. -/
def put (image : UserImage) (start length : ℕ) (new : ℕ → BitVec 8) : UserImage where
  flags := image.flags
  bytes a := if start ≤ a ∧ a < start + length then new (a - start) else image.bytes a

/-- With the flags of the pages from `first` up to `last` replaced. -/
def setFlags (image : UserImage) (first last : ℕ) (flags : U64) : UserImage where
  flags i := if first ≤ i ∧ i < last then some flags else image.flags i
  bytes := image.bytes

end UserImage

/-- The space with root `r` has the pages of an image, in the frames given, none of which is a
table. -/
structure Backs (r : ℕ) (own : Places) (frame : ℕ → ℕ) (m : Machine) (image : UserImage) :
    Prop where
  tables : Tables own m
  root : own r = some (r, [])
  counted : Counted r m
  entries : leaves m.words r = fun i => (image.flags i).elim 0 (leafOf (physOf (frame i)))
  clear : ∀ i flags, image.flags i = some flags → flags &&& ADDRESS_MASK = 0
  frames : ∀ i, image.flags i ≠ none →
    m.pages.inUse (frame i) = true ∧ frame i < m.pages.totalPages ∧ own (frame i) = none
  injective : ∀ i j, image.flags i ≠ none → image.flags j ≠ none → frame i = frame j → i = j
  bytes : ∀ a, image.flags (a / 4096) ≠ none →
    loadByte m.words (frame (a / 4096) * 4096 + a % 4096) = image.bytes a

/-- The space with root `r` has the pages of an image. -/
def Carries (r : ℕ) (m : Machine) (image : UserImage) :
    Prop := ∃ own frame, Backs r own frame m image

/-- The byte that a program finds at an address. -/
def userByte (words : Memory.Words) (r : ℕ) (a : U64) : Option (BitVec 8) :=
  match translate words r a with
  | .error _ => none
  | .ok physical => some (loadByte words physical.toNat)

section Images

variable {r : ℕ} {own : Places} {frame : ℕ → ℕ} {m m' : Machine} {image : UserImage}
  {a len flags : U64} {f : ℕ} {source : List (BitVec 8)}

lemma word_outside_frame {w off len : ℕ} (hw : w / ENTRIES_PER_TABLE ≠ f) (h : off + len ≤ 4096) :
    8 * w + 8 ≤ f * 4096 + off ∨ f * 4096 + off + len ≤ 8 * w := by
  rw [ENTRIES_PER_TABLE] at hw
  omega

lemma Fresh.carries (h : Fresh r m) : Carries r m .empty := by
  obtain ⟨own, htab, hr, hcnt, -⟩ := h.stands
  exact ⟨own, fun _ => 0, htab, hr, hcnt, h.leaves_eq, nofun, fun i hi => absurd rfl hi,
    fun i _ hi => absurd rfl hi, fun a ha => absurd rfl ha⟩

lemma Backs.present (h : Backs r own frame m image) (i : ℕ) :
    hasFlag (leaves m.words r i) Present = (image.flags i).isSome := by
  have hentry := congrFun h.entries i
  cases hi : image.flags i with
  | none =>
    rw [hentry, hi]
    exact (by decide : hasFlag 0 Present = false)
  | some flags =>
    rw [hentry, hi]
    exact hasFlag_leafOf

lemma Backs.frame_kept (h : Backs r own frame m image) {k : ℕ} {own' : Places}
    (heff : Effect r k own m own' m') {i : ℕ} (hi : image.flags i ≠ none) :
    (m'.pages.inUse (frame i) = true ∧ frame i < m'.pages.totalPages ∧ own' (frame i) = none) ∧
      ∀ a, loadByte m'.words (frame i * 4096 + a % 4096) =
        loadByte m.words (frame i * 4096 + a % 4096) := by
  obtain ⟨hused, hbound, htable⟩ := h.frames i hi
  obtain ⟨hused', htable', hwords⟩ := heff.keeps_frame hused htable
  exact ⟨⟨hused', heff.total ▸ hbound, htable'⟩,
    fun a => loadByte_congr (hwords _ (word_of_byte (frame i) a))⟩

lemma Carries.returns_mapAnonymous (h : Carries r m image) (hrange : a.toNat + len.toNat ≤ 2 ^ 47)
    (hflags : flags &&& ADDRESS_MASK = 0)
    (habs : ∀ i, pageOf a ≤ i → i < pageEnd a len → image.flags i = none) :
    Returns (mapAnonymous r a len flags) m fun _ m' =>
      Carries r m' (image.addPages (pageOf a) (pageEnd a len) flags) := by
  obtain ⟨own, frame, h⟩ := h
  refine (ensures_mapAnonymous h.tables h.root hrange flags).returns.mono
    fun _ m' ⟨own', new, hpop⟩ => ⟨own', fun i => if pageOf a ≤ i ∧ i < pageEnd a len then new i
      else frame i, ?_⟩
  have hnew : ∀ i, pageOf a ≤ i ∧ i < pageEnd a len →
    hasFlag (leaves m.words r i) Present = false :=
    fun i hin => by rw [h.present, habs i hin.1 hin.2]; rfl
  -- a frame that was taken now is not the frame of a page that was there
  have hother : ∀ i j, pageOf a ≤ i ∧ i < pageEnd a len → image.flags j ≠ none →
    new i ≠ frame j := by
    intro i j hin hj heq
    have hfree := (hpop.frames i hin.1 hin.2 (hnew i hin)).1
    rw [heq, (h.frames j hj).1] at hfree
    cases hfree
  refine ⟨hpop.effect.tables, hpop.effect.root h.root,
    hpop.counted h.counted, ?_, fun i fl hi => ?_, fun i hi => ?_,
    fun i j hi hj heq => ?_, fun x hx => ?_⟩
  · rw [hpop.entries]
    funext i
    simp only [UserImage.addPages]
    split_ifs with hin
    · rw [populated, if_neg (by simp [hnew i hin])]
      rfl
    · rw [h.entries]
  · simp only [UserImage.addPages] at hi
    split_ifs at hi with hin
    · exact Option.some.inj hi ▸ hflags
    · exact h.clear i fl hi
  · simp only [UserImage.addPages] at hi
    split_ifs at hi ⊢ with hin
    · obtain ⟨-, hbound, hused, htable, -⟩ := hpop.frames i hin.1 hin.2 (hnew i hin)
      exact ⟨hused, hpop.effect.total ▸ hbound, htable⟩
    · exact (h.frame_kept hpop.effect hi).1
  · simp only [UserImage.addPages] at hi hj
    split_ifs at hi hj heq with hin hjn hjn
    · exact hpop.injective i j hin.1 hin.2 (hnew i hin) hjn.1 hjn.2 (hnew j hjn) heq
    · exact absurd heq (hother i j hin hj)
    · exact absurd heq.symm (hother j i hjn hi)
    · exact h.injective i j hi hj heq
  · simp only [UserImage.addPages] at hx ⊢
    split_ifs at hx ⊢ with hin
    · obtain ⟨-, -, -, -, hzero⟩ := hpop.frames _ hin.1 hin.2 (hnew _ hin)
      rw [loadByte, hzero _ (word_of_byte _ x)]
      simp [getByte]
    · rw [(h.frame_kept hpop.effect hx).2, h.bytes x hx]

lemma leafOf_leafOf {page fl flags : U64} (hfl : fl &&& ADDRESS_MASK = 0) :
    leafOf (leafOf page fl) flags = leafOf page flags := by
  have hclear : (fl ||| Present) &&& ADDRESS_MASK = 0 := by
    rw [BitVec.and_comm, BitVec.and_or_distrib_left, BitVec.and_comm, hfl]
    rfl
  rw [leafOf, leafOf, leafOf, BitVec.and_comm, BitVec.and_or_distrib_left,
    BitVec.and_comm ADDRESS_MASK (_ ||| _), hclear, BitVec.and_comm ADDRESS_MASK, BitVec.and_assoc,
    BitVec.and_self]
  simp

lemma Carries.returns_protect (h : Carries r m image) (hrange : a.toNat + len.toNat ≤ 2 ^ 47)
    (hflags : flags &&& ADDRESS_MASK = 0) : Returns (protect r a len flags) m fun _ m' =>
      Carries r m' (image.setFlags (pageOf a) (pageEnd a len) flags) := by
  obtain ⟨own, frame, h⟩ := h
  refine (ensures_protect h.tables h.root hrange flags).returns.mono
    fun _ m' ⟨heff, hcnt, hpres, hleaves⟩ => ⟨own, frame, ?_⟩
  have hthere : ∀ i, pageOf a ≤ i ∧ i < pageEnd a len → image.flags i ≠ none :=
    fun i hin hnone => by
    have hflag := hpres i hin.1 hin.2
    rw [h.present, hnone] at hflag
    cases hflag
  have hold : ∀ i, (image.setFlags (pageOf a) (pageEnd a len) flags).flags i ≠ none →
      image.flags i ≠ none := fun i hi => by
    simp only [UserImage.setFlags] at hi
    split_ifs at hi with hin
    · exact hthere i hin
    · exact hi
  refine ⟨heff.tables, h.root, hcnt h.counted, ?_, fun i fl hi => ?_,
    fun i hi => (h.frame_kept heff (hold i hi)).1,
    fun i j hi hj => h.injective i j (hold i hi) (hold j hj), fun x hx => ?_⟩
  · rw [hleaves]
    funext i
    simp only [UserImage.setFlags]
    have hentry := congrFun h.entries i
    split_ifs with hin
    · obtain ⟨fl, hfl⟩ := Option.ne_none_iff_exists'.mp (hthere i hin)
      rw [hentry, hfl]
      exact leafOf_leafOf (h.clear i fl hfl)
    · exact hentry
  · simp only [UserImage.setFlags] at hi
    split_ifs at hi with hin
    · exact Option.some.inj hi ▸ hflags
    · exact h.clear i fl hi
  · rw [(h.frame_kept heff (hold _ hx)).2, h.bytes x (hold _ hx)]
    rfl

/-! ## What the space answers -/

lemma Backs.stands (h : Backs r own frame m image) :
    Stands r m fun i => (image.flags i).map fun fl => (frame i, fl ||| Present) := by
  refine ⟨own, h.tables, h.root, h.counted, funext fun i => ?_⟩
  have hentry := congrFun h.entries i
  cases hi : image.flags i with
  | none =>
    rw [pageMap_eq_none.mpr (by rw [h.present, hi]; rfl)]
    rfl
  | some fl =>
    rw [hi] at hentry
    have hbound : frame i < 2 ^ 40 :=
      Nat.lt_of_lt_of_le (h.frames i (by simp [hi])).2.1 h.tables.total
    rw [pageMap_leafOf (h.clear i fl hi) hentry, tableAt_physOf hbound]
    rfl

lemma toNat_physical (hf : f < 2 ^ 40) (a : U64) :
    (physOf f + (a &&& 0xFFF)).toNat = f * 4096 + a.toNat % 4096 := by
  rw [toNat_add, toNat_and_4095, physOf, toNat_ofNat, PAGE_SIZE]
  omega

lemma Backs.translate_eq (h : Backs r own frame m image) (ha : a.toNat < 2 ^ 47) :
    (image.flags (a.toNat / 4096) = none ∧ translate m.words r a = .error .EFAULT) ∨
      image.flags (a.toNat / 4096) ≠ none ∧ ∃ physical, translate m.words r a = .ok physical ∧
        physical.toNat = frame (a.toNat / 4096) * 4096 + a.toNat % 4096 := by
  have htr := h.stands.translate_eq ha
  have hpage : pageOf a = a.toNat / 4096 := rfl
  rw [hpage] at htr
  cases hi : image.flags (a.toNat / 4096) with
  | none =>
    rw [hi] at htr
    exact .inl ⟨rfl, htr⟩
  | some fl =>
    rw [hi] at htr
    have hbound := Nat.lt_of_lt_of_le (h.frames (a.toNat / 4096) (by simp [hi])).2.1 h.tables.total
    exact .inr ⟨by simp, _, htr, toNat_physical hbound a⟩

section

variable (h : Carries r m image) (ha : a.toNat < 2 ^ 47)
include h ha

lemma Carries.userByte_eq (hthere : image.flags (a.toNat / 4096) ≠ none) :
    userByte m.words r a = some (image.bytes a.toNat) := by
  obtain ⟨own, frame, h⟩ := h
  rcases h.translate_eq ha with ⟨hnone, -⟩ | ⟨-, physical, htr, hphysical⟩
  · exact absurd hnone hthere
  · rw [userByte, htr]
    exact congrArg some (hphysical ▸ h.bytes a.toNat hthere)

lemma Carries.translate_error (habs : image.flags (a.toNat / 4096) = none) :
    translate m.words r a = .error .EFAULT := by
  obtain ⟨own, frame, h⟩ := h
  rcases h.translate_eq ha with ⟨-, htr⟩ | ⟨hthere, -⟩
  · exact htr
  · exact absurd habs hthere

lemma Carries.query_eq {fl : U64}
    (hfl : image.flags (a.toNat / 4096) = some fl) : query m.words r a = .ok (fl ||| Present) := by
  obtain ⟨own, frame, h⟩ := h
  have hquery := h.stands.query_eq ha
  have hpage : pageOf a = a.toNat / 4096 := rfl
  rw [hpage, hfl] at hquery
  exact hquery

end

/-! ## Copying -/

open ElfLoader

lemma words_copyPiece (source : List (BitVec 8)) (place chunk : ℕ) (physical : U64) :
    (copyPiece source place chunk physical m).words =
      storeBytes m.words physical.toNat chunk fun i => source.getD (place + i) 0 := rfl

lemma Backs.store (h : Backs r own frame m image) {place pos chunk : ℕ}
    {physical : U64} (hthere : image.flags (pos / 4096) ≠ none) (hchunk : pos % 4096 + chunk ≤ 4096)
    (hphysical : physical.toNat = frame (pos / 4096) * 4096 + pos % 4096) :
    Backs r own frame (copyPiece source place chunk physical m)
      (image.put pos chunk fun i => source.getD (place + i) 0) := by
  have hwords : ∀ w, w / ENTRIES_PER_TABLE ≠ frame (pos / 4096) →
      (copyPiece source place chunk physical m).words w = m.words w := fun w hw => by
    rw [words_copyPiece, hphysical, storeBytes_word (word_outside_frame hw hchunk)]
  have htable := (h.frames _ hthere).2.2
  have hframed : ∀ w, own (w / ENTRIES_PER_TABLE) ≠ none →
      (copyPiece source place chunk physical m).words w = m.words w := fun w hw =>
    hwords w fun heq => hw (heq ▸ htable)
  have hleaves := leaves_congr h.tables h.root hframed
  refine ⟨h.tables.congr rfl h.tables.used hframed, h.root, h.counted.congr hleaves rfl,
    hleaves.trans h.entries, h.clear, h.frames, h.injective, fun x hx => ?_⟩
  have hload := h.bytes x hx
  simp only [words_copyPiece, UserImage.put, loadByte_storeBytes, hload, hphysical]
  by_cases hpage : x / 4096 = pos / 4096
  · rw [hpage]
    have hiff : frame (pos / 4096) * 4096 + pos % 4096 ≤ frame (pos / 4096) * 4096 + x % 4096 ∧
        frame (pos / 4096) * 4096 + x % 4096 < frame (pos / 4096) * 4096 + pos % 4096 + chunk ↔
        pos ≤ x ∧ x < pos + chunk := by omega
    rw [if_congr hiff rfl rfl]
    split_ifs
    · congr 2
      omega
    · rfl
  · have hne : frame (x / 4096) ≠ frame (pos / 4096) := fun heq =>
      hpage (h.injective _ _ hx hthere heq)
    rw [if_neg (by omega), if_neg (by omega)]

lemma UserImage.put_put (image : UserImage) (start done run : ℕ) (new : ℕ → BitVec 8) :
    (image.put start done new).put (start + done) run (fun i => new (done + i)) =
      image.put start (done + run) new := by
  simp only [UserImage.put, UserImage.mk.injEq, true_and]
  funext x
  by_cases hlow : start + done ≤ x ∧ x < start + done + run
  · rw [if_pos hlow, if_pos (by omega)]
    congr 1
    omega
  · rw [if_neg hlow]
    exact if_congr (by omega) rfl rfl

lemma UserImage.put_zero (start : ℕ) (new : ℕ → BitVec 8) : image.put start 0 new = image := by
  simp only [UserImage.put]
  congr
  funext x
  exact if_neg (by omega)

lemma Carries.returns_copyIntoSpace (h : Carries r m image)
    (hrange : a.toNat + source.length ≤ 2 ^ 47) : Returns (copyIntoSpace r a source) m fun _ m' =>
      Carries r m' (image.put a.toNat source.length fun i => source.getD i 0) := by
  have hloop : Ensures (copyIntoSpace r a source) m
      (fun _ m' => Carries r m' (image.put a.toNat (a.toNat + source.length - a.toNat) fun i =>
        source.getD i 0))
      fun _ _ => True := by
    refine ensures_pieces (by decide)
      (fun pos m' => Carries r m' (image.put a.toNat (pos - a.toNat) fun i => source.getD i 0))
      (fun pos chunk s hlow hpos hhigh hchunk hcarries => ?_) ?_
    · obtain ⟨own, frame, hbacks⟩ := hcarries
      have hposition : (ofNat 64 pos).toNat = pos := by
        rw [toNat_ofNat]
        omega
      have hput := UserImage.put_put image a.toNat (pos - a.toNat) chunk fun i => source.getD i 0
      rw [Nat.add_sub_cancel' hlow, show pos - a.toNat + chunk =
        pos + chunk - a.toNat by omega] at hput
      simp only [ensures_bind, ensures_get]
      rcases hbacks.translate_eq (a := ofNat 64 pos) (by omega) with
        ⟨-, htr⟩ | ⟨hthere, physical, htr, hphysical⟩
      · rw [htr]
        exact ensures_throw.mpr trivial
      · rw [hposition] at hthere hphysical
        rw [htr]
        refine ensures_modify.mpr ⟨own, frame, ?_⟩
        rw [← hput]
        exact hbacks.store hthere hchunk hphysical
    · rwa [Nat.sub_self, UserImage.put_zero]
  rw [Nat.add_sub_cancel_left] at hloop
  exact hloop.returns

end Images

namespace ElfLoader

/-! ## Segments -/

namespace ProgramHeader

/-- The segment is one that is mapped. -/
def Loads (segment : ProgramHeader) : Prop := segment.pType = PT_LOAD ∧ segment.pMemsz ≠ 0

instance (segment : ProgramHeader) : Decidable segment.Loads := inferInstanceAs (Decidable (_ ∧ _))

def firstPage (segment : ProgramHeader) : ℕ := segment.pVaddr.toNat / 4096

/-- The page after the last one of the segment. -/
def endPage (segment : ProgramHeader) :
    ℕ := (segment.pVaddr.toNat + segment.pMemsz.toNat + 4095) / 4096

/-- The page is one of the segment's. -/
def Has (segment : ProgramHeader) (i : ℕ) : Prop := segment.firstPage ≤ i ∧ i < segment.endPage

instance (segment : ProgramHeader) (i : ℕ) :
    Decidable (segment.Has i) := inferInstanceAs (Decidable (_ ∧ _))

/-- The segment is in the user half, and does not have more bytes in the file than in memory. -/
structure Proper (segment : ProgramHeader) : Prop where
  below : segment.pVaddr.toNat + segment.pMemsz.toNat ≤ USER_SPACE_END.toNat
  filesz : segment.pFilesz.toNat ≤ segment.pMemsz.toNat

/-- `end` in the loop. -/
def finish (segment : ProgramHeader) : U64 := alignUp (segment.pVaddr + segment.pMemsz) 4096

variable {segment : ProgramHeader}

lemma Proper.toNat_finish (h : segment.Proper) : segment.finish.toNat = segment.endPage * 4096 := by
  have hbelow := h.below
  have hend : USER_SPACE_END.toNat = 2 ^ 47 := rfl
  rw [finish, toNat_alignUp, toNat_add, endPage]
  omega

lemma Proper.lt_of_has (h : segment.Proper) {a : ℕ} (ha : segment.Has (a / 4096)) : a < 2 ^ 47 := by
  have hbelow := h.below
  have hend : USER_SPACE_END.toNat = 2 ^ 47 := rfl
  have hlt := ha.2
  rw [endPage] at hlt
  omega

lemma Proper.range (h : segment.Proper) :
    (alignDown segment.pVaddr 4096).toNat + (segment.finish - alignDown segment.pVaddr 4096).toNat ≤
      2 ^ 47 ∧ pageOf (alignDown segment.pVaddr 4096) = segment.firstPage ∧
      pageEnd (alignDown segment.pVaddr 4096) (segment.finish - alignDown segment.pVaddr 4096) =
        segment.endPage := by
  have hbelow := h.below
  have hend : USER_SPACE_END.toNat = 2 ^ 47 := rfl
  have hsum : (alignDown segment.pVaddr 4096).toNat +
      (segment.finish - alignDown segment.pVaddr 4096).toNat = segment.endPage * 4096 := by
    rw [BitVec.toNat_sub, h.toNat_finish, toNat_alignDown, endPage]
    omega
  refine ⟨?_, pageOf_alignDown _, ?_⟩
  · rw [hsum, endPage]
    omega
  · rw [pageEnd, hsum]
    omega

end ProgramHeader

lemma flagsForSegment_and_mask (pFlags : U64) : flagsForSegment pFlags &&& ADDRESS_MASK = 0 := by
  unfold flagsForSegment
  split_ifs <;> decide

lemma flagsForSegment_or_present (pFlags : U64) :
    flagsForSegment pFlags ||| Present = flagsForSegment pFlags := by
  unfold flagsForSegment
  split_ifs <;> decide

end ElfLoader

open ElfLoader

lemma ProgramFile.of_read (file : ProgramFile) {off : U64} {len : ℕ} {bytes : List (BitVec 8)}
    (hread : file.read off len = .ok bytes) (hlen : bytes.length = len) (hpos : 0 < len) :
    off.toNat + len ≤ file.content.length ∧
      ∀ i < bytes.length, bytes.getD i 0 = file.content.getD (off.toNat + i) 0 := by
  have hbytes := (file.read_eq off len bytes hread).2
  rw [hlen] at hbytes
  have hcnt := congrArg List.length hbytes
  rw [hlen, List.length_take, List.length_drop] at hcnt
  refine ⟨by omega, fun i hi => ?_⟩
  rw [hlen] at hi
  rw [hbytes, List.getD_eq_getElem?_getD, List.getD_eq_getElem?_getD, List.getElem?_take_of_lt hi,
    List.getElem?_drop]

namespace UserImage

variable {image : UserImage}

lemma put_congr {start len : ℕ} {new new' : ℕ → BitVec 8} (h : ∀ i < len, new i = new' i) :
    image.put start len new = image.put start len new' := by
  simp only [put, mk.injEq, true_and]
  funext a
  split_ifs with hin
  · exact h _ (by omega)
  · rfl

/-- What a turn of the loop makes of an image. -/
def load (file : ProgramFile) (image : UserImage) (segment : ProgramHeader) : UserImage :=
  ((image.addPages segment.firstPage segment.endPage stagingFlags).put segment.pVaddr.toNat
      segment.pFilesz.toNat fun i => file.content.getD (segment.pOffset.toNat + i) 0).setFlags
    segment.firstPage segment.endPage (flagsForSegment segment.pFlags)

end UserImage

namespace ElfLoader

/-- What belongs at an address of a segment's pages: a byte of the file, or zero. -/
def ProgramHeader.byteAt (file : ProgramFile) (segment : ProgramHeader) (a : ℕ) : BitVec 8 :=
  if segment.pVaddr.toNat ≤ a ∧ a < segment.pVaddr.toNat + segment.pFilesz.toNat then
    file.content.getD (segment.pOffset.toNat + (a - segment.pVaddr.toNat)) 0
  else 0

/-- No page belongs to both. -/
def ProgramHeader.Apart (segment other : ProgramHeader) : Prop := ∀ i, segment.Has i → ¬ other.Has i

end ElfLoader

namespace UserImage

variable (image : UserImage) (file : ProgramFile) {segment : ProgramHeader}
  {segs : List ProgramHeader}
  {i : ℕ} (a : ℕ)

lemma load_of_has (hpage : segment.Has i) :
    (image.load file segment).flags i = some (flagsForSegment segment.pFlags) ∧
      (a / 4096 = i → (image.load file segment).bytes a = segment.byteAt file a) := by
  refine ⟨if_pos hpage, fun ha => ?_⟩
  simp only [load, setFlags, put, addPages, ProgramHeader.byteAt]
  split_ifs with hin
  · rfl
  · rfl
  · exact absurd (ha ▸ hpage) ‹_›

lemma load_of_not_has (hprop : segment.Proper) (hpage : ¬ segment.Has i) :
    (image.load file segment).flags i = image.flags i ∧
      (a / 4096 = i → (image.load file segment).bytes a = image.bytes a) := by
  have hfilesz := hprop.filesz
  refine ⟨(if_neg hpage).trans (if_neg hpage), fun ha => ?_⟩
  subst ha
  have hout : ¬ (segment.pVaddr.toNat ≤ a ∧ a < segment.pVaddr.toNat + segment.pFilesz.toNat) :=
    fun hin =>
    hpage ⟨by rw [ProgramHeader.firstPage]; omega, by rw [ProgramHeader.endPage]; omega⟩
  exact (if_neg hout).trans (if_neg hpage)

/-- What the loop makes of an image. -/
def loadAll (file : ProgramFile) (segments : List ProgramHeader) (image : UserImage) : UserImage :=
  segments.foldl (load file) image

lemma loadAll_of_notMem (hprop : ∀ s ∈ segs, s.Proper) (hpage : ∀ s ∈ segs, ¬ s.Has i) :
    (image.loadAll file segs).flags i = image.flags i ∧
      (a / 4096 = i → (image.loadAll file segs).bytes a = image.bytes a) := by
  induction segs generalizing image with
  | nil => exact ⟨rfl, fun _ => rfl⟩
  | cons s segs ih =>
    rw [List.forall_mem_cons] at hprop hpage
    obtain ⟨hflags, hbytes⟩ := ih (image.load file s) hprop.2 hpage.2
    obtain ⟨hflags', hbytes'⟩ := load_of_not_has image file a hprop.1 hpage.1
    exact ⟨hflags.trans hflags', fun ha => (hbytes ha).trans (hbytes' ha)⟩

/-- **A page of a segment** is as the turn of that segment leaves it. -/
lemma loadAll_of_mem (hprop : ∀ s ∈ segs, s.Proper) (hapart : segs.Pairwise ProgramHeader.Apart)
    (hmem : segment ∈ segs) (hpage : segment.Has i) :
    (image.loadAll file segs).flags i = some (flagsForSegment segment.pFlags) ∧
      (a / 4096 = i → (image.loadAll file segs).bytes a = segment.byteAt file a) := by
  induction segs generalizing image with
  | nil => cases hmem
  | cons s segs ih =>
    rw [List.forall_mem_cons] at hprop
    rw [List.pairwise_cons] at hapart
    rcases List.mem_cons.mp hmem with rfl | hmem
    · obtain ⟨hflags, hbytes⟩ := loadAll_of_notMem (image.load file segment) file a hprop.2
        fun t ht => hapart.1 t ht i hpage
      obtain ⟨hflags', hbytes'⟩ := load_of_has image file a hpage
      exact ⟨hflags.trans hflags', fun ha => (hbytes ha).trans (hbytes' ha)⟩
    · exact ih (image.load file s) hprop.2 hapart.2 hmem

end UserImage

/-! ## The loop -/

namespace ElfLoader

variable {r : ℕ} {m : Machine} {image : UserImage} {file : ProgramFile} {segment : ProgramHeader}
  {buffer content : List (BitVec 8)} {off : U64}

/-- The bytes of the file that go to the segment are there to be read. -/
def InFile (file : ProgramFile) (segment : ProgramHeader) : Prop :=
  0 < segment.pFilesz.toNat → segment.pOffset.toNat + segment.pFilesz.toNat ≤ file.content.length

lemma returns_copySegment (h : Carries r m image) (hprop : segment.Proper) (room : Bool) :
    Returns (copySegment file room r segment) m fun _ m' => InFile file segment ∧
      Carries r m' (image.put segment.pVaddr.toNat segment.pFilesz.toNat fun i =>
        file.content.getD (segment.pOffset.toNat + i) 0) := by
  have hbelow := hprop.below
  have hfilesz := hprop.filesz
  have hend : USER_SPACE_END.toNat = 2 ^ 47 := rfl
  unfold copySegment
  simp only [returns_ite, returns_bind, returns_throw, returns_pure]
  refine ⟨fun hpos => ⟨fun _ => trivial, fun _ => ?_⟩, fun hzero => ?_⟩
  · cases hread : file.read segment.pOffset segment.pFilesz.toNat with
    | error e => exact returns_throw
    | ok bytes =>
      simp only [returns_ite, returns_bind, returns_throw]
      refine ⟨fun _ => trivial, fun hlen => ?_⟩
      have hlen : bytes.length = segment.pFilesz.toNat := not_not.mp hlen
      obtain ⟨hfile, hbytes⟩ := file.of_read hread hlen hpos
      refine (h.returns_copyIntoSpace (by omega)).mono fun _ m' h' => ⟨fun _ => hfile, ?_⟩
      rwa [UserImage.put_congr hbytes, hlen] at h'
  · have hnone : segment.pFilesz.toNat = 0 := Nat.eq_zero_of_not_pos hzero
    refine ⟨fun hpos => absurd hpos hzero, ?_⟩
    rwa [hnone, UserImage.put_zero]

lemma returns_loadSegment (h : Carries r m image) (hprop : segment.Loads → segment.Proper)
    (habs : segment.Loads → ∀ i, segment.Has i → image.flags i = none) (room : Bool)
    (header : ExecutableHeader) (loading : Loading) :
    Returns (loadSegment file room r header segment loading) m fun loading' m' =>
      if segment.Loads then loading' = loading.after header segment segment.finish ∧
        InFile file segment ∧ Carries r m' (image.load file segment)
      else loading' = loading ∧ m' = m := by
  unfold loadSegment
  simp only [returns_ite, returns_bind, returns_throw, returns_pure]
  refine ⟨fun hskip => ?_, fun hloads => ⟨fun _ => trivial, fun _ => ?_⟩⟩
  · have hskip : ¬ segment.Loads := fun hloads => hskip.elim (absurd hloads.1) fun hzero =>
      hloads.2 hzero
    rw [if_neg hskip]
    exact ⟨trivial, trivial⟩
  · rw [not_or, not_not] at hloads
    have hprop := hprop hloads
    obtain ⟨hrange, hfirst, hlast⟩ := hprop.range
    have hmap := h.returns_mapAnonymous hrange (show stagingFlags &&& ADDRESS_MASK = 0 by decide)
      fun i hlow hhigh => habs hloads i ⟨hfirst ▸ hlow, hlast ▸ hhigh⟩
    refine hmap.mono fun _ m₁ h₁ => (returns_copySegment h₁ hprop room).mono fun _ m₂ h₂ =>
      (h₂.2.returns_protect hrange (flagsForSegment_and_mask _)).mono fun _ m₃ h₃ => ?_
    rw [hfirst, hlast] at h₃
    rw [if_pos (show segment.Loads from hloads)]
    exact ⟨rfl, h₂.1, h₃⟩

lemma returns_loadSegments {segs : List ProgramHeader} (h : Carries r m image)
    (hprop : ∀ s ∈ segs, s.Loads → s.Proper)
    (hapart : (segs.filter fun s => s.Loads).Pairwise ProgramHeader.Apart)
    (habs : ∀ s ∈ segs, s.Loads → ∀ i, s.Has i → image.flags i = none) (room : ℕ → Bool)
    (header : ExecutableHeader) (i : ℕ) (loading : Loading) :
    Returns (loadSegments file room r header i segs loading) m fun loading' m' =>
      loading' = (segs.filter fun s => s.Loads).foldl (fun l s => l.after header s s.finish)
        loading ∧ (∀ s ∈ segs.filter fun s => s.Loads, InFile file s) ∧
        Carries r m' (image.loadAll file (segs.filter fun s => s.Loads)) := by
  induction segs generalizing image m i loading with
  | nil => exact returns_pure.mpr ⟨rfl, nofun, h⟩
  | cons s segs ih =>
    rw [List.forall_mem_cons] at hprop habs
    rw [loadSegments, returns_bind]
    refine (returns_loadSegment h hprop.1 habs.1 (room (i + 1)) header loading).mono
      fun loading' m₁ hstep => ?_
    split_ifs at hstep with hloads
    · obtain ⟨rfl, hfile, h₁⟩ := hstep
      rw [List.filter_cons_of_pos (by simpa using hloads), List.pairwise_cons] at hapart
      rw [List.filter_cons_of_pos (by simpa using hloads)]
      -- the pages of the segs to come are none of this one's
      have hothers : ∀ t ∈ segs, t.Loads → ∀ j, t.Has j → (image.load file s).flags j = none := by
        intro t ht htloads j hj
        have hnot : ¬ s.Has j := fun hs =>
          hapart.1 t (List.mem_filter.mpr ⟨ht, by simpa using htloads⟩) j hs hj
        rw [(UserImage.load_of_not_has image file 0 (hprop.1 hloads) hnot).1]
        exact habs.2 t ht htloads j hj
      refine (ih h₁ hprop.2 hapart.2 hothers (i + 1) _).mono
        fun loading' m' ⟨hloading, hfiles, h'⟩ =>
        ⟨hloading, List.forall_mem_cons.mpr ⟨hfile, hfiles⟩, h'⟩
    · obtain ⟨rfl, rfl⟩ := hstep
      rw [List.filter_cons_of_neg (by simpa using hloads)] at hapart ⊢
      exact ih h hprop.2 hapart habs.2 (i + 1) loading'

/-! ## The results of the loop -/

section Results

variable (header : ExecutableHeader) (segs : List ProgramHeader) (loading : Loading)

lemma toNat_highest_after (s : ProgramHeader) :
    (loading.after header s s.finish).highestAddress.toNat =
    max loading.highestAddress.toNat s.finish.toNat := by
  simp only [Loading.after]
  split_ifs with hlt
  · have := lt_def.mp hlt
    omega
  · have := mt lt_def.mpr hlt
    omega

/-- The loop's `highest_address`: no segment ends behind it, and it is where it was or where one
ends. -/
lemma highest_foldl :
    let highest := (segs.foldl (fun l s => l.after header s s.finish) loading).highestAddress.toNat
    loading.highestAddress.toNat ≤ highest ∧ (∀ s ∈ segs, s.finish.toNat ≤ highest) ∧
      (highest = loading.highestAddress.toNat ∨ ∃ s ∈ segs, highest = s.finish.toNat) := by
  induction segs generalizing loading with
  | nil => exact ⟨Nat.le_refl _, nofun, .inl rfl⟩
  | cons s segs ih =>
    obtain ⟨hle, hall, hsome⟩ := ih (loading.after header s s.finish)
    rw [toNat_highest_after] at hle hsome
    refine ⟨(Nat.le_max_left ..).trans hle, List.forall_mem_cons.mpr
      ⟨(Nat.le_max_right ..).trans hle, hall⟩, ?_⟩
    rcases hsome with heq | ⟨t, ht, heq⟩
    · rcases Nat.le_total loading.highestAddress.toNat s.finish.toNat with hlow | hlow
      · exact .inr ⟨s, List.mem_cons_self, heq.trans (Nat.max_eq_right hlow)⟩
      · exact .inl (heq.trans (Nat.max_eq_left hlow))
    · exact .inr ⟨t, List.mem_cons_of_mem _ ht, heq⟩

/-- The loop's `phdr_address`: where it was, or where a segment has the program headers. -/
lemma phdrAddress_foldl :
    let address := (segs.foldl (fun l s => l.after header s s.finish) loading).phdrAddress
    address = loading.phdrAddress ∨ ∃ s ∈ segs, s.pOffset ≤ header.ePhoff ∧
      header.ePhoff + header.programHeadersSize ≤ s.pOffset + s.pFilesz ∧
      address = s.pVaddr + (header.ePhoff - s.pOffset) := by
  induction segs generalizing loading with
  | nil => exact .inl rfl
  | cons s segs ih =>
    rcases ih (loading.after header s s.finish) with heq | ⟨t, ht, hrest⟩
    · by_cases hin : s.pOffset ≤ header.ePhoff ∧
          header.ePhoff + header.programHeadersSize ≤ s.pOffset + s.pFilesz
      · exact .inr ⟨s, List.mem_cons_self, hin.1, hin.2, heq.trans (if_pos hin)⟩
      · exact .inl (heq.trans (if_neg hin))
    · exact .inr ⟨t, List.mem_cons_of_mem _ ht, hrest⟩

end Results

/-! ## The headers -/

lemma valueAt_congr {bytes bytes' : U64 → BitVec 8} {a a' : U64} {size : ℕ}
    (h : ∀ i < size, bytes (a + ofNat 64 i) = bytes' (a' + ofNat 64 i)) :
    valueAt bytes a size = valueAt bytes' a' size := by
  unfold valueAt
  congr 1
  funext i
  split_ifs with hi
  · exact h i hi
  · rfl

lemma toNat_valueAt_two (bytes : U64 → BitVec 8) (a : U64) :
    (valueAt bytes a 2).toNat < 2 ^ 16 := by
  refine Nat.lt_pow_two_of_testBit _ fun k hk => ?_
  by_cases hlt : k < 64
  · have hbyte : getByte (valueAt bytes a 2) (k / 8) = 0 := by
      rw [valueAt, getByte_ofBytes (by omega), if_neg (by omega)]
    have hbit := congrArg (fun b : BitVec 8 => b.getLsbD (k % 8)) hbyte
    rw [BitVec.testBit_toNat]
    simpa [getByte, BitVec.getLsbD_extractLsb', Nat.mod_lt, Nat.div_add_mod] using hbit
  · exact BitVec.testBit_toNat _ ▸ BitVec.getLsbD_of_ge _ k (by omega)

lemma bufferBytes_eq
    (hbytes : ∀ i < buffer.length, buffer.getD i 0 = content.getD (off.toNat + i) 0)
    (hend : off.toNat + buffer.length ≤ 2 ^ 64) {a : ℕ} (ha : a < buffer.length) :
    bufferBytes buffer (ofNat 64 a) = bufferBytes content (off + ofNat 64 a) := by
  have htoNat : (ofNat 64 a).toNat = a := by
    rw [toNat_ofNat]
    omega
  rw [bufferBytes, bufferBytes, htoNat, hbytes _ ha, toNat_add, htoNat, Nat.mod_eq_of_lt (by omega)]

lemma valueAt_eq (hbytes : ∀ i < buffer.length, buffer.getD i 0 = content.getD (off.toNat + i) 0)
    (hend : off.toNat + buffer.length ≤ 2 ^ 64) (a size : ℕ) (ha : a + size ≤ buffer.length) :
    valueAt (bufferBytes buffer) (ofNat 64 a) size =
      valueAt (bufferBytes content) (off + ofNat 64 a) size := by
  refine valueAt_congr fun i hi => ?_
  rw [BitVec.add_assoc, ← ofNat_add]
  exact bufferBytes_eq hbytes hend (by omega)

end ElfLoader

/-- The header of a file. -/
def ProgramFile.header (file : ProgramFile) :
    ExecutableHeader := executableHeaderAt (bufferBytes file.content) 0

/-- The program headers of a file. -/
def ProgramFile.programHeaders (file : ProgramFile) : List ProgramHeader :=
  programHeadersAt file.content file.header.ePhoff file.header.ePhnum.toNat

/-- The segments of a file that have a place in memory. -/
def ProgramFile.segments (file : ProgramFile) : List ProgramHeader :=
  file.programHeaders.filter fun segment => segment.Loads

namespace ElfLoader

variable {file : ProgramFile} {room : Bool} {header : ExecutableHeader}
  {segs : List ProgramHeader} {segment : ProgramHeader} {r : ℕ} {m : Machine}

lemma exists_reads (h : readHeaders file room = .ok (header, segs)) :
    ∃ headerBytes table, file.read 0 64 = .ok headerBytes ∧ headerBytes.length = 64 ∧
      header = executableHeaderAt (bufferBytes headerBytes) 0 ∧
      header.ePhnum ≠ 0 ∧ header.ePhentsize.toNat = 56 ∧
      file.read header.ePhoff header.programHeadersSize.toNat = .ok table ∧
      table.length = header.programHeadersSize.toNat ∧
      segs = programHeadersAt table 0 header.ePhnum.toNat := by
  unfold readHeaders at h
  cases hread : file.read 0 ELF_HEADER_SIZE with
  | error e =>
    simp only [hread, bind, Except.bind] at h
    cases h
  | ok headerBytes =>
    simp only [hread, bind, Except.bind, throw, throwThe, MonadExceptOf.throw] at h
    split_ifs at h with hlen hval htype hcnt hroom
    rw [not_or, not_not] at hcnt
    cases htable : file.read (executableHeaderAt (bufferBytes headerBytes) 0).ePhoff
        (executableHeaderAt (bufferBytes headerBytes) 0).programHeadersSize.toNat with
    | error e =>
      simp only [htable] at h
      cases h
    | ok table =>
      simp only [htable] at h
      split_ifs at h with hsize
      obtain ⟨rfl, rfl⟩ := Prod.mk.inj (Except.ok.inj h)
      exact ⟨headerBytes, table, hread, not_not.mp hlen, rfl, hcnt.1, hcnt.2, htable,
        not_not.mp hsize, rfl⟩

/-- **The headers** that are read are those of the file. -/
lemma readHeaders_eq_ok (h : readHeaders file room = .ok (header, segs)) :
    header.ePhoff = file.header.ePhoff ∧ header.programHeadersSize =
      file.header.programHeadersSize ∧
      segs = file.programHeaders ∧ 0 < file.header.programHeadersSize.toNat ∧
      file.header.ePhoff.toNat + file.header.programHeadersSize.toNat ≤ file.content.length := by
  obtain ⟨headerBytes, table, hread, hlen, hhdr, hcnt, hentry, htable, hsize, rfl⟩ := exists_reads h
  have hcont := file.size_lt
  have hzero : ∀ x : U64, 0 + x = x := fun x => BitVec.zero_add x
  obtain ⟨-, hbytes⟩ := file.of_read hread hlen (by decide)
  -- the fields that matter are in the part that was read
  have hfield : ∀ a size : ℕ, a + size ≤ 64 → valueAt (bufferBytes headerBytes)
    (0 + ofNat 64 a) size =
      valueAt (bufferBytes file.content) (0 + ofNat 64 a) size := fun a size ha => by
    have := valueAt_eq hbytes (by rw [hlen]; decide) a size (by omega)
    rwa [hzero] at this ⊢
  have hphoff : header.ePhoff = file.header.ePhoff := by rw [hhdr]; exact hfield 32 8 (by decide)
  have hphnum : header.ePhnum = file.header.ePhnum := by rw [hhdr]; exact hfield 56 2 (by decide)
  have hphentsize : header.ePhentsize = file.header.ePhentsize := by
    rw [hhdr]; exact hfield 54 2 (by decide)
  have hprogram : header.programHeadersSize = file.header.programHeadersSize := by
    rw [ExecutableHeader.programHeadersSize, ExecutableHeader.programHeadersSize,
      hphnum, hphentsize]
  have hsmall : header.ePhnum.toNat < 2 ^ 16 := by rw [hhdr]; exact toNat_valueAt_two _ _
  have hpositive : header.ePhnum.toNat ≠ 0 := fun heq => hcnt (BitVec.eq_of_toNat_eq heq)
  have hproduct : header.programHeadersSize.toNat = header.ePhnum.toNat * 56 := by
    rw [ExecutableHeader.programHeadersSize, BitVec.toNat_mul, hentry]
    omega
  obtain ⟨hend, hentries⟩ := file.of_read htable hsize (by omega)
  refine ⟨hphoff, hprogram, ?_, by rw [← hprogram]; omega, by rwa [← hphoff, ← hprogram]⟩
  unfold ProgramFile.programHeaders programHeadersAt
  rw [← hphnum]
  refine List.map_congr_left fun i hi => ?_
  have hi := List.mem_range.mp hi
  have hvalue : ∀ a size : ℕ, a + size ≤ 56 →
      valueAt (bufferBytes table) (entryAddress 0 PROGRAM_HEADER_SIZE i + ofNat 64 a) size =
        valueAt (bufferBytes file.content)
          (entryAddress file.header.ePhoff PROGRAM_HEADER_SIZE i + ofNat 64 a) size := by
    intro a size ha
    have := valueAt_eq hentries (by rw [hsize]; omega) (56 * i + a) size (by omega)
    rw [entryAddress, entryAddress, PROGRAM_HEADER_SIZE, hzero,
      ← ofNat_add, BitVec.add_assoc, ← ofNat_add, ← hphoff]
    exact this
  have hfirst := hvalue 0 4 (by decide)
  rw [BitVec.add_zero, BitVec.add_zero] at hfirst
  simp only [programHeaderAt, ProgramHeader.mk.injEq]
  exact ⟨hfirst, hvalue 4 4 (by decide), hvalue 8 8 (by decide), hvalue 16 8 (by decide),
    hvalue 32 8 (by decide), hvalue 40 8 (by decide)⟩

/-! ## The program in its memory -/

/-- The segments of the file are proper, and no page belongs to two of them. -/
structure WellLaid (file : ProgramFile) : Prop where
  proper : ∀ segment ∈ file.segments, segment.Proper
  apart : file.segments.Pairwise ProgramHeader.Apart

/-- The flags are exactly what the flags of a segment ask for: a page of the user's, that may be
written if the segment may and executed if the segment may. -/
structure Permits (pFlags flags : U64) : Prop where
  user : flags &&& ~~~(Writable ||| NoExecute) = Present ||| User
  writable : hasFlag flags Writable ↔ pFlags &&& PF_W ≠ 0
  noExecute : hasFlag flags NoExecute ↔ pFlags &&& PF_X = 0

lemma permits_flagsForSegment (pFlags : U64) : Permits pFlags (flagsForSegment pFlags) := by
  unfold flagsForSegment
  dsimp only
  split_ifs with hexecute hwrite hwrite
  · exact ⟨by decide, iff_of_true (by decide) hwrite, iff_of_true (by decide) hexecute⟩
  · exact ⟨by decide, iff_of_false (by decide) hwrite, iff_of_true (by decide) hexecute⟩
  · exact ⟨by decide, iff_of_true (by decide) hwrite, iff_of_false (by decide) hexecute⟩
  · exact ⟨by decide, iff_of_false (by decide) hwrite, iff_of_false (by decide) hexecute⟩

lemma some_byteAt (h : InFile file segment) (a : ℕ) : some (segment.byteAt file a) =
      if segment.pVaddr.toNat ≤ a ∧ a < segment.pVaddr.toNat + segment.pFilesz.toNat then
        file.content[segment.pOffset.toNat + (a - segment.pVaddr.toNat)]?
      else some 0 := by
  unfold ProgramHeader.byteAt
  split_ifs with hin
  · have hend := h (by omega)
    rw [List.getD_eq_getElem?_getD, List.getElem?_eq_getElem (by omega)]
    rfl
  · rfl

/-- The image after the loop, and what the loop has computed. -/
lemma returns_loadExecutable (hfresh : Fresh r m) (hlaid : WellLaid file) (room : ℕ → Bool) :
    Returns (loadExecutable file room r) m fun loaded m' => ∃ loading : Loading,
      loading = file.segments.foldl (fun l s => l.after file.header s s.finish) {} ∧
        loaded.brkStart = loading.highestAddress ∧ loaded.phdrAddress = loading.phdrAddress ∧
        loading.highestAddress ≠ 0 ∧ (∀ s ∈ file.segments, InFile file s) ∧
        0 < file.header.programHeadersSize.toNat ∧
        file.header.ePhoff.toNat + file.header.programHeadersSize.toNat ≤ file.content.length ∧
        Carries r m' (UserImage.empty.loadAll file file.segments) := by
  unfold loadExecutable
  cases hheaders : readHeaders file (room 0) with
  | error e => exact returns_throw
  | ok headers =>
    obtain ⟨header, segs⟩ := headers
    obtain ⟨hphoff, hsize, rfl, hpos, hend⟩ := readHeaders_eq_ok hheaders
    simp only [returns_bind, returns_ite, returns_throw, returns_pure]
    have hmem : ∀ s ∈ file.programHeaders, s.Loads → s ∈ file.segments := fun s hs hloads =>
      List.mem_filter.mpr ⟨hs, by simpa using hloads⟩
    refine (returns_loadSegments hfresh.carries
      (fun s hs hloads => hlaid.proper s (hmem s hs hloads))
      hlaid.apart (fun _ _ _ _ _ => rfl) room header 0 {}).mono fun loading m' hm' => ?_
    obtain ⟨hloading, hfiles, hcarries⟩ := hm'
    refine ⟨fun _ => trivial, fun hhighest =>
      ⟨loading, ?_, rfl, rfl, hhighest, hfiles, hpos, hend, hcarries⟩⟩
    have hafter : ∀ (l : Loading) (s : ProgramHeader), l.after header s s.finish =
        l.after file.header s s.finish := fun l s => by
      simp only [Loading.after, hphoff, hsize]
    rw [hloading]
    simp only [hafter]
    rfl

lemma userByte_of_mem (hlaid : WellLaid file)
    (hcarries : Carries r m (UserImage.empty.loadAll file file.segments))
    (hmem : segment ∈ file.segments) (hfile : InFile file segment) {a : U64}
    (ha : segment.Has (a.toNat / 4096)) : userByte m.words r a =
      if segment.pVaddr.toNat ≤ a.toNat ∧ a.toNat <
        segment.pVaddr.toNat + segment.pFilesz.toNat then
        file.content[segment.pOffset.toNat + (a.toNat - segment.pVaddr.toNat)]?
      else some 0 := by
  obtain ⟨hflags, hbytes⟩ := UserImage.loadAll_of_mem .empty file a.toNat hlaid.proper
    hlaid.apart hmem ha
  rw [hcarries.userByte_eq ((hlaid.proper segment hmem).lt_of_has ha) (by simp [hflags]),
    hbytes rfl, some_byteAt hfile]

lemma headers_in_segment (hfile : InFile file segment)
    (hpos : 0 < file.header.programHeadersSize.toNat)
    (hend : file.header.ePhoff.toNat + file.header.programHeadersSize.toNat ≤ file.content.length)
    (hlow : segment.pOffset ≤ file.header.ePhoff)
    (hhigh : file.header.ePhoff + file.header.programHeadersSize ≤
      segment.pOffset + segment.pFilesz) : segment.pOffset.toNat ≤ file.header.ePhoff.toNat ∧
      file.header.ePhoff.toNat + file.header.programHeadersSize.toNat ≤
        segment.pOffset.toNat + segment.pFilesz.toNat := by
  have hsize := file.size_lt
  have hhigh := BitVec.le_def.mp hhigh
  rw [toNat_add, toNat_add, Nat.mod_eq_of_lt (by omega)] at hhigh
  refine ⟨hlow, ?_⟩
  rcases Nat.eq_zero_or_pos segment.pFilesz.toNat with hzero | hbytes
  · rw [hzero, Nat.add_zero, Nat.mod_eq_of_lt segment.pOffset.isLt] at hhigh
    omega
  · have := hfile hbytes
    omega

/-- **`load_executable` builds the image of the program.**  When it returns, each page of a segment
has the bytes of the file where they belong and zeros around them, and the flags of the segment; no
other page of the user half is there; the program break is the end of the last page of the segments;
and the program headers, if they have an address, are at that address. -/
theorem load_executable_builds_image {r : ℕ} {m m' : Machine} {room : ℕ → Bool}
    {loaded : LoadedExecutable} (hfresh : Fresh r m) (hlaid : WellLaid file)
    (hload : loadExecutable file room r m = some (.ok loaded, m')) :
    (∀ segment ∈ file.segments, ∀ a : U64, segment.Has (a.toNat / 4096) →
        (userByte m'.words r a =
          if segment.pVaddr.toNat ≤ a.toNat ∧ a.toNat <
          segment.pVaddr.toNat + segment.pFilesz.toNat then
            file.content[segment.pOffset.toNat + (a.toNat - segment.pVaddr.toNat)]?
          else some 0) ∧
        ∃ flags, query m'.words r a = .ok flags ∧ Permits segment.pFlags flags) ∧
      (∀ a : U64, a.toNat < USER_SPACE_END.toNat →
        (∀ segment ∈ file.segments, ¬ segment.Has (a.toNat / 4096)) →
        translate m'.words r a = .error .EFAULT) ∧
      IsGreatest {finish | ∃ segment ∈ file.segments, finish = segment.endPage * 4096}
        loaded.brkStart.toNat ∧
      (loaded.phdrAddress ≠ 0 → ∀ k < file.header.programHeadersSize.toNat,
        userByte m'.words r (loaded.phdrAddress + ofNat 64 k) =
          file.content[file.header.ePhoff.toNat + k]?) := by
  obtain ⟨loading, hloading, hbrk, hphdr, hhighest, hfiles, hpos, hend, hcarries⟩ :=
    (returns_loadExecutable hfresh hlaid room).apply hload
  have hfinish : ∀ s ∈ file.segments, s.finish.toNat = s.endPage * 4096 := fun s hs =>
    (hlaid.proper s hs).toNat_finish
  refine ⟨fun segment hmem a ha =>
    ⟨userByte_of_mem hlaid hcarries hmem (hfiles segment hmem) ha, ?_⟩,
    fun a ha hnot => ?_, ?_, fun hset k hk => ?_⟩
  · obtain ⟨hflags, -⟩ := UserImage.loadAll_of_mem .empty file a.toNat hlaid.proper
      hlaid.apart hmem ha
    have hquery := hcarries.query_eq ((hlaid.proper segment hmem).lt_of_has ha) hflags
    rw [flagsForSegment_or_present] at hquery
    exact ⟨_, hquery, permits_flagsForSegment _⟩
  · obtain ⟨hflags, -⟩ := UserImage.loadAll_of_notMem .empty file a.toNat hlaid.proper hnot
    exact hcarries.translate_error ha hflags
  · obtain ⟨-, hall, hsome⟩ := highest_foldl file.header file.segments {}
    rw [← hloading] at hall hsome
    rw [hbrk]
    refine ⟨?_, ?_⟩
    · rcases hsome with heq | ⟨s, hs, heq⟩
      · exact absurd (BitVec.eq_of_toNat_eq heq) hhighest
      · exact ⟨s, hs, heq.trans (hfinish s hs)⟩
    · rintro finish ⟨s, hs, rfl⟩
      exact hfinish s hs ▸ hall s hs
  · rw [hphdr] at hset ⊢
    rcases phdrAddress_foldl file.header file.segments {} with
      hzero | ⟨s, hs, hlow, hhigh, haddress⟩
    · exact absurd (hloading ▸ hzero) hset
    · rw [← hloading] at haddress
      obtain ⟨hlow, hhigh⟩ := headers_in_segment (hfiles s hs) hpos hend hlow hhigh
      have hproper := hlaid.proper s hs
      have hbelow := hproper.below
      have hfilesz := hproper.filesz
      have htoNat : (loading.phdrAddress + ofNat 64 k).toNat =
          s.pVaddr.toNat + (file.header.ePhoff.toNat - s.pOffset.toNat) + k := by
        rw [haddress, toNat_add, toNat_add, BitVec.toNat_sub, toNat_ofNat]
        omega
      have hhas : s.Has ((loading.phdrAddress + ofNat 64 k).toNat / 4096) := by
        rw [htoNat, ProgramHeader.Has, ProgramHeader.firstPage, ProgramHeader.endPage]
        omega
      rw [userByte_of_mem hlaid hcarries hs (hfiles s hs) hhas, if_pos (by omega), htoNat]
      congr 1
      omega

/-- A file all of which can be read. -/
def wholeFile (content : List (BitVec 8)) (hsize : content.length < 2 ^ 64) : ProgramFile where
  content := content
  size_lt := hsize
  read offset length := .ok ((content.drop offset.toNat).take length)
  read_eq := by
    rintro offset length bytes ⟨⟩
    refine ⟨List.length_take_le .., ?_⟩
    rw [List.length_take, ← List.take_eq_take_min]

/-- A program of two instructions at `0x400078`, behind its headers, in a segment of 512 bytes that
may be read and executed. -/
def endlessLoop : ProgramFile :=
  wholeFile ([0x7F, 0x45, 0x4C, 0x46, 2, 1, 1, 0] ++ List.replicate 8 0 ++
  [2, 0, 62, 0, 1, 0, 0, 0] ++
    [0x78, 0, 0x40, 0, 0, 0, 0, 0] ++ [64, 0, 0, 0, 0, 0, 0, 0] ++ List.replicate 12 0 ++
    [64, 0, 56, 0, 1, 0] ++ List.replicate 6 0 ++ [1, 0, 0, 0, 5, 0, 0, 0] ++ List.replicate 8 0 ++
    [0, 0, 0x40, 0, 0, 0, 0, 0] ++ [0, 0, 0x40, 0, 0, 0, 0, 0] ++ [123, 0, 0, 0, 0, 0, 0, 0] ++
    [0, 2, 0, 0, 0, 0, 0, 0] ++ [0, 16, 0, 0, 0, 0, 0, 0] ++ [0x90, 0xEB, 0xFD]) (by decide +kernel)

/-- The program headers of the small program are at `0x400040`. -/
theorem load_executable_builds_image_endlessLoop :
    ∃ loaded m', loadExecutable endlessLoop (fun _ => true) 0 (blankMachine 8) =
      some (.ok loaded, m') ∧
      loaded.phdrAddress = 0x400040 ∧ userByte m'.words 0 0x400044 = some 5 := by
  have hrun : (loadExecutable endlessLoop (fun _ => true) 0 (blankMachine 8)).map Prod.fst =
      some (.ok ⟨0x400078, 0x400040, 1, 56, 0x401000⟩) := by
    decide +kernel
  obtain ⟨⟨result, m'⟩, hload, hresult⟩ := Option.map_eq_some_iff.mp hrun
  obtain rfl : result = _ := hresult
  have hfresh : Fresh 0 (blankMachine 8) := ⟨by decide, by decide, fun _ _ => rfl, rfl⟩
  have hsegments : endlessLoop.segments = [⟨1, 5, 0, 0x400000, 123, 512⟩] := by decide +kernel
  have hlaid : WellLaid endlessLoop := by
    constructor
    · rw [hsegments]
      exact List.forall_mem_singleton.mpr ⟨by decide, by decide⟩
    · rw [hsegments]
      exact List.pairwise_singleton ..
  refine ⟨_, m', hload, rfl, ?_⟩
  exact ((load_executable_builds_image hfresh hlaid hload).2.2.2 (by decide)
    4 (by decide +kernel)).trans
    (by decide +kernel)

end ElfLoader

end ShitOs
