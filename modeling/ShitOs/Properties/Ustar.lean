import ShitOs.Construction.Ustar
import ShitOs.Properties.Paths

/-!
# Reading an archive

What the steps of `parse` do: the path of a header (`TarHeader.path_eq`), the header at an offset
(`Ustar.turn_eq`), and what `ensure_path` leaves of the tree (`forall_ensureParts`,
`ensureParts_has`). From that follows where `parse` stays in bounds.

There are two places where it does not.  The buffer for the path has 256 bytes, and a `prefix` of
155 bytes, a slash and a `name` of 100 fill it, so that the NUL goes behind its end.  And nothing
compares the size in a header with what is left of the archive, so that the last file of an archive
that was cut off has data behind the end of it.
-/

namespace ShitOs

open List (length_append length_drop length_singleton mem_cons replicate)

/-! ## The path of a header -/

lemma textOf_append_zero {text : Text} (htext : 0 ∉ text) (rest : List UInt8) :
    textOf (text ++ 0 :: rest) = text := by
  unfold textOf
  rw [List.takeWhile_append_of_pos fun c hc => by simpa using ne_of_mem_of_not_mem hc htext]
  simp

lemma zero_notMem_textOf (bytes : List UInt8) : 0 ∉ textOf bytes := fun hmem => by
  simpa using List.all_eq_true.mp List.all_takeWhile 0 hmem

lemma store_eq {array bytes : List UInt8} {index : ℕ}
    (hfits : index + bytes.length ≤ array.length) :
    store array index bytes =
      .ok (array.take index ++ bytes ++ array.drop (index + bytes.length)) := by
  rw [store, if_pos hfits]
  congr 1
  rcases eq_or_ne bytes [] with rfl | hbytes
  · simp
  · rw [overwrite_of_ne_nil 0 _ _ hbytes, List.rightpad, Nat.sub_eq_zero_of_le (by omega)]
    simp

lemma store_append (front : List UInt8) {bytes back : List UInt8}
    (hfits : bytes.length ≤ back.length) :
    store (front ++ back) front.length bytes = .ok (front ++ bytes ++ back.drop bytes.length) := by
  rw [store_eq (by simpa using hfits), List.take_left', List.drop_append,
    List.drop_eq_nil_of_le (by omega)]
  · simp
  · rfl

/-- What the path of a header has before the name. -/
def TarHeader.leading (header : TarHeader) : Text :=
  if header.pathPrefix.head? ≠ some 0 then textOf header.pathPrefix ++ [SLASH] else []

/-- The path of a header. -/
def TarHeader.joined (header : TarHeader) : Text := header.leading ++ textOf header.name

/-- The header has the fields that its type has. -/
structure TarHeader.Sized (header : TarHeader) : Prop where
  name : header.name.length ≤ 100
  pathPrefix : header.pathPrefix.length ≤ 155

namespace TarHeader

variable {header : TarHeader} {back : List UInt8}

lemma zero_notMem_leading (header : TarHeader) : 0 ∉ header.leading := by
  unfold leading
  split_ifs
  · have := zero_notMem_textOf header.pathPrefix
    simp [this, SLASH]
  · simp

lemma Sized.length_leading (h : header.Sized) : header.leading.length ≤ 156 := by
  unfold leading
  split_ifs
  · have : (textOf header.pathPrefix).length ≤ _ := (List.takeWhile_prefix _).length_le
    have := h.pathPrefix
    rw [length_append, length_singleton]
    omega
  · simp

lemma Sized.storePrefix_eq (h : header.Sized) (hback : back.length = 255) :
    ∃ back', header.storePrefix (0 :: back) = .ok (header.leading ++ 0 :: back') ∧
      header.leading.length + back'.length = 255 := by
  have hlen := h.length_leading
  unfold storePrefix
  by_cases hsome : header.pathPrefix.head? ≠ some 0
  · have hleading : header.leading = textOf header.pathPrefix ++ [SLASH] := if_pos hsome
    rw [if_pos hsome, hleading]
    rw [hleading, length_append, length_singleton] at hlen
    generalize textOf header.pathPrefix = text at hlen
    have hfirst : store (0 :: back) 0 text = .ok (text ++ (0 :: back).drop text.length) :=
      store_append [] (by simp; omega)
    have hleft : ((0 :: back).drop text.length).length + text.length = 256 := by
      rw [length_drop, List.length_cons]
      omega
    generalize (0 :: back).drop text.length = left at hfirst hleft
    have hslash : store (text ++ left) text.length [SLASH] = .ok (text ++ [SLASH] ++ left.drop 1) :=
      store_append text (by rw [length_singleton]; omega)
    have hzero : store (text ++ [SLASH] ++ left.drop 1) (text.length + 1) [0] =
        .ok (text ++ [SLASH] ++ [0] ++ (left.drop 1).drop 1) := by
      have hlong : ([0] : List UInt8).length ≤ (left.drop 1).length := by
        rw [length_singleton, length_drop]
        omega
      have := store_append (text ++ [SLASH]) hlong
      rwa [length_append, length_singleton] at this
    refine ⟨left.drop 2, ?_, ?_⟩
    · simp only [hfirst, bind, Except.bind, hslash, hzero, List.drop_drop]
      simp
    · rw [length_drop, length_append, length_singleton]
      omega
  · have hleading : header.leading = [] := if_neg hsome
    rw [if_neg hsome, hleading]
    exact ⟨back, rfl, by simpa using hback⟩

/-- The name fits, and the NUL behind it if there is room for one more byte. -/
lemma Sized.storeName_eq (h : header.Sized) (hback : header.leading.length + back.length = 255) :
    (header.joined.length < PATH_SIZE →
      ∃ back', header.storeName (header.leading ++ 0 :: back) = .ok (header.joined ++ 0 :: back')) ∧
    (¬ header.joined.length < PATH_SIZE →
      header.storeName (header.leading ++ 0 :: back) = .error (.storeOutside PATH_SIZE)) := by
  have hlen := h.length_leading
  have hname : (textOf header.name).length ≤ 100 :=
    Nat.le_trans (List.takeWhile_prefix _).length_le h.name
  have hfirst : store (header.leading ++ 0 :: back) header.leading.length (textOf header.name) =
      .ok (header.joined ++ (0 :: back).drop (textOf header.name).length) :=
    store_append header.leading (by rw [List.length_cons]; omega)
  have hleft : ((0 :: back).drop (textOf header.name).length).length + header.joined.length =
    256 := by
    rw [joined, length_append, length_drop, List.length_cons]
    omega
  generalize (0 :: back).drop (textOf header.name).length = left at hfirst hleft
  unfold storeName
  simp only [textOf_append_zero header.zero_notMem_leading, hfirst, bind, Except.bind,
    ← length_append]
  rw [← joined]
  refine ⟨fun hfits => ⟨left.drop 1, ?_⟩, fun hfull => ?_⟩
  · rw [PATH_SIZE] at hfits
    rw [store_append header.joined (by rw [length_singleton]; omega)]
    simp
  · rw [PATH_SIZE] at hfull ⊢
    rw [store, if_neg (by rw [length_append, length_singleton]; omega), length_append]
    congr 2
    omega

/-- The path is put together as it should be, if there is room for it and for a NUL. -/
lemma Sized.path_eq (h : header.Sized) {array : List UInt8} (harray : array.length = PATH_SIZE) :
    header.path array =
      if header.joined.length < PATH_SIZE then .ok header.joined
        else .error (.storeOutside PATH_SIZE) := by
  have hfirst : store array 0 [0] = .ok (0 :: array.drop 1) := by
    rw [store_eq (by rw [harray]; decide)]
    simp
  have hdrop : (array.drop 1).length = 255 := by rw [length_drop, harray]; rfl
  obtain ⟨back, hpre, hback⟩ := h.storePrefix_eq hdrop
  obtain ⟨hfits, hfull⟩ := h.storeName_eq hback
  unfold path
  simp only [hfirst, bind, Except.bind, hpre]
  split_ifs with hroom
  · obtain ⟨back', hname⟩ := hfits hroom
    have hzero : 0 ∉ header.joined := by
      simp [joined, header.zero_notMem_leading, zero_notMem_textOf]
    rw [hname]
    simp only [textOf_append_zero hzero]
    rfl
  · rw [hfull hroom]

end TarHeader

/-! ## What `ensure_path` does to the tree -/

namespace UstarInode

/-- The inodes of a tree. -/
inductive Has : UstarInode → UstarInode → Prop
  | self (n : UstarInode) : Has n n
  | down {c n t : UstarInode} (hmem : c ∈ t.children) (hn : Has c n) : Has t n

lemma has_iff {t n : UstarInode} : t.Has n ↔ n = t ∨ ∃ c ∈ t.children, c.Has n := by
  constructor
  · rintro (_ | ⟨hmem, hn⟩)
    · exact Or.inl rfl
    · exact Or.inr ⟨_, hmem, hn⟩
  · rintro (rfl | ⟨c, hmem, hn⟩)
    · exact .self n
    · exact .down hmem hn

lemma mem_putInto_self (child : UstarInode) (children : List UstarInode) :
    child ∈ putInto child children := by
  induction children with
  | nil => exact List.mem_singleton_self child
  | cons first rest ih =>
    unfold putInto
    split_ifs
    · exact List.mem_cons_self
    · exact List.mem_cons_of_mem _ ih

lemma mem_putInto {child c : UstarInode} {children : List UstarInode}
    (hc : c ∈ putInto child children) : c = child ∨ c ∈ children := by
  induction children with
  | nil => exact Or.inl (List.mem_singleton.mp hc)
  | cons first rest ih =>
    unfold putInto at hc
    split_ifs at hc
    · exact (mem_cons.mp hc).imp id (List.mem_cons_of_mem _)
    · obtain rfl | hc := mem_cons.mp hc
      · exact Or.inr List.mem_cons_self
      · exact (ih hc).imp id (List.mem_cons_of_mem _)

lemma child_mem {t c : UstarInode} {name : Text} (hchild : t.child name = some c) :
    c ∈ t.children :=
  List.mem_of_find?_eq_some hchild

end UstarInode

open UstarInode

/-- There is memory for everything. -/
def plenty : ℕ → Bool := fun _ => true

lemma parts_dropLast {path : Text} : ∀ p ∈ (parts path).dropLast, p.2 = false := by
  unfold parts
  generalize path.length = fuel
  induction fuel generalizing path with
  | zero => simp [partsWithin]
  | succ fuel ih =>
    unfold partsWithin
    split
    · simp
    next part rest hnext =>
    split_ifs
    · simp
    · intro p hp
      cases hrest : partsWithin fuel rest with
      | nil => simp [hrest] at hp
      | cons q qs =>
        rw [hrest, List.dropLast_cons_cons] at hp
        obtain rfl | hp := mem_cons.mp hp
        · rfl
        · exact ih p (hrest ▸ hp)

/-- The inode that `ensure_path` returns, as it is then. -/
def reached (wanted : Wanted) : List (Text × Bool) → UstarInode → UstarInode
  | [], current => current
  | (component, isLast) :: rest, current =>
    reached wanted rest ((current.child component).getD (wanted.make component isLast))

section Ensure

variable {mem : ℕ → Bool} {want : Wanted} {P : UstarInode → Prop}

lemma ensureParts_cons (mem : ℕ → Bool) (want : Wanted) (part : Text) (isLast : Bool)
    (rest : List (Text × Bool)) (cur : UstarInode) (next : ℕ) :
    (cur.child part = none ∧ mem next = false ∧
      ensureParts mem want ((part, isLast) :: rest) cur next = (.error .ENOMEM, cur, next)) ∨
    ∃ child next', (cur.child part = some child ∧ next' = next ∨
        cur.child part = none ∧ mem next = true ∧ child = want.make part isLast ∧
          next' = next + 1) ∧ ensureParts mem want ((part, isLast) :: rest) cur next =
        ((ensureParts mem want rest child next').1,
          cur.put (ensureParts mem want rest child next').2.1,
          (ensureParts mem want rest child next').2.2) := by
  simp only [ensureParts]
  cases hchild : cur.child part with
  | some child => exact Or.inr ⟨child, next, Or.inl ⟨rfl, rfl⟩, rfl⟩
  | none =>
    cases hmemory : mem next with
    | false => exact Or.inl ⟨rfl, rfl, by simp⟩
    | true => exact Or.inr ⟨_, next + 1, Or.inr ⟨rfl, rfl, rfl, rfl⟩, by simp⟩

section

variable (ps : List (Text × Bool)) (cur : UstarInode) (next : ℕ)
include ps cur next

/-- The inode that is returned is in the tree, filled. -/
lemma ensureParts_has (hok : (ensureParts mem want ps cur next).1 = .ok ()) :
    (ensureParts mem want ps cur next).2.1.Has (want.fill (reached want ps cur)) := by
  induction ps generalizing cur next with
  | nil => exact .self _
  | cons p rest ih =>
    obtain ⟨part, isLast⟩ := p
    obtain ⟨-, -, heq⟩ | ⟨child, next', hchild, heq⟩ :=
      ensureParts_cons mem want part isLast rest cur next
    · rw [heq] at hok
      cases hok
    have hreached : reached want ((part, isLast) :: rest) cur = reached want rest child := by
      obtain ⟨hsome, -⟩ | ⟨hnone, -, rfl, -⟩ := hchild
      · rw [reached, hsome, Option.getD_some]
      · rw [reached, hnone, Option.getD_none]
    rw [heq] at hok ⊢
    rw [hreached]
    exact .down (mem_putInto_self _ _) (ih child next' hok)

omit ps cur next in
/-- What is true of every inode of the tree stays so, if it is true of new directories and of the
inode that is returned. -/
lemma forall_ensureParts (hkids : ∀ n cs, P n → P { n with children := cs })
    (hdir : ∀ name, P (.make name .directory 0o755))
      (hkeeps : ∀ n, (want.fill n).children = n.children)
    (ps : List (Text × Bool)) (cur : UstarInode) (next : ℕ) (hps : ∀ p ∈ ps.dropLast, p.2 = false)
    (hcur : ps ≠ [] → P cur) (hbelow : ∀ c ∈ cur.children, ∀ n, c.Has n → P n)
    (hfill : P (want.fill (reached want ps cur))) :
    ∀ n, (ensureParts mem want ps cur next).2.1.Has n → P n := by
  induction ps generalizing cur next with
  | nil =>
    intro n hn
    obtain rfl | ⟨c, hc, hn⟩ := has_iff.mp hn
    · exact hfill
    · exact hbelow c (hkeeps cur ▸ hc) n hn
  | cons p rest ih =>
    obtain ⟨part, isLast⟩ := p
    intro n hn
    obtain ⟨-, -, heq⟩ | ⟨child, next', hchild, heq⟩ :=
      ensureParts_cons mem want part isLast rest cur next
    · rw [heq] at hn
      obtain rfl | ⟨c, hc, hn⟩ := has_iff.mp hn
      · exact hcur (by simp)
      · exact hbelow c hc n hn
    rw [heq] at hn
    obtain rfl | ⟨c, hc, hn⟩ := has_iff.mp hn
    · exact hkids _ _ (hcur (by simp))
    obtain rfl | hc := mem_putInto hc
    · refine ih child next' (fun p hp => hps p ?_) (fun hrest => ?_) (fun c hc n hn => ?_) ?_ n hn
      · cases rest with
        | nil => cases hp
        | cons q qs => exact List.mem_cons_of_mem _ hp
      · -- a child that is not the last one is there already, or a directory
        have hlast : isLast = false := by
          cases rest with
          | nil => exact absurd rfl hrest
          | cons q qs => exact hps (part, isLast) List.mem_cons_self
        obtain ⟨hsome, -⟩ | ⟨-, -, rfl, -⟩ := hchild
        · exact hbelow child (child_mem hsome) child (.self child)
        · rw [Wanted.make, hlast]
          exact hdir part
      · obtain ⟨hsome, -⟩ | ⟨-, -, rfl, -⟩ := hchild
        · exact hbelow child (child_mem hsome) n (.down hc hn)
        · cases hc
      · obtain ⟨hsome, -⟩ | ⟨hnone, -, rfl, -⟩ := hchild
        · rwa [reached, hsome, Option.getD_some] at hfill
        · rwa [reached, hnone, Option.getD_none] at hfill
    · exact hbelow c hc n hn

/-- Where there is memory for it, `ensure_path` does what it does where there is plenty. -/
lemma ensureParts_of_ok (hok : (ensureParts mem want ps cur next).1 = .ok ()) :
    ensureParts plenty want ps cur next = ensureParts mem want ps cur next := by
  induction ps generalizing cur next with
  | nil => rfl
  | cons p rest ih =>
    obtain ⟨part, isLast⟩ := p
    simp only [ensureParts] at hok ⊢
    cases hchild : cur.child part with
    | some child =>
      simp only [hchild] at hok
      simp only [ih child next hok]
    | none =>
      simp only [hchild] at hok
      split_ifs at hok with hmemory
      simp only [if_pos hmemory, ih _ _ hok, plenty, if_true]

lemma ensureParts_plenty : (ensureParts plenty want ps cur next).1 = .ok () := by
  induction ps generalizing cur next with
  | nil => rfl
  | cons p rest ih =>
    obtain ⟨part, isLast⟩ := p
    obtain ⟨-, hmemory, -⟩ | ⟨child, next', -, heq⟩ :=
      ensureParts_cons plenty want part isLast rest cur next
    · cases hmemory
    · rw [heq]
      exact ih child next'

end

lemma reached_of_forall (hmake : ∀ part isLast, P (want.make part isLast))
    (ps : List (Text × Bool)) (cur : UstarInode) (hcur : ∀ n, cur.Has n → P n) :
    P (reached want ps cur) := by
  induction ps generalizing cur with
  | nil => exact hcur cur (.self cur)
  | cons p rest ih =>
    obtain ⟨part, isLast⟩ := p
    refine ih _ fun n hn => ?_
    cases hchild : cur.child part with
    | some child =>
      rw [hchild, Option.getD_some] at hn
      exact hcur n (.down (child_mem hchild) hn)
    | none =>
      rw [hchild, Option.getD_none] at hn
      obtain rfl | ⟨c, hc, -⟩ := has_iff.mp hn
      · exact hmake part isLast
      · cases hc

end Ensure

/-! ## A header -/

/-- A regular file has data, and it is inside of the archive. -/
def UstarInode.DataInside (length : ℕ) (n : UstarInode) : Prop :=
  n.type = .regular → ∃ data, n.data = some data ∧ data + n.size ≤ length

namespace UstarFileSystem

variable {s : UstarFileSystem} {mem : ℕ → Bool} {header : TarHeader} {path : Text}
  {off len : ℕ}

/-- Every regular file has its data inside of the archive. -/
def Inside (length : ℕ) (s : UstarFileSystem) : Prop := ∀ n, s.root.Has n → n.DataInside length

/-- The header is that of a file, and makes one or comes upon one. -/
def MakesFile (s : UstarFileSystem) (header : TarHeader) (path : Text) (offset : ℕ) : Prop :=
  header.kind = .file ∧ path ≠ [] ∧ (reached (header.wantsFile offset) (parts path) s.root).type =
  .regular

lemma inside_ensurePath (h : s.Inside len) (want : Wanted)
    (hkeeps : ∀ n, (want.fill n).children = n.children)
    (hfill : (want.fill (reached want (parts path) s.root)).DataInside len) :
    (s.ensurePath mem path want).2.Inside len :=
  forall_ensureParts (fun _ _ hn => hn) (fun _ hreg => nomatch hreg) hkeeps (parts path) s.root
    _ parts_dropLast
    (fun _ => h s.root (.self _)) (fun _ hc n hn => h n (.down hc hn)) hfill

/-- A header keeps the data of the files inside, if it makes none that goes beyond the end. -/
lemma Inside.enter (h : s.Inside len)
    (hdata : s.MakesFile header path off → off + header.sizeOf ≤ len) :
    (s.enter mem header path off).2.Inside len := by
  unfold UstarFileSystem.enter
  split_ifs with hpath
  · exact h
  split
  · refine inside_ensurePath h _ (fun _ => rfl) ?_
    exact reached_of_forall (P := fun n => n.DataInside len)
      (fun part isLast hreg => by cases isLast <;> cases hreg) _ _ h
  · next hkind =>
      have hfile : (s.ensurePath mem path (header.wantsFile off)).2.Inside len := by
        refine inside_ensurePath h _ (fun _ => rfl) fun hreg => ?_
        exact ⟨off, rfl, hdata ⟨hkind, hpath, hreg⟩⟩
      split
      · next heq => rwa [heq] at hfile
      · next heq =>
          rw [heq] at hfile
          exact hfile
  · exact h

lemma enter_has (hfile : s.MakesFile header path off)
    (hok : (s.enter mem header path off).1 = .ok ()) :
    ∃ n, (s.enter mem header path off).2.root.Has n ∧ n.type = .regular ∧ n.data = some off ∧
      n.size = header.sizeOf := by
  obtain ⟨hkind, hpath, hreg⟩ := hfile
  refine ⟨(header.wantsFile off).fill (reached (header.wantsFile off) (parts path) s.root), ?_,
    hreg, rfl, rfl⟩
  unfold UstarFileSystem.enter at hok ⊢
  rw [if_neg hpath, hkind] at hok ⊢
  dsimp only at hok ⊢
  split at hok
  · cases hok
  next u t heq =>
  have hfirst : (s.ensurePath mem path (header.wantsFile off)).1 = .ok () := by rw [heq]
  have hhas := ensureParts_has (parts path) s.root s.nextInodeNumber hfirst
  have ht : (s.ensurePath mem path (header.wantsFile off)).2 = t := by rw [heq]
  rw [← ht]
  exact hhas

lemma enter_of_ok (hok : (s.enter mem header path off).1 = .ok ()) :
    s.enter plenty header path off = s.enter mem header path off := by
  have hensure : ∀ want, (s.ensurePath mem path want).1 = .ok () →
      s.ensurePath plenty path want = s.ensurePath mem path want := by
    intro want hfirst
    simp only [ensurePath] at hfirst ⊢
    rw [ensureParts_of_ok _ _ _ hfirst]
  unfold UstarFileSystem.enter at hok ⊢
  split_ifs at hok ⊢
  · rfl
  cases hkind : header.kind with
  | other => rfl
  | directory =>
    rw [hkind] at hok
    exact hensure _ hok
  | file =>
    rw [hkind] at hok
    dsimp only at hok ⊢
    rw [hensure]
    split at hok
    · cases hok
    · next heq => rw [heq]

lemma enter_plenty (s : UstarFileSystem) (header : TarHeader) (path : Text) (off : ℕ) :
    (s.enter plenty header path off).1 = .ok () := by
  have hensure : ∀ want, (s.ensurePath plenty path want).1 = .ok () :=
    fun want => ensureParts_plenty _ _ _
  unfold UstarFileSystem.enter
  split_ifs
  · rfl
  cases header.kind with
  | other => rfl
  | directory => exact hensure _
  | file =>
    dsimp only
    split
    · next e t heq =>
        have := hensure (header.wantsFile off)
        rw [heq] at this
        cases this
    · rfl

end UstarFileSystem

/-! ## The loop of `parse` -/

namespace Ustar

variable {archive : List UInt8} {mem : ℕ → Bool} {s s' : State}

/-- The header that a turn finds, if it does not end the loop. -/
def headerAt (archive : List UInt8) (offset : ℕ) : Option TarHeader :=
  if offset + BLOCK_SIZE ≤ archive.length ∧ isZeroBlock (field archive offset BLOCK_SIZE) = false ∧
      (TarHeader.ofBlock (field archive offset BLOCK_SIZE)).isUstar then
    some (TarHeader.ofBlock (field archive offset BLOCK_SIZE))
  else none

lemma sized_ofBlock (block : List UInt8) : (TarHeader.ofBlock block).Sized :=
  ⟨List.length_take_le _ _, List.length_take_le _ _⟩

lemma turn_eq (archive : List UInt8) (mem : ℕ → Bool) (s : State) : turn archive mem s =
    match headerAt archive s.offset with
    | none => .finish
    | some header =>
      if header.joined.length < PATH_SIZE then
        match s.filesystem.enter mem header (cleanPath header.joined) (s.offset + BLOCK_SIZE) with
        | (.error e, fs) => .fail (.errno e) fs
        | (.ok _, fs) => .next ⟨s.offset + BLOCK_SIZE + padded header.sizeOf, fs⟩
      else .fail (.storeOutside PATH_SIZE) s.filesystem := by
  unfold turn headerAt
  by_cases hlen : s.offset + BLOCK_SIZE ≤ archive.length
  · simp only [readBytes, hlen, true_and, if_true]
    generalize field archive s.offset BLOCK_SIZE = block
    by_cases hzero : isZeroBlock block = true
    · simp [hzero]
    by_cases hustar : (TarHeader.ofBlock block).isUstar = true
    · rw [if_neg hzero, if_neg (not_not_intro hustar), if_pos ⟨by simpa using hzero, hustar⟩,
        (sized_ofBlock block).path_eq (List.length_replicate ..)]
      dsimp only
      split_ifs <;> rfl
    · simp [hzero, hustar]
  · simp only [hlen, false_and, if_false]

lemma le_padded (size : ℕ) : size ≤ padded size := by
  unfold padded BLOCK_SIZE
  omega

lemma offset_of_next (hnext : turn archive mem s = .next s') :
    s.offset + BLOCK_SIZE ≤ archive.length ∧ s.offset + BLOCK_SIZE ≤ s'.offset := by
  rw [turn_eq] at hnext
  split at hnext
  · cases hnext
  next header hhdr =>
  have hlen : s.offset + BLOCK_SIZE ≤ archive.length := by
    by_contra hlong
    simp [headerAt, hlong] at hhdr
  split_ifs at hnext
  split at hnext
  · cases hnext
  next fs heq =>
  obtain rfl : (⟨s.offset + BLOCK_SIZE + padded header.sizeOf, fs⟩ : State) =
    s' := by simpa using hnext
  exact ⟨hlen, Nat.le_add_right _ _⟩

/-- The loop ends: it goes forward by a block in each turn. -/
lemma parseWithin_isSome {fuel : ℕ} (hfuel : archive.length < s.offset + fuel * BLOCK_SIZE)
    (hpos : 0 < fuel) : (parseWithin archive mem fuel s).isSome := by
  induction fuel generalizing s with
  | zero => exact absurd hpos (Nat.lt_irrefl 0)
  | succ fuel ih =>
    unfold parseWithin
    cases hturn : turn archive mem s with
    | finish => rfl
    | fail why fs => rfl
    | next s' =>
      obtain ⟨hle, hforward⟩ := offset_of_next hturn
      rw [Nat.succ_mul] at hfuel
      refine ih (by omega) ?_
      rcases Nat.eq_zero_or_pos fuel with rfl | hpos
      · omega
      · exact hpos

/-! ## In bounds -/

/-- The states the loop comes to. -/
inductive Reaches (archive : List UInt8) (memory : ℕ → Bool) : State → Prop
  | start : Reaches archive memory ⟨0, .empty⟩
  | step {s s' : State} (hs : Reaches archive memory s) (hturn : turn archive memory s = .next s') :
      Reaches archive memory s'

/-- `parse` ends, with its stores in the buffer and its reads in the archive, and every file it has
made has its data in the archive. -/
def InBounds (archive : List UInt8) (memory : ℕ → Bool) : Prop :=
  ∃ result filesystem, parse archive memory = some (result, filesystem) ∧
    (∀ index, result ≠ .error (.storeOutside index)) ∧
    (∀ offset, result ≠ .error (.readOutside offset)) ∧
    filesystem.Inside archive.length

/-- There is room for the path of the header and its NUL, and if the header makes a file, its data
is there. -/
def HeaderFits (archive : List UInt8) (s : State) : Prop :=
  ∀ header, headerAt archive s.offset = some header → header.joined.length < PATH_SIZE ∧
    (s.filesystem.MakesFile header (cleanPath header.joined) (s.offset + BLOCK_SIZE) →
      s.offset + BLOCK_SIZE + header.sizeOf ≤ archive.length)

lemma turn_plenty (hnext : turn archive mem s = .next s') : turn archive plenty s = .next s' := by
  rw [turn_eq] at hnext ⊢
  split at hnext
  · cases hnext
  next header _ =>
  split_ifs at hnext with hroom
  split at hnext
  · cases hnext
  next fs heq =>
  rw [if_pos hroom, UstarFileSystem.enter_of_ok (by rw [heq]), heq]
  exact hnext

lemma Reaches.of_memory (h : Reaches archive mem s) : Reaches archive plenty s := by
  induction h with
  | start => exact .start
  | step _ hturn ih => exact ih.step (turn_plenty hturn)

lemma parse_isSome (archive : List UInt8) (mem : ℕ → Bool) : (parse archive mem).isSome := by
  refine parseWithin_isSome ?_ (Nat.succ_pos _)
  have := Nat.lt_div_mul_add (a := archive.length) (show 0 < BLOCK_SIZE by decide)
  rw [Nat.succ_mul]
  simpa using this

/-- From a state the loop comes to, it goes on as it would from the start. -/
lemma Reaches.parse_eq (h : Reaches archive mem s) :
    ∃ fuel, parse archive mem = parseWithin archive mem fuel s := by
  induction h with
  | start => exact ⟨_, rfl⟩
  | @step s s' hs hturn ih =>
    obtain ⟨fuel, heq⟩ := ih
    cases fuel with
    | zero => simpa [heq, parseWithin] using parse_isSome archive mem
    | succ fuel =>
      refine ⟨fuel, ?_⟩
      rw [heq, parseWithin, hturn]

/-- While every header fits, the loop keeps the files inside, and ends in no other way than it
should. -/
lemma parseWithin_inBounds (hfits : ∀ s, Reaches archive mem s → HeaderFits archive s) {fuel : ℕ}
    {result : Except UstarStop Unit} {fs : UstarFileSystem} (hs : Reaches archive mem s)
    (hinside : s.filesystem.Inside archive.length)
    (hparse : parseWithin archive mem fuel s = some (result, fs)) :
    (∀ index, result ≠ .error (.storeOutside index)) ∧ (∀ off, result ≠ .error (.readOutside off)) ∧
      fs.Inside archive.length := by
  induction fuel generalizing s with
  | zero => cases hparse
  | succ fuel ih =>
    unfold parseWithin at hparse
    cases hhdr : headerAt archive s.offset with
    | none =>
      simp only [turn_eq, hhdr, Option.some.injEq, Prod.mk.injEq] at hparse
      obtain ⟨rfl, rfl⟩ := hparse
      exact ⟨fun _ h => (by cases h), fun _ h => (by cases h), hinside⟩
    | some header =>
      obtain ⟨hroom, hdata⟩ := hfits s hs header hhdr
      have hinside' : (s.filesystem.enter mem header (cleanPath header.joined)
          (s.offset + BLOCK_SIZE)).2.Inside archive.length := hinside.enter hdata
      have hturn := turn_eq archive mem s
      simp only [hhdr, if_pos hroom] at hturn
      split at hturn
      · next e t heq =>
          rw [heq] at hinside'
          simp only [hturn, Option.some.injEq, Prod.mk.injEq] at hparse
          obtain ⟨rfl, rfl⟩ := hparse
          exact ⟨fun _ h => (by cases h), fun _ h => (by cases h), hinside'⟩
      · next t heq =>
          rw [heq] at hinside'
          simp only [hturn] at hparse
          exact ih (hs.step hturn) hinside' hparse

/-- **`parse` is in bounds exactly where every header fits.**  Of every archive it reads no byte
that is not there, and it ends.  Its stores are in the buffer, and the data of the files in the
archive, if and only if at every header it comes to there is room in the buffer for the path and its
NUL, and the archive has the data of every file that is made. -/
theorem parse_in_bounds_iff (archive : List UInt8) :
    (∀ memory, InBounds archive memory) ↔ ∀ s, Reaches archive plenty s → HeaderFits archive s := by
  constructor
  · intro hbounds s hs header hheader
    obtain ⟨result, filesystem, hparse, hstore, -, hinside⟩ := hbounds plenty
    obtain ⟨fuel, heq⟩ := hs.parse_eq
    rw [hparse] at heq
    cases fuel with
    | zero => cases heq
    | succ fuel =>
    unfold parseWithin at heq
    have hturn := turn_eq archive plenty s
    simp only [hheader] at hturn
    have hroom : header.joined.length < PATH_SIZE := by
      by_contra hfull
      rw [if_neg hfull] at hturn
      simp only [hturn, Option.some.injEq, Prod.mk.injEq] at heq
      exact hstore _ heq.1
    refine ⟨hroom, fun hfile => ?_⟩
    by_contra hlong
    have hok := s.filesystem.enter_plenty header (cleanPath header.joined) (s.offset + BLOCK_SIZE)
    obtain ⟨n, hn, hregular, hdata, hsize⟩ := UstarFileSystem.enter_has hfile hok
    rw [if_pos hroom] at hturn
    split at hturn
    · next e t henter =>
        rw [henter] at hok
        cases hok
    next t henter =>
    rw [henter] at hn
    simp only [hturn] at heq
    -- the data goes beyond the end, so this header is the last
    have hlast : headerAt archive (s.offset + BLOCK_SIZE + padded header.sizeOf) = none := by
      have := le_padded header.sizeOf
      exact if_neg fun h => absurd h.1 (by omega)
    cases fuel with
    | zero => cases heq
    | succ fuel =>
    unfold parseWithin at heq
    simp only [turn_eq, hlast, Option.some.injEq, Prod.mk.injEq] at heq
    obtain ⟨data, hdata', hend⟩ := hinside n (heq.2 ▸ hn) hregular
    rw [hdata, Option.some.injEq] at hdata'
    rw [hsize, ← hdata'] at hend
    exact hlong hend
  · intro hfits memory
    obtain ⟨⟨result, filesystem⟩, hparse⟩ :=
      Option.isSome_iff_exists.mp (parse_isSome archive memory)
    refine ⟨result, filesystem, hparse, ?_⟩
    refine parseWithin_inBounds (fun s hs => hfits s hs.of_memory) .start
      (fun n hn hregular => ?_) hparse
    obtain rfl | ⟨c, hc, -⟩ := has_iff.mp hn
    · cases hregular
    · cases hc

/-- A header, with nothing in the fields that are not read. -/
def block (name mode size : Text) (typeFlag : UInt8) (pathPrefix : Text) : List UInt8 :=
  name.rightpad 100 0 ++ mode.rightpad 8 0 ++ replicate 16 0 ++ size.rightpad 12 0 ++
  replicate 20 0 ++
    [typeFlag] ++ replicate 100 0 ++ USTAR.rightpad 88 0 ++ pathPrefix.rightpad 167 0

/-- An archive with one empty file, whose path fills both fields. -/
def fullPath : List UInt8 := block (replicate 100 0x61) [] [] 0x30 (replicate 155 0x62)

/-- An archive that ends behind the header of a file of one byte. -/
def cutOff : List UInt8 := block [0x61] [] [0x31] 0x30 []

/-- The NUL of the first path is stored behind the buffer, and the byte of the second file is behind
the end of the archive. -/
theorem path_and_data_out_of_bounds :
    (∃ filesystem, parse fullPath plenty = some (.error (.storeOutside 256), filesystem)) ∧
    ∃ filesystem, parse cutOff plenty = some (.ok (), filesystem) ∧
      ¬ filesystem.Inside cutOff.length := by
  constructor
  · have hview : (parse fullPath plenty).map Prod.fst =
      some (.error (.storeOutside 256)) := by decide +kernel
    obtain ⟨⟨result, filesystem⟩, hparse, rfl⟩ := Option.map_eq_some_iff.mp hview
    exact ⟨filesystem, hparse⟩
  · have hview :
      (parse cutOff plenty).map
      (fun r => (r.1, r.2.root.children.map fun c => (c.type, c.data, c.size))) =
        some (.ok (), [(.regular, some 512, 1)]) := by decide +kernel
    obtain ⟨⟨result, filesystem⟩, hparse, heq⟩ := Option.map_eq_some_iff.mp hview
    simp only [Prod.mk.injEq] at heq
    obtain ⟨rfl, hchildren⟩ := heq
    refine ⟨filesystem, hparse, fun hinside => ?_⟩
    obtain ⟨c, hc, hview⟩ := List.map_eq_singleton_iff.mp hchildren
    simp only [Prod.mk.injEq] at hview
    obtain ⟨hregular, hdata, hsize⟩ := hview
    obtain ⟨data, hdata', hend⟩ :=
      hinside c (.down (by rw [hc]; exact List.mem_singleton_self c) (.self c)) hregular
    rw [hdata, Option.some.injEq] at hdata'
    rw [hsize, ← hdata'] at hend
    exact absurd hend (by decide +kernel)

end Ustar

end ShitOs
