import ShitOs.Properties.Paths
import Mathlib.Data.List.Nodup
import Mathlib.Order.WellFounded

/-!
# Directory trees

`WellFormed` says what a tree is, and the rest of the file says once what each operation does to
one.  A change of a reference count is none (`SameTree`), `create` adds a leaf (`Created`), and
`rename` takes an entry from one directory to another, over an entry that may have been there
(`Moved`).
-/

namespace ShitOs
namespace Vfs

variable {s s' : Vfs} {base : Option ℕ} {d dest dir m n x y : ℕ}
  {c fromPath name newName path toPath : Text} {children : List ℕ} {cs : List Text}
  {type : InodeType} {mem : Bool} {e : Errno} {r : Except Errno ℕ} {flags : BitVec 32}

/-! ## Well-formed trees -/

/-- An inode that was made and not destroyed. -/
def Live (s : Vfs) (n : ℕ) : Prop := n < s.next ∧ n ∉ s.destroyed

/-- The inodes form trees, and the table of mounts puts them together. -/
structure WellFormed (s : Vfs) : Prop where
  root : s.Live s.rootInode
  child : ∀ d c, s.Live d → c ∈ (s.inodes d).children → s.Live c ∧ (s.inodes c).parent = some d
  parent : ∀ n d, s.Live n → (s.inodes n).parent = some d → s.Live d ∧ (s.inodes d).isDirectory
  names : ∀ d, s.Live d → ((s.inodes d).children.map fun c => (s.inodes c).name).Nodup
  mount : ∀ mount ∈ s.mounts, s.Live (s.filesystems mount.filesystem).root ∧
    (s.inodes (s.filesystems mount.filesystem).root).parent = none
  covered : ∀ mount ∈ s.mounts, ∀ n, mount.covered = some n → s.Live n
  rooted : ∀ n, s.Live n → Acc (fun d c => (s.inodes c).parent = some d) n

instance (s : Vfs) (n : ℕ) : Decidable (s.Live n) := inferInstanceAs (Decidable (_ ∧ _))

/-- A condition that can be computed: every directory has a smaller number than what is in it. -/
def Numbered (s : Vfs) : Prop :=
  s.Live s.rootInode ∧
  (∀ n < s.next, (∀ c ∈ (s.inodes n).children, s.Live c ∧ (s.inodes c).parent = some n) ∧
    (∀ d ∈ (s.inodes n).parent, d < n ∧ s.Live d ∧ (s.inodes d).isDirectory) ∧
    ((s.inodes n).children.map fun c => (s.inodes c).name).Nodup) ∧
  ∀ mount ∈ s.mounts, (s.Live (s.filesystems mount.filesystem).root ∧
    (s.inodes (s.filesystems mount.filesystem).root).parent = none) ∧
    ∀ n ∈ mount.covered, s.Live n

instance (s : Vfs) : Decidable s.Numbered := inferInstanceAs (Decidable (_ ∧ _))

lemma Numbered.wellFormed (h : s.Numbered) : s.WellFormed := by
  obtain ⟨hroot, hinodes, hmounts⟩ := h
  refine ⟨hroot, fun d c hd => (hinodes d hd.1).1 c, fun n d hn hd => ?_,
    fun d hd => (hinodes d hd.1).2.2, fun m hm => (hmounts m hm).1,
    fun m hm => (hmounts m hm).2, fun n hn => ?_⟩
  · exact ((hinodes n hn.1).2.1 d hd).2
  · induction n using Nat.strong_induction_on with
    | h n ih =>
      refine Acc.intro n fun d hd => ?_
      obtain ⟨hlt, hlive, -⟩ := (hinodes n hn.1).2.1 d hd
      exact ih d hlt hlive

/-- A base directory, if one is given, is there. -/
def LiveBase (s : Vfs) (base : Option ℕ) : Prop := ∀ n ∈ base, s.Live n

lemma followMount_eq (s : Vfs) (n : ℕ) : s.followMount n = n ∨
      ∃ mount ∈ s.mounts, mount.covered = some n ∧
        s.followMount n = (s.filesystems mount.filesystem).root := by
  unfold followMount
  split
  · exact Or.inl rfl
  · next mount hfind =>
      exact Or.inr ⟨mount, List.mem_of_find?_eq_some hfind,
        by simpa using List.find?_some hfind, rfl⟩

lemma WellFormed.followMount_live (h : s.WellFormed) (hn : s.Live n) :
    s.Live (s.followMount n) := by
  obtain heq | ⟨mount, hmem, -, heq⟩ := s.followMount_eq n
  · rwa [heq]
  · rw [heq]
    exact (h.mount mount hmem).1

lemma WellFormed.origin_live (h : s.WellFormed) (hbase : s.LiveBase base) (path : Text) :
    s.Live (s.origin path base) := by
  refine h.followMount_live ?_
  unfold startOf
  split_ifs
  · exact h.root
  · cases base with
    | none => exact h.root
    | some n => exact hbase n rfl

lemma lookup_eq_ok {c : ℕ} (hlook : s.lookup d name = .ok c) :
    (s.inodes d).isDirectory ∧ s.findChild (s.inodes d).children name = some c := by
  unfold lookup at hlook
  split_ifs at hlook with hdir
  split at hlook
  · cases hlook
  · next child hfind => exact ⟨hdir, by simpa [hfind] using hlook⟩

lemma lookup_of_findChild {c : ℕ} (hdir : (s.inodes d).isDirectory)
    (hfind : s.findChild (s.inodes d).children name = some c) : s.lookup d name = .ok c := by
  simp [lookup, hdir, hfind]

lemma findChild_mem {c : ℕ}
    (hfind : s.findChild children name = some c) : c ∈ children ∧ (s.inodes c).name = name :=
  ⟨List.mem_of_find?_eq_some hfind, by simpa using List.find?_some hfind⟩

lemma findChild_congr (hnames : ∀ c ∈ children, (s'.inodes c).name = (s.inodes c).name) :
    s'.findChild children name = s.findChild children name := by
  unfold findChild
  induction children with
  | nil => rfl
  | cons c children ih =>
    have hrest := ih fun c hc => hnames c (List.mem_cons_of_mem _ hc)
    simp only [List.find?_cons, hnames c List.mem_cons_self, hrest]

lemma findChild_erase {c e : ℕ} (hne : e ≠ c)
    (hfind : s.findChild children name = some c) :
    s.findChild (children.erase e) name = some c := by
  unfold findChild at hfind ⊢
  obtain ⟨hname, before, after, rfl, hbefore⟩ := List.find?_eq_some_iff_append.mp hfind
  rw [List.find?_eq_some_iff_append]
  refine ⟨hname, ?_⟩
  by_cases hmem : e ∈ before
  · exact ⟨before.erase e, after, by rw [List.erase_append_left _ hmem],
      fun a ha => hbefore a (List.mem_of_mem_erase ha)⟩
  · refine ⟨before, after.erase e, ?_, hbefore⟩
    rw [List.erase_append_right _ hmem, List.erase_cons_tail (by simpa using Ne.symm hne)]

/-- What one component does: nothing, a step up, or a step down into a child. -/
lemma enter_eq_ok (henter : s.enter x c = .ok y) :
    c = DOT ∧ y = x ∨ c = DOT_DOT ∧ y = (s.inodes x).parent.getD x ∨
      c ≠ DOT ∧ c ≠ DOT_DOT ∧ ∃ child, s.lookup x c = .ok child ∧ y = s.followMount child := by
  unfold enter at henter
  split_ifs at henter with hdot hdots
  · exact Or.inl ⟨hdot, by simpa using henter.symm⟩
  · exact Or.inr (Or.inl ⟨hdots, by simpa using henter.symm⟩)
  · split at henter
    · cases henter
    · next child hlook =>
        exact Or.inr (Or.inr ⟨hdot, hdots, child, hlook, by simpa using henter.symm⟩)

lemma enter_of_name (hdot : c ≠ DOT) (hdots : c ≠ DOT_DOT) {child : ℕ}
    (hlook : s.lookup x c = .ok child) : s.enter x c = .ok (s.followMount child) := by
  simp [enter, hdot, hdots, hlook]

lemma WellFormed.enter_live (h : s.WellFormed) (hx : s.Live x) (henter : s.enter x c = .ok y) :
    s.Live y := by
  obtain ⟨-, rfl⟩ | ⟨-, rfl⟩ | ⟨-, -, child, hlook, rfl⟩ := enter_eq_ok henter
  · exact hx
  · cases hpar : (s.inodes x).parent with
    | none => exact hx
    | some d => exact (h.parent x d hx hpar).1
  · exact h.followMount_live (h.child x child hx (findChild_mem (lookup_eq_ok hlook).2).1).1

/-- A walk goes the same way in another tree, if each of its steps does. -/
lemma walk_transfer {I : List Text → ℕ → Prop}
    (hstep : ∀ c cs x y, I (c :: cs) x → s.enter x c = .ok y → s'.enter x c = .ok y ∧ I cs y)
    (hn : I cs n) (hwalk : s.walk cs n = .ok m) : s'.walk cs n = .ok m := by
  induction cs generalizing n with
  | nil => exact hwalk
  | cons c cs ih =>
    simp only [walk] at hwalk ⊢
    split at hwalk
    · cases hwalk
    · next y henter =>
        obtain ⟨henter', hy⟩ := hstep c cs n y hn henter
        rw [henter']
        exact ih hy hwalk

/-- What every step of a walk keeps holds where the walk ends. -/
lemma walk_invariant {I : ℕ → Prop} (hstep : ∀ c x y, I x → s.enter x c = .ok y → I y)
    (hn : I n) (hwalk : s.walk cs n = .ok m) : I m := by
  induction cs generalizing n with
  | nil =>
    obtain rfl : n = m := by simpa [walk] using hwalk
    exact hn
  | cons c cs ih =>
    simp only [walk] at hwalk
    split at hwalk
    · cases hwalk
    · next y henter => exact ih (hstep c n y hn henter) hwalk

lemma WellFormed.walk_live (h : s.WellFormed) (hn : s.Live n) (hwalk : s.walk cs n = .ok m) :
    s.Live m :=
  walk_invariant (fun _ _ _ hx henter => h.enter_live hx henter) hn hwalk

lemma WellFormed.resolve_live (h : s.WellFormed) (hbase : s.LiveBase base)
    (hres : s.resolve path base = .ok n) : s.Live n :=
  h.walk_live (h.origin_live hbase path) hres

lemma WellFormed.resolveParent_live (h : s.WellFormed) (hbase : s.LiveBase base) {path : Path}
    (hpar : s.resolveParent path.bytes base = .ok (d, name)) : s.Live d :=
  h.walk_live (h.origin_live hbase path.bytes) (resolveParent_eq_ok hpar).1

/-! ## What does not move anything -/

/-- The same file systems in the same places. -/
structure SameMounts (s s' : Vfs) : Prop where
  filesystems : s'.filesystems = s.filesystems
  rootFilesystem : s'.rootFilesystem = s.rootFilesystem
  mounts : s'.mounts = s.mounts

namespace SameMounts

variable (h : SameMounts s s')
include h

lemma rootInode : s'.rootInode = s.rootInode := by
  simp only [Vfs.rootInode, h.filesystems, h.rootFilesystem]

lemma followMount (n : ℕ) : s'.followMount n = s.followMount n := by
  simp only [Vfs.followMount, h.mounts, h.filesystems]

lemma origin (path : Text) (base : Option ℕ) : s'.origin path base = s.origin path base := by
  simp only [Vfs.origin, h.followMount, startOf, h.rootInode]

lemma trans {t : Vfs} (h' : SameMounts s' t) : SameMounts s t :=
  ⟨h'.filesystems.trans h.filesystems, h'.rootFilesystem.trans h.rootFilesystem,
    h'.mounts.trans h.mounts⟩

end SameMounts

/-- The same tree, up to reference counts and marks. -/
structure SameTree (s s' : Vfs) : Prop extends SameMounts s s' where
  filesystem : ∀ n, (s'.inodes n).filesystem = (s.inodes n).filesystem
  type : ∀ n, (s'.inodes n).type = (s.inodes n).type
  name : ∀ n, (s'.inodes n).name = (s.inodes n).name
  parent : ∀ n, (s'.inodes n).parent = (s.inodes n).parent
  children : ∀ n, (s'.inodes n).children = (s.inodes n).children

lemma SameTree.resolve (h : SameTree s s') (path : Text) (base : Option ℕ) :
    s'.resolve path base = s.resolve path base := by
  have hlook : ∀ x c, s'.lookup x c = s.lookup x c := fun x c => by
    have hdir : (s'.inodes x).isDirectory = (s.inodes x).isDirectory := by
      simp only [Inode.isDirectory, h.type]
    simp only [lookup, findChild, hdir, h.name, h.children]
  have henter : ∀ x c, s'.enter x c = s.enter x c := fun x c => by
    simp only [enter, hlook, h.parent, h.followMount]
  have hwalk : ∀ cs x, s'.walk cs x = s.walk cs x := by
    intro cs
    induction cs with
    | nil => exact fun x => rfl
    | cons c cs ih =>
      intro x
      simp only [walk, henter, ih]
  simp only [Vfs.resolve, hwalk, h.followMount, startOf, h.rootInode]

@[refl] lemma SameTree.refl (s : Vfs) : SameTree s s :=
  ⟨⟨rfl, rfl, rfl⟩, fun _ => rfl, fun _ => rfl, fun _ => rfl, fun _ => rfl, fun _ => rfl⟩

lemma SameTree.trans {t : Vfs} (h : SameTree s t) (h' : SameTree t s') : SameTree s s' where
  filesystem n := (h'.filesystem n).trans (h.filesystem n)
  type n := (h'.type n).trans (h.type n)
  name n := (h'.name n).trans (h.name n)
  parent n := (h'.parent n).trans (h.parent n)
  children n := (h'.children n).trans (h.children n)
  toSameMounts := h.toSameMounts.trans h'.toSameMounts

lemma inodes_set (s : Vfs) (n m : ℕ) (inode : Inode) :
    (s.set n inode).inodes m = if m = n then inode else s.inodes m := by
  by_cases hm : m = n <;> simp [set, hm]

lemma sameTree_set (s : Vfs) (n count : ℕ) :
    SameTree s (s.set n { s.inodes n with referenceCount := count }) := by
  refine ⟨⟨rfl, rfl, rfl⟩, ?_, ?_, ?_, ?_, ?_⟩
  all_goals
    intro m
    rw [inodes_set]
    split_ifs with hm
    · rw [hm]
    · rfl

lemma sameTree_unrefWithin (depth : ℕ) (s : Vfs) (n : ℕ) : SameTree s (unrefWithin depth s n) := by
  induction depth generalizing s n with
  | zero => exact SameTree.refl s
  | succ depth ih =>
    have hfold : ∀ (ns : List ℕ) (t : Vfs), SameTree t (ns.foldl (unrefWithin depth) t) := by
      intro ns
      induction ns with
      | nil => exact fun t => SameTree.refl t
      | cons m ns ihns => exact fun t => (ih t m).trans (ihns _)
    unfold unrefWithin
    dsimp only
    have hset := sameTree_set s n ((s.inodes n).referenceCount - 1)
    split_ifs
    · have hgone : SameTree s { s.set n { s.inodes n with
          referenceCount := (s.inodes n).referenceCount - 1 } with
            destroyed := n :: s.destroyed } := { hset with }
      exact hgone.trans (hfold _ _)
    · exact hset

/-! ## Creating a name -/

/-- What `create` has done when it succeeds. -/
structure Created (s : Vfs) (d : ℕ) (name : Text) (type : InodeType) (s' : Vfs) : Prop
    extends SameMounts s s' where
  kind : s.kindOf d = .tmpfs
  isDirectory : (s.inodes d).isDirectory
  short : name.length < FILENAME_MAX_LENGTH
  absent : s.findChild (s.inodes d).children name = none
  child : s'.inodes s.next = s.newInode d name type
  directory : s'.inodes d =
    { s.inodes d with children := (s.inodes d).children ++ [s.next] }
  other : ∀ n, n ≠ d → n ≠ s.next → s'.inodes n = s.inodes n
  next : s'.next = s.next + 1
  destroyed : s'.destroyed = s.destroyed

lemma create_eq_ok (hd : d < s.next) (hcreate : s.create d name type mem = (.ok m, s')) :
    m = s.next ∧ Created s d name type s' := by
  have hne : d ≠ s.next := Nat.ne_of_lt hd
  unfold create at hcreate
  split_ifs at hcreate with hkind hdir hlong hexists hmemory
  all_goals simp only [Prod.mk.injEq, reduceCtorEq, false_and, Except.ok.injEq] at hcreate
  obtain ⟨rfl, rfl⟩ := hcreate
  refine ⟨rfl, ⟨rfl, rfl, rfl⟩, by simpa using hkind, by simpa using hdir, by omega,
    by simpa using hexists, ?_, ?_, fun n hn hnext => ?_, rfl, rfl⟩
  · simp [setChildren, set, Ne.symm hne]
  · simp [setChildren, set, hne]
  · simp [setChildren, set, hn, hnext]

namespace Created

variable {d : ℕ} {name : Text} {type : InodeType}

section

variable (h : Created s d name type s')
include h

lemma old {n : ℕ} (hn : n < s.next) : s'.inodes n = { s.inodes n with
      children := if n = d then (s.inodes d).children ++ [s.next] else (s.inodes n).children } := by
  by_cases hnd : n = d
  · rw [hnd, h.directory, if_pos rfl]
  · rw [h.other n hnd (Nat.ne_of_lt hn), if_neg hnd]

/-- A name that was there is still the first of its name. -/
lemma findChild (hwf : s.WellFormed) {x c : ℕ} (hx : s.Live x)
    {n : Text} (hfind : s.findChild (s.inodes x).children n = some c) :
    s'.findChild (s'.inodes x).children n = some c := by
  have hold : s'.findChild (s.inodes x).children n = some c := by
    rw [← hfind]
    exact findChild_congr fun c hc => by rw [h.old (hwf.child x c hx hc).1.1]
  rw [h.old hx.1]
  split_ifs with hxd
  · subst hxd
    unfold Vfs.findChild at hold ⊢
    rw [List.find?_append, hold]
    rfl
  · exact hold

/-- Creating a name does not change where a path that could be walked leads to. -/
lemma walk (hwf : s.WellFormed) {cs : List Text} {n m : ℕ}
    (hn : s.Live n) (hwalk : s.walk cs n = .ok m) : s'.walk cs n = .ok m := by
  refine walk_transfer (I := fun _ x => s.Live x) (fun c cs x y hx henter => ?_) hn hwalk
  refine ⟨?_, hwf.enter_live hx henter⟩
  obtain ⟨rfl, rfl⟩ | ⟨rfl, rfl⟩ | ⟨hdot, hdots, child, hlook, rfl⟩ := enter_eq_ok henter
  · rfl
  · have hpar : (s'.inodes x).parent = (s.inodes x).parent := by rw [h.old hx.1]
    simp [enter, hpar, show DOT_DOT ≠ DOT by decide]
  · obtain ⟨hdir, hfind⟩ := lookup_eq_ok hlook
    have hdir' : (s'.inodes x).isDirectory := by
      rw [h.old hx.1]
      exact hdir
    rw [enter_of_name hdot hdots (lookup_of_findChild hdir' (h.findChild hwf hx hfind)),
      h.followMount]

end

end Created

/-! ## Moving a name -/

/-- The children `n` keeps in a move. -/
def kept (s : Vfs) (directory source destination : ℕ) (replaced : Option ℕ) (n : ℕ) : List ℕ :=
  let rest := match replaced with
    | none => (s.inodes n).children
    | some old =>
      if n = destination then (s.inodes n).children.erase old else (s.inodes n).children
  if n = directory then rest.erase source else rest

lemma inodes_setChildren (s : Vfs) (d n : ℕ) (children : List ℕ) :
    (s.setChildren d children).inodes n =
      { s.inodes n with children := if n = d then children else (s.inodes n).children } := by
  by_cases hn : n = d <;> simp [setChildren, inodes_set, hn]

lemma inodes_removeChild (s : Vfs) (d c n : ℕ) : (s.removeChild d c).inodes n = { s.inodes n with
      children := if n = d then (s.inodes n).children.erase c else (s.inodes n).children } := by
  by_cases hn : n = d <;> simp [removeChild, inodes_setChildren, hn]

lemma inodes_adopt (s : Vfs) (child parent n : ℕ) (name : Text) :
    (s.adopt child name parent).inodes n = { s.inodes n with
      name := if n = child then cut name else (s.inodes n).name
      parent := if n = child then some parent else (s.inodes n).parent } := by
  by_cases hn : n = child <;> simp [adopt, inodes_set, cut, hn]

lemma inodes_relink (s : Vfs) (dir src dest : ℕ) (newName : Text) (repl : Option ℕ) (n : ℕ) :
    (s.relink dir src dest newName repl).inodes n = { s.inodes n with
      name := if n = src then cut newName else (s.inodes n).name
      parent := if n = src then some dest else (s.inodes n).parent
      children := s.kept dir src dest repl n ++
        if n = dest then [src] else [] } := by
  unfold relink kept
  cases repl <;> simp only [inodes_setChildren, inodes_adopt, inodes_removeChild] <;>
    by_cases hn : n = dest <;> simp [hn]

/-- What `rename` has found out when it succeeds: the entry it was given, the place it was given,
and that the one may go to the other. -/
structure Renaming (s : Vfs) (fromPath toPath : Text) (base : Option ℕ)
    (directory source destination : ℕ) (newName : Text) : Prop where
  fromParent : ∃ name, s.resolveParent fromPath base = .ok (directory, name) ∧
    s.lookup directory name = .ok source
  toParent : s.resolveParent toPath base = .ok (destination, newName)
  sameFilesystem : (s.inodes directory).filesystem = (s.inodes destination).filesystem
  kind : s.kindOf directory = .tmpfs
  notDots : newName ≠ DOT ∧ newName ≠ DOT_DOT
  outside : (s.inodes source).isDirectory → s.isWithin source s.next (some destination) = false
  isDirectory : (s.inodes destination).isDirectory

/-- The name is the entry's already. -/
def Renaming.Stays (s : Vfs) (source destination : ℕ) (newName : Text) (s' : Vfs) : Prop :=
  s.findChild (s.inodes destination).children newName = some source ∧ s' = s

/-- The entry is moved, over what had the name before. -/
def Renaming.Moves (s : Vfs) (directory source destination : ℕ) (newName : Text)
    (replaced : Option ℕ) (s' : Vfs) : Prop :=
  s.findChild (s.inodes destination).children newName = replaced ∧ replaced ≠ some source ∧
    (∀ old ∈ replaced, (s.inodes old).isDirectory = (s.inodes source).isDirectory ∧
      ((s.inodes old).isDirectory → (s.inodes old).children = [])) ∧
    s' = s.move directory source destination newName replaced

lemma tmpfsRename_eq_ok (hren : s.tmpfsRename dir name dest newName mem = (.ok (), s')) :
    (s.inodes dest).isDirectory ∧ ∃ src, s.findChild (s.inodes dir).children name = some src ∧
        (Renaming.Stays s src dest newName s' ∨
          ∃ repl, Renaming.Moves s dir src dest newName repl s') := by
  unfold tmpfsRename at hren
  split at hren
  · simp at hren
  next hdirectory =>
  split at hren
  · simp at hren
  split at hren
  · simp at hren
  next src hsrc =>
  refine ⟨by simp at hdirectory; exact hdirectory.2, src, hsrc, ?_⟩
  dsimp only at hren
  split at hren
  · next hsame =>
      obtain ⟨rfl, rfl⟩ := hsame
      exact Or.inl ⟨hsrc, by simpa using hren.symm⟩
  split at hren
  · next hown => exact Or.inl ⟨hown, by simpa using hren.symm⟩
  next hother =>
  refine Or.inr ⟨_, rfl, hother, ?_⟩
  split at hren
  · next hnone =>
      split at hren
      · rw [hnone]
        exact ⟨fun old hold => by simp at hold, by simpa using hren.symm⟩
      · simp at hren
  next old hold =>
  split at hren
  · simp at hren
  next htypes =>
  split at hren
  · simp at hren
  next hempty =>
  split at hren
  · rw [hold]
    refine ⟨fun x hx => ?_, by simpa using hren.symm⟩
    obtain rfl : old = x := by simpa using hx
    exact ⟨by simpa using htypes, fun hdir => by simpa [hdir] using hempty⟩
  · simp at hren

lemma rename_eq_ok (hren : s.rename fromPath toPath base mem = (.ok (), s')) :
    ∃ dir src dest newName, Renaming s fromPath toPath base dir src dest newName ∧
        (Renaming.Stays s src dest newName s' ∨
          ∃ repl, Renaming.Moves s dir src dest newName repl s') := by
  unfold rename at hren
  split at hren
  · simp at hren
  next dir name hfrom =>
  split at hren
  · simp at hren
  next dest newName hto =>
  split_ifs at hren with hfilesystem hreadOnly hdots
  · simp at hren
  · simp at hren
  · simp at hren
  split at hren
  · simp at hren
  next src hlook =>
  split_ifs at hren with hwithin
  · simp at hren
  unfold renameEntry at hren
  split_ifs at hren with hkind
  · simp at hren
  obtain ⟨hdirectory, source', hsrc, hends⟩ := tmpfsRename_eq_ok hren
  obtain rfl : source' = src := by
    have := (lookup_eq_ok hlook).2
    simpa [hsrc] using this
  refine ⟨dir, source', dest, newName, ?_, hends⟩
  simp only [not_or] at hdots
  exact ⟨⟨name, hfrom, hlook⟩, hto, by simpa using hfilesystem, by simpa using hkind,
    hdots.2.2, fun hdir => by simpa [hdir] using hwithin, hdirectory⟩

/-- What a move has done to the tree. -/
structure Moved (s : Vfs) (directory source destination : ℕ) (newName : Text)
    (replaced : Option ℕ) (s' : Vfs) : Prop extends SameMounts s s' where
  type : ∀ n, (s'.inodes n).type = (s.inodes n).type
  name : ∀ n, (s'.inodes n).name = if n = source then cut newName else (s.inodes n).name
  parent : ∀ n, (s'.inodes n).parent = if replaced = some n then none
    else if n = source then some destination else (s.inodes n).parent
  children : ∀ n, (s'.inodes n).children = s.kept directory source destination replaced n ++
    if n = destination then [source] else []
  filesystem : ∀ n, (s'.inodes n).filesystem = (s.inodes n).filesystem

/-- What it has done before the replaced entry, if there is one, gives its reference up. -/
structure Relinked (s : Vfs) (directory source destination : ℕ) (newName : Text)
    (replaced : Option ℕ) (t : Vfs) : Prop
    extends Moved s directory source destination newName replaced t where
  referenceCount : ∀ n, (t.inodes n).referenceCount = (s.inodes n).referenceCount
  unlinked : ∀ n, (t.inodes n).unlinked = if replaced = some n then true
    else (s.inodes n).unlinked
  next : t.next = s.next
  destroyed : t.destroyed = s.destroyed

lemma inodes_markUnlinked (s : Vfs) (c n : ℕ) : (s.markUnlinked c).inodes n = { s.inodes n with
      unlinked := if n = c then true else (s.inodes n).unlinked
      parent := if n = c then none else (s.inodes n).parent } := by
  by_cases hn : n = c <;> simp [markUnlinked, inodes_set, hn]

lemma move_eq (s : Vfs) (dir src dest : ℕ) (newName : Text) (repl : Option ℕ) :
    ∃ t, Relinked s dir src dest newName repl t ∧
      s.move dir src dest newName repl =
        match repl with
        | none => t
        | some old => t.unref old := by
  have hinodes := s.inodes_relink dir src dest newName repl
  cases repl with
  | none =>
    refine ⟨s.relink dir src dest newName none,
      ⟨⟨⟨rfl, rfl, rfl⟩, fun n => ?_, fun n => ?_, fun n => ?_, fun n => ?_, fun n => ?_⟩,
        fun n => ?_, fun n => ?_, rfl, rfl⟩, rfl⟩
    all_goals simp [hinodes]
  | some old =>
    refine ⟨(s.relink dir src dest newName (some old)).markUnlinked old,
      ⟨⟨⟨rfl, rfl, rfl⟩, fun n => ?_, fun n => ?_, fun n => ?_, fun n => ?_, fun n => ?_⟩,
        fun n => ?_, fun n => ?_, rfl, rfl⟩, rfl⟩
    all_goals simp [inodes_markUnlinked, hinodes, eq_comm]

lemma moved_move (s : Vfs) (dir src dest : ℕ) (newName : Text)
    (repl : Option ℕ) : Moved s dir src dest newName repl
      (s.move dir src dest newName repl) := by
  obtain ⟨t, ht, heq⟩ := move_eq s dir src dest newName repl
  rw [heq]
  cases repl with
  | none => exact ht.toMoved
  | some old =>
    have hsame := sameTree_unrefWithin t.next t old
    exact ⟨ht.toSameMounts.trans hsame.toSameMounts, fun n => (hsame.type n).trans (ht.type n),
      fun n => (hsame.name n).trans (ht.name n), fun n => (hsame.parent n).trans (ht.parent n),
      fun n => (hsame.children n).trans (ht.children n),
      fun n => (hsame.filesystem n).trans (ht.filesystem n)⟩

namespace Moved

variable {dir src dest : ℕ} {newName : Text} {repl : Option ℕ} {c n x : ℕ}
  {name : Text}

section

variable (h : Moved s dir src dest newName repl s')
include h

lemma isDirectory (n : ℕ) : (s'.inodes n).isDirectory = (s.inodes n).isDirectory := by
  simp only [Inode.isDirectory, h.type]

end

/-- What holds of the children, and goes on to hold when one of the two entries is taken out, holds
of those that are kept. -/
lemma kept_induction {P : List ℕ → Prop} (h : P (s.inodes n).children)
    (hsrc : ∀ l, P l → P (l.erase src)) (hold : ∀ old l, repl = some old → P l → P (l.erase old)) :
    P (s.kept dir src dest repl n) := by
  unfold kept
  cases repl with
  | none => split_ifs <;> simp [h, hsrc]
  | some old => split_ifs <;> simp [h, hsrc, hold]

lemma kept_sublist (n : ℕ) : (s.kept dir src dest repl n).Sublist (s.inodes n).children :=
  kept_induction (P := (List.Sublist · _)) (List.Sublist.refl _) (fun _ => List.erase_sublist.trans)
    fun _ _ _ => List.erase_sublist.trans

lemma mem_kept_iff (hnodup : (s.inodes n).children.Nodup) : c ∈ s.kept dir src dest repl n ↔
      c ∈ (s.inodes n).children ∧ (n = dir → c ≠ src) ∧
        (n = dest → repl ≠ some c) := by
  unfold kept
  generalize (s.inodes n).children = children at hnodup ⊢
  by_cases hfrom : n = dir <;> by_cases hto : n = dest <;> cases repl <;>
    simp only [hfrom, hto, if_true, if_false, hnodup.mem_erase_iff] <;>
    grind

lemma findChild_kept (hsrc : src ≠ c) (hrepl : repl ≠ some c)
    (hfind : s.findChild (s.inodes x).children name = some c) :
    s.findChild (s.kept dir src dest repl x) name = some c :=
  kept_induction (P := (s.findChild · name = some c)) hfind (fun _ => findChild_erase hsrc)
    fun _ _ hr => findChild_erase fun he => hrepl (he ▸ hr)

/-- The first of its name among the children stays the first of its name, if it is neither the
entry that is moved nor the one it replaces. -/
lemma findChild (h : Moved s dir src dest newName repl s')
    (hsrc : src ≠ c) (hrepl : repl ≠ some c) (hnodup : (s.inodes x).children.Nodup)
    (hleaves : src ∈ (s.inodes x).children → x = dir)
    (hfind : s.findChild (s.inodes x).children name = some c) :
    s'.findChild (s'.inodes x).children name = some c := by
  have hold : s'.findChild (s.kept dir src dest repl x) name = some c := by
    have hkept : s.findChild (s.kept dir src dest repl x) name = some c :=
      findChild_kept hsrc hrepl hfind
    rw [← hkept]
    refine findChild_congr fun n hn => ?_
    obtain ⟨hmem, hsrc, -⟩ := (mem_kept_iff hnodup).mp hn
    have hne : n ≠ src := fun he => hsrc (hleaves (he ▸ hmem)) he
    rw [h.name, if_neg hne]
  rw [h.children]
  unfold Vfs.findChild at hold ⊢
  rw [List.find?_append, hold]
  rfl

end Moved

lemma WellFormed.nodup (h : s.WellFormed) (hd : s.Live d) : (s.inodes d).children.Nodup :=
  List.Nodup.of_map _ (h.names d hd)

lemma WellFormed.directory_eq (h : s.WellFormed) {c e : ℕ} (hd : s.Live d) (he : s.Live e)
    (hcd : c ∈ (s.inodes d).children) (hce : c ∈ (s.inodes e).children) : d = e := by
  have := (h.child d c hd hcd).2.symm.trans (h.child e c he hce).2
  simpa using this

namespace Moved

variable {dir src dest : ℕ} {newName : Text} {repl : Option ℕ}

/-- Nothing the destination keeps has the new name. -/
lemma findChild_kept_destination (h : Moved s dir src dest newName repl s')
    (hwf : s.WellFormed) (hdir : s.Live dir) (hdest : s.Live dest)
    (hmem : src ∈ (s.inodes dir).children)
    (hrepl : s.findChild (s.inodes dest).children newName = repl) :
    s'.findChild (s.kept dir src dest repl dest) newName = none := by
  unfold Vfs.findChild
  rw [List.find?_eq_none]
  intro c hc hname
  obtain ⟨hc', hsrc, hold⟩ := (mem_kept_iff (hwf.nodup hdest)).mp hc
  have hne : c ≠ src := fun he =>
    hsrc (hwf.directory_eq hdest hdir (he ▸ hc') hmem) he
  rw [h.name, if_neg hne] at hname
  have hname : (s.inodes c).name = newName := by simpa using hname
  cases repl with
  | none =>
    exact List.find?_eq_none.mp hrepl c hc' (by simpa using hname)
  | some old =>
    obtain ⟨hmem', hname'⟩ := findChild_mem hrepl
    obtain rfl := List.inj_on_of_nodup_map (hwf.names dest hdest) hc' hmem'
      (hname.trans hname'.symm)
    exact hold rfl rfl

lemma findChild_destination (h : Moved s dir src dest newName repl s')
    (hwf : s.WellFormed) (hdir : s.Live dir) (hdest : s.Live dest)
    (hmem : src ∈ (s.inodes dir).children)
    (hrepl : s.findChild (s.inodes dest).children newName = repl) (hshort : cut newName = newName) :
    s'.findChild (s'.inodes dest).children newName = some src := by
  have hnot := h.findChild_kept_destination hwf hdir hdest hmem hrepl
  rw [h.children, if_pos rfl]
  unfold Vfs.findChild at hnot ⊢
  rw [List.find?_append, hnot]
  simp [h.name, hshort]

end Moved

/-! ## What the calls come down to

Each call either fails and changes nothing, or ends in one operation on a directory.  The exception
is an `open` that creates a file and then has no memory for the description. -/

lemma gives_up {α : Type} {r : Except Errno α} (h : (.error e, s) = (r, s')) :
    ∃ e, r = .error e ∧ s' = s := by
  cases h
  exact ⟨e, rfl, rfl⟩

lemma create_cases (hd : d < s.next) (hcreate : s.create d name type mem = (r, s')) :
    (∃ e, r = .error e ∧ s' = s) ∨ r = .ok s.next ∧ Created s d name type s' := by
  cases r with
  | ok m =>
    obtain ⟨rfl, hnew⟩ := create_eq_ok hd hcreate
    exact Or.inr ⟨rfl, hnew⟩
  | error e =>
    unfold create at hcreate
    split_ifs at hcreate
    all_goals simp only [Prod.mk.injEq, reduceCtorEq, false_and, Except.error.injEq] at hcreate
    all_goals exact Or.inl ⟨e, rfl, hcreate.2.symm⟩

lemma makeNode_cases (hmake : s.makeNode type path base mem = (r, s')) :
    (∃ e, r = .error e ∧ s' = s) ∨
      ∃ e d name, s.resolve path base = .error e ∧ s.resolveParent path base = .ok (d, name) ∧
        s.create d name type mem = (r, s') := by
  unfold makeNode at hmake
  split at hmake
  · exact Or.inl (gives_up hmake)
  next e hfail =>
  split at hmake
  · exact Or.inl (gives_up hmake)
  next d name hpar =>
  split at hmake
  · exact Or.inl (gives_up hmake)
  · exact Or.inr ⟨e, d, name, hfail, hpar, hmake⟩

lemma findOrCreate_cases {made : Bool} (hfind : s.findOrCreate path flags base made = (r, s')) :
    (∃ e, r = .error e ∧ s' = s) ∨ (∃ n, r = .ok n ∧ s' = s ∧ s.resolve path base = .ok n) ∨
      ∃ d name, s.resolve path base = .error .ENOENT ∧ flags &&& O_CREAT ≠ 0 ∧
        s.resolveParent path base = .ok (d, name) ∧ s.create d name .regular made = (r, s') := by
  unfold findOrCreate at hfind
  split at hfind
  · next e hfail =>
    split at hfind
    · exact Or.inl (gives_up hfind)
    next hcreates =>
    split at hfind
    · exact Or.inl (gives_up hfind)
    next d name hpar =>
    split at hfind
    · exact Or.inl (gives_up hfind)
    obtain ⟨hmissing, hflag⟩ := not_or.mp hcreates
    rw [not_not] at hmissing
    exact Or.inr (Or.inr ⟨d, name, hmissing ▸ hfail, hflag, hpar, hfind⟩)
  · next n hfound =>
    split at hfind
    · exact Or.inl (gives_up hfind)
    · obtain ⟨rfl, rfl⟩ := Prod.mk.inj hfind
      exact Or.inr (Or.inl ⟨n, rfl, rfl, hfound⟩)

lemma openPath_eq_ok {made : Bool} {n : ℕ}
    (hopen : s.openPath path flags base made mem = (.ok n, s')) :
    ∃ t, s.findOrCreate path flags base made = (.ok n, t) ∧ s' = t.ref n := by
  unfold openPath at hopen
  split at hopen
  · cases hopen
  next m t hfind =>
  split at hopen
  · cases hopen
  split at hopen <;> cases hopen
  exact ⟨t, hfind, rfl⟩

lemma unlink_cases {r : Except Errno Unit} (hunlink : s.unlink d name = (r, s')) :
    s' = s ∨ ∃ child, r = .ok () ∧ s.findChild (s.inodes d).children name = some child ∧
      ((s.inodes child).isDirectory → (s.inodes child).children = []) ∧
      s' = ((s.removeChild d child).markUnlinked child).unref child := by
  unfold unlink at hunlink
  split at hunlink
  · exact Or.inl (Prod.mk.inj hunlink).2.symm
  split at hunlink
  · exact Or.inl (Prod.mk.inj hunlink).2.symm
  split at hunlink
  · exact Or.inl (Prod.mk.inj hunlink).2.symm
  next child hfind =>
  split at hunlink
  · exact Or.inl (Prod.mk.inj hunlink).2.symm
  next hempty =>
  cases hunlink
  exact Or.inr ⟨child, rfl, hfind, fun hdir => by simpa [hdir] using hempty, rfl⟩

lemma sysUnlinkCommon_cases {mustBeDirectory : Bool} {r : Except Errno Unit}
    (hunlink : s.sysUnlinkCommon path base mustBeDirectory = (r, s')) :
    s' = s ∨ ∃ d name, s.resolveParent path base = .ok (d, name) ∧ s.unlink d name = (r, s') := by
  unfold sysUnlinkCommon at hunlink
  split at hunlink
  · exact Or.inl (Prod.mk.inj hunlink).2.symm
  split at hunlink
  · exact Or.inl (Prod.mk.inj hunlink).2.symm
  split at hunlink
  · exact Or.inl (Prod.mk.inj hunlink).2.symm
  split at hunlink
  · exact Or.inl (Prod.mk.inj hunlink).2.symm
  next d name hpar =>
  split at hunlink
  · exact Or.inl (Prod.mk.inj hunlink).2.symm
  · exact Or.inr ⟨d, name, hpar, hunlink⟩

lemma tmpfsRename_eq_error (hren : s.tmpfsRename dir name dest newName mem = (.error e, s')) :
    s' = s := by
  unfold tmpfsRename at hren
  grind

lemma rename_eq_error (hren : s.rename fromPath toPath base mem = (.error e, s')) : s' = s := by
  unfold rename renameEntry at hren
  grind [tmpfsRename_eq_error]

end Vfs
end ShitOs
