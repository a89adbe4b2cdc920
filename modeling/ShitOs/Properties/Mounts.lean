import ShitOs.Framework.Transition
import ShitOs.Properties.DirectoryTree
import ShitOs.Properties.Names
import ShitOs.Construction.Mounts

/-!
# Down through the mounts and up again

`resolve` crosses a mount when it comes down upon the directory that is covered, `absolute_path_of`
when it has come up to a root that has no parent.  The two are inverse to each other while every
filesystem is mounted in one place, and on a directory that has a place itself: `Assembled` says so,
and an inode is `Visible` if a walk of names leads down to it from the root.  What `resolve` returns
is visible (`Visible.walk`), and from a visible inode the loop of `absolute_path_of` goes back over
the names of that walk (`Assembled.climb_eq`).

A mount on a root breaks it: `follow_mount` looks once into the table, so a filesystem mounted over
another one is never seen, and one on `/` has the empty path.
-/

namespace ShitOs

namespace Vfs

variable {s s' : Vfs} {fs n : ℕ} {path : Text} {call : Text × ℕ}

/-! ## Trees that are put together properly -/

/-- Every filesystem is mounted in one place, and what is covered by one is an entry of a directory.
-/
structure Assembled (s : Vfs) : Prop where
  wf : s.WellFormed
  root : ⟨none, s.rootFilesystem⟩ ∈ s.mounts
  placed : ∀ m ∈ s.mounts, ∀ n, m.covered = some n → (s.inodes n).parent ≠ none
  once : ∀ m ∈ s.mounts, ∀ m' ∈ s.mounts, s.rootOf m.filesystem = s.rootOf m'.filesystem →
    m.covered = m'.covered
  roots : ∀ f, s.Live (s.rootOf f) ∧ (s.inodes (s.rootOf f)).parent = none

/-- Only the root filesystem is mounted. -/
structure Ready (s : Vfs) : Prop where
  wf : s.WellFormed
  mounts : s.mounts = [⟨none, s.rootFilesystem⟩]
  roots : ∀ f, s.Live (s.rootOf f) ∧ (s.inodes (s.rootOf f)).parent = none

lemma Ready.assembled (h : s.Ready) : s.Assembled where
  wf := h.wf
  root := by simp [h.mounts]
  placed m hm n hn := by
    obtain rfl : m = ⟨none, s.rootFilesystem⟩ := by simpa [h.mounts] using hm
    cases hn
  once m hm m' hm' _ := by
    simp only [h.mounts, List.mem_singleton] at hm hm'
    rw [hm, hm']
  roots := h.roots

/-- An inode that a walk of names leads to from the root. -/
def Visible (s : Vfs) (n : ℕ) : Prop := ∃ cs, (∀ c ∈ cs, IsName c) ∧ s.walk cs s.rootInode = .ok n

lemma visible_root (s : Vfs) : s.Visible s.rootInode := ⟨[], by simp, rfl⟩

namespace Assembled

lemma followMount_of_orphan (h : s.Assembled) {n : ℕ} (hn : (s.inodes n).parent = none) :
    s.followMount n = n := by
  obtain heq | ⟨m, hm, hcov, -⟩ := s.followMount_eq n
  · exact heq
  · exact absurd hn (h.placed m hm n hcov)

/-- Where the loop of `absolute_path_of` goes from what was found under a name. -/
lemma above_followMount (h : s.Assembled) {d child : ℕ} (hd : s.Live d)
    (hchild : child ∈ (s.inodes d).children) :
    s.followMount child ≠ s.rootInode ∧ s.above (s.followMount child) = .inr (child, d) ∧
      s.followMount (s.followMount child) = s.followMount child := by
  have hpar := (h.wf.child d child hd hchild).2
  have hroot := (h.roots s.rootFilesystem).2
  obtain heq | ⟨m, hm, hcov, heq⟩ := s.followMount_eq child
  · refine ⟨fun he => ?_, by rw [heq, above, hpar], by rw [heq, heq]⟩
    rw [heq] at he
    rw [he, rootInode, ← rootOf, hroot] at hpar
    cases hpar
  · have horphan := (h.roots m.filesystem).2
    rw [heq, ← rootOf]
    refine ⟨fun he => ?_, ?_, h.followMount_of_orphan horphan⟩
    · have := h.once m hm _ h.root he
      simp [hcov] at this
    -- the table has one place for this root
    have hpoint : s.mountPointOf (s.rootOf m.filesystem) = some child := by
      unfold mountPointOf
      obtain ⟨m', hfind⟩ : ∃ m', (s.mounts.find? fun mount =>
          mount.covered.isSome ∧ s.rootOf mount.filesystem = s.rootOf m.filesystem) = some m' :=
        Option.isSome_iff_exists.mp (List.find?_isSome.mpr ⟨m, hm, by simp [hcov]⟩)
      have hsame : s.rootOf m'.filesystem = s.rootOf m.filesystem := by
        have := List.find?_some hfind
        simp only [decide_eq_true_eq] at this
        exact this.2
      simp only [hfind, Option.bind_some]
      rw [h.once m' (List.mem_of_find?_eq_some hfind) m hm hsame, hcov]
    have hne : child ≠ s.rootInode := by
      rintro rfl
      rw [rootInode, ← rootOf, hroot] at hpar
      cases hpar
    simp only [above, horphan, hpoint, if_neg hne, hpar]

lemma walk_concat_eq (h : s.Assembled) {cs : List Text} {c : Text} {n : ℕ} (hc : IsName c)
    (hwalk : s.walk (cs ++ [c]) s.rootInode = .ok n) :
    ∃ d child, s.walk cs s.rootInode = .ok d ∧ s.Live d ∧ s.lookup d c = .ok child ∧
      child ∈ (s.inodes d).children ∧ (s.inodes child).name = c ∧ n = s.followMount child := by
  obtain ⟨d, hd, henter⟩ := walk_concat.mp hwalk
  obtain ⟨child, hlook, rfl⟩ := enter_eq_ok_of_downward hc.2 henter
  obtain ⟨hmem, hname⟩ := findChild_mem (lookup_eq_ok hlook).2
  exact ⟨d, child, hd, h.wf.walk_live h.wf.root hd, hlook, hmem, hname, rfl⟩

end Assembled

lemma nameIn_eq_some {d : ℕ} {name : Text} (hname : s.nameIn d n = some name) :
    (s.inodes n).name = name := by
  unfold nameIn at hname
  split_ifs at hname
  obtain ⟨index, -, hentry⟩ := List.exists_of_findSome?_eq_some hname
  obtain ⟨entry, -, hlook⟩ := Option.bind_eq_some_iff.mp hentry
  split_ifs at hlook with hfound
  obtain rfl : entry.name = name := by simpa using hlook
  exact (findChild_mem (lookup_eq_ok hfound).2).2

/-- The loop of `absolute_path_of` goes back over the names of a walk from the root. -/
lemma Assembled.climb_eq (h : s.Assembled) {cs : List Text} (hcs : ∀ c ∈ cs, IsName c) {fuel : ℕ}
    {scratch : Text} (hwalk : s.walk cs s.rootInode = .ok n)
    (hclimb : s.climb fuel n scratch = .ok path) : path = render cs ++ scratch := by
  induction cs using List.reverseRecOn generalizing n fuel scratch with
  | nil =>
    obtain rfl : s.rootInode = n := by simpa [walk] using hwalk
    cases fuel with
    | zero => cases hclimb
    | succ fuel =>
      rw [climb, if_pos rfl] at hclimb
      simpa [render] using hclimb.symm
  | append_singleton cs c ih =>
    obtain ⟨d, child, hd, hlive, -, hmem, hname, rfl⟩ := h.walk_concat_eq (hcs c (by simp)) hwalk
    obtain ⟨hne, habove, -⟩ := h.above_followMount hlive hmem
    cases fuel with
    | zero => cases hclimb
    | succ fuel =>
      rw [climb, if_neg hne, habove] at hclimb
      dsimp only at hclimb
      split at hclimb
      · cases hclimb
      next name hfound =>
      obtain rfl : c = name := hname.symm.trans (nameIn_eq_some hfound)
      split_ifs at hclimb
      rw [ih (fun c hc => hcs c (by simp [hc])) hd hclimb]
      simp [render]

namespace Visible

variable {n : ℕ}

section

variable (hn : s.Visible n) (h : s.Assembled)
include hn h

lemma live : s.Live n := by
  obtain ⟨cs, -, hwalk⟩ := hn
  exact h.wf.walk_live h.wf.root hwalk

lemma cases :
    n = s.rootInode ∨ ∃ d child, s.Visible d ∧ s.Live d ∧ child ∈ (s.inodes d).children ∧
      n = s.followMount child := by
  obtain ⟨cs, hcs, hwalk⟩ := hn
  induction cs using List.reverseRecOn with
  | nil => exact Or.inl (by simpa [walk] using hwalk.symm)
  | append_singleton cs c _ =>
    obtain ⟨d, child, hd, hlive, -, hmem, -, rfl⟩ := h.walk_concat_eq (hcs c (by simp)) hwalk
    exact Or.inr ⟨d, child, ⟨cs, fun c hc => hcs c (by simp [hc]), hd⟩, hlive, hmem, rfl⟩

lemma followMount_eq : s.followMount n = n := by
  obtain rfl | ⟨d, child, -, hlive, hmem, rfl⟩ := hn.cases h
  · exact h.followMount_of_orphan (h.roots s.rootFilesystem).2
  · exact (h.above_followMount hlive hmem).2.2

lemma parent {p : ℕ} (hp : (s.inodes n).parent = some p) : s.Visible p := by
  obtain rfl | ⟨d, child, hd, hlive, hmem, rfl⟩ := hn.cases h
  · have := (h.roots s.rootFilesystem).2
    rw [rootInode, ← rootOf, this] at hp
    cases hp
  · have habove := (h.above_followMount hlive hmem).2.1
    simp only [above, hp, Sum.inr.injEq, Prod.mk.injEq] at habove
    rwa [habove.2]

lemma walk {cs : List Text} {m : ℕ}
    (hcs : ∀ c ∈ cs, c ≠ [] ∧ SLASH ∉ c ∧ c.length < FILENAME_MAX_LENGTH)
    (hwalk : s.walk cs n = .ok m) : s.Visible m := by
  induction cs generalizing n with
  | nil =>
    obtain rfl : n = m := by simpa [Vfs.walk] using hwalk
    exact hn
  | cons c cs ih =>
    have hc := hcs c List.mem_cons_self
    simp only [Vfs.walk] at hwalk
    split at hwalk
    · cases hwalk
    next y henter =>
    refine ih ?_ (fun c hc => hcs c (List.mem_cons_of_mem _ hc)) hwalk
    obtain ⟨-, rfl⟩ | ⟨-, rfl⟩ | ⟨hdot, hdots, -⟩ := enter_eq_ok henter
    · exact hn
    · cases hp : (s.inodes n).parent with
      | none => exact hn
      | some p => exact hn.parent h hp
    · obtain ⟨ds, hds, hdown⟩ := hn
      refine ⟨ds ++ [c], fun e he => ?_, walk_concat.mpr ⟨n, hdown, henter⟩⟩
      obtain he | he := List.mem_append.mp he
      · exact hds e he
      · rw [List.mem_singleton.mp he]
        exact ⟨hc, hdot, hdots⟩

end

end Visible

lemma Assembled.resolve_visible (h : s.Assembled) {base : Option ℕ}
    (hbase : ∀ b ∈ base, s.Visible b) (hres : s.resolve path base = .ok n) : s.Visible n := by
  have hstart : s.Visible (s.startOf path base) := by
    unfold startOf
    split_ifs
    · exact s.visible_root
    · cases base with
      | none => exact s.visible_root
      | some b => exact hbase b rfl
  unfold resolve at hres
  rw [hstart.followMount_eq h] at hres
  exact hstart.walk h (fun c hc => mem_components hc) hres

lemma Assembled.absolutePathOf_resolves (h : s.Assembled) {capacity : ℕ} (hn : s.Visible n)
    (hpath : s.absolutePathOf n capacity = .ok path) :
    path.head? = some SLASH ∧ s.resolve path none = .ok n := by
  have hstart : s.followMount s.rootInode = s.rootInode := s.visible_root.followMount_eq h
  unfold absolutePathOf at hpath
  split_ifs at hpath with hroot
  · obtain rfl : [SLASH] = path := by simpa using hpath
    refine ⟨rfl, ?_⟩
    rw [hroot]
    unfold resolve startOf
    rw [if_pos (show [SLASH].head? = some SLASH from rfl), hstart]
    rfl
  · split at hpath
    · cases hpath
    next climbed hclimb =>
    split_ifs at hpath
    obtain rfl : climbed = path := by simpa using hpath
    obtain ⟨cs, hcs, hwalk⟩ := hn
    obtain rfl : climbed = render cs := by simpa using h.climb_eq hcs hwalk hclimb
    have hhead : (render cs).head? = some SLASH := by
      cases cs with
      | nil => exact absurd (by simpa [walk] using hwalk.symm) hroot
      | cons c cs => rfl
    refine ⟨hhead, ?_⟩
    unfold resolve startOf
    rw [if_pos hhead, hstart, components_render hcs]
    exact hwalk

/-! ## A mount -/

/-- A walk comes upon `point` at its end, and not before. -/
def arrives (s : Vfs) (point : ℕ) : List Text → ℕ → Bool
  | [], _ => false
  | c :: cs, x =>
    match s.enter x c with
    | .error _ => false
    | .ok y => if y = point then c ≠ DOT_DOT ∧ cs.all (· = DOT) else s.arrives point cs y

/-- A mount of a filesystem that is not mounted yet, on a directory that is not itself the root of a
mounted filesystem, along a path that leads to that directory once. -/
def Proper (s : Vfs) (call : Text × ℕ) : Prop :=
  (∀ m ∈ s.mounts, s.rootOf m.filesystem ≠ s.rootOf call.2) ∧
    ∀ point ∈ (s.resolve call.1 none).toOption,
      (∀ m ∈ s.mounts, s.rootOf m.filesystem ≠ point) ∧
      s.arrives point (components call.1) s.rootInode

instance (s : Vfs) (call : Text × ℕ) :
    Decidable (s.Proper call) := inferInstanceAs (Decidable (_ ∧ _))

lemma mountStep_eq_some (hstep : s.mountStep (path, fs) = some s') :
    ∃ point, s.resolve path none = .ok point ∧ (∀ m ∈ s.mounts, m.covered ≠ some point) ∧
      s' = { s.ref point with mounts := s.mounts ++ [⟨some point, fs⟩] } := by
  unfold mountStep mount at hstep
  split at hstep
  · next u heq =>
      split at heq
      · cases heq
      next point hres =>
      split_ifs at heq with hdir hfull hbusy
      all_goals simp only [Prod.mk.injEq, reduceCtorEq, false_and, true_and] at heq
      refine ⟨point, hres, fun m hm hcov => hbusy ?_, ?_⟩
      · exact List.any_eq_true.mpr ⟨m, hm, by simpa using hcov⟩
      · rw [heq]
        simpa using hstep.symm
  · cases hstep

/-- The table with one more mount. -/
structure Covered (s : Vfs) (point filesystem : ℕ) (s' : Vfs) : Prop where
  tree : SameTree { s with mounts := s.mounts ++ [⟨some point, filesystem⟩] } s'
  live : ∀ n, s'.Live n ↔ s.Live n
  free : ∀ m ∈ s.mounts, m.covered ≠ some point

namespace Covered

variable {point fs : ℕ}

section

variable (h : Covered s point fs s')
include h

lemma rootOf (f : ℕ) : s'.rootOf f = s.rootOf f := by
  simp only [Vfs.rootOf, h.tree.filesystems]

lemma rootInode : s'.rootInode = s.rootInode := h.tree.rootInode

lemma mem_mounts {m : Mount} : m ∈ s'.mounts ↔ m ∈ s.mounts ∨ m = ⟨some point, fs⟩ := by
  rw [h.tree.mounts]
  simp

lemma followMount (n : ℕ) :
    s'.followMount n = if n = point then s.rootOf fs else s.followMount n := by
  unfold Vfs.followMount
  rw [h.tree.mounts, h.tree.filesystems, List.find?_append]
  split_ifs with hn
  · have hnone : (s.mounts.find? fun mount => mount.covered = some n) = none :=
      List.find?_eq_none.mpr fun m hm => by simpa [hn] using h.free m hm
    rw [hnone, hn]
    simp [Vfs.rootOf]
  · have hnone : ([⟨some point, fs⟩] : List Mount).find? (fun mount => mount.covered = some n) =
      none := by
      simpa using Ne.symm hn
    rw [hnone, Option.or_none]

lemma lookup (d : ℕ) (c : Text) : s'.lookup d c = s.lookup d c := by
  have hdir : (s'.inodes d).isDirectory = (s.inodes d).isDirectory := by
    simp only [Inode.isDirectory, h.tree.type]
  simp only [Vfs.lookup, findChild, hdir, h.tree.name, h.tree.children]

/-- A path that led to the directory that is covered now leads to the root of the filesystem on it.
-/
lemma walk_arrives (hroots : ∀ m ∈ s.mounts, s.rootOf m.filesystem ≠ point)
    {cs : List Text} {x : ℕ} (hx : x ≠ point) (harrives : s.arrives point cs x) :
    s'.walk cs x = .ok (s.rootOf fs) := by
  induction cs generalizing x with
  | nil => cases harrives
  | cons c cs ih =>
    unfold arrives at harrives
    split at harrives
    · cases harrives
    next y henter =>
    by_cases hy : y = point
    · rw [if_pos hy, decide_eq_true_eq] at harrives
      obtain ⟨-, rfl⟩ | ⟨hc, -⟩ | ⟨hdot, hdots, child, hlook, rfl⟩ := enter_eq_ok henter
      · exact absurd hy hx
      · exact absurd hc harrives.1
      · have hchild : child = point := by
          obtain heq | ⟨m, hm, -, heq⟩ := s.followMount_eq child
          · rw [← heq, hy]
          · exact absurd (heq.symm.trans hy) (hroots m hm)
        have henter' : s'.enter x c = .ok (s.rootOf fs) := by
          rw [enter_of_name hdot hdots (by rw [h.lookup, hlook]), h.followMount, if_pos hchild]
        have hstay : ∀ (ds : List Text) (n : ℕ), ds.all (· = DOT) → s'.walk ds n = .ok n := by
          intro ds n hds
          induction ds with
          | nil => rfl
          | cons d ds ihds =>
            simp only [List.all_cons, Bool.and_eq_true, decide_eq_true_eq] at hds
            simp only [walk, enter, if_pos hds.1]
            exact ihds hds.2
        simp only [walk, henter']
        exact hstay cs _ harrives.2
    · rw [if_neg hy] at harrives
      have henter' : s'.enter x c = .ok y := by
        obtain ⟨rfl, rfl⟩ | ⟨rfl, rfl⟩ | ⟨hdot, hdots, child, hlook, rfl⟩ := enter_eq_ok henter
        · simp [enter]
        · simp [enter, h.tree.parent, show DOT_DOT ≠ DOT by decide]
        · have hchild : child ≠ point := by
            rintro rfl
            obtain heq | ⟨m, hm, hcov, -⟩ := s.followMount_eq child
            · exact hy heq
            · exact h.free m hm hcov
          rw [enter_of_name hdot hdots (by rw [h.lookup, hlook]), h.followMount, if_neg hchild]
      simp only [walk, henter']
      exact ih hy harrives

end

end Covered

lemma covered_mountStep (hstep : s.mountStep (path, fs) = some s') :
    ∃ point, s.resolve path none = .ok point ∧ Covered s point fs s' := by
  obtain ⟨point, hres, hfree, rfl⟩ := mountStep_eq_some hstep
  have hsame := sameTree_set s point ((s.inodes point).referenceCount + 1)
  exact ⟨point, hres, { hsame with mounts := rfl }, fun n => Iff.rfl, hfree⟩

lemma Visible.parent_ne_none (hn : s.Visible n) (h : s.Assembled)
    (hroots : ∀ m ∈ s.mounts, s.rootOf m.filesystem ≠ n) : (s.inodes n).parent ≠ none := by
  obtain rfl | ⟨d, child, -, hlive, hmem, rfl⟩ := hn.cases h
  · exact absurd rfl (hroots _ h.root)
  · obtain heq | ⟨m, hm, -, heq⟩ := s.followMount_eq child
    · rw [heq, (h.wf.child d child hlive hmem).2]
      simp
    · exact absurd heq.symm (hroots m hm)

lemma Assembled.step (h : s.Assembled) (hprop : s.Proper call)
    (hstep : s.mountStep call = some s') : s'.Assembled := by
  obtain ⟨path, fs⟩ := call
  obtain ⟨point, hres, hcov⟩ := covered_mountStep hstep
  obtain ⟨hnew, hpoint⟩ := hprop
  obtain ⟨hroots, -⟩ := hpoint point (by simp [hres, Except.toOption])
  have hvisible := h.resolve_visible (by simp) hres
  have hroots' : ∀ f, s'.Live (s'.rootOf f) ∧ (s'.inodes (s'.rootOf f)).parent = none := fun f => by
    rw [hcov.live, hcov.rootOf, hcov.tree.parent]
    exact h.roots f
  have hwf : WellFormed { s with mounts := s.mounts ++ [⟨some point, fs⟩] } := by
    refine ⟨h.wf.root, h.wf.child, h.wf.parent, h.wf.names, fun m _ => h.roots m.filesystem,
      fun m hm n hn => ?_, h.wf.rooted⟩
    obtain hm | hm := List.mem_append.mp hm
    · exact h.wf.covered m hm n hn
    · obtain rfl := List.mem_singleton.mp hm
      obtain rfl : point = n := by simpa using hn
      exact hvisible.live h
  refine ⟨hwf.of_sameTree hcov.tree hcov.live, ?_,
    fun m hm n hn => ?_, fun m hm m' hm' heq => ?_, hroots'⟩
  · rw [hcov.mem_mounts, hcov.tree.rootFilesystem]
    exact Or.inl h.root
  · rw [hcov.tree.parent]
    obtain hm | rfl := hcov.mem_mounts.mp hm
    · exact h.placed m hm n hn
    · obtain rfl : point = n := by simpa using hn
      exact hvisible.parent_ne_none h hroots
  · rw [hcov.rootOf, hcov.rootOf] at heq
    obtain hm | rfl := hcov.mem_mounts.mp hm <;> obtain hm' | rfl := hcov.mem_mounts.mp hm'
    · exact h.once m hm m' hm' heq
    · exact absurd heq (hnew m hm)
    · exact absurd heq.symm (hnew m' hm')
    · rfl

lemma Assembled.resolve_mounted (h : s.Assembled) (hprop : s.Proper call)
    (hstep : s.mountStep call = some s') : s'.resolve call.1 none = .ok (s.rootOf call.2) := by
  obtain ⟨path, fs⟩ := call
  obtain ⟨point, hres, hcov⟩ := covered_mountStep hstep
  obtain ⟨hroots, harrives⟩ := hprop.2 point (by simp [hres, Except.toOption])
  have hne : s.rootInode ≠ point := hroots _ h.root
  have hstart : s'.startOf path none = s.rootInode := by
    unfold startOf
    rw [hcov.rootInode]
    split_ifs <;> rfl
  unfold resolve
  rw [hstart, hcov.followMount, if_neg hne, s.visible_root.followMount_eq h]
  exact hcov.walk_arrives hroots hne harrives

/-! ## Paths and mounts -/

open Transition in
/-- Down and up again.  After every run of proper mounts, one more of them makes its path lead to
the root of what it mounts; and whatever `resolve` returns, from the root or from a directory that
can be seen from there, has a path that begins with a slash and leads to it, if it has one at all.
-/
theorem paths_and_mounts_round_trip (hready : s.Ready) (calls : List (Text × ℕ))
    (hproper : Along mountStep Proper s calls) (hrun : run mountStep s calls = some s') :
    (∀ path filesystem t, s'.Proper (path, filesystem) → s'.mount path filesystem = (.ok (), t) →
      t.resolve path none = .ok (t.rootOf filesystem)) ∧
    ∀ path base n capacity absolute, (∀ b ∈ base, s'.Visible b) → s'.resolve path base = .ok n →
      s'.absolutePathOf n capacity = .ok absolute →
      absolute.head? = some SLASH ∧ s'.resolve absolute none = .ok n := by
  have hassembled : s'.Assembled :=
    run_invariant (fun s call s' h hproper hstep => h.step hproper hstep) calls s s'
    hready.assembled hproper hrun
  refine ⟨fun path filesystem t hproper hmount => ?_,
    fun path base n capacity absolute hbase hresolve hpath => ?_⟩
  · have hstep : s'.mountStep (path, filesystem) = some t := by rw [mountStep, hmount]
    obtain ⟨point, -, hcovered⟩ := covered_mountStep hstep
    rw [hassembled.resolve_mounted hproper hstep, hcovered.rootOf]
  · exact hassembled.absolutePathOf_resolves (hassembled.resolve_visible hbase hresolve) hpath

/-- The directory `/tmp`, and two filesystems that are not mounted. -/
def spareFilesystems : Vfs where
  inodes
    | 0 => ⟨0, .directory, [SLASH], none, [1], 1, false⟩
    | 1 => ⟨0, .directory, [0x74, 0x6d, 0x70], some 0, [], 1, false⟩
    | 2 => ⟨1, .directory, [SLASH], none, [], 1, false⟩
    | _ => ⟨2, .directory, [SLASH], none, [], 1, false⟩
  next := 4
  destroyed := []
  filesystems
    | 1 => ⟨.tmpfs, 2⟩
    | 2 => ⟨.tmpfs, 3⟩
    | _ => ⟨.tmpfs, 0⟩
  rootFilesystem := 0
  mounts := [⟨none, 0⟩]

/-- `/tmp`. -/
def slashTmp : Text := [SLASH, 0x74, 0x6d, 0x70]

lemma spareFilesystems_ready : spareFilesystems.Ready := by
  refine ⟨Numbered.wellFormed (by decide), rfl, fun f => ?_⟩
  match f with
  | 0 | 1 | 2 => exact ⟨by decide, rfl⟩
  | _ + 3 => exact ⟨(by decide : spareFilesystems.Live 0), rfl⟩

open Transition in
/-- Once a filesystem is mounted on `/tmp`, that path leads to its root, and is the path of it. -/
theorem paths_and_mounts_round_trip_slashTmp :
    ∃ s', run mountStep spareFilesystems [(slashTmp, 1)] = some s' ∧
    s'.resolve slashTmp none = .ok 2 ∧ s'.absolutePathOf 2 64 = .ok slashTmp := by
  have hproper : spareFilesystems.Proper (slashTmp, 1) := by decide
  refine ⟨_, rfl, ?_, by decide +kernel⟩
  obtain ⟨-, hup⟩ := paths_and_mounts_round_trip spareFilesystems_ready [(slashTmp, 1)]
    ⟨hproper, fun _ _ => trivial⟩ rfl
  have hdown := (paths_and_mounts_round_trip spareFilesystems_ready [] trivial rfl).1 slashTmp
    1 _ hproper rfl
  exact (hup slashTmp none 2 64 slashTmp (by simp) hdown (by decide +kernel)).2

open Transition in
/-- A second filesystem on `/tmp` is not seen, and the path of one on `/` is empty. -/
theorem mounted_and_not_found : spareFilesystems.Ready ∧
    (∃ s', run mountStep spareFilesystems [(slashTmp, 1), (slashTmp, 2)] = some s' ∧
      s'.resolve slashTmp none = .ok 2 ∧ s'.rootOf 2 = 3) ∧
    ∃ s', run mountStep spareFilesystems [([SLASH], 1)] = some s' ∧
      s'.resolve [SLASH] none = .ok 2 ∧ s'.absolutePathOf 2 64 = .ok [] :=
  ⟨spareFilesystems_ready, ⟨_, rfl, by decide +kernel, rfl⟩, _,
    rfl, by decide +kernel, by decide +kernel⟩

end Vfs
end ShitOs
