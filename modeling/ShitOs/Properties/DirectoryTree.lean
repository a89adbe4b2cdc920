import ShitOs.Framework.Forest
import ShitOs.Properties.Vfs

/-!
# Trees that the operations keep

`Grown` is what is true of the directory trees while names are made only where they may be.  It adds
to `WellFormed` that pointers up and lists of children agree in both directions, that names are
names, that only directories have children, and that an inode without a parent is either unlinked,
and then empty, or mounted.  The operations of `tmpfs` keep it, each under what its callers have
checked: a change of a reference count, the end of an inode nobody holds (`Grown.bury`), and
`create`, `unlink` and `rename`.  The last three are one: an inode gets a name, another loses its
own (`Regrown`).  There are no cycles, as nothing is below a new inode, and `rename` looks for the
source above the destination.
-/

namespace ShitOs
namespace Vfs

open Relation

variable {v v' : Vfs} {n d : ℕ}

/-- The mounts that hold an inode: one of them covers it, or has it as its root. -/
def mountCount (v : Vfs) (n : ℕ) : ℕ :=
  v.mounts.countP (fun m => m.covered = some n) +
    v.mounts.countP fun m => (v.filesystems m.filesystem).root = n

/-- The inodes form trees: pointers up and lists of children agree, only directories have children,
and names are names. -/
structure IsTree (v : Vfs) : Prop where
  wf : v.WellFormed
  listed : ∀ n d, v.Live n → (v.inodes n).parent = some d → n ∈ (v.inodes d).children
  valid : ∀ d c, v.Live d → c ∈ (v.inodes d).children →
    (v.inodes c).name ≠ [] ∧ SLASH ∉ (v.inodes c).name
  files : ∀ n, v.Live n → (v.inodes n).isDirectory = false → (v.inodes n).children = []

/-- Only what is unlinked or mounted has no parent. -/
structure Grown (v : Vfs) : Prop extends IsTree v where
  unlinked : ∀ n, v.Live n → (v.inodes n).unlinked = true →
    (v.inodes n).children = [] ∧ (v.inodes n).parent = none
  linked : ∀ n, v.Live n → (v.inodes n).unlinked = false → (v.inodes n).parent = none →
    0 < mountCount v n
  mounted : 0 < mountCount v v.rootInode
  once : v.destroyed.Nodup
  bounded : ∀ n ∈ v.destroyed, n < v.next

/-! ## References -/

lemma WellFormed.of_sameTree (h : v.WellFormed) (hsame : SameTree v v')
    (hlive : ∀ n, v'.Live n ↔ v.Live n) : v'.WellFormed := by
  have hdir : ∀ n, (v'.inodes n).isDirectory = (v.inodes n).isDirectory := fun n => by
    simp only [Inode.isDirectory, hsame.type]
  constructor
  · rw [hsame.rootInode, hlive]
    exact h.root
  · simp only [hlive, hsame.children, hsame.parent]
    exact h.child
  · simp only [hlive, hsame.parent, hdir]
    exact h.parent
  · simp only [hlive, hsame.children, hsame.name]
    exact h.names
  · simp only [hlive, hsame.mounts, hsame.filesystems, hsame.parent]
    exact h.mount
  · simp only [hlive, hsame.mounts]
    exact h.covered
  · simp only [hlive, hsame.parent]
    exact h.rooted

lemma SameMounts.mountCount (h : SameMounts v v') (n : ℕ) : mountCount v' n = mountCount v n := by
  simp only [Vfs.mountCount, h.mounts, h.filesystems]

lemma Grown.set (h : Grown v) (n k : ℕ) :
    Grown (v.set n { v.inodes n with referenceCount := k }) := by
  have hsame := sameTree_set v n k
  have hmark : ∀ m, ((v.set n { v.inodes n with referenceCount := k }).inodes m).unlinked =
      (v.inodes m).unlinked := by
    intro m
    rw [inodes_set]
    split_ifs with hm
    · rw [hm]
    · rfl
  have hdir : ∀ m, ((v.set n { v.inodes n with referenceCount := k }).inodes m).isDirectory =
      (v.inodes m).isDirectory := fun m => by simp only [Inode.isDirectory, hsame.type]
  refine ⟨⟨h.wf.of_sameTree hsame fun _ => Iff.rfl, ?_, ?_, ?_⟩, ?_, ?_, h.mounted, h.once,
    h.bounded⟩
  · simp only [hsame.parent, hsame.children]
    exact h.listed
  · simp only [hsame.children, hsame.name]
    exact h.valid
  · simp only [hsame.children, hdir]
    exact h.files
  · simp only [hsame.children, hsame.parent, hmark]
    exact h.unlinked
  · simp only [hsame.parent, hmark, hsame.mountCount]
    exact h.linked

lemma mountCount_eq_zero (hzero : mountCount v n = 0) {m : Mount} (hm : m ∈ v.mounts) :
    m.covered ≠ some n ∧ (v.filesystems m.filesystem).root ≠ n := by
  obtain ⟨hcov, hroot⟩ := Nat.add_eq_zero_iff.mp hzero
  exact ⟨by simpa using List.countP_eq_zero.mp hcov m hm,
    by simpa using List.countP_eq_zero.mp hroot m hm⟩

lemma WellFormed.mountCount_eq_zero (h : v.WellFormed) (hdead : ¬ v.Live n) :
    v.mountCount n = 0 := by
  refine Nat.add_eq_zero_iff.mpr ⟨List.countP_eq_zero.mpr fun m hm hc => ?_,
    List.countP_eq_zero.mpr fun m hm hr => ?_⟩
  · exact hdead (h.covered m hm _ (by simpa using hc))
  · have hr : (v.filesystems m.filesystem).root = n := by simpa using hr
    exact hdead (hr ▸ (h.mount m hm).1)

/-- An inode that has no name, no children and no mount can go. -/
lemma Grown.bury (h : Grown v) (hlive : v.Live n) (hpar : (v.inodes n).parent = none)
    (hempty : (v.inodes n).children = []) (hmount : mountCount v n = 0) :
    Grown { v with destroyed := n :: v.destroyed } := by
  have hlive' : ∀ m, Live { v with destroyed := n :: v.destroyed } m ↔ v.Live m ∧ m ≠ n := by
    intro m
    simp only [Live, List.mem_cons, not_or]
    exact ⟨fun ⟨hlt, hne, hnot⟩ => ⟨⟨hlt, hnot⟩, hne⟩, fun ⟨⟨hlt, hnot⟩, hne⟩ => ⟨hlt, hne, hnot⟩⟩
  have hchild : ∀ d c, v.Live d → c ∈ (v.inodes d).children → c ≠ n := by
    rintro d c hd hc rfl
    have := (h.wf.child d c hd hc).2
    simp [hpar] at this
  have hup : ∀ m d, v.Live m → (v.inodes m).parent = some d → d ≠ n := by
    rintro m d hm hd rfl
    have := h.listed m d hm hd
    simp [hempty] at this
  refine ⟨⟨⟨?_, ?_, ?_, ?_, ?_, ?_, ?_⟩, ?_, ?_, ?_⟩, ?_, ?_, h.mounted, ?_, ?_⟩
  · refine (hlive' _).mpr ⟨h.wf.root, fun heq => ?_⟩
    have heq : v.rootInode = n := heq
    exact absurd h.mounted (by simp [heq, hmount])
  · intro d c hd hc
    obtain ⟨hd, -⟩ := (hlive' d).mp hd
    have hold := h.wf.child d c hd hc
    exact ⟨(hlive' c).mpr ⟨hold.1, hchild d c hd hc⟩, hold.2⟩
  · intro m d hm hd
    obtain ⟨hm, -⟩ := (hlive' m).mp hm
    have hold := h.wf.parent m d hm hd
    exact ⟨(hlive' d).mpr ⟨hold.1, hup m d hm hd⟩, hold.2⟩
  · exact fun d hd => h.wf.names d ((hlive' d).mp hd).1
  · intro m hm
    have hold := h.wf.mount m hm
    exact ⟨(hlive' _).mpr ⟨hold.1, (mountCount_eq_zero hmount hm).2⟩, hold.2⟩
  · intro m hm k hk
    refine (hlive' k).mpr ⟨h.wf.covered m hm k hk, ?_⟩
    rintro rfl
    exact (mountCount_eq_zero hmount hm).1 hk
  · exact fun m hm => h.wf.rooted m ((hlive' m).mp hm).1
  · exact fun m d hm => h.listed m d ((hlive' m).mp hm).1
  · exact fun d c hd => h.valid d c ((hlive' d).mp hd).1
  · exact fun m hm => h.files m ((hlive' m).mp hm).1
  · exact fun m hm => h.unlinked m ((hlive' m).mp hm).1
  · exact fun m hm => h.linked m ((hlive' m).mp hm).1
  · exact List.nodup_cons.mpr ⟨hlive.2, h.once⟩
  · intro m hm
    obtain rfl | hm := List.mem_cons.mp hm
    · exact hlive.1
    · exact h.bounded m hm

/-! ## Names are made, moved and taken away -/

/-- An inode, if there is one (`moved`), gets a name in a directory, and another (`gone`) loses its
own. -/
structure Regrown (v : Vfs) (moved gone : Option ℕ) (destination : ℕ) (newName : Text) (v' : Vfs) :
    Prop extends SameMounts v v' where
  live : ∀ n, v'.Live n ↔ v.Live n ∨ moved = some n
  parent : ∀ n, (v'.inodes n).parent = if gone = some n then none
    else if moved = some n then some destination else (v.inodes n).parent
  mem : ∀ d c, v'.Live d → (c ∈ (v'.inodes d).children ↔ v.Live d ∧ c ∈ (v.inodes d).children ∧
    moved ≠ some c ∧ gone ≠ some c ∨ d = destination ∧ moved = some c)
  names : ∀ d, v'.Live d → ((v'.inodes d).children.map fun c => (v'.inodes c).name).Nodup
  name : ∀ n, (v'.inodes n).name = if moved = some n then newName else (v.inodes n).name
  isDirectory : ∀ n, v.Live n → (v'.inodes n).isDirectory = (v.inodes n).isDirectory
  unlinked : ∀ n, moved ≠ some n →
    (v'.inodes n).unlinked = if gone = some n then true else (v.inodes n).unlinked
  destroyed : v'.destroyed = v.destroyed
  next : v.next ≤ v'.next

/-- The inode may have the name there: the directory is one and has not been removed, and it is not
below the inode, which has another name or none because it is new. -/
structure Welcome (v : Vfs) (n destination : ℕ) (newName : Text) (v' : Vfs) : Prop where
  arrives : v.Live destination
  isDirectory : (v.inodes destination).isDirectory
  linked : (v.inodes destination).unlinked = false
  name : newName ≠ [] ∧ SLASH ∉ newName
  outside : ¬ ReflTransGen (fun c d => (v.inodes c).parent = some d) destination n
  named : v.Live n → (v.inodes n).parent ≠ none
  marked : (v'.inodes n).unlinked = false

section Regrown

variable {moved gone : Option ℕ} {dest : ℕ} {newName : Text}

section

variable (hv : Regrown v moved gone dest newName v')
include hv

/-- **No cycles**: what is moved is not above where it is moved to. -/
lemma Regrown.rooted (hwf : v.WellFormed)
    (hmoved : ∀ n, moved = some n → Welcome v n dest newName v') (hn : v'.Live n) :
    Acc (fun d c => (v'.inodes c).parent = some d) n := by
  have hold : ∀ n, v.Live n → Acc (fun d c => (v'.inodes c).parent = some d) n := by
    intro n hn
    refine Forest.acc_of_moved hv.parent (fun s hs => ?_) (hwf.rooted n hn)
    exact ⟨hwf.rooted dest (hmoved s hs).arrives, (hmoved s hs).outside⟩
  rcases (hv.live n).mp hn with hn | hnew
  · exact hold n hn
  · refine Acc.intro n fun e he => ?_
    obtain ⟨-, ⟨-, rfl⟩ | ⟨hne, -⟩⟩ := Forest.eq_some_of_moved hv.parent he
    · exact hold e (hmoved n hnew).arrives
    · exact absurd hnew hne

end

lemma Grown.regrow (h : Grown v) (hv : Regrown v moved gone dest newName v')
    (hgone : ∀ n, gone = some n → (v.inodes n).children = [] ∧ moved ≠ some n ∧
      (n = dest → moved = none))
    (hmoved : ∀ n, moved = some n → Welcome v n dest newName v') : Grown v' := by
  have hkeep : ∀ n, v.Live n → v'.Live n := fun n hn => (hv.live n).mpr (.inl hn)
  refine ⟨⟨⟨?_, fun d c hd hc => ?_, fun n e hn he => ?_, hv.names,
    fun m hm => ?_, fun m hm n hn => ?_, fun n => hv.rooted h.wf hmoved⟩, fun n e hn he => ?_,
    fun d c hd hc => ?_, fun n hn hfile => ?_⟩, fun n hn hmark => ?_, fun n hn hmark hnone => ?_,
    ?_, ?_, fun n hn => ?_⟩
  · rw [hv.rootInode]
    exact hkeep _ h.wf.root
  · rw [hv.parent]
    obtain ⟨hd, hc, hm, hg⟩ | ⟨rfl, hm⟩ := (hv.mem d c hd).mp hc
    · rw [if_neg hg, if_neg hm]
      exact (h.wf.child d c hd hc).imp_left (hkeep c)
    · rw [if_neg fun hg => (hgone c hg).2.1 hm, if_pos hm]
      exact ⟨(hv.live c).mpr (.inr hm), rfl⟩
  · obtain ⟨-, ⟨hm, rfl⟩ | ⟨hm, he⟩⟩ := Forest.eq_some_of_moved hv.parent he
    · have harrives := (hmoved n hm).arrives
      exact ⟨hkeep e harrives, by rw [hv.isDirectory e harrives]; exact (hmoved n hm).isDirectory⟩
    · have hwas := h.wf.parent n e (((hv.live n).mp hn).resolve_right hm) he
      exact ⟨hkeep e hwas.1, by rw [hv.isDirectory e hwas.1]; exact hwas.2⟩
  · rw [hv.mounts] at hm
    rw [hv.filesystems, hv.parent]
    have hwas := h.wf.mount m hm
    refine ⟨hkeep _ hwas.1, ?_⟩
    split_ifs with hg hm'
    · rfl
    · exact absurd hwas.2 ((hmoved _ hm').named hwas.1)
    · exact hwas.2
  · rw [hv.mounts] at hm
    exact hkeep n (h.wf.covered m hm n hn)
  · obtain ⟨hg, ⟨hm, rfl⟩ | ⟨hm, he⟩⟩ := Forest.eq_some_of_moved hv.parent he
    · exact (hv.mem e n (hkeep e (hmoved n hm).arrives)).mpr (.inr ⟨rfl, hm⟩)
    · have hn := ((hv.live n).mp hn).resolve_right hm
      have hlive := (h.wf.parent n e hn he).1
      exact (hv.mem e n (hkeep e hlive)).mpr (.inl ⟨hlive, h.listed n e hn he, hm, hg⟩)
  · rw [hv.name]
    obtain ⟨hd, hc, hm, -⟩ | ⟨-, hm⟩ := (hv.mem d c hd).mp hc
    · rw [if_neg hm]
      exact h.valid d c hd hc
    · rw [if_pos hm]
      exact (hmoved c hm).name
  · refine List.eq_nil_iff_forall_not_mem.mpr fun c hc => ?_
    obtain ⟨hlive, hc, -⟩ | ⟨rfl, hm⟩ := (hv.mem n c hn).mp hc
    · rw [hv.isDirectory n hlive] at hfile
      simp [h.files n hlive hfile] at hc
    · have hwelcome := hmoved c hm
      simp [hv.isDirectory n hwelcome.arrives, hwelcome.isDirectory] at hfile
  · have hm : moved ≠ some n := fun hm => by simp [(hmoved n hm).marked] at hmark
    have hwas : (v.inodes n).children = [] ∧ (gone = some n ∨ (v.inodes n).parent = none) ∧
        (n = dest → moved = none) := by
      rw [hv.unlinked n hm] at hmark
      split_ifs at hmark with hg
      · exact ⟨(hgone n hg).1, .inl hg, (hgone n hg).2.2⟩
      · obtain ⟨hempty, hnone⟩ := h.unlinked n (((hv.live n).mp hn).resolve_right hm) hmark
        refine ⟨hempty, .inr hnone, ?_⟩
        rintro rfl
        refine Option.eq_none_iff_forall_ne_some.mpr fun c hc => ?_
        simp [(hmoved c hc).linked] at hmark
    refine ⟨List.eq_nil_iff_forall_not_mem.mpr fun c hc => ?_, ?_⟩
    · obtain ⟨-, hc, -⟩ | ⟨hd, hc⟩ := (hv.mem n c hn).mp hc
      · simp [hwas.1] at hc
      · simp [hwas.2.2 hd] at hc
    · rw [hv.parent, if_neg hm]
      split_ifs with hg
      · rfl
      · exact hwas.2.1.resolve_left hg
  · rw [hv.parent] at hnone
    split_ifs at hnone with hg hm
    · simp [hv.unlinked n (hgone n hg).2.1, hg] at hmark
    · rw [hv.mountCount]
      rw [hv.unlinked n hm, if_neg hg] at hmark
      exact h.linked n (((hv.live n).mp hn).resolve_right hm) hmark hnone
  · rw [hv.rootInode, hv.mountCount]
    exact h.mounted
  · rw [hv.destroyed]
    exact h.once
  · rw [hv.destroyed] at hn
    exact Nat.lt_of_lt_of_le (h.bounded n hn) hv.next

end Regrown

/-! ## A name is made -/

section Created

variable {name : Text} {type : InodeType}

section

variable (hcreated : Created v d name type v')
include hcreated

lemma Created.live_next (h : v.Grown) : v'.Live v.next := by
  have hnew : v.next ∉ v.destroyed := fun hmem => Nat.lt_irrefl _ (h.bounded _ hmem)
  exact ⟨by rw [hcreated.next]; exact Nat.lt_succ_self _, by rw [hcreated.destroyed]; exact hnew⟩

lemma Created.inodes (n : ℕ) :
    v'.inodes n = if n = v.next then v.newInode d name type else { v.inodes n with
      children := if n = d then (v.inodes d).children ++ [v.next] else (v.inodes n).children } := by
  split_ifs with hnext hnd
  · rw [hnext, hcreated.child]
  · rw [hnd, hcreated.directory]
  · rw [hcreated.other n hnd hnext]

lemma Created.regrown (h : v.Grown) (hd : v.Live d) : Regrown v (some v.next) none d name v' := by
  have hinodes := hcreated.inodes
  have hnew : ∀ n, v.Live n → n ≠ v.next := fun n hn => Nat.ne_of_lt hn.1
  have hlive : ∀ n, v'.Live n ↔ v.Live n ∨ some v.next = some n := fun n => by
    refine ⟨fun hn => ?_, fun hn => ?_⟩
    · obtain ⟨hlt, hnot⟩ := hn
      rw [hcreated.next] at hlt
      rw [hcreated.destroyed] at hnot
      obtain rfl | hne := eq_or_ne n v.next
      · exact .inr rfl
      · exact .inl ⟨by omega, hnot⟩
    · rcases hn with hn | hn
      · exact ⟨by rw [hcreated.next]; exact Nat.lt_succ_of_lt hn.1,
          by rw [hcreated.destroyed]; exact hn.2⟩
      · exact Option.some.inj hn ▸ hcreated.live_next h
  have hname : ∀ n, (v'.inodes n).name = if some v.next = some n then name
    else (v.inodes n).name := by
    intro n
    rw [hinodes]
    obtain rfl | hne := eq_or_ne n v.next
    · simpa [newInode] using List.take_of_length_le (Nat.le_sub_one_of_lt hcreated.short)
    · simp [hne, Ne.symm hne]
  refine ⟨hcreated.toSameMounts, hlive, fun n => ?_, fun e c he => ?_, fun e he => ?_, hname,
    fun n hn => ?_, fun n hn => ?_, hcreated.destroyed, hcreated.next ▸ Nat.le_succ _⟩
  · rw [hinodes]
    obtain rfl | hne := eq_or_ne n v.next
    · simp [newInode]
    · simp [hne, Ne.symm hne]
  · rw [hinodes]
    rcases (hlive e).mp he with he | he
    · have hold : ∀ c ∈ (v.inodes e).children, v.next ≠ c := fun c hc =>
        (hnew c (h.wf.child e c he hc).1).symm
      rw [if_neg (hnew e he)]
      dsimp only
      split_ifs with hed
      · subst hed
        simp only [List.mem_append, List.mem_singleton]
        grind
      · grind
    · cases he
      simp [newInode, Ne.symm (hnew d hd), show ¬v.Live v.next from fun hl => hnew _ hl rfl]
  · rcases (hlive e).mp he with he | he
    · have hsame : (v.inodes e).children.map (fun c => (v'.inodes c).name) =
          (v.inodes e).children.map fun c => (v.inodes c).name :=
        List.map_congr_left fun c hc => by
          simp [hname, Ne.symm (hnew c (h.wf.child e c he hc).1)]
      rw [hinodes, if_neg (hnew e he)]
      split_ifs with hed
      · subst hed
        rw [List.map_append, hsame, List.map_singleton, hname, if_pos rfl]
        refine List.nodup_append.mpr ⟨h.wf.names e he, List.nodup_singleton _, ?_⟩
        intro a ha b hb hab
        obtain rfl := List.mem_singleton.mp hb
        obtain ⟨c, hc, hca⟩ := List.mem_map.mp ha
        exact List.find?_eq_none.mp hcreated.absent c hc (by simpa using hca.trans hab)
      · rw [hsame]
        exact h.wf.names e he
    · rw [hinodes, if_pos (Option.some.inj he).symm]
      simp [newInode]
  · rw [hinodes, if_neg (hnew n hn)]
    rfl
  · rw [hinodes, if_neg fun heq => hn (by rw [heq])]
    simp

lemma Created.welcome (h : v.Grown) (hd : v.Live d)
    (hlink : (v.inodes d).unlinked = false) (hname : name ≠ [] ∧ SLASH ∉ name) :
    Welcome v v.next d name v' where
  arrives := hd
  isDirectory := hcreated.isDirectory
  linked := hlink
  name := hname
  outside hpath := by
    -- above what is there is only what is there
    have hlive : ∀ n, ReflTransGen (fun c d => (v.inodes c).parent = some d) d n → v.Live n := by
      intro n hpath
      induction hpath with
      | refl => exact hd
      | tail _ hup ih => exact (h.wf.parent _ _ ih hup).1
    exact Nat.lt_irrefl _ (hlive _ hpath).1
  named hlive := absurd hlive.1 (Nat.lt_irrefl _)
  marked := by rw [hcreated.child, newInode]

end

end Created

/-! ## A name goes -/

lemma inodes_detach (v : Vfs) (d c n : ℕ) :
    ((v.removeChild d c).markUnlinked c).inodes n = { v.inodes n with
      children := if n = d then (v.inodes n).children.erase c else (v.inodes n).children
      unlinked := if n = c then true else (v.inodes n).unlinked
      parent := if n = c then none else (v.inodes n).parent } := by
  simp only [inodes_markUnlinked, inodes_removeChild]

lemma Grown.regrown_detach {c : ℕ} (h : Grown v) (hd : v.Live d) (hc : c ∈ (v.inodes d).children) :
    Regrown v none (some c) d [] ((v.removeChild d c).markUnlinked c) := by
  have hinodes := inodes_detach v d c
  refine ⟨⟨rfl, rfl, rfl⟩,
    fun n => by simp [Live, removeChild, markUnlinked, setChildren, Vfs.set], fun n => ?_,
    fun e x he => ?_, fun e he => ?_, fun n => ?_, fun n _ => ?_, fun n _ => ?_, rfl, Nat.le_refl _⟩
  · simp [hinodes, eq_comm]
  · rw [hinodes]
    dsimp only
    split_ifs with hed
    · subst hed
      simp [(h.wf.nodup hd).mem_erase_iff, hd, and_comm, eq_comm]
    · have hne : x ∈ (v.inodes e).children → c ≠ x := by
        rintro hx rfl
        exact hed (h.wf.directory_eq he hd hx hc)
      simpa [show v.Live e from he] using hne
  · have hlist : (((v.removeChild d c).markUnlinked c).inodes e).children.Sublist
        (v.inodes e).children := by
      rw [hinodes]
      dsimp only
      split_ifs
      · exact List.erase_sublist
      · exact List.Sublist.refl _
    have hnames : ∀ n, (((v.removeChild d c).markUnlinked c).inodes n).name = (v.inodes n).name :=
      fun n => by rw [hinodes]
    simp only [hnames]
    exact (h.wf.names e he).sublist (hlist.map _)
  · simp [hinodes]
  · rw [hinodes]
    rfl
  · simp [hinodes, eq_comm]

/-! ## A name moves -/

/-- The loop of `rename` finds whatever is above a directory. -/
lemma not_above_of_isWithin {src w fuel : ℕ} (hwithin : v.isWithin src fuel (some w) = false) :
    ¬ ReflTransGen (fun c d => (v.inodes c).parent = some d) w src := by
  induction fuel generalizing w with
  | zero => cases hwithin
  | succ fuel ih =>
    simp only [isWithin, Bool.or_eq_false_iff, decide_eq_false_iff_not] at hwithin
    intro hpath
    obtain heq | ⟨d, hd, hpath⟩ := ReflTransGen.cases_head hpath
    · exact hwithin.1 heq
    · rw [hd] at hwithin
      exact ih hwithin.2 hpath

lemma WellFormed.isDirectory_of_above (h : v.WellFormed) {src w : ℕ} (hw : v.Live w)
    (hdir : (v.inodes w).isDirectory)
    (hpath : ReflTransGen (fun c d => (v.inodes c).parent = some d) w src) :
    (v.inodes src).isDirectory := by
  have hall : v.Live src ∧ (v.inodes src).isDirectory := by
    induction hpath with
    | refl => exact ⟨hw, hdir⟩
    | tail _ hd ih => exact h.parent _ _ ih.1 hd
  exact hall.2

/-- What `rename` knows when it moves an entry. -/
structure Transfer (v : Vfs) (directory source destination : ℕ) (newName : Text)
    (replaced : Option ℕ) : Prop where
  leaves : v.Live directory
  arrives : v.Live destination
  isDirectory : (v.inodes destination).isDirectory
  entry : source ∈ (v.inodes directory).children
  found : v.findChild (v.inodes destination).children newName = replaced
  other : replaced ≠ some source
  empty : ∀ old ∈ replaced, (v.inodes old).children = []
  short : cut newName = newName
  outside : ¬ ReflTransGen (fun c d => (v.inodes c).parent = some d) destination source

/-- What `rename` knows when it moves an entry, if the new name is one and its directory has not
been removed. -/
structure Movable (v : Vfs) (directory source destination : ℕ) (newName : Text)
    (replaced : Option ℕ) : Prop
    extends Transfer v directory source destination newName replaced where
  linked : (v.inodes destination).unlinked = false
  name : newName ≠ [] ∧ SLASH ∉ newName

section Relinked

variable {dir src dest : ℕ} {newName : Text} {replaced : Option ℕ}

lemma Renaming.transfer {fromPath toPath : Path} {base : Option ℕ} (h : v.IsTree)
    (hbase : v.LiveBase base)
    (hren : v.Renaming fromPath.bytes toPath.bytes base dir src dest newName)
    (hmoves : Renaming.Moves v dir src dest newName replaced v') :
    Transfer v dir src dest newName replaced := by
  obtain ⟨name, hfrom, hlook⟩ := hren.fromParent
  obtain ⟨hfound, hother, hold, -⟩ := hmoves
  have hdest := h.wf.resolveParent_live hbase hren.toParent
  obtain ⟨-, rfl⟩ := resolveParent_eq_ok hren.toParent
  refine ⟨h.wf.resolveParent_live hbase hfrom, hdest, hren.isDirectory,
    (findChild_mem (lookup_eq_ok hlook).2).1, hfound, hother, fun old hmem => ?_,
    by simp [cut, List.take_take], fun hpath => ?_⟩
  · cases hdir : (v.inodes old).isDirectory with
    | true => exact (hold old hmem).2 hdir
    | false =>
      have hin := (findChild_mem (hfound.trans hmem)).1
      exact h.files old (h.wf.child dest old hdest hin).1 hdir
  · have hdir := h.wf.isDirectory_of_above hdest hren.isDirectory hpath
    exact not_above_of_isWithin (hren.outside hdir) hpath

section

variable (h : Transfer v dir src dest newName replaced)
include h

lemma Transfer.mem_destination {old : ℕ} (hold : replaced = some old) :
    old ∈ (v.inodes dest).children :=
  (findChild_mem (h.found.trans hold)).1

lemma Transfer.mem_children (hwf : v.WellFormed) (ht : Moved v dir src dest newName replaced v')
    (hn : v.Live n) {c : ℕ} : c ∈ (v'.inodes n).children ↔
      c ∈ (v.inodes n).children ∧ c ≠ src ∧ replaced ≠ some c ∨ n = dest ∧ c = src := by
  rw [ht.children, List.mem_append, Moved.mem_kept_iff (hwf.nodup hn)]
  refine or_congr ⟨fun ⟨hc, hsrc, hrepl⟩ => ⟨hc, ?_, ?_⟩,
    fun ⟨hc, hsrc, hrepl⟩ => ⟨hc, fun _ => hsrc, fun _ => hrepl⟩⟩ ?_
  · rintro rfl
    exact hsrc (hwf.directory_eq hn h.leaves hc h.entry) rfl
  · intro hold
    exact hrepl (hwf.directory_eq hn h.arrives hc (h.mem_destination hold)) hold
  · split_ifs with hnd <;> simp [hnd]

lemma Transfer.rooted (hwf : v.WellFormed) (ht : Moved v dir src dest newName replaced v')
    (hn : v.Live n) : Acc (fun d c => (v'.inodes c).parent = some d) n := by
  have hparent : ∀ n, (v'.inodes n).parent = if replaced = some n then none
      else if some src = some n then some dest else (v.inodes n).parent := fun n => by
    simp only [ht.parent, Option.some.injEq, eq_comm]
  refine Forest.acc_of_moved hparent (fun s hs => ?_) (hwf.rooted n hn)
  exact ⟨hwf.rooted dest h.arrives, Option.some.inj hs ▸ h.outside⟩

end

lemma Movable.regrown (h : Movable v dir src dest newName replaced) (hgrown : v.Grown)
    (ht : Relinked v dir src dest newName replaced v') :
    Regrown v (some src) replaced dest newName v' := by
  have hlive : ∀ n, v'.Live n ↔ v.Live n := fun n => by simp only [Live, ht.next, ht.destroyed]
  have hsrc := (hgrown.wf.child dir src h.leaves h.entry).1
  refine ⟨ht.toSameMounts, fun n => ?_, fun n => ?_, fun e c he => ?_, fun e he => ?_,
    fun n => ?_, fun n _ => ht.isDirectory n, fun n _ => ht.unlinked n, ht.destroyed,
    ht.next.symm.le⟩
  · rw [hlive]
    refine ⟨.inl, fun hn => hn.elim id fun heq => ?_⟩
    exact Option.some.inj heq ▸ hsrc
  · simp only [ht.parent, Option.some.injEq, eq_comm]
  · rw [h.mem_children hgrown.wf ht.toMoved ((hlive e).mp he)]
    simp [(hlive e).mp he, eq_comm]
  · have he := (hlive e).mp he
    have hkept : ((v.kept dir src dest replaced e).map
        fun c => (v'.inodes c).name).Nodup := by
      have hsame : (v.kept dir src dest replaced e).map
            (fun c => (v'.inodes c).name) =
          (v.kept dir src dest replaced e).map fun c => (v.inodes c).name := by
        refine List.map_congr_left fun c hc => ?_
        have hne : c ≠ src := by
          rintro rfl
          obtain ⟨hc, hleft, -⟩ := (Moved.mem_kept_iff (hgrown.wf.nodup he)).mp hc
          exact hleft (hgrown.wf.directory_eq he h.leaves hc h.entry) rfl
        rw [ht.name, if_neg hne]
      rw [hsame]
      exact (hgrown.wf.names e he).sublist ((Moved.kept_sublist e).map _)
    rw [ht.children]
    split_ifs with hed
    · subst hed
      rw [List.map_append]
      refine List.nodup_append.mpr ⟨hkept, List.nodup_singleton _, ?_⟩
      intro a ha b hb hab
      obtain rfl := List.mem_singleton.mp hb
      obtain ⟨c, hc, hca⟩ := List.mem_map.mp ha
      have hfresh := ht.findChild_kept_destination hgrown.wf h.leaves h.arrives h.entry
        h.found
      refine List.find?_eq_none.mp hfresh c hc ?_
      simpa [ht.name src, h.short] using hca.trans hab
    · rwa [List.append_nil]
  · simp only [ht.name, h.short, Option.some.injEq, eq_comm]

lemma Movable.grown (h : Movable v dir src dest newName replaced) (hgrown : v.Grown)
    (ht : Relinked v dir src dest newName replaced v') : v'.Grown := by
  have hsrc := hgrown.wf.child dir src h.leaves h.entry
  refine hgrown.regrow (h.regrown hgrown ht) (fun n hn => ⟨h.empty n hn, ?_, ?_⟩) fun n hn => ?_
  · exact fun heq => h.other (hn.trans heq.symm)
  · -- a dir is not in itself
    rintro rfl
    have hself := (hgrown.wf.child n n h.arrives (h.mem_destination hn)).2
    exact (Forest.not_transGen_self (hgrown.wf.rooted n h.arrives) (TransGen.single hself)).elim
  · cases hn
    refine ⟨h.arrives, h.isDirectory, h.linked, h.name, h.outside, fun _ => by simp [hsrc.2], ?_⟩
    rw [ht.unlinked, if_neg h.other]
    by_contra hmark
    simpa [hsrc.2] using (hgrown.unlinked src hsrc.1 (by simpa using hmark)).2

end Relinked

end Vfs
end ShitOs
