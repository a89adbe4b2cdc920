import ShitOs.Framework.Transition
import ShitOs.Framework.Counting
import ShitOs.Construction.FileTree
import ShitOs.Properties.DirectoryTree

/-!
# The directory tree over whole runs

An inode of a `tmpfs` is kept by four kinds of references: its directory entry, open descriptions,
working directories, and mounts.  Its pointer to its parent is not one of them.  That this is enough
depends on the parent outliving its children, and in turn on a directory that has been removed
staying empty: nothing in the code says so.  A process may still be in a removed directory, and
`create` does not ask whether the directory it is given has been unlinked.

`Tidy held s` is the invariant inside a call, with `held` the references that the call has taken and
not yet handed on; between calls there are none (`Settled`).  Each operation on the tree is paired
here with what it does to the counts, and an inode nobody holds is unlinked and so has no children.

An `open` that waits for the other end of a FIFO holds no reference either.  As long as the FIFO has
its name it cannot go away, and it has one when the wait begins, because a path leads to it.

The invariant is kept by every call that makes names only where it may, and takes none away from a
FIFO that somebody waits at (`Proper`): the path must end in a name, and its directory must not have
been removed.  `tree_sound` says what follows for every run of any number of processes.
`parent_or_fifo_destroyed` are two runs without that: in one a file's pointer to its parent leads to
an inode that has been destroyed, in the other an open description does.
-/

namespace ShitOs

open Finset (mem_range)
open Vfs
namespace FileTree

open Transition Counting

variable {s s' : FileTree} {held held' : ℕ → ℤ} {n d p : ℕ} {v v' : Vfs} {newName : Text}
  {type : InodeType} {path : Path} {mem : Bool} {r : Except Errno ℕ}

/-! ## Who holds an inode -/

/-- The directory entry of an inode, if it has a parent. -/
def linkCount (s : FileTree) (n : ℕ) : ℕ := if (s.vfs.inodes n).parent = none then 0 else 1

/-- The open descriptions onto an inode. -/
def descriptionCount (s : FileTree) (n : ℕ) : ℕ :=
  count (Finset.range s.nextDescription) (· = some n) s.descriptions

/-- The processes whose working directory an inode is. -/
def workingCount (s : FileTree) (n : ℕ) : ℕ :=
  count (Finset.range s.processes) (· = n) s.workingDirectory

/-! ## The invariant -/

/-- The tree is one, and the counts are right up to the references the call in progress holds:
`held n` is how many more references than holders inode `n` has. -/
structure Tidy (held : ℕ → ℤ) (s : FileTree) : Prop where
  tree : s.vfs.Grown
  opened : ∀ d n, s.descriptions d = some n → s.vfs.Live n ∧ d < s.nextDescription
  working : ∀ p, p < s.processes → s.vfs.Live (s.workingDirectory p) ∧
    (s.vfs.inodes (s.workingDirectory p)).isDirectory
  roots : ∀ n, 0 < s.vfs.mountCount n → (s.vfs.inodes n).isDirectory
  waits : ∀ p n, s.waiting p = some n →
    p < s.processes ∧ s.vfs.Live n ∧ (s.vfs.inodes n).parent ≠ none
  counted : ∀ n, s.vfs.Live n → ((s.vfs.inodes n).referenceCount : ℤ) =
    s.linkCount n + s.descriptionCount n + s.workingCount n + s.vfs.mountCount n + held n
  positive : ∀ n, s.vfs.Live n → 0 < (s.vfs.inodes n).referenceCount
  holding : ∀ n, held n ≠ 0 → s.vfs.Live n

/-! ## Holders come and go -/

section

variable (h : Tidy held s)
include h

lemma Tidy.describe (hlive : s.vfs.Live n)
    (hheld : ∀ m, held' m = held m - if m = n then 1 else 0) : Tidy held' (s.describe n) where
  tree := h.tree
  opened d m hd := by
    by_cases hnew : d = s.nextDescription
    · obtain rfl : n = m := by simpa [FileTree.describe, hnew] using hd
      exact ⟨hlive, hnew ▸ Nat.lt_succ_self _⟩
    · have hold := h.opened d m (by simpa [FileTree.describe, hnew] using hd)
      exact ⟨hold.1, Nat.lt_succ_of_lt hold.2⟩
  working := h.working
  roots := h.roots
  waits := h.waits
  counted m hm := by
    have hfresh : s.descriptions s.nextDescription = none := by
      cases hd : s.descriptions s.nextDescription with
      | none => rfl
      | some k => exact absurd (h.opened _ k hd).2 (Nat.lt_irrefl _)
    have hgrow : count (Finset.range (s.nextDescription + 1)) (· = some m) s.descriptions =
        s.descriptionCount m := by
      refine count_subset (Finset.range_mono (Nat.le_succ _)) fun d hd hnot => ?_
      obtain rfl : d = s.nextDescription := by
        have := mem_range.mp hd
        have : ¬ d < s.nextDescription := fun hlt => hnot (mem_range.mpr hlt)
        omega
      simp [hfresh]
    have hcnt := count_update (P := (· = some m)) (f := s.descriptions)
      (mem_range.mpr (Nat.lt_succ_self s.nextDescription)) (some n)
    have hdescs : (s.describe n).descriptionCount m =
        s.descriptionCount m + if m = n then 1 else 0 := by
      rw [hfresh, hgrow] at hcnt
      simpa [descriptionCount, FileTree.describe, eq_comm] using hcnt
    have hold := h.counted m hm
    rw [hdescs, hheld]
    change ((s.vfs.inodes m).referenceCount : ℤ) =
      s.linkCount m + _ + s.workingCount m + s.vfs.mountCount m + _
    split_ifs <;> push_cast <;> omega
  positive := h.positive
  holding m hm := by
    by_cases hmn : m = n
    · exact hmn ▸ hlive
    · exact h.holding m (by simpa [hheld, hmn] using hm)

lemma Tidy.undescribe (hd : s.descriptions d = some n)
    (hheld : ∀ m, held' m = held m + if m = n then 1 else 0) :
    Tidy held' { s with descriptions := Function.update s.descriptions d none } where
  tree := h.tree
  opened e m he := by
    by_cases hed : e = d
    · simp [hed] at he
    · exact h.opened e m (by simpa [hed] using he)
  working := h.working
  roots := h.roots
  waits := h.waits
  counted m hm := by
    have hcnt := count_update (P := (· = some m)) (f := s.descriptions)
      (mem_range.mpr (h.opened d n hd).2) none
    have hdescs : descriptionCount
        { s with descriptions := Function.update s.descriptions d none } m +
          (if m = n then 1 else 0) = s.descriptionCount m := by
      simpa [descriptionCount, hd, eq_comm] using hcnt
    have hold := h.counted m hm
    rw [hheld]
    change _ = (s.linkCount m : ℤ) + _ + s.workingCount m + s.vfs.mountCount m + _
    split_ifs at hdescs ⊢ <;> push_cast <;> omega
  positive := h.positive
  holding m hm := by
    by_cases hmn : m = n
    · exact hmn ▸ (h.opened d n hd).1
    · exact h.holding m (by simpa [hheld, hmn] using hm)

/-- A process takes over a reference on its new working directory and gives the one on the old
directory back. -/
lemma Tidy.settle (hp : p < s.processes) (hlive : s.vfs.Live n)
    (hdir : (s.vfs.inodes n).isDirectory)
    (hheld : ∀ m, held' m = held m + (if m = s.workingDirectory p then 1 else 0) -
      if m = n then 1 else 0) :
    Tidy held' { s with workingDirectory := Function.update s.workingDirectory p n } where
  tree := h.tree
  opened := h.opened
  working q hq := by
    by_cases hqp : q = p
    · simpa [hqp] using ⟨hlive, hdir⟩
    · simpa [hqp] using h.working q hq
  roots := h.roots
  waits := h.waits
  counted m hm := by
    have hcnt := count_update (P := (· = m)) (f := s.workingDirectory)
      (mem_range.mpr hp) n
    have hworking : workingCount
        { s with workingDirectory := Function.update s.workingDirectory p n } m +
          (if m = s.workingDirectory p then 1 else 0) =
        s.workingCount m + if m = n then 1 else 0 := by
      simpa [workingCount, eq_comm] using hcnt
    have hold := h.counted m hm
    rw [hheld]
    change _ = (s.linkCount m : ℤ) + s.descriptionCount m + _ + s.vfs.mountCount m + _
    split_ifs at hworking ⊢ <;> push_cast <;> omega
  positive := h.positive
  holding m hm := by
    by_cases hmn : m = n
    · exact hmn ▸ hlive
    · by_cases hmp : m = s.workingDirectory p
      · exact hmp ▸ (h.working p hp).1
      · exact h.holding m (by simpa [hheld, hmn, hmp] using hm)

/-! ## Reference counts -/

lemma Tidy.set {k : ℕ} (hlive : s.vfs.Live n) (hk : 0 < k) (hheld : ∀ m, held' m =
      held m + if m = n then (k : ℤ) - (s.vfs.inodes n).referenceCount else 0) :
    Tidy held' { s with vfs := s.vfs.set n { s.vfs.inodes n with referenceCount := k } } where
  tree := h.tree.set n k
  opened := h.opened
  working q hq := by
    rw [Inode.isDirectory, (sameTree_set s.vfs n k).type]
    exact h.working q hq
  roots m hm := by
    rw [Inode.isDirectory, (sameTree_set s.vfs n k).type]
    exact h.roots m ((sameTree_set s.vfs n k).mountCount m ▸ hm)
  waits q m hq := by
    rw [(sameTree_set s.vfs n k).parent]
    exact h.waits q m hq
  counted m hm := by
    have hsame := sameTree_set s.vfs n k
    have hold := h.counted m hm
    have hlink : linkCount { s with vfs := s.vfs.set n { s.vfs.inodes n with referenceCount := k } }
        m = s.linkCount m := by simp only [linkCount, hsame.parent]
    rw [hheld, hlink]
    simp only [hsame.mountCount, inodes_set]
    change _ = (s.linkCount m : ℤ) + s.descriptionCount m + s.workingCount m +
      s.vfs.mountCount m + _
    by_cases hmn : m = n
    · subst hmn
      simp only [if_true]
      omega
    · simp only [hmn, if_false]
      omega
  positive m hm := by
    simp only [inodes_set]
    split_ifs
    · exact hk
    · exact h.positive m hm
  holding m hm := by
    by_cases hmn : m = n
    · exact hmn ▸ hlive
    · exact h.holding m (by simpa [hheld, hmn] using hm)

lemma Tidy.ref (hlive : s.vfs.Live n) (hheld : ∀ m, held' m = held m + if m = n then 1 else 0) :
    Tidy held' { s with vfs := s.vfs.ref n } := by
  refine h.set hlive (Nat.succ_pos _) fun m => ?_
  rw [hheld]
  split_ifs <;> push_cast <;> omega

/-- The last reference goes.  Nothing but the name could have kept the inode, and that is gone, so
it is unlinked, and has no children. -/
lemma Tidy.destroy (hlive : s.vfs.Live n) (hlast : (s.vfs.inodes n).referenceCount = 1)
    (hone : held n = 1) (hheld : ∀ m, held' m = if m = n then 0 else held m) :
    (s.vfs.inodes n).children = [] ∧
    Tidy held' { s with vfs := { s.vfs.set n { s.vfs.inodes n with referenceCount := 0 } with
      destroyed := n :: s.vfs.destroyed } } := by
  have hcnt := h.counted n hlive
  have hpar : (s.vfs.inodes n).parent = none := by
    by_contra hsome
    have hlink : s.linkCount n = 1 := if_neg hsome
    omega
  have hmount : s.vfs.mountCount n = 0 := by omega
  have hunlinked : (s.vfs.inodes n).unlinked = true := by
    by_contra hnot
    have := h.tree.linked n hlive (by simpa using hnot) hpar
    omega
  have hempty := (h.tree.unlinked n hlive hunlinked).1
  have hsame := sameTree_set s.vfs n 0
  have hlive' : ∀ m, Live { s.vfs.set n { s.vfs.inodes n with referenceCount := 0 } with
      destroyed := n :: s.vfs.destroyed } m → s.vfs.Live m ∧ m ≠ n := by
    intro m hm
    have hnot := hm.2
    simp only [List.mem_cons, not_or] at hnot
    exact ⟨⟨hm.1, hnot.2⟩, hnot.1⟩
  have hstays : ∀ m, s.vfs.Live m → m ≠ n → Live { s.vfs.set n { s.vfs.inodes n with
      referenceCount := 0 } with destroyed := n :: s.vfs.destroyed } m := by
    intro m hm hne
    exact ⟨hm.1, fun hmem => (List.mem_cons.mp hmem).elim hne hm.2⟩
  have hset := h.tree.set n 0
  refine ⟨hempty, ⟨hset.bury hlive ?_ ?_ ?_, ?_, ?_, ?_, ?_, ?_, ?_, ?_⟩⟩
  · rw [hsame.parent, hpar]
  · rw [hsame.children, hempty]
  · rw [hsame.mountCount, hmount]
  · intro d m hd
    have hold := h.opened d m hd
    refine ⟨hstays m hold.1 ?_, hold.2⟩
    rintro rfl
    have hpos : 0 < s.descriptionCount m := by
      refine Nat.pos_of_ne_zero fun hzero => ?_
      exact count_eq_zero_iff.mp hzero d (mem_range.mpr hold.2) hd
    omega
  · intro q hq
    rw [Inode.isDirectory, hsame.type]
    refine ⟨hstays _ (h.working q hq).1 fun heq => ?_, (h.working q hq).2⟩
    have hpos : 0 < s.workingCount n := by
      refine Nat.pos_of_ne_zero fun hzero => ?_
      exact count_eq_zero_iff.mp hzero q (mem_range.mpr hq) heq
    omega
  · intro m hm
    rw [Inode.isDirectory, hsame.type]
    exact h.roots m (hsame.mountCount m ▸ hm)
  · -- whoever waits does so at an inode that has a name
    intro q m hq
    rw [hsame.parent]
    obtain ⟨hlt, hm, hnamed⟩ := h.waits q m hq
    refine ⟨hlt, hstays m hm ?_, hnamed⟩
    rintro rfl
    exact hnamed hpar
  · intro m hm
    obtain ⟨hm, hne⟩ := hlive' m hm
    have hold := h.counted m hm
    have hlink : linkCount { s with vfs := { s.vfs.set n { s.vfs.inodes n with
        referenceCount := 0 } with destroyed := n :: s.vfs.destroyed } } m = s.linkCount m := by
      simp only [linkCount, hsame.parent]
    have hmounts : mountCount { s.vfs.set n { s.vfs.inodes n with referenceCount := 0 } with
        destroyed := n :: s.vfs.destroyed } m = s.vfs.mountCount m := hsame.mountCount m
    rw [hheld, if_neg hne, hlink]
    simp only [hmounts, inodes_set, if_neg hne]
    exact hold
  · intro m hm
    obtain ⟨hm, hne⟩ := hlive' m hm
    simp only [inodes_set, if_neg hne]
    exact h.positive m hm
  · intro m hm
    have hne : m ≠ n := fun he => by simp [hheld, he] at hm
    exact hstays m (h.holding m (by simpa [hheld, hne] using hm)) hne

/-- `Inode::unref`, of a reference the caller holds.  The destructor has nothing to go down into. -/
lemma Tidy.unref (hone : held n = 1) (hheld : ∀ m, held' m = if m = n then 0 else held m) :
    Tidy held' { s with vfs := s.vfs.unref n } := by
  have hlive := h.holding n (by simp [hone])
  have hpos := h.positive n hlive
  obtain ⟨k, hk⟩ : ∃ k, s.vfs.next = k + 1 := ⟨s.vfs.next - 1, by have := hlive.1; omega⟩
  unfold Vfs.unref
  rw [hk]
  unfold Vfs.unrefWithin
  dsimp only
  split_ifs with hlast
  · obtain ⟨hempty, hgone⟩ := h.destroy hlive hlast hone hheld
    have hnone : ∀ t, (s.vfs.inodes n).children.foldl (Vfs.unrefWithin k) t = t := fun t => by
      rw [hempty]
      rfl
    rw [hnone, show (s.vfs.inodes n).referenceCount - 1 = 0 by omega]
    exact hgone
  · refine h.set hlive (by omega) fun m => ?_
    rw [hheld]
    split_ifs with hm
    · subst hm
      omega
    · rw [Int.add_zero]

/-! ## Names are made, moved and taken away -/

/-- The tree changes, and with it who has a name.  What loses its own is held by the call. -/
lemma Tidy.regrow {moved gone : Option ℕ} (hv : Regrown s.vfs moved gone d newName v')
    (hgrown : v'.Grown)
    (hcnt : ∀ n, s.vfs.Live n → (v'.inodes n).referenceCount = (s.vfs.inodes n).referenceCount)
    (hnew : ∀ n, ¬ s.vfs.Live n → moved = some n → (v'.inodes n).referenceCount = 1)
    (hnamed : ∀ n, moved = some n ∧ s.vfs.Live n ∨ gone = some n →
      s.vfs.Live n ∧ (s.vfs.inodes n).parent ≠ none)
    (hapart : ∀ n, gone = some n → moved ≠ some n)
    (hspared : ∀ n ∈ gone, ∀ p < s.processes, s.waiting p ≠ some n)
    (hheld : ∀ m, held' m = held m + if gone = some m then 1 else 0) :
    Tidy held' { s with vfs := v' } := by
  have hkeep : ∀ n, s.vfs.Live n → v'.Live n := fun n hn => (hv.live n).mpr (.inl hn)
  have hlive : ∀ n, v'.Live n → ¬ s.vfs.Live n → moved = some n := fun n hn hdead =>
    ((hv.live n).mp hn).resolve_left hdead
  refine ⟨hgrown, fun e n he => (h.opened e n he).imp_left (hkeep n), fun p hp => ?_,
    fun n hn => ?_, fun p n hp => ?_, fun n hn => ?_, fun n hn => ?_, fun n hn => ?_⟩
  · obtain ⟨hlive, hdir⟩ := h.working p hp
    exact ⟨hkeep _ hlive, (hv.isDirectory _ hlive).trans hdir⟩
  · rw [hv.mountCount] at hn
    have hlive : s.vfs.Live n := by
      by_contra hdead
      exact absurd (h.tree.wf.mountCount_eq_zero hdead) (Nat.ne_of_gt hn)
    exact (hv.isDirectory n hlive).trans (h.roots n hn)
  · obtain ⟨hlt, hlive, hnamed⟩ := h.waits p n hp
    refine ⟨hlt, hkeep n hlive, ?_⟩
    have hkept : gone ≠ some n := fun hgone => hspared n hgone p hlt hp
    rw [hv.parent, if_neg hkept]
    split_ifs
    · simp
    · exact hnamed
  · rw [hheld]
    change _ = (linkCount { s with vfs := v' } n : ℤ) + s.descriptionCount n + s.workingCount n +
      v'.mountCount n + _
    rw [hv.mountCount]
    by_cases hold : s.vfs.Live n
    · have hlink : (linkCount { s with vfs := v' } n : ℤ) + (if gone = some n then 1 else 0) =
          s.linkCount n := by
        simp only [linkCount, hv.parent]
        by_cases hg : gone = some n
        · simp [hg, (hnamed n (.inr hg)).2]
        · by_cases hm : moved = some n
          · simp [hg, hm, (hnamed n (.inl ⟨hm, hold⟩)).2]
          · simp [hg, hm]
      have hwas := h.counted n hold
      rw [hcnt n hold]
      omega
    · -- nobody holds the new inode but its name
      have hm := hlive n hn hold
      have hg : gone ≠ some n := fun hg => hapart n hg hm
      have hdescs : s.descriptionCount n = 0 :=
        count_eq_zero_iff.mpr fun e _ he => hold (h.opened e _ he).1
      have hworking : s.workingCount n = 0 :=
        count_eq_zero_iff.mpr fun p hp he => hold (he ▸ (h.working p (mem_range.mp hp)).1)
      have hmounts : s.vfs.mountCount n = 0 := h.tree.wf.mountCount_eq_zero hold
      have hnone : held n = 0 := by_contra fun hne => hold (h.holding _ hne)
      simp [hnew n hold hm, linkCount, hv.parent, hg, hm, hdescs, hworking, hmounts, hnone]
  · by_cases hold : s.vfs.Live n
    · simp only [hcnt n hold]
      exact h.positive n hold
    · simp only [hnew n hold (hlive n hn hold), Nat.one_pos]
  · by_cases hg : gone = some n
    · exact hkeep n (hnamed n (.inr hg)).1
    · exact hkeep n (h.holding n (by simpa [hheld, hg] using hn))

lemma Tidy.create {name : Text} (hnew : Created s.vfs d name type v') (hd : s.vfs.Live d)
    (hlink : (s.vfs.inodes d).unlinked = false) (hname : name ≠ [] ∧ SLASH ∉ name) :
    Tidy held { s with vfs := v' } := by
  have hgrown : v'.Grown := by
    refine h.tree.regrow (hnew.regrown h.tree hd) nofun fun n hn => ?_
    exact Option.some.inj hn ▸ hnew.welcome h.tree hd hlink hname
  refine h.regrow (hnew.regrown h.tree hd) hgrown (fun n hn => ?_) (fun n _ hm => ?_)
    (fun n hn => ?_) nofun nofun (by simp)
  · rw [hnew.old hn.1]
  · rw [← Option.some.inj hm, hnew.child, newInode]
  · rcases hn with ⟨hm, hlive⟩ | hn
    · exact absurd hlive.1 (Option.some.inj hm ▸ Nat.lt_irrefl _)
    · cases hn

lemma Tidy.detach {c : ℕ} (hd : s.vfs.Live d)
    (hc : c ∈ (s.vfs.inodes d).children) (hempty : (s.vfs.inodes c).children = [])
    (hspared : ∀ n ∈ some c, ∀ p < s.processes, s.waiting p ≠ some n)
    (hheld : ∀ m, held' m = held m + if some c = some m then 1 else 0) :
    Tidy held' { s with vfs := (s.vfs.removeChild d c).markUnlinked c } := by
  have hwas := h.tree.wf.child d c hd hc
  have hv := h.tree.regrown_detach hd hc
  refine h.regrow hv (h.tree.regrow hv (fun n hn => ?_) nofun) (fun n _ => by rw [inodes_detach])
    nofun
    (fun n hn => ?_) nofun hspared hheld
  · exact Option.some.inj hn ▸ ⟨hempty, nofun, fun _ => rfl⟩
  · obtain ⟨hn, -⟩ | hn := hn
    · cases hn
    · exact Option.some.inj hn ▸ ⟨hwas.1, by simp [hwas.2]⟩

/-- An entry moves.  The one it replaces, if there is one, loses its name. -/
lemma Tidy.relink {t : Vfs} {dir src dest : ℕ} {repl : Option ℕ}
    (hmovable : s.vfs.Movable dir src dest newName repl)
    (ht : Relinked s.vfs dir src dest newName repl t)
    (hspared : ∀ n ∈ repl, ∀ p < s.processes, s.waiting p ≠ some n)
    (hheld : ∀ m, held' m = held m + if repl = some m then 1 else 0) :
    Tidy held' { s with vfs := t } := by
  have hsrc := h.tree.wf.child dir src hmovable.leaves hmovable.entry
  refine h.regrow (hmovable.regrown h.tree ht) (hmovable.grown h.tree ht)
    (fun n _ => ht.referenceCount n)
    (fun n hdead hm => absurd hsrc.1 (Option.some.inj hm ▸ hdead)) (fun n hn => ?_)
    (fun n hold hm => hmovable.other (hold.trans hm.symm)) hspared hheld
  rcases hn with ⟨hm, -⟩ | hold
  · exact Option.some.inj hm ▸ ⟨hsrc.1, by simp [hsrc.2]⟩
  · have hwas := h.tree.wf.child dest n hmovable.arrives (hmovable.mem_destination hold)
    exact ⟨hwas.1, by simp [hwas.2]⟩

end

/-! ## Calls -/

/-- Between calls nobody holds a reference that is not accounted for. -/
def Settled (s : FileTree) : Prop := Tidy (fun _ => 0) s

/-- A name may be made here: the path ends in it, and its directory has not been removed.  Only a
`tmpfs` makes names at all. -/
def Placed (v : Vfs) (path : Text) (base : Option ℕ) : Prop :=
  ∀ e ∈ (v.resolveParent path base).toOption, v.kindOf e.1 = .tmpfs →
    EndsInName path ∧ (v.inodes e.1).unlinked = false

instance (v : Vfs) (path : Text) (base : Option ℕ) : Decidable (Placed v path base) :=
  inferInstanceAs (Decidable (∀ e ∈ _, _))

lemma Placed.name {base : Option ℕ} {name : Text}
    (h : Placed v path.bytes base) (hpar : v.resolveParent path.bytes base = .ok (d, name))
    (hkind : v.kindOf d = .tmpfs) :
    (name ≠ [] ∧ SLASH ∉ name) ∧ cut name = name ∧ (v.inodes d).unlinked = false := by
  obtain ⟨⟨hne, hslash⟩, hlink⟩ := h (d, name) (by simp [hpar, Except.toOption]) hkind
  obtain ⟨-, rfl⟩ := resolveParent_eq_ok hpar
  have hcut : cut (cut (finalPart path.bytes)) = cut (finalPart path.bytes) := by
    simp [cut, List.take_take]
  exact ⟨⟨by simpa [cut, FILENAME_MAX_LENGTH] using hne, hslash⟩, hcut, hlink⟩

lemma Tidy.liveBase (h : Tidy held s) (hp : p < s.processes) : s.vfs.LiveBase (s.base p) := by
  intro n hn
  obtain rfl : s.workingDirectory p = n := by simpa [base] using hn
  exact (h.working p hp).1

lemma Tidy.named_of_followMount (h : Tidy held s)
    (hn : (s.vfs.inodes n).isDirectory ∨ (s.vfs.inodes n).parent ≠ none) :
    (s.vfs.inodes (s.vfs.followMount n)).isDirectory ∨
      (s.vfs.inodes (s.vfs.followMount n)).parent ≠ none := by
  obtain heq | ⟨mount, hmem, -, heq⟩ := s.vfs.followMount_eq n
  · rwa [heq]
  · refine .inl (heq ▸ h.roots _ (Nat.pos_of_ne_zero fun hzero => ?_))
    exact (mountCount_eq_zero hzero hmem).2 rfl

lemma Tidy.create_of_placed {name : Text} (h : Tidy held s) (hp : p < s.processes)
    (hplaced : Placed s.vfs path.bytes (s.base p))
    (hpar : s.vfs.resolveParent path.bytes (s.base p) = .ok (d, name))
    (hcreate : s.vfs.create d name type mem = (r, v')) :
    Tidy held { s with vfs := v' } ∧
      ∀ n, r = .ok n → v'.Live n ∧ (v'.inodes n).parent ≠ none := by
  have hd := h.tree.wf.resolveParent_live (h.liveBase hp) hpar
  obtain ⟨e, rfl, rfl⟩ | ⟨rfl, hnew⟩ := create_cases hd.1 hcreate
  · exact ⟨h, fun n hn => nomatch hn⟩
  · obtain ⟨hname, -, hlink⟩ := hplaced.name hpar hnew.kind
    refine ⟨h.create hnew hd hlink hname, fun n hn => ?_⟩
    obtain rfl : s.vfs.next = n := by simpa using hn
    exact ⟨hnew.live_next h.tree, by simp [hnew.child, newInode]⟩

/-- What a walk leads to is a directory, or has a name. -/
lemma Tidy.named_of_walk (h : Tidy held s) {cs : List Text} {x : ℕ} (hlive : s.vfs.Live x)
    (hx : (s.vfs.inodes x).isDirectory ∨ (s.vfs.inodes x).parent ≠ none)
    (hwalk : s.vfs.walk cs x = .ok n) :
    (s.vfs.inodes n).isDirectory ∨ (s.vfs.inodes n).parent ≠ none := by
  refine (walk_invariant (I := fun x => s.vfs.Live x ∧
      ((s.vfs.inodes x).isDirectory ∨ (s.vfs.inodes x).parent ≠ none))
    (fun c x y ⟨hlive, hx⟩ henter => ⟨h.tree.wf.enter_live hlive henter, ?_⟩) ⟨hlive, hx⟩ hwalk).2
  obtain ⟨-, rfl⟩ | ⟨-, rfl⟩ | ⟨-, -, child, hlook, rfl⟩ := enter_eq_ok henter
  · exact hx
  · cases hpar : (s.vfs.inodes x).parent with
    | none => exact hx
    | some d => exact .inl (h.tree.wf.parent x d hlive hpar).2
  · have hchild := h.tree.wf.child x child hlive (findChild_mem (lookup_eq_ok hlook).2).1
    exact h.named_of_followMount (.inr (by simp [hchild.2]))

lemma Tidy.named_of_resolve (h : Tidy held s) (hp : p < s.processes)
    (hfound : s.vfs.resolve path.bytes (s.base p) = .ok n) :
    (s.vfs.inodes n).isDirectory ∨ (s.vfs.inodes n).parent ≠ none := by
  refine h.named_of_walk (h.tree.wf.origin_live (h.liveBase hp) path.bytes)
    (h.named_of_followMount (.inl ?_)) hfound
  unfold startOf
  split_ifs
  · exact h.roots _ h.tree.mounted
  · exact (h.working p hp).2

lemma Tidy.createDescription (h : Tidy held s) (hlive : s.vfs.Live n) :
    Tidy held (s.createDescription n mem) := by
  unfold FileTree.createDescription
  split_ifs
  · have href : Tidy (fun m => held m + if m = n then 1 else 0) { s with vfs := s.vfs.ref n } :=
      h.ref hlive fun m => rfl
    exact href.describe hlive fun m => by simp
  · exact h

/-- An `open` comes to wait, or has done so. -/
lemma Tidy.setWaiting (h : Tidy held s) (hp : p < s.processes) (fifo : Option ℕ)
    (hfifo : ∀ n ∈ fifo, s.vfs.Live n ∧ (s.vfs.inodes n).parent ≠ none) :
    Tidy held { s with waiting := Function.update s.waiting p fifo } :=
  { h with
    waits := (Function.forall_update_iff s.waiting fun q w => ∀ n, w = some n →
      q < s.processes ∧ s.vfs.Live n ∧ (s.vfs.inodes n).parent ≠ none).mpr
        ⟨fun n hn => ⟨hp, hfifo n hn⟩, fun q _ => h.waits q⟩ }

lemma Tidy.openInode {flags : BitVec 32} (h : Tidy held s) (hp : p < s.processes)
    (hlive : s.vfs.Live n)
    (hnamed : (s.vfs.inodes n).isDirectory ∨ (s.vfs.inodes n).parent ≠ none) :
    Tidy held (s.openInode p n flags mem) := by
  unfold FileTree.openInode
  split_ifs with hrefused hwaits
  · exact h
  · refine h.setWaiting hp _ fun m hm => ?_
    obtain rfl := Option.some.inj hm
    exact ⟨hlive, hnamed.resolve_left (by simp [Inode.isDirectory, hwaits.1.1])⟩
  · exact h.createDescription hlive

/-- What `unlink` and `rename` take the name away from. -/
def victim (v : Vfs) (path : Text) (base : Option ℕ) : Option ℕ :=
  (v.resolveParent path base).toOption.bind fun e => v.findChild (v.inodes e.1).children e.2

/-- Nobody waits at what a path names. -/
def Spares (s : FileTree) (path : Text) (base : Option ℕ) : Prop :=
  ∀ n ∈ victim s.vfs path base, ∀ p < s.processes, s.waiting p ≠ some n

instance (path : Text) (base : Option ℕ) : Decidable (s.Spares path base) :=
  inferInstanceAs (Decidable (∀ n ∈ _, _))

lemma Spares.findChild {base : Option ℕ} {name : Text} (h : s.Spares path.bytes base)
    (hpar : s.vfs.resolveParent path.bytes base = .ok (d, name)) :
    ∀ n ∈ s.vfs.findChild (s.vfs.inodes d).children name, ∀ p < s.processes,
      s.waiting p ≠ some n :=
  fun n hn => h n (by simpa [victim, hpar, Except.toOption] using hn)

/-- What the calls that make names and take them away must not do. -/
def Proper (s : FileTree) (a : ℕ × FileCall) : Prop :=
  match a.2 with
  | .open path flags _ _ => flags &&& O_CREAT ≠ 0 →
      (s.vfs.resolve path.bytes (s.base a.1)).isOk = false →
        Placed s.vfs path.bytes (s.base a.1)
  | .mkdir path _ | .mkfifo path _ => (s.vfs.resolve path.bytes (s.base a.1)).isOk = false →
      Placed s.vfs path.bytes (s.base a.1)
  | .unlink path | .rmdir path => s.Spares path.bytes (s.base a.1)
  | .rename _ destination _ =>
      Placed s.vfs destination.bytes (s.base a.1) ∧ s.Spares destination.bytes (s.base a.1)
  | _ => True

instance (s : FileTree) (a : ℕ × FileCall) : Decidable (Proper s a) := by
  obtain ⟨p, call⟩ := a
  cases call <;> unfold Proper <;> infer_instance

section Calls

variable (h : Settled s) (hp : p < s.processes)
include h hp

lemma Settled.makeNode (hplaced : (s.vfs.resolve path.bytes (s.base p)).isOk = false →
      Placed s.vfs path.bytes (s.base p)) :
    Settled { s with vfs := (s.vfs.makeNode type path.bytes (s.base p) mem).2 } := by
  generalize hmake : s.vfs.makeNode type path.bytes (s.base p) mem = result
  obtain ⟨r, v'⟩ := result
  obtain ⟨e, -, rfl⟩ | ⟨e, d, name, hfail, hpar, hcreate⟩ := makeNode_cases hmake
  · exact h
  · exact (Tidy.create_of_placed h hp (hplaced (by rw [hfail]; rfl)) hpar hcreate).1

lemma Settled.sysOpen {flags : BitVec 32} {made : Bool}
    (hplaced : flags &&& O_CREAT ≠ 0 → (s.vfs.resolve path.bytes (s.base p)).isOk = false →
      Placed s.vfs path.bytes (s.base p)) : Settled (s.sysOpen p path flags made mem) := by
  unfold FileTree.sysOpen
  generalize hfind : s.vfs.findOrCreate path.bytes flags (s.base p) made = result
  obtain ⟨r, v'⟩ := result
  obtain ⟨e, rfl, rfl⟩ | ⟨n, rfl, rfl, hfound⟩ | ⟨d, name, hfail, hflag, hpar, hcreate⟩ :=
    findOrCreate_cases hfind
  · exact h
  · exact Tidy.openInode h hp (h.tree.wf.resolve_live (h.liveBase hp) hfound)
      (h.named_of_resolve hp hfound)
  · obtain ⟨htidy, hnew⟩ :=
      Tidy.create_of_placed h hp (hplaced hflag (by rw [hfail]; rfl)) hpar hcreate
    cases r with
    | error e => exact htidy
    | ok n => exact htidy.openInode hp (hnew n rfl).1 (.inr (hnew n rfl).2)

lemma Settled.arrive : Settled (s.arrive p mem) := by
  unfold FileTree.arrive
  split
  · exact h
  next n hn =>
  exact (h.setWaiting hp none nofun).createDescription (h.waits p n hn).2.1

lemma Settled.sysUnlinkCommon {mustBeDirectory : Bool}
    (hspares : s.Spares path.bytes (s.base p)) : Settled { s with
      vfs := (s.vfs.sysUnlinkCommon path.bytes (s.base p) mustBeDirectory).2 } := by
  generalize hcall : s.vfs.sysUnlinkCommon path.bytes (s.base p) mustBeDirectory = result
  obtain ⟨r, v'⟩ := result
  obtain rfl | ⟨d, name, hpar, hunlink⟩ := sysUnlinkCommon_cases hcall
  · exact h
  have hd := h.tree.wf.resolveParent_live (h.liveBase hp) hpar
  obtain rfl | ⟨child, -, hfind, hempty, rfl⟩ := unlink_cases hunlink
  · exact h
  have hmem := (findChild_mem hfind).1
  have hkids : (s.vfs.inodes child).children = [] := by
    cases hdir : (s.vfs.inodes child).isDirectory with
    | true => exact hempty hdir
    | false => exact h.tree.files child (h.tree.wf.child d child hd hmem).1 hdir
  have hdetached := Tidy.detach h hd hmem hkids (hfind ▸ hspares.findChild hpar) fun m => rfl
  exact hdetached.unref (n := child) (by simp) fun m => by split_ifs <;> simp_all

omit h hp in
lemma movable_of_renaming {v v' : Vfs} {fromPath toPath : Path} {base : Option ℕ}
    {dir src dest : ℕ} {newName : Text} {repl : Option ℕ} (h : v.Grown) (hbase : v.LiveBase base)
    (hren : v.Renaming fromPath.bytes toPath.bytes base dir src dest newName)
    (hmoves : Renaming.Moves v dir src dest newName repl v')
    (hplaced : Placed v toPath.bytes base) : v.Movable dir src dest newName repl := by
  have htrans := Renaming.transfer h.toIsTree hbase hren hmoves
  have hkind : v.kindOf dest = .tmpfs := by
    have := hren.kind
    rwa [kindOf, hren.sameFilesystem] at this
  obtain ⟨hname, -, hlink⟩ := hplaced.name hren.toParent hkind
  exact { htrans with linked := hlink, name := hname }

lemma Settled.rename {dest : Path} (hplaced : Placed s.vfs dest.bytes (s.base p))
    (hspares : s.Spares dest.bytes (s.base p)) : Settled { s with
      vfs := (s.vfs.rename path.bytes dest.bytes (s.base p) mem).2 } := by
  generalize hcall : s.vfs.rename path.bytes dest.bytes (s.base p) mem = result
  obtain ⟨r, v'⟩ := result
  cases r with
  | error e =>
    obtain rfl := rename_eq_error hcall
    exact h
  | ok u =>
    obtain ⟨dir, src, target, newName, hren, ⟨-, rfl⟩ | ⟨repl, hmoves⟩⟩ :=
      rename_eq_ok hcall
    · exact h
    have hmovable := movable_of_renaming h.tree (h.liveBase hp) hren hmoves hplaced
    obtain rfl := hmoves.2.2.2
    obtain ⟨t, ht, hmove⟩ := s.vfs.move_eq dir src target newName repl
    have hrelinked := Tidy.relink h hmovable ht
      (hmoves.1 ▸ hspares.findChild hren.toParent) fun m => rfl
    simp only [hmove]
    cases repl with
    | none => simpa [Settled] using hrelinked
    | some old =>
      refine hrelinked.unref (n := old) (by simp) fun m => ?_
      by_cases hm : m = old
      · simp [hm]
      · simp [hm, Ne.symm hm]

omit h hp in
lemma Settled.closeDescription (h : Settled s) (d : ℕ) : Settled (s.closeDescription d) := by
  unfold FileTree.closeDescription
  split
  · exact h
  · next n hd =>
      have hundescribed := Tidy.undescribe h hd fun m => rfl
      exact hundescribed.unref (by simp) fun m => by split_ifs <;> simp_all

lemma Settled.sysChdir : Settled (s.sysChdir p path) := by
  unfold FileTree.sysChdir
  split
  · exact h
  · next n hfound =>
      have hlive := h.tree.wf.resolve_live (h.liveBase hp) hfound
      split_ifs with hdir
      · have href := Tidy.ref h hlive fun m => rfl
        have hdir' : ((s.vfs.ref n).inodes n).isDirectory := by
          rw [Vfs.ref, Inode.isDirectory, (sameTree_set s.vfs n _).type]
          exact hdir
        have hsettled := href.settle hp hlive hdir' fun m => rfl
        refine hsettled.unref (by simp) fun m => ?_
        split_ifs <;> simp_all
      · exact h

end Calls

lemma Settled.step {a : ℕ × FileCall} (h : Settled s) (hprop : Proper s a)
    (hstep : s.step a = some s') : Settled s' := by
  unfold FileTree.step at hstep
  split_ifs at hstep with hp
  obtain ⟨p, call⟩ := a
  obtain rfl : s.call p call = s' := by simpa using hstep
  cases call with
  | «open» => exact h.sysOpen hp.1 hprop
  | arrive => exact h.arrive hp.1
  | close d => exact h.closeDescription d
  | mkdir | mkfifo => exact h.makeNode hp.1 hprop
  | unlink | rmdir => exact h.sysUnlinkCommon hp.1 hprop
  | rename => exact h.rename hp.1 hprop.1 hprop.2
  | chdir => exact h.sysChdir hp.1

/-! ## Runs -/

lemma booted_live (processes : ℕ) {n : ℕ} :
    (booted processes).vfs.Live n ↔ n = 0 ∨ n = 1 ∨ n = 2 := by
  have hnext : (booted processes).vfs.next = 3 := rfl
  have hgone : (booted processes).vfs.destroyed = [] := rfl
  simp only [Live, hnext, hgone, List.not_mem_nil, not_false_eq_true, and_true]
  omega

lemma booted_grown (processes : ℕ) : (booted processes).vfs.Grown := by
  have hlive := fun n => booted_live processes (n := n)
  have hnumbered : (booted processes).vfs.Numbered := of_decide_eq_true rfl
  refine ⟨⟨hnumbered.wellFormed, ?_, ?_, ?_⟩, ?_, ?_, ?_, ?_, ?_⟩
  · intro n d hn hd
    obtain rfl | rfl | rfl := (hlive n).mp hn
    · simp [booted] at hd
    · obtain rfl : 0 = d := by simpa [booted] using hd
      simp [booted]
    · simp [booted] at hd
  · intro d c hd hc
    obtain rfl | rfl | rfl := (hlive d).mp hd
    · obtain rfl : c = 1 := by simpa [booted] using hc
      simp [booted, SLASH]
    · simp [booted] at hc
    · simp [booted] at hc
  · intro n hn hfile
    obtain rfl | rfl | rfl := (hlive n).mp hn <;> simp [booted, Inode.isDirectory] at hfile
  · intro n hn hmark
    obtain rfl | rfl | rfl := (hlive n).mp hn <;> simp [booted] at hmark
  · intro n hn _ hpar
    obtain rfl | rfl | rfl := (hlive n).mp hn <;> simp [booted, mountCount] at hpar ⊢
  · simp [booted, mountCount, rootInode]
  · exact List.nodup_nil
  · intro n hn
    cases hn

lemma booted_settled (processes : ℕ) : Settled (booted processes) where
  tree := booted_grown processes
  opened d n hd := nomatch hd
  working p _ := ⟨(booted_live processes).mpr (Or.inl rfl), rfl⟩
  roots n _ := by
    unfold booted
    dsimp only
    split <;> rfl
  waits p n hp := nomatch hp
  counted n hn := by
    have hdescs : (booted processes).descriptionCount n = 0 := rfl
    have hworking : (booted processes).workingCount n = if n = 0 then processes else 0 := by
      by_cases hzero : n = 0 <;> simp [workingCount, count, booted, hzero, eq_comm]
    obtain rfl | rfl | rfl := (booted_live processes).mp hn <;>
      simp [hdescs, hworking] <;> simp [booted, linkCount, mountCount, Int.add_comm]
  positive n hn := by
    obtain rfl | rfl | rfl := (booted_live processes).mp hn <;> simp [booted]
  holding n hn := absurd rfl hn

/-- The directory entries that name an inode. -/
def entryCount (v : Vfs) (n : ℕ) : ℕ :=
  ∑ d ∈ (Finset.range v.next).filter (· ∉ v.destroyed), (v.inodes d).children.count n

/-- All that holds an inode. -/
def holders (s : FileTree) (n : ℕ) : ℕ :=
  entryCount s.vfs n + s.descriptionCount n + s.workingCount n + s.vfs.mountCount n

/-- The directories are trees of distinct names, pointers up lead to what is there, and an inode is
there for exactly as long as something holds it. -/
structure Sound (s : FileTree) : Prop where
  acyclic : ∀ n, s.vfs.Live n → ¬ Relation.TransGen
    (fun d c => s.vfs.Live d ∧ c ∈ (s.vfs.inodes d).children) n n
  distinct : ∀ d, s.vfs.Live d →
    ((s.vfs.inodes d).children.map fun c => (s.vfs.inodes c).name).Nodup
  named : ∀ d c, s.vfs.Live d → c ∈ (s.vfs.inodes d).children →
    (s.vfs.inodes c).name ≠ [] ∧ SLASH ∉ (s.vfs.inodes c).name
  child : ∀ d c, s.vfs.Live d → c ∈ (s.vfs.inodes d).children →
    s.vfs.Live c ∧ (s.vfs.inodes c).parent = some d
  parent : ∀ n d, s.vfs.Live n → (s.vfs.inodes n).parent = some d → s.vfs.Live d
  counted : ∀ n, s.vfs.Live n → (s.vfs.inodes n).referenceCount = s.holders n
  destroyed : ∀ n, n < s.vfs.next → (n ∈ s.vfs.destroyed ↔ s.holders n = 0)
  once : s.vfs.destroyed.Nodup

lemma entryCount_eq (h : v.Grown) (hn : v.Live n) :
    entryCount v n = if (v.inodes n).parent = none then 0 else 1 := by
  have hlive : ∀ d, d ∈ (Finset.range v.next).filter (· ∉ v.destroyed) ↔ v.Live d := fun d => by
    simp [Live]
  have hother : ∀ d, v.Live d → (v.inodes n).parent ≠ some d →
      (v.inodes d).children.count n = 0 := fun d hd hne =>
    List.count_eq_zero.mpr fun hmem => hne (h.wf.child d n hd hmem).2
  cases hpar : (v.inodes n).parent with
  | none =>
    refine Finset.sum_eq_zero fun d hd => hother d ((hlive d).mp hd) ?_
    simp [hpar]
  | some d =>
    have hd := (h.wf.parent n d hn hpar).1
    unfold entryCount
    rw [Finset.sum_eq_single_of_mem d ((hlive d).mpr hd) fun e he hne =>
      hother e ((hlive e).mp he) (by simpa [hpar] using Ne.symm hne)]
    simpa using List.count_eq_one_of_mem (h.wf.nodup hd) (h.listed n d hn hpar)

lemma Settled.holders_eq_zero (h : Settled s) (hdead : ¬ s.vfs.Live n) : s.holders n = 0 := by
  have hentries : entryCount s.vfs n = 0 := by
    refine Finset.sum_eq_zero fun d hd => List.count_eq_zero.mpr fun hmem => ?_
    have hd : s.vfs.Live d := by simpa [Live] using hd
    exact hdead (h.tree.wf.child d n hd hmem).1
  have hdescs : s.descriptionCount n = 0 :=
    count_eq_zero_iff.mpr fun d _ hd => hdead (h.opened d n hd).1
  have hworking : s.workingCount n = 0 := count_eq_zero_iff.mpr fun p hp hd =>
    hdead (hd ▸ (h.working p (mem_range.mp hp)).1)
  have hmounts : s.vfs.mountCount n = 0 := h.tree.wf.mountCount_eq_zero hdead
  simp only [holders, hentries, hdescs, hworking, hmounts]

lemma Settled.sound (h : Settled s) : Sound s where
  acyclic n hn hloop := by
    refine Forest.not_transGen_self (h.tree.wf.rooted n hn) (hloop.lift id ?_)
    exact fun d c hdc => (h.tree.wf.child d c hdc.1 hdc.2).2
  distinct := h.tree.wf.names
  named := h.tree.valid
  child := h.tree.wf.child
  parent n d hn hd := (h.tree.wf.parent n d hn hd).1
  counted n hn := by
    have hcnt := h.counted n hn
    have hentries : entryCount s.vfs n = s.linkCount n := entryCount_eq h.tree hn
    unfold holders
    omega
  destroyed n hn := by
    constructor
    · exact fun hmem => h.holders_eq_zero fun hlive => hlive.2 hmem
    · intro hzero
      by_contra hnot
      have hcnt := h.counted n ⟨hn, hnot⟩
      have hpos := h.positive n ⟨hn, hnot⟩
      have hentries : entryCount s.vfs n = s.linkCount n := entryCount_eq h.tree ⟨hn, hnot⟩
      unfold holders at hzero
      omega
  once := h.tree.once

/-- In every run of any number of processes, from the tree the kernel starts with, in which names
are made only where `Placed` allows it, the tree and the reference counts are sound in every state.
-/
theorem tree_sound (processes : ℕ) (calls : List (ℕ × FileCall)) {s' : FileTree}
    (hproper : Along step Proper (booted processes) calls)
    (hrun : run step (booted processes) calls = some s') : Sound s' :=
  (run_invariant (I := Settled) (fun _ _ _ h hproper hstep => h.step hproper hstep) calls
    (booted processes) s' (booted_settled processes) hproper hrun).sound

/-- `/tmp/d` -/
def tmpD : Path := ⟨[0x2f, 0x74, 0x6d, 0x70, 0x2f, 0x64], by decide, by decide⟩

/-- `/tmp/e` -/
def tmpE : Path := ⟨[0x2f, 0x74, 0x6d, 0x70, 0x2f, 0x65], by decide, by decide⟩

/-- A directory is made, entered, moved, removed and left again; then a process waits at a FIFO and
opens it. -/
def visit : List (ℕ × FileCall) :=
  [(0, .mkdir tmpD true), (1, .chdir tmpD), (0, .rename tmpD tmpE true), (0, .rmdir tmpE),
    (1, .chdir ⟨[SLASH], by decide, by decide⟩), (0, .mkfifo tmpD true),
    (1, .open tmpD O_RDONLY true true), (0, .rename tmpD tmpE true), (1, .arrive true)]

theorem tree_sound_visit : Along step Proper (booted 2) visit ∧
    ∃ s', run step (booted 2) visit = some s' ∧ s'.vfs.destroyed = [3] ∧
      s'.descriptions 0 = some 4 ∧ Sound s' := by
  have hproper : Along step Proper (booted 2) visit := by decide +kernel
  refine ⟨hproper, exists_run_of_map (fun s' => (s'.vfs.destroyed, s'.descriptions 0))
    ([3], some 4) (by decide +kernel) fun s' hrun heq => ?_⟩
  obtain ⟨hdestroyed, hdescription⟩ : s'.vfs.destroyed = [3] ∧ s'.descriptions 0 = some 4 := by
    simpa using heq
  exact ⟨hdestroyed, hdescription, tree_sound 2 visit hproper hrun⟩

/-- Two processes; one makes a file in its working directory after the other has removed that, and
leaves it. -/
def orphan : List (ℕ × FileCall) :=
  [(0, .mkdir tmpD true), (1, .chdir tmpD), (0, .rmdir tmpD),
    (1, .open ⟨[0x66], by decide, by decide⟩ O_CREAT true true),
    (1, .chdir ⟨[SLASH], by decide, by decide⟩)]

/-- A process opens a FIFO for reading, and while it waits for a writer, the other removes the
FIFO. -/
def fifoRemoved : List (ℕ × FileCall) :=
  [(0, .mkfifo tmpD true), (1, .open tmpD O_RDONLY true true), (0, .unlink tmpD),
    (1, .arrive true)]

/-- In the first run the directory is destroyed with a file in it that is still open, and the file
keeps its pointer to the directory.  In the second the FIFO is destroyed, and then has a description
onto it. -/
theorem parent_or_fifo_destroyed :
    (∃ s', run step (booted 2) orphan = some s' ∧ s'.vfs.Live 4 ∧
      (s'.vfs.inodes 4).parent = some 3 ∧ 3 ∈ s'.vfs.destroyed ∧ ¬ Sound s') ∧
    ∃ s', run step (booted 2) fifoRemoved = some s' ∧ s'.descriptions 0 = some 3 ∧
      3 ∈ s'.vfs.destroyed ∧ ¬ Sound s' := by
  constructor
  · refine exists_run_of_map (fun s' => (s'.vfs.next, s'.vfs.destroyed, (s'.vfs.inodes 4).parent))
      (5, [3], some 3) (by decide +kernel) fun s' _ heq => ?_
    obtain ⟨hnext, hdestroyed, hparent⟩ : s'.vfs.next = 5 ∧ s'.vfs.destroyed = [3] ∧
        (s'.vfs.inodes 4).parent = some 3 := by simpa using heq
    have hlive : s'.vfs.Live 4 := by simp [Vfs.Live, hnext, hdestroyed]
    have hdead : 3 ∈ s'.vfs.destroyed := by simp [hdestroyed]
    exact ⟨hlive, hparent, hdead, fun hsound => (hsound.parent 4 3 hlive hparent).2 hdead⟩
  · refine exists_run_of_map (fun s' => (s'.vfs.next, s'.vfs.destroyed, s'.descriptions 0,
      s'.descriptionCount 3)) (4, [3], some 3, 1) (by decide +kernel) fun s' _ heq => ?_
    obtain ⟨hnext, hdestroyed, hdescription, hcount⟩ : s'.vfs.next = 4 ∧ s'.vfs.destroyed = [3] ∧
        s'.descriptions 0 = some 3 ∧ s'.descriptionCount 3 = 1 := by simpa using heq
    have hdead : 3 ∈ s'.vfs.destroyed := by simp [hdestroyed]
    refine ⟨hdescription, hdead, fun hsound => ?_⟩
    have hnone := (hsound.destroyed 3 (by omega)).mp hdead
    unfold holders at hnone
    omega

end FileTree
end ShitOs
