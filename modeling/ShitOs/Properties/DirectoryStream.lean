import ShitOs.Construction.DirectoryStream
import ShitOs.Framework.Transition
import ShitOs.Properties.Vfs

/-!
# What a reader of a directory gets to see

The cursor of an open directory is an index into a vector that others change.  Unlinking and
renaming take an entry out, and everything behind it moves down by one.  If the cursor had passed
it, the cursor now stands behind an entry that has not been returned.

Nothing else goes wrong.  As long as no call brings an entry to the other side of the cursor
(`Keeps`), it has been returned just if the cursor has passed it (`Counted`).  So when the end is
reported, an entry that was there all the time has been returned once (`directory_listed`).
-/

namespace ShitOs

open Transition

/-! ## Every inode is in one directory -/

namespace Vfs

variable {s s' : Vfs} {d dest dir x : ℕ} {name newName : Text} {type : InodeType}
  {mem : Bool}

/-- No inode is listed twice, and names fit into `m_name`. -/
structure Linked (s : Vfs) : Prop where
  below : ∀ d, ∀ c ∈ (s.inodes d).children, c < s.next
  nodup : ∀ d, (s.inodes d).children.Nodup
  one : ∀ d e c, c ∈ (s.inodes d).children → c ∈ (s.inodes e).children → d = e
  short : ∀ n, (s.inodes n).name.length < FILENAME_MAX_LENGTH

lemma next_unrefWithin (depth : ℕ) (s : Vfs) (n : ℕ) : (unrefWithin depth s n).next = s.next := by
  induction depth generalizing s n with
  | zero => rfl
  | succ depth ih =>
    have hfold : ∀ (ns : List ℕ) (t : Vfs), (ns.foldl (unrefWithin depth) t).next = t.next := by
      intro ns
      induction ns with
      | nil => exact fun t => rfl
      | cons m ns ihns => exact fun t => (ihns _).trans (ih t m)
    unfold unrefWithin
    dsimp only
    split_ifs
    · exact hfold _ _
    · rfl

lemma unlink_children (d : ℕ) (name : Text) :
    (s.unlink d name).2 = s ∨ ∃ child, s.findChild (s.inodes d).children name = some child ∧
      (s.unlink d name).1.isOk ∧ (s.unlink d name).2.next = s.next ∧
      ∀ n, ((s.unlink d name).2.inodes n).name = (s.inodes n).name ∧
        ((s.unlink d name).2.inodes n).children =
          if n = d then (s.inodes n).children.erase child else (s.inodes n).children := by
  rcases hres : s.unlink d name with ⟨r, t⟩
  rcases unlink_cases hres with hsame | ⟨child, rfl, hfind, -, heq⟩
  · exact .inl hsame
  · refine .inr ⟨child, hfind, rfl, ?_, fun n => ?_⟩
    · rw [heq]
      exact next_unrefWithin _ _ _
    · have hsame := sameTree_unrefWithin ((s.removeChild d child).markUnlinked child).next
        ((s.removeChild d child).markUnlinked child) child
      rw [heq, unref, hsame.name, hsame.children, inodes_markUnlinked, inodes_removeChild]
      exact ⟨rfl, rfl⟩

lemma renameEntry_children (dir : ℕ) (name : Text) (dest : ℕ) (newName : Text) (mem : Bool) :
    (s.renameEntry dir name dest newName mem).2 = s ∨
      ∃ src, s.findChild (s.inodes dir).children name = some src ∧
        (s.renameEntry dir name dest newName mem).1.isOk ∧
        s.findChild (s.inodes dest).children newName ≠ some src ∧
        (s.renameEntry dir name dest newName mem).2.next = s.next ∧
        Moved s dir src dest newName (s.findChild (s.inodes dest).children newName)
          (s.renameEntry dir name dest newName mem).2 := by
  by_cases hkind : s.kindOf dir ≠ .tmpfs
  · exact .inl (by rw [renameEntry, if_pos hkind])
  rw [renameEntry, if_neg hkind]
  rcases hres : s.tmpfsRename dir name dest newName mem with ⟨_ | _, t⟩
  · exact .inl (tmpfsRename_eq_error hres)
  · obtain ⟨-, src, hsrc, ⟨-, hstays⟩ | ⟨repl, hrepl, hother, -, hmoves⟩⟩ := tmpfsRename_eq_ok hres
    · exact .inl hstays
    · refine .inr ⟨src, hsrc, rfl, hrepl ▸ hother, ?_, ?_⟩
      · obtain ⟨u, hu, heq⟩ := move_eq s dir src dest newName repl
        rw [hmoves, heq]
        cases repl with
        | none => exact hu.next
        | some old => exact (next_unrefWithin _ _ _).trans hu.next
      · rw [hrepl]
        exact hmoves ▸ moved_move s dir src dest newName repl

lemma Linked.create (h : s.Linked) (hd : d < s.next) : (s.create d name type mem).2.Linked := by
  rcases hres : s.create d name type mem with ⟨r, t⟩
  obtain ⟨e, -, rfl⟩ | ⟨-, hcreated⟩ := create_cases hd hres
  · exact h
  dsimp only
  -- Only the dir and the new inode change.
  have hkids : ∀ n c, c ∈ (t.inodes n).children →
      c ∈ (s.inodes n).children ∨ n = d ∧ c = s.next := by
    intro n c hc
    by_cases hn : n = d
    · rw [hn, hcreated.directory] at hc
      rcases List.mem_append.mp hc with hc | hc
      · exact .inl (hn ▸ hc)
      · exact .inr ⟨hn, List.mem_singleton.mp hc⟩
    · by_cases hnext : n = s.next
      · rw [hnext, hcreated.child] at hc
        exact absurd hc (by simp [newInode])
      · rw [hcreated.other n hn hnext] at hc
        exact .inl hc
  have hnew : ∀ n, s.next ∉ (s.inodes n).children := fun n hmem =>
    Nat.lt_irrefl _ (h.below n _ hmem)
  refine ⟨fun n c hc => ?_, fun n => ?_, fun n m c hn hm => ?_, fun n => ?_⟩
  · rw [hcreated.next]
    rcases hkids n c hc with hc | ⟨-, rfl⟩
    · exact Nat.lt_succ_of_lt (h.below n c hc)
    · exact Nat.lt_succ_self _
  · by_cases hn : n = d
    · rw [hn, hcreated.directory]
      refine List.nodup_append.mpr ⟨h.nodup d, List.pairwise_singleton _ _, fun c hc c' hc' => ?_⟩
      rw [List.mem_singleton.mp hc']
      rintro rfl
      exact hnew d hc
    · by_cases hnext : n = s.next
      · rw [hnext, hcreated.child]
        exact List.nodup_nil
      · rw [hcreated.other n hn hnext]
        exact h.nodup n
  · rcases hkids n c hn with hn | ⟨hnd, hc⟩ <;> rcases hkids m c hm with hm | ⟨hmd, hc'⟩
    · exact h.one n m c hn hm
    · exact absurd (hc' ▸ hn) (hnew n)
    · exact absurd (hc ▸ hm) (hnew m)
    · exact hnd.trans hmd.symm
  · by_cases hnext : n = s.next
    · rw [hnext, hcreated.child]
      exact Nat.lt_of_le_of_lt (List.length_take_le _ _) (by decide)
    · have := h.short n
      by_cases hn : n = d
      · rwa [hn, hcreated.directory, ← hn]
      · rwa [hcreated.other n hn hnext]

lemma Linked.unlink (h : s.Linked) : (s.unlink d name).2.Linked := by
  rcases s.unlink_children d name with hsame | ⟨child, -, -, hnext, hinodes⟩
  · rw [hsame]
    exact h
  generalize (s.unlink d name).2 = t at hnext hinodes
  have hsublist : ∀ n, ((t.inodes n).children).Sublist (s.inodes n).children := fun n => by
    rw [(hinodes n).2]
    split_ifs
    · exact List.erase_sublist
    · exact .refl _
  exact ⟨fun n c hc => hnext ▸ h.below n c ((hsublist n).subset hc), fun n =>
    (h.nodup n).sublist (hsublist n), fun n m c hn hm => h.one n m c ((hsublist n).subset hn)
    ((hsublist m).subset hm), fun n => by rw [(hinodes n).1]; exact h.short n⟩

lemma Linked.renameEntry (h : s.Linked) : (s.renameEntry dir name dest newName mem).2.Linked := by
  rcases s.renameEntry_children dir name dest newName mem with
    hsame | ⟨src, hsrc, -, -, hnext, hmoved⟩
  · rw [hsame]
    exact h
  generalize (s.renameEntry dir name dest newName mem).2 = t at hnext hmoved
  generalize s.findChild (s.inodes dest).children newName = repl at hmoved
  have hmem := (findChild_mem hsrc).1
  -- The entry is nowhere but where it goes to.
  have hgone : ∀ n, src ∉ s.kept dir src dest repl n := fun n hin => by
    obtain ⟨hin', hne, -⟩ := (Moved.mem_kept_iff (h.nodup n)).mp hin
    exact hne (h.one n dir src hin' hmem) rfl
  have hkids : ∀ n c, c ∈ (t.inodes n).children →
      (c ∈ (s.inodes n).children ∧ c ≠ src) ∨ n = dest ∧ c = src := by
    intro n c hc
    rw [hmoved.children, List.mem_append] at hc
    rcases hc with hc | hc
    · exact .inl ⟨(Moved.kept_sublist n).subset hc, fun heq => hgone n (heq ▸ hc)⟩
    · split_ifs at hc with hn
      · exact .inr ⟨hn, List.mem_singleton.mp hc⟩
      · simp at hc
  refine ⟨fun n c hc => ?_, fun n => ?_, fun n m c hn hm => ?_, fun n => ?_⟩
  · rw [hnext]
    rcases hkids n c hc with ⟨hc, -⟩ | ⟨-, rfl⟩
    · exact h.below n c hc
    · exact h.below dir c hmem
  · rw [hmoved.children]
    refine List.nodup_append.mpr ⟨(h.nodup n).sublist (Moved.kept_sublist n), ?_,
      fun c hc c' hc' => ?_⟩
    · split_ifs
      · exact List.pairwise_singleton _ _
      · exact List.nodup_nil
    · rintro rfl
      split_ifs at hc'
      · exact hgone n (List.mem_singleton.mp hc' ▸ hc)
      · simp at hc'
  · rcases hkids n c hn with ⟨hn, hne⟩ | ⟨hnd, hc⟩ <;>
      rcases hkids m c hm with ⟨hm, hne'⟩ | ⟨hmd, hc'⟩
    · exact h.one n m c hn hm
    · exact absurd hc' hne
    · exact absurd hc hne'
    · exact hnd.trans hmd.symm
  · rw [hmoved.name]
    split_ifs
    · exact Nat.lt_of_le_of_lt (List.length_take_le _ _) (by decide)
    · exact h.short n

lemma kept_eq_filter {src n : ℕ} {repl : Option ℕ} (hnodup : (s.inodes n).children.Nodup) :
    s.kept dir src dest repl n = (s.inodes n).children.filter
      (· ∉ (if dir = n then [src] else []) ++ if dest = n then repl.toList else []) := by
  unfold kept
  rw [← hnodup.sdiff_eq_filter]
  cases repl <;> by_cases hd : dir = n <;> by_cases ht : dest = n <;>
    simp [hd, ht, eq_comm, List.diff_cons, List.erase_comm]

end Vfs

namespace DirectoryStream

variable {s s' : DirectoryStream}

/-! ## What the cursor has passed -/

/-- The entries of the directory as it is now. -/
def children (s : DirectoryStream) : List ℕ := (s.vfs.inodes s.inode).children

/-- The entries of the directory that a call takes out of their places. -/
def leaving (s : DirectoryStream) : Call → List ℕ
  | .unlink directory name =>
    if directory = s.inode ∧ (s.vfs.unlink directory name).1.isOk then
      (s.vfs.findChild s.children name).toList
    else []
  | .rename directory name destination newName memory =>
    let source := s.vfs.findChild (s.vfs.inodes directory).children name
    let replaced := s.vfs.findChild (s.vfs.inodes destination).children newName
    if replaced = source ∨ ¬ (s.vfs.renameEntry directory name destination newName memory).1.isOk
    then []
    else (if directory = s.inode then source.toList else []) ++
      if destination = s.inode then replaced.toList else []
  | _ => []

/-- The directories of a call are there. -/
def Exists (s : DirectoryStream) : Call → Prop
  | .create directory _ _ _ => directory < s.vfs.next
  | _ => True

/-- Without the entries that leave, `c` is on the same side of the cursor. -/
def Keeps (c : ℕ) (s : DirectoryStream) (call : Call) : Prop :=
  (s.children.filter (· ∉ s.leaving call)).idxOf c < s.index - 2 ↔
    s.children.idxOf c < s.index - 2

instance (c : ℕ) (s : DirectoryStream) (call : Call) : Decidable (s.Keeps c call) :=
  inferInstanceAs (Decidable (_ ↔ _))

/-- An entry of this name. -/
def Present (s : DirectoryStream) (c : ℕ) (name : Text) : Prop :=
  c ∈ s.children ∧ (s.vfs.inodes c).name = name

/-- `c` has been returned once if the cursor has passed it, and not at all if not. -/
structure Counted (c : ℕ) (name : Text) (s : DirectoryStream) (l : List DirectoryEntry) : Prop where
  linked : s.vfs.Linked
  there : s.inode < s.vfs.next
  counted : c ∈ s.children → l.countP (fun e => e.inode = c ∧ e.name = name) =
    if s.children.idxOf c < s.index - 2 then 1 else 0

section Counted

variable {c : ℕ} {name : Text} {l : List DirectoryEntry} (hname : name ≠ DOT ∧ name ≠ DOT_DOT)

include hname

lemma Counted.read (h : Counted c name s l) (hpres : s.Present c name) {e : DirectoryEntry}
    (hread : s.vfs.readDirectory s.inode s.index = some e) :
    Counted c name { s with index := s.index + 1 } (l ++ [e]) := by
  refine ⟨h.linked, h.there, fun _ => ?_⟩
  rw [List.countP_append, h.counted hpres.1, List.countP_singleton]
  change _ = if s.children.idxOf c < s.index + 1 - 2 then 1 else 0
  unfold Vfs.readDirectory at hread
  by_cases hdots : s.index < 2
  · -- The entry is one of the two that are not in the vector.
    have hother : e.name ≠ name := by
      split_ifs at hread
      · cases hread
        exact hname.1.symm
      · cases hread
        exact hname.2.symm
      · omega
    rw [if_neg (by omega), if_neg (by simp [hother]), if_neg (by omega)]
  · rw [if_neg (by omega), if_neg (by omega), Option.map_eq_some_iff] at hread
    obtain ⟨child, hchild, rfl⟩ := hread
    obtain ⟨hlt, hget⟩ := List.getElem?_eq_some_iff.mp hchild
    by_cases hc : child = c
    · subst hc
      have hidx : s.children.idxOf child = s.index - 2 := by
        rw [← hget]
        exact (h.linked.nodup s.inode).idxOf_getElem _ hlt
      have hshort := h.linked.short child
      have hcut : (s.vfs.inodes child).name.take (FILENAME_MAX_LENGTH - 1) = name := by
        rw [List.take_of_length_le (by omega), hpres.2]
      rw [if_neg (by omega), if_pos (by simp [hcut]), if_pos (by omega)]
    · have hidx : s.children.idxOf c ≠ s.index - 2 := by
        intro heq
        have hidx := List.getElem_idxOf (List.idxOf_lt_length_of_mem hpres.1)
        simp only [heq] at hidx
        exact hc (hget.symm.trans hidx)
      have hiff : s.children.idxOf c < s.index + 1 - 2 ↔ s.children.idxOf c < s.index - 2 := by
        omega
      rw [if_congr hiff rfl rfl]
      simp [hc]

lemma Counted.fillRecords (hpres : s.Present c name) (capacity : ℕ) :
    ∀ (fuel index written : ℕ) (l : List DirectoryEntry),
      Counted c name { s with index := index } l → Counted c name
        { s with index := index + (s.vfs.fillRecords s.inode capacity fuel index written).length }
        (l ++ s.vfs.fillRecords s.inode capacity fuel index written)
  | 0, index, written, l, h => by simpa [Vfs.fillRecords] using h
  | fuel + 1, index, written, l, h => by
    unfold Vfs.fillRecords
    split
    · simpa using h
    · next e hread =>
      split_ifs
      · simpa using h
      · have hrest := Counted.fillRecords hpres capacity fuel (index + 1)
          (written + e.recordLength) (l ++ [e]) (h.read hname hpres hread)
        rwa [List.append_assoc, List.singleton_append, Nat.add_assoc, Nat.add_comm 1,
          ← List.length_cons (a := e)] at hrest

omit hname in
/-- Others change the tree. -/
lemma Counted.change (h : Counted c name s l) (hc : c ∈ s.children) {call : Call}
    (hkeeps : s.Keeps c call) {v : Vfs} (hlink : v.Linked) (hnext : s.inode < v.next)
    {n : Option ℕ} (hkids : (v.inodes s.inode).children =
      s.children.filter (· ∉ s.leaving call) ++ n.toList) :
    Counted c name { s with vfs := v } l := by
  refine ⟨hlink, hnext, fun hc' => (h.counted hc).trans (if_congr ?_ rfl rfl)⟩
  change c ∈ (v.inodes s.inode).children at hc'
  change _ ↔ (v.inodes s.inode).children.idxOf c < s.index - 2
  unfold Keeps at hkeeps
  rw [← hkeeps, hkids]
  rw [hkids, List.mem_append] at hc'
  by_cases hmem : c ∈ s.children.filter (· ∉ s.leaving call)
  · rw [List.idxOf_append_of_mem hmem]
  · obtain rfl : n = some c := Option.mem_toList.mp (hc'.resolve_left hmem)
    rw [List.idxOf_append_of_notMem hmem, List.idxOf_eq_length hmem]
    simp

lemma Counted.step (h : Counted c name s l) {call : Call} (hexists : s.Exists call)
    (hkeeps : s.Keeps c call) (hpres : s.Present c name) (hstep : s.step call = some s') :
    Counted c name s' (l ++ s.returned call) := by
  cases call with
  | getdents length mem =>
    cases hstep
    unfold returned sysGetdents
    cases mem with
    | false => simpa using h
    | true =>
      simp only [if_true, getDirectoryEntries]
      split_ifs
      · simpa using h
      · exact Counted.fillRecords hname hpres _ _ _ _ l h
      · simpa using h
  | create dir newName type mem =>
    cases hstep
    change Counted c name _ (l ++ [])
    rw [List.append_nil]
    rcases Vfs.create_cases hexists (Prod.eta (s.vfs.create dir newName type mem)).symm with
      ⟨e, -, hsame⟩ | ⟨-, hnew⟩
    · rw [hsame]
      exact h
    · refine h.change hpres.1 hkeeps (h.linked.create hexists)
        (hnew.next ▸ Nat.lt_succ_of_lt h.there)
        (n := if s.inode = dir then some s.vfs.next else none) ?_
      rw [hnew.old h.there]
      split_ifs with hdir <;> simp [leaving, children, hdir]
  | unlink dir oldName =>
    cases hstep
    change Counted c name _ (l ++ [])
    rw [List.append_nil]
    rcases s.vfs.unlink_children dir oldName with hsame | ⟨child, hfind, hok, hnext, hinodes⟩
    · rw [hsame]
      exact h
    · refine h.change hpres.1 hkeeps h.linked.unlink (hnext ▸ h.there) (n := none) ?_
      rw [(hinodes s.inode).2]
      split_ifs with hdir
      · rw [(h.linked.nodup s.inode).erase_eq_filter]
        simp only [leaving, children, hdir, hfind, hok, and_self, if_true, Option.toList_some,
          Option.toList_none, List.append_nil, List.mem_singleton, decide_not]
        rfl
      · simp [leaving, children, Ne.symm hdir]
  | rename dir oldName dest newName mem =>
    cases hstep
    change Counted c name _ (l ++ [])
    rw [List.append_nil]
    rcases s.vfs.renameEntry_children dir oldName dest newName mem with
      hsame | ⟨src, hfind, hok, hother, hnext, hmoved⟩
    · rw [hsame]
      exact h
    · refine h.change hpres.1 hkeeps h.linked.renameEntry (hnext ▸ h.there)
        (n := if s.inode = dest then some src else none) ?_
      rw [hmoved.children, Vfs.kept_eq_filter (h.linked.nodup s.inode)]
      have hleaving : s.leaving (.rename dir oldName dest newName mem) =
          (if dir = s.inode then [src] else []) ++ if dest = s.inode then
            (s.vfs.findChild (s.vfs.inodes dest).children newName).toList else [] := by
        simp [leaving, hfind, hother, hok]
      rw [hleaving]
      split_ifs <;> rfl

omit hname in
lemma children_length_le {length : ℕ} {mem : Bool} (hend : (s.sysGetdents length mem).1 = .ok []) :
    s.children.length ≤ s.index - 2 := by
  unfold sysGetdents getDirectoryEntries at hend
  dsimp only at hend
  split_ifs at hend with _ _ hnot
  have hentries : s.vfs.fillRecords s.inode (min length (16 * 1024)) s.turns s.index 0 = [] :=
    Except.ok.inj hend
  have hnone : s.vfs.readDirectory s.inode s.index = none := by
    rw [not_and] at hnot
    simpa using hnot hentries
  unfold Vfs.readDirectory at hnone
  split_ifs at hnone
  exact List.getElem?_eq_none_iff.mp (Option.map_eq_none_iff.mp hnone)

end Counted

/-- **Reading a directory.**  From the first `getdents` to the one that reports the end, with
anybody creating, unlinking and renaming in between, an entry that is there all the time is returned
once, if no call brings it to the other side of the cursor. -/
theorem directory_listed {calls : List Call} (hlinked : s.vfs.Linked)
    (hthere : s.inode < s.vfs.next) (hstart : s.index = 0) (hrun : run step s calls = some s')
    (hexists : Along step Exists s calls) {length : ℕ} {memory : Bool}
    (hend : (s'.sysGetdents length memory).1 = .ok []) {c : ℕ} {name : Text}
    (hkeeps : Along step (Keeps c) s calls) (hname : name ≠ DOT ∧ name ≠ DOT_DOT)
    (hpresent : Along step (fun s _ => s.Present c name) s calls) (hlast : s'.Present c name) :
    (observed step returned s calls).countP (fun e => e.inode = c ∧ e.name = name) = 1 := by
  have hinit : Counted c name s [] := ⟨hlinked, hthere, fun _ => by simp [hstart]⟩
  have hcounted : Counted c name s' ([] ++ observed step returned s calls) :=
    run_observes (I := Counted c name)
      (fun _ _ _ _ h hC hstep => h.step hname hC.1 hC.2.1 hC.2.2 hstep) calls s s' [] hinit
      (hexists.and (hkeeps.and hpresent)) hrun
  have hlt := List.idxOf_lt_length_of_mem hlast.1
  have hle := children_length_le hend
  rw [List.nil_append] at hcounted
  rw [hcounted.counted hlast.1, if_pos (Nat.lt_of_lt_of_le hlt hle)]

/-! ## Three files -/

instance (s : DirectoryStream) : ∀ call, Decidable (s.Exists call)
  | .create directory _ _ _ => inferInstanceAs (Decidable (directory < s.vfs.next))
  | .getdents _ _ | .unlink _ _ | .rename _ _ _ _ _ => .isTrue trivial

instance (s : DirectoryStream) (c : ℕ) (name : Text) : Decidable (s.Present c name) :=
  inferInstanceAs (Decidable (_ ∧ _))

/-- An open directory with the files `a`, `b` and `c`. -/
def threeFiles : DirectoryStream where
  vfs :=
    { inodes := fun n =>
        { filesystem := 0
          type := if n = 0 then .directory else .regular
          name := if n = 1 then [0x61] else if n = 2 then [0x62] else if n = 3 then [0x63] else []
          parent := if n = 0 then none else some 0
          children := if n = 0 then [1, 2, 3] else []
          referenceCount := 1
          unlinked := false }
      next := 4
      destroyed := []
      filesystems := fun _ => ⟨.tmpfs, 0⟩
      rootFilesystem := 0
      mounts := [] }
  inode := 0
  index := 0

lemma threeFiles_linked : threeFiles.vfs.Linked := by
  have hkids : ∀ n, (threeFiles.vfs.inodes n).children = if n = 0 then [1, 2, 3]
    else [] := fun _ => rfl
  refine ⟨fun n c hc => ?_, fun n => ?_, fun n m c hn hm => ?_, fun n => ?_⟩
  · rw [hkids] at hc
    split_ifs at hc <;> simp at hc
    change c < 4
    omega
  · rw [hkids]
    split_ifs <;> decide
  · rw [hkids] at hn hm
    split_ifs at hn hm <;> simp_all
  · change (if n = 1 then [0x61] else if n = 2 then [0x62] else if n = 3 then [0x63] else [] :
      Text).length < 128
    split_ifs <;> decide

/-- `c` is unlinked and `d` created after `.`, `..` and `a` have been read. -/
def laterFilesChange : List Call :=
  [.getdents 72 true, .unlink 0 [0x63], .create 0 [0x64] .regular true, .getdents 4096 true]

theorem directory_listed_laterFilesChange :
    (observed step returned threeFiles laterFilesChange).countP
      (fun e => e.inode = 2 ∧ e.name = [0x62]) = 1 := by
  have hruns : (run step threeFiles laterFilesChange).map
      (fun s => ((s.sysGetdents 4096 true).1.toOption, decide (s.Present 2 [0x62]))) =
        some (some [], true) := by
    decide +kernel
  obtain ⟨s', hrun, hs'⟩ := Option.map_eq_some_iff.mp hruns
  obtain ⟨hend, hlast⟩ := Prod.mk.inj hs'
  have hend : (s'.sysGetdents 4096 true).1 = .ok [] := by
    cases hresult : (s'.sysGetdents 4096 true).1 with
    | error e => simp [hresult, Except.toOption] at hend
    | ok entries => simpa [hresult, Except.toOption] using hend
  exact directory_listed threeFiles_linked (by decide) rfl hrun (by decide +kernel) hend
    (by decide +kernel) (by decide) (by decide +kernel) (of_decide_eq_true hlast)

/-- `a` is unlinked after it has been read. -/
def firstFileUnlinked : List Call := [.getdents 72 true, .unlink 0 [0x61], .getdents 4096 true]

/-- `b` is there all the time and is not returned. -/
theorem entry_skipped : threeFiles.vfs.Linked ∧
    (run step threeFiles firstFileUnlinked).map
      (fun s => ((s.sysGetdents 4096 true).1.toOption, decide (s.Present 2 [0x62]))) =
        some (some [], true) ∧
    Along step (fun s _ => s.Present 2 [0x62]) threeFiles firstFileUnlinked ∧
    (observed step returned threeFiles firstFileUnlinked).countP
      (fun e => e.inode = 2 ∧ e.name = [0x62]) = 0 :=
  ⟨threeFiles_linked, by decide +kernel, by decide +kernel, by decide +kernel⟩

end DirectoryStream

end ShitOs
