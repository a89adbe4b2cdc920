import ShitOs.Properties.FileTree
import ShitOs.Properties.Names

/-!
# What `rename` does

A path names a place: the directory that all components but the last lead to, and the last component
(`place`). `Renamed` is what `rename` is to do with two places.  The entry at the old one is at the
new one, with what is below it; an entry that was at the new one is unlinked, and lives on while
somebody has it open; nothing else changes; and the tree stays a tree, in which no directory loses
its way to the root (`Attached`).

A call that fails changes nothing.  One that succeeds does all this exactly when the new path ends
in a name and, if a directory is moved, the directory it is moved to is not one that has been
removed.  With a slash behind the new name the slash becomes part of the name, which no path leads
to any more (`slash_in_new_name`).  And the loop of `rename` that goes up from the new directory
ends in a removed directory as it does in the root.
-/

namespace ShitOs
namespace Vfs

open Relation

variable {v v' t : Vfs} {base : Option ℕ} {d n : ℕ} {name : Text}

/-! ## Places -/

/-- The directory and the name in it that a path stands for. -/
def place (v : Vfs) (path : Text) (base : Option ℕ) : Option (ℕ × Text) :=
  match (components path).getLast? with
  | none => none
  | some name => (v.walk (components path).dropLast (v.origin path base)).toOption.map fun d =>
      (d, name)

lemma place_name {path : Text} (h : v.place path base = some (d, name)) :
    name ≠ [] ∧ SLASH ∉ name := by
  unfold place at h
  split at h
  · cases h
  · next c hlast =>
      obtain ⟨d', -, heq⟩ := Option.map_eq_some_iff.mp h
      obtain ⟨-, rfl⟩ := Prod.mk.inj heq
      have hc := mem_components (List.mem_of_getLast? hlast)
      exact ⟨hc.1, hc.2.1⟩

/-- What `resolve_parent` finds is the place, if the path ends in a name. -/
lemma place_of_endsInName {path : Path} (hends : EndsInName path.bytes)
    (hpar : v.resolveParent path.bytes base = .ok (d, name)) :
    v.place path.bytes base = some (d, name) := by
  obtain ⟨hwalk, rfl⟩ := resolveParent_eq_ok hpar
  obtain ⟨final, tail, hfinal, hfree, htail⟩ := finalPart_shape path.bytes
  obtain ⟨hne, hcut⟩ := (endsInName_iff hfinal hfree htail).mp hends
  have hcomponents : components path.bytes =
      components (directoryPart path.bytes) ++ [cut (finalPart path.bytes)] := by
    rw [components_eq, written_eq, List.map_append, ← components_eq, ← components_eq,
      components_final hfinal hfree htail, if_neg hne, hcut]
  rw [place, hcomponents, List.getLast?_concat, List.dropLast_concat, hwalk]
  rfl

/-! ## Trees -/

/-- The way up from an inode ends in a root, and not in something that has been removed. -/
def Attached (v : Vfs) (n : ℕ) : Prop :=
  ∃ top, ReflTransGen (fun c d => (v.inodes c).parent = some d) n top ∧
    (v.inodes top).parent = none ∧ (v.inodes top).unlinked = false

/-- The parent is attached if the child is, and the other way around. -/
lemma attached_iff_of_parent (h : (v.inodes n).parent = some d) : v.Attached n ↔ v.Attached d := by
  constructor
  · rintro ⟨top, hpath, htop, hlink⟩
    obtain rfl | ⟨e, he, hpath⟩ := ReflTransGen.cases_head hpath
    · simp [h] at htop
    · obtain rfl : d = e := by simpa [h] using he
      exact ⟨top, hpath, htop, hlink⟩
  · rintro ⟨top, hpath, htop⟩
    exact ⟨top, .head h hpath, htop⟩

lemma Attached.of_above {m : ℕ} (h : v.Attached n)
    (hpath : ReflTransGen (fun c d => (v.inodes c).parent = some d) n m) : v.Attached m := by
  induction hpath with
  | refl => exact h
  | tail _ hd ih => exact (attached_iff_of_parent hd).mp ih

lemma attached_iff_of_top (h : (v.inodes n).parent = none) :
    v.Attached n ↔ (v.inodes n).unlinked = false := by
  constructor
  · rintro ⟨top, hpath, -, hlink⟩
    obtain rfl | ⟨e, he, -⟩ := ReflTransGen.cases_head hpath
    · exact hlink
    · simp [h] at he
  · exact fun hlink => ⟨n, .refl, h, hlink⟩

lemma Attached.congr (hacc : Acc (fun d c => (v.inodes c).parent = some d) n)
    (P : ℕ → Prop) (hn : P n) (hup : ∀ n d, P n → (v.inodes n).parent = some d → P d)
    (hpar : ∀ n, P n → (v'.inodes n).parent = (v.inodes n).parent)
    (hmark : ∀ n, P n → (v'.inodes n).unlinked = (v.inodes n).unlinked) :
    v'.Attached n ↔ v.Attached n := by
  induction hacc with
  | intro n _ ih =>
    cases hn' : (v.inodes n).parent with
    | none => rw [attached_iff_of_top hn', attached_iff_of_top ((hpar n hn).trans hn'), hmark n hn]
    | some d =>
      rw [attached_iff_of_parent hn', attached_iff_of_parent ((hpar n hn).trans hn')]
      exact ih d hn' (hup n d hn hn')

/-! ## Moving an entry -/

/-- `unref` of an inode without children leaves everything else alone, and the inode too if somebody
else has a reference. -/
lemma unref_of_empty (hn : n < t.next) (hempty : (t.inodes n).children = []) :
    (∀ m, m ≠ n → (t.unref n).inodes m = t.inodes m ∧ ((t.unref n).Live m ↔ t.Live m)) ∧
      (t.unref n).inodes n = { t.inodes n with referenceCount := (t.inodes n).referenceCount - 1 } ∧
      ((t.inodes n).referenceCount ≠ 1 → t.Live n → (t.unref n).Live n) := by
  obtain ⟨k, hk⟩ : ∃ k, t.next = k + 1 := ⟨t.next - 1, by omega⟩
  unfold unref
  rw [hk]
  unfold unrefWithin
  dsimp only
  split_ifs with hlast
  · simp only [hempty, List.foldl_nil]
    refine ⟨fun m hm => ⟨by rw [inodes_set, if_neg hm], ?_⟩, by rw [inodes_set, if_pos rfl],
      fun hcnt => absurd hlast hcnt⟩
    simp only [Live, List.mem_cons, hm, false_or]
    rfl
  · exact ⟨fun m hm => ⟨by rw [inodes_set, if_neg hm], Iff.rfl⟩, by rw [inodes_set, if_pos rfl],
      fun _ hlive => hlive⟩

section Transfer

variable {n dir src dest : ℕ} {newName : Text} {repl : Option ℕ}

lemma kept_of_ne (hdir : n ≠ dir) (hdest : n ≠ dest) :
    v.kept dir src dest repl n = (v.inodes n).children := by
  unfold kept
  cases repl <;> simp [hdir, hdest]

/-- What is done to the inodes, and to which of them are there. -/
structure Transferred (v : Vfs) (directory source destination : ℕ) (newName : Text)
    (replaced : Option ℕ) (v' : Vfs) :
    Prop extends Moved v directory source destination newName replaced v' where
  referenceCount : ∀ n, replaced ≠ some n → (v'.inodes n).referenceCount =
    (v.inodes n).referenceCount
  unlinked : ∀ n, (v'.inodes n).unlinked = if replaced = some n then true else (v.inodes n).unlinked
  live : ∀ n, replaced ≠ some n → (v'.Live n ↔ v.Live n)
  survives : ∀ old, replaced = some old → (v.inodes old).referenceCount ≠ 1 → v'.Live old

/-- An inode that is not replaced has changed in its name, its parent and its children at most. -/
lemma Transferred.inodes_eq (ht : Transferred v dir src dest newName repl v')
    (hn : repl ≠ some n) : v'.inodes n = { v.inodes n with
      name := if n = src then cut newName else (v.inodes n).name
      parent := if n = src then some dest else (v.inodes n).parent
      children := (v'.inodes n).children } := by
  have hfilesystem := ht.filesystem n
  have htype := ht.type n
  have hname := ht.name n
  have hpar := ht.parent n
  have hcnt := ht.referenceCount n hn
  have hmark := ht.unlinked n
  rw [if_neg hn] at hpar hmark
  generalize v'.inodes n = inode at *
  cases inode
  simp_all

variable (h : Transfer v dir src dest newName repl)

include h

lemma Transfer.source_ne (hwf : v.WellFormed) : src ≠ dir ∧ src ≠ dest := by
  refine ⟨fun heq => ?_, fun heq => h.outside (heq ▸ .refl)⟩
  have hself := (hwf.child dir src h.leaves h.entry).2
  rw [heq] at hself
  exact Forest.not_transGen_self (hwf.rooted dir h.leaves) (.single hself)

/-- What is replaced has nothing below it, and is not where the entry goes. -/
lemma Transfer.replaced_ne (hwf : v.WellFormed) {old : ℕ} (hold : repl = some old) :
    old ≠ dest := by
  rintro rfl
  have hself := (hwf.child old old h.arrives (h.mem_destination hold)).2
  exact Forest.not_transGen_self (hwf.rooted old h.arrives) (.single hself)

lemma Transfer.parent_ne (htree : v.IsTree)
    (hn : v.Live n) {d : ℕ} (hd : (v.inodes n).parent = some d) : repl ≠ some d := fun hold => by
  have hlist := htree.listed n d hn hd
  rw [h.empty d hold] at hlist
  cases hlist

lemma Transfer.transferred (hwf : v.WellFormed) : Transferred v dir src dest newName repl
      (v.move dir src dest newName repl) := by
  have hmoved := moved_move v dir src dest newName repl
  obtain ⟨t, ht, heq⟩ := move_eq v dir src dest newName repl
  have hlive : ∀ n, t.Live n ↔ v.Live n := fun n => by simp only [Live, ht.next, ht.destroyed]
  rw [heq] at hmoved ⊢
  cases repl with
  | none => exact ⟨hmoved, fun n _ => ht.referenceCount n, ht.unlinked, fun n _ => hlive n, by simp⟩
  | some old =>
    have hold := (hwf.child dest old h.arrives (h.mem_destination rfl)).1
    have hempty : (t.inodes old).children = [] := by
      refine List.eq_nil_iff_forall_not_mem.mpr fun c hc => ?_
      obtain ⟨hc, -⟩ | ⟨heq, -⟩ := (h.mem_children hwf ht.toMoved hold).mp hc
      · rw [h.empty old rfl] at hc
        cases hc
      · exact h.replaced_ne hwf rfl heq
    obtain ⟨hothers, hself, hlives⟩ := unref_of_empty (ht.next ▸ hold.1) hempty
    have hne : ∀ {n}, some old ≠ some n → n ≠ old := fun hn heq => hn (congrArg some heq.symm)
    refine ⟨hmoved, fun n hn => ?_, fun n => ?_, fun n hn =>
      (hothers n (hne hn)).2.trans (hlive n), ?_⟩
    · rw [(hothers n (hne hn)).1, ht.referenceCount]
    · by_cases hn : n = old
      · subst hn
        rw [hself]
        exact ht.unlinked n
      · rw [(hothers n hn).1]
        exact ht.unlinked n
    · rintro _ ⟨⟩ hcnt
      exact hlives (by rwa [ht.referenceCount]) ((hlive old).mpr hold)

/-! ## Entries after a move -/

lemma Transfer.lookup_eq (hwf : v.WellFormed)
    (ht : Moved v dir src dest newName repl v') {d : ℕ} (hd : v.Live d) {name : Text}
    (hold : (d, name) ≠ (dir, (v.inodes src).name)) (hnew : (d, name) ≠ (dest, newName)) :
    v'.lookup d name = v.lookup d name := by
  have hsrc : src ∈ (v.inodes d).children → d = dir := fun hmem =>
    hwf.directory_eq hd h.leaves hmem h.entry
  have hfind : v'.findChild (v'.inodes d).children name =
    v.findChild (v.inodes d).children name := by
    cases hfind : v.findChild (v.inodes d).children name with
    | some c =>
      obtain ⟨hc, hname⟩ := findChild_mem hfind
      refine ht.findChild (fun heq => hold ?_) (fun hrepl => hnew ?_) (hwf.nodup hd) hsrc hfind
      · rw [heq, hname, hsrc (heq ▸ hc)]
      · have hc' := findChild_mem (h.found.trans hrepl)
        rw [hwf.directory_eq hd h.arrives hc hc'.1, ← hname, hc'.2]
    | none =>
      refine List.find?_eq_none.mpr fun c hc hname => ?_
      have hname : (v'.inodes c).name = name := by simpa using hname
      obtain ⟨hc, hne, -⟩ | ⟨rfl, rfl⟩ := (h.mem_children hwf ht hd).mp hc
      · rw [ht.name, if_neg hne] at hname
        exact List.find?_eq_none.mp hfind c hc (by simpa using hname)
      · rw [ht.name, if_pos rfl, h.short] at hname
        exact hnew (by rw [hname])
  rw [lookup, lookup, ht.isDirectory, hfind]

/-- **The old entry** is gone. -/
lemma Transfer.lookup_old (hwf : v.WellFormed) (hdir : (v.inodes dir).isDirectory)
    (ht : Moved v dir src dest newName repl v')
    (hne : (dir, (v.inodes src).name) ≠ (dest, newName)) :
    v'.lookup dir (v.inodes src).name = .error .ENOENT := by
  have hfind : v'.findChild (v'.inodes dir).children (v.inodes src).name = none := by
    refine List.find?_eq_none.mpr fun c hc hname => ?_
    have hname : (v'.inodes c).name = (v.inodes src).name := by simpa using hname
    obtain ⟨hc, hcsource, -⟩ | ⟨rfl, rfl⟩ := (h.mem_children hwf ht h.leaves).mp hc
    · rw [ht.name, if_neg hcsource] at hname
      exact hcsource (List.inj_on_of_nodup_map (hwf.names dir h.leaves) hc h.entry hname)
    · rw [ht.name, if_pos rfl, h.short] at hname
      exact hne (by rw [hname])
  rw [lookup, ht.isDirectory, if_pos hdir, hfind]

section

variable (htree : v.IsTree) (ht : Transferred v dir src dest newName repl v')
include htree ht

/-- **The way to the root** from what is not below the moved entry. -/
lemma Transfer.attached_iff_of_outside (hn : v.Live n) (hrepl : repl ≠ some n)
    (houtside : ¬ ReflTransGen (fun c d => (v.inodes c).parent = some d) n src) :
    v'.Attached n ↔ v.Attached n := by
  refine Attached.congr (htree.wf.rooted n hn) (fun n => v.Live n ∧ repl ≠ some n ∧
    ¬ ReflTransGen (fun c d => (v.inodes c).parent = some d) n src) ⟨hn, hrepl, houtside⟩
    (fun n d ⟨hn, _, hout⟩ hd => ⟨(htree.wf.parent n d hn hd).1, h.parent_ne htree hn hd,
      fun hpath => hout (.head hd hpath)⟩)
    (fun n ⟨_, hkept, hout⟩ => ?_) fun n ⟨_, hkept, _⟩ => by rw [ht.unlinked, if_neg hkept]
  have hne : n ≠ src := fun heq => hout (heq ▸ .refl)
  rw [ht.parent, if_neg hkept, if_neg hne]

/-- **The moved entry** has the way to the root that its new directory has. -/
lemma Transfer.attached_source_iff : v'.Attached src ↔ v.Attached dest := by
  have hpar : (v'.inodes src).parent = some dest := by
    rw [ht.parent, if_neg h.other, if_pos rfl]
  rw [attached_iff_of_parent hpar]
  exact h.attached_iff_of_outside htree ht h.arrives (fun hold => h.replaced_ne htree.wf hold rfl)
    h.outside

/-- **Everything that is not replaced** keeps a way to the root, if the new directory has one. -/
lemma Transfer.attached (hdest : v.Attached dest) (hn : v.Live n) (hrepl : repl ≠ some n)
    (hatt : v.Attached n) : v'.Attached n := by
  have hacc := htree.wf.rooted n hn
  induction hacc with
  | intro n _ ih =>
    by_cases hsrc : n = src
    · rw [hsrc]
      exact (h.attached_source_iff htree ht).mpr hdest
    have hsame : (v'.inodes n).parent = (v.inodes n).parent := by
      rw [ht.parent, if_neg hrepl, if_neg hsrc]
    cases hpar : (v.inodes n).parent with
    | none =>
      rw [attached_iff_of_top (hsame.trans hpar), ht.unlinked, if_neg hrepl]
      exact (attached_iff_of_top hpar).mp hatt
    | some d =>
      rw [attached_iff_of_parent (hsame.trans hpar)]
      exact ih d hpar (htree.wf.parent n d hn hpar).1 (h.parent_ne htree hn hpar)
        ((attached_iff_of_parent hpar).mp hatt)

end

end Transfer

end Vfs

namespace FileTree

open Vfs Relation

variable {s : FileTree} {base : Option ℕ} {v' : Vfs} {d dest dir src : ℕ}
  {newName oldName : Text}

/-! ## The specification -/

/-- The inodes form trees, and what a directory lists and somebody has open is counted. -/
structure Orderly (s : FileTree) : Prop where
  tree : s.vfs.IsTree
  opened : ∀ d n, s.descriptions d = some n → s.vfs.Live n ∧ d < s.nextDescription
  counted : ∀ n, s.vfs.Live n → s.linkCount n + s.descriptionCount n ≤
    (s.vfs.inodes n).referenceCount

lemma Settled.orderly (h : Settled s) : Orderly s where
  tree := h.tree.toIsTree
  opened := h.opened
  counted n hn := by
    have := h.counted n hn
    omega

/-- **What a renaming is.**  The entry `oldName` of `directory` is `source`, and is to be `newName`
in `destination`. -/
structure Renamed (s : FileTree) (directory : ℕ) (oldName : Text) (source destination : ℕ)
    (newName : Text) (v' : Vfs) : Prop where
  arrived : v'.lookup destination newName = .ok source
  left : (directory, oldName) ≠ (destination, newName) →
    v'.lookup directory oldName = .error .ENOENT
  moved : v'.inodes source =
    { s.vfs.inodes source with name := newName, parent := some destination }
  /-- Every other entry, in every directory, is what it was. -/
  entries : ∀ d name, s.vfs.Live d → (d, name) ≠ (directory, oldName) → (d, name) ≠
    (destination, newName) →
    v'.lookup d name = s.vfs.lookup d name
  /-- So is every other inode, up to the list of entries in the two directories. -/
  inodes : ∀ n, n ≠ source → s.vfs.lookup destination newName ≠ .ok n →
    v'.inodes n = { s.vfs.inodes n with children := (v'.inodes n).children } ∧
      (n ≠ directory → n ≠ destination → v'.inodes n = s.vfs.inodes n) ∧ (v'.Live n ↔ s.vfs.Live n)
  /-- What had the new name was of the same kind, and is no longer in the tree. -/
  replaced : ∀ old, s.vfs.lookup destination newName = .ok old → old ≠ source →
    (s.vfs.inodes old).isDirectory = (s.vfs.inodes source).isDirectory ∧
    (s.vfs.inodes old).children = [] ∧
      (v'.inodes old).unlinked = true ∧ (v'.inodes old).parent = none ∧
      (∀ d, s.vfs.Live d → old ∉ (v'.inodes d).children) ∧
      ∀ k, s.descriptions k = some old → v'.Live old
  itself : s.vfs.lookup destination newName = .ok source → v' = s.vfs
  acyclic : ∀ n, s.vfs.Live n → ¬ TransGen (fun d c => (v'.inodes c).parent = some d) n n
  attached : ∀ n, s.vfs.Live n → (s.vfs.inodes n).isDirectory →
    s.vfs.lookup destination newName ≠ .ok n →
    s.vfs.Attached n → v'.Attached n

lemma renamed_of_stays (h : Orderly s) (hdir : s.vfs.Live dir) (hdest : s.vfs.Live dest)
    (hold : s.vfs.lookup dir oldName = .ok src) (hnew : s.vfs.lookup dest newName = .ok src) :
    Renamed s dir oldName src dest newName s.vfs := by
  obtain ⟨hin, hname⟩ := findChild_mem (lookup_eq_ok hold).2
  obtain ⟨hin', hname'⟩ := findChild_mem (lookup_eq_ok hnew).2
  have hpar := (h.tree.wf.child dest src hdest hin').2
  refine ⟨hnew, fun hne => absurd ?_ hne, ?_, fun _ _ _ _ _ => rfl, fun n _ _ =>
    ⟨rfl, fun _ _ => rfl, Iff.rfl⟩, fun old hlook hne => ?_, fun _ => rfl, fun n hn =>
    Forest.not_transGen_self (h.tree.wf.rooted n hn), fun n _ _ _ hatt => hatt⟩
  · rw [h.tree.wf.directory_eq hdir hdest hin hin', ← hname, hname']
  · rw [← hname', ← hpar]
  · rw [hnew] at hlook
    exact absurd (Except.ok.inj hlook).symm hne

lemma Orderly.two_le (h : Orderly s) {n k : ℕ} (hd : s.vfs.Live d)
    (hlist : n ∈ (s.vfs.inodes d).children) (hopen : s.descriptions k = some n) :
    2 ≤ (s.vfs.inodes n).referenceCount := by
  obtain ⟨hlive, hk⟩ := h.opened k n hopen
  have hcnt := h.counted n hlive
  have hlink : s.linkCount n = 1 := if_neg (by simp [(h.tree.wf.child d n hd hlist).2])
  have hpos : 0 < s.descriptionCount n := by
    refine Nat.pos_of_ne_zero fun hzero => ?_
    exact Counting.count_eq_zero_iff.mp hzero k (Finset.mem_range.mpr hk) hopen
  omega

lemma renamed_of_moves {repl : Option ℕ} (h : Orderly s)
    (htrans : s.vfs.Transfer dir src dest newName repl) (hold : s.vfs.lookup dir oldName = .ok src)
    (hmoves : Renaming.Moves s.vfs dir src dest newName repl v')
    (hatt : (s.vfs.inodes src).isDirectory → s.vfs.Attached src → s.vfs.Attached dest) :
    Renamed s dir oldName src dest newName v' := by
  obtain ⟨hfound, -, hkinds, rfl⟩ := hmoves
  have hwf := h.tree.wf
  have ht := htrans.transferred hwf
  obtain ⟨hdirectory, hfindOld⟩ := lookup_eq_ok hold
  obtain rfl : (s.vfs.inodes src).name = oldName := (findChild_mem hfindOld).2
  obtain ⟨hne, hne'⟩ := htrans.source_ne hwf
  -- what the new name leads to before the move is what is repl
  have hlook : ∀ n, s.vfs.lookup dest newName = .ok n ↔ repl = some n := fun n =>
    ⟨fun hn => hfound ▸ (lookup_eq_ok hn).2,
      fun hn => lookup_of_findChild htrans.isDirectory (hfound.trans hn)⟩
  have hkids : ∀ n, n ≠ dir → n ≠ dest →
      ((s.vfs.move dir src dest newName repl).inodes n).children =
        (s.vfs.inodes n).children := fun n hn hn' => by
    rw [ht.children, kept_of_ne hn hn', if_neg hn', List.append_nil]
  refine ⟨?_, htrans.lookup_old hwf hdirectory ht.toMoved, ?_,
    fun d name hd => htrans.lookup_eq hwf ht.toMoved hd,
    fun n hn hkept => ?_, fun old hold hsrc => ?_,
    fun hself => absurd ((hlook src).mp hself) htrans.other,
    fun n hn => Forest.not_transGen_self (htrans.rooted hwf ht.toMoved hn),
    fun n hn hdir hkept hn' => ?_⟩
  · refine lookup_of_findChild (by rw [ht.isDirectory, htrans.isDirectory]) ?_
    exact ht.findChild_destination hwf htrans.leaves htrans.arrives htrans.entry hfound htrans.short
  · rw [ht.inodes_eq htrans.other, if_pos rfl, if_pos rfl, htrans.short, hkids src hne hne']
  · have hkept : repl ≠ some n := fun heq => hkept ((hlook n).mpr heq)
    have hinode := ht.inodes_eq hkept
    rw [if_neg hn, if_neg hn] at hinode
    refine ⟨hinode, fun hdirectory hdest => ?_, ht.live n hkept⟩
    rw [hinode, hkids n hdirectory hdest]
  · have hrepl := (hlook old).mp hold
    have hin := htrans.mem_destination hrepl
    refine ⟨(hkinds old hrepl).1, htrans.empty old hrepl, by rw [ht.unlinked, if_pos hrepl],
      by rw [ht.parent, if_pos hrepl], fun d hd hlist => ?_, fun k hopen =>
      ht.survives old hrepl ?_⟩
    · obtain ⟨-, -, hkept⟩ | ⟨-, heq⟩ := (htrans.mem_children hwf ht.toMoved hd).mp hlist
      · exact hkept hrepl
      · exact hsrc heq
    · have := h.two_le htrans.arrives hin hopen
      omega
  · have hkept : repl ≠ some n := fun heq => hkept ((hlook n).mpr heq)
    by_cases hdest : s.vfs.Attached dest
    · exact htrans.attached h.tree ht hdest hn hkept hn'
    · refine (htrans.attached_iff_of_outside h.tree ht hn hkept fun hpath => hdest ?_).mpr hn'
      exact hatt (hwf.isDirectory_of_above hn hdir hpath) (hn'.of_above hpath)

/-- The condition: the new path ends in a name, and a directory is not moved from where there is a
way to the root to where there is none. -/
def Fits (v : Vfs) (fromPath toPath : Text) (base : Option ℕ) : Prop :=
  EndsInName toPath ∧ ∀ source destination name, v.entryAt fromPath base = .ok source →
    v.resolveParent toPath base = .ok (destination, name) → (v.inodes source).isDirectory →
      v.Attached source → v.Attached destination

/-- Two paths and a state in which what the one stood for stands where the other does. -/
def RenamedTo (s : FileTree) (fromPath toPath : Text) (base : Option ℕ) (v' : Vfs) : Prop :=
  ∃ directory oldName source destination newName, s.vfs.place fromPath base =
  some (directory, oldName) ∧
    s.vfs.lookup directory oldName = .ok source ∧ s.vfs.place toPath base =
    some (destination, newName) ∧
    Renamed s directory oldName source destination newName v'

lemma endsInName_of_name {path : Path} {name : Text} {v : Vfs}
    (hpar : v.resolveParent path.bytes base = .ok (d, name)) (hname : name ≠ [] ∧ SLASH ∉ name) :
    EndsInName path.bytes := by
  obtain ⟨-, rfl⟩ := resolveParent_eq_ok hpar
  exact ⟨fun hnil => hname.1 (by rw [hnil]; rfl), hname.2⟩

/-- **A call that succeeds** renames exactly when the paths fit. -/
lemma renamedTo_iff (h : Orderly s) (hbase : s.vfs.LiveBase base) {fromPath toPath : Path}
    {memory : Bool}
    (hrename : s.vfs.rename fromPath.bytes toPath.bytes base memory = (.ok (), v')) :
    RenamedTo s fromPath.bytes toPath.bytes base v' ↔
      Fits s.vfs fromPath.bytes toPath.bytes base := by
  obtain ⟨dir, src, dest, newName, hren, hends⟩ := rename_eq_ok hrename
  obtain ⟨oldName, hfrom, hlook⟩ := hren.fromParent
  have hwf := h.tree.wf
  have hdirectory := hwf.resolveParent_live hbase hfrom
  have hdest := hwf.resolveParent_live hbase hren.toParent
  obtain ⟨hin, hname⟩ := findChild_mem (lookup_eq_ok hlook).2
  have hplaceFrom := place_of_endsInName
    (endsInName_of_name hfrom (hname ▸ h.tree.valid dir src hdirectory hin)) hfrom
  have hentry : s.vfs.entryAt fromPath.bytes base = .ok src := by
    rw [entryAt, hfrom]
    exact hlook
  constructor
  · rintro ⟨directory', oldName', source', destination', newName', hplace, hlook',
      hplaceTo, hrenamed⟩
    obtain ⟨rfl, rfl⟩ := Prod.mk.inj (Option.some.inj (hplaceFrom.symm.trans hplace))
    obtain rfl : src = source' := Except.ok.inj (hlook.symm.trans hlook')
    -- the entry has the name that `resolve_parent` has found, and the one that the path ends in
    have hnewName : newName = newName' := by
      have harrived := (findChild_mem (lookup_eq_ok hrenamed.arrived).2).2
      obtain ⟨hfind, rfl⟩ | ⟨repl, hmoves⟩ := hends
      · exact (findChild_mem hfind).2.symm.trans harrived
      · have htrans := Renaming.transfer h.tree hbase hren hmoves
        rw [hmoves.2.2.2, (htrans.transferred hwf).name, if_pos rfl, htrans.short] at harrived
        exact harrived
    subst hnewName
    have hendsTo := endsInName_of_name hren.toParent (place_name hplaceTo)
    obtain ⟨rfl, -⟩ := Prod.mk.inj (Option.some.inj
      ((place_of_endsInName hendsTo hren.toParent).symm.trans hplaceTo))
    refine ⟨hendsTo, fun source' destination' name hsrc hto hdir hatt => ?_⟩
    obtain rfl : src = source' := Except.ok.inj (hentry.symm.trans hsrc)
    obtain ⟨rfl, rfl⟩ := Prod.mk.inj (Except.ok.inj (hren.toParent.symm.trans hto))
    obtain ⟨hfind, rfl⟩ | ⟨repl, hmoves⟩ := hends
    · have hpar := (hwf.child dest src hdest (findChild_mem hfind).1).2
      exact (attached_iff_of_parent hpar).mp hatt
    · have htrans := Renaming.transfer h.tree hbase hren hmoves
      have hsrc := hrenamed.attached src (hwf.child dir src hdirectory hin).1 hdir
        (fun heq => hmoves.2.1 (hmoves.1.symm.trans (lookup_eq_ok heq).2)) hatt
      rw [hmoves.2.2.2] at hsrc
      exact (htrans.attached_source_iff h.tree (htrans.transferred hwf)).mp hsrc
  · rintro ⟨hendsTo, hatt⟩
    refine ⟨dir, oldName, src, dest, newName, hplaceFrom, hlook,
      place_of_endsInName hendsTo hren.toParent, ?_⟩
    obtain ⟨hfind, rfl⟩ | ⟨repl, hmoves⟩ := hends
    · exact renamed_of_stays h hdirectory hdest hlook (lookup_of_findChild hren.isDirectory hfind)
    · exact renamed_of_moves h (Renaming.transfer h.tree hbase hren hmoves) hlook hmoves
        (hatt src dest newName hentry hren.toParent)

/-! ## The result -/

/-- **What `rename` does.**  In every tree, and for every two paths, a call that fails changes
nothing, and one that succeeds renames exactly when the paths fit. -/
theorem rename_right (h : Orderly s) (hbase : s.vfs.LiveBase base) (fromPath toPath : Path)
    (memory : Bool) :
    (∀ e v', s.vfs.rename fromPath.bytes toPath.bytes base memory = (.error e, v') → v' = s.vfs) ∧
      ∀ v', s.vfs.rename fromPath.bytes toPath.bytes base memory = (.ok (), v') →
        (RenamedTo s fromPath.bytes toPath.bytes base v' ↔
          Fits s.vfs fromPath.bytes toPath.bytes base) :=
  ⟨fun _ _ hrename => rename_eq_error hrename, fun _ hrename => renamedTo_iff h hbase hrename⟩

lemma Settled.call {a : ℕ × FileCall} (h : Settled s) (hprop : Proper s a)
    (hp : a.1 < s.processes ∧ (s.waiting a.1).isSome = continues a.2) :
    Settled (s.call a.1 a.2) :=
  h.step hprop (if_pos hp)

/-- There are the directories `/tmp/d`, in which process 1 is, and `/tmp/e`. -/
def twoDirectories : FileTree :=
  (((booted 2).call 0 (.mkdir tmpD true)).call 1 (.chdir tmpD)).call 0 (.mkdir tmpE true)

/-- Process 1 is still there, but `/tmp/d` is not. -/
def removedDirectory : FileTree := twoDirectories.call 0 (.rmdir tmpD)

lemma twoDirectories_settled : Settled twoDirectories := by
  have h₁ : Settled ((booted 2).call 0 (.mkdir tmpD true)) :=
    (booted_settled 2).call (a := (0, .mkdir tmpD true)) (by decide +kernel) (by decide +kernel)
  have h₂ : Settled (((booted 2).call 0 (.mkdir tmpD true)).call 1 (.chdir tmpD)) :=
    h₁.call (a := (1, .chdir tmpD)) trivial (by decide +kernel)
  exact h₂.call (a := (0, .mkdir tmpE true)) (by decide +kernel) (by decide +kernel)

lemma removedDirectory_settled : Settled removedDirectory :=
  twoDirectories_settled.call (a := (0, .rmdir tmpD)) (by decide +kernel) (by decide +kernel)

/-- `/tmp/f/` -/
def tmpFSlash : Path := ⟨[0x2f, 0x74, 0x6d, 0x70, 0x2f, 0x66, 0x2f], by decide, by decide⟩

/-- `g` -/
def nameG : Path := ⟨[0x67], by decide, by decide⟩

/-- A call that succeeds: a part of what holds then is computed, and the rest follows from that. -/
lemma exists_renamed {x : Except Errno Unit × Vfs} {P Q : Vfs → Prop} (hx : x.1 = .ok () ∧ Q x.2)
    (h : ∀ v', x = (.ok (), v') → Q v' → P v') : ∃ v', x = (.ok (), v') ∧ P v' :=
  ⟨x.2, Prod.ext hx.1 rfl, h x.2 (Prod.ext hx.1 rfl) hx.2⟩

/-- `rename("/tmp/d", "/tmp/e")` puts the one directory in the place of the other. -/
theorem rename_right_twoDirectories :
    ∃ v', twoDirectories.vfs.rename tmpD.bytes tmpE.bytes (twoDirectories.base 0)
      true = (.ok (), v') ∧
      RenamedTo twoDirectories tmpD.bytes tmpE.bytes (twoDirectories.base 0) v' := by
  refine exists_renamed (Q := fun _ => True) (by decide +kernel) fun v' hcall _ => ?_
  have hbase := twoDirectories_settled.liveBase (p := 0) (by decide +kernel)
  have hto : twoDirectories.vfs.resolveParent tmpE.bytes (twoDirectories.base 0) =
    .ok (2, [0x65]) := by
    decide +kernel
  refine ((rename_right twoDirectories_settled.orderly hbase tmpD tmpE true).2 v' hcall).mpr
    ⟨by decide +kernel, fun source destination name _ hdestination _ _ => ?_⟩
  obtain ⟨rfl, -⟩ := Prod.mk.inj (Except.ok.inj (hto.symm.trans hdestination))
  exact ⟨2, .refl, by decide +kernel, by decide +kernel⟩

/-- `rename("/tmp/d", "/tmp/f/")` succeeds, and then neither path leads anywhere.  And
`rename("/tmp/e", "g")` of a process in a directory that has been removed succeeds, and takes a
directory out of the tree. -/
theorem slash_in_new_name :
    (∃ v', twoDirectories.vfs.rename tmpD.bytes tmpFSlash.bytes (twoDirectories.base 0)
      true = (.ok (), v') ∧ v'.resolve tmpD.bytes none = .error .ENOENT ∧
        v'.resolve tmpFSlash.bytes none = .error .ENOENT ∧
      ¬ RenamedTo twoDirectories tmpD.bytes tmpFSlash.bytes (twoDirectories.base 0) v') ∧
    ∃ v', removedDirectory.vfs.rename tmpE.bytes nameG.bytes (removedDirectory.base 1)
      true = (.ok (), v') ∧ v'.resolve tmpE.bytes none = .error .ENOENT ∧
      ¬ RenamedTo removedDirectory tmpE.bytes nameG.bytes (removedDirectory.base 1) v' := by
  constructor
  · refine exists_renamed (Q := fun v' => v'.resolve tmpD.bytes none = .error .ENOENT ∧
      v'.resolve tmpFSlash.bytes none = .error .ENOENT) (by decide +kernel) fun v' hcall hgone => ?_
    refine ⟨hgone.1, hgone.2, fun hrenamed => ?_⟩
    have hbase := twoDirectories_settled.liveBase (p := 0) (by decide +kernel)
    have hfits := (renamedTo_iff twoDirectories_settled.orderly hbase hcall).mp hrenamed
    exact absurd hfits.1 (by decide +kernel)
  · refine exists_renamed (Q := fun v' => v'.resolve tmpE.bytes none = .error .ENOENT)
      (by decide +kernel)
      fun v' hcall hgone => ⟨hgone, fun hrenamed => ?_⟩
    have hbase := removedDirectory_settled.liveBase (p := 1) (by decide +kernel)
    have hfits := (renamedTo_iff removedDirectory_settled.orderly hbase hcall).mp hrenamed
    -- `/tmp/e` is inode 4, below the root of `/tmp`, and the removed directory is inode 3
    have hattached : removedDirectory.vfs.Attached 4 := by
      have hup : (removedDirectory.vfs.inodes 4).parent = some 2 := by decide +kernel
      exact ⟨2, .single hup, by decide +kernel, by decide +kernel⟩
    have hdestination := hfits.2 4 3 [0x67] (by decide +kernel) (by decide +kernel)
      (by decide +kernel) hattached
    rw [attached_iff_of_top (by decide +kernel)] at hdestination
    exact absurd hdestination (by decide +kernel)

end FileTree
end ShitOs
