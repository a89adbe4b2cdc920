import ShitOs.Properties.Vfs
import Mathlib.Data.List.Induction

/-!
# Names agree

A name is put into a directory by way of `resolve_parent` and found again by way of `resolve`.  Here
the two are compared, for the calls that make a name and for `rename`.

The first difference is the slash at the end of a path: `resolve` skips it, `resolve_parent` leaves
it in the name, so `mkdir("c/")` makes a directory that no path leads to.  Only when the name is so
long that the slash is cut off with the rest of it do the two agree again.  `rename` adds two more:
what is moved may be a mount point, and the way to its new place may lead through what is moved or
through what is replaced, and elsewhere after the move.

Whether two paths name the same entry is a question of the components, as they are cut, once `.` and
`..` have been worked off (`normalised`), as long as the filesystems on the way are mounted once.
-/

namespace ShitOs
namespace Vfs

open List (mem_append_left mem_append_right mem_cons_self not_mem_nil)

variable {s s' : Vfs} {base : Option ℕ} {path : Path} {d n x y : ℕ} {memory : Bool}
  {cs ds : List Text} {c : Text}

/-! ## A name that was made -/

/-- A path under which something was made leads to it exactly when it ends in a name. -/
lemma resolve_create (hwf : s.WellFormed) (hbase : s.LiveBase base) {e : Errno}
    {m : ℕ} {name : Text} {type : InodeType} (hfail : s.resolve path.bytes base = .error e)
    (hpar : s.resolveParent path.bytes base = .ok (d, name))
    (hcreate : s.create d name type memory = (.ok m, s')) :
    s'.resolve path.bytes base = .ok m ↔ EndsInName path.bytes := by
  obtain ⟨final, tail, hfinal, hfree, htail⟩ := finalPart_shape path.bytes
  have horigin := hwf.origin_live hbase path.bytes
  obtain ⟨hwalk, rfl⟩ := resolveParent_eq_ok hpar
  have hd := hwf.walk_live horigin hwalk
  obtain ⟨rfl, hnew⟩ := create_eq_ok hd.1 hcreate
  -- the last component could not be found before
  have hlast := components_final hfinal hfree htail
  rw [resolve_eq, walk_append_of_ok hwalk, hlast] at hfail
  have hne : final ≠ [] := by
    rintro rfl
    simp [Vfs.walk] at hfail
  rw [if_neg hne] at hlast hfail
  have henter : ∀ y, s.enter d (cut final) ≠ .ok y := by
    intro y hy
    simp [Vfs.walk, hy] at hfail
  have hdot : cut final ≠ DOT := fun he => henter d (by simp [enter, he])
  have hdots : cut final ≠ DOT_DOT := fun he =>
    henter ((s.inodes d).parent.getD d) (by simp [enter, he, show DOT_DOT ≠ DOT by decide])
  have habs : s.findChild (s.inodes d).children (cut final) = none := by
    by_contra hfound
    obtain ⟨c, hc⟩ := Option.ne_none_iff_exists'.mp hfound
    exact henter _ (enter_of_name hdot hdots (lookup_of_findChild hnew.isDirectory hc))
  -- and afterwards it is the name that was given, or nothing
  have hfound : s'.findChild (s'.inodes d).children (cut final) =
      if cut (finalPart path.bytes) = cut final then some s.next else none := by
    have hold : s'.findChild (s.inodes d).children (cut final) = none := by
      rw [← habs]
      exact findChild_congr fun c hc => by rw [hnew.old (hwf.child d c hd hc).1.1]
    rw [hnew.directory]
    unfold findChild at hold ⊢
    rw [List.find?_append, hold]
    have hcut : (cut (finalPart path.bytes)).take (FILENAME_MAX_LENGTH - 1) =
        cut (finalPart path.bytes) := by simp [cut, List.take_take]
    simp only [Option.none_or, List.find?_singleton, hnew.child, newInode, hcut,
      decide_eq_true_eq]
  have hmount : s'.followMount s.next = s.next := by
    obtain heq | ⟨mount, hmem, hcov, -⟩ := s'.followMount_eq s.next
    · exact heq
    · rw [hnew.mounts] at hmem
      exact absurd (hwf.covered mount hmem _ hcov).1 (Nat.lt_irrefl _)
  have hdir' : (s'.inodes d).isDirectory := by
    rw [hnew.old hd.1]
    exact hnew.isDirectory
  rw [resolve_eq, hnew.origin, walk_append_of_ok (hnew.walk hwf horigin hwalk), hlast]
  rw [endsInName_iff hfinal hfree htail, and_iff_right hne]
  by_cases hcut : cut (finalPart path.bytes) = cut final
  · rw [if_pos hcut] at hfound
    simp [Vfs.walk, enter_of_name hdot hdots (lookup_of_findChild hdir' hfound), hmount, hcut]
  · rw [if_neg hcut] at hfound
    simp [Vfs.walk, enter, hdot, hdots, lookup, hdir', hfound, hcut]

/-! ## The walk to the new place -/

/-- Whether a walk takes neither `source` nor `gone` by name, and does not go up from an inode whose
parent changes in a move: from `gone`, or from `source` unless it `stays` in its directory. -/
def avoids (s : Vfs) (source : ℕ) (gone : Option ℕ) (stays : Bool) : List Text → ℕ → Bool
  | [], _ => true
  | c :: cs, x =>
    (if c = DOT then true
      else if c = DOT_DOT then (x ≠ source || stays) && gone ≠ some x
      else (s.lookup x c).toOption.all fun child => child ≠ source && gone ≠ some child) &&
    (s.enter x c).toOption.all (avoids s source gone stays cs)

namespace Moved

variable {directory source destination : ℕ} {newName : Text} {replaced : Option ℕ}
  (h : Moved s directory source destination newName replaced s') (hwf : s.WellFormed)
  (hdir : s.Live directory) (hmem : source ∈ (s.inodes directory).children)
include h hwf hdir hmem

/-- A walk that avoids the two entries goes where it went. -/
lemma walk {stays : Bool} (hstays : stays = true → directory = destination) (hn : s.Live n)
    (hclear : s.avoids source replaced stays cs n = true) (hwalk : s.walk cs n = .ok x) :
    s'.walk cs n = .ok x := by
  refine walk_transfer (I := fun cs x => s.Live x ∧ s.avoids source replaced stays cs x = true)
    (fun c cs x y hx henter => ?_) ⟨hn, hclear⟩ hwalk
  obtain ⟨hx, hclear⟩ := hx
  simp only [avoids, Bool.and_eq_true] at hclear
  obtain ⟨hhere, hrest⟩ := hclear
  refine ⟨?_, hwf.enter_live hx henter, by simpa [henter, Except.toOption] using hrest⟩
  obtain ⟨rfl, rfl⟩ | ⟨rfl, rfl⟩ | ⟨hdot, hdots, child, hlook, rfl⟩ := enter_eq_ok henter
  · rfl
  · rw [if_neg (by decide), if_pos rfl] at hhere
    obtain ⟨hsource, hgone⟩ : (x ≠ source ∨ stays = true) ∧ replaced ≠ some x := by
      simpa using hhere
    have hpar : (s'.inodes x).parent = (s.inodes x).parent := by
      rw [h.parent, if_neg hgone]
      split_ifs with hxs
      · subst hxs
        rw [(hwf.child directory x hdir hmem).2, hstays (hsource.resolve_left (by simp))]
      · rfl
    simp [enter, hpar, show DOT_DOT ≠ DOT by decide]
  · obtain ⟨hisdir, hfind⟩ := lookup_eq_ok hlook
    obtain ⟨hchild, hchild'⟩ : child ≠ source ∧ replaced ≠ some child := by
      simpa [hdot, hdots, hlook, Except.toOption] using hhere
    have hfind' := h.findChild (Ne.symm hchild) hchild' (hwf.nodup hx)
      (fun hsrc => hwf.directory_eq hx hdir hsrc hmem) hfind
    have hisdir' : (s'.inodes x).isDirectory := by rw [h.isDirectory, hisdir]
    rw [enter_of_name hdot hdots (lookup_of_findChild hisdir' hfind'), h.followMount]

/-- A walk in the tree as the move leaves it leads to what was there before. -/
lemma walk_live (hdest : s.Live destination) (hn : s.Live n) (hwalk : s'.walk cs n = .ok x) :
    s.Live x := by
  refine walk_invariant (I := s.Live) (fun c x y hx henter => ?_) hn hwalk
  obtain ⟨-, rfl⟩ | ⟨-, rfl⟩ | ⟨-, -, child, hlook, rfl⟩ := enter_eq_ok henter
  · exact hx
  · rw [h.parent]
    split_ifs
    · exact hx
    · exact hdest
    · cases hpar : (s.inodes x).parent with
      | none => exact hx
      | some d => exact (hwf.parent x d hx hpar).1
  · rw [h.followMount]
    refine hwf.followMount_live ?_
    have hchild := (findChild_mem (lookup_eq_ok hlook).2).1
    rw [h.children, List.mem_append] at hchild
    rcases hchild with hchild | hchild
    · exact (hwf.child x child hx ((kept_sublist x).subset hchild)).1
    · split_ifs at hchild
      · rw [List.mem_singleton.mp hchild]
        exact (hwf.child directory source hdir hmem).1
      · simp at hchild

/-- What was moved is in one directory. -/
lemma eq_destination (hx : s.Live x) (hin : source ∈ (s'.inodes x).children) : x = destination := by
  by_contra hne
  rw [h.children, if_neg hne, List.append_nil, mem_kept_iff (hwf.nodup hx)] at hin
  exact hin.2.1 (hwf.directory_eq hx hdir hin.1 hmem) rfl

end Moved

lemma walk_concat :
    s.walk (cs ++ [c]) x = .ok y ↔ ∃ z, s.walk cs x = .ok z ∧ s.enter z c = .ok y := by
  cases hwalk : s.walk cs x with
  | error e => simp [walk_append_of_error hwalk]
  | ok z =>
    rw [walk_append_of_ok hwalk]
    simp only [walk, Except.ok.injEq, exists_eq_left']
    cases s.enter z c <;> simp

/-- The directory part of a path leads to directory `d`. -/
def LeadsTo (s : Vfs) (path : Text) (base : Option ℕ) (d : ℕ) : Prop :=
  s.walk (components (directoryPart path)) (s.origin path base) = .ok d

/-- Directory `d`, and of those that the path may lead to only this one, has `c`, under the last
name of the path. -/
structure Arrived (s : Vfs) (path : Text) (base : Option ℕ) (d c : ℕ) : Prop where
  isDirectory : (s.inodes d).isDirectory
  found : s.findChild (s.inodes d).children (cut (finalPart path)) = some c
  notDots : cut (finalPart path) ≠ DOT ∧ cut (finalPart path) ≠ DOT_DOT
  noRoot : ∀ x, s.followMount x = c → x = c
  only : ∀ m, s.LeadsTo path base m → c ∈ (s.inodes m).children → m = d
  apart : d ≠ c
  notAbove : (s.inodes d).parent ≠ some c

/-- A path that ends in a name leads to the entry exactly when it leads to the directory and nothing
is mounted on the entry. -/
lemma Arrived.resolve_iff (h : s.Arrived path.bytes base d x) (hends : EndsInName path.bytes) :
    s.resolve path.bytes base = .ok x ↔
      s.followMount x = x ∧ s.LeadsTo path.bytes base d := by
  obtain ⟨final, tail, hfinal, hfree, htail⟩ := finalPart_shape path.bytes
  obtain ⟨hne, hcut⟩ := (endsInName_iff hfinal hfree htail).mp hends
  obtain ⟨hdot, hdots⟩ := hcut ▸ h.notDots
  have hlast : components (finalPart path.bytes) = [cut final] := by
    rw [components_final hfinal hfree htail, if_neg hne]
  have hfound := hcut ▸ h.found
  rw [resolve_eq, hlast, walk_concat]
  constructor
  · rintro ⟨m, hm, henter⟩
    obtain ⟨hc, -⟩ | ⟨hc, -⟩ | ⟨-, -, child, hlook, hchild⟩ := enter_eq_ok henter
    · exact absurd hc hdot
    · exact absurd hc hdots
    · obtain rfl := h.noRoot child hchild.symm
      exact ⟨hchild.symm, h.only m hm (findChild_mem (lookup_eq_ok hlook).2).1 ▸ hm⟩
  · rintro ⟨hmount, hleads⟩
    refine ⟨d, hleads, ?_⟩
    rw [enter_of_name hdot hdots (lookup_of_findChild h.isDirectory hfound), hmount]

/-- A path that leads to the directory leads to the entry only if it ends in a name. -/
lemma Arrived.endsInName (h : s.Arrived path.bytes base d x) (hleads : s.LeadsTo path.bytes base d)
    (hres : s.resolve path.bytes base = .ok x) : EndsInName path.bytes := by
  obtain ⟨final, tail, hfinal, hfree, htail⟩ := finalPart_shape path.bytes
  rw [resolve_eq, walk_append_of_ok hleads, components_final hfinal hfree htail] at hres
  rw [endsInName_iff hfinal hfree htail]
  by_cases hne : final = []
  · simp [hne, Vfs.walk, h.apart] at hres
  rw [if_neg hne] at hres
  refine ⟨hne, ?_⟩
  have henter : s.enter d (cut final) = .ok x := by
    simp only [Vfs.walk] at hres
    split at hres
    · cases hres
    · next y hy => rw [hy, hres]
  obtain ⟨-, hc⟩ | ⟨-, hc⟩ | ⟨-, -, child, hlook, hc⟩ := enter_eq_ok henter
  · exact absurd hc.symm h.apart
  · cases hpar : (s.inodes d).parent with
    | none => exact absurd (by simpa [hpar] using hc.symm) h.apart
    | some p => exact absurd (by simpa [hpar] using hc.symm) h.notAbove
  · obtain rfl := h.noRoot child hc.symm
    exact (findChild_mem h.found).2.symm.trans (findChild_mem (lookup_eq_ok hlook).2).2

/-- What the directory operations find at a path. -/
def entryAt (s : Vfs) (path : Text) (base : Option ℕ) : Except Errno ℕ :=
  match s.resolveParent path base with
  | .error e => .error e
  | .ok (directory, name) => s.lookup directory name

/-- The walk to the directory of a path avoids `source`, and what is at the path now. -/
def Clear (s : Vfs) (path : Text) (base : Option ℕ) (source : ℕ) : Prop :=
  ∀ e ∈ (s.resolveParent path base).toOption,
    s.avoids source (s.findChild (s.inodes e.1).children e.2)
      ((s.inodes source).parent = some e.1) (components (directoryPart path))
      (s.origin path base) = true

instance (s : Vfs) (path : Text) (base : Option ℕ) (source : ℕ) :
    Decidable (s.Clear path base source) :=
  inferInstanceAs (Decidable (∀ e ∈ _, _))

/-- After a `rename` the entry is where the path says, and a path that was clear still leads
there. -/
lemma arrived_of_rename (hwf : s.WellFormed) (hbase : s.LiveBase base) {fromPath toPath : Path}
    {source destination : ℕ} {name : Text}
    (hrename : s.rename fromPath.bytes toPath.bytes base memory = (.ok (), s'))
    (hsrc : s.entryAt fromPath.bytes base = .ok source)
    (hto : s.resolveParent toPath.bytes base = .ok (destination, name)) :
    s'.Arrived toPath.bytes base destination source ∧
      s'.followMount source = s.followMount source ∧
      (s.Clear toPath.bytes base source → s'.LeadsTo toPath.bytes base destination) := by
  obtain ⟨directory, source', destination', newName, hren, hends⟩ := rename_eq_ok hrename
  obtain ⟨oldName, hfrom, hlook⟩ := hren.fromParent
  obtain rfl : source' = source := by simpa [entryAt, hfrom, hlook] using hsrc
  obtain ⟨rfl, rfl⟩ : destination' = destination ∧ newName = name := by
    simpa using hren.toParent.symm.trans hto
  obtain ⟨hwalk, rfl⟩ := resolveParent_eq_ok hto
  have horigin := hwf.origin_live hbase toPath.bytes
  have hdir := hwf.walk_live (hwf.origin_live hbase fromPath.bytes) (resolveParent_eq_ok hfrom).1
  have hdest := hwf.walk_live horigin hwalk
  have hmem := (findChild_mem (lookup_eq_ok hlook).2).1
  have hchild := hwf.child directory source' hdir hmem
  -- no filesystem has its root there
  have hmounted : ∀ x, s.followMount x = source' → x = source' := by
    intro x hx
    obtain heq | ⟨mount, hmount, -, heq⟩ := s.followMount_eq x
    · exact heq.symm.trans hx
    · have hpar := hchild.2
      rw [← hx, heq, (hwf.mount mount hmount).2] at hpar
      cases hpar
  -- the directories above the new place were looked at, unless the entry is no directory
  obtain ⟨k, hk⟩ : ∃ k, s.next = k + 1 := ⟨s.next - 1, by have := hdest.1; omega⟩
  have hself : destination' ≠ source' := by
    rintro rfl
    have hwithin := hren.outside hren.isDirectory
    simp [hk, isWithin] at hwithin
  have hup : (s.inodes destination').parent ≠ some source' := by
    intro hpar
    have hwithin := hren.outside (hwf.parent destination' source' hdest hpar).2
    obtain ⟨k, hk⟩ : ∃ k, s.next = k + 2 :=
      ⟨s.next - 2, by have := hdest.1; have := hchild.1.1; omega⟩
    simp [hk, isWithin, hpar] at hwithin
  obtain ⟨hfind, rfl⟩ | ⟨replaced, hrepl, hother, -, rfl⟩ := hends
  · refine ⟨⟨hren.isDirectory, hfind, hren.notDots, hmounted, fun m hm hin => ?_, hself, hup⟩, rfl,
      fun _ => hwalk⟩
    exact hwf.directory_eq (hwf.walk_live horigin hm) hdest hin (findChild_mem hfind).1
  · have hmoved :=
      moved_move s directory source' destination' (cut (finalPart toPath.bytes)) replaced
    refine ⟨⟨?_, ?_, hren.notDots, ?_, fun m hm => ?_, hself, ?_⟩, hmoved.followMount _,
      fun hclear => ?_⟩
    · rw [hmoved.isDirectory, hren.isDirectory]
    · exact hmoved.findChild_destination hwf hdir hdest hmem hrepl (by simp [cut, List.take_take])
    · exact fun x hx => hmounted x (by rwa [hmoved.followMount] at hx)
    · rw [LeadsTo, hmoved.origin] at hm
      exact hmoved.eq_destination hwf hdir hmem
        (hmoved.walk_live hwf hdir hmem hdest horigin hm)
    · rw [hmoved.parent]
      split_ifs
      · simp
      · exact hup
    · have havoids := hclear (destination', cut (finalPart toPath.bytes)) (by rw [hto]; rfl)
      rw [LeadsTo, hmoved.origin]
      refine hmoved.walk hwf hdir hmem (fun hstays => ?_) horigin (hrepl ▸ havoids) hwalk
      have hsame : (s.inodes source').parent = some destination' := by simpa using hstays
      exact Option.some.inj (hchild.2.symm.trans hsame)

/-! ## Two paths to one entry -/

/-- The components of a path that lead somewhere. -/
def steps (path : Text) : List Text := (components path).filter (· ≠ DOT)

/-- The directory entry a list of components names: the directory, and the child in it. -/
def entry (s : Vfs) (cs : List Text) (x : ℕ) : Except Errno (ℕ × ℕ) :=
  match cs.getLast? with
  | none => .error .ENOENT
  | some c =>
    if c = DOT ∨ c = DOT_DOT then .error .ENOENT
    else
      match s.walk cs.dropLast x with
      | .error e => .error e
      | .ok d => (s.lookup d c).map fun child => (d, child)

/-- The names that lead from the top to the end of a walk, where `names` lead to its beginning.
`..` takes the last of them away, and none at the root of a filesystem.  There is no answer if the
walk fails or goes up beyond the top. -/
def normalised (s : Vfs) : List Text → List Text → ℕ → Option (List Text)
  | names, [], _ => some names
  | names, c :: cs, x =>
    match s.enter x c with
    | .error _ => none
    | .ok y =>
      if c = DOT then normalised s names cs y
      else if c = DOT_DOT then
        if (s.inodes x).parent = none then normalised s names cs y
        else if names = [] then none
        else normalised s names.dropLast cs y
      else normalised s (names ++ [c]) cs y

/-- The way down along `names` does not come back to the top, and every filesystem that it enters is
mounted in one place. -/
def Simple (s : Vfs) (top : ℕ) (names : List Text) : Prop :=
  ∀ front, front <+: names → front ≠ [] → ∀ y, s.walk front top = .ok y → y ≠ top ∧
    ∀ m ∈ s.mounts, ∀ m' ∈ s.mounts, (s.filesystems m.filesystem).root = y →
      (s.filesystems m'.filesystem).root = y → m.covered = m'.covered

/-- No component leads up or stays. -/
def Downward (cs : List Text) : Prop := ∀ c ∈ cs, c ≠ DOT ∧ c ≠ DOT_DOT

instance (cs : List Text) : Decidable (Downward cs) := inferInstanceAs (Decidable (∀ c ∈ cs, _))

lemma enter_eq_ok_of_downward (hc : c ≠ DOT ∧ c ≠ DOT_DOT)
    (henter : s.enter x c = .ok y) :
    ∃ child, s.lookup x c = .ok child ∧ y = s.followMount child := by
  obtain ⟨h, -⟩ | ⟨h, -⟩ | ⟨-, -, hchild⟩ := enter_eq_ok henter
  · exact absurd h hc.1
  · exact absurd h hc.2
  · exact hchild

lemma entry_eq_ok (hentry : s.entry cs x = .ok (d, n)) :
    ∃ front c, cs = front ++ [c] ∧ (c ≠ DOT ∧ c ≠ DOT_DOT) ∧ s.walk front x = .ok d ∧
      s.lookup d c = .ok n := by
  unfold entry at hentry
  split at hentry
  · cases hentry
  next c hlast =>
  split at hentry
  · cases hentry
  next hname =>
  split at hentry
  · cases hentry
  next d' hwalk =>
  cases hlook : s.lookup d' c with
  | error e => simp [hlook, Except.map] at hentry
  | ok n' =>
    obtain ⟨rfl, rfl⟩ : d' = d ∧ n' = n := by simpa [hlook, Except.map] using hentry
    exact ⟨cs.dropLast, c, (List.dropLast_append_getLast? c hlast).symm, not_or.mp hname, hwalk,
      hlook⟩

/-- Two named inodes from which a walk goes on in one place are one, if a filesystem with its root
there is mounted once. -/
lemma eq_of_followMount_eq (hwf : s.WellFormed)
    (honce : ∀ m ∈ s.mounts, ∀ m' ∈ s.mounts, (s.filesystems m.filesystem).root = s.followMount n →
      (s.filesystems m'.filesystem).root = s.followMount n → m.covered = m'.covered)
    {n' : ℕ} (hpar : (s.inodes n).parent ≠ none) (hpar' : (s.inodes n').parent ≠ none)
    (heq : s.followMount n = s.followMount n') : n = n' := by
  obtain h1 | ⟨m, hm, hcov, h1⟩ := s.followMount_eq n <;>
    obtain h2 | ⟨m', hm', hcov', h2⟩ := s.followMount_eq n'
  · rw [← h1, heq, h2]
  · rw [h1, h2] at heq
    exact absurd (heq ▸ (hwf.mount m' hm').2) hpar
  · rw [h1, h2] at heq
    exact absurd (heq ▸ (hwf.mount m hm).2) hpar'
  · have hsame := honce m hm m' hm' h1.symm (h2.symm.trans heq.symm)
    simpa [hcov, hcov'] using hsame

lemma Simple.front {top : ℕ} (h : s.Simple top (cs ++ [c])) : s.Simple top cs :=
  fun front hfront => h front (hfront.trans (List.prefix_append cs [c]))

lemma Simple.last {top : ℕ} (h : s.Simple top (cs ++ [c]))
    (hwalk : s.walk (cs ++ [c]) top = .ok y) :
    y ≠ top ∧ ∀ m ∈ s.mounts, ∀ m' ∈ s.mounts, (s.filesystems m.filesystem).root = y →
      (s.filesystems m'.filesystem).root = y → m.covered = m'.covered :=
  h _ List.prefix_rfl (by simp) y hwalk

/-- Walks down that end in one place have taken the same steps. -/
lemma Simple.walk_injective (hwf : s.WellFormed) (hx : s.Live x) (hsimple : s.Simple x cs)
    (hsimple' : s.Simple x ds) (hcs : Downward cs) (hds : Downward ds)
    (hwalk : s.walk cs x = .ok y) (hwalk' : s.walk ds x = .ok y) : cs = ds := by
  induction cs using List.reverseRecOn generalizing ds y with
  | nil =>
    obtain rfl : x = y := by simpa [walk] using hwalk
    cases ds using List.reverseRecOn with
    | nil => rfl
    | append_singleton ds d => exact absurd rfl (hsimple'.last hwalk').1
  | append_singleton cs c ih =>
    cases ds using List.reverseRecOn with
    | nil =>
      obtain rfl : x = y := by simpa [walk] using hwalk'
      exact absurd rfl (hsimple.last hwalk).1
    | append_singleton ds d =>
      obtain ⟨z, hz, henter⟩ := walk_concat.mp hwalk
      obtain ⟨z', hz', henter'⟩ := walk_concat.mp hwalk'
      obtain ⟨n, hlook, rfl⟩ := enter_eq_ok_of_downward
        (hcs c (mem_append_right _ mem_cons_self)) henter
      obtain ⟨n', hlook', hn'⟩ := enter_eq_ok_of_downward
        (hds d (mem_append_right _ mem_cons_self)) henter'
      obtain ⟨hmem, hname⟩ := findChild_mem (lookup_eq_ok hlook).2
      obtain ⟨hmem', hname'⟩ := findChild_mem (lookup_eq_ok hlook').2
      have hlive := hwf.walk_live hx hz
      have hlive' := hwf.walk_live hx hz'
      obtain rfl := eq_of_followMount_eq hwf (hsimple.last hwalk).2
        (by simp [(hwf.child z n hlive hmem).2]) (by simp [(hwf.child z' n' hlive' hmem').2]) hn'
      obtain rfl := hwf.directory_eq hlive hlive' hmem hmem'
      rw [ih hsimple.front hsimple'.front (fun c hc => hcs c (mem_append_left _ hc))
        (fun c hc => hds c (mem_append_left _ hc)) hz hz', ← hname, ← hname']

/-- The names do lead from the top to the end of the walk. -/
lemma walk_normalised (hwf : s.WellFormed) {top : ℕ} (htop : s.Live top) {names a : List Text}
    (hdown : Downward names) (hnames : s.walk names top = .ok x)
    (hnorm : s.normalised names cs x = some a) (hwalk : s.walk cs x = .ok y) :
    Downward a ∧ s.walk a top = .ok y := by
  induction cs generalizing names x with
  | nil =>
    obtain rfl : names = a := by simpa [normalised] using hnorm
    obtain rfl : x = y := by simpa [walk] using hwalk
    exact ⟨hdown, hnames⟩
  | cons c cs ih =>
    simp only [walk] at hwalk
    simp only [normalised] at hnorm
    split at hwalk
    · cases hwalk
    next z henter =>
    rw [henter] at hnorm
    dsimp only at hnorm
    split_ifs at hnorm with hdot hdots hroot hnil
    · obtain rfl : x = z := by simpa [enter, hdot] using henter
      exact ih hdown hnames hnorm hwalk
    · obtain rfl : x = z := by
        simpa [enter, hdots, show DOT_DOT ≠ DOT by decide, hroot] using henter
      exact ih hdown hnames hnorm hwalk
    · -- the last name led here from above, and to no other filesystem
      obtain ⟨front, last, rfl⟩ := (List.eq_nil_or_concat' names).resolve_left hnil
      obtain ⟨w, hfront, hlast⟩ := walk_concat.mp hnames
      obtain ⟨child, hlook, rfl⟩ := enter_eq_ok_of_downward (hdown last (by simp)) hlast
      have hchild := hwf.child w child (hwf.walk_live htop hfront)
        (findChild_mem (lookup_eq_ok hlook).2).1
      have hsame : s.followMount child = child := by
        obtain heq | ⟨mount, hmount, -, heq⟩ := s.followMount_eq child
        · exact heq
        · exact absurd (heq ▸ (hwf.mount mount hmount).2) hroot
      rw [hsame] at henter
      obtain rfl : w = z := by
        simpa [enter, hdots, show DOT_DOT ≠ DOT by decide, hchild.2] using henter
      rw [List.dropLast_concat] at hnorm
      exact ih (fun c hc => hdown c (mem_append_left _ hc)) hfront hnorm hwalk
    · refine ih (fun c' hc' => ?_) (walk_concat.mpr ⟨x, hnames, henter⟩) hnorm hwalk
      rcases List.mem_append.mp hc' with hc' | hc'
      · exact hdown c' hc'
      · exact List.mem_singleton.mp hc' ▸ ⟨hdot, hdots⟩

lemma normalised_concat {names a : List Text} (hc : c ≠ DOT ∧ c ≠ DOT_DOT)
    (hnorm : s.normalised names (cs ++ [c]) x = some a) :
    ∃ front, s.normalised names cs x = some front ∧ a = front ++ [c] := by
  induction cs generalizing names x with
  | nil =>
    simp only [List.nil_append, normalised] at hnorm
    split at hnorm
    · cases hnorm
    · rw [if_neg hc.1, if_neg hc.2] at hnorm
      exact ⟨names, rfl, (Option.some.inj hnorm).symm⟩
  | cons c' cs ih =>
    simp only [List.cons_append, normalised] at hnorm ⊢
    split at hnorm
    · cases hnorm
    · split_ifs at hnorm ⊢ <;> exact ih hnorm

/-- Path `path` names the entry `e`, and `names` lead there from `top`. -/
structure Names (s : Vfs) (base : Option ℕ) (top : ℕ) (path : Text) (names : List Text)
    (e : ℕ × ℕ) : Prop where
  entry : s.entry (steps path) (s.origin path base) = .ok e
  normalised : ∃ home, Downward home ∧ s.walk home top = .ok (s.origin path base) ∧
    s.normalised home (steps path) (s.origin path base) = some names

/-- What the names of an entry are made of. -/
lemma Names.exists_front (hwf : s.WellFormed) {top : ℕ} (htop : s.Live top) {text : Text}
    {names : List Text} (h : s.Names base top text names (d, n)) : ∃ front c,
      names = front ++ [c] ∧ Downward front ∧ s.walk front top = .ok d ∧ s.lookup d c = .ok n := by
  obtain ⟨home, hdown, hhome, hnorm⟩ := h.normalised
  obtain ⟨cs, c, hsteps, hc, hwalk, hlook⟩ := entry_eq_ok h.entry
  obtain ⟨front, hfront, rfl⟩ := normalised_concat hc (hsteps ▸ hnorm)
  obtain ⟨hdown', hwalk'⟩ := walk_normalised hwf htop hdown hhome hfront hwalk
  exact ⟨front, c, rfl, hdown', hwalk', hlook⟩

/-- Entries are the same exactly when the names that lead there are. -/
lemma Names.eq_iff (hwf : s.WellFormed) {top : ℕ} (htop : s.Live top) {text text' : Text}
    {names names' : List Text} {e e' : ℕ × ℕ} (hnames : s.Names base top text names e)
    (hnames' : s.Names base top text' names' e') (hsimple : s.Simple top names.dropLast)
    (hsimple' : s.Simple top names'.dropLast) :
    e = e' ↔ names = names' := by
  obtain ⟨front, c, rfl, hdown, hwalk, hlook⟩ := hnames.exists_front hwf htop
  obtain ⟨front', c', rfl, hdown', hwalk', hlook'⟩ := hnames'.exists_front hwf htop
  rw [List.dropLast_concat] at hsimple hsimple'
  constructor
  · rintro rfl
    have hname := (findChild_mem (lookup_eq_ok hlook).2).2
    have hname' := (findChild_mem (lookup_eq_ok hlook').2).2
    rw [hsimple.walk_injective hwf htop hsimple' hdown hdown' hwalk hwalk', ← hname, ← hname']
  · intro heq
    obtain ⟨rfl, hlast⟩ := List.append_inj' heq rfl
    obtain rfl : c = c' := by simpa using hlast
    have hd := Except.ok.inj (hwalk.symm.trans hwalk')
    rw [hd] at hlook
    exact Prod.ext hd (Except.ok.inj (hlook.symm.trans hlook'))

/-! ## Names agree -/

/-- The calls that make a new name, and succeed in doing so. -/
inductive Creates (s : Vfs) (path : Text) (base : Option ℕ) (n : ℕ) (s' : Vfs) : Prop
  | openCreate (e : Errno) (flags : BitVec 32) (made memory : Bool)
      (hnew : s.resolve path base = .error e)
      (hopen : s.openPath path flags base made memory = (.ok n, s'))
  | mkdir (memory : Bool) (hmkdir : s.sysMkdir path base memory = (.ok n, s'))
  | mkfifo (memory : Bool) (hmkfifo : s.sysMkfifo path base memory = (.ok n, s'))

/-- Every call that makes a name makes it with `create`, and changes no name after that. -/
lemma Creates.exists_create {path : Text} (h : Creates s path base n s') :
    ∃ e d name type memory t, s.resolve path base = .error e ∧
      s.resolveParent path base = .ok (d, name) ∧ s.create d name type memory = (.ok n, t) ∧
      SameTree t s' := by
  cases h with
  | mkdir memory hmkdir =>
    obtain ⟨e, d, name, hfail, hpar, hcreate⟩ := (makeNode_cases hmkdir).resolve_left (by simp)
    exact ⟨e, d, name, _, memory, s', hfail, hpar, hcreate, SameTree.refl s'⟩
  | mkfifo memory hmkfifo =>
    obtain ⟨e, d, name, hfail, hpar, hcreate⟩ :=
      (makeNode_cases hmkfifo).resolve_left (by simp)
    exact ⟨e, d, name, _, memory, s', hfail, hpar, hcreate, SameTree.refl s'⟩
  | openCreate e flags made memory hnew hopen =>
    obtain ⟨t, hfind, rfl⟩ := openPath_eq_ok hopen
    obtain ⟨_, hr, -⟩ | ⟨m, -, -, hfound⟩ | ⟨d, name, hfail, -, hpar, hcreate⟩ :=
      findOrCreate_cases hfind
    · cases hr
    · simp [hnew] at hfound
    · exact ⟨_, d, name, _, made, t, hfail, hpar, hcreate, sameTree_set t n _⟩

/-- A `tmpfs` as the root filesystem, with the files `a` and `b` in it. -/
def twoFiles : Vfs where
  inodes
    | 0 => ⟨0, .directory, [SLASH], none, [1, 2], 1, false⟩
    | 1 => ⟨0, .regular, [0x61], some 0, [], 1, false⟩
    | _ => ⟨0, .regular, [0x62], some 0, [], 1, false⟩
  next := 3
  destroyed := []
  filesystems := fun _ => ⟨.tmpfs, 0⟩
  rootFilesystem := 0
  mounts := [⟨none, 0⟩]

lemma twoFiles_wellFormed : twoFiles.WellFormed := Numbered.wellFormed (by decide)

end Vfs
end ShitOs
