import ShitOs.Construction.OpenFile
import ShitOs.Properties.Names

/-!
# What a failed `open` leaves behind

`open` creates or truncates a file in the middle, and checks and allocations come after that.  The
parts are taken one by one: each either succeeds or leaves the state as it found it, the counts of a
pipe and of an inode included (`ensures_awaitPeer`, `ref_unref`).  What is not taken back is a file
that was created, and contents that were cut off.

`open_fails_cleanly_iff` says when that shows: a failed call has changed nothing unless the file was
created and `O_DIRECTORY` asked for something else, or there was no memory for the description or no
free descriptor; or a file that was not empty was truncated and one of the latter two happened.
-/

namespace ShitOs

open Program

lemma Vfs.ref_unref {v : Vfs} {n : ℕ} (hn : n < v.next) (hcnt : 0 < (v.inodes n).referenceCount) :
    (v.ref n).unref n = v := by
  obtain ⟨k, hk⟩ : ∃ k, v.next = k + 1 := ⟨v.next - 1, by omega⟩
  have hnext : (v.ref n).next = k + 1 := hk
  have hinode : (v.ref n).inodes n =
      { v.inodes n with referenceCount := (v.inodes n).referenceCount + 1 } := by
    rw [Vfs.ref, Vfs.inodes_set, if_pos rfl]
  rw [Vfs.unref, hnext, Vfs.unrefWithin, hinode]
  dsimp only
  rw [if_neg (by omega), Nat.add_sub_cancel]
  simp [Vfs.ref, Vfs.set]

lemma PipeBuffer.closed_opened (p : PipeBuffer) (flags : BitVec 32) :
    (p.opened flags).closed flags = p := by
  unfold PipeBuffer.opened PipeBuffer.closed
  dsimp only
  split_ifs with hread hwrite <;> simp_all [O_RDONLY, O_WRONLY]

lemma PipeBuffer.withdraw_announce (p : PipeBuffer) (asReader : Bool) :
    (p.announce asReader).withdraw asReader = p := by
  cases asReader <;> rfl

namespace OpenSystem

variable {s s' t : OpenSystem} {flags : BitVec 32} {base : Option ℕ} {chances : OpenChances} {n : ℕ}
  {v : Vfs} {parent : ℕ} {name : Text}

/-! ## What is taken back -/

lemma updatePipe_undo {f g : PipeBuffer → PipeBuffer} (hundo : ∀ p, g (f p) = p) :
    (s.updatePipe n f).updatePipe n g = s := by
  have hid : (g ∘ f) = id := funext hundo
  simp [updatePipe, Option.map_map, hid]

lemma ensures_awaitPeer (interrupted : Bool) :
    Ensures (awaitPeer n flags interrupted) s (fun _ t => t = s) fun _ t => t = s := by
  unfold awaitPeer
  simp only [ensures_bind, ensures_get]
  split
  · exact ensures_pure.mpr rfl
  · simp only [ensures_ite, ensures_pure, ensures_bind, ensures_modify, ensures_throw]
    refine ⟨fun _ => trivial, fun _ => ⟨fun _ => ?_, fun _ => ?_⟩⟩ <;>
      exact updatePipe_undo fun p => p.withdraw_announce _

/-- The state with a description for inode `n`. -/
def described (s : OpenSystem) (n : ℕ) (flags : BitVec 32) : OpenSystem :=
  ({ s with vfs := s.vfs.ref n }).updatePipe n (·.opened flags)

lemma ensures_allocateDescriptor (hn : n < s.vfs.next)
    (hcnt : 0 < (s.vfs.inodes n).referenceCount) :
    Ensures (allocateDescriptor n flags) (s.described n flags) (fun _ _ => True)
      fun _ t => s.firstFree = none ∧ t = s := by
  unfold allocateDescriptor
  simp only [ensures_bind, ensures_get]
  have hfree : (s.described n flags).firstFree = s.firstFree := rfl
  rw [hfree]
  cases hfirst : s.firstFree with
  | some fd => simp only [ensures_bind, ensures_modify, ensures_pure]
  | none =>
    simp only [ensures_bind, ensures_modify, ensures_throw]
    refine ⟨trivial, ?_⟩
    have hpipe : ((s.described n flags).updatePipe n (·.closed flags)) =
      { s with vfs := s.vfs.ref n } :=
      updatePipe_undo fun p => p.closed_opened flags
    rw [releaseDescription, hpipe]
    rw [Vfs.ref_unref hn hcnt]

/-! ## What is not taken back -/

/-- There is no memory for the description, or no descriptor. -/
def FailsLate (s : OpenSystem) (chances : OpenChances) : Prop :=
  chances.descriptionMemory = false ∨ s.firstFree = none

/-- `open` cuts off what is in the file. -/
structure Truncates (s : OpenSystem) (flags : BitVec 32) (n : ℕ) : Prop where
  truncate : flags &&& O_TRUNC ≠ 0
  writes : flags &&& O_ACCMODE ≠ O_RDONLY
  noDirectory : flags &&& O_DIRECTORY = 0
  regular : (s.vfs.inodes n).type = .regular
  kind : s.vfs.kindOf n = .tmpfs

/-- The state with an empty file. -/
def emptied (s : OpenSystem) (n : ℕ) :
    OpenSystem := { s with contents := Function.update s.contents n [] }

/-- What is left of a call that fails when the inode is known, and what a file in tmpfs can fail
for. -/
structure Left (s : OpenSystem) (flags : BitVec 32) (chances : OpenChances) (n : ℕ)
    (t : OpenSystem) : Prop where
  state : (s.Truncates flags n ∧ s.FailsLate chances) ∧ t = s.emptied n ∨
    ¬ (s.Truncates flags n ∧ s.FailsLate chances) ∧ t = s
  late : (s.vfs.inodes n).type = .regular → s.vfs.kindOf n = .tmpfs →
    flags &&& O_DIRECTORY ≠ 0 ∨ s.FailsLate chances

/-- The description and its descriptor, for a file that may have been truncated. -/
lemma ensures_describe (hn : n < s.vfs.next) (hcnt : 0 < (s.vfs.inodes n).referenceCount)
    {u : OpenSystem} (hu : s.Truncates flags n ∧ u = s.emptied n ∨ ¬ s.Truncates flags n ∧ u = s) :
    Ensures (createDescription n flags chances.descriptionMemory) u
      (fun _ u' => Ensures (allocateDescriptor n flags) u' (fun _ _ => True) fun _ t =>
        s.Left flags chances n t) fun _ t => s.Left flags chances n t := by
  have hsame : u.vfs = s.vfs ∧ u.firstFree = s.firstFree := by
    rcases hu with ⟨-, rfl⟩ | ⟨-, rfl⟩ <;> exact ⟨rfl, rfl⟩
  have hleft : s.FailsLate chances → s.Left flags chances n u := by
    intro hfails
    refine ⟨?_, fun _ _ => .inr hfails⟩
    rcases hu with ⟨htruncates, hu⟩ | ⟨htruncates, hu⟩
    · exact .inl ⟨⟨htruncates, hfails⟩, hu⟩
    · exact .inr ⟨fun h => htruncates h.1, hu⟩
  unfold createDescription
  simp only [ensures_ite, ensures_modify, ensures_throw]
  refine ⟨fun _ => ?_, fun hmemory => hleft (.inl (by simpa using hmemory))⟩
  refine (ensures_allocateDescriptor (s := u) (hsame.1 ▸ hn) (hsame.1 ▸ hcnt)).mono
    (fun _ _ _ => trivial)
    fun _ t ht => ?_
  rw [ht.2]
  exact hleft (.inr (hsame.2 ▸ ht.1))

lemma ensures_rest (hn : n < s.vfs.next) (hcnt : 0 < (s.vfs.inodes n).referenceCount) :
    Ensures (do openInode n flags chances; allocateDescriptor n flags) s (fun _ _ => True)
      fun _ t => s.Left flags chances n t := by
  have hsame : ¬ s.Truncates flags n → ((s.vfs.inodes n).type = .regular → s.vfs.kindOf n = .tmpfs →
      flags &&& O_DIRECTORY ≠ 0) → s.Left flags chances n s := fun hnot hlate =>
    ⟨.inr ⟨fun h => hnot h.1, rfl⟩, fun hreg hkind => .inl (hlate hreg hkind)⟩
  have hnotDirectory : (s.vfs.inodes n).type = .regular → ¬ (s.vfs.inodes n).isDirectory :=
    fun hreg => by
    simp [Inode.isDirectory, hreg]
  unfold openInode
  simp only [ensures_bind, ensures_get]
  cases hcheck : s.vfs.openChecks n flags with
  | some e =>
    refine ensures_throw.mpr ?_
    unfold Vfs.openChecks at hcheck
    dsimp only at hcheck
    split_ifs at hcheck with hreadOnly hdir hwrite
    · have hkind : s.vfs.kindOf n ≠ .tmpfs := fun hkind => by
        rw [hkind] at hreadOnly
        exact absurd hreadOnly.2 (by decide)
      exact hsame (fun h => hkind h.kind) fun _ h => absurd h hkind
    · exact hsame (fun h => hdir.1 h.noDirectory) fun _ _ => hdir.1
    · exact hsame (fun h => hnotDirectory h.regular hwrite.1) fun h =>
        absurd hwrite.1 (hnotDirectory h)
  | none =>
    have hdir : ¬ (flags &&& O_DIRECTORY ≠ 0 ∧ ¬ (s.vfs.inodes n).isDirectory) := by
      unfold Vfs.openChecks at hcheck
      dsimp only at hcheck
      split_ifs at hcheck with _ hdir
      exact hdir
    simp only [ensures_ite, ensures_bind]
    refine ⟨fun htruncate => ?_, fun htruncate => ?_⟩
    · unfold truncate
      simp only [ensures_bind, ensures_get, ensures_ite, ensures_throw, ensures_modify]
      refine ⟨fun hkind => hsame (fun h => hkind h.kind) fun _ h => absurd h hkind,
        fun hkind => ⟨fun hfifo => ?_, fun _ => ?_⟩⟩
      · exact absurd (htruncate.2.2.symm.trans hfifo.1) (by decide)
      · refine ensures_describe hn hcnt
          (.inl ⟨⟨htruncate.1, htruncate.2.1, ?_, htruncate.2.2, ?_⟩, rfl⟩)
        · by_contra hasked
          exact hdir ⟨hasked, hnotDirectory htruncate.2.2⟩
        · simpa using hkind
    · have hnot : ¬ s.Truncates flags n := fun h => htruncate ⟨h.truncate, h.writes, h.regular⟩
      refine ⟨fun hfifo => ?_, fun _ => ensures_describe hn hcnt (.inr ⟨hnot, rfl⟩)⟩
      refine (ensures_awaitPeer chances.interrupted).mono (fun _ u hu => ?_) fun _ u hu => ?_
      · exact ensures_describe hn hcnt (.inr ⟨hnot, hu⟩)
      · exact hu ▸ hsame hnot fun h => absurd (h.symm.trans hfifo.1) (by decide)

/-! ## The whole call -/

/-- The call gets to create the file. -/
def Creates (s : OpenSystem) (path : Text) (flags : BitVec 32) (base : Option ℕ)
    (chances : OpenChances) : Prop :=
  s.vfs.resolve path base = .error .ENOENT ∧ flags &&& O_CREAT ≠ 0 ∧ chances.inodeMemory = true ∧
    ∃ parent name, s.vfs.resolveParent path base = .ok (parent, name) ∧
    s.vfs.kindOf parent = .tmpfs ∧
      (s.vfs.inodes parent).isDirectory ∧ name.length < FILENAME_MAX_LENGTH ∧
      s.vfs.findChild (s.vfs.inodes parent).children name = none

/-- The call truncates a file that is not empty. -/
def Empties (s : OpenSystem) (path : Text) (flags : BitVec 32) (base : Option ℕ) : Prop :=
  ¬ (flags &&& O_CREAT ≠ 0 ∧ flags &&& O_EXCL ≠ 0) ∧
    ∃ n, s.vfs.resolve path base = .ok n ∧ s.Truncates flags n ∧ s.contents n ≠ []

/-- What the first part of the call has done. -/
inductive Found (s : OpenSystem) (path : Text) (flags : BitVec 32) (base : Option ℕ)
    (chances : OpenChances) (n : ℕ) : OpenSystem → Prop
  | old (hresolve : s.vfs.resolve path base = .ok n)
      (hexclusive : ¬ (flags &&& O_CREAT ≠ 0 ∧ flags &&& O_EXCL ≠ 0)) :
        Found s path flags base chances n s
  | new (hcreates : s.Creates path flags base chances) (hn : n = s.vfs.next)
      {parent : ℕ} {name : Text}
      {t : OpenSystem} (hcreated : s.vfs.Created parent name .regular t.vfs)
      (hdescriptors : t.descriptors = s.descriptors) : Found s path flags base chances n t

lemma create_ok (hkind : v.kindOf parent = .tmpfs)
    (hdir : (v.inodes parent).isDirectory) (hshort : name.length < FILENAME_MAX_LENGTH)
    (habs : v.findChild (v.inodes parent).children name = none) :
    ∃ v', v.create parent name .regular true = (.ok v.next, v') := by
  rw [Vfs.create, if_neg (by simp [hkind]), if_neg (by simp [hdir]), if_neg (by omega),
    if_neg (by simp [habs]), if_neg (by simp)]
  exact ⟨_, rfl⟩

lemma create_memory {v' : Vfs} {memory : Bool}
    (hcreate : v.create parent name .regular memory = (.ok n, v')) : memory = true := by
  unfold Vfs.create at hcreate
  split_ifs at hcreate with _ _ _ _ hmemory <;> simp_all

lemma ensures_findOrCreate (hwf : s.vfs.WellFormed) (hbase : s.vfs.LiveBase base) (path : Path) :
    Ensures (findOrCreate path.bytes flags base chances) s
      (fun n t => Found s path.bytes flags base chances n t)
      fun _ t => t = s ∧ ¬ s.Creates path.bytes flags base chances ∧
        ∀ n, s.vfs.resolve path.bytes base = .ok n → flags &&& O_CREAT ≠ 0 ∧
          flags &&& O_EXCL ≠ 0 := by
  unfold findOrCreate
  simp only [ensures_bind, ensures_get]
  rcases hfind : s.vfs.findOrCreate path.bytes flags base chances.inodeMemory with ⟨r, v⟩
  cases r with
  | error e =>
    refine ensures_throw.mpr ⟨rfl, ?_, fun n hn => ?_⟩
    · rintro ⟨hres, hflag, hmemory, parent, name, hpar, hkind, hdir, hshort, habs⟩
      obtain ⟨v', hok⟩ := create_ok hkind hdir hshort habs
      have hasked : ¬ ((Errno.ENOENT : Errno) ≠ .ENOENT ∨ flags &&& O_CREAT = 0) := by
        simpa using hflag
      rw [Vfs.findOrCreate, hres] at hfind
      dsimp only at hfind
      rw [if_neg hasked, hpar] at hfind
      simp [hkind, FileSystemKind.isReadOnly, hmemory, hok] at hfind
    · by_contra hexcl
      rw [Vfs.findOrCreate, hn] at hfind
      dsimp only at hfind
      rw [if_neg hexcl] at hfind
      cases hfind
  | ok n =>
    simp only [ensures_ite, ensures_bind, ensures_modify, ensures_pure]
    obtain ⟨_, hr, -⟩ | ⟨m, hm, rfl, hres⟩ | ⟨parent, name, hres, hflag, hpar, hcreate⟩ :=
      Vfs.findOrCreate_cases hfind
    · cases hr
    · obtain rfl := Except.ok.inj hm
      have hold := Nat.ne_of_lt (hwf.resolve_live hbase hres).1
      refine ⟨fun hnew => absurd hnew hold, fun _ => .old hres fun hexcl => ?_⟩
      rw [Vfs.findOrCreate, hres] at hfind
      dsimp only at hfind
      rw [if_pos hexcl] at hfind
      cases hfind
    · have hlive := hwf.resolveParent_live hbase hpar
      obtain ⟨e', he', -⟩ | ⟨hn, hnew⟩ := Vfs.create_cases hlive.1 hcreate
      · cases he'
      · obtain rfl := Except.ok.inj hn
        refine ⟨fun _ => .new ⟨hres, hflag, create_memory hcreate, parent, name, hpar, hnew.kind,
          hnew.isDirectory, hnew.short, hnew.absent⟩ rfl hnew rfl, fun hnot => absurd rfl hnot⟩

/-- **A failed `open`.**  The call has changed nothing just if it did not create a file and fail
later, and did not truncate one and fail later. -/
theorem open_fails_cleanly_iff (hwf : s.vfs.WellFormed)
    (hcounts : ∀ n, s.vfs.Live n → 0 < (s.vfs.inodes n).referenceCount)
    (hbase : s.vfs.LiveBase base) (path : Path) {e : Errno}
    (hfail : sysOpen path.bytes flags base chances s = some (.error e, s')) : s' = s ↔
      ¬ (s.Creates path.bytes flags base chances ∧
        (flags &&& O_DIRECTORY ≠ 0 ∨ s.FailsLate chances)) ∧
      ¬ (s.Empties path.bytes flags base ∧ s.FailsLate chances) := by
  suffices Ensures (sysOpen path.bytes flags base chances) s (fun _ _ => True) fun _ t => t = s ↔
      ¬ (s.Creates path.bytes flags base chances ∧
      (flags &&& O_DIRECTORY ≠ 0 ∨ s.FailsLate chances)) ∧
      ¬ (s.Empties path.bytes flags base ∧ s.FailsLate chances)
        from (ensures_of_error hfail).mp this
  unfold sysOpen
  rw [ensures_bind]
  refine (ensures_findOrCreate hwf hbase path).mono (fun n t hfound => ?_) fun _ t ht => ?_
  · cases hfound with
    | old hresolve hexclusive =>
      have hlive := hwf.resolve_live hbase hresolve
      refine (ensures_rest hlive.1 (hcounts n hlive)).mono (fun _ _ h => h) fun _ t hleft => ?_
      have hcreates : ¬ s.Creates path.bytes flags base chances := fun h =>
        absurd (hresolve.symm.trans h.1) (by simp)
      have hempties : s.Empties path.bytes flags base ↔ s.Truncates flags n ∧
        s.contents n ≠ [] := by
        refine ⟨fun ⟨_, m, hm, h⟩ => ?_, fun h => ⟨hexclusive, n, hresolve, h⟩⟩
        obtain rfl : n = m := Except.ok.inj (hresolve.symm.trans hm)
        exact h
      rcases hleft.state with ⟨⟨htruncates, hlate⟩, rfl⟩ | ⟨hnot, rfl⟩
      · -- Cutting off nothing is no change.
        have hemptied : s.emptied n = s ↔ s.contents n = [] := by
          refine ⟨fun h => ?_, fun h => ?_⟩
          · rw [← h]
            exact Function.update_self ..
          · rw [emptied, ← h, Function.update_eq_self]
        simp [hcreates, hempties, htruncates, hlate, hemptied]
      · refine iff_of_true rfl ⟨fun h => hcreates h.1, fun h => hnot ⟨(hempties.mp h.1).1, h.2⟩⟩
    | new hcreates hn hcreated hdescriptors =>
      have hinode := hcreated.child
      rw [← hn] at hinode
      refine (ensures_rest (by rw [hcreated.next]; omega) (by rw [hinode]; exact Nat.one_pos)).mono
        (fun _ _ h => h) fun _ u hleft => ?_
      have hnext : u.vfs.next = s.vfs.next + 1 := by
        rcases hleft.state with ⟨-, rfl⟩ | ⟨-, rfl⟩ <;> exact hcreated.next
      refine iff_of_false (fun h => ?_) fun h => h.1 ⟨hcreates, ?_⟩
      · rw [h] at hnext
        omega
      · have hlate := hleft.late (by rw [hinode]; rfl) (by
          rw [Vfs.kindOf, hinode, hcreated.filesystems]
          exact hcreated.kind)
        rwa [FailsLate, firstFree, hdescriptors] at hlate
  · obtain ⟨rfl, hcreates, hexclusive⟩ := ht
    exact iff_of_true rfl ⟨fun h => hcreates h.1, fun ⟨⟨hnot, n, hn, _⟩, _⟩ =>
      hnot (hexclusive n hn)⟩

/-! ## A full table -/

/-- A process that has all its descriptors open, on a filesystem with the files `a` and `b`. -/
def fullTable : OpenSystem where
  vfs := Vfs.twoFiles
  contents := fun _ => [0x78]
  pipes := fun _ => none
  descriptors := fun _ => some 1

/-- There is memory, and no signal comes. -/
def quiet : OpenChances := ⟨true, true, false⟩

/-- The path `/a`. -/
def slashA : Path := ⟨[0x2f, 0x61], by decide, by decide⟩

/-- The path `/c`. -/
def slashC : Path := ⟨[0x2f, 0x63], by decide, by decide⟩

lemma fullTable_counts (n : ℕ) (hn : fullTable.vfs.Live n) :
    0 < (fullTable.vfs.inodes n).referenceCount := by
  have hpositive : ∀ n < 3, 0 < (fullTable.vfs.inodes n).referenceCount := by decide
  exact hpositive n hn.1

/-- Opening what is not there fails, and changes nothing. -/
theorem open_fails_cleanly_missing : ∃ s', sysOpen slashC.bytes O_RDONLY none quiet fullTable =
    some (.error .ENOENT, s') ∧ s' = fullTable := by
  have hruns : (sysOpen slashC.bytes O_RDONLY none quiet fullTable).map (·.1) =
    some (.error .ENOENT) := by
    decide +kernel
  obtain ⟨⟨r, s'⟩, hrun, hr⟩ := Option.map_eq_some_iff.mp hruns
  obtain rfl : r = .error .ENOENT := hr
  refine ⟨s', hrun,
    (open_fails_cleanly_iff Vfs.twoFiles_wellFormed fullTable_counts (by simp [Vfs.LiveBase])
    slashC hrun).mpr ⟨fun h => absurd h.1.2.1 (by decide), fun h => ?_⟩⟩
  obtain ⟨⟨-, n, hn, -⟩, -⟩ := h
  have hnone : fullTable.vfs.resolve slashC.bytes none = .error .ENOENT := by decide +kernel
  simp [hnone] at hn

/-- `open("/c", O_CREAT | O_DIRECTORY)` fails with `ENOTDIR` and creates `c`, and
`open("/a", O_WRONLY | O_TRUNC)` fails with `EMFILE` and empties `a`. -/
theorem failed_open_leaves_traces : fullTable.vfs.WellFormed ∧
    (fullTable.vfs.resolve slashC.bytes none = .error .ENOENT ∧
      (sysOpen slashC.bytes (O_CREAT ||| O_DIRECTORY) none quiet fullTable).map
        (fun r => (r.1, r.2.vfs.resolve slashC.bytes none)) = some (.error .ENOTDIR, .ok 3)) ∧
    ((sysOpen slashA.bytes (O_WRONLY ||| O_TRUNC) none quiet fullTable).map
      (fun r => (r.1, r.2.contents 1)) = some (.error .EMFILE, []) ∧ fullTable.contents 1 ≠ []) :=
  ⟨Vfs.twoFiles_wellFormed, ⟨by decide +kernel, by decide +kernel⟩, by decide +kernel, by decide⟩

end OpenSystem

end ShitOs
