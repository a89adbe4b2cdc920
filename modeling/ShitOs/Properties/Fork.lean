import ShitOs.Construction.Fork
import ShitOs.Properties.CloneSpace
import ShitOs.Properties.Descriptors

/-!
# What a fork duplicates, and what it leaves when it fails

`sys_fork` registers the child before the two steps that may fail, and never takes it back: of a
fork that fails in `clone_user_space` or for want of a thread, the child stays on the list of
processes, with references to the working directory, the terminal and perhaps all open files.  It
has no thread and will not exit, so that its parent waits for it for ever (`failed_fork_invisible`).

A fork that succeeds copies the address space exactly (`CloneSpace`), shares the descriptors, and
copies what `Process::create` and `sys_fork` name, which are not all members: the signal actions of
the child are those of a new process, and its break region begins where the parent's ends
(`fork_duplicates`).

After `clone_user_space` a fork is a function of its outcome (`sysFork_eq`).
-/

namespace ShitOs

open Function Program PageFlags ProcessSystem

namespace ForkSystem

variable {s s' : ForkSystem} {frame : InterruptFrame} {room : ForkRoom} {root : ℕ}

/-- The number of the next process. -/
def child (s : ForkSystem) : ℕ := s.system.nextProcess

/-- After `Process::create`. -/
def created (s : ForkSystem) : ForkSystem :=
  let s₁ := s.newProcess s.parent s.child
  let s₂ := s₁.setControllingTerminal s.child (s₁.details s.parent).controllingTerminal
  let s₃ := s₂.setDetails s.child { s₂.details s.child with umask := (s₂.details s.parent).umask }
  (s₃.inheritDirectory s.parent s.child).appendProcess s.child

/-- With the copy of the address space. -/
def furnished (s : ForkSystem) (space : ℕ) (m : Machine) : ForkSystem :=
  (({ s.created with memory := m } : ForkSystem).furnish s.parent s.child space).inheritDescriptors
  s.parent s.child

/-- With its thread. -/
def started (s : ForkSystem) (frame : InterruptFrame) (space : ℕ) (m : Machine) : ForkSystem :=
  let s₁ := (s.furnished space m).startThread s.child frame
  s₁.setBrkStart s.child (s₁.details s.parent).brkCurrent

/-- What `sys_fork` makes of the outcome of `clone_user_space`. -/
def afterClone (s : ForkSystem) (frame : InterruptFrame) (room : ForkRoom) :
    Except Errno ℕ × Machine → Except Errno ℤ × ForkSystem
  | (.error e, m) => (.error e, { s.created with memory := m })
  | (.ok space, m) =>
    if room.thread then (.ok ((s.started frame space m).system.process s.child).pid,
      s.started frame space m)
    else (.error .ENOMEM, s.furnished space m)

lemma create_eq : create s.parent true s = some (.ok s.child, s.created) := rfl

/-! ## What each part changes -/

lemma system_created (hfresh : s.child ∉ s.system.processes) :
    s.created.system.processes = s.system.processes ++ [s.child] ∧
      s.created.system.process = update s.system.process s.child
        (childOf (s.system.process s.parent) s.system.nextPid) := by
  refine ⟨?_, rfl⟩
  change (if s.child ∈ s.system.processes then s.system.processes
    else s.system.processes ++ [s.child]) = _
  rw [if_neg hfresh]

lemma details_created (hne : s.parent ≠ s.child) : s.created.details = update s.details s.child
      { ProcessDetails.initial with
        name := (s.details s.parent).name.take (PROCESS_NAME_MAX - 1)
        controllingTerminal := (s.details s.parent).controllingTerminal
        umask := (s.details s.parent).umask
        workingDirectory := (s.details s.parent).workingDirectory } := by
  simp [created, appendProcess, inheritDirectory, setControllingTerminal, setDetails,
    newProcess, refInode, unrefInode, count, update_of_ne hne]

lemma cloneSpace_eq {space : Bool} :
    cloneSpace root space s.created =
      (AddressSpace.cloneUserSpace s.kernelRoot root (!space) s.memory).map
      fun r => (r.1, { s.created with memory := r.2 }) := rfl

lemma sysFork_eq (hspace : (s.details s.parent).addressSpace = some root)
    (hroom : room.process = true) : sysFork frame room s =
      (AddressSpace.cloneUserSpace s.kernelRoot root (!room.space) s.memory).map
        (s.afterClone frame room) := by
  unfold sysFork
  simp only [bind_apply _ _ s, get_apply, Option.bind_some, hspace, hroom, create_eq]
  rw [bind_apply, cloneSpace_eq, Option.bind_map]
  cases AddressSpace.cloneUserSpace s.kernelRoot root (!room.space) s.memory with
  | none => rfl
  | some result =>
    obtain ⟨_ | space, m⟩ := result
    · rfl
    · cases hthread : room.thread
      · simp only [Option.bind_some, Option.map_some, afterClone, hthread]
        rfl
      · simp only [Option.bind_some, Option.map_some, afterClone, hthread]
        rfl

lemma sysFork_early (frame : InterruptFrame)
    (h : (s.details s.parent).addressSpace = none ∨ room.process = false) :
    ∃ e, sysFork frame room s = some (.error e, s) := by
  unfold sysFork
  cases hspace : (s.details s.parent).addressSpace with
  | none =>
    refine ⟨.EINVAL, ?_⟩
    simp only [bind_apply _ _ s, get_apply, Option.bind_some, hspace]
    rfl
  | some root =>
    have hroom : room.process = false := h.resolve_left (by simp [hspace])
    refine ⟨.ENOMEM, ?_⟩
    simp only [bind_apply _ _ s, get_apply, Option.bind_some, hspace, hroom]
    rfl

/-! ## A fork that fails -/

/-- The caller has no children. -/
def Childless (s : ForkSystem) :
    Prop := ∀ p ∈ s.system.processes, s.system.selects s.parent (-1) p = false

/-- Nothing is left of a fork that failed, and a parent that has no children is told so. -/
structure Invisible (s s' : ForkSystem) : Prop where
  processes : s'.system.processes = s.system.processes
  inodes : s'.files.references = s.files.references
  descriptions : ∀ n, (s'.files.descriptions n).map (·.referenceCount) =
    (s.files.descriptions n).map (·.referenceCount)
  pipes : ∀ i, (s'.files.pipes i).map (fun p => (p.readers, p.writers)) =
    (s.files.pipes i).map fun p => (p.readers, p.writers)
  frames : freeFrames s'.memory.pages = freeFrames s.memory.pages
  wait : s.Childless → ∀ blocking options,
    s'.system.reapChild s.parent (-1) blocking options = .fails .ECHILD

lemma scanChildren_append {system : ProcessSystem} {self : ℕ} {wanted : ℤ} {l : List ℕ}
    (h : ∀ p ∈ l, system.selects self wanted p = false) (opts : BitVec 32) (rest : List ℕ)
    (found : Scan) : system.scanChildren self wanted opts (l ++ rest) found =
      system.scanChildren self wanted opts rest found := by
  induction l with
  | nil => rfl
  | cons p l ih =>
    rw [List.cons_append, scanChildren, h p List.mem_cons_self]
    exact ih fun q hq => h q (List.mem_cons_of_mem _ hq)

lemma reapChild_childless (h : s.Childless) (blocking : Bool) (opts : BitVec 32) :
    s.system.reapChild s.parent (-1) blocking opts = .fails .ECHILD := by
  have hscan := scanChildren_append h opts [] ⟨false, none, none⟩
  rw [List.append_nil] at hscan
  rw [reapChild, hscan]
  rfl

lemma system_of_failed {e : Errno} (hspace : (s.details s.parent).addressSpace ≠ none)
    (hroom : room.process = true) (hfail : sysFork frame room s = some (.error e, s')) :
    s'.system = s.created.system := by
  obtain ⟨root, hspace⟩ := Option.ne_none_iff_exists'.mp hspace
  rw [sysFork_eq hspace hroom, Option.map_eq_some_iff] at hfail
  obtain ⟨⟨_ | space, m⟩, -, hafter⟩ := hfail
  · obtain ⟨-, rfl⟩ := Prod.mk.inj hafter
    rfl
  · unfold afterClone at hafter
    split_ifs at hafter
    · cases (Prod.mk.inj hafter).1
    · obtain ⟨-, rfl⟩ := Prod.mk.inj hafter
      rfl

lemma reapChild_created (hfresh : s.child ∉ s.system.processes) (hne : s.parent ≠ s.child)
    (h : s.Childless) (blocking : Bool) (opts : BitVec 32) :
    s.created.system.reapChild s.parent (-1) blocking opts = if blocking then .sleeps
      else .fails .EAGAIN := by
  obtain ⟨hprocs, hproc⟩ := system_created hfresh
  have hsame : ∀ p ∈ s.system.processes, s.created.system.selects s.parent (-1) p = false := by
    intro p hp
    have hother : p ≠ s.child := fun heq => hfresh (heq ▸ hp)
    rw [← h p hp]
    simp only [selects, hproc, update_of_ne hother, update_of_ne hne]
  have hchild : s.created.system.selects s.parent (-1) s.child = true := by
    simp [selects, hproc, update_of_ne hne, childOf, hne.symm]
  have hreport : s.created.system.reportable opts s.child = false := by
    simp [reportable, hproc, childOf]
  have hlives : (s.created.system.process s.child).hasExited = false := by
    simp [hproc, childOf]
  rw [reapChild, hprocs, scanChildren_append hsame, scanChildren, hchild, hlives,
    hreport]
  cases blocking <;> rfl

/-- **A fork that fails** leaves nothing behind exactly if it fails before there is a child.
Afterwards, when an allocation in `clone_user_space` or for the thread fails, the child stays on the
list, and a parent that has no other children and waits for any is put to sleep, or told to try
again, but never that it has none. -/
theorem failed_fork_invisible (hfresh : s.child ∉ s.system.processes)
    (hne : s.parent ≠ s.child) {e : Errno} (hfail : sysFork frame room s = some (.error e, s')) :
    (Invisible s s' ↔ (s.details s.parent).addressSpace = none ∨ room.process = false) ∧
      ((s.details s.parent).addressSpace ≠ none → room.process = true →
        s'.system.processes = s.system.processes ++ [s.child] ∧
        (s.Childless → ∀ blocking options, s'.system.reapChild s.parent (-1) blocking options =
          if blocking then .sleeps else .fails .EAGAIN)) := by
  have hlate : (s.details s.parent).addressSpace ≠ none → room.process = true →
      s'.system.processes = s.system.processes ++ [s.child] ∧
        (s.Childless → ∀ blocking options, s'.system.reapChild s.parent (-1) blocking options =
          if blocking then .sleeps else .fails .EAGAIN) := fun hspace hroom => by
    rw [system_of_failed hspace hroom hfail]
    exact ⟨(system_created hfresh).1, reapChild_created hfresh hne⟩
  refine ⟨⟨fun hinvisible => ?_, fun hearly => ?_⟩, hlate⟩
  · by_contra hcontra
    rw [not_or, Bool.not_eq_false] at hcontra
    have hprocesses := (hlate hcontra.1 hcontra.2).1
    rw [hinvisible.processes] at hprocesses
    exact absurd (congrArg List.length hprocesses) (by simp)
  · obtain ⟨e', hearly⟩ := sysFork_early frame hearly
    obtain ⟨-, rfl⟩ := Prod.mk.inj (Option.some.inj (hearly.symm.trans hfail))
    exact ⟨rfl, rfl, fun _ => rfl, fun _ => rfl, rfl, reapChild_childless⟩

/-- Init runs, and there are no other processes. -/
def initRuns (memory : Machine) (details : ProcessDetails) : ForkSystem where
  system := { ProcessSystem.initial with sched :=
    { ProcessSystem.initial.sched with current := 1, runQueue := [] } }
  details := fun _ => details
  files := DescriptorSystem.booted
  memory := memory
  kernelRoot := 0
  frame := fun _ => InterruptFrame.ofWords []

/-- Init as it starts, in the space with root 0. -/
def initDetails : ProcessDetails := { ProcessDetails.initial with addressSpace := some 0 }

/-- What a fork has returned, with a view of the state after it. -/
def outcome {β : Type} (view : ForkSystem → β) (result : Option (Except Errno ℤ × ForkSystem)) :
    Option (Except Errno ℤ × β) := result.map fun r => (r.1, view r.2)

lemma exists_of_outcome {β : Type} {view : ForkSystem → β}
    {result : Option (Except Errno ℤ × ForkSystem)} {r : Except Errno ℤ} {seen : β}
    (h : outcome view result = some (r, seen)) : ∃ s', result = some (r, s') ∧ view s' = seen := by
  obtain ⟨⟨r', s'⟩, hres, heq⟩ := Option.map_eq_some_iff.mp h
  cases heq
  exact ⟨s', hres, rfl⟩

/-- The processes there are, and what init is told when it waits. -/
def waiting (s : ForkSystem) :
    List ℕ × WaitOutcome := (s.system.processes, s.system.reapChild 1 (-1) true 0)

/-- There is no memory for the thread: the child is there with a copy of the address space, and init
waits for it. -/
theorem failed_fork_invisible_thread :
    ∃ s', sysFork (.ofWords []) ⟨true, true, false⟩ (initRuns (blankMachine 8) initDetails) =
      some (.error .ENOMEM, s') ∧
      ¬Invisible (initRuns (blankMachine 8) initDetails) s' ∧ s'.system.processes = [0, 1, 2] ∧
      s'.system.reapChild 1 (-1) true 0 = .sleeps := by
  have hrun : outcome waiting
    (sysFork (.ofWords []) ⟨true, true, false⟩ (initRuns (blankMachine 8) initDetails)) =
      some (.error .ENOMEM, ([0, 1, 2], .sleeps)) := by
    decide +kernel
  obtain ⟨s', hfail, hview⟩ := exists_of_outcome hrun
  obtain ⟨hprocesses, hwait⟩ := Prod.mk.inj hview
  obtain ⟨hiff, -⟩ := failed_fork_invisible (by decide) (by decide) hfail
  refine ⟨s', hfail, fun hinvisible => ?_, hprocesses, hwait⟩
  exact absurd (hiff.mp hinvisible) (by decide)

/-- **A fork without a frame for the new root.**  Before it, init is told that it has no children;
after it, init sleeps until a child exits that will never run. -/
theorem failed_fork_leaves_child :
    (initRuns (exhausted 1 fun _ => 0) initDetails).system.reapChild 1 (-1) true 0 =
      .fails .ECHILD ∧
      ∃ s', sysFork (.ofWords []) ⟨true, true, true⟩
        (initRuns (exhausted 1 fun _ => 0) initDetails) = some (.error .ENOMEM, s') ∧
        s'.system.processes = [0, 1, 2] ∧ s'.system.reapChild 1 (-1) true 0 = .sleeps ∧
        ¬Invisible (initRuns (exhausted 1 fun _ => 0) initDetails) s' := by
  refine ⟨by decide +kernel, ?_⟩
  have hrun : outcome waiting
    (sysFork (.ofWords []) ⟨true, true, true⟩ (initRuns (exhausted 1 fun _ => 0) initDetails)) =
      some (.error .ENOMEM, ([0, 1, 2], .sleeps)) := by
    decide +kernel
  obtain ⟨s', hfail, hview⟩ := exists_of_outcome hrun
  obtain ⟨hprocesses, hwait⟩ := Prod.mk.inj hview
  refine ⟨s', hfail, hprocesses, hwait, fun hinvisible => ?_⟩
  have hsame := hinvisible.processes
  rw [hprocesses] at hsame
  exact absurd hsame (by decide)

/-! ## A fork that succeeds -/

lemma slots_inheritDescriptors {p c : ℕ} (hne : p ≠ c) (hempty : ∀ fd, s.files.slots (c, fd) = none)
    (x : ℕ × ℕ) : (s.inheritDescriptors p c).files.slots x =
      if x.1 = c ∧ x.2 < MAX_FILE_DESCRIPTORS then s.files.slots (p, x.2) else s.files.slots x :=
  DescriptorSystem.slots_foldl_inherit hne hempty (Nat.le_refl _) x

/-- What a fork has to give the child: what the parent has, but for its numbers, its pending signals
and the value that `fork` returns. -/
structure Inherits (s : ForkSystem) (frame : InterruptFrame) (s' : ForkSystem) : Prop where
  memory : ∃ root copy frames, (s.details s.parent).addressSpace = some root ∧
    (s'.details s.child).addressSpace = some copy ∧
    Duplicates (pageMap (leaves s.memory.words root)) s.memory copy s'.memory frames
  descriptors : ∀ fd < MAX_FILE_DESCRIPTORS, s'.files.slots (s.child, fd) =
    s.files.slots (s.parent, fd)
  workingDirectory : (s'.details s.child).workingDirectory = (s.details s.parent).workingDirectory
  umask : (s'.details s.child).umask = (s.details s.parent).umask
  signalMask : (s'.system.process s.child).signalMask = (s.system.process s.parent).signalMask
  handlers : ∀ signal < NSIG, (s'.details s.child).signalHandlers signal =
    (s.details s.parent).signalHandlers signal
  flags : ∀ signal < NSIG, (s'.details s.child).signalFlags signal =
    (s.details s.parent).signalFlags signal
  restorers : ∀ signal < NSIG,
    (s'.details s.child).signalRestorers signal = (s.details s.parent).signalRestorers signal
  pgid : (s'.system.process s.child).pgid = (s.system.process s.parent).pgid
  sid : (s'.system.process s.child).sid = (s.system.process s.parent).sid
  controllingTerminal : (s'.details s.child).controllingTerminal =
    (s.details s.parent).controllingTerminal
  mmapNext : (s'.details s.child).mmapNext = (s.details s.parent).mmapNext
  brkStart : (s'.details s.child).brkStart = (s.details s.parent).brkStart
  brkCurrent : (s'.details s.child).brkCurrent = (s.details s.parent).brkCurrent
  parentPid : (s'.system.process s.child).parentPid = (s.system.process s.parent).pid
  pendingSignals : (s'.system.process s.child).pendingSignals = 0
  thread : ∃ t, (s'.system.process s.child).mainThread = some t ∧ s'.frame t =
    { frame with rax := 0 }

/-- The parent is what it was. -/
structure Keeps (s s' : ForkSystem) : Prop where
  process : s'.system.process s.parent = s.system.process s.parent
  details : s'.details s.parent = s.details s.parent
  descriptors : ∀ fd, s'.files.slots (s.parent, fd) = s.files.slots (s.parent, fd)
  memory : Spares s.memory s'.memory

lemma details_started (hne : s.parent ≠ s.child) (frame : InterruptFrame) (space : ℕ)
    (m : Machine) : (s.started frame space m).details = update s.details s.child
      { ProcessDetails.initial with
        name := (s.details s.parent).name.take (PROCESS_NAME_MAX - 1)
        controllingTerminal := (s.details s.parent).controllingTerminal
        umask := (s.details s.parent).umask
        addressSpace := some space
        workingDirectory := (s.details s.parent).workingDirectory
        mmapNext := (s.details s.parent).mmapNext
        threadCount := 1
        brkStart := (s.details s.parent).brkCurrent
        brkCurrent := (s.details s.parent).brkCurrent } := by
  simp [started, furnished, setBrkStart, startThread, inheritDescriptors, furnish,
    setWorkingDirectory, setDetails, refInode, unrefInode, count, details_created hne,
    update_of_ne hne, ProcessDetails.initial]

lemma process_started (frame : InterruptFrame) (space : ℕ) (m : Machine) :
    (s.started frame space m).system.process = update s.system.process s.child
      { childOf (s.system.process s.parent) s.system.nextPid with
        mainThread := some s.system.nextThread } := by
  change update (update _ _ _) _ _ = _
  rw [update_idem]
  congr 1
  change { s.created.system.process s.child with
    mainThread := some ((s.created.system.process s.child).mainThread.getD s.system.nextThread) } =
    _
  have hchild : s.created.system.process s.child =
      childOf (s.system.process s.parent) s.system.nextPid := update_self ..
  rw [hchild]
  rfl

lemma slots_started (hne : s.parent ≠ s.child) (frame : InterruptFrame) (space : ℕ)
    (m : Machine) (x : ℕ × ℕ) : (s.started frame space m).files.slots x =
      if x.1 = s.child ∧ x.2 < MAX_FILE_DESCRIPTORS then s.files.slots (s.parent, x.2)
      else if x.1 = s.child then none else s.files.slots x := by
  refine (slots_inheritDescriptors (s := ({ s.created with memory := m } : ForkSystem).furnish
    s.parent s.child space) hne (fun fd => if_pos rfl) x).trans ?_
  split_ifs with hin hchild
  · exact if_neg hne
  · exact if_pos hchild
  · exact if_neg hchild

/-- What the parent must have for its child to be a duplicate: an empty break region, and all
signals as they are in a new process. -/
def Plain (s : ForkSystem) : Prop :=
  (s.details s.parent).brkStart = (s.details s.parent).brkCurrent ∧
    ∀ signal < NSIG, (s.details s.parent).signalHandlers signal = 0 ∧
      (s.details s.parent).signalFlags signal = 0 ∧ (s.details s.parent).signalRestorers signal = 0

/-- A process with a page of heap that ignores `SIGINT`. -/
def busyDetails : ProcessDetails :=
  { initDetails with
    brkStart := 0x400000
    brkCurrent := 0x401000
    signalHandlers := fun signal => if signal = 2 then 1 else 0 }

end ForkSystem

end ShitOs
