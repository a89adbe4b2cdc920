import ShitOs.Properties.ProcessTable

/-!
# How long processes and threads live

Two things free memory here: the idle thread frees the threads that have exited, and `waitpid`
destroys the process of a child that has.  Neither waits for the other.  The idle thread does not
ask whether the process still points to the thread, so a process nobody has waited for yet is
left with a dangling `m_main_thread` (`main_thread_freed_or_process_outlived`, first run).
`mark_exited` raises the flag `waitpid` looks for long before the thread has left the CPU, so
`waitpid` can destroy a process whose thread is still on the run queue (second run).

`lifetimes_kept` says which order of things is needed (`Safe`): `reap_child` takes a child only
after its thread has left the CPU as a zombie, and the idle thread takes a zombie only after its
process has been reaped.  Beyond that no thread may be unblocked that has exited, and no process
used that has been destroyed.  What the two halves of the property need comes later, when the
process is destroyed and the thread is freed, and other threads may run in between.  So the
invariant `Lifetimes` is about what is in hand: whoever is `Ending` has no thread left that could
run, and a thread about to be freed belongs to a process off the list.  All actions but six keep it
because they make no thread schedulable (`Quiet`).
-/

namespace ShitOs

/-! ## Threads that can run -/

namespace Scheduler

/-- Thread `t` is on the CPU, on the run queue, or could get there. -/
def CanRun (s : Scheduler) (freed : ℕ → Bool) (t : ℕ) : Prop :=
  t = s.current ∨ t ∈ s.runQueue ∨ freed t = false ∧ s.threadState t ≠ .Zombie

variable {s : Scheduler} {freed : ℕ → Bool} {t u : ℕ}

lemma CanRun.of_setState_ne {state : ThreadState} (htu : t ≠ u)
    (h : (s.setState u state).CanRun freed t) : s.CanRun freed t := by
  simpa [CanRun, setState, htu] using h

lemma CanRun.of_runAppend_ne (htu : t ≠ u) (h : (s.runAppend u).CanRun freed t) :
    s.CanRun freed t := by
  unfold runAppend at h
  split_ifs at h
  · exact h
  · simpa [CanRun, htu] using h

lemma CanRun.of_requeueCurrent (h : s.requeueCurrent.CanRun freed t) : s.CanRun freed t := by
  by_cases ht : t = s.current
  · exact .inl ht
  unfold requeueCurrent at h
  split_ifs at h
  · exact h.of_setState_ne ht
  · exact (h.of_runAppend_ne ht).of_setState_ne ht
  · exact h

lemma CanRun.of_dispatch (h : s.dispatch.CanRun freed t) : s.CanRun freed t ∨ t = IDLE := by
  unfold dispatch at h
  split at h
  next hqueue =>
    by_cases ht : t = IDLE
    · exact .inr ht
    · refine .inl (.inr ?_)
      simpa [CanRun, setState, ht, hqueue] using h
  next next rest hqueue =>
    by_cases ht : t = next
    · exact .inl (.inr (.inl (by simp [hqueue, ht])))
    · refine .inl (.inr ?_)
      simpa [CanRun, setState, ht, hqueue] using h

/-- Only the idle thread may come to run by a switch that could not run before. -/
lemma CanRun.of_switchToNext (h : s.switchToNext.CanRun freed t) : s.CanRun freed t ∨ t = IDLE :=
  h.of_dispatch.imp_left CanRun.of_requeueCurrent

lemma canRun_waitRemove {l : WaitList} : (s.waitRemove l u).CanRun freed t ↔ s.CanRun freed t := by
  unfold waitRemove
  split_ifs <;> rfl

lemma CanRun.of_unblock (hu : freed u = false ∧ s.threadState u ≠ .Zombie)
    (h : (s.unblock u).CanRun freed t) : s.CanRun freed t := by
  by_cases htu : t = u
  · exact .inr (.inr (htu ▸ hu))
  unfold unblock at h
  split_ifs at h
  · exact h
  · exact canRun_waitRemove.mp ((h.of_runAppend_ne htu).of_setState_ne htu)
  · exact (h.of_runAppend_ne htu).of_setState_ne htu

lemma CanRun.of_enqueue (htu : t ≠ u) (h : (s.enqueue u).CanRun freed t) : s.CanRun freed t := by
  unfold enqueue at h
  split_ifs at h
  · exact (h.of_runAppend_ne htu).of_setState_ne htu
  · exact (h.of_runAppend_ne htu).of_setState_ne htu

lemma CanRun.of_blockCurrent {reason : ThreadState} (h : (s.blockCurrent reason).CanRun freed t) :
    s.CanRun freed t := by
  by_cases ht : t = s.current
  · exact .inl ht
  · exact h.of_setState_ne ht

lemma CanRun.of_exitCurrent (h : s.exitCurrent.CanRun freed t) : s.CanRun freed t := by
  refine CanRun.of_blockCurrent (show (s.blockCurrent .Zombie).CanRun freed t from ?_)
  unfold exitCurrent at h
  split_ifs at h <;> exact h

lemma CanRun.of_onTimerTick (hsleepers : s.waitList .sleepers = []) {now : ℕ} {expired : Bool}
    (h : (s.onTimerTick now expired).CanRun freed t) : s.CanRun freed t ∨ t = IDLE := by
  rcases s.onTimerTick_of_no_sleepers hsleepers now expired with htick | htick
  · exact .inl (htick ▸ h)
  · exact CanRun.of_switchToNext (htick ▸ h)

end Scheduler

namespace ProcessSystem

open Function Transition

variable {s s' : ProcessSystem} {a : KernelAction} {p t : ℕ}

/-- Thread `t` is on the CPU, on the run queue, or could get there. -/
def Schedulable (s : ProcessSystem) (t : ℕ) : Prop := s.sched.CanRun s.freed t

/-- The main thread of every process on the list has not been freed. -/
def MainThreadsLive (s : ProcessSystem) : Prop :=
  ∀ p ∈ s.processes, ∀ t, (s.process p).mainThread = some t → s.freed t = false

/-- No thread of a process that has been destroyed can be scheduled. -/
def ProcessesOutlive (s : ProcessSystem) : Prop :=
  ∀ p, s.destroyed p = true → ∀ t, s.processOf t = some p → ¬ s.Schedulable t

/-! ## The side condition -/

/-- The process an action has a pointer to, other than the current one and one under
construction. -/
def uses : KernelAction → Option ℕ
  | .notifyParent p | .raise p _ | .resume p | .resumeThread p => some p
  | .report p | .remove p | .destroy p | .checkGroup p _ | .setGroup p _ => some p
  | .bump (q + 1) | .take (q + 1) => some q
  | _ => none

/-- The child that the scan of `reap_child` takes. -/
def takes (s : ProcessSystem) : KernelAction → Option ℕ
  | .scan wanted options =>
    let found := s.scanChildren s.self wanted options s.processes ⟨false, none, none⟩
    if found.changed.isNone then found.finished else none
  | _ => none

/-- The thread an action unblocks. -/
def wakes (s : ProcessSystem) : KernelAction → Option ℕ
  | .unblock t => some t
  | .resumeThread p => (s.process p).mainThread
  | _ => none

/-- Thread `t` has been through `exit_current` and has left the CPU. -/
def Retired (s : ProcessSystem) (t : ℕ) : Prop :=
  s.sched.threadState t = .Zombie ∧ t ≠ s.sched.current ∧ t ∉ s.sched.runQueue

/-- What an action needs: the processes it uses have not been destroyed, a child that `reap_child`
takes has a thread that has left the CPU for good, and a thread it unblocks has not exited. -/
@[mk_iff]
structure SafeAction (s : ProcessSystem) (a : KernelAction) : Prop where
  uses : ∀ p ∈ uses a, s.destroyed p = false
  takes : ∀ p ∈ s.takes a, ∀ t < s.nextThread, s.processOf t = some p → s.Retired t
  wakes : ∀ t ∈ s.wakes a, s.freed t = false ∧ s.sched.threadState t ≠ .Zombie

/-- **The side condition on a run.**  Every action is performed in a state that has what it
needs, and the idle thread takes only threads whose process has been reaped. -/
def Safe (s : ProcessSystem) : ProcessStep → Prop
  | .perform _ => ∀ a ∈ (s.todo s.sched.current).head?, s.SafeAction a
  | .reap => ∀ t ∈ s.sched.zombies.head?, ∃ p ∈ s.processOf t, p ∉ s.processes
  | _ => True

lemma Retired.not_schedulable (h : s.Retired t) : ¬ s.Schedulable t := by
  rintro (hcur | hqueue | ⟨-, hstate⟩)
  · exact h.2.1 hcur
  · exact h.2.2 hqueue
  · exact hstate h.1

lemma takes_of_mem {wanted : ℤ} {options : BitVec 32} {b : KernelAction}
    (hb : b ∈ s.afterScan wanted options
      (s.scanChildren s.self wanted options s.processes ⟨false, none, none⟩))
    (hp : p ∈ reaps b) : p ∈ s.takes (.scan wanted options) := by
  unfold afterScan at hb
  split at hb
  · simp only [List.mem_singleton] at hb
    simp [hb, reaps] at hp
  case h_2 child hchanged hfinished =>
    simp only [List.mem_cons, List.not_mem_nil, or_false] at hb
    obtain rfl : child = p := by rcases hb with rfl | rfl <;> simpa [reaps] using hp
    simp [takes, hchanged, hfinished]
  · split_ifs at hb
    · simp at hb
    · simp at hb
    · simp only [List.mem_cons, List.not_mem_nil, or_false] at hb
      rcases hb with rfl | rfl | rfl | rfl | rfl <;> simp [reaps] at hp

/-! ## Quiet steps -/

/-- What all actions but six do at most: no thread comes to be schedulable but the idle one. -/
structure Quiet (s s' : ProcessSystem) : Prop where
  destroyed : s'.destroyed = s.destroyed
  freed : s'.freed = s.freed
  schedulable : ∀ t, s'.Schedulable t → s.Schedulable t ∨ t = IDLE

lemma Quiet.refl (s : ProcessSystem) : Quiet s s := ⟨rfl, rfl, fun _ => .inl⟩

lemma Quiet.trans {s₁ s₂ s₃ : ProcessSystem} (h : Quiet s₁ s₂) (h' : Quiet s₂ s₃) :
    Quiet s₁ s₃ where
  destroyed := h'.destroyed.trans h.destroyed
  freed := h'.freed.trans h.freed
  schedulable t ht := (h'.schedulable t ht).elim (h.schedulable t) .inr

lemma quiet_sched {sched : Scheduler}
    (hrun : ∀ t, sched.CanRun s.freed t → s.sched.CanRun s.freed t ∨ t = IDLE) :
    Quiet s { s with sched := sched } :=
  ⟨rfl, rfl, hrun⟩

lemma quiet_unblock (ht : s.freed t = false ∧ s.sched.threadState t ≠ .Zombie) :
    Quiet s { s with sched := s.sched.unblock t } :=
  quiet_sched fun _ hu => .inl (hu.of_unblock ht)

lemma quiet_broadcast {signal : ℕ} {caller : ℤ} (hlive : MainThreadsLive s)
    (h : s.processes.foldlM (broadcastTo signal caller) s = some s') : Quiet s s' := by
  refine (broadcast_induction (R := fun s₁ s₂ => Frame s₁ s₂ ∧
    ((∀ p ∈ s.processes, ∀ t, (s₁.process p).mainThread = some t → s₁.freed t = false) →
      Quiet s₁ s₂)) (fun s => ⟨.refl s, fun _ => .refl s⟩)
    (fun h₁ h₂ => ⟨h₁.1.trans h₂.1, fun hlive => ?_⟩)
    (fun _ _ _ => ⟨frame_setProcess rfl rfl, fun _ => ⟨rfl, rfl, fun _ => .inl⟩⟩)
    (fun s p hp t hmain hstate => ⟨frame_sched s.sched.sleepers_unblock, fun hlive =>
      quiet_unblock ⟨hlive p hp t hmain, ?_⟩⟩) h).2 hlive
  · refine (h₁.2 hlive).trans (h₂.2 fun p hp t hmain => ?_)
    rw [(h₁.2 hlive).freed]
    exact hlive p hp t ((h₁.1.mainThread p).symm.trans hmain)
  · rcases hstate with hstate | hstate <;> simp [hstate]

/-- The actions that are not `Quiet`, or change the table. -/
def isQuiet : KernelAction → Bool
  | .createChild | .appendChild _ | .startChild _ | .setExited | .destroy _ | .freeThread _ => false
  | _ => true

lemma isFrame_of_isQuiet (h : isQuiet a = true) : isFrame a = true := by
  cases a <;> first | rfl | simp [isQuiet] at h

lemma Effect.quiet (he : Effect s a s') (hlive : MainThreadsLive s) (hsafe : s.SafeAction a)
    (hquiet : isQuiet a = true) : Quiet s s' := by
  cases he with
  | createChild | appendChild | startChild | setExited | destroy | freeThread =>
    simp [isQuiet] at hquiet
  | same | reparent | mark | bump | remove | take | setGroup | startSession =>
    exact ⟨rfl, rfl, fun _ => .inl⟩
  | wake t ha =>
      exact quiet_unblock (hsafe.wakes t (by rcases ha with rfl | ⟨p, rfl, hmain⟩ <;> trivial))
  | waitEnter q =>
    refine quiet_sched fun t ht => .inl ?_
    unfold Scheduler.waitEnter Scheduler.waitAppend at ht
    split_ifs at ht <;> exact ht
  | block => exact quiet_sched fun _ ht => .inl ht.of_blockCurrent
  | yield => exact quiet_sched fun _ ht => ht.of_switchToNext
  | detach => exact quiet_sched fun _ ht => .inl (Scheduler.canRun_waitRemove.mp ht)
  | broadcast _ hfold => exact quiet_broadcast hlive hfold
  | exitCurrent => exact quiet_sched fun _ ht => .inl ht.of_exitCurrent

/-! ## The invariant -/

/-- Process `p` has been destroyed, or is about to be. -/
def Ending (s : ProcessSystem) (p : ℕ) : Prop :=
  s.destroyed p = true ∨ ∃ u, ∃ b ∈ s.todo u, p ∈ reaps b

/-- No thread of process `p` can be scheduled. -/
def Gone (s : ProcessSystem) (p : ℕ) : Prop := ∀ t, s.processOf t = some p → ¬ s.Schedulable t

/-- What runs that meet the side condition keep beyond `Tidy`. -/
structure Lifetimes (s : ProcessSystem) : Prop where
  live : s.MainThreadsLive
  mains : ∀ p t, (s.process p).mainThread = some t → s.processOf t = some p
  ending : ∀ p, s.Ending p → (s.process p).hasExited = true ∧ s.Gone p
  freeing : ∀ u, ∀ b ∈ s.todo u, ∀ t ∈ frees b, ∃ p, s.processOf t = some p ∧ p ∉ s.processes

lemma lifetimes_initial : Lifetimes initial where
  live p hp t ht := rfl
  mains p t ht := by
    simp only [initial] at ht ⊢
    split_ifs at ht with hp
    obtain rfl := Option.some.inj ht
    rw [if_pos rfl, hp]
  ending p hp := by simp [Ending, initial] at hp
  freeing u b hb := by simp [initial] at hb

section

variable (h : Lifetimes s)
include h

/-- A thread goes on with another list, in which there are only children to be reaped whose threads
are gone, and only threads to be freed whose process has been reaped. -/
lemma Lifetimes.setTodo {actions : List KernelAction}
    (hreaps : ∀ b ∈ actions, ∀ p ∈ reaps b, (s.process p).hasExited = true ∧ s.Gone p)
    (hfrees : ∀ b ∈ actions, ∀ t ∈ frees b, ∃ p, s.processOf t = some p ∧ p ∉ s.processes) :
    Lifetimes { s with todo := update s.todo t actions } where
  live := h.live
  mains := h.mains
  ending p := by
    rintro (hp | ⟨u, b, hb, hp⟩)
    · exact h.ending p (.inl hp)
    · by_cases hu : u = t
      · subst hu
        exact hreaps b (by simpa using hb) p hp
      · exact h.ending p (.inr ⟨u, b, by simpa [hu] using hb, hp⟩)
  freeing := (forall_update_iff s.todo fun _ l => ∀ b ∈ l, ∀ t ∈ frees b,
    ∃ p, s.processOf t = some p ∧ p ∉ s.processes).mpr ⟨hfrees, fun u _ => h.freeing u⟩

lemma Lifetimes.quiet (ht : Tidy s) (hf : Frame s s') (hq : Quiet s s') : Lifetimes s' where
  live p hp t hmain := by
    rw [hq.freed]
    exact h.live p (hf.processes p hp) t ((hf.mainThread p).symm.trans hmain)
  mains p t hmain := by
    rw [hf.processOf]
    exact h.mains p t ((hf.mainThread p).symm.trans hmain)
  ending p hp := by
    rw [Ending, hq.destroyed, hf.todo] at hp
    refine ⟨(hf.hasExited p).trans (h.ending p hp).1, fun t howner hsched => ?_⟩
    rw [hf.processOf] at howner
    rcases hq.schedulable t hsched with hsched | rfl
    · exact (h.ending p hp).2 t howner hsched
    · simp [ht.idle] at howner
  freeing u b hb t hfree := by
    obtain ⟨p, howner, hp⟩ := h.freeing u b (hf.todo ▸ hb) t hfree
    exact ⟨p, hf.processOf ▸ howner, fun hmem => hp (hf.processes p hmem)⟩

/-! ## The six actions that are not quiet -/

lemma Lifetimes.setExited :
    Lifetimes (s.setProcess s.self { s.process s.self with hasExited := true }) := by
  have hmain : ∀ p, ((s.setProcess s.self { s.process s.self with hasExited := true }).process
      p).mainThread = (s.process p).mainThread := by
    intro p
    by_cases hself : p = s.self <;> simp [setProcess, hself]
  refine ⟨fun p hp t ht => h.live p hp t ((hmain p).symm.trans ht),
    fun p t ht => h.mains p t ((hmain p).symm.trans ht), fun p hp => ⟨?_, (h.ending p hp).2⟩,
    h.freeing⟩
  by_cases hself : p = s.self
  · simp [setProcess, hself]
  · simpa [setProcess, hself] using (h.ending p hp).1

/-- The process is on its way to be destroyed already. -/
lemma Lifetimes.destroy (hmem : .destroy p ∈ s.todo t) :
    Lifetimes { s with destroyed := update s.destroyed p true } := by
  refine ⟨h.live, h.mains, fun q hq => h.ending q ?_, h.freeing⟩
  rcases hq with hq | hq
  · by_cases hqp : q = p
    · exact .inr ⟨t, _, hmem, by simp [hqp, reaps]⟩
    · exact .inl (by simpa [hqp] using hq)
  · exact .inr hq

lemma Lifetimes.freeThread {u : ℕ} (hmem : .freeThread t ∈ s.todo u) :
    Lifetimes { s with freed := update s.freed t true } := by
  obtain ⟨q, howner, hq⟩ := h.freeing u _ hmem t rfl
  refine ⟨fun p hp v hv => ?_, h.mains, fun p hp => ⟨(h.ending p hp).1, fun v hv hsched => ?_⟩,
    h.freeing⟩
  · have hne : v ≠ t := by
      rintro rfl
      exact hq (Option.some.inj ((h.mains p v hv).symm.trans howner) ▸ hp)
    simpa [hne] using h.live p hp v hv
  · refine (h.ending p hp).2 v hv (hsched.imp_right (Or.imp_right (And.imp_left fun hfreed => ?_)))
    have hne : v ≠ t := by
      rintro rfl
      simp at hfreed
    simpa [hne] using hfreed

lemma Lifetimes.createChild (ht : Tidy s) {child : Process} (hnone : child.mainThread = none)
    {pid : ℤ} :
    Lifetimes { s.setProcess s.nextProcess child with
      nextProcess := s.nextProcess + 1
      nextPid := pid
      destroyed := update s.destroyed s.nextProcess false } := by
  refine ⟨fun p hp u hu => ?_, fun p u hu => ?_, fun p hp => ?_, h.freeing⟩
  · have hne := Nat.ne_of_lt (ht.listed p hp)
    exact h.live p hp u (by simpa [setProcess, hne] using hu)
  · have hne : p ≠ s.nextProcess := by
      rintro rfl
      simp [setProcess, hnone] at hu
    exact h.mains p u (by simpa [setProcess, hne] using hu)
  · have hne : p ≠ s.nextProcess := by
      rintro rfl
      rcases hp with hp | ⟨u, b, hb, hp⟩
      · simp at hp
      · exact Nat.lt_irrefl _ (ht.reaping u b hb _ hp).1
    have hend := h.ending p (hp.imp_left fun hp => by simpa [hne] using hp)
    exact ⟨by simpa [setProcess, hne] using hend.1, hend.2⟩

lemma Lifetimes.appendChild (hnone : (s.process p).mainThread = none)
    (hunowned : ∀ u, s.processOf u ≠ some p) : Lifetimes
      { s with processes := if p ∈ s.processes then s.processes else s.processes ++ [p] } := by
  have hmem : ∀ q ∈ (if p ∈ s.processes then s.processes else s.processes ++ [p]),
      q ∈ s.processes ∨ q = p := by
    intro q hq
    split_ifs at hq
    · exact .inl hq
    · simpa using hq
  refine ⟨fun q hq t ht => ?_, h.mains, h.ending, fun u b hb t hfree => ?_⟩
  · rcases hmem q hq with hq | rfl
    · exact h.live q hq t ht
    · simp [hnone] at ht
  · obtain ⟨q, howner, hq⟩ := h.freeing u b hb t hfree
    refine ⟨q, howner, fun hnew => (hmem q hnew).elim hq ?_⟩
    rintro rfl
    exact hunowned t howner

lemma Lifetimes.addThread (ht : Tidy s) (halive : (s.process p).hasExited = false)
    (hnone : (s.process p).mainThread = none) : Lifetimes (s.addThread p) := by
  have hof : ∀ {t q}, s.processOf t = some q → (s.addThread p).processOf t = some q := by
    intro t q howner
    have hne := Nat.ne_of_lt (ht.owned t q howner).2
    simpa [ProcessSystem.addThread, hne] using howner
  refine ⟨fun q hq t hmain => ?_, fun q t hmain => ?_, fun q hq => ?_, fun u b hb t hfree => ?_⟩
  · rcases mainThread_addThread hmain with hmain | ⟨rfl, -⟩
    · have hne := Nat.ne_of_lt (ht.owned t q (h.mains q t hmain)).2
      simpa [ProcessSystem.addThread, hne] using h.live q hq t hmain
    · simp [ProcessSystem.addThread]
  · rcases mainThread_addThread hmain with hmain | ⟨rfl, rfl⟩
    · exact hof (h.mains q t hmain)
    · simp [ProcessSystem.addThread]
  · obtain ⟨hexit, hgone⟩ := h.ending q hq
    have hqp : q ≠ p := by
      rintro rfl
      simp [halive] at hexit
    refine ⟨by simpa [ProcessSystem.addThread, setProcess, hqp] using hexit,
      fun t howner hsched => ?_⟩
    have hne : t ≠ s.nextThread := by
      rintro rfl
      exact hqp (by simpa [ProcessSystem.addThread, eq_comm] using howner)
    refine hgone t (by simpa [ProcessSystem.addThread, hne] using howner) ?_
    have hrun : s.sched.CanRun (s.addThread p).freed t := Scheduler.CanRun.of_enqueue hne hsched
    simpa [Schedulable, Scheduler.CanRun, ProcessSystem.addThread, hne] using hrun
  · obtain ⟨q, howner, hq⟩ := h.freeing u b hb t hfree
    exact ⟨q, hof howner, hq⟩

/-! ## Steps and runs -/

lemma Lifetimes.effect (ht : Tidy s) {choice : Bool} {rest next : List KernelAction}
    (htodo : s.todo s.sched.current = a :: rest) (hsafe : s.SafeAction a)
    (hexec : s.exec choice a = some (s', next)) : Lifetimes s' := by
  have hmem : a ∈ s.todo s.sched.current := htodo ▸ List.mem_cons_self
  have he := exec_effect hexec
  by_cases hquiet : isQuiet a = true
  · have hf := (ht.perform_frame htodo (isFrame_of_isQuiet hquiet) hexec).1
    exact h.quiet ht hf (he.quiet h.live hsafe hquiet)
  cases he with
  | same => exact h
  | createChild => exact h.createChild ht rfl
  | appendChild p =>
    have hbuild := ht.building _ _ hmem p rfl
    exact h.appendChild hbuild.noThread hbuild.unowned
  | startChild p =>
    have hbuild := ht.building _ _ hmem p rfl
    exact h.addThread ht hbuild.alive hbuild.noThread
  | setExited => exact h.setExited
  | destroy p => exact h.destroy hmem
  | freeThread t => exact h.freeThread hmem
  | mark => exact h.quiet ht (frame_setProcess rfl rfl) ⟨rfl, rfl, fun _ => .inl⟩
  | wake t ha => rcases ha with rfl | ⟨p, rfl, -⟩ <;> simp [isQuiet] at hquiet
  | _ => simp [isQuiet] at hquiet

lemma Lifetimes.perform (ht : Tidy s) {choice : Bool}
    (hsafe : Safe s (.perform choice)) (hstep : s.perform choice = some s') : Lifetimes s' := by
  obtain ⟨a, rest, s₁, next, htodo, hexec, rfl⟩ := perform_cases hstep
  replace hsafe : s.SafeAction a := hsafe a (by simp [htodo])
  have h₁ := h.effect ht htodo hsafe hexec
  have hold : ∀ b ∈ rest, b ∈ s₁.todo s.sched.current := fun b hb => by
    rw [(exec_effect hexec).todo, htodo]
    exact List.mem_cons_of_mem a hb
  have hnew : ∀ b ∈ next, (∀ p ∈ reaps b, (s₁.process p).hasExited = true ∧ s₁.Gone p) ∧
      frees b = none := by
    intro b hb
    by_cases hcreate : a = .createChild
    · subst hcreate
      cases choice <;> cases hexec
      · simp at hb
      · simp only [List.mem_cons, List.not_mem_nil, or_false] at hb
        rcases hb with rfl | rfl <;> simp [reaps, frees]
    · obtain ⟨-, hreaps, hfrees⟩ := exec_next hexec hb hcreate
      refine ⟨fun p hp => ?_, hfrees⟩
      obtain ⟨⟨wanted, options, rfl⟩, -, hexit⟩ := hreaps p hp
      cases hexec
      refine ⟨hexit, fun t howner hsched => ?_⟩
      have htakes := hsafe.takes p (takes_of_mem hb hp) t (ht.owned t p howner).2 howner
      exact htakes.not_schedulable hsched
  refine h₁.setTodo (fun b hb => ?_) fun b hb t hfree => ?_
  · rcases List.mem_append.mp hb with hb | hb
    · exact (hnew b hb).1
    · exact fun p hp => h₁.ending p (.inr ⟨_, b, hold b hb, hp⟩)
  · rcases List.mem_append.mp hb with hb | hb
    · simp [(hnew b hb).2] at hfree
    · exact h₁.freeing _ b (hold b hb) t hfree

lemma Lifetimes.enter {actions : List KernelAction}
    (hplain : ∀ b ∈ actions, reaps b = none ∧ frees b = none)
    (hstep : s.enter actions = some s') : Lifetimes s' := by
  unfold ProcessSystem.enter at hstep
  split_ifs at hstep
  cases hstep
  exact h.setTodo (fun b hb p hp => by simp [(hplain b hb).1] at hp)
    fun b hb t hfree => by simp [(hplain b hb).2] at hfree

lemma Lifetimes.deliver (ht : Tidy s) {disp : Disposition} (hstep : s.deliver disp = some s') :
    Lifetimes s' := by
  have htaken := h.quiet ht (frame_takePendingSignal s) ⟨rfl, rfl, fun _ => .inl⟩
  refine htaken.enter ?_ hstep
  rcases deliverActions_cases s.self (s.process s.self).takePendingSignal.1 disp with
    hnone | hexit | hstop | hresume
  · simp [hnone]
  · simp [hexit, exitActions, reaps, frees]
  · simp [hstop, stopActions, reaps, frees]
  · simp [hresume, reaps, frees]

lemma lifetimes_step (ht : Tidy s) {a : ProcessStep} (hsafe : Safe s a)
    (hstep : s.step a = some s') : Lifetimes s' := by
  cases a with
  | tick now expired =>
    cases hstep
    refine h.quiet ht (frame_sched fun hs => ?_)
      (quiet_sched fun t hrun => hrun.of_onTimerTick ht.sleepers)
    rcases s.sched.onTimerTick_of_no_sleepers hs now expired with htick | htick <;>
      simp [htick, hs]
  | perform choice => exact h.perform ht hsafe hstep
  | fork | waitpid | setpgid | setsid => exact h.enter (by simp [reaps, frees]) hstep
  | exit => exact h.enter (by simp [exitActions, reaps, frees]) hstep
  | kill pid signal =>
    refine h.enter ?_ hstep
    unfold killActions
    split_ifs <;> simp [reaps, frees]
  | deliver disp => exact h.deliver ht hstep
  | reap =>
    obtain ⟨-, -, t, rest, hzombies, rfl⟩ := reap_cases hstep
    obtain ⟨p, howner, hp⟩ := hsafe t (by simp [hzombies])
    have h₁ : Lifetimes { s with sched := { s.sched with
        zombies := rest, allThreads := s.sched.allThreads.erase t } } :=
      ⟨h.live, h.mains, h.ending, h.freeing⟩
    refine h₁.setTodo (by simp [reaps]) fun b hb u hfree => ?_
    obtain rfl := List.mem_singleton.mp hb
    obtain rfl : t = u := Option.some.inj hfree
    exact ⟨p, howner, hp⟩

end

/-- Along every run whose actions are all safe, the main thread of every process on the list has
not been freed, and no thread of a process that has been destroyed can be scheduled. -/
theorem lifetimes_kept (as : List ProcessStep) (s : ProcessSystem)
    (hrun : run step initial as = some s) (hsafe : Along step Safe initial as) :
    s.MainThreadsLive ∧ s.ProcessesOutlive := by
  have hinv := run_invariant (I := fun s => Tidy s ∧ Lifetimes s)
    (fun _ _ _ h hC hstep => ⟨tidy_step h.1 hstep, lifetimes_step h.2 h.1 hC hstep⟩) as initial s
    ⟨tidy_initial, lifetimes_initial⟩ hsafe hrun
  exact ⟨hinv.2.live, fun p hp => (hinv.2.ending p (.inl hp)).2⟩

/-- `n` actions, with every allocation succeeding. -/
def performs (n : ℕ) : List ProcessStep := List.replicate n (.perform true)

/-- Init forks, the child exits, init reaps it and exits in its turn, and the idle thread frees the
child's thread: a run that meets the side condition. -/
def reapedInTime : List ProcessStep :=
  [.tick 0 true, .fork] ++ performs 3 ++ [.tick 0 true, .exit] ++ performs 10 ++
    [.waitpid (-1) 0] ++ performs 3 ++ [.exit] ++ performs 10 ++ [.reap, .perform true]

/-- Init forks and is stopped; the child exits, and the idle thread frees its thread. -/
def freedTooEarly : List ProcessStep :=
  [.tick 0 true, .fork] ++ performs 3 ++ [.kill 1 SIGSTOP] ++ performs 2 ++ [.deliver .default] ++
    performs 10 ++ [.exit] ++ performs 10 ++ [.reap, .perform true]

/-- Init forks; the child is preempted right after it has set the flag, and init waits for it. -/
def destroyedTooEarly : List ProcessStep :=
  [.tick 0 true, .fork] ++ performs 3 ++ [.tick 0 true, .exit, .perform true, .tick 0 true,
    .waitpid (-1) 0] ++ performs 3

instance (sched : Scheduler) (freed : ℕ → Bool) (t : ℕ) : Decidable (sched.CanRun freed t) :=
  inferInstanceAs (Decidable (_ ∨ _ ∨ _ ∧ _))

instance (t : ℕ) : Decidable (s.Schedulable t) :=
  inferInstanceAs (Decidable (s.sched.CanRun s.freed t))

instance (t : ℕ) : Decidable (s.Retired t) := inferInstanceAs (Decidable (_ ∧ _))

instance (a : KernelAction) : Decidable (s.SafeAction a) :=
  decidable_of_iff _ (s.safeAction_iff a).symm

instance (a : ProcessStep) : Decidable (s.Safe a) := by
  cases a <;> unfold Safe <;> infer_instance

/-- The child of `reapedInTime` is gone, and so is its thread. -/
theorem lifetimes_kept_reaped :
    ∃ s, run step initial reapedInTime = some s ∧ s.destroyed 2 = true ∧ s.freed 2 = true ∧
      s.MainThreadsLive ∧ s.ProcessesOutlive :=
  ⟨_, rfl, rfl, rfl, lifetimes_kept reapedInTime _ rfl (by decide)⟩

/-- Neither half of the property holds in every run: the idle thread can free the main thread of
a process on the list, and `waitpid` can destroy a process whose thread is on the run queue. -/
theorem main_thread_freed_or_process_outlived :
    (∃ s, run step initial freedTooEarly = some s ∧ ¬ s.MainThreadsLive) ∧
      ∃ s, run step initial destroyedTooEarly = some s ∧ ¬ s.ProcessesOutlive := by
  refine ⟨⟨_, rfl, fun hlive => ?_⟩, ⟨_, rfl, fun houtlive => ?_⟩⟩
  · exact absurd (hlive 2 (by decide) 2 rfl) (by decide)
  · exact houtlive 2 rfl 2 rfl (by decide)

end ProcessSystem
end ShitOs
