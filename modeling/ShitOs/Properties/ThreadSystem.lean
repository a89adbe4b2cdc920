import ShitOs.Framework.Transition
import ShitOs.Construction.ThreadSystem
import ShitOs.Properties.Scheduler
import Mathlib.Data.List.Nodup

/-!
# No thread is on a wrong list

The run queue and the list of zombies share the `run_queue_node` of a thread, the list of sleepers
and the wait queues its `wait_queue_node`, and an append silently ignores a node that is on a list
already.  So the lists have to agree with the states of the threads, or else a thread gets lost.

It does as long as no waker unblocks a thread that has exited since the waker got hold of it:
`lists_right`.  The induction is over the sections, and its invariant says of each thread that its
nodes are on the lists that go with its state and with its position in the code (`Placed`), and that
the current thread runs unless it is about to yield.  A section moves one thread and leaves the
others where they are (`Lists.move`).

`unblock` itself does not look for zombies.  A thread can be woken by a signal after a waker has
taken it off its queue, run, and exit before the waker gets to unblock it.  Then it becomes ready
again, but its node stays on the list of zombies, where the idle thread frees it:
`zombie_unblocked`.
-/

namespace ShitOs

open Option (ite_none_right_eq_some)
open Function Transition Scheduler ThreadPc

namespace ThreadPc

/-- The thread is executing code in which the scheduler has not stopped it. -/
def isBusy : ThreadPc → Bool
  | .run | .block _ | .detach _ => true
  | .yieldWait _ | .yieldBack | .exiting => false

/-- The only list the `wait_queue_node` of the thread can be on. -/
def list : ThreadPc → WaitList
  | .block q | .yieldWait q | .detach q => .queue q
  | .run | .yieldBack | .exiting => .sleepers

end ThreadPc

namespace ThreadSystem

variable {s s' : ThreadSystem} {t : ℕ} {pc : ThreadPc}

/-- A waker does not unblock a thread that has exited. -/
def Timely (s : ThreadSystem) : ThreadStep → Prop
  | .deliver w => ∀ t ∈ s.hand w, s.sched.threadState t ≠ .Zombie
  | _ => True

instance (a : ThreadStep) : Decidable (Timely s a) := by
  cases a <;> unfold Timely <;> infer_instance

/-- What a thread's state and position say about the lists its nodes are on. -/
structure Placed (s : ThreadSystem) (t : ℕ) : Prop where
  run : t ∈ s.sched.runQueue ↔
    t ∈ s.sched.allThreads ∧ t ≠ IDLE ∧ s.sched.threadState t = .Ready
  dead : t ∈ s.sched.zombies →
    t ∈ s.sched.allThreads ∧ t ≠ IDLE ∧ s.sched.threadState t = .Zombie
  asleep : t ∈ s.sched.waitList .sleepers ↔
    t ∈ s.sched.allThreads ∧ s.sched.threadState t = .Sleeping
  waiting : ∀ l, t ∈ s.sched.waitList l → t ∈ s.sched.allThreads ∧ t ≠ IDLE ∧ l = (s.pc t).list
  linked : s.sched.waitLinked t = true ↔ t ∈ s.sched.waitList (s.pc t).list
  idle : t = IDLE → t ∈ s.sched.allThreads ∧ s.pc t = .run ∧
    (s.sched.threadState t = .Running ∨ s.sched.threadState t = .Ready)
  exited : t ∈ s.sched.allThreads → s.sched.threadState t = .Zombie → s.pc t = .exiting

/-- No list has a thread twice. -/
structure Distinct (s : Scheduler) : Prop where
  threads : s.allThreads.Nodup
  run : s.runQueue.Nodup
  dead : s.zombies.Nodup
  waiting : ∀ l, (s.waitList l).Nodup

/-- All threads are where they should be.  This holds even in the middle of a switch. -/
structure Lists (s : ThreadSystem) : Prop where
  distinct : Distinct s.sched
  placed : ∀ t, Placed s t
  current : s.sched.current ∈ s.sched.allThreads
  held : ∀ w t, s.hand w = some t → t ∈ s.sched.allThreads ∨ s.sched.threadState t = .Zombie

/-- Nobody but the current thread is running, and it is unless it is about to yield. -/
structure Right (s : ThreadSystem) : Prop extends Lists s where
  running : ∀ t ∈ s.sched.allThreads, s.sched.threadState t = .Running → t = s.sched.current
  busy : (s.pc s.sched.current).isBusy → s.sched.threadState s.sched.current = .Running

lemma right_initial {boot : ℕ} (hboot : boot ≠ IDLE) : Right (initial boot) where
  distinct := ⟨by
    simp [initial, Ne.symm hboot], List.nodup_nil, List.nodup_nil, fun _ => List.nodup_nil⟩
  placed t := by
    constructor <;> simp only [initial, list, List.not_mem_nil, List.mem_cons] <;> grind
  current := by simp [initial]
  held := nofun
  running t _ hrun := by
    simp only [initial] at hrun ⊢
    grind
  busy _ := by simp [initial]

/-! ## One thread moves -/

/-- Nothing that `Placed` says something about has changed for the thread. -/
structure Same (s s' : ThreadSystem) (t : ℕ) : Prop where
  thread : t ∈ s'.sched.allThreads ↔ t ∈ s.sched.allThreads
  state : s'.sched.threadState t = s.sched.threadState t
  run : t ∈ s'.sched.runQueue ↔ t ∈ s.sched.runQueue
  dead : t ∈ s'.sched.zombies ↔ t ∈ s.sched.zombies
  waiting : ∀ l, t ∈ s'.sched.waitList l ↔ t ∈ s.sched.waitList l
  linked : s'.sched.waitLinked t = s.sched.waitLinked t
  pc : s'.pc t = s.pc t

lemma Placed.congr (h : Placed s t) (e : Same s s' t) : Placed s' t := by
  constructor <;> simp only [e.thread, e.state, e.run, e.dead, e.waiting, e.linked, e.pc]
  exacts [h.run, h.dead, h.asleep, h.waiting, h.linked, h.idle, h.exited]

section Move

variable {t : ℕ}

/-- **One thread moves.**  The others are where they were, and the one that moves is where it should
be afterwards. -/
lemma Lists.move (h : Lists s) (hothers : ∀ u ≠ t, Same s s' u) (hdist : Distinct s'.sched)
    (hplaced : Placed s' t) (hcur : s'.sched.current ∈ s'.sched.allThreads)
    (hself : t ∈ s'.sched.allThreads ∨ s'.sched.threadState t = .Zombie)
    (hhand : ∀ w u, s'.hand w = some u → u = t ∨ s.hand w = some u) : Lists s' where
  distinct := hdist
  placed u := by
    by_cases hu : u = t
    · exact hu ▸ hplaced
    · exact (h.placed u).congr (hothers u hu)
  current := hcur
  held w u hw := by
    by_cases hu : u = t
    · exact hu ▸ hself
    · rw [(hothers u hu).thread, (hothers u hu).state]
      exact h.held w u ((hhand w u hw).resolve_left hu)

lemma Right.move (h : Right s) (hothers : ∀ u ≠ t, Same s s' u) (hdist : Distinct s'.sched)
    (hplaced : Placed s' t) (hcur : s'.sched.current = s.sched.current)
    (hself : t ∈ s'.sched.allThreads ∨ t ≠ s.sched.current ∧ s'.sched.threadState t = .Zombie)
    (hhand : ∀ w u, s'.hand w = some u → u = t ∨ s.hand w = some u)
    (hrun : s'.sched.threadState t = .Running → t = s.sched.current)
    (hbusy : t = s.sched.current → (s'.pc t).isBusy → s'.sched.threadState t = .Running) :
    Right s' where
  toLists := by
    refine h.toLists.move hothers hdist hplaced ?_ (hself.imp_right And.right) hhand
    rw [hcur]
    by_cases hne : s.sched.current = t
    · exact hne ▸ hself.resolve_right fun hdead => hdead.1 hne.symm
    · exact (hothers _ hne).thread.mpr h.current
  running u hu hu' := by
    rw [hcur]
    by_cases hut : u = t
    · subst hut
      exact hrun hu'
    · exact h.running u ((hothers u hut).thread.mp hu) ((hothers u hut).state ▸ hu')
  busy := by
    rw [hcur]
    by_cases hne : s.sched.current = t
    · subst hne
      exact hbusy rfl
    · rw [(hothers _ hne).state, (hothers _ hne).pc]
      exact h.busy

lemma Placed.not_listed (h : Placed s t) (hready : s.sched.threadState t ≠ .Ready)
    (hdead : s.sched.threadState t ≠ .Zombie) : t ∉ s.sched.runQueue ∧ t ∉ s.sched.zombies :=
  ⟨fun hmem => hready (h.run.mp hmem).2.2, fun hmem => hdead (h.dead hmem).2.2⟩

lemma mem_update_append {f : WaitList → List ℕ} {l l' : WaitList} {u : ℕ} (hne : u ≠ t) :
    u ∈ update f l (f l ++ [t]) l' ↔ u ∈ f l' :=
  (forall_update_iff _ fun l' m => u ∈ m ↔ u ∈ f l').mpr ⟨by simp [hne], fun _ _ => Iff.rfl⟩ l'

lemma Distinct.append {s : Scheduler} (h : Distinct s) {l : WaitList} (hl : t ∉ s.waitList l)
    (l' : WaitList) : (update s.waitList l (s.waitList l ++ [t]) l').Nodup := by
  refine (forall_update_iff _ fun _ => List.Nodup).mpr ⟨?_, fun l' _ => h.waiting l'⟩ l'
  exact (h.waiting l).append (List.nodup_singleton t) (by simpa using hl)

/-- A node that can only be on one list is taken off that list. -/
lemma Lists.waitRemove (h : Lists s) {l : WaitList} (hl : ∀ l', t ∈ s.sched.waitList l' → l' = l) :
    ∃ lists, s.sched.waitRemove l t = { s.sched with
        waitList := lists
        waitLinked := update s.sched.waitLinked t false } ∧
      (∀ l', (lists l').Nodup) ∧ (∀ u ≠ t, ∀ l', u ∈ lists l' ↔ u ∈ s.sched.waitList l') ∧
      ∀ l', t ∉ lists l' := by
  unfold Scheduler.waitRemove
  split_ifs with hlink
  · refine ⟨_, rfl, (forall_update_iff _ fun _ => List.Nodup).mpr ⟨(h.distinct.waiting l).erase t,
      fun l' _ => h.distinct.waiting l'⟩, fun u hu => ?_, ?_⟩
    · exact (forall_update_iff _ fun l' m => u ∈ m ↔ u ∈ s.sched.waitList l').mpr
        ⟨List.mem_erase_of_ne hu, fun _ _ => Iff.rfl⟩
    · exact (forall_update_iff _ fun _ m => t ∉ m).mpr
        ⟨(h.distinct.waiting l).not_mem_erase, fun l' hne hmem => hne (hl l' hmem)⟩
  · have hunlinked : s.sched.waitLinked t = false := by simpa using hlink
    refine ⟨s.sched.waitList, ?_, h.distinct.waiting, fun _ _ _ => Iff.rfl, fun l' hl' => hlink ?_⟩
    · rw [← hunlinked, update_eq_self]
    · have hp := h.placed t
      exact hp.linked.mpr ((hp.waiting l' hl').2.2 ▸ hl')

end Move

/-! ## Sections of the current thread -/

lemma Right.goTo (h : Right s) {sched : Scheduler}
    (hothers : ∀ u ≠ s.sched.current, Same s (s.goTo sched pc) u) (hdist : Distinct sched)
    (hplaced : Placed (s.goTo sched pc) s.sched.current) (hcur : sched.current = s.sched.current)
    (hthreads : sched.allThreads = s.sched.allThreads)
    (hbusy : pc.isBusy → sched.threadState s.sched.current = .Running) : Right (s.goTo sched pc) :=
  h.move hothers hdist hplaced hcur (.inl (hthreads ▸ h.current)) (fun _ _ => .inr)
    (fun _ => rfl) fun _ hpc => hbusy (by simpa [ThreadSystem.goTo] using hpc)

lemma Placed.awake (h : Placed s t) (hrun : s.sched.threadState t = .Running) :
    t ∉ s.sched.waitList .sleepers := fun hmem => by
  have := (h.asleep.mp hmem).2
  rw [hrun] at this
  cases this

/-- The current thread is in ordinary code: it is running and on no list. -/
lemma Right.free (h : Right s) (hfree : s.Free) :
    s.sched.threadState s.sched.current = .Running ∧ s.sched.waitLinked s.sched.current = false ∧
      ∀ l, s.sched.current ∉ s.sched.waitList l := by
  have hrun := h.busy (by rw [hfree.2]; rfl)
  have hp := h.placed s.sched.current
  have hnot : ∀ l, s.sched.current ∉ s.sched.waitList l := fun l hl => by
    obtain rfl : l = .sleepers := by simpa [hfree.2, list] using (hp.waiting l hl).2.2
    exact hp.awake hrun hl
  exact ⟨hrun, Bool.eq_false_iff.mpr fun hlink => hnot _ (hp.linked.mp hlink), hnot⟩

lemma Right.blockCurrent (h : Right s) (hidle : s.sched.current ≠ IDLE)
    (hbusy : (s.pc s.sched.current).isBusy) {reason : ThreadState}
    (hreason : reason = .Blocked ∨ reason = .Stopped) (hpc : pc.isBusy = false)
    (hlist : pc.list = (s.pc s.sched.current).list) :
    Right (s.goTo (s.sched.blockCurrent reason) pc) := by
  have hp := h.placed s.sched.current
  have hrun := h.busy hbusy
  refine h.goTo (fun u hu => ⟨Iff.rfl, update_of_ne hu .., Iff.rfl, Iff.rfl, fun _ => Iff.rfl, rfl,
    update_of_ne hu ..⟩) { h.distinct with } ?_ rfl rfl (by simp [hpc])
  constructor <;>
    simp only [ThreadSystem.goTo, Scheduler.blockCurrent, Scheduler.setState, update_self, hlist]
  · grind [hp.run]
  · grind [hp.dead]
  · grind [hp.asleep]
  · exact hp.waiting
  · exact hp.linked
  · exact fun heq => absurd heq hidle
  · rcases hreason with rfl | rfl <;> simp

lemma Right.wait (h : Right s) (hfree : s.Free) (q : ℕ) :
    Right (s.goTo (s.sched.waitAppend (.queue q) s.sched.current) (.block q)) := by
  obtain ⟨hrun, hunlinked, hnot⟩ := h.free hfree
  have hp := h.placed s.sched.current
  rw [waitAppend, if_neg (by simp [hunlinked])]
  refine h.goTo (fun u hu => ⟨Iff.rfl, rfl, Iff.rfl, Iff.rfl, fun _ => mem_update_append hu,
      update_of_ne hu .., update_of_ne hu ..⟩)
    { h.distinct with waiting := h.distinct.append (hnot _) } ?_ rfl rfl fun _ => hrun
  constructor <;> simp only [ThreadSystem.goTo, list, update_self]
  · exact hp.run
  · exact hp.dead
  · simpa using hp.asleep
  · refine fun l hl => ⟨h.current, hfree.1, ?_⟩
    by_contra hne
    exact hnot l (by simpa [hne] using hl)
  · simp
  · exact fun heq => absurd heq hfree.1
  · simp [hrun]

lemma Right.detach (h : Right s) {q : ℕ} (hpc : s.pc s.sched.current = .detach q) :
    Right (s.goTo (s.sched.detachSelf q) .run) := by
  have hp := h.placed s.sched.current
  have hidle : s.sched.current ≠ IDLE := fun hidle => by
    rw [(hp.idle hidle).2.1] at hpc
    cases hpc
  have hrun := h.busy (by rw [hpc]; rfl)
  obtain ⟨lists, heq, hnodup, hothers, hnot⟩ := h.waitRemove (t := s.sched.current) (l := .queue q)
    fun l hl => by simpa [hpc, list] using (hp.waiting l hl).2.2
  rw [detachSelf, heq]
  refine h.goTo (fun u hu => ⟨Iff.rfl, rfl, Iff.rfl, Iff.rfl, hothers u hu, update_of_ne hu ..,
    update_of_ne hu ..⟩) { h.distinct with waiting := hnodup } ?_ rfl rfl fun _ => hrun
  constructor <;> simp only [ThreadSystem.goTo, list, update_self]
  · exact hp.run
  · exact hp.dead
  · simp [hnot, hrun]
  · exact fun l hl => absurd hl (hnot l)
  · simp [hnot]
  · exact fun heq => absurd heq hidle
  · simp [hrun]

lemma Right.sleep (h : Right s) (hfree : s.Free) (deadline : ℕ) :
    Right (s.goTo (s.sched.sleepUntil deadline) .yieldBack) := by
  obtain ⟨hrun, hunlinked, hnot⟩ := h.free hfree
  have hp := h.placed s.sched.current
  rw [sleepUntil, waitAppend, if_neg (by simp [setState, hunlinked])]
  refine h.goTo
    (fun u hu => ⟨Iff.rfl, update_of_ne hu .., Iff.rfl, Iff.rfl, fun _ => mem_update_append hu,
      update_of_ne hu .., update_of_ne hu ..⟩)
    { h.distinct with waiting := h.distinct.append (hnot _) } ?_ rfl rfl (by simp [isBusy])
  have hlist := hp.not_listed (by simp [hrun]) (by simp [hrun])
  constructor <;> simp only [ThreadSystem.goTo, setState, list, update_self]
  · simp [hlist]
  · simp [hlist]
  · simp [h.current]
  · refine fun l hl => ⟨h.current, hfree.1, ?_⟩
    by_contra hne
    exact hnot l (by simpa [hne] using hl)
  · simp
  · exact fun heq => absurd heq hfree.1
  · simp

lemma Right.exit (h : Right s) (hfree : s.Free) : Right (s.goTo s.sched.exitCurrent .exiting) := by
  obtain ⟨hrun, hunlinked, hnot⟩ := h.free hfree
  have hp := h.placed s.sched.current
  have hlist := hp.not_listed (by simp [hrun]) (by simp [hrun])
  rw [exitCurrent, if_neg (by simp [hlist])]
  refine h.goTo
    (fun u hu => ⟨Iff.rfl, update_of_ne hu .., Iff.rfl, by simp [setState, ThreadSystem.goTo, hu],
    fun _ => Iff.rfl, rfl, update_of_ne hu ..⟩) { h.distinct with dead := ?_ } ?_ rfl rfl
    (by simp [isBusy])
  · exact h.distinct.dead.append (List.nodup_singleton _) (by simpa using hlist.2)
  constructor <;> simp only [ThreadSystem.goTo, setState, list, update_self]
  · simp [hlist]
  · simp [h.current, hfree.1]
  · simp [hnot]
  · exact fun l hl => absurd hl (hnot l)
  · simp [hnot, hunlinked]
  · exact fun heq => absurd heq hfree.1
  · simp

/-! ## Waking and switching -/

section Switch

variable {t : ℕ}

/-- A thread that is not asleep any more is made ready. -/
lemma Lists.wake (h : Lists s) (ht : t ∈ s.sched.allThreads) (hidle : t ≠ IDLE)
    (hready : s.sched.threadState t ≠ .Ready) (halive : s.sched.threadState t ≠ .Zombie)
    {lists : WaitList → List ℕ} {linked : ℕ → Bool} (hnodup : ∀ l, (lists l).Nodup)
    (hothers : ∀ u ≠ t, ∀ l, u ∈ lists l ↔ u ∈ s.sched.waitList l)
    (hlink : ∀ u ≠ t, linked u = s.sched.waitLinked u)
    (hself : ∀ l, t ∈ lists l → l = (s.pc t).list) (hawake : t ∉ lists .sleepers)
    (hself' : linked t = true ↔ t ∈ lists (s.pc t).list) :
    Lists { s with sched := ({ s.sched with
      waitList := lists
      waitLinked := linked }.setState t .Ready).runAppend t } := by
  have hlist := (h.placed t).not_listed hready halive
  rw [runAppend, if_neg (by simp [setState, hlist])]
  refine h.move (t := t) (fun u hu => ⟨Iff.rfl, update_of_ne hu .., by simp [setState, hu],
    Iff.rfl, hothers u hu, hlink u hu, rfl⟩) { h.distinct with
      run := h.distinct.run.append (List.nodup_singleton _) (by simpa using hlist.1)
      waiting := hnodup } ?_ h.current (.inl ht) fun _ _ => .inr
  constructor <;> simp only [setState, update_self]
  · simp [ht, hidle]
  · simp [hlist]
  · simp [hawake]
  · exact fun l hl => ⟨ht, hidle, hself l hl⟩
  · exact hself'
  · exact fun heq => absurd heq hidle
  · simp

lemma Right.unblock (h : Right s) (ht : t ∈ s.sched.allThreads)
    (halive : s.sched.threadState t ≠ .Zombie) : Right { s with sched := s.sched.unblock t } := by
  by_cases hrunnable : s.sched.threadState t = .Running ∨ s.sched.threadState t = .Ready
  · rwa [Scheduler.unblock, if_pos hrunnable]
  obtain ⟨hrun, hready⟩ := not_or.mp hrunnable
  have hp := h.placed t
  have hidle : t ≠ IDLE := fun heq => hrunnable (hp.idle heq).2.2
  have hlists : Lists { s with sched := s.sched.unblock t } := by
    rw [Scheduler.unblock, if_neg hrunnable]
    split_ifs with hsleeping
    · have hlist := (hp.waiting _ (hp.asleep.mpr ⟨ht, hsleeping⟩)).2.2
      obtain ⟨lists, heq, hnodup, hothers, hnot⟩ :=
        h.waitRemove (t := t) (l := .sleepers) fun l hl =>
        (hp.waiting l hl).2.2.trans hlist.symm
      rw [heq]
      exact h.wake ht hidle hready halive hnodup hothers (fun u hu => update_of_ne hu ..)
        (fun l hl => absurd hl (hnot l)) (hnot _) (by simp [hnot])
    · exact h.wake ht hidle hready halive h.distinct.waiting (fun _ _ _ => Iff.rfl) (fun _ _ => rfl)
        (fun l hl => (hp.waiting l hl).2.2) (fun hmem => hsleeping (hp.asleep.mp hmem).2) hp.linked
  refine ⟨hlists, fun u hu hu' => ?_, fun hbusy => ?_⟩
  · rw [Scheduler.allThreads_unblock] at hu
    rw [Scheduler.current_unblock]
    by_cases hut : u = t
    · simp_all [Scheduler.unblock, Scheduler.setState]
    · exact h.running u hu (s.sched.threadState_unblock_of_ne hut ▸ hu')
  · rw [Scheduler.current_unblock] at hbusy ⊢
    have hcur := h.busy hbusy
    rwa [Scheduler.threadState_unblock_of_ne]
    exact fun heq => hrun (heq ▸ hcur)

/-- After the running thread has been requeued nobody is running. -/
lemma Lists.requeueCurrent (h : Lists s)
    (hrunning : ∀ t ∈ s.sched.allThreads, s.sched.threadState t = .Running → t = s.sched.current) :
    Lists { s with sched := s.sched.requeueCurrent } ∧
      ∀ t ∈ s.sched.requeueCurrent.allThreads, s.sched.requeueCurrent.threadState t ≠ .Running := by
  have hp := h.placed s.sched.current
  have hready : ∀ t ∈ s.sched.allThreads,
      update s.sched.threadState s.sched.current .Ready t ≠ .Running := fun t ht heq => by
    by_cases hne : t = s.sched.current
    · simp [hne] at heq
    · exact hne (hrunning t ht (by simpa [hne] using heq))
  unfold Scheduler.requeueCurrent
  split_ifs with hcur hidle
  · refine ⟨h.move (t := s.sched.current)
      (fun u hu => ⟨Iff.rfl, update_of_ne hu .., Iff.rfl, Iff.rfl,
      fun _ => Iff.rfl, rfl, rfl⟩) { h.distinct with } ?_ h.current (.inl h.current) fun _ _ =>
      .inr, hready⟩
    constructor <;> simp only [Scheduler.setState, update_self]
    · exact ⟨fun hmem => absurd hidle (hp.run.mp hmem).2.1, fun hmem => absurd hidle hmem.2.1⟩
    · exact fun hmem => absurd hidle (hp.dead hmem).2.1
    · simp [hp.awake hcur]
    · exact hp.waiting
    · exact hp.linked
    · exact fun heq => ⟨h.current, (hp.idle heq).2.1, .inr trivial⟩
    · simp
  · refine ⟨h.wake h.current hidle (by simp [hcur]) (by simp [hcur]) h.distinct.waiting
      (fun _ _ _ => Iff.rfl) (fun _ _ => rfl) (fun l hl => (hp.waiting l hl).2.2) (hp.awake hcur)
      hp.linked, ?_⟩
    rw [Scheduler.allThreads_runAppend, Scheduler.threadState_runAppend]
    exact hready
  · exact ⟨h, fun t ht hrun => hcur (hrunning t ht hrun ▸ hrun)⟩

lemma Lists.giveCpu (h : Lists s)
    (hnobody : ∀ t ∈ s.sched.allThreads, s.sched.threadState t ≠ .Running)
    (ht : t ∈ s.sched.allThreads) (hready : s.sched.threadState t = .Ready) {rest : List ℕ}
    (hrest : rest.Nodup) (hothers : ∀ u ≠ t, u ∈ rest ↔ u ∈ s.sched.runQueue) (hnot : t ∉ rest) :
    Right { s with sched :=
      { s.sched.setState t .Running with runQueue := rest, current := t } } := by
  have hp := h.placed t
  refine ⟨h.move (t := t) (fun u hu => ⟨Iff.rfl, update_of_ne hu .., hothers u hu, Iff.rfl,
    fun _ => Iff.rfl, rfl, rfl⟩) { h.distinct with run := hrest } ?_ ht (.inl ht) fun _ _ => .inr,
    fun u hu hrun => ?_, fun _ => update_self ..⟩
  · constructor <;> simp only [setState, update_self]
    · simp [hnot]
    · exact fun hmem => absurd (hp.dead hmem).2.2 (by simp [hready])
    · simp [hp.asleep, hready]
    · exact hp.waiting
    · exact hp.linked
    · exact fun heq => ⟨ht, (hp.idle heq).2.1, .inl trivial⟩
    · simp
  · by_contra hne
    exact hnobody u hu ((update_of_ne hne ..).symm.trans hrun)

lemma Lists.dispatch (h : Lists s)
    (hnobody : ∀ t ∈ s.sched.allThreads, s.sched.threadState t ≠ .Running) :
    Right { s with sched := s.sched.dispatch } := by
  unfold Scheduler.dispatch
  split
  case h_1 hrun =>
    obtain ⟨hidle, -, hstate⟩ := (h.placed IDLE).idle rfl
    have hdone := h.giveCpu hnobody hidle (hstate.resolve_left (hnobody _ hidle)) List.nodup_nil
      (fun u _ => by rw [hrun]) List.not_mem_nil
    rwa [← hrun] at hdone
  case h_2 t rest hrun =>
    have hnodup := h.distinct.run
    rw [hrun, List.nodup_cons] at hnodup
    obtain ⟨hmem, -, hready⟩ := (h.placed t).run.mp (by simp [hrun])
    exact h.giveCpu hnobody hmem hready hnodup.2 (fun u hu => by simp [hrun, hu]) hnodup.1

lemma Lists.switchToNext (h : Lists s)
    (hrun : ∀ t ∈ s.sched.allThreads, s.sched.threadState t = .Running → t = s.sched.current) :
    Right { s with sched := s.sched.switchToNext } := by
  obtain ⟨hrequeued, hnobody⟩ := h.requeueCurrent hrun
  exact hrequeued.dispatch hnobody

lemma Right.yield (h : Right s) {pc : ThreadPc} (hidle : s.sched.current ≠ IDLE)
    (hpc : afterYield (s.pc s.sched.current) = some pc) :
    Right (s.goTo s.sched.switchToNext pc) := by
  have hp := h.placed s.sched.current
  have hlist : pc.list = (s.pc s.sched.current).list := by
    cases hold : s.pc s.sched.current <;> rw [hold] at hpc <;> cases hpc <;> rfl
  refine Lists.switchToNext (s := { s with pc := update s.pc s.sched.current pc }) ?_ h.running
  refine h.toLists.move (t := s.sched.current) (fun u hu => ⟨Iff.rfl, rfl, Iff.rfl, Iff.rfl,
    fun _ => Iff.rfl, rfl, update_of_ne hu ..⟩) h.distinct ?_ h.current (.inl h.current) fun _ _ =>
    .inr
  constructor <;> simp only [update_self, hlist]
  · exact hp.run
  · exact hp.dead
  · exact hp.asleep
  · exact hp.waiting
  · exact hp.linked
  · exact fun heq => absurd heq hidle
  · intro hmem hdead
    rw [hp.exited hmem hdead] at hpc
    cases hpc
    rfl

/-- The loop of `on_timer_tick`: the rest of the list is still asleep when its turn comes. -/
lemma Right.wakeSleepers (now : ℕ) : ∀ (rest : List ℕ) {s : ThreadSystem}, Right s → rest.Nodup →
    (∀ t ∈ rest, t ∈ s.sched.allThreads ∧ s.sched.threadState t = .Sleeping) →
    Right { s with sched := rest.foldl (fun s t => if s.wakeAt t ≤ now then
      ((s.waitRemove .sleepers t).setState t .Ready).runAppend t else s) s.sched }
  | [], _, h, _, _ => h
  | t :: rest, s, h, hnodup, hasleep => by
    obtain ⟨hnot, hrest⟩ := List.nodup_cons.mp hnodup
    obtain ⟨⟨hmem, hsleeping⟩, hasleep⟩ := List.forall_mem_cons.mp hasleep
    rw [List.foldl_cons]
    split_ifs
    · have hunblock : ((s.sched.waitRemove .sleepers t).setState t .Ready).runAppend t =
          s.sched.unblock t := by simp [Scheduler.unblock, hsleeping]
      rw [hunblock]
      refine wakeSleepers now rest (h.unblock hmem (by simp [hsleeping])) hrest fun u hu => ?_
      have hne : u ≠ t := fun heq => hnot (heq ▸ hu)
      rw [Scheduler.allThreads_unblock, Scheduler.threadState_unblock_of_ne _ hne]
      exact hasleep u hu
    · exact wakeSleepers now rest h hrest hasleep

lemma Right.onTimerTick (h : Right s) (now : ℕ) (expired : Bool) :
    Right { s with sched := s.sched.onTimerTick now expired } := by
  have hwoken := Right.wakeSleepers now _ h (h.distinct.waiting .sleepers) fun t ht =>
    (h.placed t).asleep.mp ht
  simp only [Scheduler.onTimerTick]
  split_ifs
  · exact hwoken
  · exact hwoken
  · exact hwoken.toLists.switchToNext hwoken.running

end Switch

/-! ## The other sections -/

lemma Right.enqueue (h : Right s) (hidle : t ≠ IDLE) (hnew : t ∉ s.sched.allThreads) :
    Right { s with sched := s.sched.enqueue t, pc := update s.pc t .run } := by
  have hp := h.placed t
  have hnot : ∀ l, t ∉ s.sched.waitList l := fun l hl => hnew (hp.waiting l hl).1
  have hlist : t ∉ s.sched.runQueue ∧ t ∉ s.sched.zombies :=
    ⟨fun hmem => hnew (hp.run.mp hmem).1, fun hmem => hnew (hp.dead hmem).1⟩
  have hsched : s.sched.enqueue t = { s.sched with
      allThreads := s.sched.allThreads ++ [t]
      threadState := update s.sched.threadState t .Ready
      runQueue := s.sched.runQueue ++ [t] } := by
    rw [Scheduler.enqueue, if_neg hnew, Scheduler.runAppend,
      if_neg (by simp [Scheduler.setState, hlist])]
    rfl
  rw [hsched]
  refine h.move (t := t) (fun u hu => ⟨by simp [hu], update_of_ne hu .., by simp [hu], Iff.rfl,
    fun _ => Iff.rfl, rfl, update_of_ne hu ..⟩) { h.distinct with
      threads := h.distinct.threads.append (List.nodup_singleton t) (by simpa using hnew)
      run := h.distinct.run.append (List.nodup_singleton t) (by simpa using hlist.1) } ?_ rfl
    (.inl (by simp)) (fun _ _ => .inr) (by simp) fun heq => absurd h.current (heq ▸ hnew)
  constructor <;> simp only [update_self, list]
  · simp [hidle]
  · simp [hlist]
  · simp [hnot]
  · exact fun l hl => absurd hl (hnot l)
  · simp [hnot, hp.linked]
  · exact fun heq => absurd heq hidle
  · simp

/-- The idle thread forgets a zombie.  A waker that still holds it will find it dead. -/
lemma Right.reap (h : Right s) (hcur : s.sched.current = IDLE) :
    Right { s with sched := s.sched.takeZombie.2 } := by
  unfold takeZombie
  split
  · exact h
  case h_2 t rest hzombies =>
    have hp := h.placed t
    obtain ⟨hthread, hidle, hdead⟩ := hp.dead (by simp [hzombies])
    have hnodup := h.distinct.dead
    rw [hzombies, List.nodup_cons] at hnodup
    have hgone : t ∉ s.sched.allThreads.erase t := h.distinct.threads.not_mem_erase
    have hnot : ∀ l, t ∉ s.sched.waitList l := fun l hl => by
      have hlist := (hp.waiting l hl).2.2
      rw [hp.exited hthread hdead] at hlist
      subst hlist
      have := (hp.asleep.mp hl).2
      rw [hdead] at this
      cases this
    refine h.move (t := t)
      (fun u hu => ⟨List.mem_erase_of_ne hu, rfl, Iff.rfl, by simp [hzombies, hu],
      fun _ => Iff.rfl, rfl, rfl⟩) { h.distinct with
        threads := h.distinct.threads.erase t
        dead := hnodup.2 } ?_ rfl (.inr ⟨hcur ▸ hidle, hdead⟩) (fun _ _ => .inr) (by simp [hdead])
      fun heq => absurd (heq.trans hcur) hidle
    constructor <;> simp only [hgone]
    · simp [hp.run, hdead]
    · exact fun hmem => absurd hmem hnodup.1
    · simp [hnot]
    · exact fun l hl => absurd hl (hnot l)
    · exact hp.linked
    · exact fun heq => absurd heq hidle
    · simp

lemma Right.setHand (h : Right s) {hand : ℕ → Option ℕ}
    (hheld : ∀ w t, hand w = some t → s.hand w = some t ∨ t ∈ s.sched.allThreads) :
    Right { s with hand := hand } where
  distinct := h.distinct
  placed t := (h.placed t).congr ⟨Iff.rfl, rfl, Iff.rfl, Iff.rfl, fun _ => Iff.rfl, rfl, rfl⟩
  current := h.current
  held w t hw := (hheld w t hw).elim (h.held w t) .inl
  running := h.running
  busy := h.busy

lemma Right.take (h : Right s) (w q : ℕ) : Right { s with
      sched := (s.sched.waitTakeFirst (.queue q)).2
      hand := update s.hand w (s.sched.waitTakeFirst (.queue q)).1 } := by
  unfold waitTakeFirst
  split
  · exact h.setHand ((forall_update_iff _ fun w' x => ∀ t, x = some t → s.hand w' = some t ∨
      t ∈ s.sched.allThreads).mpr ⟨nofun, fun _ _ _ => .inl⟩)
  case h_2 t rest hqueue =>
    have hmem : t ∈ s.sched.waitList (.queue q) := by simp [hqueue]
    have hp := h.placed t
    obtain ⟨hthread, hidle, hlist⟩ := hp.waiting _ hmem
    obtain ⟨lists, heq, hnodup, hothers, hnot⟩ := h.waitRemove (t := t) (l := .queue q) fun l hl =>
      (hp.waiting l hl).2.2.trans hlist.symm
    -- Taking the first thread off a list is removing it.
    rw [waitRemove, if_pos (hp.linked.mpr (hlist ▸ hmem)), hqueue, List.erase_cons_head] at heq
    simp only [heq]
    refine h.move (t := t)
      (fun u hu => ⟨Iff.rfl, rfl, Iff.rfl, Iff.rfl, hothers u hu, update_of_ne hu ..,
      rfl⟩) { h.distinct with waiting := hnodup } ?_ rfl (.inl hthread) ?_ (h.running t hthread) ?_
    · constructor <;> simp only [update_self]
      · exact hp.run
      · exact hp.dead
      · rw [← hp.asleep]
        exact ⟨fun hl => absurd hl (hnot _), fun hl =>
          nomatch (hp.waiting _ hl).2.2.trans hlist.symm⟩
      · exact fun l hl => absurd hl (hnot l)
      · simp [hnot]
      · exact hp.idle
      · exact hp.exited
    · exact (forall_update_iff _ fun w' x => ∀ u, x = some u → u = t ∨ s.hand w' = some u).mpr
        ⟨fun u hu => .inl (Option.some.inj hu).symm, fun _ _ _ => .inr⟩
    · exact fun heq => heq ▸ h.busy

lemma Right.step (h : Right s) {a : ThreadStep} (htimely : Timely s a)
    (hstep : s.step a = some s') : Right s' := by
  cases a with
  | tick now expired =>
    cases hstep
    exact h.onTimerTick now expired
  | enqueue t =>
    obtain ⟨hnew, ⟨⟩⟩ := ite_none_right_eq_some.mp hstep
    exact h.enqueue hnew.1 hnew.2
  | wait q =>
    obtain ⟨hfree, ⟨⟩⟩ := ite_none_right_eq_some.mp hstep
    exact h.wait hfree q
  | waitSince q seen =>
    obtain ⟨hfree, hstep⟩ := ite_none_right_eq_some.mp hstep
    unfold waitSinceEnter at hstep
    split_ifs at hstep
    · cases hstep
      exact h
    · cases hstep
      exact h.wait hfree q
  | block =>
    simp only [ThreadSystem.step] at hstep
    split at hstep
    case h_1 q hpc =>
      cases hstep
      refine h.blockCurrent (fun hidle => ?_) (by rw [hpc]; rfl) (.inl rfl) rfl (by rw [hpc]; rfl)
      rw [((h.placed _).idle hidle).2.1] at hpc
      cases hpc
    case h_2 => cases hstep
  | stop =>
    obtain ⟨hfree, ⟨⟩⟩ := ite_none_right_eq_some.mp hstep
    exact h.blockCurrent hfree.1 (by rw [hfree.2]; rfl) (.inr rfl) rfl (by rw [hfree.2]; rfl)
  | sleep deadline =>
    obtain ⟨hfree, ⟨⟩⟩ := ite_none_right_eq_some.mp hstep
    exact h.sleep hfree deadline
  | exit =>
    obtain ⟨hfree, ⟨⟩⟩ := ite_none_right_eq_some.mp hstep
    exact h.exit hfree
  | yield =>
    obtain ⟨hidle, hstep⟩ := Option.ite_none_left_eq_some.mp hstep
    obtain ⟨pc, hpc, rfl⟩ := Option.map_eq_some_iff.mp hstep
    exact h.yield hidle hpc
  | detach =>
    simp only [ThreadSystem.step] at hstep
    split at hstep
    case h_1 q hpc =>
      cases hstep
      exact h.detach hpc
    case h_2 => cases hstep
  | reap =>
    obtain ⟨hidle, ⟨⟩⟩ := ite_none_right_eq_some.mp hstep
    exact h.reap hidle
  | take w q =>
    simp only [ThreadSystem.step] at hstep
    split at hstep
    · cases hstep
      exact h.take w q
    · cases hstep
  | aim w t =>
    obtain ⟨haim, ⟨⟩⟩ := ite_none_right_eq_some.mp hstep
    exact h.setHand ((forall_update_iff _ fun w' x => ∀ u, x = some u → s.hand w' = some u ∨
      u ∈ s.sched.allThreads).mpr ⟨fun u hu => .inr (Option.some.inj hu ▸ haim.2.1),
      fun _ _ _ => .inl⟩)
  | deliver w =>
    simp only [ThreadSystem.step] at hstep
    split at hstep
    case h_1 => cases hstep
    case h_2 t hhand =>
      cases hstep
      have halive := htimely t hhand
      have hwoken := h.unblock ((h.held w t hhand).resolve_right halive) halive
      exact hwoken.setHand ((forall_update_iff _ fun w' x => ∀ u, x = some u → s.hand w' = some u ∨
        u ∈ (s.sched.unblock t).allThreads).mpr ⟨nofun, fun _ _ _ => .inl⟩)
  | bump q =>
    cases hstep
    exact ⟨⟨{ h.distinct with }, fun t => (h.placed t).congr ⟨Iff.rfl, rfl, Iff.rfl, Iff.rfl,
      fun _ => Iff.rfl, rfl, rfl⟩, h.current, h.held⟩, h.running, h.busy⟩

/-! ## The invariant -/

/-- What the lists have to be. -/
structure ListsRight (s : Scheduler) : Prop where
  /-- The run queue has the ready threads but the idle one, each once. -/
  run : s.runQueue.Nodup ∧
    ∀ t, t ∈ s.runQueue ↔ t ∈ s.allThreads ∧ t ≠ IDLE ∧ s.threadState t = .Ready
  /-- The list of sleepers has the sleeping threads, each once. -/
  sleepers : (s.waitList .sleepers).Nodup ∧
    ∀ t, t ∈ s.waitList .sleepers ↔ t ∈ s.allThreads ∧ s.threadState t = .Sleeping
  /-- The list of zombies has only zombies. -/
  zombies : s.zombies.Nodup ∧ ∀ t ∈ s.zombies, s.threadState t = .Zombie
  /-- The idle thread is on none of them. -/
  idle : IDLE ∉ s.runQueue ∧ IDLE ∉ s.zombies ∧ ∀ l, IDLE ∉ s.waitList l
  /-- No `run_queue_node` is on two lists. -/
  runNode : ∀ t, ¬ (t ∈ s.runQueue ∧ t ∈ s.zombies)
  /-- No `wait_queue_node` is on two lists, or twice on one. -/
  waitNode : ∀ t l, t ∈ s.waitList l → (s.waitList l).Nodup ∧ ∀ l', t ∈ s.waitList l' → l' = l

lemma Lists.listsRight (h : Lists s) : ListsRight s.sched where
  run := ⟨h.distinct.run, fun t => (h.placed t).run⟩
  sleepers := ⟨h.distinct.waiting _, fun t => (h.placed t).asleep⟩
  zombies := ⟨h.distinct.dead, fun t ht => ((h.placed t).dead ht).2.2⟩
  idle := ⟨fun hrun => ((h.placed _).run.mp hrun).2.1 rfl, fun hdead =>
    ((h.placed _).dead hdead).2.1 rfl, fun l hl => ((h.placed _).waiting l hl).2.1 rfl⟩
  runNode t := by
    rintro ⟨hrun, hdead⟩
    have hready := ((h.placed t).run.mp hrun).2.2
    rw [((h.placed t).dead hdead).2.2] at hready
    cases hready
  waitNode t l hl := ⟨h.distinct.waiting l, fun l' hl' =>
    ((h.placed t).waiting l' hl').2.2.trans ((h.placed t).waiting l hl).2.2.symm⟩

/-- **The lists of the scheduler.**  In every run in which no waker unblocks a thread that has
exited, the lists are what they have to be. -/
theorem lists_right {boot : ℕ} (hboot : boot ≠ IDLE) (as : List ThreadStep)
    (hrun : run ThreadSystem.step (initial boot) as = some s)
    (htimely : Along ThreadSystem.step Timely (initial boot) as) : ListsRight s.sched := by
  have h : Right s := run_invariant (I := Right) (fun _ _ _ h htimely hstep => h.step htimely hstep)
    as _ s (right_initial hboot) htimely hrun
  exact h.listsRight

/-- Thread 2 waits on queue 5, is woken by a signal and taken off the queue, and exits. -/
def wakeAndExit : List ThreadStep :=
  [.enqueue 2, .yield, .wait 5, .block, .yield, .take 0 5, .aim 1 2, .deliver 1, .yield, .detach]

/-- If the waker comes before the exit, the lists are right. -/
theorem lists_right_deliver_exit :
    ∃ s, run ThreadSystem.step (initial 1) (wakeAndExit ++ [.deliver 0, .exit, .yield]) = some s ∧
      s.sched.zombies = [2] ∧ ListsRight s.sched :=
  exists_run_of_map (·.sched.zombies) [2] (by decide +kernel) fun _ hs hzombies =>
    ⟨hzombies, lists_right (by decide) _ hs (by decide +kernel)⟩

/-- If the waker comes behind the exit, thread 2 is ready, on the list of zombies and not on the run
queue. -/
theorem zombie_unblocked :
    ∃ s, run ThreadSystem.step (initial 1) (wakeAndExit ++ [.exit, .deliver 0]) = some s ∧
      s.sched.threadState 2 = .Ready ∧ 2 ∈ s.sched.allThreads ∧ 2 ∉ s.sched.runQueue ∧
      2 ∈ s.sched.zombies ∧ ¬ ListsRight s.sched := by
  refine exists_run_of_map
    (fun s => (s.sched.threadState 2, s.sched.allThreads, s.sched.runQueue, s.sched.zombies))
    (.Ready, [IDLE, 1, 2], [1], [2]) (by decide +kernel) fun s _ hlists => ?_
  simp only [Prod.mk.injEq] at hlists
  obtain ⟨hready, hthreads, hqueue, hzombies⟩ := hlists
  refine ⟨hready, by simp [hthreads], by simp [hqueue], by simp [hzombies], fun hright => ?_⟩
  have hdead := hright.zombies.2 2 (by simp [hzombies])
  rw [hready] at hdead
  cases hdead

end ThreadSystem

end ShitOs
