import ShitOs.Construction.Scheduler
import Mathlib.Logic.Function.Basic

/-!
# What the scheduler's sections change

Which fields a section leaves alone, and how it can change the state of a thread.
-/

namespace ShitOs
namespace Scheduler

variable (s : Scheduler) {t : ℕ}

/-! ## Fields -/

@[simp] lemma threadState_runAppend (t : ℕ) : (s.runAppend t).threadState = s.threadState := by
  unfold runAppend; split <;> rfl

@[simp] lemma allThreads_runAppend (t : ℕ) : (s.runAppend t).allThreads = s.allThreads := by
  unfold runAppend; split <;> rfl

@[simp] lemma current_runAppend (t : ℕ) : (s.runAppend t).current = s.current := by
  unfold runAppend; split <;> rfl

@[simp] lemma waitList_runAppend (t : ℕ) : (s.runAppend t).waitList = s.waitList := by
  unfold runAppend; split <;> rfl

@[simp] lemma waitLinked_runAppend (t : ℕ) : (s.runAppend t).waitLinked = s.waitLinked := by
  unfold runAppend; split <;> rfl

@[simp] lemma threadState_waitAppend (l : WaitList) (t : ℕ) :
    (s.waitAppend l t).threadState = s.threadState := by
  unfold waitAppend; split <;> rfl

@[simp] lemma current_waitAppend (l : WaitList) (t : ℕ) :
    (s.waitAppend l t).current = s.current := by
  unfold waitAppend; split <;> rfl

@[simp] lemma threadState_waitRemove (l : WaitList) (t : ℕ) :
    (s.waitRemove l t).threadState = s.threadState := by
  unfold waitRemove; split <;> rfl

@[simp] lemma allThreads_waitRemove (l : WaitList) (t : ℕ) :
    (s.waitRemove l t).allThreads = s.allThreads := by
  unfold waitRemove; split <;> rfl

@[simp] lemma current_waitRemove (l : WaitList) (t : ℕ) :
    (s.waitRemove l t).current = s.current := by
  unfold waitRemove; split <;> rfl

@[simp] lemma waitList_enqueue (t : ℕ) : (s.enqueue t).waitList = s.waitList := by
  unfold enqueue
  split_ifs <;> simp [setState]

@[simp] lemma waitLinked_enqueue (t : ℕ) : (s.enqueue t).waitLinked = s.waitLinked := by
  unfold enqueue
  split_ifs <;> simp [setState]

lemma threadState_enqueue (t : ℕ) :
    (s.enqueue t).threadState = Function.update s.threadState t .Ready := by
  unfold enqueue
  split_ifs <;> simp [setState]

lemma waitList_requeueCurrent : s.requeueCurrent.waitList = s.waitList := by
  unfold requeueCurrent
  split_ifs <;> simp [setState]

lemma waitLinked_requeueCurrent : s.requeueCurrent.waitLinked = s.waitLinked := by
  unfold requeueCurrent
  split_ifs <;> simp [setState]

lemma waitList_dispatch : s.dispatch.waitList = s.waitList := by
  unfold dispatch; split <;> rfl

lemma waitLinked_dispatch : s.dispatch.waitLinked = s.waitLinked := by
  unfold dispatch; split <;> rfl

@[simp] lemma waitList_switchToNext : s.switchToNext.waitList = s.waitList := by
  rw [switchToNext, waitList_dispatch, waitList_requeueCurrent]

@[simp] lemma waitLinked_switchToNext : s.switchToNext.waitLinked = s.waitLinked := by
  rw [switchToNext, waitLinked_dispatch, waitLinked_requeueCurrent]

/-! ## Sleepers -/

lemma sleepers_waitRemove {l : WaitList} (h : s.waitList .sleepers = []) :
    (s.waitRemove l t).waitList .sleepers = [] := by
  unfold waitRemove
  split_ifs
  · by_cases hl : l = .sleepers
    · simp [hl, h]
    · simp [Function.update_of_ne (Ne.symm hl), h]
  · exact h

lemma sleepers_waitEnter {q : ℕ} (h : s.waitList .sleepers = []) :
    (s.waitEnter q).waitList .sleepers = [] := by
  unfold waitEnter waitAppend
  split_ifs <;> simpa using h

lemma sleepers_unblock (h : s.waitList .sleepers = []) : (s.unblock t).waitList .sleepers = [] := by
  unfold unblock
  split_ifs
  · exact h
  · simpa [setState] using s.sleepers_waitRemove h
  · simpa [setState] using h

/-! ## Switching -/

lemma threadState_current_switchToNext :
    s.switchToNext.threadState s.switchToNext.current = .Running := by
  unfold switchToNext dispatch
  split <;> simp [setState]

lemma threadState_requeueCurrent (t : ℕ) : s.requeueCurrent.threadState t = s.threadState t ∨
      s.threadState t = .Running ∧ s.requeueCurrent.threadState t = .Ready := by
  unfold requeueCurrent
  split_ifs with hrun hidle
  · by_cases ht : t = s.current
    · exact .inr ⟨ht ▸ hrun, by simp [setState, ht]⟩
    · exact .inl (by simp [setState, ht])
  · by_cases ht : t = s.current
    · exact .inr ⟨ht ▸ hrun, by simp [setState, ht]⟩
    · exact .inl (by simp [setState, ht])
  · exact .inl rfl

lemma threadState_dispatch (t : ℕ) :
    s.dispatch.threadState t = s.threadState t ∨ t = s.dispatch.current := by
  unfold dispatch
  split
  · by_cases ht : t = IDLE
    · exact .inr ht
    · exact .inl (Function.update_of_ne ht ..)
  case h_2 next rest _ =>
    by_cases ht : t = next
    · exact .inr ht
    · exact .inl (Function.update_of_ne ht ..)

/-- A thread that is neither running nor ready after a switch was in that state before. -/
lemma threadState_of_switchToNext {state : ThreadState} (hrun : state ≠ .Running)
    (hready : state ≠ .Ready) (h : s.switchToNext.threadState t = state) :
    s.threadState t = state := by
  rcases threadState_dispatch s.requeueCurrent t with hsame | rfl
  · rcases threadState_requeueCurrent s t with hsame' | ⟨-, hready'⟩
    · rw [← hsame', ← hsame]
      exact h
    · exact absurd (h.symm.trans (hsame.trans hready')) hready
  · exact absurd (h.symm.trans (threadState_current_switchToNext s)) hrun

/-! ## Ticks -/

lemma onTimerTick_of_no_sleepers (hsleepers : s.waitList .sleepers = []) (now : ℕ)
    (expired : Bool) :
    s.onTimerTick now expired = s ∨ s.onTimerTick now expired = s.switchToNext := by
  have hwake : s.wakeSleepers now = s := by simp [wakeSleepers, hsleepers]
  simp only [onTimerTick, hwake]
  split_ifs
  · exact .inl rfl
  · exact .inl rfl
  · exact .inr rfl

/-! ## Unblocking -/

lemma threadState_unblock_self (t : ℕ) :
    (s.unblock t).threadState t = .Running ∨ (s.unblock t).threadState t = .Ready := by
  unfold unblock
  split_ifs with hready hsleeping
  · exact hready
  · exact .inr (by simp [setState])
  · exact .inr (by simp [setState])

lemma threadState_unblock_of_ne {u : ℕ} (hne : u ≠ t) :
    (s.unblock t).threadState u = s.threadState u := by
  unfold unblock
  split_ifs <;> simp [setState, hne]

@[simp] lemma current_unblock (t : ℕ) : (s.unblock t).current = s.current := by
  unfold unblock
  split_ifs <;> simp [setState]

lemma allThreads_unblock (t : ℕ) : (s.unblock t).allThreads = s.allThreads := by
  unfold unblock
  split_ifs <;> simp [setState]

lemma waitList_unblock (hsleeping : s.threadState t ≠ .Sleeping) :
    (s.unblock t).waitList = s.waitList ∧ (s.unblock t).waitLinked = s.waitLinked := by
  unfold unblock
  split_ifs <;> simp [setState]

/-! ## Thread numbers -/

/-- All threads on the CPU, on the run queue or on a list of waiters have numbers below `n`. -/
structure Below (s : Scheduler) (n : ℕ) : Prop where
  current : s.current < n
  runQueue : ∀ t ∈ s.runQueue, t < n
  waiters : ∀ l, ∀ t ∈ s.waitList l, t < n

variable {s} {n : ℕ}

section

variable (h : s.Below n)
include h

lemma Below.mono {m : ℕ} (hnm : n ≤ m) : s.Below m :=
  ⟨Nat.lt_of_lt_of_le h.current hnm, fun t ht => Nat.lt_of_lt_of_le (h.runQueue t ht) hnm,
    fun l t ht => Nat.lt_of_lt_of_le (h.waiters l t ht) hnm⟩

lemma Below.setState (t : ℕ) (state : ThreadState) : (s.setState t state).Below n :=
  ⟨h.current, h.runQueue, h.waiters⟩

lemma Below.runAppend (ht : t < n) : (s.runAppend t).Below n := by
  refine ⟨by simpa using h.current, fun u hu => ?_, by simpa using h.waiters⟩
  unfold Scheduler.runAppend at hu
  split_ifs at hu
  · exact h.runQueue u hu
  · rcases List.mem_append.mp hu with hu | hu
    · exact h.runQueue u hu
    · exact List.mem_singleton.mp hu ▸ ht

lemma Below.enqueue (ht : t < n) : (s.enqueue t).Below n := by
  have hlist : (if t ∈ s.allThreads then s
      else { s with allThreads := s.allThreads ++ [t] }).Below n := by
    split_ifs
    · exact h
    · exact ⟨h.current, h.runQueue, h.waiters⟩
  exact (hlist.setState t .Ready).runAppend ht

lemma Below.waitAppend (l : WaitList) (ht : t < n) : (s.waitAppend l t).Below n := by
  unfold Scheduler.waitAppend
  split_ifs
  · exact h
  · refine ⟨h.current, h.runQueue, fun k u hu => ?_⟩
    by_cases hk : k = l
    · subst hk
      simp only [Function.update_self, List.mem_append, List.mem_singleton] at hu
      rcases hu with hu | rfl
      · exact h.waiters k u hu
      · exact ht
    · exact h.waiters k u (by simpa [hk] using hu)

lemma Below.waitRemove (l : WaitList) (t : ℕ) : (s.waitRemove l t).Below n := by
  unfold Scheduler.waitRemove
  split_ifs
  · refine ⟨h.current, h.runQueue, fun k u hu => ?_⟩
    by_cases hk : k = l
    · subst hk
      exact h.waiters k u (List.mem_of_mem_erase (by simpa using hu))
    · exact h.waiters k u (by simpa [hk] using hu)
  · exact h

lemma Below.switchToNext : s.switchToNext.Below n := by
  have hrequeue : s.requeueCurrent.Below n := by
    unfold requeueCurrent
    split_ifs
    · exact h.setState _ _
    · exact (h.setState _ _).runAppend h.current
    · exact h
  unfold Scheduler.switchToNext dispatch
  split
  · exact ⟨Nat.zero_lt_of_lt h.current, fun t ht => hrequeue.runQueue t ht, hrequeue.waiters⟩
  case h_2 next rest hqueue =>
    refine ⟨hrequeue.runQueue next (by simp [hqueue]), fun t ht => ?_, hrequeue.waiters⟩
    exact hrequeue.runQueue t (by simp only [hqueue]; exact List.mem_cons_of_mem _ ht)

lemma Below.unblock (ht : t < n) : (s.unblock t).Below n := by
  unfold Scheduler.unblock
  split_ifs
  · exact h
  · exact ((h.waitRemove _ _).setState _ _).runAppend ht
  · exact (h.setState _ _).runAppend ht

lemma Below.exitCurrent : s.exitCurrent.Below n := by
  unfold Scheduler.exitCurrent
  split_ifs <;> exact ⟨h.current, h.runQueue, h.waiters⟩

end

end Scheduler
end ShitOs
