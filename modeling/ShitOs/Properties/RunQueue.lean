import ShitOs.Construction.ThreadSystem
import ShitOs.Framework.Transition

/-!
# Nobody is overtaken on the run queue

A section adds threads to the run queue only at its end, and takes one off it only to give it the
CPU (`step_runQueue`).  So a thread on the queue comes to run after at most as many switches as
there are threads before it, whatever the other threads, the wakers and the timer do in between:
`ready_thread_runs`.
-/

namespace ShitOs

namespace Scheduler

variable {s : Scheduler} {t : ℕ}

lemma prefix_runAppend : s.runQueue <+: (s.runAppend t).runQueue := by
  unfold runAppend
  split_ifs
  · exact List.prefix_refl _
  · exact List.prefix_append ..

lemma runQueue_waitRemove (l : WaitList) : (s.waitRemove l t).runQueue = s.runQueue := by
  unfold waitRemove
  split_ifs <;> rfl

lemma runQueue_waitAppend (l : WaitList) : (s.waitAppend l t).runQueue = s.runQueue := by
  unfold waitAppend
  split_ifs <;> rfl

/-- A thread that becomes ready goes to the end. -/
lemma prefix_ready {s' : Scheduler} (h : s'.runQueue = s.runQueue) :
    s.runQueue <+: ((s'.setState t .Ready).runAppend t).runQueue := by
  rw [← h]
  exact prefix_runAppend (s := s'.setState t .Ready)

lemma prefix_unblock : s.runQueue <+: (s.unblock t).runQueue := by
  unfold unblock
  split_ifs
  · exact List.prefix_refl _
  · exact prefix_ready (runQueue_waitRemove _)
  · exact prefix_ready rfl

lemma prefix_enqueue : s.runQueue <+: (s.enqueue t).runQueue := by
  unfold enqueue
  split_ifs <;> exact prefix_ready rfl

lemma prefix_wakeSleepers (s : Scheduler) (now : ℕ) :
    s.runQueue <+: (s.wakeSleepers now).runQueue ∧ (s.wakeSleepers now).current = s.current := by
  unfold wakeSleepers
  generalize s.waitList .sleepers = sleepers
  induction sleepers generalizing s with
  | nil => exact ⟨List.prefix_refl _, rfl⟩
  | cons t sleepers ih =>
    obtain ⟨hfirst, hcurrent⟩ := ih (if s.wakeAt t ≤ now then
      ((s.waitRemove .sleepers t).setState t .Ready).runAppend t else s)
    refine ⟨List.IsPrefix.trans ?_ hfirst, hcurrent.trans ?_⟩
    · split_ifs
      · exact prefix_ready (runQueue_waitRemove _)
      · exact List.prefix_refl _
    · unfold runAppend setState waitRemove
      split_ifs <;> rfl

/-- A switch puts the thread that was running at the end, and takes off the first. -/
lemma prefix_switchToNext : s.runQueue <+: s.switchToNext.current :: s.switchToNext.runQueue := by
  have hrequeue : s.runQueue <+: s.requeueCurrent.runQueue := by
    unfold requeueCurrent
    split_ifs
    · exact List.prefix_refl _
    · exact prefix_ready rfl
    · exact List.prefix_refl _
  refine hrequeue.trans ?_
  unfold switchToNext dispatch
  split
  · next hempty => simp [hempty]
  · next hqueue => simp [hqueue]

end Scheduler

namespace ThreadSystem

open Scheduler

variable {s s' : ThreadSystem} {a : ThreadStep} {t : ℕ}

/-- The CPU is given up: by `yield`, at the end of a quantum, or by the idle thread at a tick if
another one waits. -/
def givesWay (s : ThreadSystem) : ThreadStep → Bool
  | .yield => true
  | .tick _ expired => expired || (s.sched.current == IDLE && !s.sched.runQueue.isEmpty)
  | _ => false

/-- How often the CPU is given up in a run. -/
def switches : ThreadSystem → List ThreadStep → ℕ
  | _, [] => 0
  | s, a :: as => (if s.givesWay a then 1 else 0) + ((s.step a).map (switches · as)).getD 0

/-- What a section does to the run queue: it appends, and it takes off the first thread, if any,
only to run it. -/
lemma step_runQueue (h : s.step a = some s') :
    s.givesWay a = false ∧ s.sched.runQueue <+: s'.sched.runQueue ∨
      s.sched.runQueue <+: s'.sched.current :: s'.sched.runQueue := by
  cases a with
  | tick now expired =>
    obtain rfl := Option.some.inj h
    obtain ⟨hwake, hcurrent⟩ := s.sched.prefix_wakeSleepers now
    dsimp only [onTimerTick]
    split_ifs with hstay hempty
    · refine .inl ⟨?_, hwake⟩
      simp only [hcurrent, Bool.and_eq_true, Bool.not_eq_true', Bool.and_eq_false_iff] at hstay
      obtain ⟨hquantum, hidle | hempty⟩ := hstay
      · simp [givesWay, hquantum, hidle]
      · have hnil : (s.sched.wakeSleepers now).runQueue = [] := by simpa using hempty
        rw [hnil, List.prefix_nil] at hwake
        simp [givesWay, hquantum, hwake]
    · simp at hempty
      rw [hempty.1, List.prefix_nil] at hwake
      simp [hwake]
    · exact .inr (hwake.trans prefix_switchToNext)
  | yield =>
    simp only [step] at h
    split_ifs at h
    obtain ⟨pc, -, rfl⟩ := Option.map_eq_some_iff.mp h
    exact .inr prefix_switchToNext
  | enqueue t =>
    simp only [step] at h
    split_ifs at h
    obtain rfl := Option.some.inj h
    exact .inl ⟨rfl, prefix_enqueue⟩
  | deliver w =>
    simp only [step] at h
    split at h
    · cases h
    · obtain rfl := Option.some.inj h
      exact .inl ⟨rfl, prefix_unblock⟩
  | _ =>
    -- the other sections leave the run queue as it is
    suffices hsame : s'.sched.runQueue = s.sched.runQueue by simp [hsame, givesWay]
    grind [step, goTo, waitEnter, waitSinceEnter, runQueue_waitAppend, runQueue_waitRemove,
      blockCurrent, setState, sleepUntil, exitCurrent, detachSelf, takeZombie, waitTakeFirst,
      bumpGeneration]

/-- In one section a thread on the queue is given the CPU, or stays behind threads that were before
it; one fewer, if the CPU is given up. -/
lemma step_position {before after : List ℕ} (h : s.step a = some s')
    (hqueue : s.sched.runQueue = before ++ t :: after) :
    s'.sched.current = t ∨ ∃ before' after', s'.sched.runQueue = before' ++ t :: after' ∧
      before' <:+ before ∧ before'.length + (if s.givesWay a then 1 else 0) ≤ before.length := by
  rcases step_runQueue h with ⟨hway, new, hnew⟩ | ⟨new, hnew⟩
  · exact .inr ⟨before, after ++ new, by rw [← hnew, hqueue]; simp, List.suffix_refl _,
      by simp [hway]⟩
  · rw [hqueue] at hnew
    cases before with
    | nil => exact .inl (List.cons.inj hnew).1.symm
    | cons b before =>
      refine .inr ⟨before, after ++ new, ?_, List.suffix_cons .., by split_ifs <;> simp⟩
      simpa using (List.cons.inj hnew).2.symm

/-- **A thread on the run queue comes to run** after at most as many switches as there are threads
before it.  Until then it stays on the queue, and no other thread comes before it. -/
theorem ready_thread_runs {before after : List ℕ} {as : List ThreadStep}
    (hrun : Transition.run step s as = some s') (hqueue : s.sched.runQueue = before ++ t :: after) :
    (∃ as₁ a as₂ m, as = as₁ ++ a :: as₂ ∧ Transition.run step s (as₁ ++ [a]) = some m ∧
      m.sched.current = t) ∨
    ∃ before' after', s'.sched.runQueue = before' ++ t :: after' ∧ before' <:+ before ∧
      before'.length + switches s as ≤ before.length := by
  induction as generalizing s before after with
  | nil =>
    obtain rfl : s = s' := by simpa using hrun
    exact .inr ⟨before, after, hqueue, List.suffix_refl _, Nat.le_refl _⟩
  | cons a as ih =>
    obtain ⟨m, hstep, hrest⟩ := Transition.run_cons.mp hrun
    rcases step_position hstep hqueue with hcur | ⟨before₁, after₁, hqueue₁, hsuffix₁, hlen₁⟩
    · exact .inl ⟨[], a, as, m, rfl, by simp [Transition.run, hstep], hcur⟩
    rcases ih hrest hqueue₁ with ⟨as₁, b, as₂, u, rfl, hu, hcur⟩ |
      ⟨before₂, after₂, hqueue₂, hsuffix₂, hlen₂⟩
    · exact .inl ⟨a :: as₁, b, as₂, u, rfl, by simpa [Transition.run, hstep] using hu, hcur⟩
    · refine .inr ⟨before₂, after₂, hqueue₂, hsuffix₂.trans hsuffix₁, ?_⟩
      rw [switches, hstep, Option.map_some, Option.getD_some]
      omega

/-- A second thread has been made. -/
def twoThreads : ThreadSystem := { initial 1 with sched := (initial 1).sched.enqueue 2 }

/-- It runs once the first gives up the CPU. -/
theorem ready_thread_runs_second : ∃ as₁ a as₂ m, [ThreadStep.yield] = as₁ ++ a :: as₂ ∧
    Transition.run step twoThreads (as₁ ++ [a]) = some m ∧ m.sched.current = 2 := by
  have hrun : ∃ s', Transition.run step twoThreads [.yield] = some s' := ⟨_, rfl⟩
  obtain ⟨s', hs'⟩ := hrun
  rcases ready_thread_runs (t := 2) hs' (show _ = [] ++ 2 :: [] from rfl) with
    hruns | ⟨before, after, -, -, hlen⟩
  · exact hruns
  · simp [switches, givesWay] at hlen

end ThreadSystem
end ShitOs
