import ShitOs.Framework.Transition
import ShitOs.Construction.WaitQueue
import ShitOs.Properties.Scheduler

/-!
# Lost wake-ups

`wait` appends the thread to the queue's list in one section and marks it `Blocked` in another.
A waker that takes the thread off the list between the two calls `unblock` on a thread that is
still running, or ready because the timer has taken the CPU from it; `unblock` does nothing
there, and the thread then blocks on no list.  `wake_up_lost` is that run, for either call:
the generation `wait_since` compares closes the window before the append, not this one.

This is the only way.  Along every run in which no `unblock` reaches a thread between its append and
its state change (`UnblockReaches`), a thread that is blocked is on its queue's list or in the hand
of a waker (`Kept`), and so no thread is lost (`no_lost_wake_up`).
-/

namespace ShitOs

open Function (update)
open Scheduler
namespace WaitSetup

open Transition

variable {c : WaitSetup} {s s' : WakeSystem} {sched : Scheduler} {pc : WaiterPc} {q t w : ℕ}
  {rest : List ℕ}

/-- A waker has taken `t` off a list and is about to unblock it. -/
def InHand (s : WakeSystem) (t : ℕ) : Prop := ∃ w q, s.waker w = .unblock q t

/-- Thread `t` is on the list of the queue it waits on. -/
def Listed (c : WaitSetup) (sched : Scheduler) (t : ℕ) : Prop :=
  t ∈ sched.waitList (.queue (c.queueOf t))

/-- If the waker is about to unblock a thread, the thread is not about to block. -/
def Reaches (s : WakeSystem) : WakerPc → Prop
  | .unblock _ t => s.waiter t ≠ .block
  | _ => True

/-- **The side condition on a run.**  `unblock` is not called on a thread that has been appended
to its queue and has not blocked yet. -/
def UnblockReaches (s : WakeSystem) : WakeStep → Prop
  | .waker w => Reaches s (s.waker w)
  | _ => True

instance (s : WakeSystem) : ∀ pc, Decidable (Reaches s pc)
  | .unblock _ t => inferInstanceAs (Decidable (s.waiter t ≠ .block))
  | .idle | .bump _ | .take _ => .isTrue trivial

instance (s : WakeSystem) : ∀ a, Decidable (UnblockReaches s a)
  | .waker w => inferInstanceAs (Decidable (Reaches s (s.waker w)))
  | .tick _ _ | .waiter => .isTrue trivial

/-- The invariant: a thread that is blocked, or about to block, can be woken. -/
structure Kept (c : WaitSetup) (s : WakeSystem) : Prop where
  sleepers : s.sched.waitList .sleepers = []
  awake : ∀ t, s.sched.threadState t ≠ .Sleeping
  linked : ∀ t, s.sched.waitLinked t = true → c.Listed s.sched t
  blocked : ∀ t, s.sched.threadState t = .Blocked →
    s.waiter t = .yield ∨ s.waiter t = .detach ∧ t ≠ s.sched.current
  held : ∀ t, s.waiter t = .block ∨ s.sched.threadState t = .Blocked →
    c.Listed s.sched t ∨ InHand s t

lemma kept_initial (threads : List ℕ) : Kept c (c.initial threads) where
  sleepers := rfl
  awake t := by
    simp only [initial]
    split <;> simp
  linked t h := by simp [initial] at h
  blocked t h := by
    simp only [initial] at h
    split at h <;> simp at h
  held t h := by
    rcases h with h | h
    · simp only [initial, top] at h
      split at h <;> simp at h
    · simp only [initial] at h
      split at h <;> simp at h

/-! ## Ticks -/

section

variable (h : Kept c s)
include h

/-- A switch, with the thread that loses the CPU either where it was or past its `yield`. -/
lemma Kept.switchToNext {waiter : ℕ → WaiterPc}
    (hwaiter : ∀ t, waiter t = s.waiter t ∨ s.waiter t = .yield ∧ waiter t = .detach) :
    Kept c { s with sched := s.sched.switchToNext, waiter := waiter } where
  sleepers := by simpa using h.sleepers
  awake t ht := h.awake t (s.sched.threadState_of_switchToNext (by simp) (by simp) ht)
  linked t ht := by simpa [Listed] using h.linked t (by simpa using ht)
  blocked t ht := by
    have hcur : t ≠ s.sched.switchToNext.current := by
      rintro rfl
      exact absurd (ht.symm.trans s.sched.threadState_current_switchToNext) (by simp)
    have hpc := h.blocked t (s.sched.threadState_of_switchToNext (by simp) (by simp) ht)
    rcases hwaiter t with hsame | ⟨-, hdetach⟩
    · exact hpc.imp hsame.trans fun hd => ⟨hsame.trans hd.1, hcur⟩
    · exact .inr ⟨hdetach, hcur⟩
  held t ht := by
    have hbefore : s.waiter t = .block ∨ s.sched.threadState t = .Blocked := by
      refine ht.imp (fun hblock => ?_)
        (s.sched.threadState_of_switchToNext (by simp) (by simp))
      rcases hwaiter t with hsame | ⟨-, hdetach⟩
      · exact hsame.symm.trans hblock
      · exact absurd (hdetach.symm.trans hblock) (by simp)
    simpa [Listed, InHand] using h.held t hbefore

lemma kept_tick (now : ℕ) (expired : Bool) :
    Kept c { s with sched := s.sched.onTimerTick now expired } := by
  rcases s.sched.onTimerTick_of_no_sleepers h.sleepers now expired with htick | htick
  · rw [htick]
    exact h
  · rw [htick]
    exact h.switchToNext fun t => .inl rfl

/-! ## Waiters -/

/-- A step of the current thread that changes no state and takes nobody else off a list. -/
lemma Kept.goTo (hstate : sched.threadState = s.sched.threadState)
    (hcur : sched.current = s.sched.current)
    (hsleepers : sched.waitList .sleepers = s.sched.waitList .sleepers)
    (hlink : ∀ t, sched.waitLinked t = true → c.Listed sched t)
    (hlist : ∀ t, t ≠ s.sched.current → c.Listed s.sched t → c.Listed sched t)
    (hrunnable : s.sched.threadState s.sched.current ≠ .Blocked)
    (hpc : pc ≠ .block ∨ c.Listed sched s.sched.current) : Kept c (goTo s sched pc) where
  sleepers := hsleepers.trans h.sleepers
  awake t := by simpa [WaitSetup.goTo, hstate] using h.awake t
  linked := hlink
  blocked t ht := by
    replace ht : s.sched.threadState t = .Blocked := hstate ▸ ht
    have hne : t ≠ s.sched.current := fun heq => hrunnable (heq ▸ ht)
    simpa [WaitSetup.goTo, hne, hcur] using h.blocked t ht
  held t ht := by
    by_cases heq : t = s.sched.current
    · subst heq
      rcases ht with ht | ht
      · have hblock : pc = .block := by simpa [WaitSetup.goTo] using ht
        exact .inl (hpc.resolve_left (not_not_intro hblock))
      · exact absurd (hstate ▸ ht) hrunnable
    · have hbefore : s.waiter t = .block ∨ s.sched.threadState t = .Blocked := by
        simpa [WaitSetup.goTo, heq, hstate] using ht
      exact (h.held t hbefore).imp_left (hlist t heq)

section

variable (h : Kept c s) (hrunnable : s.sched.threadState s.sched.current ≠ .Blocked)
include h hrunnable

lemma Kept.goTo_same (hpc : pc ≠ .block) : Kept c (WaitSetup.goTo s s.sched pc) :=
  h.goTo rfl rfl rfl h.linked (fun _ _ => id) hrunnable (.inl hpc)

lemma Kept.append : Kept c (WaitSetup.goTo s
      (s.sched.waitAppend (.queue (c.queueOf s.sched.current)) s.sched.current) .block) := by
  by_cases hlink : s.sched.waitLinked s.sched.current = true
  · rw [waitAppend, if_pos hlink]
    exact h.goTo rfl rfl rfl h.linked (fun _ _ => id) hrunnable (.inr (h.linked _ hlink))
  · have hgrows : ∀ t, c.Listed s.sched t → c.Listed
        (s.sched.waitAppend (.queue (c.queueOf s.sched.current)) s.sched.current) t := by
      intro t ht
      by_cases hq : c.queueOf t = c.queueOf s.sched.current
      · simpa [Listed, waitAppend, hlink, hq] using .inl (hq ▸ ht)
      · simpa [Listed, waitAppend, hlink, hq] using ht
    have hself : c.Listed
        (s.sched.waitAppend (.queue (c.queueOf s.sched.current)) s.sched.current)
        s.sched.current := by
      simp [Listed, waitAppend, hlink]
    refine h.goTo (by simp) (by simp) ?_ ?_ (fun t _ => hgrows t) hrunnable (.inr hself)
    · simp [waitAppend, hlink]
    · intro t ht
      by_cases heq : t = s.sched.current
      · exact heq ▸ hself
      · exact hgrows t (h.linked t (by simpa [waitAppend, hlink, heq] using ht))

lemma Kept.detach (hpc : pc ≠ .block) :
    Kept c (WaitSetup.goTo s (s.sched.detachSelf (c.queueOf s.sched.current)) pc) := by
  rw [detachSelf]
  by_cases hlink : s.sched.waitLinked s.sched.current = true
  · have hothers : ∀ t, t ≠ s.sched.current → c.Listed s.sched t → c.Listed
        (s.sched.waitRemove (.queue (c.queueOf s.sched.current)) s.sched.current) t := by
      intro t hne ht
      by_cases hq : c.queueOf t = c.queueOf s.sched.current
      · simpa [Listed, waitRemove, hlink, hq] using
          (List.mem_erase_of_ne hne).mpr (hq ▸ ht)
      · simpa [Listed, waitRemove, hlink, hq] using ht
    refine h.goTo (by simp) (by simp) ?_ ?_ hothers hrunnable (.inl hpc)
    · simp [waitRemove, hlink]
    · intro t ht
      by_cases heq : t = s.sched.current
      · simp [waitRemove, hlink, heq] at ht
      · exact hothers t heq (h.linked t (by simpa [waitRemove, hlink, heq] using ht))
  · rw [waitRemove, if_neg hlink]
    exact h.goTo_same hrunnable hpc

end

lemma Kept.block (hpc : s.waiter s.sched.current = .block) :
    Kept c (WaitSetup.goTo s (s.sched.blockCurrent .Blocked) .yield) where
  sleepers := h.sleepers
  awake t := by
    by_cases heq : t = s.sched.current
    · simp [WaitSetup.goTo, blockCurrent, setState, heq]
    · simpa [WaitSetup.goTo, blockCurrent, setState, heq] using h.awake t
  linked := h.linked
  blocked t ht := by
    by_cases heq : t = s.sched.current
    · exact .inl (by simp [WaitSetup.goTo, heq])
    · replace ht : s.sched.threadState t = .Blocked := by
        simpa [WaitSetup.goTo, blockCurrent, setState, heq] using ht
      simpa [WaitSetup.goTo, blockCurrent, setState, heq] using h.blocked t ht
  held t ht := by
    by_cases heq : t = s.sched.current
    · exact heq ▸ h.held s.sched.current (.inl hpc)
    · exact h.held t (by
        simpa [WaitSetup.goTo, blockCurrent, setState, heq] using ht)

omit h in
lemma top_ne_block (t : ℕ) : c.top t ≠ .block := by
  unfold top
  split <;> simp

lemma kept_waiterStep (hstep : c.waiterStep s = some s') : Kept c s' := by
  -- Only a thread at its `yield` has the CPU and is blocked.
  have hrunnable : s.waiter s.sched.current ≠ .yield →
      s.sched.threadState s.sched.current ≠ .Blocked := fun hpc hblock =>
    (h.blocked _ hblock).elim hpc fun hd => hd.2 rfl
  by_cases hidle : s.sched.current = IDLE
  · simp [waiterStep, hidle] at hstep
  rw [waiterStep, if_neg hidle] at hstep
  cases hpc : s.waiter s.sched.current with
  | readGeneration =>
    simp only [hpc, Option.some.injEq] at hstep
    subst hstep
    exact h.goTo_same (hrunnable (by simp [hpc])) (by simp)
  | test seen =>
    simp only [hpc, Option.some.injEq] at hstep
    subst hstep
    refine h.goTo_same (hrunnable (by simp [hpc])) ?_
    split_ifs <;> simp
  | enter seen =>
    simp only [hpc] at hstep
    split at hstep
    · cases hstep
      exact h.append (hrunnable (by simp [hpc]))
    · split at hstep
      · cases hstep
        exact h.goTo_same (hrunnable (by simp [hpc])) (top_ne_block _)
      · rename_i sched hsince
        cases hstep
        simp only [waitSinceEnter] at hsince
        split_ifs at hsince
        cases hsince
        exact h.append (hrunnable (by simp [hpc]))
  | block =>
    simp only [hpc, Option.some.injEq] at hstep
    subst hstep
    exact h.block hpc
  | yield =>
    simp only [hpc, Option.some.injEq] at hstep
    subst hstep
    refine h.switchToNext fun t => ?_
    by_cases heq : t = s.sched.current
    · exact .inr ⟨heq ▸ hpc, by simp [heq]⟩
    · exact .inl (by simp [heq])
  | detach =>
    simp only [hpc, Option.some.injEq] at hstep
    subst hstep
    exact h.detach (hrunnable (by simp [hpc])) (top_ne_block _)
  | leave => simp [hpc] at hstep

/-! ## Wakers -/

lemma Kept.waker {cond : Bool} {pc : WakerPc}
    (hfree : ∀ q t, s.waker w ≠ .unblock q t) (hstate : sched.threadState = s.sched.threadState)
    (hcur : sched.current = s.sched.current) (hlist : sched.waitList = s.sched.waitList)
    (hlink : sched.waitLinked = s.sched.waitLinked) :
    Kept c { s with sched := sched, cond := cond, waker := update s.waker w pc } where
  sleepers := hlist ▸ h.sleepers
  awake t := hstate ▸ h.awake t
  linked t ht := by simpa [Listed, hlist] using h.linked t (hlink ▸ ht)
  blocked t ht := by simpa [hcur] using h.blocked t (hstate ▸ ht)
  held t ht := by
    rcases h.held t (by simpa [hstate] using ht) with hlisted | ⟨v, q, hv⟩
    · exact .inl (by simpa [Listed, hlist] using hlisted)
    · have hne : v ≠ w := fun heq => hfree q t (heq ▸ hv)
      exact .inr ⟨v, q, by simp [hne, hv]⟩

omit h in
lemma Listed.of_take {u : ℕ} {linked : ℕ → Bool}
    (hlist : sched.waitList (.queue q) = t :: rest) (hne : u ≠ t) (h : c.Listed sched u) :
    c.Listed { sched with
      waitList := update sched.waitList (.queue q) rest
      waitLinked := linked } u := by
  by_cases hq : c.queueOf u = q
  · have hmem : u ∈ t :: rest := hlist ▸ hq ▸ h
    simpa [Listed, hq] using (List.mem_cons.mp hmem).resolve_left hne
  · simpa [Listed, hq] using h

lemma Kept.take (hpc : s.waker w = .take q) (hlist : s.sched.waitList (.queue q) = t :: rest) :
    Kept c { s with
      sched := { s.sched with
        waitList := update s.sched.waitList (.queue q) rest
        waitLinked := update s.sched.waitLinked t false }
      waker := update s.waker w (.unblock q t) } where
  sleepers := by simpa using h.sleepers
  awake := h.awake
  linked u hu := by
    by_cases hut : u = t
    · simp [hut] at hu
    · exact (h.linked u (by simpa [hut] using hu)).of_take hlist hut
  blocked := h.blocked
  held u hu := by
    by_cases hut : u = t
    · exact .inr ⟨w, q, by simp [hut]⟩
    · rcases h.held u hu with hlisted | ⟨v, q', hv⟩
      · exact .inl (hlisted.of_take hlist hut)
      · have hne : v ≠ w := by
          rintro rfl
          simp [hpc] at hv
        exact .inr ⟨v, q', by simp [hne, hv]⟩

/-- The waker unblocks the thread it has in hand, which is not about to block. -/
lemma Kept.unblock (hpc : s.waker w = .unblock q t) (hreaches : s.waiter t ≠ .block) :
    Kept c { s with
      sched := s.sched.unblock t
      waker := update s.waker w (.take q) } := by
  obtain ⟨hlist, hlink⟩ := s.sched.waitList_unblock (h.awake t)
  have hblock : ∀ u, (s.sched.unblock t).threadState u = .Blocked →
      u ≠ t ∧ s.sched.threadState u = .Blocked := by
    intro u hu
    have hne : u ≠ t := by
      rintro rfl
      rcases s.sched.threadState_unblock_self u with h' | h' <;> simp [h'] at hu
    exact ⟨hne, s.sched.threadState_unblock_of_ne hne ▸ hu⟩
  refine ⟨hlist ▸ h.sleepers, fun u hu => ?_, fun u hu => ?_, fun u hu => ?_, fun u hu => ?_⟩
  · by_cases hut : u = t
    · subst hut
      rcases s.sched.threadState_unblock_self u with h' | h' <;> simp [h'] at hu
    · exact h.awake u (s.sched.threadState_unblock_of_ne hut ▸ hu)
  · simpa [Listed, hlist] using h.linked u (hlink ▸ hu)
  · simpa using h.blocked u (hblock u hu).2
  · have hut : u ≠ t := by
      rcases hu with hu | hu
      · rintro rfl
        exact hreaches hu
      · exact (hblock u hu).1
    rcases h.held u (hu.imp_right fun hu => (hblock u hu).2) with hlisted | ⟨v, q', hv⟩
    · exact .inl (by simpa [Listed, hlist] using hlisted)
    · have hne : v ≠ w := by
        rintro rfl
        rw [hpc] at hv
        injection hv with _ hv
        exact hut hv.symm
      exact .inr ⟨v, q', by simp [hne, hv]⟩

lemma kept_wakerStep (hreaches : UnblockReaches s (.waker w)) : Kept c (c.wakerStep s w) := by
  rw [wakerStep]
  cases hpc : s.waker w with
  | idle => exact h.waker (by simp [hpc]) rfl rfl rfl rfl
  | bump q => exact h.waker (by simp [hpc]) rfl rfl rfl rfl
  | take q =>
    cases hlist : s.sched.waitList (.queue q) with
    | nil =>
      simp only [waitTakeFirst, hlist]
      exact h.waker (by simp [hpc]) rfl rfl rfl rfl
    | cons t rest =>
      simp only [waitTakeFirst, hlist]
      exact h.take hpc hlist
  | unblock q t => exact h.unblock hpc (by simpa [UnblockReaches, hpc, Reaches] using hreaches)

lemma kept_step {a : WakeStep} (hreaches : UnblockReaches s a) (hstep : c.step s a = some s') :
    Kept c s' := by
  cases a with
  | tick now expired =>
    cases hstep
    exact kept_tick h now expired
  | waiter => exact kept_waiterStep h hstep
  | waker w =>
    cases hstep
    exact kept_wakerStep h hreaches

end

/-! ## No lost wake-up -/

/-- Along every run whose `unblock`s all reach their thread, nobody is lost, whichever of the two
calls the threads wait by. -/
theorem no_lost_wake_up (c : WaitSetup) (threads : List ℕ) (as : List WakeStep) (s : WakeSystem)
    (hrun : run c.step (c.initial threads) as = some s)
    (hreaches : Along c.step UnblockReaches (c.initial threads) as) (t : ℕ) : ¬ c.Lost s t := by
  have hkept : Kept c s := run_invariant (fun _ _ _ h hC hstep => kept_step h hC hstep) as _ s
    (kept_initial threads) hreaches hrun
  rintro ⟨-, hquiet, hblocked, hlists, -⟩
  rcases hkept.held t (.inr hblocked) with hlisted | ⟨w, q, hw⟩
  · exact hlists _ hlisted
  · exact hquiet w (by simp [hw, inWakeAll])

/-- Thread 1 waits on queue 1 by `call`, and the wakers wake that queue. -/
def oneWaiter (call : WaitCall) : WaitSetup := ⟨fun _ => 1, fun _ => call, 1⟩

/-- Waker 0 raises the condition and goes through `wake_all`, which finds one thread listed. -/
def wakeOnce : List WakeStep := List.replicate 7 (.waker 0)

/-- A thread that tests, waits and is woken after it has blocked: the side condition holds. -/
theorem no_lost_wake_up_after_block :
    ∃ s, run (oneWaiter .wait).step ((oneWaiter .wait).initial [1])
        ([.tick 0 true, .waiter, .waiter, .waiter, .waiter] ++ wakeOnce) = some s ∧
      s.cond = true ∧ ¬ (oneWaiter .wait).Lost s 1 := by
  exact ⟨_, rfl, rfl, no_lost_wake_up (oneWaiter .wait) [1]
    ([.tick 0 true, .waiter, .waiter, .waiter, .waiter] ++ wakeOnce) _ rfl (by decide) 1⟩

/-- A wake-up that comes between the append and the state change is lost, for either call. -/
theorem wake_up_lost :
    (∃ s, run (oneWaiter .wait).step ((oneWaiter .wait).initial [1])
        ([.tick 0 true, .waiter, .waiter] ++ wakeOnce ++ [.waiter, .waiter]) = some s ∧
      (oneWaiter .wait).Lost s 1) ∧
    ∃ s, run (oneWaiter .waitSince).step ((oneWaiter .waitSince).initial [1])
        ([.tick 0 true, .waiter, .waiter, .waiter] ++ wakeOnce ++ [.waiter, .waiter]) = some s ∧
      (oneWaiter .waitSince).Lost s 1 := by
  refine ⟨⟨_, rfl, rfl, fun w => ?_, rfl, fun q => ?_, ?_⟩,
    ⟨_, rfl, rfl, fun w => ?_, rfl, fun q => ?_, ?_⟩⟩
  · match w with
    | 0 => exact id
    | w + 1 => exact id
  · match q with
    | 0 => exact List.not_mem_nil
    | 1 => exact List.not_mem_nil
    | q + 2 => exact List.not_mem_nil
  · decide
  · match w with
    | 0 => exact id
    | w + 1 => exact id
  · match q with
    | 0 => exact List.not_mem_nil
    | 1 => exact List.not_mem_nil
    | q + 2 => exact List.not_mem_nil
  · decide

end WaitSetup
end ShitOs
