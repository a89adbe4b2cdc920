import ShitOs.Framework.Transition
import ShitOs.Construction.Process
import ShitOs.Properties.Scheduler

/-!
# The table of processes and their threads

What holds in every run of `ProcessSystem`, whatever is freed too early in it: numbers of
processes and threads are handed out once; a process that is being made by `fork` is known to one
thread only and has no thread of its own; and only processes that have exited are about to be
reaped (`Tidy`).
-/

namespace ShitOs

open List (mem_append mem_cons mem_cons_of_mem mem_cons_self)
open Process
namespace ProcessSystem

open Function Transition

variable {s s' : ProcessSystem} {choice : Bool} {a b : KernelAction} {rest next : List KernelAction}
  {p t : ℕ} {child process : Process} {sched : Scheduler} {actions : List KernelAction}

/-! ## What an action may do -/

/-- What an action does to the state, by the part that changes. -/
inductive Effect (s : ProcessSystem) : KernelAction → ProcessSystem → Prop
  | same (a : KernelAction) : Effect s a s
  | createChild : Effect s .createChild
      { s.setProcess s.nextProcess (childOf (s.process s.self) s.nextPid) with
        nextProcess := s.nextProcess + 1
        nextPid := s.nextPid + 1
        destroyed := update s.destroyed s.nextProcess false }
  | appendChild (p : ℕ) : Effect s (.appendChild p)
      { s with processes := if p ∈ s.processes then s.processes else s.processes ++ [p] }
  | startChild (p : ℕ) : Effect s (.startChild p) (s.addThread p)
  | setExited :
      Effect s .setExited (s.setProcess s.self { s.process s.self with hasExited := true })
  | reparent : Effect s .reparent
      { s with
        process := fun p =>
          if p ∈ s.processes ∧ (s.process p).parentPid = (s.process s.self).pid then
            { s.process p with parentPid := 1 }
          else s.process p }
  /-- Flags and pending signals; `m_is_stopped` only in `stop` and `resume`. -/
  | mark {a : KernelAction} (p : ℕ) (stopped stops continues : Bool) (pending : U64)
      (hstopped : stopped = (s.process p).isStopped ∨ a = .resume p ∨ a = .setStopped) :
      Effect s a (s.setProcess p { s.process p with
        isStopped := stopped, stopPending := stops, continuePending := continues,
        pendingSignals := pending })
  | wake {a : KernelAction} (t : ℕ)
      (ha : a = .unblock t ∨ ∃ p, a = .resumeThread p ∧ (s.process p).mainThread = some t) :
      Effect s a { s with sched := s.sched.unblock t }
  | bump (q : ℕ) : Effect s (.bump q) { s with sched := s.sched.bumpGeneration q }
  | take (q t : ℕ) (rest : List ℕ) (hlist : s.sched.waitList (.queue q) = t :: rest) :
      Effect s (.take q) { s with sched := { s.sched with
        waitList := update s.sched.waitList (.queue q) rest
        waitLinked := update s.sched.waitLinked t false } }
  | remove (p : ℕ) : Effect s (.remove p) { s with processes := s.processes.erase p }
  | destroy (p : ℕ) : Effect s (.destroy p) { s with destroyed := update s.destroyed p true }
  | waitEnter (q : ℕ) : Effect s (.waitEnter q) { s with sched := s.sched.waitEnter q }
  | block (reason : ThreadState) :
      Effect s (.block reason) { s with sched := s.sched.blockCurrent reason }
  | yield : Effect s .yield { s with sched := s.sched.switchToNext }
  | detach (q : ℕ) : Effect s (.detach q) { s with sched := s.sched.detachSelf q }
  | broadcast {s' : ProcessSystem} (signal : ℕ)
      (hfold : s.processes.foldlM (broadcastTo signal (s.process s.self).pid) s = some s') :
      Effect s (.broadcast signal) s'
  | setGroup (p : ℕ) (pgid : ℤ) : Effect s (.setGroup p pgid)
      (s.setProcess p { s.process p with pgid := pgid })
  | startSession : Effect s .startSession
      (s.setProcess s.self { s.process s.self with sid := (s.process s.self).pid })
  | exitCurrent : Effect s .exitCurrent { s with sched := s.sched.exitCurrent }
  | freeThread (t : ℕ) : Effect s (.freeThread t) { s with freed := update s.freed t true }

lemma exec_effect (h : s.exec choice a = some (s', next)) : Effect s a s' := by
  cases a with
  | createChild | startChild =>
    cases choice <;> cases h <;> constructor
  | panicZombie => simp [exec] at h
  | notifyParent | lookup | checkGroup =>
    simp only [exec] at h
    split at h <;> cases h <;> exact .same _
  | raise | resume | report =>
    simp only [exec] at h
    split_ifs at h <;> cases h
    all_goals first | exact .same _ | exact .mark _ _ _ _ _ (by simp)
  | setStopped => exact (Prod.mk.inj (Option.some.inj h)).1 ▸ .mark _ _ _ _ _ (.inr (.inr rfl))
  | resumeThread p =>
    cases hmain : (s.process p).mainThread <;>
      simp only [exec, hmain, Option.some.injEq, Prod.mk.injEq] at h <;> obtain ⟨rfl, -⟩ := h
    exacts [.same _, .wake _ (.inr ⟨p, rfl, hmain⟩)]
  | unblock t => exact (Prod.mk.inj (Option.some.inj h)).1 ▸ .wake t (.inl rfl)
  | take q =>
    cases hlist : s.sched.waitList (.queue q) <;>
      simp only [exec, Scheduler.waitTakeFirst, hlist, Option.some.injEq, Prod.mk.injEq] at h <;>
      obtain ⟨rfl, -⟩ := h
    exacts [.same _, .take q _ _ hlist]
  | broadcast signal =>
    simp only [exec, Option.map_eq_some_iff, Prod.mk.injEq] at h
    obtain ⟨s₁, hfold, rfl, -⟩ := h
    exact .broadcast signal hfold
  | findTarget =>
    simp only [exec] at h
    split at h
    · cases h
      exact .same _
    · split at h <;> cases h <;> exact .same _
  | startSession =>
    simp only [exec] at h
    split_ifs at h <;> cases h
    exacts [.same _, .startSession]
  | _ =>
    cases h
    constructor

/-- `kill(-1)` is made of two kinds of changes: a signal is recorded, and a thread that has been
seen blocked is unblocked. -/
lemma broadcast_induction {R : ProcessSystem → ProcessSystem → Prop} (hrefl : ∀ s, R s s)
    (htrans : ∀ {s₁ s₂ s₃}, R s₁ s₂ → R s₂ s₃ → R s₁ s₃) {signal : ℕ} {caller : ℤ} :
    ∀ {ps : List ℕ} {s s' : ProcessSystem},
      (∀ s, ∀ p ∈ ps, R s (s.setProcess p ((s.process p).record signal))) →
      (∀ s, ∀ p ∈ ps, ∀ t, (s.process p).mainThread = some t →
        s.sched.threadState t = .Blocked ∨ s.sched.threadState t = .Sleeping →
        R s { s with sched := s.sched.unblock t }) →
      ps.foldlM (broadcastTo signal caller) s = some s' → R s s'
  | [], s, s', _, _, h => by
    obtain rfl : s = s' := by simpa using h
    exact hrefl s
  | p :: ps, s, s', hrecord, hwake, h => by
    rw [List.foldlM_cons, Option.bind_eq_bind, Option.bind_eq_some_iff] at h
    obtain ⟨s₁, hone, hrest⟩ := h
    refine htrans ?_ (broadcast_induction hrefl htrans
      (fun s q hq => hrecord s q (mem_cons_of_mem p hq))
      (fun s q hq => hwake s q (mem_cons_of_mem p hq)) hrest)
    unfold broadcastTo raiseLocked afterRaise at hone
    split_ifs at hone
    · exact Option.some.inj hone ▸ hrefl s
    · exact Option.some.inj hone ▸ hrefl s
    have hrec := hrecord s p mem_cons_self
    dsimp only at hone
    split_ifs at hone
    cases hmain : ((s.setProcess p ((s.process p).record signal)).process p).mainThread <;>
      simp only [hmain] at hone
    · exact Option.some.inj hone ▸ hrec
    · split_ifs at hone with hstate <;> cases hone
      · exact htrans hrec (hwake _ p mem_cons_self _ hmain hstate)
      · exact hrec

/-! ## What most actions leave alone -/

/-- The child an action of `fork` is about. -/
def builds : KernelAction → Option ℕ
  | .appendChild p | .startChild p => some p
  | _ => none

/-- The child an action of `waitpid` is about to take away. -/
def reaps : KernelAction → Option ℕ
  | .remove p | .destroy p => some p
  | _ => none

/-- The thread an action of the idle loop frees. -/
def frees : KernelAction → Option ℕ
  | .freeThread t => some t
  | _ => none

/-- What all actions but four do to the table: processes may leave the list. -/
structure Frame (s s' : ProcessSystem) : Prop where
  processes : ∀ p ∈ s'.processes, p ∈ s.processes
  mainThread : ∀ p, (s'.process p).mainThread = (s.process p).mainThread
  hasExited : ∀ p, (s'.process p).hasExited = (s.process p).hasExited
  nextProcess : s'.nextProcess = s.nextProcess
  nextThread : s'.nextThread = s.nextThread
  processOf : s'.processOf = s.processOf
  todo : s'.todo = s.todo
  sleepers : s.sched.waitList .sleepers = [] → s'.sched.waitList .sleepers = []

lemma Frame.refl (s : ProcessSystem) : Frame s s :=
  ⟨fun _ => id, fun _ => rfl, fun _ => rfl, rfl, rfl, rfl, rfl, id⟩

lemma Frame.trans {s₁ s₂ s₃ : ProcessSystem} (h : Frame s₁ s₂) (h' : Frame s₂ s₃) :
    Frame s₁ s₃ where
  processes p hp := h.processes p (h'.processes p hp)
  mainThread p := (h'.mainThread p).trans (h.mainThread p)
  hasExited p := (h'.hasExited p).trans (h.hasExited p)
  nextProcess := h'.nextProcess.trans h.nextProcess
  nextThread := h'.nextThread.trans h.nextThread
  processOf := h'.processOf.trans h.processOf
  todo := h'.todo.trans h.todo
  sleepers hs := h'.sleepers (h.sleepers hs)

lemma frame_process {process : ℕ → Process}
    (hmain : ∀ p, (process p).mainThread = (s.process p).mainThread)
    (hexit : ∀ p, (process p).hasExited = (s.process p).hasExited) :
    Frame s { s with process := process } :=
  { Frame.refl s with mainThread := hmain, hasExited := hexit }

lemma frame_setProcess (hmain : process.mainThread = (s.process p).mainThread)
    (hexit : process.hasExited = (s.process p).hasExited) : Frame s (s.setProcess p process) := by
  refine frame_process (fun q => ?_) fun q => ?_ <;> by_cases hq : q = p <;>
    simp [hq, hmain, hexit]

lemma frame_sched (hsleepers : s.sched.waitList .sleepers = [] → sched.waitList .sleepers = []) :
    Frame s { s with sched := sched } :=
  { Frame.refl s with sleepers := hsleepers }

/-- The actions that change the table. -/
def isFrame : KernelAction → Bool
  | .createChild | .appendChild _ | .startChild _ | .setExited => false
  | _ => true

lemma Effect.frame (hframe : isFrame a = true) (h : Effect s a s') : Frame s s' := by
  cases h with
  | createChild | appendChild | startChild | setExited => simp [isFrame] at hframe
  | same => exact .refl s
  | mark | setGroup | startSession => exact frame_setProcess rfl rfl
  | destroy | freeThread => exact { Frame.refl s with }
  | remove p => exact { Frame.refl s with processes := fun _ => List.mem_of_mem_erase }
  | reparent =>
    refine frame_process (fun p => ?_) fun p => ?_ <;> split_ifs <;> rfl
  | wake => exact frame_sched s.sched.sleepers_unblock
  | bump | block => exact frame_sched id
  | take | yield => exact frame_sched (by simp)
  | waitEnter => exact frame_sched s.sched.sleepers_waitEnter
  | detach => exact frame_sched s.sched.sleepers_waitRemove
  | broadcast _ hfold =>
    exact broadcast_induction .refl .trans (fun _ _ _ => frame_setProcess rfl rfl)
      (fun s _ _ _ _ _ => frame_sched s.sched.sleepers_unblock) hfold
  | exitCurrent =>
    refine frame_sched ?_
    unfold Scheduler.exitCurrent
    split_ifs <;> exact id

lemma Effect.todo (h : Effect s a s') : s'.todo = s.todo := by
  by_cases hframe : isFrame a = true
  · exact (h.frame hframe).todo
  cases h with
  | broadcast => simp [isFrame] at hframe
  | _ => rfl

/-! ## What an action leaves to be done -/

lemma scanChildren_finished {self : ℕ} {wanted : ℤ} {options : BitVec 32} :
    ∀ {ps : List ℕ} {found : Scan}, found.finished = none →
      (s.scanChildren self wanted options ps found).finished = some p →
      p ∈ ps ∧ (s.process p).hasExited = true
  | [], found, hnone, h => by simp [scanChildren, hnone] at h
  | child :: ps, found, hnone, h => by
    rw [scanChildren] at h
    by_cases hsel : s.selects self wanted child = true
    · rw [if_pos hsel] at h
      by_cases hexit : (s.process child).hasExited = true
      · rw [if_pos hexit] at h
        obtain rfl : child = p := by simpa using h
        exact ⟨mem_cons_self, hexit⟩
      · rw [if_neg hexit] at h
        exact (scanChildren_finished (by exact hnone) h).imp_left (mem_cons_of_mem child)
    · rw [if_neg hsel] at h
      exact (scanChildren_finished hnone h).imp_left (mem_cons_of_mem child)

/-- Apart from `fork`, which goes on with the child it has made, an action leaves nothing to be
done to a process under construction, only a scan leaves a child to be reaped, one that has exited,
and no thread is to be freed. -/
lemma exec_next (h : s.exec choice a = some (s', next)) (hb : b ∈ next) (ha : a ≠ .createChild) :
    builds b = none ∧ (∀ p ∈ reaps b, (∃ wanted options, a = .scan wanted options) ∧
      p ∈ s.processes ∧ (s.process p).hasExited = true) ∧ frees b = none := by
  cases a with
  | createChild => exact absurd rfl ha
  | panicZombie => simp [exec] at h
  | scan wanted options =>
    obtain ⟨-, rfl⟩ := h
    unfold afterScan at hb
    split at hb
    · simp_all [builds, reaps, frees]
    · rename_i p _ hfinished
      have hfound := scanChildren_finished rfl hfinished
      simp only [mem_cons, List.not_mem_nil, or_false] at hb
      rcases hb with rfl | rfl <;>
        exact ⟨rfl, fun q hq => ⟨⟨_, _, rfl⟩, Option.some.inj hq ▸ hfound⟩, rfl⟩
    · split_ifs at hb
      · simp at hb
      · simp at hb
      · simp only [mem_cons, List.not_mem_nil, or_false] at hb
        rcases hb with rfl | rfl | rfl | rfl | rfl <;> simp [builds, reaps, frees]
  | appendChild | startChild | setExited | reparent | unblock | remove | destroy | waitEnter |
    block | yield | detach | setStopped | setGroup | exitCurrent | freeThread =>
      cases h
      simp at hb
  | broadcast =>
    simp only [exec, Option.map_eq_some_iff, Prod.mk.injEq] at h
    obtain ⟨_, -, -, rfl⟩ := h
    simp at hb
  | raise | resume | resumeThread | report | notifyParent | lookup | bump | take |
    checkSignals | blockIfMain | groupExists | collectGroup | findTarget | checkGroup |
    startSession =>
      grind [exec, afterRaise, builds, reaps, frees]

/-! ## Thread numbers -/

/-- All threads anybody could put on the CPU have numbers that have been handed out. -/
structure ThreadsBelow (s : ProcessSystem) : Prop where
  sched : s.sched.Below s.nextThread
  mainThread : ∀ p t, (s.process p).mainThread = some t → t < s.nextThread

lemma threadsBelow_initial : ThreadsBelow initial where
  sched := ⟨by decide, by decide, fun l t ht => by simp [initial] at ht⟩
  mainThread p t ht := by
    simp only [initial] at ht
    split_ifs at ht
    exact Option.some.inj ht ▸ by decide

lemma ThreadsBelow.of_sched (h : ThreadsBelow s)
    (hsched : sched.Below s.nextThread) : ThreadsBelow { s with sched := sched } :=
  ⟨hsched, h.mainThread⟩

lemma ThreadsBelow.setProcess (h : ThreadsBelow s)
    (hmain : process.mainThread = none ∨ process.mainThread = (s.process p).mainThread) :
    ThreadsBelow (s.setProcess p process) := by
  refine ⟨h.sched, (forall_update_iff s.process fun _ q =>
    ∀ t, q.mainThread = some t → t < s.nextThread).mpr ⟨fun t ht => ?_, fun q _ => h.mainThread q⟩⟩
  rcases hmain with hmain | hmain
  · simp [hmain] at ht
  · exact h.mainThread p t (hmain ▸ ht)

lemma mainThread_addThread {q : ℕ} (h : ((s.addThread p).process q).mainThread = some t) :
    (s.process q).mainThread = some t ∨ t = s.nextThread ∧ q = p := by
  by_cases hq : q = p
  · subst hq
    cases hmain : (s.process q).mainThread with
    | none => exact .inr ⟨by simpa [addThread, setProcess, hmain, eq_comm] using h, rfl⟩
    | some u => exact .inl (by simpa [addThread, setProcess, hmain] using h)
  · exact .inl (by simpa [addThread, setProcess, hq] using h)

lemma Effect.below (he : Effect s a s') (h : ThreadsBelow s)
    (hwake : ∀ t, a = .unblock t → t < s.nextThread) :
    ThreadsBelow s' ∧ s.nextThread ≤ s'.nextThread := by
  cases he with
  | same => exact ⟨h, Nat.le_refl _⟩
  | createChild =>
    have hchild : ThreadsBelow (s.setProcess s.nextProcess
      (childOf (s.process s.self) s.nextPid)) := h.setProcess (.inl rfl)
    exact ⟨⟨hchild.sched, hchild.mainThread⟩, Nat.le_refl _⟩
  | startChild p =>
    refine ⟨⟨(h.sched.mono (Nat.le_succ _)).enqueue (Nat.lt_succ_self _), fun q t ht => ?_⟩,
      Nat.le_succ _⟩
    rcases mainThread_addThread ht with hold | ⟨rfl, rfl⟩
    · exact Nat.lt_succ_of_lt (h.mainThread q t hold)
    · exact Nat.lt_succ_self _
  | appendChild | remove | destroy | freeThread => exact ⟨⟨h.sched, h.mainThread⟩, Nat.le_refl _⟩
  | setExited | mark | setGroup | startSession =>
    exact ⟨h.setProcess (.inr rfl), Nat.le_refl _⟩
  | reparent =>
    refine ⟨⟨h.sched, fun q t ht => h.mainThread q t ?_⟩, Nat.le_refl _⟩
    dsimp only at ht
    split_ifs at ht <;> exact ht
  | wake t ha =>
    refine ⟨h.of_sched (h.sched.unblock ?_), Nat.le_refl _⟩
    rcases ha with rfl | ⟨p, rfl, hmain⟩
    · exact hwake t rfl
    · exact h.mainThread p t hmain
  | bump => exact ⟨h.of_sched ⟨h.sched.current, h.sched.runQueue, h.sched.waiters⟩, Nat.le_refl _⟩
  | take q t rest hlist =>
    refine ⟨h.of_sched ⟨h.sched.current, h.sched.runQueue, fun l u hu => ?_⟩, Nat.le_refl _⟩
    by_cases hl : l = .queue q
    · subst hl
      exact h.sched.waiters _ u (hlist ▸ mem_cons_of_mem t (by simpa using hu))
    · exact h.sched.waiters l u (by simpa [hl] using hu)
  | waitEnter => exact ⟨h.of_sched (h.sched.waitAppend _ h.sched.current), Nat.le_refl _⟩
  | block => exact ⟨h.of_sched (h.sched.setState _ _), Nat.le_refl _⟩
  | yield => exact ⟨h.of_sched h.sched.switchToNext, Nat.le_refl _⟩
  | detach => exact ⟨h.of_sched (h.sched.waitRemove _ _), Nat.le_refl _⟩
  | exitCurrent => exact ⟨h.of_sched h.sched.exitCurrent, Nat.le_refl _⟩
  | broadcast _ hfold =>
    refine broadcast_induction
      (R := fun s s' => ThreadsBelow s → ThreadsBelow s' ∧ s.nextThread ≤ s'.nextThread)
      (fun s h => ⟨h, Nat.le_refl _⟩) (fun h₁ h₂ h => ?_)
        (fun s p _ h => ⟨h.setProcess (.inr rfl), Nat.le_refl _⟩)
      (fun s p _ t hmain _ h =>
        ⟨h.of_sched (h.sched.unblock (h.mainThread p t hmain)), Nat.le_refl _⟩)
      hfold h
    obtain ⟨hmiddle, hle⟩ := h₁ h
    exact (h₂ hmiddle).imp_right (Nat.le_trans hle)

lemma exec_unblocks (h : ThreadsBelow s) (hexec : s.exec choice a = some (s', next))
    (ht : .unblock t ∈ next) : t < s.nextThread := by
  cases a with
  | panicZombie => simp [exec] at hexec
  | raise p signal =>
    refine h.mainThread p t ?_
    grind [exec, afterRaise]
  | take q =>
    refine h.sched.waiters (.queue q) t ?_
    cases hlist : s.sched.waitList (.queue q) <;> grind [exec, Scheduler.waitTakeFirst]
  | broadcast =>
    simp only [exec, Option.map_eq_some_iff, Prod.mk.injEq] at hexec
    obtain ⟨_, -, -, rfl⟩ := hexec
    simp at ht
  | scan =>
    cases hexec
    unfold afterScan at ht
    split at ht <;> simp [apply_ite] at ht
  | _ => grind [exec]

/-! ## The invariant -/

/-- Thread `t` is in `fork` and has made process `p`, which has no thread yet. -/
structure Building (s : ProcessSystem) (t p : ℕ) : Prop where
  shape : ∃ rest, (∀ b ∈ rest, builds b = none) ∧
    (s.todo t = .appendChild p :: .startChild p :: rest ∨ s.todo t = .startChild p :: rest)
  lt : p < s.nextProcess
  ne : p ≠ KERNEL
  alive : (s.process p).hasExited = false
  noThread : (s.process p).mainThread = none
  unowned : ∀ u, s.processOf u ≠ some p

/-- The invariant of all runs: the table, and what threads have still to do to it. -/
structure Tidy (s : ProcessSystem) : Prop where
  idle : s.processOf IDLE = none
  sleepers : s.sched.waitList .sleepers = []
  positive : KERNEL < s.nextProcess
  below : s.ThreadsBelow
  owned : ∀ t p, s.processOf t = some p → p < s.nextProcess ∧ t < s.nextThread
  listed : ∀ p ∈ s.processes, p < s.nextProcess
  wake : ∀ u t, .unblock t ∈ s.todo u → t < s.nextThread
  fresh : ∀ u, s.nextThread ≤ u → s.todo u = []
  reaping : ∀ t, ∀ b ∈ s.todo t, ∀ p ∈ reaps b,
    p < s.nextProcess ∧ (s.process p).hasExited = true
  building : ∀ t, ∀ b ∈ s.todo t, ∀ p ∈ builds b, Building s t p
  unique : ∀ t u, ∀ b ∈ s.todo t, ∀ c ∈ s.todo u, ∀ p ∈ builds b, p ∈ builds c → t = u

lemma tidy_initial : Tidy initial where
  idle := rfl
  sleepers := rfl
  positive := by decide
  below := threadsBelow_initial
  owned t p h := by
    simp only [initial] at h
    split_ifs at h with ht
    cases h
    rw [ht]
    decide
  listed p hp := by
    simp only [initial, mem_cons, List.not_mem_nil, or_false] at hp
    rcases hp with rfl | rfl <;> decide
  wake u t h := by simp [initial] at h
  fresh _ _ := rfl
  reaping t b hb := by simp [initial] at hb
  building t b hb := by simp [initial] at hb
  unique t u b hb := by simp [initial] at hb

section

variable (h : Tidy s)
include h

lemma Tidy.frame (hf : Frame s s') (hbelow : s'.ThreadsBelow) : Tidy s' := by
  obtain ⟨hprocs, hmain, hexit, hnext, hthread, hof, htodo, hsleepers⟩ := hf
  refine {
    idle := hof ▸ h.idle
    sleepers := hsleepers h.sleepers
    positive := hnext ▸ h.positive
    below := hbelow
    owned := hof ▸ hnext ▸ hthread ▸ h.owned
    listed := fun p hp => hnext ▸ h.listed p (hprocs p hp)
    wake := htodo ▸ hthread ▸ h.wake
    fresh := htodo ▸ hthread ▸ h.fresh
    reaping := ?_
    building := fun t b hb p hp => ?_
    unique := htodo ▸ h.unique }
  · simpa only [hexit, htodo, hnext] using h.reaping
  · obtain ⟨hshape, hlt, hne, halive, hnone, hunowned⟩ := h.building t b (htodo ▸ hb) p hp
    exact ⟨htodo ▸ hshape, hnext ▸ hlt, hne, (hexit p).trans halive, (hmain p).trans hnone,
      hof ▸ hunowned⟩

lemma Tidy.lt_of_todo (htodo : s.todo t = a :: rest) : t < s.nextThread :=
  Nat.lt_of_not_le fun hle => by simp [h.fresh t hle] at htodo

lemma Tidy.builds_none (htodo : s.todo t = a :: rest) (ha : builds a = none) :
    ∀ b ∈ a :: rest, builds b = none := by
  intro b hb
  cases hp : builds b with
  | none => rfl
  | some p =>
    obtain ⟨tail, -, hshape | hshape⟩ := (h.building t b (htodo ▸ hb) p hp).shape
    all_goals
      rw [htodo, List.cons.injEq] at hshape
      rw [hshape.1] at ha
      simp [builds] at ha

/-- A thread goes on with another list.  The child it is about to build, if any, is nobody else's.
-/
lemma Tidy.setTodo (hlt : t < s.nextThread) (hbuilds : ∀ b ∈ actions, ∀ p ∈ builds b,
      Building { s with todo := update s.todo t actions } t p ∧
        ∀ u, u ≠ t → ∀ c ∈ s.todo u, p ∉ builds c)
    (hreaps : ∀ b ∈ actions, ∀ p ∈ reaps b,
      p < s.nextProcess ∧ (s.process p).hasExited = true)
    (hwake : ∀ u, .unblock u ∈ actions → u < s.nextThread) :
    Tidy { s with todo := update s.todo t actions } where
  idle := h.idle
  sleepers := h.sleepers
  positive := h.positive
  below := ⟨h.below.sched, h.below.mainThread⟩
  owned := h.owned
  listed := h.listed
  wake := (forall_update_iff s.todo fun _ l => ∀ v, .unblock v ∈ l → v < s.nextThread).mpr
    ⟨hwake, fun u _ => h.wake u⟩
  fresh := (forall_update_iff s.todo fun u l => s.nextThread ≤ u → l = []).mpr
    ⟨fun hle => absurd hle (Nat.not_le_of_lt hlt), fun u _ => h.fresh u⟩
  reaping := (forall_update_iff s.todo fun _ l => ∀ b ∈ l, ∀ p ∈ reaps b,
    p < s.nextProcess ∧ (s.process p).hasExited = true).mpr ⟨hreaps, fun u _ => h.reaping u⟩
  building u b hb p hp := by
    by_cases hu : u = t
    · subst hu
      exact (hbuilds b (by simpa using hb) p hp).1
    · obtain ⟨hshape, hrest⟩ := h.building u b (by simpa [hu] using hb) p hp
      exact ⟨by simpa [hu] using hshape, hrest, ‹_›, ‹_›, ‹_›, ‹_›⟩
  unique u v b hb c hc p hpb hpc := by
    by_cases hu : u = t <;> by_cases hv : v = t
    · rw [hu, hv]
    · exact absurd hpc
        ((hbuilds b (by simpa [hu] using hb) p hpb).2 v hv c (by simpa [hv] using hc))
    · exact absurd hpb
        ((hbuilds c (by simpa [hv] using hc) p hpc).2 u hu b (by simpa [hu] using hb))
    · exact h.unique u v b (by simpa [hu] using hb) c (by simpa [hv] using hc) p hpb hpc

/-! ## The actions that change the table -/

lemma Tidy.tail (htodo : s.todo t = a :: rest) :
    Tidy { s with todo := update s.todo t rest } := by
  have hrest : ∀ b ∈ rest, b ∈ s.todo t := fun b hb => htodo ▸ mem_cons_of_mem a hb
  refine h.setTodo (h.lt_of_todo htodo) (fun b hb p hp => ⟨?_, fun u hu c hc hpc => ?_⟩)
    (fun b hb => h.reaping t b (hrest b hb)) fun u hu => h.wake t u (hrest _ hu)
  · obtain ⟨⟨tail, htail, hshape⟩, hlt, hne, halive, hnone, hunowned⟩ :=
      h.building t b (hrest b hb) p hp
    refine ⟨⟨tail, htail, ?_⟩, hlt, hne, halive, hnone, hunowned⟩
    rw [htodo, List.cons.injEq, List.cons.injEq] at hshape
    rcases hshape with ⟨-, rfl⟩ | ⟨-, rfl⟩
    · exact .inr (update_self ..)
    · simp [htail b hb] at hp
  · exact hu (h.unique t u b (hrest b hb) c hc p hp hpc).symm

/-- `mark_exited` raises the flag of a process that has a thread. -/
lemma Tidy.setExited :
    Tidy (s.setProcess s.self { s.process s.self with hasExited := true }) := by
  refine { h with
    below := h.below.setProcess (.inr rfl)
    reaping := fun t b hb p hp => (h.reaping t b hb p hp).imp_right fun hexit => ?_
    building := fun t b hb p hp => ?_ }
  · by_cases hself : p = s.self <;> simp [setProcess, hself]
    exact hexit
  · obtain ⟨hshape, hlt, hne, halive, hnone, hunowned⟩ := h.building t b hb p hp
    have hself : p ≠ s.self := by
      rintro rfl
      cases hown : s.processOf s.sched.current with
      | none => exact hne (by simp [self, hown])
      | some q => exact hunowned s.sched.current (by simp [self, hown])
    exact ⟨hshape, hlt, hne, by simpa [setProcess, hself] using halive,
      by simpa [setProcess, hself] using hnone, hunowned⟩

lemma Tidy.addProcess (hnone : child.mainThread = none) (pid : ℤ) :
    Tidy { s.setProcess s.nextProcess child with
      nextProcess := s.nextProcess + 1
      nextPid := pid
      destroyed := update s.destroyed s.nextProcess false } := by
  have hold : ∀ {p}, p < s.nextProcess → update s.process s.nextProcess child p = s.process p :=
    fun hp => update_of_ne (Nat.ne_of_lt hp) ..
  have hbelow : (s.setProcess s.nextProcess child).ThreadsBelow := h.below.setProcess (.inl hnone)
  refine ⟨h.idle, h.sleepers, Nat.lt_succ_of_lt h.positive, ⟨hbelow.sched, hbelow.mainThread⟩,
    fun u p hu => (h.owned u p hu).imp_left Nat.lt_succ_of_lt,
    fun p hp => Nat.lt_succ_of_lt (h.listed p hp), h.wake, h.fresh, fun u b hb p hp => ?_,
    fun u b hb p hp => ?_, h.unique⟩
  · obtain ⟨hp, hdead⟩ := h.reaping u b hb p hp
    exact ⟨Nat.lt_succ_of_lt hp, (congrArg hasExited (hold hp)).trans hdead⟩
  · obtain ⟨hshape, hlt, hne, halive, hnone, hunowned⟩ := h.building u b hb p hp
    exact ⟨hshape, Nat.lt_succ_of_lt hlt, hne, (congrArg hasExited (hold hlt)).trans halive,
      (congrArg mainThread (hold hlt)).trans hnone, hunowned⟩

lemma Tidy.createChild (htodo : s.todo t = .createChild :: rest)
    (halive : child.hasExited = false) (hnone : child.mainThread = none) {pid : ℤ} :
    Tidy { s.setProcess s.nextProcess child with
      nextProcess := s.nextProcess + 1
      nextPid := pid
      destroyed := update s.destroyed s.nextProcess false
      todo := update s.todo t
        (.appendChild s.nextProcess :: .startChild s.nextProcess :: rest) } := by
  have hrest : ∀ b ∈ rest, builds b = none := fun b hb =>
    h.builds_none htodo rfl b (mem_cons_of_mem _ hb)
  have hold : ∀ b ∈ rest, b ∈ s.todo t := fun b hb => htodo ▸ mem_cons_of_mem _ hb
  have h' := h.addProcess hnone pid
  refine h'.setTodo (h.lt_of_todo htodo) (fun b hb p hp => ?_) (fun b hb p hp => ?_) fun u hu => ?_
  · obtain rfl : s.nextProcess = p := by
      rcases mem_cons.mp hb with rfl | hb
      · exact Option.some.inj hp
      rcases mem_cons.mp hb with rfl | hb
      · exact Option.some.inj hp
      · simp [hrest b hb] at hp
    have hchild : (s.setProcess s.nextProcess child).process s.nextProcess = child := update_self ..
    refine ⟨⟨⟨rest, hrest, .inl (update_self ..)⟩, Nat.lt_succ_self _, Nat.ne_of_gt h.positive,
      (congrArg hasExited hchild).trans halive, (congrArg mainThread hchild).trans hnone,
      fun v hv => absurd (h.owned v _ hv).1 (Nat.lt_irrefl _)⟩, fun u _ c hc hpc => ?_⟩
    exact absurd (h.building u c hc _ hpc).lt (Nat.lt_irrefl _)
  · have hb : b ∈ rest := by
      rcases mem_cons.mp hb with rfl | hb
      · simp [reaps] at hp
      rcases mem_cons.mp hb with rfl | hb
      · simp [reaps] at hp
      · exact hb
    exact h'.reaping t b (hold b hb) p hp
  · exact h.wake t u (hold _ (by simpa using hu))

lemma Tidy.appendChild (hlt : p < s.nextProcess) :
    Tidy { s with processes := if p ∈ s.processes then s.processes else s.processes ++ [p] } := by
  refine { h with
    below := ⟨h.below.sched, h.below.mainThread⟩
    listed := fun q hq => ?_
    building := fun t b hb q hq => { h.building t b hb q hq with } }
  dsimp only at hq
  split_ifs at hq
  · exact h.listed q hq
  · rcases mem_append.mp hq with hq | hq
    · exact h.listed q hq
    · exact List.mem_singleton.mp hq ▸ hlt

/-- The child gets its thread, and nobody has it under construction any more. -/
lemma Tidy.addThread (hlt : p < s.nextProcess) (hbuilt : ∀ t, ∀ b ∈ s.todo t, p ∉ builds b) :
    Tidy (s.addThread p) := by
  have hexit : ∀ q, ((s.addThread p).process q).hasExited = (s.process q).hasExited := by
    intro q
    by_cases hq : q = p <;> simp [ProcessSystem.addThread, setProcess, hq]
  -- a thread is the new one, or has the process it had
  have hof : ∀ {t q}, (s.addThread p).processOf t = some q →
      s.processOf t = some q ∨ t = s.nextThread ∧ q = p := by
    intro t q ht
    by_cases htn : t = s.nextThread
    · exact .inr ⟨htn, by simpa [ProcessSystem.addThread, htn, eq_comm] using ht⟩
    · exact .inl (by simpa [ProcessSystem.addThread, htn] using ht)
  refine ⟨?_, by simpa [ProcessSystem.addThread] using h.sleepers, h.positive,
    ((Effect.startChild p).below h.below (by simp)).1, fun t q ht => ?_, h.listed,
    fun u t ht => Nat.lt_succ_of_lt (h.wake u t ht),
    fun u hu => h.fresh u (Nat.le_of_succ_le hu), fun t b hb q hq => ?_, fun t b hb q hq => ?_,
    h.unique⟩
  · have hidle : IDLE ≠ s.nextThread := Nat.ne_of_lt (Nat.zero_lt_of_lt h.below.sched.current)
    simpa [ProcessSystem.addThread, hidle] using h.idle
  · rcases hof ht with ht | ⟨rfl, rfl⟩
    · exact (h.owned t q ht).imp_right Nat.lt_succ_of_lt
    · exact ⟨hlt, Nat.lt_succ_self _⟩
  · rw [hexit]
    exact h.reaping t b hb q hq
  · have hqp : q ≠ p := by
      rintro rfl
      exact hbuilt t b hb hq
    obtain ⟨hshape, hlt', hne', halive', hnone', hunowned'⟩ := h.building t b hb q hq
    refine ⟨hshape, hlt', hne', (hexit q).trans halive', ?_, fun u hu => ?_⟩
    · simpa [ProcessSystem.addThread, setProcess, hqp] using hnone'
    · rcases hof hu with hu | ⟨-, hq'⟩
      · exact hunowned' u hu
      · exact hqp hq'

/-! ## Steps -/

/-- Processes under construction are used only by the thread that makes them. -/
lemma Tidy.not_builds_of_tail (htodo : s.todo t = .startChild p :: rest) :
    ∀ u, ∀ b ∈ update s.todo t rest u, p ∉ builds b := by
  have hmine : KernelAction.startChild p ∈ s.todo t := htodo ▸ mem_cons_self
  obtain ⟨tail, htail, hshape⟩ := (h.building t _ hmine p rfl).shape
  obtain rfl : rest = tail := by
    rcases hshape with hshape | hshape
    · simp [htodo] at hshape
    · exact (List.cons.inj (htodo.symm.trans hshape)).2
  intro u b hb hp
  by_cases hu : u = t
  · rw [hu, update_self] at hb
    simp [htail b hb] at hp
  · rw [update_of_ne hu] at hb
    exact hu (h.unique t u _ hmine b hb p rfl hp).symm

lemma Tidy.perform_frame (htodo : s.todo s.sched.current = a :: rest)
    (hframe : isFrame a = true) (hexec : s.exec choice a = some (s', next)) :
    Frame s s' ∧ Tidy { s' with todo := update s'.todo s.sched.current (next ++ rest) } := by
  have hmem : a ∈ s.todo s.sched.current := htodo ▸ mem_cons_self
  have hrest : ∀ b ∈ rest, b ∈ s.todo s.sched.current := fun b hb =>
    htodo ▸ mem_cons_of_mem a hb
  have hf := (exec_effect hexec).frame hframe
  have hbelow := ((exec_effect hexec).below h.below fun t ht => h.wake _ t (ht ▸ hmem)).1
  have hnone : builds a = none := by cases a <;> first | rfl | simp [isFrame] at hframe
  have hcreate : a ≠ .createChild := by
    rintro rfl
    simp [isFrame] at hframe
  refine ⟨hf, (h.frame hf hbelow).setTodo ?_ (fun b hb p hp => ?_) (fun b hb p hp => ?_)
    fun u hu => ?_⟩
  · rw [hf.nextThread]
    exact h.below.sched.current
  · rcases mem_append.mp hb with hb | hb
    · simp [(exec_next hexec hb hcreate).1] at hp
    · simp [h.builds_none htodo hnone b (mem_cons_of_mem a hb)] at hp
  · rw [hf.nextProcess, hf.hasExited]
    rcases mem_append.mp hb with hb | hb
    · exact ((exec_next hexec hb hcreate).2.1 p hp).2.imp_left (h.listed p)
    · exact h.reaping _ b (hrest b hb) p hp
  · rw [hf.nextThread]
    rcases mem_append.mp hu with hu | hu
    · exact exec_unblocks h.below hexec hu
    · exact h.wake _ u (hrest _ hu)

end

lemma perform_cases (h : s.perform choice = some s') :
    ∃ a rest s₁ next, s.todo s.sched.current = a :: rest ∧ s.exec choice a = some (s₁, next) ∧
      s' = { s₁ with todo := update s₁.todo s.sched.current (next ++ rest) } := by
  unfold perform at h
  split at h
  · cases h
  case h_2 a rest htodo =>
    obtain ⟨⟨s₁, next⟩, hexec, rfl⟩ := Option.map_eq_some_iff.mp h
    exact ⟨a, rest, s₁, next, htodo, hexec, rfl⟩

lemma tidy_perform (h : Tidy s) (hstep : s.perform choice = some s') : Tidy s' := by
  obtain ⟨a, rest, s₁, next, htodo, hexec, rfl⟩ := perform_cases hstep
  have hmem : a ∈ s.todo s.sched.current := htodo ▸ mem_cons_self
  by_cases hframe : isFrame a = true
  · exact (h.perform_frame htodo hframe hexec).2
  cases a with
  | createChild =>
    cases choice <;> cases hexec
    · exact h.tail htodo
    · exact h.createChild htodo rfl rfl
  | appendChild p =>
    cases hexec
    exact (h.appendChild (h.building _ _ hmem p rfl).lt).tail htodo
  | startChild p =>
    cases choice <;> cases hexec
    · exact h.tail htodo
    · exact (h.tail htodo).addThread (h.building _ _ hmem p rfl).lt (h.not_builds_of_tail htodo)
  | setExited =>
    cases hexec
    exact h.setExited.tail htodo
  | _ => simp [isFrame] at hframe

lemma tidy_enter (h : Tidy s)
    (hplain : ∀ b ∈ actions, builds b = none ∧ reaps b = none ∧ ∀ t, b ≠ .unblock t)
    (hstep : s.enter actions = some s') : Tidy s' := by
  unfold enter at hstep
  split_ifs at hstep with huser
  cases hstep
  refine h.setTodo h.below.sched.current (fun b hb p hp => ?_) (fun b hb p hp => ?_)
    fun u hu => absurd rfl ((hplain _ hu).2.2 u)
  · simp [(hplain b hb).1] at hp
  · simp [(hplain b hb).2.1] at hp

lemma deliverActions_cases (self signal : ℕ) (disp : Disposition) :
    deliverActions self signal disp = [] ∨ deliverActions self signal disp = exitActions self ∨
      deliverActions self signal disp = stopActions self ∨
      deliverActions self signal disp = [.resume self] := by
  unfold deliverActions
  split_ifs <;> first | simp | (cases disp <;> simp)

lemma frame_takePendingSignal (s : ProcessSystem) :
    Frame s (s.setProcess s.self (s.process s.self).takePendingSignal.2) := by
  refine frame_setProcess ?_ ?_ <;> unfold takePendingSignal <;> split <;> rfl

lemma tidy_deliver (h : Tidy s) {disp : Disposition} (hstep : s.deliver disp = some s') :
    Tidy s' := by
  have htaken : Tidy (s.setProcess s.self (s.process s.self).takePendingSignal.2) := by
    refine h.frame (frame_takePendingSignal s) (h.below.setProcess (.inr ?_))
    unfold Process.takePendingSignal
    split <;> rfl
  refine tidy_enter htaken ?_ hstep
  rcases deliverActions_cases s.self (s.process s.self).takePendingSignal.1 disp with
    hnone | hexit | hstop | hresume
  · simp [hnone]
  · simp [hexit, exitActions, builds, reaps]
  · simp [hstop, stopActions, builds, reaps]
  · simp [hresume, builds, reaps]

lemma reap_cases (h : s.reap = some s') :
    s.sched.current = IDLE ∧ s.todo IDLE = [] ∧ ∃ t rest, s.sched.zombies = t :: rest ∧
      s' = { s with
        sched := { s.sched with zombies := rest, allThreads := s.sched.allThreads.erase t }
        todo := update s.todo s.sched.current [.freeThread t] } := by
  unfold reap at h
  split_ifs at h with hidle
  cases hzombies : s.sched.zombies with
  | nil => simp [Scheduler.takeZombie, hzombies] at h
  | cons t rest =>
    simp only [Scheduler.takeZombie, hzombies, Option.some.injEq] at h
    exact ⟨hidle.1, hidle.2, t, rest, rfl, h.symm⟩

lemma tidy_step (h : Tidy s) {a : ProcessStep} (hstep : s.step a = some s') : Tidy s' := by
  cases a with
  | tick now expired =>
    cases hstep
    rcases s.sched.onTimerTick_of_no_sleepers h.sleepers now expired with htick | htick
    · simpa only [htick] using h
    · rw [htick]
      exact h.frame (frame_sched (by simp)) (h.below.of_sched h.below.sched.switchToNext)
  | perform choice => exact tidy_perform h hstep
  | fork | waitpid | setpgid | setsid => exact tidy_enter h (by simp [builds, reaps]) hstep
  | exit => exact tidy_enter h (by simp [exitActions, builds, reaps]) hstep
  | kill pid signal =>
    simp only [step, killActions] at hstep
    split_ifs at hstep <;> exact tidy_enter h (by simp [builds, reaps]) hstep
  | deliver disp => exact tidy_deliver h hstep
  | reap =>
    obtain ⟨-, -, t, rest, -, rfl⟩ := reap_cases hstep
    have hf : Frame s { s with sched := { s.sched with
        zombies := rest, allThreads := s.sched.allThreads.erase t } } := frame_sched id
    exact (h.frame hf (h.below.of_sched
      ⟨h.below.sched.current, h.below.sched.runQueue, h.below.sched.waiters⟩)).setTodo
      h.below.sched.current (by simp [builds]) (by simp [reaps]) (by simp)

end ProcessSystem
end ShitOs
