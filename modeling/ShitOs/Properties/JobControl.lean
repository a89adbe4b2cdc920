import ShitOs.Construction.JobControl
import ShitOs.Properties.Process

/-!
# Whether a stopped process can be continued

`stop` raises `m_is_stopped`, and only then takes its thread off the CPU; `resume` lowers the flag,
and then unblocks the thread, unless it is ready.  So if the timer goes off in `stop` after the flag
has been raised, and the process is sent `SIGCONT` before its thread gets the CPU back, the flag is
lowered, the wake-up finds nobody to wake, and the thread takes itself off the CPU with the flag
down.  From then on every `SIGCONT` and `SIGKILL` finds a process that is not stopped and a thread
that is neither blocked nor asleep (`stopped_for_good`).

`stopped_can_be_continued` says that this is the only way: as long as no `resume` lowers the flag in
that window (`Undisturbed`), a stopped main thread has its flag up, or somebody who can run is just
about to unblock it.  The invariant is on what threads have still to do: `Orderly` says in which
order statements stand on a list, `Follows` what a statement may put there, `blocksFirst` that a
thread is in the window. That a stopped thread with its flag up is made ready is shown by following
the sender of the signal to the end of `resume` (`Within`).
-/

namespace ShitOs

open List (mem_cons_of_mem mem_cons_self replicate)
open Option (map_some)
open Function ProcessSystem Scheduler

namespace Scheduler

/-- Thread `t` is on the CPU or waits for it. -/
def Runnable (s : Scheduler) (t : ℕ) : Prop := s.threadState t = .Running ∨ s.threadState t = .Ready

variable {s : Scheduler} {t u : ℕ}

/-- What a switch, a wake-up or a change of lists does to the states of threads: nobody who could
run is kept from it, and nobody comes to be stopped. -/
structure Eases (s s' : Scheduler) : Prop where
  runnable : ∀ t, s.Runnable t → s'.Runnable t
  stopped : ∀ t, s'.threadState t = .Stopped → s.threadState t = .Stopped

lemma Eases.refl (s : Scheduler) : Eases s s := ⟨fun _ => id, fun _ => id⟩

lemma Eases.of_threadState {s' : Scheduler} (h : s'.threadState = s.threadState) : Eases s s' :=
  ⟨fun t ht => by rwa [Runnable, h], fun t ht => by rwa [h] at ht⟩

lemma eases_switchToNext (s : Scheduler) : Eases s s.switchToNext where
  runnable t ht := by
    rcases threadState_dispatch s.requeueCurrent t with hsame | rfl
    · rcases threadState_requeueCurrent s t with hsame' | ⟨-, hready⟩
      · rwa [Runnable, switchToNext, hsame, hsame']
      · exact .inr (hsame.trans hready)
    · exact .inl s.threadState_current_switchToNext
  stopped t := s.threadState_of_switchToNext (by simp) (by simp)

lemma eases_unblock (s : Scheduler) (t : ℕ) : Eases s (s.unblock t) where
  runnable u hu := by
    by_cases hut : u = t
    · exact hut ▸ s.threadState_unblock_self t
    · rwa [Runnable, s.threadState_unblock_of_ne hut]
  stopped u hu := by
    by_cases hut : u = t
    · rcases s.threadState_unblock_self t with h | h <;> simp [hut, h] at hu
    · rwa [s.threadState_unblock_of_ne hut] at hu

lemma eases_enqueue (s : Scheduler) (t : ℕ) : Eases s (s.enqueue t) := by
  have hstate := s.threadState_enqueue t
  refine ⟨fun u hu => ?_, fun u hu => ?_⟩
  · by_cases hut : u = t
    · simp [Runnable, hstate, hut]
    · simpa [Runnable, hstate, hut] using hu
  · by_cases hut : u = t
    · simp [hstate, hut] at hu
    · simpa [hstate, hut] using hu

end Scheduler

namespace Process

@[simp] lemma cancelled_mainThread (p : Process) (sig : ℕ) :
    (p.cancelled sig).mainThread = p.mainThread := by
  unfold cancelled
  split_ifs <;> rfl

@[simp] lemma cancelled_isStopped (p : Process) (sig : ℕ) :
    (p.cancelled sig).isStopped = p.isStopped := by
  unfold cancelled
  split_ifs <;> rfl

end Process

namespace ProcessSystem

/-! ## What actions do to flags and threads -/

/-- What most actions do at most: no flag `m_is_stopped` changes, no thread changes hands, nobody
who could run is kept from it and nobody comes to be stopped. -/
structure Steady (s s' : ProcessSystem) : Prop where
  mainThread : ∀ p, (s'.process p).mainThread = (s.process p).mainThread
  isStopped : ∀ p, (s'.process p).isStopped = (s.process p).isStopped
  processOf : s'.processOf = s.processOf
  nextThread : s'.nextThread = s.nextThread
  eases : s.sched.Eases s'.sched
  cpu : s'.sched.current = s.sched.current ∨ s'.sched.Runnable s'.sched.current
  sleepers : s.sched.waitList .sleepers = [] → s'.sched.waitList .sleepers = []

variable {s s' : ProcessSystem}

lemma Steady.refl (s : ProcessSystem) : Steady s s :=
  ⟨fun _ => rfl, fun _ => rfl, rfl, rfl, .refl _, .inl rfl, id⟩

lemma Steady.trans {s₁ s₂ s₃ : ProcessSystem} (h : Steady s₁ s₂) (h' : Steady s₂ s₃) :
    Steady s₁ s₃ where
  mainThread p := (h'.mainThread p).trans (h.mainThread p)
  isStopped p := (h'.isStopped p).trans (h.isStopped p)
  processOf := h'.processOf.trans h.processOf
  nextThread := h'.nextThread.trans h.nextThread
  eases := ⟨fun t ht => h'.eases.runnable t (h.eases.runnable t ht),
    fun t ht => h.eases.stopped t (h'.eases.stopped t ht)⟩
  cpu := by
    rcases h'.cpu with hsame | hrun
    · rw [hsame]
      exact h.cpu.imp_right (h'.eases.runnable _)
    · exact .inr hrun
  sleepers hs := h'.sleepers (h.sleepers hs)

lemma steady_setProcess {p : ℕ} {process : Process}
    (hmain : process.mainThread = (s.process p).mainThread)
    (hstop : process.isStopped = (s.process p).isStopped) : Steady s (s.setProcess p process) := by
  refine ⟨fun q => ?_, fun q => ?_, rfl, rfl, .refl _, .inl rfl, id⟩
  · by_cases hq : q = p <;> simp [setProcess, hq, hmain]
  · by_cases hq : q = p <;> simp [setProcess, hq, hstop]

lemma steady_sched {sched : Scheduler} (heases : s.sched.Eases sched)
    (hcpu : sched.current = s.sched.current ∨ sched.Runnable sched.current)
    (hsleepers : s.sched.waitList .sleepers = [] → sched.waitList .sleepers = []) :
    Steady s { s with sched := sched } :=
  ⟨fun _ => rfl, fun _ => rfl, rfl, rfl, heases, hcpu, hsleepers⟩

lemma steady_unblock (s : ProcessSystem) (t : ℕ) : Steady s { s with sched := s.sched.unblock t } :=
  steady_sched (s.sched.eases_unblock t) (.inl (by simp)) s.sched.sleepers_unblock

/-- The actions that are not `Steady`. -/
def isSteady : KernelAction → Bool
  | .createChild | .startChild _ | .resume _ | .setStopped | .block _ | .exitCurrent => false
  | _ => true

lemma Effect.steady {a : KernelAction} (he : Effect s a s') (hsteady : isSteady a = true) :
    Steady s s' := by
  cases he with
  | createChild | startChild | block | exitCurrent => simp [isSteady] at hsteady
  | same => exact .refl s
  | appendChild | remove | destroy | freeThread =>
    exact ⟨fun _ => rfl, fun _ => rfl, rfl, rfl, .refl _, .inl rfl, id⟩
  | setExited | setGroup | startSession => exact steady_setProcess rfl rfl
  | reparent =>
    refine ⟨fun p => ?_, fun p => ?_, rfl, rfl, .refl _, .inl rfl, id⟩ <;> dsimp only <;>
      split_ifs <;> rfl
  | mark p stopped _ _ _ hstop =>
    refine steady_setProcess rfl (hstop.resolve_right ?_)
    rintro (rfl | rfl) <;> simp [isSteady] at hsteady
  | wake t => exact steady_unblock s t
  | bump => exact steady_sched (.of_threadState rfl) (.inl rfl) id
  | take => exact steady_sched (.of_threadState rfl) (.inl rfl) (by simp)
  | waitEnter =>
    exact steady_sched (.of_threadState (by simp [Scheduler.waitEnter]))
      (.inl (by simp [Scheduler.waitEnter])) s.sched.sleepers_waitEnter
  | yield =>
    exact steady_sched s.sched.eases_switchToNext
      (.inr (.inl s.sched.threadState_current_switchToNext)) (by simp)
  | detach =>
    exact steady_sched (.of_threadState (by simp [detachSelf]))
      (.inl (by simp [detachSelf])) s.sched.sleepers_waitRemove
  | broadcast _ hfold =>
    exact broadcast_induction .refl .trans (fun _ _ _ => steady_setProcess rfl rfl)
      (fun s _ _ t _ _ => steady_unblock s t) hfold

end ProcessSystem
namespace JobSystem

open Transition

variable {s s' : JobSystem} {sys sys' : ProcessSystem} {choice : Bool} {a : JobStatement}
  {rest next : List JobStatement} {l : List JobStatement} {sched : Scheduler} {pid : ℤ}
  {Q : JobSystem → Prop} {q sig v : ℕ}

/-! ## The property and the side condition -/

/-- Thread `t` is on the CPU or waits for it. -/
def Runnable (s : JobSystem) (t : ℕ) : Prop := s.sys.sched.Runnable t

/-- A `resume` of process `p` is under way: a thread that can run has yet to unblock its main
thread. -/
def Resuming (s : JobSystem) (p : ℕ) : Prop :=
  ∃ u, .action (.resumeThread p) ∈ s.todo u ∧ s.Runnable u

/-- Whether a thread with this to do takes itself off the CPU, as the thread of the stopped
process `p`, before it has raised the flag of `p` (again). -/
def blocksFirst (p : ℕ) : List JobStatement → Bool
  | [] => false
  | .action .setStopped :: _ => false
  | .store q (.isStopped true) :: rest => if q = p then false else blocksFirst p rest
  | .action .blockIfMain :: _ => true
  | .action (.block .Stopped) :: _ => true
  | _ :: rest => blocksFirst p rest

/-- The process whose flag a statement lowers. -/
def lowers : JobStatement → Option ℕ
  | .store p (.isStopped false) => some p
  | _ => none

/-- **The side condition on a run.**  `resume` lowers the flag of a process only when its main
thread is not in `stop`, between raising the flag and taking itself off the CPU. -/
def Undisturbed (s : JobSystem) : ProcessStep → Prop
  | .perform _ => ∀ a ∈ (s.todo s.current).head?, ∀ p ∈ lowers a,
      ∀ t ∈ (s.sys.process p).mainThread, blocksFirst p (s.todo t) = false
  | _ => True

/-! ## Order on the lists -/

/-- The statements that take a thread off the CPU: a `yield` follows them. -/
def leaves : JobStatement → Bool
  | .action (.block _) | .action .exitCurrent => true
  | _ => false

/-- The statements that lead to one that takes the thread off the CPU. -/
def mayLeave : JobStatement → Bool
  | .action (.block _) | .action .exitCurrent | .action .blockIfMain => true
  | .action (.scan ..) | .action (.checkSignals ..) => true
  | _ => false

/-- The signals that continue a process. -/
def continues (signal : ℕ) : Bool := signal == SIGCONT || signal == SIGKILL

@[simp] lemma continues_SIGCHLD : continues SIGCHLD = false := rfl

/-- The statements that lead to the unblocking of a stopped thread. -/
def mayResume : JobStatement → Bool
  | .action (.resume _) | .action (.resumeThread _) => true
  | .action (.lookup ..) | .action (.groupExists ..) | .action (.collectGroup ..) => true
  | .action (.raise _ signal) | .cancel _ signal | .addPending _ signal => continues signal
  | .testStopped _ signal => continues signal
  | _ => false

/-- A `yield` follows what takes the thread off the CPU, no `resume` comes after it, and whoever
lowers the flag of a process goes on to unblock its thread. -/
def Orderly : List JobStatement → Prop
  | [] => True
  | a :: rest =>
    (leaves a = true → rest.head? = some (.action .yield)) ∧
      (mayLeave a = true → ∀ b ∈ rest, mayResume b = false) ∧
      (∀ p ∈ lowers a, .action (.resumeThread p) ∈ rest) ∧ Orderly rest

lemma mayLeave_of_leaves (h : leaves a = true) : mayLeave a = true := by
  unfold leaves at h
  split at h <;> first | rfl | simp at h

lemma orderly_of_stays : ∀ {l : List JobStatement},
    (∀ a ∈ l, mayLeave a = false ∧ lowers a = none) → Orderly l
  | [], _ => trivial
  | a :: rest, h => by
    obtain ⟨hstays, hlowers⟩ := h a mem_cons_self
    refine ⟨fun hleaves => ?_, fun hmay => ?_, by simp [hlowers],
      orderly_of_stays fun b hb => h b (mem_cons_of_mem a hb)⟩
    · simp [mayLeave_of_leaves hleaves] at hstays
    · simp [hmay] at hstays

lemma Orderly.append {m : List JobStatement} (hl : Orderly l) (hm : Orderly m)
    (hlm : (∃ a ∈ l, mayLeave a = true) → ∀ b ∈ m, mayResume b = false) : Orderly (l ++ m) := by
  induction l with
  | nil => exact hm
  | cons a rest ih =>
    obtain ⟨hyield, hresume, hlowers, hrest⟩ := hl
    refine ⟨fun ha => ?_, fun ha b hb => ?_, fun p hp => List.mem_append_left m (hlowers p hp),
      ih hrest fun ⟨c, hc, hleave⟩ => hlm ⟨c, mem_cons_of_mem a hc, hleave⟩⟩
    · have hhead := hyield ha
      cases rest with
      | nil => simp at hhead
      | cons c rest => simpa using hhead
    · rcases List.mem_append.mp hb with hb | hb
      · exact hresume ha b hb
      · exact hlm ⟨a, mem_cons_self, ha⟩ b hb

/-! ## What a statement leaves to be done -/

/-- The statements `blocksFirst` looks for. -/
def isStop : JobStatement → Bool
  | .action .setStopped | .action .blockIfMain | .action (.block .Stopped) => true
  | .store _ (.isStopped true) => true
  | _ => false

lemma blocksFirst_cons {p : ℕ} (ha : isStop a = false) :
    blocksFirst p (a :: rest) = blocksFirst p rest := by
  unfold isStop at ha
  split at ha
  case h_5 => rw [blocksFirst] <;> simp_all
  all_goals simp at ha

lemma blocksFirst_append {p : ℕ} : ∀ {l : List JobStatement}, (∀ a ∈ l, isStop a = false) →
      blocksFirst p (l ++ rest) = blocksFirst p rest
  | [], _ => rfl
  | a :: l, h => by
    rw [List.cons_append, blocksFirst_cons (h a mem_cons_self)]
    exact blocksFirst_append fun b hb => h b (mem_cons_of_mem a hb)

/-- What may follow a statement. -/
structure Follows (a : JobStatement) (next : List JobStatement) : Prop where
  orderly : Orderly next
  leave : ∀ b ∈ next, mayLeave b = true → mayLeave a = true
  resume : ∀ b ∈ next, mayResume b = true → mayResume a = true
  stop : isStop a = false → ∀ b ∈ next, isStop b = false

lemma follows_of_plain
    (h : ∀ b ∈ next, (mayLeave b = false ∧ lowers b = none) ∧ mayResume b = false ∧
      isStop b = false) : Follows a next where
  orderly := orderly_of_stays fun b hb => (h b hb).1
  leave b hb hleave := by simp [(h b hb).1.1] at hleave
  resume b hb hresume := by simp [(h b hb).2.1] at hresume
  stop _ b hb := (h b hb).2.2

lemma exec_follows (h : exec sys choice a = some (sys', next)) : Follows a next := by
  cases a with
  | cancel | addPending | store =>
    cases h
    exact follows_of_plain (by simp)
  | testStopped p sig =>
    obtain ⟨-, rfl⟩ := h
    split_ifs with hresume
    · refine ⟨⟨by simp [leaves], by simp [mayLeave], by simp [lowers], trivial⟩, by simp [mayLeave],
        ?_, by simp [isStop]⟩
      intro b _ _
      exact (Bool.and_eq_true_iff.mp hresume).2
    · exact follows_of_plain (by simp [mayLeave, mayResume, isStop, lowers])
  | readState p =>
    simp only [exec] at h
    split at h <;> cases h
    · exact follows_of_plain (by simp)
    · split_ifs <;> exact follows_of_plain (by simp [mayLeave, mayResume, isStop, lowers])
  | action a =>
    cases a with
    | raise | resume | setStopped | blockIfMain | checkSignals | groupExists =>
      cases h
      constructor
      all_goals try split_ifs
      all_goals simp [Orderly, leaves, mayLeave, mayResume, isStop, lowers]
    | scan wanted options =>
      cases h
      unfold afterScan
      constructor <;> split
      all_goals try split_ifs
      all_goals simp [Orderly, leaves, mayLeave, mayResume, isStop, lowers]
    | collectGroup group sig =>
      cases h
      rw [List.map_map]
      refine ⟨orderly_of_stays ?_, ?_, fun _ _ _ => rfl, fun _ => ?_⟩ <;>
        simp only [List.forall_mem_map] <;> intro p _ <;> simp [mayLeave, isStop, lowers]
    | lookup pid sig =>
      simp only [exec, ProcessSystem.exec] at h
      split at h <;> cases h
      · exact follows_of_plain (by simp)
      · constructor <;> split_ifs <;> simp [Orderly, leaves, mayLeave, mayResume, isStop, lowers]
    | panicZombie => simp [exec, ProcessSystem.exec] at h
    | findTarget =>
      simp only [exec, ProcessSystem.exec] at h
      split at h
      · cases h
        exact follows_of_plain (by simp)
      · split at h <;> cases h
        all_goals exact follows_of_plain (by simp [mayLeave, mayResume, isStop, lowers])
    | createChild | notifyParent | take | resumeThread | report | startSession =>
      simp only [exec, ProcessSystem.exec] at h
      split at h <;> cases h
      all_goals exact follows_of_plain (by simp [mayLeave, mayResume, isStop, lowers])
    | broadcast sig =>
      simp only [exec, ProcessSystem.exec, Option.map_map, Option.map_eq_some_iff,
        Function.comp_apply, Prod.mk.injEq] at h
      obtain ⟨_, -, -, rfl⟩ := h
      exact follows_of_plain (by simp)
    | _ =>
      cases h
      exact follows_of_plain (by simp [mayLeave, mayResume, isStop, lowers])

/-- Only raising the flag makes the list of its thread one that blocks first. -/
lemma exec_blocksFirst {p : ℕ} (h : exec sys choice a = some (sys', next))
    (hself : sys.self = p) (hblocks : blocksFirst p (next ++ rest) = true) :
    blocksFirst p (a :: rest) = true ∨ a = .store p (.isStopped true) := by
  by_cases hstop : isStop a = true
  · unfold isStop at hstop
    split at hstop
    · cases h
      simp [hself, blocksFirst] at hblocks
    · exact .inl rfl
    · exact .inl rfl
    · rename_i q
      by_cases hqp : q = p
      · exact .inr (hqp ▸ rfl)
      · cases h
        simpa [blocksFirst, hqp] using hblocks
    · simp at hstop
  · rw [blocksFirst_append ((exec_follows h).stop (by simpa using hstop))] at hblocks
    rw [blocksFirst_cons (by simpa using hstop)]
    exact .inl hblocks

/-! ## The invariant -/

/-- The invariant of all runs that meet the side condition. -/
structure Inv (s : JobSystem) : Prop where
  sleepers : s.sys.sched.waitList .sleepers = []
  below : s.sys.ThreadsBelow
  wake : ∀ u t, .action (.unblock t) ∈ s.todo u → t < s.sys.nextThread
  fresh : ∀ u, s.sys.nextThread ≤ u → s.todo u = []
  owner : ∀ p t, (s.sys.process p).mainThread = some t → s.sys.processOf t = some p
  orderly : ∀ u, Orderly (s.todo u)
  atCpu : s.Runnable s.current ∨ (s.todo s.current).head? = some (.action .yield)
  awake : ∀ u, ∀ b ∈ s.todo u, mayResume b = true → s.Runnable u
  stopping : ∀ p t, (s.sys.process p).mainThread = some t →
    blocksFirst p (s.todo t) = true → (s.sys.process p).isStopped = true
  stopped : ∀ p t, (s.sys.process p).mainThread = some t → s.sys.sched.threadState t = .Stopped →
    (s.sys.process p).isStopped = true ∨ s.Resuming p

lemma inv_initial : Inv initial where
  sleepers := rfl
  below := threadsBelow_initial
  wake u t h := by simp [initial] at h
  fresh _ _ := rfl
  owner p t h := by
    simp only [initial, ProcessSystem.initial] at h
    split_ifs at h with hp
    cases h
    subst hp
    rfl
  orderly _ := trivial
  atCpu := .inl (.inl rfl)
  awake u b hb := by simp [initial] at hb
  stopping p t _ h := by simp [initial, blocksFirst] at h
  stopped p t _ h := by
    simp only [initial, ProcessSystem.initial] at h
    split_ifs at h

/-- Flags stay, and a thread that a process gets has nothing to do and is not stopped. -/
lemma Inv.change (h : Inv s) (hbelow : sys'.ThreadsBelow)
    (hnext : s.sys.nextThread ≤ sys'.nextThread)
    (hsleepers : s.sys.sched.waitList .sleepers = [] → sys'.sched.waitList .sleepers = [])
    (heases : s.sys.sched.Eases sys'.sched)
    (hcpu : sys'.sched.current = s.sys.sched.current ∨ sys'.sched.Runnable sys'.sched.current)
    (hmain : ∀ p t, (sys'.process p).mainThread = some t → sys'.processOf t = some p ∧
      ((s.sys.process p).mainThread = some t ∧
        (sys'.process p).isStopped = (s.sys.process p).isStopped ∨
      s.todo t = [] ∧ sys'.sched.threadState t ≠ .Stopped)) : Inv ⟨sys', s.todo⟩ where
  sleepers := hsleepers h.sleepers
  below := hbelow
  wake u t ht := Nat.lt_of_lt_of_le (h.wake u t ht) hnext
  fresh u hu := h.fresh u (hnext.trans hu)
  owner p t ht := (hmain p t ht).1
  orderly := h.orderly
  atCpu := by
    rcases hcpu with hcpu | hcpu
    · simp only [Runnable, current]
      rw [hcpu]
      exact h.atCpu.imp_left (heases.runnable _)
    · exact .inl hcpu
  awake u b hb hresume := heases.runnable u (h.awake u b hb hresume)
  stopping p t ht hblocks := by
    obtain ⟨-, ⟨hold, hflag⟩ | ⟨hnil, -⟩⟩ := hmain p t ht
    · exact hflag.trans (h.stopping p t hold hblocks)
    · simp [hnil, blocksFirst] at hblocks
  stopped p t ht hstop := by
    obtain ⟨-, ⟨hold, hflag⟩ | ⟨-, hnot⟩⟩ := hmain p t ht
    · rw [hflag]
      refine (h.stopped p t hold (heases.stopped t hstop)).imp_right ?_
      rintro ⟨u, hu, hrun⟩
      exact ⟨u, hu, heases.runnable u hrun⟩
    · exact absurd hstop hnot

lemma Inv.steady (h : Inv s) (hsteady : s.sys.Steady sys') (hbelow : sys'.ThreadsBelow) :
    Inv ⟨sys', s.todo⟩ := by
  refine h.change hbelow hsteady.nextThread.ge hsteady.sleepers hsteady.eases hsteady.cpu
    fun p t ht => ?_
  have hold := (hsteady.mainThread p).symm.trans ht
  exact ⟨hsteady.processOf ▸ h.owner p t hold, .inl ⟨hold, hsteady.isStopped p⟩⟩

lemma Inv.setTodo (h : Inv s) {u : ℕ} (hlt : u < s.sys.nextThread)
    (hord : Orderly l) (hwake : ∀ t, .action (.unblock t) ∈ l → t < s.sys.nextThread)
    (hcpu : u = s.current → s.Runnable u ∨ l.head? = some (.action .yield))
    (hawake : ∀ b ∈ l, mayResume b = true → s.Runnable u)
    (hblocks : ∀ p, (s.sys.process p).mainThread = some u → blocksFirst p l = true →
      (s.sys.process p).isStopped = true)
    (hresume : ∀ p, .action (.resumeThread p) ∈ s.todo u → .action (.resumeThread p) ∈ l ∨
      ∀ t, (s.sys.process p).mainThread = some t → s.sys.sched.threadState t ≠ .Stopped) :
    Inv { s with todo := update s.todo u l } where
  sleepers := h.sleepers
  below := h.below
  wake := (forall_update_iff s.todo fun _ l => ∀ t, .action (.unblock t) ∈ l →
    t < s.sys.nextThread).mpr ⟨hwake, fun v _ => h.wake v⟩
  fresh := (forall_update_iff s.todo fun v l => s.sys.nextThread ≤ v → l = []).mpr
    ⟨fun hle => absurd hle (Nat.not_le_of_lt hlt), fun v _ => h.fresh v⟩
  owner := h.owner
  orderly := (forall_update_iff s.todo fun _ l => Orderly l).mpr ⟨hord, fun v _ => h.orderly v⟩
  atCpu := by
    by_cases hu : u = s.current
    · rcases hcpu hu with hrun | hyield
      · exact .inl (hu ▸ hrun)
      · refine .inr ?_
        change (update s.todo u l s.current).head? = _
        rwa [← hu, update_self]
    · refine h.atCpu.imp_right fun hyield => ?_
      change (update s.todo u l s.current).head? = _
      rwa [update_of_ne (Ne.symm hu)]
  awake := (forall_update_iff s.todo fun v l => ∀ b ∈ l, mayResume b = true → s.Runnable v).mpr
    ⟨hawake, fun v _ => h.awake v⟩
  stopping p t ht hfirst := by
    by_cases htu : t = u
    · exact hblocks p (htu ▸ ht) (by simpa [htu] using hfirst)
    · exact h.stopping p t ht (by simpa [htu] using hfirst)
  stopped p t ht hstate := by
    refine (h.stopped p t ht hstate).imp_right ?_
    rintro ⟨v, hv, hrun⟩
    by_cases hvu : v = u
    · subst hvu
      rcases hresume p hv with hl | hnot
      · exact ⟨v, by simpa using hl, hrun⟩
      · exact absurd hstate (hnot t ht)
    · exact ⟨v, by simpa [hvu] using hv, hrun⟩

/-! ## Steps and runs -/

/-- The actions that stand for a call of one of the three functions. -/
def isCall : KernelAction → Bool
  | .raise .. | .resume _ | .setStopped => true
  | _ => false

lemma exec_action {a : KernelAction} (h : exec sys choice (.action a) = some (sys', next)) :
    isCall a = true ∧ sys' = sys ∨
      isCall a = false ∧ ∃ actions, sys.exec choice a = some (sys', actions) ∧
        next = actions.map .action := by
  have hmap (h' : (sys.exec choice a).map (fun r => (r.1, r.2.map JobStatement.action)) =
      some (sys', next)) : ∃ actions, sys.exec choice a = some (sys', actions) ∧
        next = actions.map .action := by
    obtain ⟨⟨sys₁, actions⟩, hexec, heq⟩ := Option.map_eq_some_iff.mp h'
    cases heq
    exact ⟨actions, hexec, rfl⟩
  cases a with
  | raise | resume | setStopped =>
    cases h
    exact .inl ⟨rfl, rfl⟩
  | _ => exact .inr ⟨rfl, hmap h⟩

/-- The statements that are `Steady`. -/
def isSteady : JobStatement → Bool
  | .action .createChild | .action (.startChild _) | .action (.block _) | .action .exitCurrent =>
      false
  | .store _ (.isStopped _) => false
  | _ => true

/-- What a statement does to the state. -/
inductive Effect (sys : ProcessSystem) : JobStatement → ProcessSystem → Prop
  | same (a : JobStatement) : Effect sys a sys
  | pending {a : JobStatement} (p : ℕ) (signals : U64) :
      Effect sys a (sys.setProcess p { sys.process p with pendingSignals := signals })
  | store (p : ℕ) (flag : StopFlag) :
      Effect sys (.store p flag) (sys.setProcess p (flag.assign (sys.process p)))
  | action {a : KernelAction} {sys' : ProcessSystem} (hcall : isCall a = false)
      (h : sys.Effect a sys') : Effect sys (.action a) sys'

lemma exec_effect (h : exec sys choice a = some (sys', next)) : Effect sys a sys' := by
  cases a with
  | cancel p sig =>
    cases h
    unfold Process.cancelled
    split_ifs
    exacts [.pending p _, .pending p _, .pending p (sys.process p).pendingSignals]
  | addPending p sig =>
    cases h
    exact .pending p _
  | store p flag =>
    cases h
    exact .store p flag
  | testStopped p sig =>
    cases h
    exact .same _
  | readState p =>
    simp only [exec] at h
    split at h <;> cases h <;> exact .same _
  | action a =>
    rcases exec_action h with ⟨-, rfl⟩ | ⟨hcall, actions, hexec, -⟩
    exacts [.same _, .action hcall (ProcessSystem.exec_effect hexec)]

lemma Effect.steady (he : Effect sys a sys') (hsteady : isSteady a = true) : sys.Steady sys' := by
  cases he with
  | same => exact .refl _
  | pending => exact steady_setProcess rfl rfl
  | store p flag =>
    cases flag <;> first | exact steady_setProcess rfl rfl | simp [isSteady] at hsteady
  | @action a _ hcall he =>
    refine he.steady ?_
    cases a <;> simp_all [isSteady, isCall, ProcessSystem.isSteady]

lemma Effect.below (he : Effect sys a sys') (hbelow : sys.ThreadsBelow)
    (hwake : ∀ t, a = .action (.unblock t) → t < sys.nextThread) :
    sys'.ThreadsBelow ∧ sys.nextThread ≤ sys'.nextThread := by
  cases he with
  | same => exact ⟨hbelow, Nat.le_refl _⟩
  | pending => exact ⟨hbelow.setProcess (.inr rfl), Nat.le_refl _⟩
  | store p flag => exact ⟨hbelow.setProcess (.inr (by cases flag <;> rfl)), Nat.le_refl _⟩
  | action _ he => exact he.below hbelow fun t ht => hwake t (ht ▸ rfl)

lemma exec_unblocks (hbelow : sys.ThreadsBelow) (h : exec sys choice a = some (sys', next)) {t : ℕ}
    (ht : .action (.unblock t) ∈ next) : t < sys.nextThread := by
  cases a with
  | readState p =>
    refine hbelow.mainThread p t ?_
    grind [exec]
  | action a =>
    rcases exec_action h with ⟨hcall, rfl⟩ | ⟨-, actions, hexec, rfl⟩
    · cases a <;> simp only [isCall, Bool.false_eq_true] at hcall <;> grind [exec]
    · exact ProcessSystem.exec_unblocks hbelow hexec (by simpa using ht)
  | _ => grind [exec]

lemma exec_yield (h : exec sys choice (.action .yield) = some (sys', next)) :
    sys'.sched.Runnable sys'.sched.current := by
  cases h
  exact .inl sys.sched.threadState_current_switchToNext

lemma exec_resumeThread {p t : ℕ}
    (h : exec sys choice (.action (.resumeThread p)) = some (sys', next))
    (ht : (sys'.process p).mainThread = some t) : sys'.sched.threadState t ≠ .Stopped := by
  simp only [exec, ProcessSystem.exec] at h
  split at h <;> cases h
  · simp_all
  case h_2 u hu =>
    obtain rfl : u = t := by simpa [hu] using ht
    rcases sys.sched.threadState_unblock_self u with hstate | hstate <;> simp [hstate]

section

variable (h : Inv s) (htodo : s.todo s.current = a :: rest)
include h htodo

/-- A statement that keeps the invariant while it is still on the list keeps it when the list goes
on. -/
lemma Inv.finish (hexec : exec s.sys choice a = some (sys', next)) (h' : Inv ⟨sys', s.todo⟩)
    (hrun : s.Runnable s.current → sys'.sched.Runnable s.current)
    (hof : sys'.processOf s.current = s.sys.processOf s.current) :
    Inv ⟨sys', update s.todo s.current (next ++ rest)⟩ := by
  have hfollows := exec_follows hexec
  have hmem : a ∈ s.todo s.current := htodo ▸ mem_cons_self
  have hrest : ∀ b ∈ rest, b ∈ s.todo s.current := fun b hb => htodo ▸ mem_cons_of_mem a hb
  have hle := ((exec_effect hexec).below h.below fun t ht => h.wake s.current t (ht ▸ hmem)).2
  obtain ⟨-, hleave, -, hord⟩ : Orderly (a :: rest) := htodo ▸ h.orderly s.current
  refine h'.setTodo (Nat.lt_of_lt_of_le h.below.sched.current hle)
    (hfollows.orderly.append hord fun ⟨b, hb, hmay⟩ => hleave (hfollows.leave b hb hmay))
    (fun t ht => ?_) (fun hcpu => .inl ?_) (fun b hb hmay => ?_) (fun p hp hblocks => ?_)
    fun p hp => ?_
  · rcases List.mem_append.mp ht with ht | ht
    · exact Nat.lt_of_lt_of_le (exec_unblocks h.below hexec ht) hle
    · exact h'.wake s.current t (hrest _ ht)
  · rcases h.atCpu with hcpu' | hyield
    · exact hrun hcpu'
    · obtain rfl : a = .action .yield := by simpa [htodo] using hyield
      exact hcpu ▸ exec_yield hexec
  · rcases List.mem_append.mp hb with hb | hb
    · exact h'.awake _ a hmem (hfollows.resume b hb hmay)
    · exact h'.awake _ b (hrest b hb) hmay
  · have hself : s.sys.self = p := by
      have howner : s.sys.processOf s.sys.sched.current = some p := hof.symm.trans (h'.owner p _ hp)
      rw [self, howner, Option.getD_some]
    rcases exec_blocksFirst hexec hself hblocks with hfirst | rfl
    · exact h'.stopping p _ hp (htodo ▸ hfirst)
    · cases hexec
      simp [setProcess, StopFlag.assign]
  · rw [htodo] at hp
    rcases List.mem_cons.mp hp with rfl | hp
    · exact .inr fun t ht => exec_resumeThread hexec ht
    · exact .inl (List.mem_append_right next hp)

omit h htodo in
/-- A flag may always be raised, and lowered by a `resume` that disturbs no `stop`. -/
lemma Inv.setFlag (h : Inv s) {p : ℕ} {value : Bool} (hlower : value = false → s.Resuming p ∧
      ∀ t, (s.sys.process p).mainThread = some t → blocksFirst p (s.todo t) = false) :
    Inv ⟨s.sys.setProcess p { s.sys.process p with isStopped := value }, s.todo⟩ := by
  have hmain : ∀ q, ((s.sys.setProcess p { s.sys.process p with isStopped := value }).process
      q).mainThread = (s.sys.process q).mainThread := by
    intro q
    by_cases hq : q = p <;> simp [setProcess, hq]
  refine ⟨h.sleepers, h.below.setProcess (.inr rfl), h.wake, h.fresh,
    fun q t ht => h.owner q t (hmain q ▸ ht), h.orderly, h.atCpu, h.awake, fun q t ht hblocks => ?_,
    fun q t ht hstate => ?_⟩
  · rw [hmain] at ht
    by_cases hq : q = p
    · subst hq
      cases value with
      | true => simp [setProcess]
      | false => exact absurd hblocks (by simp [(hlower rfl).2 t ht])
    · simpa [setProcess, hq] using h.stopping q t ht hblocks
  · rw [hmain] at ht
    by_cases hq : q = p
    · subst hq
      cases value with
      | true => simp [setProcess]
      | false => exact .inr (hlower rfl).1
    · refine (h.stopped q t ht hstate).imp_left fun hflag => ?_
      simpa [setProcess, hq] using hflag

/-- A thread that is about to take itself off the CPU has nothing but its state to change. -/
lemma Inv.tail_leaves (ha : leaves a = true) :
    Inv { s with todo := update s.todo s.current rest } := by
  obtain ⟨-, hleave, -, hord⟩ : Orderly (a :: rest) := htodo ▸ h.orderly s.current
  have hrest : ∀ b ∈ rest, b ∈ s.todo s.current := fun b hb => htodo ▸ mem_cons_of_mem a hb
  refine h.setTodo h.below.sched.current hord (fun t ht => h.wake s.current t (hrest _ ht))
    (fun _ => .inl ?_) (fun b hb hmay => h.awake _ b (hrest b hb) hmay) (fun p hp hblocks => ?_)
    fun p hp => .inl ?_
  · rcases h.atCpu with hrun | hyield
    · exact hrun
    · obtain rfl : a = .action .yield := by simpa [htodo] using hyield
      simp [leaves] at ha
  · refine h.stopping p _ hp ?_
    rw [htodo]
    by_cases hstop : isStop a = true
    · unfold leaves at ha
      split at ha
      · unfold isStop at hstop
        split at hstop <;> simp_all [blocksFirst]
      · simp [isStop] at hstop
      · simp at ha
    · rwa [blocksFirst_cons (by simpa using hstop)]
  · rw [htodo] at hp
    rcases List.mem_cons.mp hp with rfl | hp
    · simp [leaves] at ha
    · exact hp

/-- The current thread takes itself off the CPU, as a stopped one only if the flag is up. -/
lemma Inv.leave {state : ThreadState} (ha : leaves a = true)
    (hsched : sched = { s.sys.sched.setState s.current state with zombies := sched.zombies })
    (hflag : state = .Stopped → ∀ p, (s.sys.process p).mainThread = some s.current →
      (s.sys.process p).isStopped = true) :
    Inv ⟨{ s.sys with sched := sched }, update s.todo s.current rest⟩ := by
  have h' := h.tail_leaves htodo ha
  obtain ⟨hyield, hleave, -, -⟩ : Orderly (a :: rest) := htodo ▸ h.orderly s.current
  have hne : ∀ u, ∀ b ∈ update s.todo s.current rest u, mayResume b = true →
      u ≠ s.current := by
    rintro u b hb hmay rfl
    rw [update_self] at hb
    simp [hleave (mayLeave_of_leaves ha) b hb] at hmay
  have hstate : ∀ u, u ≠ s.current → sched.threadState u = s.sys.sched.threadState u :=
    fun u hu => by
    rw [hsched]
    exact update_of_ne hu ..
  have hrun : ∀ u, u ≠ s.current → s.Runnable u → sched.Runnable u := fun u hu hr => by
    rwa [Scheduler.Runnable, hstate u hu]
  have hcur : sched.current = s.current := by rw [hsched]; rfl
  refine ⟨?_, h'.below.of_sched ?_, h'.wake, h'.fresh, h'.owner, h'.orderly, .inr ?_,
    fun u b hb hmay => hrun u (hne u b hb hmay) (h'.awake u b hb hmay), h'.stopping,
    fun p t ht hstop => ?_⟩
  · rw [hsched]
    exact h.sleepers
  · rw [hsched]
    exact ⟨h.below.sched.current, h.below.sched.runQueue, h.below.sched.waiters⟩
  · change (update s.todo s.current rest sched.current).head? = _
    rw [hcur, update_self]
    exact hyield ha
  · by_cases htc : t = s.current
    · have hst : state = .Stopped := by
        rw [hsched] at hstop
        simpa [setState, htc] using hstop
      exact .inl (hflag hst p (htc ▸ ht))
    · refine (h'.stopped p t ht ((hstate t htc).symm.trans hstop)).imp_right ?_
      rintro ⟨u, hu, hr⟩
      exact ⟨u, hu, hrun u (hne u _ hu rfl) hr⟩

end

lemma Inv.createChild (h : Inv s) {p n : ℕ} {destroyed : ℕ → Bool} {child : Process}
    (hnone : child.mainThread = none) : Inv ⟨{ s.sys.setProcess p child with
      nextProcess := n, nextPid := pid, destroyed := destroyed }, s.todo⟩ := by
  have hbelow : (s.sys.setProcess p child).ThreadsBelow := h.below.setProcess (.inl hnone)
  refine h.change ⟨hbelow.sched, hbelow.mainThread⟩ (Nat.le_refl _) id (.refl _) (.inl rfl)
    fun q t ht => ?_
  have hq : q ≠ p := by
    rintro rfl
    simp [setProcess, hnone] at ht
  have hold : (s.sys.process q).mainThread = some t := by simpa [setProcess, hq] using ht
  exact ⟨h.owner q t hold, .inl ⟨hold, by simp [setProcess, hq]⟩⟩

lemma Inv.addThread (h : Inv s) {p : ℕ} (hbelow : (s.sys.addThread p).ThreadsBelow) :
    Inv ⟨s.sys.addThread p, s.todo⟩ := by
  have hcur : (s.sys.addThread p).sched.current = s.sys.sched.current := by
    simp only [ProcessSystem.addThread, enqueue, current_runAppend, setState]
    split_ifs <;> rfl
  refine h.change hbelow (Nat.le_succ _) (by simp [ProcessSystem.addThread])
    (s.sys.sched.eases_enqueue _) (.inl hcur) fun q t ht => ?_
  rcases ProcessSystem.mainThread_addThread ht with hold | ⟨rfl, rfl⟩
  · have hne : t ≠ s.sys.nextThread := Nat.ne_of_lt (h.below.mainThread q t hold)
    refine ⟨by simpa [ProcessSystem.addThread, hne] using h.owner q t hold, .inl ⟨hold, ?_⟩⟩
    by_cases hq : q = p <;> simp [ProcessSystem.addThread, ProcessSystem.setProcess, hq]
  · refine ⟨by simp [ProcessSystem.addThread], .inr ⟨h.fresh _ (Nat.le_refl _), ?_⟩⟩
    simp [ProcessSystem.addThread, enqueue, setState]

lemma perform_cases (h : s.perform choice = some s') :
    ∃ a rest sys' next, s.todo s.current = a :: rest ∧ exec s.sys choice a = some (sys', next) ∧
      s' = ⟨sys', update s.todo s.current (next ++ rest)⟩ := by
  unfold perform at h
  split at h
  · cases h
  case h_2 a rest htodo =>
    obtain ⟨⟨sys', next⟩, hexec, rfl⟩ := Option.map_eq_some_iff.mp h
    exact ⟨a, rest, sys', next, htodo, hexec, rfl⟩

lemma inv_perform (h : Inv s) (hside : Undisturbed s (.perform choice))
    (hstep : s.perform choice = some s') : Inv s' := by
  obtain ⟨a, rest, sys', next, htodo, hexec, rfl⟩ := perform_cases hstep
  have hmem : a ∈ s.todo s.current := htodo ▸ mem_cons_self
  have hbelow := ((exec_effect hexec).below h.below fun t ht => h.wake s.current t (ht ▸ hmem)).1
  have hfinish (hst : s.sys.Steady sys') : Inv ⟨sys', update s.todo s.current (next ++ rest)⟩ :=
    h.finish htodo hexec (h.steady hst hbelow) (hst.eases.runnable _) (congrFun hst.processOf _)
  by_cases hsteady : isSteady a = true
  · exact hfinish ((exec_effect hexec).steady hsteady)
  -- left are two actions of `fork`, two that leave the CPU, and the stores to the flag
  unfold isSteady at hsteady
  split at hsteady
  case h_6 => simp at hsteady
  case h_1 =>
    cases choice <;> obtain ⟨rfl, -⟩ := Prod.mk.inj (Option.some.inj hexec)
    · exact hfinish (.refl _)
    · exact h.finish htodo hexec (h.createChild rfl) id rfl
  case h_2 p =>
    cases choice <;> obtain ⟨rfl, -⟩ := Prod.mk.inj (Option.some.inj hexec)
    · exact hfinish (.refl _)
    · refine h.finish htodo hexec (h.addThread hbelow) ((s.sys.sched.eases_enqueue _).runnable _) ?_
      exact update_of_ne (Nat.ne_of_lt h.below.sched.current) ..
  case h_3 reason =>
    obtain ⟨rfl, rfl⟩ := Prod.mk.inj (Option.some.inj hexec)
    refine h.leave htodo rfl rfl ?_
    rintro rfl p hp
    exact h.stopping p _ hp (by rw [htodo]; rfl)
  case h_4 =>
    obtain ⟨rfl, rfl⟩ := Prod.mk.inj (Option.some.inj hexec)
    have hzombie : s.sys.sched.exitCurrent = { s.sys.sched.setState s.current .Zombie with
        zombies := s.sys.sched.exitCurrent.zombies } := by
      unfold exitCurrent
      split_ifs <;> rfl
    exact h.leave htodo rfl hzombie (by simp)
  case h_5 p value =>
    obtain ⟨rfl, -⟩ := Prod.mk.inj (Option.some.inj hexec)
    refine h.finish htodo hexec (h.setFlag ?_) id rfl
    rintro rfl
    obtain ⟨-, -, hlowers, -⟩ : Orderly (_ :: rest) := htodo ▸ h.orderly s.current
    have hresume : .action (.resumeThread p) ∈ s.todo s.current :=
      htodo ▸ mem_cons_of_mem _ (hlowers p rfl)
    exact ⟨⟨s.current, hresume, h.awake _ _ hresume rfl⟩,
      fun t ht => hside (.store p (.isStopped false)) (by simp [htodo]) p rfl t ht⟩

lemma Inv.runnable_of_user (h : Inv s) (huser : s.todo s.current = []) : s.Runnable s.current :=
  h.atCpu.resolve_right (by simp [huser])

/-- What a thread may have to do when it enters the kernel. -/
structure Enters (actions : List KernelAction) : Prop where
  orderly : Orderly (actions.map .action)
  wake : ∀ t, .unblock t ∉ actions
  blocks : ∀ p, blocksFirst p (actions.map .action) = false

lemma enters_exit (self : ℕ) : Enters (exitActions self) where
  orderly := by simp [exitActions, Orderly, leaves, mayLeave, mayResume, lowers]
  wake := by simp [exitActions]
  blocks _ := rfl

lemma enters_stop (self : ℕ) : Enters (stopActions self) where
  orderly := by simp [stopActions, Orderly, leaves, mayLeave, lowers]
  wake := by simp [stopActions]
  blocks _ := rfl

lemma inv_enter (h : Inv s) {actions : List KernelAction} (henters : Enters actions)
    (hstep : s.enter actions = some s') : Inv s' := by
  unfold enter at hstep
  split_ifs at hstep with huser
  cases hstep
  have hrun := h.runnable_of_user huser.2
  refine h.setTodo h.below.sched.current henters.orderly (fun t ht => ?_) (fun _ => .inl hrun)
    (fun _ _ _ => hrun) (fun p _ hfirst => ?_) fun p hp => ?_
  · exact absurd (by simpa using ht) (henters.wake t)
  · simp [henters.blocks p] at hfirst
  · simp [huser.2] at hp

lemma inv_deliver (h : Inv s) {disp : Disposition} (hstep : s.deliver disp = some s') : Inv s' := by
  have htaken : Inv ⟨s.sys.setProcess s.sys.self
      (s.sys.process s.sys.self).takePendingSignal.2, s.todo⟩ := by
    refine h.steady (steady_setProcess ?_ ?_) (h.below.setProcess (.inr ?_)) <;>
      unfold Process.takePendingSignal <;> split <;> rfl
  unfold deliver at hstep
  dsimp only at hstep
  rcases deliverActions_cases s.sys.self (s.sys.process s.sys.self).takePendingSignal.1
    disp with hact | hact | hact | hact <;> rw [hact] at hstep
  · exact inv_enter htaken ⟨orderly_of_stays (by simp), by simp, fun _ => rfl⟩ hstep
  · exact inv_enter htaken (enters_exit _) hstep
  · exact inv_enter htaken (enters_stop _) hstep
  · exact inv_enter htaken ⟨orderly_of_stays (by simp [mayLeave, lowers]), by simp, fun _ => rfl⟩
      hstep

lemma inv_step (s : JobSystem) (a : ProcessStep) (s' : JobSystem) (h : Inv s)
    (hside : Undisturbed s a) (hstep : s.step a = some s') : Inv s' := by
  cases a with
  | tick now expired =>
    cases hstep
    rcases s.sys.sched.onTimerTick_of_no_sleepers h.sleepers now expired with htick | htick
    · simpa only [htick] using h
    · rw [htick]
      exact h.steady (steady_sched s.sys.sched.eases_switchToNext
        (.inr (.inl s.sys.sched.threadState_current_switchToNext)) (by simp))
        (h.below.of_sched h.below.sched.switchToNext)
  | perform choice => exact inv_perform h hside hstep
  | fork | setpgid | setsid =>
    exact inv_enter h ⟨orderly_of_stays (by simp [mayLeave, lowers]), by simp, fun _ => rfl⟩ hstep
  | exit => exact inv_enter h (enters_exit _) hstep
  | waitpid wanted options =>
    exact inv_enter h ⟨by simp [Orderly, leaves, lowers], by simp, fun _ => rfl⟩ hstep
  | kill pid sig =>
    simp only [step, killActions] at hstep
    split_ifs at hstep <;>
      exact inv_enter h ⟨orderly_of_stays (by simp [mayLeave, lowers]), by simp, fun _ => rfl⟩ hstep
  | deliver disp => exact inv_deliver h hstep
  | reap =>
    simp only [step, reap] at hstep
    split_ifs at hstep with hidle
    cases hzombies : s.sys.sched.zombies <;>
      simp only [takeZombie, hzombies, Option.some.injEq, reduceCtorEq] at hstep
    case cons t rest =>
      subst hstep
      have hst : s.sys.Steady { s.sys with sched := { s.sys.sched with
          zombies := rest, allThreads := s.sys.sched.allThreads.erase t } } :=
        steady_sched (.of_threadState rfl) (.inl rfl) id
      have h' := h.steady hst
        (h.below.of_sched ⟨h.below.sched.current, h.below.sched.runQueue, h.below.sched.waiters⟩)
      refine h'.setTodo (hidle.1 ▸ h.below.sched.current)
        (orderly_of_stays (by simp [mayLeave, lowers])) (by simp)
        (fun _ => .inl (hidle.1 ▸ h.runnable_of_user (hidle.1 ▸ hidle.2))) (by simp [mayResume])
        (by simp [blocksFirst]) (by simp [hidle.2])

/-! ## What a signal does to a stopped process -/

/-- The current thread, left alone, gets to a state in which `Q` holds. -/
def Reaches (s : JobSystem) (Q : JobSystem → Prop) : Prop :=
  ∃ n s', run step s (replicate n (.perform true)) = some s' ∧ Q s'

lemma Reaches.later {s₁ : JobSystem} (hstep : s.perform true = some s₁) (h : s₁.Reaches Q) :
    s.Reaches Q := by
  obtain ⟨n, s', hrun, hQ⟩ := h
  exact ⟨n + 1, s', run_cons.mpr ⟨s₁, hstep, hrun⟩, hQ⟩

lemma Reaches.bind {P : JobSystem → Prop} (h : s.Reaches P) (hP : ∀ s', P s' → s'.Reaches Q) :
    s.Reaches Q := by
  obtain ⟨n, s₁, hrun, hs₁⟩ := h
  obtain ⟨m, s₂, hrun', hs₂⟩ := hP s₁ hs₁
  refine ⟨n + m, s₂, ?_, hs₂⟩
  rw [List.replicate_add]
  exact run_append.mpr ⟨s₁, hrun, hrun'⟩

/-- Thread `u` is on the CPU with `rest` to do, and thread `t`, the main thread of process `p`, is
stopped, or ready since. -/
structure Within (u p t : ℕ) (rest : List JobStatement) (s : JobSystem) : Prop where
  cpu : s.current = u
  todo : s.todo u = rest
  main : (s.sys.process p).mainThread = some t
  held : s.sys.sched.threadState t = .Stopped ∨ s.sys.sched.threadState t = .Ready

variable {u p t : ℕ}

lemma Within.reaches (h : Within u p t (a :: rest) s)
    (hexec : exec s.sys true a = some (sys', next))
    (hcpu : sys'.sched.current = s.sys.sched.current)
    (hmain : (sys'.process p).mainThread = (s.sys.process p).mainThread)
    (hheld : sys'.sched.threadState t = .Stopped ∨ sys'.sched.threadState t = .Ready)
    (hrest : Within u p t (next ++ rest) ⟨sys', update s.todo u (next ++ rest)⟩ →
      Reaches ⟨sys', update s.todo u (next ++ rest)⟩ Q) : s.Reaches Q := by
  have hperf : s.perform true = some ⟨sys', update s.todo u (next ++ rest)⟩ := by
    simp [perform, h.cpu, h.todo, hexec]
  exact .later hperf
    (hrest ⟨hcpu.trans h.cpu, update_self .., hmain.trans h.main, hheld⟩)

lemma held_unblock (h : sched.threadState t = .Stopped ∨ sched.threadState t = .Ready) :
    (sched.unblock v).threadState t = .Stopped ∨ (sched.unblock v).threadState t = .Ready := by
  by_cases htv : t = v
  · subst htv
    rcases h with h | h <;> simp [unblock, h, setState]
  · rwa [sched.threadState_unblock_of_ne htv]

lemma Within.unblock (h : Within u p t (.action (.unblock v) :: rest) s) :
    s.Reaches fun s' => Within u p t rest s' ∧
      ∀ q, s'.sys.sched.waitList (.queue q) = s.sys.sched.waitList (.queue q) := by
  refine h.reaches rfl (by simp) rfl (held_unblock h.held) fun h' => ⟨0, _, rfl, h', fun q => ?_⟩
  simp only [Scheduler.unblock]
  split_ifs
  · rfl
  · simp only [Scheduler.waitList_runAppend, Scheduler.setState, Scheduler.waitRemove]
    split_ifs <;> simp
  · simp [Scheduler.setState]

/-- The loop of `wake_all`, by induction on the length of the queue. -/
lemma Within.take : ∀ {n : ℕ} {s : JobSystem}, (s.sys.sched.waitList (.queue q)).length = n →
    Within u p t (.action (.take q) :: rest) s →
    s.Reaches (Within u p t ((if q ≠ POLL then [.action (.bump POLL)] else []) ++ rest))
  | 0, s, hlen, h => by
    have hnil : s.sys.sched.waitList (.queue q) = [] := List.length_eq_zero_iff.mp hlen
    have hexec : exec s.sys true (.action (.take q)) =
        some (s.sys, if q ≠ POLL then [.action (.bump POLL)] else []) := by
      simp only [exec, ProcessSystem.exec, waitTakeFirst, hnil, map_some]
      split_ifs <;> rfl
    exact h.reaches hexec rfl rfl h.held fun h' => ⟨0, _, rfl, h'⟩
  | n + 1, s, hlen, h => by
    obtain ⟨v, waiters, hcons⟩ := List.exists_cons_of_length_eq_add_one hlen
    have hexec : exec s.sys true (.action (.take q)) =
        some ({ s.sys with sched := { s.sys.sched with
          waitList := update s.sys.sched.waitList (.queue q) waiters
          waitLinked := update s.sys.sched.waitLinked v false } },
        [.action (.unblock v), .action (.take q)]) := by
      simp [exec, ProcessSystem.exec, waitTakeFirst, hcons]
    refine h.reaches hexec rfl rfl h.held fun h' => h'.unblock.bind fun s' hs' => ?_
    obtain ⟨hw, hqueue⟩ := hs'
    have hless : (s'.sys.sched.waitList (.queue q)).length = n := by
      simpa [hqueue q, hcons] using hlen
    exact Within.take hless hw

lemma Within.bump (h : Within u p t (.action (.bump q) :: rest) s) :
    s.Reaches (Within u p t rest) := by
  have hpoll : ∀ {s : JobSystem}, Within u p t (.action (.bump POLL) :: rest) s →
      s.Reaches (Within u p t rest) := fun h =>
    h.reaches rfl rfl rfl h.held fun h' => by simpa using Within.take rfl h'
  refine h.reaches rfl rfl rfl h.held fun h' => (Within.take rfl h').bind fun s' hw => ?_
  split_ifs at hw
  · exact hpoll hw
  · exact ⟨0, s', rfl, hw⟩

lemma Within.assign {process : Process} (h : Within u p t (a :: rest) s)
    (hexec : exec s.sys true a = some (s.sys.setProcess q process, []))
    (hmain : process.mainThread = (s.sys.process q).mainThread)
    (hrest : Within u p t rest ⟨s.sys.setProcess q process, update s.todo u rest⟩ →
      Reaches ⟨s.sys.setProcess q process, update s.todo u rest⟩ Q) : s.Reaches Q := by
  refine h.reaches hexec rfl ?_ h.held hrest
  by_cases hp : p = q
  · subst hp
    simpa [setProcess] using hmain
  · simp [setProcess, hp]

lemma Within.readState (h : Within u p t (.readState q :: rest) s) :
    s.Reaches (Within u p t rest) := by
  cases hmain : (s.sys.process q).mainThread with
  | none =>
    have hexec : exec s.sys true (.readState q) = some (s.sys, []) := by simp [exec, hmain]
    exact h.reaches hexec rfl rfl h.held fun h' => ⟨0, _, rfl, h'⟩
  | some v =>
    have hexec : exec s.sys true (.readState q) =
        some (s.sys, if s.sys.sched.threadState v = .Blocked ∨ s.sys.sched.threadState v = .Sleeping
          then [.action (.unblock v)] else []) := by simp [exec, hmain]
    refine h.reaches hexec rfl rfl h.held fun h' => ?_
    split_ifs at h' ⊢
    · exact h'.unblock.bind fun s' hs' => ⟨0, s', rfl, hs'.1⟩
    · exact ⟨0, _, rfl, h'⟩

lemma Within.raise (hsig : continues sig = false)
    (h : Within u p t (.action (.raise q sig) :: rest) s) : s.Reaches (Within u p t rest) := by
  have htest : ∀ sys, exec sys true (.testStopped q sig) = some (sys, [.readState q]) := by
    intro sys
    have hcond : ((sys.process q).isStopped && (sig == SIGCONT || sig == SIGKILL)) = false := by
      change ((sys.process q).isStopped && continues sig) = false
      rw [hsig, Bool.and_false]
    simp [exec, hcond]
  refine h.reaches rfl rfl rfl h.held fun h' => ?_
  split_ifs at h' ⊢
  · exact ⟨0, _, rfl, h'⟩
  refine h'.assign rfl (by simp) fun h₁ => h₁.assign rfl rfl fun h₂ => ?_
  exact h₂.reaches (htest _) rfl rfl h₂.held fun h₃ => h₃.readState

lemma Within.notifyParent (h : Within u p t (.action (.notifyParent q) :: rest) s) :
    s.Reaches (Within u p t rest) := by
  cases hpar : s.sys.byPid (s.sys.process q).parentPid with
  | none =>
    have hexec : exec s.sys true (.action (.notifyParent q)) = some (s.sys, []) := by
      simp [exec, ProcessSystem.exec, hpar]
    exact h.reaches hexec rfl rfl h.held fun h' => ⟨0, _, rfl, h'⟩
  | some parent =>
    have hexec : exec s.sys true (.action (.notifyParent q)) = some (s.sys,
        [.action (.raise parent SIGCHLD),
          .action (.bump (childExitQueue parent))]) := by
      simp [exec, ProcessSystem.exec, hpar]
    exact h.reaches hexec rfl rfl h.held fun h' =>
      (h'.raise continues_SIGCHLD).bind fun s' hs' => hs'.bump

/-- The body of `resume`, for a process whose flag is up, makes its thread ready. -/
lemma Within.resume (hflag : (s.sys.process p).isStopped = true)
    (h : Within u p t (.action (.resume p) :: rest) s) :
    s.Reaches fun s' => s'.sys.sched.threadState t = .Ready := by
  have hexec : exec s.sys true (.action (.resume p)) = some (s.sys,
      [.store p (.isStopped false), .store p (.stopPending false),
        .store p (.continuePending true), .action (.notifyParent p),
        .action (.resumeThread p)]) := by simp [exec, hflag]
  refine h.reaches hexec rfl rfl h.held fun h₁ => h₁.assign rfl rfl fun h₂ => ?_
  refine h₂.assign rfl rfl fun h₃ => h₃.assign rfl rfl fun h₄ => ?_
  refine h₄.notifyParent.bind fun s' hs' => ?_
  have hexec' : exec s'.sys true (.action (.resumeThread p)) =
      some ({ s'.sys with sched := s'.sys.sched.unblock t }, []) := by
    simp [exec, ProcessSystem.exec, hs'.main]
  refine hs'.reaches hexec' (by simp) rfl (held_unblock hs'.held) fun h₅ => ⟨0, _, rfl, ?_⟩
  rcases hs'.held with hstate | hstate <;> simp [Scheduler.unblock, hstate, Scheduler.setState]

lemma Within.testStopped (hsig : continues sig = true) (hflag : (s.sys.process p).isStopped = true)
    (h : Within u p t (.testStopped p sig :: rest) s) :
    s.Reaches fun s' => s'.sys.sched.threadState t = .Ready := by
  have hexec : exec s.sys true (.testStopped p sig) = some (s.sys, [.action (.resume p)]) := by
    have hcond : ((s.sys.process p).isStopped && (sig == SIGCONT || sig == SIGKILL)) = true := by
      change ((s.sys.process p).isStopped && continues sig) = true
      rw [hflag, hsig, Bool.and_true]
    simp [exec, hcond]
  exact h.reaches hexec rfl rfl h.held fun h' => h'.resume hflag

/-- `SIGCONT` or `SIGKILL`, sent to a stopped process whose flag is up, makes its thread ready. -/
lemma kill_continues (hpid : 0 < pid) (hp : s.sys.byPid pid = some p)
    (hsig : continues sig = true) (hflag : (s.sys.process p).isStopped = true)
    (hmain : (s.sys.process p).mainThread = some t)
    (hstop : s.sys.sched.threadState t = .Stopped) (hidle : s.current ≠ IDLE)
    (huser : s.todo s.current = []) :
    ∃ n s', run step s (.kill pid sig :: replicate n (.perform true)) = some s' ∧
      s'.sys.sched.threadState t = .Ready := by
  have hrange : sig ≠ 0 ∧ ¬ NSIG ≤ sig := by
    simp only [continues, Bool.or_eq_true, beq_iff_eq] at hsig
    rcases hsig with rfl | rfl <;> decide
  have hkill : s.step (.kill pid sig) = some { s with
      todo := update s.todo s.current [.action (.lookup pid sig)] } := by
    have h₁ : ¬ (pid < -1 ∨ pid = 0) := by omega
    have h₂ : pid ≠ -1 := by omega
    simp [step, enter, killActions, hrange.2, h₁, h₂, hidle, huser]
  have hstart : Within s.current p t [.action (.lookup pid sig)] { s with
      todo := update s.todo s.current [.action (.lookup pid sig)] } :=
    ⟨rfl, update_self .., hmain, .inl hstop⟩
  have hlook : exec s.sys true (.action (.lookup pid sig)) =
      some (s.sys, [.action (.raise p sig)]) := by
    simp [exec, ProcessSystem.exec, hp, hrange.1]
  have hraise : exec s.sys true (.action (.raise p sig)) =
      some (s.sys, [.cancel p sig, .addPending p sig, .testStopped p sig]) := by
    simp [exec, hrange]
  suffices hreach : Reaches { s with
      todo := update s.todo s.current [.action (.lookup pid sig)] }
      fun s' => s'.sys.sched.threadState t = .Ready by
    obtain ⟨n, s', hrun, hready⟩ := hreach
    exact ⟨n, s', run_cons.mpr ⟨_, hkill, hrun⟩, hready⟩
  refine hstart.reaches hlook rfl rfl (.inl hstop) fun h₁ => ?_
  refine h₁.reaches hraise rfl rfl (.inl hstop) fun h₂ => ?_
  refine h₂.assign rfl (by simp) fun h₃ => h₃.assign rfl rfl fun h₄ => ?_
  refine Within.testStopped hsig ?_ h₄
  simp [setProcess, Process.withPending, hflag]

/-! ## Continuing a stopped process -/

instance : ∀ a, Decidable (s.Undisturbed a)
  | .perform _ => inferInstanceAs (Decidable (∀ a ∈ (s.todo s.current).head?, ∀ p ∈ lowers a,
      ∀ t ∈ (s.sys.process p).mainThread, blocksFirst p (s.todo t) = false))
  | .tick _ _ | .fork | .exit | .waitpid _ _ | .kill _ _ | .setpgid _ _ | .setsid | .deliver _
  | .reap => .isTrue trivial

/-- Init forks and sends `SIGSTOP` to its child, which is about to deliver it. -/
def stopSent : List ProcessStep :=
  [.tick 0 true, .fork] ++ performs 3 ++ [.kill 2 SIGSTOP] ++ performs 6 ++
    [.tick 0 true, .deliver .default]

/-- The timer goes off when the child has raised its flag.  Init sends `SIGCONT`, which lowers the
flag and finds the child ready; the child goes on and takes itself off the CPU. -/
def continuedTooEarly : List ProcessStep :=
  stopSent ++ performs 2 ++ [.tick 0 true, .kill 2 SIGCONT] ++ performs 20 ++ [.tick 0 true] ++
    performs 15

end JobSystem
end ShitOs
