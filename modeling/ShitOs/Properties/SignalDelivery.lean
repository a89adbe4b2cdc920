import ShitOs.Framework.Transition
import ShitOs.Construction.SignalDelivery

/-!
# Restarted system calls

A system call that returns `EINTR` leaves a mark in its thread, and the delivery of a signal the
program does not see takes the mark off and rewinds the frame, so that the call is taken again.  The
property (`Sound`): only the frame of the interrupted call itself is rewound, and at most once.

Delivery does not always take the mark off: it stays when the signal has a handler without
`SA_RESTART`, and when nothing can be delivered at all.  The next system call clears it, but a fault
does not: its delivery runs with the old mark and the frame of the fault.  So the property holds in
a run just if no delivery of a fault takes off a mark (`Settled`), and since a frame that has been
rewound stays in the history, this is an equivalence over whole runs.
-/

namespace ShitOs
namespace SignalSystem

open Transition

variable {s s' : SignalSystem} {P : Prop} {s₁ : SignalSystem}

/-! ## The property and the side condition -/

/-- Every frame that has been rewound is that of a call that had returned `EINTR`, with the number
of that call, and none has been rewound twice. -/
structure Sound (s : SignalSystem) : Prop where
  own : ∀ r ∈ s.restarts, r ∈ s.interrupted
  once : (s.restarts.map Prod.fst).Nodup

/-- Whether `deliver_pending_signal` treats `signal` as something the program does not see, so that
a call it interrupted is taken again. -/
def Transparent (s : SignalSystem) (signal : ℕ) : Prop :=
  signal ≠ 0 ∧ signal ≠ SIGKILL ∧
    (signal = SIGSTOP ∨ s.signalDisposition signal = SIG_IGN ∨
      s.signalDisposition signal = SIG_DFL ∧ signalTerminatesByDefault signal = false ∨
      s.signalDisposition signal ≠ SIG_DFL ∧ s.signalRestorer signal ≠ 0 ∧
        s.signalFlags signal &&& SA_RESTART ≠ 0 ∧
        (s.pushContext signal (s.signalRestorer signal)).any fun m =>
          (m.copyToUser s.contextAddress (s.frame.restarted s.restartable).words).isSome)

/-- A delivery now would rewind a frame: the mark is set, and the signal that is next is
transparent. -/
def Rewinds (s : SignalSystem) : Prop :=
  s.restartable ≠ NO_RESTART ∧ s.process.pid ≠ 0 ∧ s.process.hasPendingSignals = true ∧
    { s with process := s.process.takePendingSignal.2 }.Transparent s.process.takePendingSignal.1

/-- **The side condition on a run.**  When a fault is delivered, no call is left to be taken again,
or the signal is not one that would take it again. -/
def Settled (s : SignalSystem) : SignalStep → Prop
  | .fault vector errorCode => ¬ (s.faulted vector errorCode).Rewinds
  | _ => True

instance (signal : ℕ) : Decidable (s.Transparent signal) := by
  unfold Transparent
  infer_instance

instance : Decidable s.Rewinds := by
  unfold Rewinds
  infer_instance

instance (s : SignalSystem) (a : SignalStep) : Decidable (Settled s a) := by
  cases a <;> unfold Settled <;> infer_instance

instance : Decidable s.Sound :=
  decidable_of_iff ((∀ r ∈ s.restarts, r ∈ s.interrupted) ∧ (s.restarts.map Prod.fst).Nodup)
    ⟨fun ⟨h, h'⟩ => ⟨h, h'⟩, fun ⟨h, h'⟩ => ⟨h, h'⟩⟩

/-! ## Delivery -/

/-- From `s` to `s'` the frame of the current entry is rewound, for the call the mark is about, just
if `P` holds, and nothing else enters the history. -/
structure Logs (P : Prop) (s s' : SignalSystem) : Prop where
  entries : s'.entries = s.entries
  interrupted : s'.interrupted = s.interrupted
  rewound : P → s'.restarts = (s.entries, s.restartable) :: s.restarts
  kept : ¬ P → s'.restarts = s.restarts

lemma Logs.congr {Q : Prop} (h : Logs P s s') (hPQ : P ↔ Q) : Logs Q s s' :=
  ⟨h.entries, h.interrupted, fun hq => h.rewound (hPQ.mpr hq), fun hq => h.kept (hq ∘ hPQ.mp)⟩

lemma logs_of_not (hP : ¬ P) (hentries : s'.entries = s.entries)
    (hint : s'.interrupted = s.interrupted) (hrest : s'.restarts = s.restarts) : Logs P s s' :=
  ⟨hentries, hint, fun h => absurd h hP, fun _ => hrest⟩

lemma logs_restartInterruptedSyscall (s : SignalSystem) :
    Logs (s.restartable ≠ NO_RESTART) s s.restartInterruptedSyscall := by
  unfold restartInterruptedSyscall
  split_ifs with hmark
  · exact logs_of_not (not_not_intro hmark) rfl rfl rfl
  · exact ⟨rfl, rfl, fun _ => rfl, fun h => absurd hmark h⟩

/-- A handler that is entered rewinds the saved frame just if it is to be invisible. -/
lemma logs_runHandler (s : SignalSystem) (sig : ℕ) (handler : U64) :
    Logs (s.restartable ≠ NO_RESTART ∧ s.signalRestorer sig ≠ 0 ∧
      s.signalFlags sig &&& SA_RESTART ≠ 0 ∧
      (s.pushContext sig (s.signalRestorer sig)).any fun m =>
        (m.copyToUser s.contextAddress (s.frame.restarted s.restartable).words).isSome)
      s (s.runHandler sig handler) := by
  unfold runHandler
  by_cases hrestorer : s.signalRestorer sig = 0
  · rw [if_pos hrestorer]
    split_ifs <;> exact logs_of_not (fun h => h.2.1 hrestorer) rfl rfl rfl
  rw [if_neg hrestorer]
  cases hpush : s.pushContext sig (s.signalRestorer sig) with
  | none => exact logs_of_not (by simp) rfl rfl rfl
  | some memory =>
    dsimp only
    split_ifs with hvisible
    · cases hcopy : memory.copyToUser s.contextAddress
          (s.frame.restarted s.restartable).words with
      | none => exact logs_of_not (by simp [hcopy]) rfl rfl rfl
      | some memory' =>
        refine ⟨rfl, rfl, fun _ => rfl, fun h => absurd ?_ h⟩
        exact ⟨hvisible.2, hrestorer, hvisible.1, by simp [hcopy]⟩
    · exact logs_of_not (fun h => hvisible ⟨h.2.2.1, h.1⟩) rfl rfl rfl

lemma logs_deliverSignal (s : SignalSystem) (sig : ℕ) :
    Logs (s.restartable ≠ NO_RESTART ∧ s.Transparent sig) s (s.deliverSignal sig) := by
  have hrestart : s.Transparent sig →
      Logs (s.restartable ≠ NO_RESTART ∧ s.Transparent sig) s s.restartInterruptedSyscall :=
    fun h => s.logs_restartInterruptedSyscall.congr (and_iff_left h).symm
  unfold deliverSignal
  dsimp only
  split_ifs with hzero hkill hstop hcont hign hdfl hstops hterminates
  · exact logs_of_not (fun h => h.2.1 hzero) rfl rfl rfl
  · exact logs_of_not (fun h => h.2.2.1 hkill) rfl rfl rfl
  · exact hrestart ⟨hzero, hkill, .inl hstop⟩
  · refine hrestart ⟨hzero, hkill, .inr ?_⟩
    exact hcont.2.imp_right fun h => .inl ⟨h, hcont.1 ▸ by decide⟩
  · exact hrestart ⟨hzero, hkill, .inr (.inl hign)⟩
  · refine hrestart ⟨hzero, hkill, .inr (.inr (.inl ⟨hdfl, ?_⟩))⟩
    simp [signalTerminatesByDefault, hstops]
  · exact hrestart ⟨hzero, hkill, .inr (.inr (.inl ⟨hdfl, by simpa using hterminates⟩))⟩
  · refine logs_of_not ?_ rfl rfl rfl
    rintro ⟨-, -, -, h | h | ⟨-, h⟩ | ⟨h, -⟩⟩
    · exact hstop h
    · exact hign h
    · simp [h] at hterminates
    · exact h hdfl
  · refine (s.logs_runHandler sig _).congr ⟨fun ⟨hmark, h⟩ => ?_, ?_⟩
    · exact ⟨hmark, hzero, hkill, .inr (.inr (.inr ⟨hdfl, h⟩))⟩
    · rintro ⟨hmark, -, -, h | h | ⟨h, -⟩ | ⟨-, h⟩⟩
      · exact absurd h hstop
      · exact absurd h hign
      · exact absurd h hdfl
      · exact ⟨hmark, h⟩

/-- **What delivery adds to the history.** -/
lemma logs_deliverPendingSignal (s : SignalSystem) : Logs s.Rewinds s s.deliverPendingSignal := by
  unfold deliverPendingSignal
  split_ifs with hnone
  · refine logs_of_not (fun h => ?_) rfl rfl rfl
    rcases hnone with hpid | hpend
    · exact h.2.1 hpid
    · simp [h.2.2.1] at hpend
  · simp only [not_or, Bool.not_eq_false] at hnone
    have h := logs_deliverSignal { s with process := s.process.takePendingSignal.2 }
      s.process.takePendingSignal.1
    refine Logs.congr ⟨h.entries, h.interrupted, h.rewound, h.kept⟩ ?_
    exact and_congr_right fun _ => ⟨fun ht => ⟨hnone.1, hnone.2, ht⟩, fun ht => ht.2.2⟩

/-! ## Steps -/

/-- The history is of frames there have been. -/
structure Past (s : SignalSystem) : Prop where
  interrupted : ∀ c ∈ s.interrupted, c.1 ≤ s.entries
  restarts : ∀ r ∈ s.restarts, r.1 ≤ s.entries

lemma sound_congr (hint : s'.interrupted = s.interrupted)
    (hrest : s'.restarts = s.restarts) : Sound s' ↔ Sound s := by
  constructor
  · rintro ⟨hown, honce⟩
    exact ⟨hint ▸ hrest ▸ hown, hrest ▸ honce⟩
  · rintro ⟨hown, honce⟩
    exact ⟨hint.symm ▸ hrest.symm ▸ hown, hrest.symm ▸ honce⟩

/-- One entry of the kernel: `s₁` is the state it delivers a signal in, and `E` says that a call has
just returned `EINTR` and left its mark. -/
lemma sound_entry {E : Prop} (hpast : Past s)
    (hentries : s₁.entries = s.entries + 1) (hrest : s₁.restarts = s.restarts)
    (hnew : ∀ c, c ∈ s₁.interrupted ↔ c ∈ s.interrupted ∨ E ∧ c = (s₁.entries, s₁.restartable)) :
    Past s₁.deliverPendingSignal ∧
      (Sound s₁.deliverPendingSignal ↔ Sound s ∧ (s₁.Rewinds → E)) := by
  obtain ⟨hentries', hint', hrewound, hkept⟩ := s₁.logs_deliverPendingSignal
  -- the frame of this entry is not in the history yet
  have hfresh : ∀ number, (s₁.entries, number) ∉ s.interrupted := fun number h => by
    have := hpast.interrupted _ h
    omega
  have hfresh' : s₁.entries ∉ s.restarts.map Prod.fst := fun h => by
    obtain ⟨r, hr, heq⟩ := List.mem_map.mp h
    have := hpast.restarts r hr
    omega
  have hmem : ∀ r, r ∈ s₁.deliverPendingSignal.restarts ↔
      r ∈ s.restarts ∨ s₁.Rewinds ∧ r = (s₁.entries, s₁.restartable) := fun r => by
    by_cases hrewinds : s₁.Rewinds
    · simp [hrewound hrewinds, hrest, hrewinds, or_comm]
    · simp [hkept hrewinds, hrest, hrewinds]
  have honce : (s₁.deliverPendingSignal.restarts.map Prod.fst).Nodup ↔
      (s.restarts.map Prod.fst).Nodup := by
    by_cases hrewinds : s₁.Rewinds
    · rw [hrewound hrewinds, hrest, List.map_cons, List.nodup_cons]
      exact and_iff_right hfresh'
    · rw [hkept hrewinds, hrest]
  refine ⟨⟨fun c hc => ?_, fun r hr => ?_⟩, fun h =>
    ⟨⟨fun r hr => ?_, honce.mp h.once⟩, fun hr => ?_⟩, fun ⟨h, hE⟩ =>
    ⟨fun r hr => ?_, honce.mpr h.once⟩⟩
  · rw [hint', hnew] at hc
    rcases hc with hc | ⟨-, rfl⟩
    · have := hpast.interrupted c hc
      omega
    · exact Nat.le_of_eq hentries'.symm
  · rcases (hmem r).mp hr with hr | ⟨-, rfl⟩
    · have := hpast.restarts r hr
      omega
    · exact Nat.le_of_eq hentries'.symm
  · have hown := h.own r ((hmem r).mpr (.inl hr))
    rw [hint', hnew] at hown
    refine hown.resolve_right ?_
    rintro ⟨-, rfl⟩
    exact hfresh' (List.mem_map_of_mem hr)
  · have hown := h.own _ ((hmem _).mpr (.inr ⟨hr, rfl⟩))
    rw [hint', hnew] at hown
    exact (hown.resolve_left (hfresh _)).1
  · rw [hint', hnew]
    rcases (hmem r).mp hr with hr | ⟨hrewinds, rfl⟩
    · exact .inl (h.own r hr)
    · exact .inr ⟨hE hrewinds, rfl⟩

/-- The history and the mark, which no handler touches. -/
structure SameHistory (s s' : SignalSystem) : Prop where
  entries : s'.entries = s.entries
  interrupted : s'.interrupted = s.interrupted
  restarts : s'.restarts = s.restarts
  restartable : s'.restartable = s.restartable

lemma SameHistory.trans {s₂ s₃ : SignalSystem} (h : SameHistory s₁ s₂) (h' : SameHistory s₂ s₃) :
    SameHistory s₁ s₃ :=
  ⟨h'.entries.trans h.entries, h'.interrupted.trans h.interrupted, h'.restarts.trans h.restarts,
    h'.restartable.trans h.restartable⟩

lemma sameHistory_setSignalAction (s : SignalSystem) (sig : ℕ) (handler restorer : U64)
    (flags : BitVec 32) : SameHistory s (s.setSignalAction sig handler restorer flags) := by
  unfold setSignalAction
  split_ifs <;> exact ⟨rfl, rfl, rfl, rfl⟩

lemma sameHistory_sysSigaction (s : SignalSystem) (sig action old : U64) :
    SameHistory s (s.sysSigaction sig action old).2 := by
  unfold sysSigaction
  dsimp only
  split
  · exact ⟨rfl, rfl, rfl, rfl⟩
  · split
    · exact ⟨rfl, rfl, rfl, rfl⟩
    · rename_i memory _
      have hcopied : SameHistory s { s with memory := memory } := ⟨rfl, rfl, rfl, rfl⟩
      split
      · exact hcopied
      · split
        · exact hcopied
        · exact hcopied.trans (sameHistory_setSignalAction _ _ _ _ _)

lemma sameHistory_sysSigprocmask (s : SignalSystem) (how set old : U64) :
    SameHistory s (s.sysSigprocmask how set old).2 := by
  unfold sysSigprocmask
  dsimp only
  split
  · exact ⟨rfl, rfl, rfl, rfl⟩
  · split
    · exact ⟨rfl, rfl, rfl, rfl⟩
    · split <;> exact ⟨rfl, rfl, rfl, rfl⟩

lemma sameHistory_sysSigreturn (s : SignalSystem) : SameHistory s s.sysSigreturn.2 := by
  unfold sysSigreturn
  split <;> exact ⟨rfl, rfl, rfl, rfl⟩

lemma sameHistory_handle {number : U64} {handled : Option Handled} {result : Except Errno U64}
    (h : s.handle number handled = some (result, s')) : SameHistory s s' := by
  have hreturned : ∀ {r : Except Errno U64 × SignalSystem}, SameHistory s r.2 →
      r = (result, s') → SameHistory s s' := fun hr heq => by
    subst heq
    exact hr
  unfold handle at h
  split_ifs at h
  · exact hreturned (s.sameHistory_sysSigaction _ _ _) (Option.some.inj h)
  · exact hreturned (s.sameHistory_sysSigprocmask _ _ _) (Option.some.inj h)
  · exact hreturned s.sameHistory_sysSigreturn (Option.some.inj h)
  · obtain ⟨handled, -, happly⟩ := Option.map_eq_some_iff.mp h
    exact hreturned ⟨rfl, rfl, rfl, rfl⟩ happly

/-- What a call returns with is delivered to: the mark, if it is set, is that of this call. -/
lemma sound_returnResult (hpast : Past s) (hentries : s₁.entries = s.entries + 1)
    (hint : s₁.interrupted = s.interrupted) (hrest : s₁.restarts = s.restarts)
    (hmark : s₁.restartable = NO_RESTART) (number : U64) (result : Except Errno U64) :
    Past (s₁.returnResult number result).deliverPendingSignal ∧
      (Sound (s₁.returnResult number result).deliverPendingSignal ↔ Sound s) := by
  by_cases hintr : result = .error .EINTR ∧ number ≠ SYS_nanosleep
  · obtain ⟨rfl, hnumber⟩ := hintr
    obtain ⟨h₁, h₂, h₃, h₄⟩ : (s₁.returnResult number (.error .EINTR)).entries = s₁.entries ∧
        (s₁.returnResult number (.error .EINTR)).interrupted =
          (s₁.entries, number) :: s₁.interrupted ∧
        (s₁.returnResult number (.error .EINTR)).restarts = s₁.restarts ∧
        (s₁.returnResult number (.error .EINTR)).restartable = number := by
      simp [returnResult, hnumber]
    have h := sound_entry (E := True) hpast (h₁.trans hentries) (h₃.trans hrest)
      (by simp [h₁, h₂, h₄, hint, or_comm])
    exact h.imp_right fun h => h.trans (and_iff_left fun _ => trivial)
  · have hsame : (s₁.returnResult number result).entries = s₁.entries ∧
        (s₁.returnResult number result).interrupted = s₁.interrupted ∧
        (s₁.returnResult number result).restarts = s₁.restarts ∧
        (s₁.returnResult number result).restartable = s₁.restartable := by
      cases result with
      | ok value => exact ⟨rfl, rfl, rfl, rfl⟩
      | error e =>
        have hneg : ¬ (e = .EINTR ∧ number ≠ SYS_nanosleep) := fun h => hintr ⟨h.1 ▸ rfl, h.2⟩
        simp [returnResult, if_neg hneg]
    obtain ⟨h₁, h₂, h₃, h₄⟩ := hsame
    have h := sound_entry (E := False) hpast (h₁.trans hentries) (h₃.trans hrest)
      (by simp [h₂, hint])
    exact h.imp_right fun h => h.trans (and_iff_left fun hr => hr.1 (h₄.trans hmark))

lemma sound_syscall (hpast : Past s) (handled : Option Handled) :
    Past (s.syscallDispatch handled) ∧ (Sound (s.syscallDispatch handled) ↔ Sound s) := by
  unfold syscallDispatch
  dsimp only
  split_ifs with hhandler
  · split
    · exact ⟨⟨fun c hc => Nat.le_succ_of_le (hpast.interrupted c hc),
        fun r hr => Nat.le_succ_of_le (hpast.restarts r hr)⟩, sound_congr rfl rfl⟩
    · rename_i hhandle
      obtain ⟨h₁, h₂, h₃, h₄⟩ := sameHistory_handle hhandle
      exact sound_returnResult hpast h₁ h₂ h₃ h₄ _ _
  · exact sound_returnResult hpast (by rfl) (by rfl) (by rfl) (by rfl) _ _

lemma raiseSignal_history (s : SignalSystem) (sig : ℕ) : SameHistory s (s.raiseSignal sig) := by
  unfold raiseSignal
  split_ifs <;> exact ⟨rfl, rfl, rfl, rfl⟩

/-- **One step.**  It keeps the property just if it is settled. -/
lemma sound_step (hpast : Past s) {a : SignalStep} (hstep : s.step a = some s') :
    Past s' ∧ (Sound s' ↔ Sound s ∧ Settled s a) := by
  have hquiet : ∀ {s' : SignalSystem}, SameHistory s s' → Past s' ∧ (Sound s' ↔ Sound s ∧ True) :=
    fun ⟨h₁, h₂, h₃, _⟩ =>
      ⟨⟨fun c hc => h₁ ▸ hpast.interrupted c (h₂ ▸ hc), fun r hr =>
        h₁ ▸ hpast.restarts r (h₃ ▸ hr)⟩, (sound_congr h₂ h₃).trans (and_iff_left trivial).symm⟩
  cases a with
  | user frame memory =>
    simp only [step] at hstep
    split_ifs at hstep
    exact Option.some.inj hstep ▸ hquiet ⟨rfl, rfl, rfl, rfl⟩
  | raise sig =>
    simp only [step] at hstep
    split_ifs at hstep
    exact Option.some.inj hstep ▸ hquiet (s.raiseSignal_history sig)
  | syscall handled =>
    simp only [step] at hstep
    split_ifs at hstep
    cases hstep
    exact (sound_syscall hpast handled).imp_right fun h => h.trans (and_iff_left trivial).symm
  | fault vector errorCode =>
    simp only [step] at hstep
    split_ifs at hstep
    cases hstep
    obtain ⟨h₁, h₂, h₃, -⟩ : SameHistory
        { s with
          frame := { s.frame with vector := vector.setWidth 64, errorCode := errorCode }
          entries := s.entries + 1 } (s.faulted vector errorCode) := raiseSignal_history _ _
    exact sound_entry (E := False) hpast h₁ h₃ (by simp [h₂])

lemma sound_run : ∀ {as : List SignalStep} {s s' : SignalSystem}, Past s →
    run step s as = some s' → (Sound s' ↔ Sound s ∧ Along step Settled s as)
  | [], s, s', _, hrun => by
    obtain rfl : s = s' := by simpa using hrun
    simp [Along]
  | a :: as, s, s', hpast, hrun => by
    obtain ⟨s₁, hstep, hrest⟩ := run_cons.mp hrun
    obtain ⟨hpast', hone⟩ := sound_step hpast hstep
    rw [sound_run hpast' hrest, hone, and_assoc]
    simp [Along, hstep]

/-- **Restarted calls.**  In a run of a process, from its start, every frame that is rewound is that
of a call that has just returned `EINTR`, and none is rewound twice, just if no fault is delivered
that takes off a mark. -/
theorem restarts_own_frame {s₀ : SignalSystem} (hstart : Starts s₀) {as : List SignalStep}
    (hrun : run step s₀ as = some s) : Sound s ↔ Along step Settled s₀ as := by
  have hpast : Past s₀ := ⟨by simp [hstart.interrupted], by simp [hstart.restarts]⟩
  have hsound : Sound s₀ := ⟨by simp [hstart.restarts], by simp [hstart.restarts]⟩
  rw [sound_run hpast hrun]
  exact and_iff_right hsound

/-- A process about to call `read`, with a handler for signal 2 whose `sa_flags` are `flags`. -/
def reading (flags : BitVec 32) (segv : U64) : SignalSystem where
  process :=
    { pid := 2
      parentPid := 1
      pgid := 2
      sid := 2
      mainThread := none
      hasExited := false
      isStopped := false
      stopPending := false
      continuePending := false
      pendingSignals := 0
      signalMask := 0 }
  handlers signal := if signal = 2 then 0x402000 else if signal = SIGSEGV then segv else SIG_DFL
  restorers signal := if signal = 2 then 0x403000 else 0
  flags signal := if signal = 2 then flags else 0
  memory := ⟨fun _ => 0, fun _ => true, fun _ => true⟩
  frame := { InterruptFrame.ofWords [] with
    rax := 1, rip := 0x401002, cs := SELECTOR_USER_CODE, rsp := 0x7FFFF000, ss :=
    SELECTOR_USER_DATA }
  restartable := NO_RESTART
  exited := false
  entries := 0
  interrupted := []
  restarts := []

/-- `read` returns `EINTR`. -/
def interruptedRead (s : SignalSystem) : SignalStep :=
  .syscall (some ⟨.error .EINTR, (s.raiseSignal 2).process, s.handlers, s.restorers,
  s.flags, s.memory,
    s.frame⟩)

lemma starts_reading (flags : BitVec 32) (segv : U64) : Starts (reading flags segv) :=
  ⟨rfl, rfl, rfl⟩

/-- With `SA_RESTART` the saved frame is rewound, and a fault in the handler finds no mark. -/
theorem restarts_own_frame_handler :
    ∃ s, run step (reading SA_RESTART SIG_IGN)
        [interruptedRead (reading SA_RESTART SIG_IGN), .fault 14 0] = some s ∧
      s.restarts = [(1, 1)] ∧ s.frame.rip = 0x402000 ∧ Sound s := by
  refine exists_run_mono (fun s => s.restarts = [(1, 1)] ∧ s.frame.rip = 0x402000)
    (by decide +kernel)
    fun s hrun hs => ⟨hs.1, hs.2, ?_⟩
  exact (restarts_own_frame (starts_reading _ _) hrun).mpr (by decide +kernel)

/-- Without it the mark stays, and a fault in the handler whose signal is ignored rewinds the frame
of the fault: the handler goes on two bytes before the instruction that faulted. -/
theorem fault_frame_rewound :
    ∃ s, run step (reading 0 SIG_IGN) [interruptedRead (reading 0 SIG_IGN), .fault 14 0] = some s ∧
      s.frame.rip = 0x402000 - 2 ∧ s.frame.rax = 1 ∧ s.restarts = [(2, 1)] ∧ ¬ Sound s := by
  decide +kernel

end SignalSystem
end ShitOs
