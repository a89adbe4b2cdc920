import ShitOs.Framework.Transition
import ShitOs.Construction.PendingSignals

/-!
# Stopping and continuing cancel each other, unless they meet half-way

`raise_signal` says that SIGCONT and the stop signals cancel each other, and does it with two atomic
operations: an `and` that takes the opposite signals out, and an `or` that puts its own signal in.
Between the two, a raise of the opposite kind can do both of its own, and then both kinds are
pending (`stop_and_continue_pending`).  In a run where no raise makes its `and` while one of the
opposite kind is between its two operations (`Separate`), the two kinds are never pending together.

The rest holds in every run (`pending_signals_right`).  The mask never has SIGKILL or SIGSTOP: only
`set_signal_mask` writes it, and it takes them out.  A signal leaves the pending set by being taken
or by the cancellation and in no other way.  `take_pending_signal` and `has_pending_signals` read
the two words one after the other, with the operations of others in between (`Others`); both decide
by the pending word of the first load and the mask of the second.
-/

namespace ShitOs

open BitVec (getLsbD_and getLsbD_not getLsbD_of_ge)
open Function Transition

/-! ## Bits -/

lemma getLsbD_signalBit (sig i : ℕ) :
    (signalBit sig).getLsbD i = (decide (i = sig) && decide (sig < 64)) := by
  simp only [signalBit, BitVec.getLsbD_shiftLeft, BitVec.getLsbD_one]
  by_cases h : i = sig <;> grind

lemma isStopSignal_eq (sig : ℕ) : isStopSignal sig = STOP_SIGNAL_MASK.getLsbD sig := by
  by_cases h : sig < 64
  · revert sig
    decide
  · have hbit : signalBit sig = 0 := by
      apply BitVec.eq_of_getLsbD_eq
      simp [getLsbD_signalBit, h]
    rw [isStopSignal, hbit, getLsbD_of_ge _ _ (by omega)]
    decide

lemma not_isStopSignal_SIGCONT : isStopSignal SIGCONT = false := by decide

lemma getLsbD_deliverableSignals {pending mask : U64} (hmask : mask &&& UNBLOCKABLE_SIGNALS = 0)
    (i : ℕ) : (deliverableSignals pending mask).getLsbD i =
      (pending.getLsbD i && !mask.getLsbD i) := by
  have hbit := congrArg (fun w : U64 => w.getLsbD i) hmask
  by_cases h : i < 64
  · simp only [getLsbD_and, BitVec.ofNat_eq_ofNat, BitVec.getLsbD_zero] at hbit
    simp only [deliverableSignals, getLsbD_and, getLsbD_not, h, decide_true, Bool.true_and]
    cases hm : mask.getLsbD i <;> simp_all
  · simp [getLsbD_of_ge _ _ (Nat.le_of_not_lt h)]

lemma deliverableSignals_ne_zero {pending mask : U64} (hmask : mask &&& UNBLOCKABLE_SIGNALS = 0) :
    (deliverableSignals pending mask != 0) = true ↔
      ∃ sig, pending.getLsbD sig = true ∧ mask.getLsbD sig = false := by
  rw [bne_iff_ne, Ne, BitVec.eq_of_getLsbD_eq_iff]
  simp only [getLsbD_deliverableSignals hmask, BitVec.ofNat_eq_ofNat, BitVec.getLsbD_zero]
  constructor
  · intro h
    obtain ⟨i, hi⟩ := not_forall.mp h
    obtain ⟨-, hi⟩ := Classical.not_imp.mp hi
    exact ⟨i, by simpa using hi⟩
  · rintro ⟨i, hpend, hopen⟩ h
    have := h i (by
      by_contra hge
      simp [getLsbD_of_ge _ _ (Nat.le_of_not_lt hge)] at hpend)
    simp [hpend, hopen] at this

namespace SignalWords

variable {s s' : SignalWords} {c : ℕ} {move : SignalMove} {i other sig : ℕ} {pc : SignalPc}
  {v : U64} {moves : List SignalMove} {t : SignalWords}

/-! ## The condition -/

/-- One of the two continues and the other stops. -/
def Opposite (signal other : ℕ) : Prop :=
  (signal = SIGCONT ∧ isStopSignal other) ∨ (isStopSignal signal ∧ other = SIGCONT)

/-- A raise makes its first operation while no raise of the opposite kind is between its two. -/
def Separate (s : SignalWords) : SignalMove → Prop
  | .begin _ _ => True
  | .next c => ∀ signal d other,
      s.pc c = .raiseCancel signal → s.pc d = .raiseSet other → ¬Opposite signal other

/-- A signal to continue and a signal to stop are pending. -/
def StopAndContinue (s : SignalWords) : Prop :=
  s.pendingSignals.getLsbD SIGCONT = true ∧
    ∃ stop, isStopSignal stop ∧ s.pendingSignals.getLsbD stop = true

/-- The signal is pending, or about to be. -/
def Asserted (s : SignalWords) (signal : ℕ) : Prop :=
  s.pendingSignals.getLsbD signal = true ∨ ∃ d, s.pc d = .raiseSet signal

/-- What is true between the steps of a run that meets the condition: a raise that has taken the
opposite signals out finds them out until it has put its own in. -/
def Exclusive (s : SignalWords) : Prop :=
  ∀ signal other, s.Asserted signal → s.Asserted other → ¬Opposite signal other

/-- What one step does to the two words. -/
inductive Does (s : SignalWords) : SignalMove → SignalWords → Prop
  | cancel (c signal : ℕ) (h : s.pc c = .raiseCancel signal) (s' : SignalWords)
      (hpc : s'.pc = update s.pc c (.raiseSet signal)) (hmask : s'.signalMask = s.signalMask)
      (hpending : s'.pendingSignals = s.pendingSignals &&&
        ~~~(if signal = SIGCONT then STOP_SIGNAL_MASK else signalBit SIGCONT)) : Does s (.next c) s'
  | set (c signal : ℕ) (h : s.pc c = .raiseSet signal) (s' : SignalWords)
      (hpc : s'.pc = update s.pc c .idle) (hmask : s'.signalMask = s.signalMask)
      (hpending : s'.pendingSignals = s.pendingSignals ||| signalBit signal) : Does s (.next c) s'
  | clear (c signal : ℕ) (h : s.pc c = .takeClear signal) (s' : SignalWords)
      (hpc : s'.pc = update s.pc c .idle) (hmask : s'.signalMask = s.signalMask)
      (hpending : s'.pendingSignals = s.pendingSignals &&& ~~~signalBit signal) :
        Does s (.next c) s'
  | store (c : ℕ) (previous next : U64) (h : s.pc c = .maskStore previous next) (s' : SignalWords)
      (hpc : s'.pc = update s.pc c .idle)
      (hmask : s'.signalMask = next &&& ~~~UNBLOCKABLE_SIGNALS)
      (hpending : s'.pendingSignals = s.pendingSignals) : Does s (.next c) s'
  | other (move : SignalMove) (pc : SignalPc) (s' : SignalWords)
      (hpc : s'.pc = update s.pc move.caller pc) (hmask : s'.signalMask = s.signalMask)
      (hpending : s'.pendingSignals = s.pendingSignals)
      (hset : ∀ signal, pc = .raiseSet signal → ¬(signal = SIGCONT ∨ isStopSignal signal))
      (hcancel : ∀ signal, pc = .raiseCancel signal → signal = SIGCONT ∨ isStopSignal signal)
      (hrange : ∀ signal, pc = .raiseCancel signal ∨ pc = .raiseSet signal →
        0 < signal ∧ signal < NSIG) : Does s move s'

/-- **What a step can do.** -/
lemma does_of_step (hstep : s.step move = some s') : s.Does move s' := by
  cases move with
  | begin c call =>
    obtain ⟨-, ⟨⟩⟩ := Option.ite_none_right_eq_some.mp hstep
    cases call with
    | raise sig =>
      simp only [enter]
      split_ifs with hout hcancel
      · exact .other _ .idle _ rfl rfl rfl nofun nofun nofun
      · refine .other _ (.raiseCancel sig.toNat) _ rfl rfl rfl nofun (fun _ h => ?_) fun _ h => ?_
        · cases h
          exact hcancel
        · obtain h | h := h <;> cases h
          omega
      · refine .other _ (.raiseSet sig.toNat) _ rfl rfl rfl (fun _ h => ?_) nofun fun _ h => ?_
        · cases h
          exact hcancel
        · obtain h | h := h <;> cases h
          omega
    | hasPending => exact .other _ .hasLoadPending _ rfl rfl rfl nofun nofun nofun
    | takePending => exact .other _ .takeLoadPending _ rfl rfl rfl nofun nofun nofun
    | setMask how wanted => exact .other _ (.maskLoad how wanted) _ rfl rfl rfl nofun nofun nofun
  | next c =>
    simp only [step] at hstep
    cases hpc : s.pc c <;> rw [hpc] at hstep
    case raiseCancel sig =>
      cases hstep
      exact .cancel c sig hpc _ rfl rfl rfl
    case raiseSet sig =>
      cases hstep
      exact .set c sig hpc _ rfl rfl rfl
    case takeClear sig =>
      cases hstep
      exact .clear c sig hpc _ rfl rfl rfl
    case maskStore previous next =>
      cases hstep
      exact .store c previous next hpc _ rfl rfl rfl
    case takeLoadMask | maskLoad =>
      simp only [operate] at hstep
      split at hstep <;> cases hstep <;> exact .other _ _ _ rfl rfl rfl nofun nofun nofun
    all_goals
      cases hstep
      try exact .other _ _ _ rfl rfl rfl nofun nofun nofun

/-! ## Never both -/

lemma Opposite.symm (h : Opposite sig other) : Opposite other sig :=
  Or.symm (h.imp And.symm And.symm)

lemma not_opposite_self (sig : ℕ) : ¬Opposite sig sig := by
  rintro (⟨rfl, hstop⟩ | ⟨hstop, rfl⟩) <;> simp [not_isStopSignal_SIGCONT] at hstop

lemma cancelled_of_opposite (h : Opposite sig other) :
    (if sig = SIGCONT then STOP_SIGNAL_MASK else signalBit SIGCONT).getLsbD other = true := by
  rcases h with ⟨rfl, hstop⟩ | ⟨hstop, rfl⟩
  · rwa [if_pos rfl, ← isStopSignal_eq]
  · rw [if_neg fun heq => by simp [heq, not_isStopSignal_SIGCONT] at hstop]
    decide

lemma Asserted.of_update (h : s'.Asserted sig)
    (hpc : s'.pc = update s.pc c pc) : s'.pendingSignals.getLsbD sig = true ∨
      pc = .raiseSet sig ∨ ∃ d, s.pc d = .raiseSet sig := by
  refine h.imp_right fun ⟨d, hd⟩ => ?_
  rw [hpc] at hd
  obtain rfl | hne := eq_or_ne d c
  · exact .inl (by simpa using hd)
  · exact .inr ⟨d, by rwa [update_of_ne hne] at hd⟩

/-- A signal that is newly asserted must not be opposite to another. -/
lemma Exclusive.of_new (h : s.Exclusive) (hnew : ∀ sig, s'.Asserted sig →
      s.Asserted sig ∨ ∀ other, s'.Asserted other → ¬Opposite sig other) : s'.Exclusive := by
  intro sig other hsig hother hopposite
  rcases hnew sig hsig with hold | hnone
  · rcases hnew other hother with hold' | hnone
    · exact h sig other hold hold' hopposite
    · exact hnone sig hsig hopposite.symm
  · exact hnone other hother hopposite

/-- A step that takes signals out, or none, and brings no new one of the two kinds in. -/
lemma Exclusive.of_subset (h : s.Exclusive) (hpc : s'.pc = update s.pc c pc)
    (hpend : ∀ i, s'.pendingSignals.getLsbD i = true → s.Asserted i)
    (hset : ∀ sig, pc = .raiseSet sig → ¬(sig = SIGCONT ∨ isStopSignal sig)) : s'.Exclusive := by
  refine h.of_new fun sig hsig => ?_
  rcases hsig.of_update hpc with hold | hown | hold
  · exact .inl (hpend sig hold)
  · exact .inr fun _ _ hopposite => hset sig hown (hopposite.imp And.left And.left)
  · exact .inl (.inr hold)

lemma getLsbD_of_and {w : U64} (h : (v &&& w).getLsbD i = true) : v.getLsbD i = true := by
  simp only [getLsbD_and, Bool.and_eq_true] at h
  exact h.1

lemma getLsbD_or_signalBit (h : (v ||| signalBit sig).getLsbD i = true) :
    v.getLsbD i = true ∨ i = sig := by
  simp only [BitVec.getLsbD_or, getLsbD_signalBit, Bool.or_eq_true, Bool.and_eq_true,
    decide_eq_true_eq] at h
  exact h.imp_right And.left

lemma Exclusive.step (h : s.Exclusive) (hseparate : s.Separate move)
    (hstep : s.step move = some s') : s'.Exclusive := by
  cases does_of_step hstep with
  | cancel c own hc _ hpc _ hpend =>
    have hold : ∀ sig, s'.Asserted sig →
        sig = own ∨ s.Asserted sig ∧ ¬Opposite own sig := by
      intro sig hsig
      rcases hsig.of_update hpc with hset | hown | ⟨d, hd⟩
      · rw [hpend] at hset
        refine .inr ⟨.inl (getLsbD_of_and hset), fun hopposite => ?_⟩
        simp [cancelled_of_opposite hopposite] at hset
      · exact .inl (SignalPc.raiseSet.inj hown).symm
      · exact .inr ⟨.inr ⟨d, hd⟩, hseparate own d sig hc hd⟩
    refine h.of_new fun sig hsig => ?_
    rcases hold sig hsig with rfl | hold'
    · refine .inr fun other hother => ?_
      rcases hold other hother with rfl | hold'
      · exact not_opposite_self other
      · exact hold'.2
    · exact .inl hold'.1
  | set c own hc _ hpc _ hpend =>
    refine h.of_subset hpc (fun i hi => ?_) nofun
    rw [hpend] at hi
    rcases getLsbD_or_signalBit hi with hi | rfl
    · exact .inl hi
    · exact .inr ⟨c, hc⟩
  | clear c own hc _ hpc _ hpend =>
    exact h.of_subset hpc (fun i hi => .inl (getLsbD_of_and (hpend ▸ hi))) nofun
  | store c previous next hc _ hpc _ hpend =>
    exact h.of_subset hpc (fun i hi => .inl (hpend ▸ hi)) nofun
  | other _ pc _ hpc _ hpend hset _ _ =>
    exact h.of_subset hpc (fun i hi => .inl (hpend ▸ hi)) hset

lemma Starts.not_asserted (h : s.Starts) (sig : ℕ) : ¬s.Asserted sig := by
  simp [Asserted, h.pending, h.pc]

/-! ## The mask -/

lemma mask_step (h : s.signalMask &&& UNBLOCKABLE_SIGNALS = 0)
    (hstep : s.step move = some s') : s'.signalMask &&& UNBLOCKABLE_SIGNALS = 0 := by
  cases does_of_step hstep with
  | store c previous next hc _ hpc hmask hpend =>
    rw [hmask, BitVec.and_assoc, BitVec.not_and_self]
    simp
  | cancel _ _ _ _ _ hmask | set _ _ _ _ _ hmask | clear _ _ _ _ _ hmask
  | other _ _ _ _ hmask => rwa [hmask]

lemma mask_run (h : s.signalMask &&& UNBLOCKABLE_SIGNALS = 0)
    (hrun : run SignalWords.step s moves = some s') : s'.signalMask &&& UNBLOCKABLE_SIGNALS = 0 :=
  run_invariant (C := fun _ _ => True) (fun _ _ _ h _ hstep => mask_step h hstep) moves s s' h
    (along_of_forall (fun _ _ => trivial) moves s) hrun

/-! ## The signals there are -/

/-- Only signals that exist are raised and pending, and only those that stop or continue cancel
others. -/
structure Ranged (s : SignalWords) : Prop where
  cancelling : ∀ d signal, s.pc d = .raiseCancel signal → 0 < signal ∧ signal < NSIG
  kind : ∀ d signal, s.pc d = .raiseCancel signal → signal = SIGCONT ∨ isStopSignal signal
  asserted : ∀ signal, s.Asserted signal → 0 < signal ∧ signal < NSIG

lemma Ranged.of_update (h : s.Ranged) (hpc : s'.pc = update s.pc c pc)
    (hpend : ∀ i, s'.pendingSignals.getLsbD i = true → s.Asserted i)
    (hkind : ∀ sig, pc = .raiseCancel sig → sig = SIGCONT ∨ isStopSignal sig)
    (hrange : ∀ sig, pc = .raiseCancel sig ∨ pc = .raiseSet sig → 0 < sig ∧ sig < NSIG) :
    s'.Ranged := by
  refine ⟨?_, ?_, fun sig hsig => ?_⟩
  · rw [hpc]
    exact (forall_update_iff s.pc fun _ p => ∀ sig, p = .raiseCancel sig → 0 < sig ∧ sig < NSIG).mpr
      ⟨fun sig hsig => hrange sig (.inl hsig), fun d _ => h.cancelling d⟩
  · rw [hpc]
    exact (forall_update_iff s.pc fun _ p => ∀ sig, p = .raiseCancel sig →
      sig = SIGCONT ∨ isStopSignal sig).mpr ⟨hkind, fun d _ => h.kind d⟩
  · rcases hsig.of_update hpc with hset | hown | hold
    · exact h.asserted sig (hpend sig hset)
    · exact hrange sig (.inr hown)
    · exact h.asserted sig (.inr hold)

lemma Ranged.step (h : s.Ranged) (hstep : s.step move = some s') : s'.Ranged := by
  cases does_of_step hstep with
  | cancel c own hc _ hpc _ hpend =>
    refine h.of_update hpc (fun i hi => .inl (getLsbD_of_and (hpend ▸ hi))) nofun fun sig hsig => ?_
    obtain hsig | hsig := hsig <;> cases hsig
    exact h.cancelling c own hc
  | set c own hc _ hpc _ hpend =>
    refine h.of_update hpc (fun i hi => ?_) nofun nofun
    rw [hpend] at hi
    rcases getLsbD_or_signalBit hi with hi | rfl
    · exact .inl hi
    · exact .inr ⟨c, hc⟩
  | clear c own hc _ hpc _ hpend =>
    exact h.of_update hpc (fun i hi => .inl (getLsbD_of_and (hpend ▸ hi))) nofun nofun
  | store c previous next hc _ hpc _ hpend =>
    exact h.of_update hpc (fun i hi => .inl (hpend ▸ hi)) nofun nofun
  | other _ pc _ hpc _ hpend _ hkind hrange =>
    exact h.of_update hpc (fun i hi => .inl (hpend ▸ hi)) hkind hrange

lemma Starts.ranged (h : s.Starts) : s.Ranged :=
  ⟨by simp [h.pc], by simp [h.pc], fun sig hsig => absurd hsig (h.not_asserted sig)⟩

lemma Ranged.run (h : s.Ranged) (hrun : run SignalWords.step s moves = some s') : s'.Ranged :=
  run_invariant (C := fun _ _ => True) (fun _ _ _ h _ hstep => h.step hstep) moves s s' h
    (along_of_forall (fun _ _ => trivial) moves s) hrun

/-! ## How a signal leaves -/

/-- The step takes the signal out of the pending set, by taking it or because stopping and
continuing cancel each other. -/
def Removes (s : SignalWords) (move : SignalMove) (signal : ℕ) : Prop :=
  ∃ c, move = .next c ∧
    (s.pc c = .takeClear signal ∨
      (s.pc c = .raiseCancel SIGCONT ∧ isStopSignal signal) ∨
      (signal = SIGCONT ∧ ∃ stop, s.pc c = .raiseCancel stop ∧ isStopSignal stop))

lemma removes_of_step (hranged : s.Ranged) (hstep : s.step move = some s')
    (hbefore : s.pendingSignals.getLsbD sig = true)
    (hafter : s'.pendingSignals.getLsbD sig = false) : s.Removes move sig := by
  have hlt : sig < 64 := by
    by_contra hge
    simp [getLsbD_of_ge _ _ (Nat.le_of_not_lt hge)] at hbefore
  cases does_of_step hstep with
  | cancel c own hc _ hpc _ hpend =>
    refine ⟨c, rfl, .inr ?_⟩
    simp only [hpend, getLsbD_and, hbefore, getLsbD_not, hlt, decide_true,
      Bool.true_and, Bool.not_eq_false'] at hafter
    split_ifs at hafter with hcont
    · exact .inl ⟨hcont ▸ hc, by rwa [isStopSignal_eq]⟩
    · rw [getLsbD_signalBit] at hafter
      exact .inr ⟨by simpa using And.left (by simpa using hafter), own, hc,
        (hranged.kind c own hc).resolve_left hcont⟩
  | set c own hc _ hpc _ hpend => simp [hpend, hbefore] at hafter
  | clear c own hc _ hpc _ hpend =>
    refine ⟨c, rfl, .inl ?_⟩
    simp only [hpend, getLsbD_and, hbefore, getLsbD_not, hlt, decide_true,
      Bool.true_and, Bool.not_eq_false', getLsbD_signalBit, Bool.and_eq_true,
      decide_eq_true_eq] at hafter
    rw [hc, hafter.1]
  | store _ _ _ _ _ _ _ hpend | other _ _ _ _ _ hpend => simp [hpend, hbefore] at hafter

/-! ## Two loads with others in between -/

/-- Steps of other callers. -/
def Others (c : ℕ) (s s' : SignalWords) : Prop :=
  ∃ moves : List SignalMove, (∀ move ∈ moves, move.caller ≠ c) ∧
    Transition.run SignalWords.step s moves = some s'

/-- The caller's next two operations, the second of them from `t`. -/
def TwoLoads (c : ℕ) (s t s' : SignalWords) : Prop :=
  ∃ s₁, s.step (.next c) = some s₁ ∧ Others c s₁ t ∧ t.step (.next c) = some s'

/-- The signal is pending in `s` and not blocked in `t`. -/
def Unblocked (s t : SignalWords) (signal : ℕ) : Prop :=
  s.pendingSignals.getLsbD signal = true ∧ t.signalMask.getLsbD signal = false

lemma pc_of_step (hstep : s.step move = some s') (hc : move.caller ≠ c) : s'.pc c = s.pc c := by
  cases does_of_step hstep with
  | cancel _ _ _ _ hpc | set _ _ _ _ hpc | clear _ _ _ _ hpc | store _ _ _ _ _ hpc
  | other _ _ _ hpc =>
    rw [hpc]
    exact update_of_ne hc.symm _ _

lemma Others.pc_eq (h : Others c s s') : s'.pc c = s.pc c := by
  obtain ⟨moves, hothers, hrun⟩ := h
  induction moves generalizing s with
  | nil =>
    obtain rfl : s = s' := by simpa using hrun
    rfl
  | cons move moves ih =>
    obtain ⟨s₁, hstep, hrest⟩ := run_cons.mp hrun
    rw [ih (fun m hm => hothers m (List.mem_cons_of_mem _ hm)) hrest,
      pc_of_step hstep (hothers move List.mem_cons_self)]

/-- The state of the second load: the caller is there, and the mask has no unblockable signal. -/
lemma TwoLoads.second {pc' : SignalPc} (h : TwoLoads c s t s')
    (hmask : s.signalMask &&& UNBLOCKABLE_SIGNALS = 0) (hpc : s.pc c = pc)
    (hfirst : s.operate c pc = some (s.goto c pc')) :
    t.signalMask &&& UNBLOCKABLE_SIGNALS = 0 ∧ t.operate c pc' = some s' := by
  obtain ⟨s₁, hload, hothers, hsecond⟩ := h
  obtain rfl : s.goto c pc' = s₁ := by simpa [step, hpc, hfirst] using hload
  have hat : t.pc c = pc' := by rw [hothers.pc_eq]; exact update_self ..
  obtain ⟨moves, -, hrun⟩ := hothers
  exact ⟨mask_run (s := s.goto c pc') hmask hrun, by simpa [step, hat] using hsecond⟩

/-- **`has_pending_signals`** answers by the pending word of its first load and the mask of its
second. -/
lemma has_of_loads (hmask : s.signalMask &&& UNBLOCKABLE_SIGNALS = 0)
    (hc : s.pc c = .hasLoadPending) (h : TwoLoads c s t s') :
    s'.pc c = .idle ∧ ∃ answer, s'.returned c = .has answer ∧
      (answer = true ↔ ∃ sig, Unblocked s t sig) := by
  have hfirst : s.operate c .hasLoadPending = some (s.goto c (.hasLoadMask s.pendingSignals)) := rfl
  obtain ⟨hmask', hsecond⟩ := h.second hmask hc hfirst
  simp only [operate, Option.some.injEq] at hsecond
  subst hsecond
  exact ⟨update_self .., _, update_self .., deliverableSignals_ne_zero hmask'⟩

/-- **`take_pending_signal`** finds nothing or the lowest signal, by the same two loads. -/
lemma take_of_loads (hranged : s.Ranged) (hmask : s.signalMask &&& UNBLOCKABLE_SIGNALS = 0)
    (hc : s.pc c = .takeLoadPending) (h : TwoLoads c s t s') :
    (s'.pc c = .idle ∧ s'.returned c = .took 0 ∧ ∀ sig, ¬Unblocked s t sig) ∨
      ∃ sig, 0 < sig ∧ Unblocked s t sig ∧ (∀ lower < sig, ¬Unblocked s t lower) ∧
        s'.pc c = .takeClear sig := by
  have hfirst : s.operate c .takeLoadPending = some (s.goto c (.takeLoadMask s.pendingSignals)) :=
    rfl
  obtain ⟨hmask', hsecond⟩ := h.second hmask hc hfirst
  simp only [operate] at hsecond
  have hbit : ∀ i, (deliverableSignals s.pendingSignals t.signalMask).getLsbD i = true ↔
      Unblocked s t i := by
    intro i
    simp [getLsbD_deliverableSignals hmask', Unblocked]
  split at hsecond <;> rename_i hfind <;> cases hsecond
  · refine .inl ⟨update_self .., update_self .., fun sig hsig => ?_⟩
    have hlt : sig < 64 := (hranged.asserted sig (.inl hsig.1)).2.trans (by decide)
    rw [List.find?_range_eq_none] at hfind
    simpa [(hbit sig).mpr hsig] using hfind sig hlt
  · rename_i sig
    rw [List.find?_range_eq_some] at hfind
    obtain ⟨hsig, -, hlower⟩ := hfind
    have hunblocked := (hbit sig).mp hsig
    refine .inr ⟨sig, (hranged.asserted sig (.inl hunblocked.1)).1, hunblocked,
      fun lower hlt hlow => ?_, update_self ..⟩
    simpa [(hbit lower).mpr hlow] using hlower lower hlt

/-- And returns what it found, whatever others do before. -/
lemma took_of_clear (hc : s.pc c = .takeClear sig)
    (hothers : Others c s t) (hstep : t.step (.next c) = some s') :
    s'.pc c = .idle ∧ s'.returned c = .took sig ∧
      s'.pendingSignals = t.pendingSignals &&& ~~~signalBit sig := by
  have hat : t.pc c = .takeClear sig := hothers.pc_eq.trans hc
  simp only [step, hat, operate, Option.some.injEq] at hstep
  subst hstep
  exact ⟨update_self .., update_self .., rfl⟩

/-! ## The pending signals of a process -/

/-- **The bookkeeping of the pending signals.**  In every run from a new process, callers
interleaved as they may be: the mask has neither SIGKILL nor SIGSTOP; `has_pending_signals` and
`take_pending_signal` decide by the pending word of their first load and the mask of their second,
the latter returning 0 if nothing is pending and unblocked there and otherwise the lowest such
signal, which it takes out; and a signal leaves the pending set only by being taken or by the
cancellation.  If besides no raise begins while one of the opposite kind is half-way, a signal to
continue and a signal to stop are never pending together. -/
theorem pending_signals_right {s₀ : SignalWords} {moves : List SignalMove} (hstart : s₀.Starts)
    (hrun : run SignalWords.step s₀ moves = some s) :
    (Along SignalWords.step Separate s₀ moves → ¬s.StopAndContinue) ∧
    (s.signalMask.getLsbD SIGKILL = false ∧ s.signalMask.getLsbD SIGSTOP = false) ∧
    (∀ c t s', s.pc c = .hasLoadPending → TwoLoads c s t s' → s'.pc c = .idle ∧
      ∃ answer, s'.returned c = .has answer ∧ (answer = true ↔ ∃ signal, Unblocked s t signal)) ∧
    (∀ c t s', s.pc c = .takeLoadPending → TwoLoads c s t s' →
      (s'.pc c = .idle ∧ s'.returned c = .took 0 ∧ ∀ signal, ¬Unblocked s t signal) ∨
        ∃ signal, 0 < signal ∧ Unblocked s t signal ∧ (∀ lower < signal, ¬Unblocked s t lower) ∧
          ∀ u u', Others c s' u → u.step (.next c) = some u' →
            u'.pc c = .idle ∧ u'.returned c = .took signal ∧
              u'.pendingSignals = u.pendingSignals &&& ~~~signalBit signal) ∧
    (∀ move s' signal, s.step move = some s' → s.pendingSignals.getLsbD signal = true →
      s'.pendingSignals.getLsbD signal = false → s.Removes move signal) := by
  have hmask := mask_run hstart.mask hrun
  have hbit : ∀ i, UNBLOCKABLE_SIGNALS.getLsbD i = true → s.signalMask.getLsbD i = false := by
    intro i hi
    have h := congrArg (fun w : U64 => w.getLsbD i) hmask
    simpa [hi] using h
  refine ⟨fun hseparate => ?_, ⟨hbit _ (by decide), hbit _ (by decide)⟩, ?_, ?_, ?_⟩
  · have hexclusive : s.Exclusive :=
      run_invariant (fun _ _ _ h hC hstep => Exclusive.step h hC hstep)
      moves s₀ s (fun _ _ h => absurd h (hstart.not_asserted _)) hseparate hrun
    rintro ⟨hcont, stop, hkind, hstop⟩
    exact hexclusive SIGCONT stop (.inl hcont) (.inl hstop) (.inl ⟨rfl, hkind⟩)
  · exact fun c t s' hc h => has_of_loads hmask hc h
  · intro c t s' hc h
    obtain hnone | ⟨signal, hpos, hunblocked, hlowest, hclear⟩ :=
      take_of_loads (hstart.ranged.run hrun) hmask hc h
    · exact .inl hnone
    · exact .inr ⟨signal, hpos, hunblocked, hlowest,
        fun u u' hothers hstep => took_of_clear hclear hothers hstep⟩
  · exact fun move s' signal hstep hbefore hafter =>
      removes_of_step (hstart.ranged.run hrun) hstep hbefore hafter

/-- Nothing is pending or blocked, and nobody is in a call. -/
def quiet : SignalWords where
  pendingSignals := 0
  signalMask := 0
  pc _ := .idle
  returned _ := .nothing

/-- One caller stops the process, then another continues it, and then the process takes a signal. -/
def stopThenContinue : List SignalMove :=
  [.begin 0 (.raise SIGTSTP), .next 0, .next 0, .begin 1 (.raise SIGCONT), .next 1, .next 1,
    .begin 2 .takePending, .next 2, .next 2]

/-- In that run nobody raises a signal half-way through another's raise, SIGTSTP is cancelled, and
the process is about to take SIGCONT. -/
theorem pending_signals_right_stopThenContinue :
    ∃ s, run SignalWords.step quiet stopThenContinue = some s ∧
      s.pendingSignals = signalBit SIGCONT ∧ s.pc 2 = .takeClear SIGCONT ∧ ¬s.StopAndContinue := by
  have hstart : quiet.Starts := ⟨rfl, by decide, fun _ => rfl⟩
  refine exists_run_of_map (fun s => (s.pendingSignals, s.pc 2))
    (signalBit SIGCONT, .takeClear SIGCONT)
    (by decide +kernel) fun s hrun hs =>
      ⟨(Prod.mk.inj hs).1, (Prod.mk.inj hs).2, (pending_signals_right hstart hrun).1 ?_⟩
  have hstop : isStopSignal 20 = true := by decide
  simp only [Along, stopThenContinue, Separate]
  simp [SignalWords.step, enter, operate, goto, ret, quiet, hstop, update_apply, SIGTSTP,
    SIGCONT, NSIG]
  constructor <;> (intro _ d _ _ hd; split_ifs at hd)

/-- Another process continues the process, and a keyboard interrupt between the two operations stops
it. -/
def stopWithinContinue : List SignalMove :=
  [.begin 0 (.raise SIGCONT), .next 0, .begin 1 (.raise SIGTSTP), .next 1, .next 1, .next 0]

/-- Both raises have returned, and both signals are pending. -/
theorem stop_and_continue_pending :
    ∃ s, quiet.Starts ∧ run SignalWords.step quiet stopWithinContinue = some s ∧
      (∀ c, s.pc c = .idle) ∧ s.StopAndContinue := by
  have hrun : (run SignalWords.step quiet stopWithinContinue).map
      (fun s => (s.pendingSignals, s.pc 0, s.pc 1)) =
        some (signalBit SIGCONT ||| signalBit SIGTSTP, .idle, .idle) := by
    decide +kernel
  obtain ⟨s, hrun, hs⟩ := Option.map_eq_some_iff.mp hrun
  simp only [Prod.mk.injEq] at hs
  obtain ⟨hpending, hzero, hone⟩ := hs
  refine ⟨s, ⟨rfl, by decide, fun _ => rfl⟩, hrun, fun c => ?_, ?_⟩
  · match c with
    | 0 => exact hzero
    | 1 => exact hone
    | c + 2 =>
      have hothers : Others (c + 2) quiet s :=
        ⟨stopWithinContinue, by simp [stopWithinContinue, SignalMove.caller], hrun⟩
      exact hothers.pc_eq
  · rw [StopAndContinue, hpending]
    exact ⟨by decide, SIGTSTP, by decide, by decide⟩

end SignalWords
end ShitOs
