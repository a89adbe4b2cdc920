import ShitOs.Construction.LineDiscipline
import ShitOs.Properties.ProcessTable

/-!
# Signals to a group

`kill` with a negative process number or with zero, and the interrupt, quit and suspend characters
of a terminal, go through `for_each_in_group`: under the lock the members are collected into an
array with room for `MAX_GROUP` of them, and after it the signal is raised on one after the other.
Between two of these steps the thread can be preempted, and anything can happen to the processes it
has collected.

What is observed of such a call are the members at the time of the check and of the collecting, and
on whom the signal was raised, with whether that process had exited by then (`GroupEvent`).
`Underway` is the invariant that carries the call through any interleaving: the events so far and
the raises still to be done make up the first `MAX_GROUP` members.  In between stand only the
actions in which `raise_signal` wakes or resumes somebody (`Aftermath`).

Provided nobody who has been collected exits before it is their turn, every member gets the signal
just once, and nobody else does, just if there are at most `MAX_GROUP` members
(`group_signalled_iff`).
-/

namespace ShitOs

open LineDiscipline
namespace ProcessSystem

open Transition

variable {s s' : ProcessSystem} {p sig t : ℕ} {actions : List KernelAction} {a : KernelAction}
  {choice : Bool}

/-! ## Calls that signal a group -/

/-- The members of a group that have not exited. -/
def groupMembers (s : ProcessSystem) (group : ℤ) : List ℕ :=
  s.processes.filter fun p => (s.process p).pgid == group && !(s.process p).hasExited

/-- The calls that signal a group, and what they do. -/
inductive GroupCall (s : ProcessSystem) (group : ℤ) (signal : ℕ) : List KernelAction → Prop
  /-- `kill`. -/
  | kill (pid : ℤ) (hpid : pid < -1 ∨ pid = 0)
      (hgroup : group = if pid = 0 then (s.process s.self).pgid else -pid) (hpos : signal ≠ 0)
      (hlt : signal < NSIG) : GroupCall s group signal (s.killActions pid signal)
  /-- A character typed at a terminal that has a foreground group. -/
  | terminal (d : LineDiscipline) (byte : UInt8)
      (hbyte : d.signalOf (if d.termios.iflag &&& ICRNL ≠ 0 ∧ byte = CARRIAGE_RETURN then NEWLINE
        else byte) = some signal)
      (hgroup : d.foregroundGroup ≠ 0) (heq : group = d.foregroundGroup) :
      GroupCall s group signal (d.feedActions byte)

lemma GroupCall.actions_eq {group : ℤ} (h : GroupCall s group sig actions) :
    (sig ≠ 0 ∧ sig < NSIG) ∧
      (actions = [.groupExists group sig] ∨ actions = [.collectGroup group sig]) := by
  cases h with
  | kill pid hpid hgroup hpos hlt =>
    refine ⟨⟨hpos, hlt⟩, .inl ?_⟩
    rw [killActions, if_neg (by omega), if_pos hpid, hgroup]
  | terminal d byte hbyte hgroup heq =>
    refine ⟨?_, .inr ?_⟩
    · unfold signalOf at hbyte
      split_ifs at hbyte <;> cases hbyte <;> decide
    · rw [feedActions, feed]
      simp only [hbyte, signalForegroundGroup, if_neg hgroup, heq]

/-! ## What is observed -/

/-- What is observed of a call. -/
inductive GroupEvent
  | checked (members : List ℕ)
  | collected (members : List ℕ)
  | raised (p : ℕ) (exited : Bool)
  deriving DecidableEq

/-- What an action shows of a call. -/
def actionEvents (group : ℤ) (signal : ℕ) (s : ProcessSystem) : KernelAction → List GroupEvent
  | .groupExists _ _ => [.checked (s.groupMembers group)]
  | .collectGroup _ _ => [.collected (s.groupMembers group)]
  | .raise p other => if other = signal then [.raised p (s.process p).hasExited] else []
  | _ => []

/-- What a step shows of the call of thread `t`. -/
def groupEvents (t : ℕ) (group : ℤ) (signal : ℕ) (s : ProcessSystem) : ProcessStep → List GroupEvent
  | .perform _ =>
    if s.sched.current = t then (((s.todo t).head?).map (s.actionEvents group signal)).getD []
      else []
  | _ => []

/-- The members when they were looked at last. -/
def lastMembers (events : List GroupEvent) : List ℕ :=
  events.foldl (fun members event =>
    match event with
    | .checked members' | .collected members' => members'
    | .raised _ _ => members) []

/-- Everybody on whom the signal was raised. -/
def raisedOn (events : List GroupEvent) : List ℕ :=
  events.filterMap fun event =>
    match event with
    | .raised p _ => some p
    | _ => none

/-- Every member got the signal once, nobody else did, and nobody who had exited. -/
structure Complete (events : List GroupEvent) : Prop where
  once : ∀ p, (raisedOn events).count p = if p ∈ lastMembers events then 1 else 0
  alive : ∀ p exited, .raised p exited ∈ events → exited = false

/-! ## What the steps of anybody keep -/

/-- The list of processes stays one without repetitions, and only `mark_exited` makes a process
exit. -/
structure Undying (s s' : ProcessSystem) : Prop where
  nodup : s.processes.Nodup → s'.processes.Nodup
  alive : ∀ p, (s.process p).hasExited = false → (s'.process p).hasExited = false

lemma Undying.refl (s : ProcessSystem) : Undying s s := ⟨id, fun _ => id⟩

lemma Undying.trans {s₁ s₂ s₃ : ProcessSystem} (h : Undying s₁ s₂) (h' : Undying s₂ s₃) :
    Undying s₁ s₃ :=
  ⟨h'.nodup ∘ h.nodup, fun p hp => h'.alive p (h.alive p hp)⟩

lemma undying_setProcess {process : Process}
    (h : process.hasExited = (s.process p).hasExited ∨ process.hasExited = false) :
    Undying s (s.setProcess p process) := by
  refine ⟨id, fun q hq => ?_⟩
  obtain rfl | hne := eq_or_ne q p
  · simpa [setProcess] using h.elim (fun h => h.trans hq) id
  · simpa [setProcess, hne] using hq

lemma Effect.undying (he : Effect s a s') (ha : a ≠ .setExited) : Undying s s' := by
  cases he with
  | setExited => exact absurd rfl ha
  | remove p => exact ⟨fun hnodup => hnodup.erase p, fun _ => id⟩
  | appendChild p =>
    refine ⟨fun hnodup => ?_, fun _ => id⟩
    split_ifs with hmem
    · exact hnodup
    · refine List.nodup_append.mpr ⟨hnodup, List.pairwise_singleton _ p, fun q hq r hr => ?_⟩
      rintro rfl
      exact hmem (List.mem_singleton.mp hr ▸ hq)
  | createChild => exact ⟨id, (undying_setProcess (s := s) (.inr rfl)).alive⟩
  | startChild p =>
    refine ⟨id, fun q hq => ?_⟩
    obtain rfl | hne := eq_or_ne q p <;> simp_all [addThread, setProcess]
  | reparent =>
    refine ⟨id, fun p hp => ?_⟩
    dsimp only
    split_ifs <;> exact hp
  | mark | setGroup | startSession => exact undying_setProcess (.inl rfl)
  | broadcast _ hfold =>
    exact broadcast_induction .refl .trans (fun _ _ _ => undying_setProcess (.inl rfl))
      (fun _ _ _ _ _ _ => ⟨id, fun _ => id⟩) hfold
  | _ => exact ⟨id, fun _ => id⟩

/-- The thread that is about to exit is not one of a process that `t` has still to signal. -/
def Spares (t signal : ℕ) (s : ProcessSystem) : ProcessStep → Prop
  | .perform _ => (s.todo s.sched.current).head? = some .setExited → .raise s.self signal ∉ s.todo t
  | _ => True

instance (t signal : ℕ) (s : ProcessSystem) : ∀ a, Decidable (Spares t signal s a)
  | .perform _ => inferInstanceAs (Decidable (_ → _))
  | .tick _ _ | .fork | .exit | .waitpid _ _ | .kill _ _ | .setpgid _ _ | .setsid | .deliver _
  | .reap => .isTrue trivial

/-- Thread `t` performs its next action. -/
structure Performs (t : ℕ) (s s' : ProcessSystem) (choice : Bool) (a : KernelAction)
    (rest : List KernelAction) : Prop where
  current : s.sched.current = t
  before : s.todo t = a :: rest
  exec : ∃ s₁ next, s.exec choice a = some (s₁, next) ∧ s'.todo t = next ++ rest ∧
    s'.process = s₁.process

lemma enter_todo (hbusy : s.todo t ≠ [])
    (h : s.enter actions = some s') : s'.todo t = s.todo t ∧ s'.processes = s.processes ∧
      s'.process = s.process := by
  unfold enter at h
  split_ifs at h with hidle
  cases h
  have hne : t ≠ s.sched.current := by
    rintro rfl
    exact hbusy hidle.2
  simp [goOn, hne]

lemma Spares.alive {rest next : List KernelAction}
    (hspares : Spares t sig s (.perform choice)) (htodo : s.todo s.sched.current = a :: rest)
    (hexec : s.exec choice a = some (s', next)) (hp : .raise p sig ∈ s.todo t)
    (halive : (s.process p).hasExited = false) : (s'.process p).hasExited = false := by
  by_cases ha : a = .setExited
  · subst ha
    have hne : p ≠ s.self := by
      rintro rfl
      exact hspares (by rw [htodo]; rfl) hp
    cases hexec
    simpa [setProcess, hne] using halive
  · exact ((exec_effect hexec).undying ha).alive p halive

/-- A step of the system, as a thread that is in a call sees it. -/
structure Sees (t signal : ℕ) (s s' : ProcessSystem) (a : ProcessStep) : Prop where
  nodup : s.processes.Nodup → s'.processes.Nodup
  alive : ∀ p, .raise p signal ∈ s.todo t → (s.process p).hasExited = false →
    (s'.process p).hasExited = false
  own : (∃ choice b rest, a = .perform choice ∧ Performs t s s' choice b rest) ∨
    s'.todo t = s.todo t ∧ ∀ group, groupEvents t group signal s a = []

lemma sees_step {a : ProcessStep} (hbusy : s.todo t ≠ []) (hspares : Spares t sig s a)
    (h : s.step a = some s') : Sees t sig s s' a := by
  -- A thread that enters the kernel is not this one.
  have henter : ∀ {actions}, s.enter actions = some s' →
      (∀ group, groupEvents t group sig s a = []) → Sees t sig s s' a := by
    intro actions hstep hnone
    obtain ⟨htodo, hprocs, hproc⟩ := enter_todo hbusy hstep
    exact ⟨hprocs ▸ id, fun _ _ => hproc ▸ id, .inr ⟨htodo, hnone⟩⟩
  cases a with
  | tick now expired =>
    cases h
    exact ⟨id, fun _ _ => id, .inr ⟨rfl, fun _ => rfl⟩⟩
  | fork | exit | waitpid | kill | setpgid | setsid => exact henter h fun _ => rfl
  | deliver disposition =>
    obtain ⟨htodo, hprocs, hproc⟩ := enter_todo (s := s.setProcess s.self _) hbusy h
    have hundying : Undying s (s.setProcess s.self (s.process s.self).takePendingSignal.2) := by
      refine undying_setProcess (.inl ?_)
      unfold Process.takePendingSignal
      split <;> rfl
    exact ⟨hprocs ▸ hundying.nodup, fun p _ => hproc ▸ hundying.alive p,
      .inr ⟨htodo, fun _ => rfl⟩⟩
  | reap =>
    obtain ⟨hidle, hnil, u, zombies, -, rfl⟩ := reap_cases h
    have hne : t ≠ IDLE := by
      rintro rfl
      exact hbusy hnil
    refine ⟨id, fun _ _ => id, .inr ⟨?_, fun _ => rfl⟩⟩
    simp [hidle, hne]
  | perform choice =>
    obtain ⟨b, rest, s₁, next, htodo, hexec, rfl⟩ := perform_cases h
    have hnodup : s.processes.Nodup → s₁.processes.Nodup := by
      by_cases hb : b = .setExited
      · subst hb
        cases hexec
        exact id
      · exact ((exec_effect hexec).undying hb).nodup
    have halive : ∀ p, .raise p sig ∈ s.todo t → (s.process p).hasExited = false →
        (s₁.process p).hasExited = false := fun p hp => hspares.alive htodo hexec hp
    refine ⟨hnodup, halive, ?_⟩
    by_cases hcur : s.sched.current = t
    · refine .inl ⟨choice, b, rest, rfl, hcur, hcur ▸ htodo, s₁, next, hexec, ?_, rfl⟩
      simp [hcur]
    · refine .inr ⟨?_, fun _ => by rw [groupEvents, if_neg hcur]⟩
      simp [Ne.symm hcur, (exec_effect hexec).todo]

/-! ## One call, through any interleaving -/

/-- The actions in which a `raise_signal` of `signal` may go on. -/
def Aftermath (signal : ℕ) : KernelAction → Prop
  | .unblock _ => True
  | .resume _ | .resumeThread _ | .notifyParent _ | .bump _ | .take _ => signal ≠ SIGCHLD
  | .raise _ other => other = SIGCHLD ∧ signal ≠ SIGCHLD
  | _ => False

lemma aftermath_afterRaise : ∀ a ∈ s.afterRaise p sig, Aftermath sig a := by
  intro a ha
  unfold afterRaise at ha
  split_ifs at ha with hresume
  · obtain rfl := List.mem_singleton.mp ha
    simp only [Bool.and_eq_true, Bool.or_eq_true, beq_iff_eq] at hresume
    change sig ≠ SIGCHLD
    rcases hresume.2 with rfl | rfl <;> decide
  · split at ha
    · simp at ha
    · split_ifs at ha
      · obtain rfl := List.mem_singleton.mp ha
        trivial
      · simp at ha

lemma Aftermath.next {next : List KernelAction}
    (ha : Aftermath sig a) (hexec : s.exec choice a = some (s', next)) :
    ∀ b ∈ next, Aftermath sig b := by
  cases a with
  | unblock t =>
    cases hexec
    simp
  | raise p other =>
    obtain ⟨rfl, hne⟩ := ha
    simp only [exec] at hexec
    split_ifs at hexec <;> cases hexec
    · simp
    · intro b hb
      have := aftermath_afterRaise b hb
      cases b with
      | unblock => trivial
      | resume => exact hne
      | _ => simp_all [Aftermath]
  | resume | resumeThread | notifyParent | bump | take =>
    grind [exec, Aftermath]
  | _ => exact ha.elim

/-- How far the call has come, and what has been observed of it. -/
inductive Underway (t : ℕ) (group : ℤ) (signal : ℕ) (rest : List KernelAction) (s : ProcessSystem) :
    List GroupEvent → Prop
  | checking (htodo : s.todo t = .groupExists group signal :: rest) :
    Underway t group signal rest s []
  | absent (htodo : s.todo t = rest) : Underway t group signal rest s [.checked []]
  | collecting (checks : List (List ℕ)) (htodo : s.todo t = .collectGroup group signal :: rest) :
      Underway t group signal rest s (checks.map .checked)
  | raising (checks : List (List ℕ)) (members done left : List ℕ) (aftermath : List KernelAction)
      (hnodup : members.Nodup) (hmembers : members.take MAX_GROUP = done ++ left)
      (haftermath : ∀ a ∈ aftermath, Aftermath signal a)
      (halive : ∀ p ∈ left, (s.process p).hasExited = false)
      (htodo : s.todo t = aftermath ++ (left.map (.raise · signal) ++ rest)) :
      Underway t group signal rest s
        (checks.map .checked ++ .collected members :: done.map (.raised · false))

/-- Thread `t` has more to do than `rest`. -/
def Busy (t : ℕ) (rest : List KernelAction) (s : ProcessSystem) : Prop :=
  rest.length < (s.todo t).length

instance (t : ℕ) (rest : List KernelAction) : Decidable (s.Busy t rest) :=
  inferInstanceAs (Decidable (_ < _))

section Call

variable {t sig : ℕ} {group : ℤ} {rest : List KernelAction} {events : List GroupEvent}

section

variable (h : Underway t group sig rest s events)
include h

lemma Underway.others (htodo : s'.todo t = s.todo t)
    (halive : ∀ p, .raise p sig ∈ s.todo t → (s.process p).hasExited = false →
      (s'.process p).hasExited = false) : Underway t group sig rest s' events := by
  cases h with
  | checking h => exact .checking (htodo.trans h)
  | absent h => exact .absent (htodo.trans h)
  | collecting checks h => exact .collecting checks (htodo.trans h)
  | raising checks members done left aftermath hnodup hmembers haftermath hleft h =>
    refine .raising checks members done left aftermath hnodup hmembers haftermath (fun p hp => ?_)
      (htodo.trans h)
    refine halive p ?_ (hleft p hp)
    rw [h]
    exact List.mem_append_right _ (List.mem_append_left _ (List.mem_map_of_mem hp))

lemma Underway.performs (htable : s.processes.Nodup) (hsig : sig ≠ 0 ∧ sig < NSIG)
    (hbusy : s.Busy t rest)
    (halive : ∀ p, .raise p sig ∈ s.todo t → (s.process p).hasExited = false →
      (s'.process p).hasExited = false) {choice : Bool} {b : KernelAction}
    {more : List KernelAction} (hperforms : Performs t s s' choice b more) :
    Underway t group sig rest s' (events ++ groupEvents t group sig s (.perform choice)) := by
  obtain ⟨hcur, hbefore, s₁, next, hexec, hafter, hproc⟩ := hperforms
  rw [groupEvents, if_pos hcur, hbefore, List.head?_cons, Option.map_some, Option.getD_some]
  cases h with
  | absent h => exact absurd hbusy (by simp [Busy, h])
  | checking h =>
    rw [h] at hbefore
    obtain ⟨rfl, rfl⟩ := List.cons.inj hbefore
    cases hexec
    rw [List.nil_append, actionEvents]
    by_cases hnone : s.groupMembers group = []
    · rw [hnone]
      refine .absent (hafter.trans ?_)
      rw [if_neg, List.nil_append]
      simp only [Bool.and_eq_true, List.any_eq_true, not_and]
      rintro ⟨p, hp, hmember⟩
      exact absurd (List.mem_filter.mpr ⟨hp, Bool.and_eq_true_iff.mpr hmember⟩)
        (hnone ▸ List.not_mem_nil)
    · refine .collecting [s.groupMembers group] (hafter.trans ?_)
      rw [if_pos, List.singleton_append]
      obtain ⟨p, hp⟩ := List.exists_mem_of_ne_nil _ hnone
      rw [groupMembers, List.mem_filter] at hp
      simp only [Bool.and_eq_true, List.any_eq_true, bne_iff_ne, ne_eq]
      exact ⟨⟨p, hp.1, Bool.and_eq_true_iff.mp hp.2⟩, hsig.1⟩
  | collecting checks h =>
    rw [h] at hbefore
    obtain ⟨rfl, rfl⟩ := List.cons.inj hbefore
    obtain ⟨rfl, rfl⟩ := hexec
    refine .raising checks (s.groupMembers group) [] ((s.groupMembers group).take MAX_GROUP) []
      (htable.filter _) rfl (by simp) (fun p hp => ?_) hafter
    have hmem := List.mem_of_mem_take hp
    rw [groupMembers, List.mem_filter] at hmem
    rw [hproc]
    simpa using (Bool.and_eq_true_iff.mp hmem.2).2
  | raising checks members done left aftermath hnodup hmembers haftermath hleft h =>
    have hleft' : ∀ p ∈ left, (s'.process p).hasExited = false := fun p hp => by
      refine halive p ?_ (hleft p hp)
      rw [h]
      exact List.mem_append_right _ (List.mem_append_left _ (List.mem_map_of_mem hp))
    rw [h] at hbefore
    cases aftermath with
    | cons a more' =>
      have ha := haftermath a List.mem_cons_self
      obtain ⟨rfl, rfl⟩ := List.cons.inj hbefore
      -- Nothing of the aftermath shows.
      have hquiet : s.actionEvents group sig a = [] := by
        cases a with
        | raise p other => exact if_neg fun heq => ha.2 (heq.symm.trans ha.1)
        | groupExists | collectGroup => exact ha.elim
        | _ => rfl
      rw [hquiet, List.append_nil]
      refine .raising checks members done left (next ++ more') hnodup hmembers
        (fun c hc => ?_) hleft'
        (by rw [hafter, List.append_assoc]; rfl)
      rcases List.mem_append.mp hc with hc | hc
      · exact ha.next hexec c hc
      · exact haftermath c (List.mem_cons_of_mem a hc)
    | nil =>
      cases left with
      | nil => exact absurd hbusy (by simp [Busy, h])
      | cons p left =>
        obtain ⟨rfl, rfl⟩ := List.cons.inj hbefore
        simp only [exec, if_neg (show ¬ (sig = 0 ∨ NSIG ≤ sig) by omega), Option.some.injEq,
          Prod.mk.injEq] at hexec
        obtain ⟨-, rfl⟩ := hexec
        rw [actionEvents, if_pos rfl, hleft p List.mem_cons_self, List.append_assoc,
          List.cons_append, ← List.map_singleton (f := fun p => GroupEvent.raised p false),
          ← List.map_append]
        exact .raising checks members (done ++ [p]) left (s.afterRaise p sig) hnodup
          (by rw [hmembers, List.append_assoc, List.singleton_append]) aftermath_afterRaise
          (fun q hq => hleft' q (List.mem_cons_of_mem p hq)) hafter

lemma Underway.step (htable : s.processes.Nodup)
    (hsig : sig ≠ 0 ∧ sig < NSIG) {a : ProcessStep} (hbusy : s.Busy t rest)
    (hspares : Spares t sig s a) (hstep : s.step a = some s') :
    s'.processes.Nodup ∧ Underway t group sig rest s' (events ++ groupEvents t group sig s a) := by
  have hne : s.todo t ≠ [] := List.ne_nil_of_length_pos (by unfold Busy at hbusy; omega)
  obtain ⟨hnodup, halive, hcase⟩ := sees_step hne hspares hstep
  refine ⟨hnodup htable, ?_⟩
  rcases hcase with ⟨choice, b, more, rfl, hperforms⟩ | ⟨htodo, hnone⟩
  · exact h.performs htable hsig hbusy halive hperforms
  · rw [hnone group, List.append_nil]
    exact h.others htodo halive

end

/-! ## The call as a whole -/

/-- What is observed of a call that collects `members`. -/
def callEvents (checks : List (List ℕ)) (members done : List ℕ) : List GroupEvent :=
  checks.map .checked ++ .collected members :: done.map (.raised · false)

lemma lastMembers_callEvents (checks : List (List ℕ)) (members done : List ℕ) :
    lastMembers (callEvents checks members done) = members := by
  rw [lastMembers, callEvents, List.foldl_append, List.foldl_cons, List.foldl_map]
  induction done with
  | nil => rfl
  | cons p done ih => exact ih

lemma raisedOn_callEvents (checks : List (List ℕ)) (members done : List ℕ) :
    raisedOn (callEvents checks members done) = done := by
  rw [raisedOn, callEvents, List.filterMap_append, List.filterMap_cons, List.filterMap_map,
    List.filterMap_map]
  have hchecks : checks.filterMap (fun _ => (none : Option ℕ)) = [] := by simp
  have hdone : done.filterMap some = done := List.filterMap_some
  exact (congrArg₂ (· ++ ·) hchecks hdone).trans (List.nil_append done)

/-- A call that collects `members` is complete just if it can hold them all. -/
lemma complete_callEvents_iff {checks : List (List ℕ)} {members : List ℕ} (hnodup : members.Nodup) :
    Complete (callEvents checks members (members.take MAX_GROUP)) ↔ members.length ≤ MAX_GROUP := by
  constructor
  · intro h
    -- The two lists have the same elements as often, hence the same length.
    have hperm : (members.take MAX_GROUP).Perm members := List.perm_iff_count.mpr fun p => by
      have := h.once p
      rw [raisedOn_callEvents, lastMembers_callEvents] at this
      rw [this, hnodup.count]
    have := hperm.length_eq
    rw [List.length_take] at this
    omega
  · intro h
    rw [List.take_of_length_le h]
    refine ⟨fun p => ?_, fun p exited hraised => ?_⟩
    · rw [raisedOn_callEvents, lastMembers_callEvents, hnodup.count]
    · have : p ∈ members ∧ exited = false := by simpa [callEvents] using hraised
      exact this.2

lemma Underway.finished (h : Underway t group sig rest s events) (hdone : s.todo t = rest) :
    events = [.checked []] ∨
      ∃ checks members, members.Nodup ∧ events =
        callEvents checks members (members.take MAX_GROUP) := by
  cases h with
  | checking h => exact absurd (h.symm.trans hdone) (by simp)
  | absent => exact .inl rfl
  | collecting checks h => exact absurd (h.symm.trans hdone) (by simp)
  | raising checks members done left aftermath hnodup hmembers _ _ h =>
    have hlen := congrArg List.length (h.symm.trans hdone)
    simp only [List.length_append, List.length_map] at hlen
    obtain rfl : left = [] := List.eq_nil_of_length_eq_zero (by omega)
    refine .inr ⟨checks, members, hnodup, ?_⟩
    rw [hmembers, List.append_nil, callEvents]

/-- **Signalling a group.**  A call that signals a group, in any state of the process table and with
anybody else running in between, raises the signal once on every member and on nobody else just if
there are at most `MAX_GROUP` members; nobody who has been collected may exit before it is their
turn. -/
theorem group_signalled_iff {actions : List KernelAction} {as : List ProcessStep}
    (htable : s.processes.Nodup) (hcall : GroupCall s group signal actions)
    (htodo : s.todo t = actions ++ rest) (hrun : run step s as = some s')
    (hbusy : Along step (fun s _ => s.Busy t rest) s as) (hdone : s'.todo t = rest)
    (hspares : Along step (Spares t signal) s as) :
    Complete (observed step (groupEvents t group signal) s as) ↔
      ∀ members, .collected members ∈ observed step (groupEvents t group signal) s as →
        members.length ≤ MAX_GROUP := by
  obtain ⟨hsignal, hactions⟩ := hcall.actions_eq
  have hstart : Underway t group signal rest s [] := by
    rcases hactions with rfl | rfl
    · exact .checking htodo
    · exact .collecting [] htodo
  have hend : s'.processes.Nodup ∧
      Underway t group signal rest s' ([] ++ observed step (groupEvents t group signal) s as) :=
    run_observes (I := fun s l => s.processes.Nodup ∧ Underway t group signal rest s l)
      (fun _ _ _ _ hI hC hstep => hI.2.step hI.1 hsignal hC.1 hC.2 hstep) as s s' []
        ⟨htable, hstart⟩
      (hbusy.and hspares) hrun
  rw [List.nil_append] at hend
  rcases hend.2.finished hdone with hevents | ⟨checks, members, hnodup, hevents⟩
  · rw [hevents]
    exact iff_of_true ⟨fun p => rfl, by simp⟩ (by simp)
  · have hcollected : ∀ members', .collected members' ∈
        callEvents checks members (members.take MAX_GROUP) ↔ members' = members := by
      simp [callEvents, -List.map_take]
    simp only [hevents, complete_callEvents_iff hnodup, hcollected, forall_eq]

end Call

/-! ## Calls that are complete, and calls that are not -/

/-- Init runs and makes `n` children, none of which gets the CPU. -/
def bootAndFork (n : ℕ) : List ProcessStep :=
  .tick 0 true :: (List.replicate n [.fork, .perform true, .perform true, .perform true]).flatten

/-- Init has a child and is about to signal its group. -/
def pairSignalled : ProcessSystem :=
  (run step initial (bootAndFork 1 ++ [.kill 0 10])).getD initial

theorem group_signalled_pair :
    Complete (observed step (groupEvents 1 1 10) pairSignalled
      (List.replicate 4 (.perform true))) := by
  have hruns : (run step pairSignalled (List.replicate 4 (.perform true))).map (·.todo 1) =
    some [] := by
    decide +kernel
  obtain ⟨s', hrun, hdone⟩ := Option.map_eq_some_iff.mp hruns
  refine (group_signalled_iff (by decide +kernel)
    (.kill 0 (.inr rfl) (by decide +kernel) (by decide) (by decide)) (by decide +kernel) hrun
    (by decide +kernel) hdone (by decide +kernel)).mpr fun members hmembers => ?_
  have hevents : observed step (groupEvents 1 1 10) pairSignalled
    (List.replicate 4 (.perform true)) =
      [.checked [1, 2], .collected [1, 2], .raised 1 false, .raised 2 false] := by decide +kernel
  rw [hevents] at hmembers
  obtain rfl : members = [1, 2] := by simpa using hmembers
  decide

/-- Init has as many children as the array has room for, and with itself one more. -/
def crowdedGroup : List ProcessStep :=
  bootAndFork MAX_GROUP ++ .kill 0 10 :: List.replicate (MAX_GROUP + 2) (.perform true)

/-- The child of init exits after it has been collected. -/
def childExits : List ProcessStep :=
  bootAndFork 1 ++
  [.kill 0 10, .perform true, .perform true, .tick 0 true, .exit, .perform true, .tick 0 true,
    .perform true, .perform true]

/-- Neither call is complete: the one misses the last member, the other signals a process that has
exited. -/
theorem group_not_signalled :
    ((run step initial crowdedGroup).map (·.todo 1) = some [] ∧
      ¬ Complete (observed step (groupEvents 1 1 10) initial crowdedGroup)) ∧
    ((run step initial childExits).map (·.todo 1) = some [] ∧
      ¬ Complete (observed step (groupEvents 1 1 10) initial childExits)) := by
  refine ⟨⟨by decide +kernel, fun h => ?_⟩, by decide +kernel, fun h => ?_⟩
  · exact absurd (h.once (MAX_GROUP + 1)) (by decide +kernel)
  · exact absurd (h.alive 2 true (by decide +kernel)) (by decide)

end ProcessSystem
end ShitOs
