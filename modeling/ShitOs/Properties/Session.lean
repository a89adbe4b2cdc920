import ShitOs.Construction.Session
import ShitOs.Framework.Transition

/-!
# One session per group

All members of a process group are to be in one session.  The calls keep this up through the leader:
whoever is in the group that carries a process's number is in the session of that process (`leader`
below), so that a process which founds its group, or comes back to it, finds its own session there.

`start_session` breaks this.  A process can found a group, put a child into it and move on to
another group; it then leads nothing any more, and `start_session` puts it alone into the new
session and back into the group it has left, where the child still is (`setsid_splits_group`).  As
long as nobody else carries the caller's number as a group, and process numbers are not handed out
while they are still in use as one, there is one session per group (`one_session_per_group`).
-/

namespace ShitOs
namespace SessionTable

variable {s' : SessionTable} {caller p : ℕ} {pgid : ℤ}

/-- The groups are whole. -/
def OneSession (s : SessionTable) : Prop :=
  ∀ p ∈ s.processes, ∀ q ∈ s.processes, (s.process p).pgid = (s.process q).pgid →
    (s.process p).sid = (s.process q).sid

instance (s : SessionTable) : Decidable s.OneSession :=
  inferInstanceAs (Decidable (∀ p ∈ s.processes, ∀ q ∈ s.processes, _ → _))

/-- What the calls keep. -/
structure Inv (s : SessionTable) : Prop where
  known : ∀ p ∈ s.processes, p < s.nextProcess
  distinct : ∀ p ∈ s.processes, ∀ q ∈ s.processes, (s.process p).pid = (s.process q).pid → p = q
  leader : ∀ p ∈ s.processes, ∀ q ∈ s.processes, (s.process q).pgid = (s.process p).pid →
    (s.process q).sid = (s.process p).sid
  group : s.OneSession

/-- The condition on a call: a process number that is handed out is not in use as a number of a
process or of a group, and nobody is in the group with the number of who starts a session. -/
def Clear (s : SessionTable) : SessionCall → Prop
  | .fork _ => ∀ p ∈ s.processes, (s.process p).pid ≠ s.nextPid ∧ (s.process p).pgid ≠ s.nextPid
  | .setsid self => (s.process self).pid ≠ (s.process self).pgid →
      ∀ p ∈ s.processes, (s.process p).pgid ≠ (s.process self).pid
  | _ => True

instance (s : SessionTable) : ∀ c, Decidable (s.Clear c)
  | .fork _ => inferInstanceAs (Decidable (∀ p ∈ _, _))
  | .setsid _ => inferInstanceAs (Decidable (_ → ∀ p ∈ _, _))
  | .setpgid _ _ _ => inferInstanceAs (Decidable True)
  | .exit _ => inferInstanceAs (Decidable True)
  | .reap _ _ => inferInstanceAs (Decidable True)

variable {s : SessionTable}

/-! ## The calls -/

section

variable (h : Inv s)
include h

lemma Inv.congr (hsub : ∀ p ∈ s'.processes, p ∈ s.processes)
    (hnext : s'.nextProcess = s.nextProcess)
    (hsame : ∀ p ∈ s'.processes, (s'.process p).pid = (s.process p).pid ∧ (s'.process p).pgid =
      (s.process p).pgid ∧ (s'.process p).sid = (s.process p).sid) : Inv s' where
  known p hp := hnext ▸ h.known p (hsub p hp)
  distinct p hp q hq heq := by
    rw [(hsame p hp).1, (hsame q hq).1] at heq
    exact h.distinct p (hsub p hp) q (hsub q hq) heq
  leader p hp q hq heq := by
    rw [(hsame q hq).2.1, (hsame p hp).1] at heq
    rw [(hsame q hq).2.2, (hsame p hp).2.2]
    exact h.leader p (hsub p hp) q (hsub q hq) heq
  group p hp q hq heq := by
    rw [(hsame p hp).2.1, (hsame q hq).2.1] at heq
    rw [(hsame p hp).2.2, (hsame q hq).2.2]
    exact h.group p (hsub p hp) q (hsub q hq) heq

/-- One process gets another group and session, where it fits. -/
lemma Inv.regroup {t : ℕ} {process : SessionProcess} (hpid : process.pid = (s.process t).pid)
    (hgroup : ∀ q ∈ s.processes, q ≠ t → (s.process q).pgid = process.pgid →
      (s.process q).sid = process.sid)
    (hleader : ∀ p ∈ s.processes, p ≠ t → process.pgid = (s.process p).pid →
      process.sid = (s.process p).sid)
    (hled : ∀ q ∈ s.processes, q ≠ t → (s.process q).pgid = process.pid →
      (s.process q).sid = process.sid) : Inv (s.setProcess t process) := by
  have hself : (s.setProcess t process).process t = process := Function.update_self ..
  have hother : ∀ q, q ≠ t → (s.setProcess t process).process q = s.process q :=
    fun q hq => Function.update_of_ne hq ..
  have hpids : ∀ q, ((s.setProcess t process).process q).pid = (s.process q).pid := by
    intro q
    by_cases hq : q = t
    · rw [hq, hself, hpid]
    · rw [hother q hq]
  refine ⟨h.known, fun p hp q hq heq => ?_, fun p hp q hq heq => ?_, fun p hp q hq heq => ?_⟩
  · rw [hpids, hpids] at heq
    exact h.distinct p hp q hq heq
  · by_cases hpt : p = t <;> by_cases hqt : q = t
    · rw [hpt, hqt]
    · rw [hpt, hself, hother q hqt] at heq ⊢
      exact hled q hq hqt heq
    · rw [hqt, hself, hother p hpt] at heq ⊢
      exact hleader p hp hpt heq
    · rw [hother p hpt, hother q hqt] at heq ⊢
      exact h.leader p hp q hq heq
  · by_cases hpt : p = t <;> by_cases hqt : q = t
    · rw [hpt, hqt]
    · rw [hpt, hself, hother q hqt] at heq ⊢
      exact (hgroup q hq hqt heq.symm).symm
    · rw [hqt, hself, hother p hpt] at heq ⊢
      exact hgroup p hp hpt heq
    · rw [hother p hpt, hother q hqt] at heq ⊢
      exact h.group p hp q hq heq

lemma Inv.create {parent : ℕ} (hpar : parent ∈ s.processes)
    (hclear : ∀ p ∈ s.processes, (s.process p).pid ≠ s.nextPid ∧ (s.process p).pgid ≠ s.nextPid) :
    Inv (s.create parent) := by
  have hold : ∀ p ∈ s.processes, (s.create parent).process p = s.process p := fun p hp =>
    Function.update_of_ne (Nat.ne_of_lt (h.known p hp)) ..
  have hnew : (s.create parent).process s.nextProcess = childOf (s.process parent) s.nextPid :=
    Function.update_self ..
  have hmem : ∀ p, p ∈ (s.create parent).processes ↔ p ∈ s.processes ∨ p = s.nextProcess :=
    fun p => List.mem_append.trans (or_congr Iff.rfl List.mem_singleton)
  refine ⟨fun p hp => ?_, fun p hp q hq heq => ?_, fun p hp q hq heq => ?_, fun p hp q hq heq => ?_⟩
  · change p < s.nextProcess + 1
    rcases (hmem p).mp hp with hp | rfl
    · exact Nat.lt_succ_of_lt (h.known p hp)
    · exact Nat.lt_succ_self _
  · rcases (hmem p).mp hp with hp | rfl <;> rcases (hmem q).mp hq with hq | rfl
    · rw [hold p hp, hold q hq] at heq
      exact h.distinct p hp q hq heq
    · rw [hold p hp, hnew] at heq
      exact absurd heq (hclear p hp).1
    · rw [hold q hq, hnew] at heq
      exact absurd heq.symm (hclear q hq).1
    · rfl
  · -- The child is in its parent's group; nobody is in a group with the child's number.
    rcases (hmem p).mp hp with hp | rfl <;> rcases (hmem q).mp hq with hq | rfl
    · rw [hold p hp, hold q hq] at heq ⊢
      exact h.leader p hp q hq heq
    · rw [hold p hp, hnew] at heq ⊢
      exact h.leader p hp parent hpar heq
    · rw [hold q hq, hnew] at heq
      exact absurd heq (hclear q hq).2
    · rfl
  · rcases (hmem p).mp hp with hp | rfl <;> rcases (hmem q).mp hq with hq | rfl
    · rw [hold p hp, hold q hq] at heq ⊢
      exact h.group p hp q hq heq
    · rw [hold p hp, hnew] at heq ⊢
      exact h.group p hp parent hpar heq
    · rw [hold q hq, hnew] at heq ⊢
      exact h.group parent hpar q hq heq
    · rfl

/-- `set_process_group` moves a process into a group of its own session: the one with its number, or
one it has found there. -/
lemma Inv.joinGroup {target : ℕ} (ht : target ∈ s.processes) :
    Inv (s.orSame (s.joinGroup caller target pgid)) := by
  unfold SessionTable.joinGroup
  dsimp only
  by_cases hchild : target ≠ caller ∧ (s.process target).parentPid ≠ (s.process caller).pid
  · rwa [if_pos hchild]
  by_cases hsid : (s.process target).sid ≠ (s.process caller).sid
  · rwa [if_neg hchild, if_pos hsid]
  by_cases hlead : (s.process target).pid = (s.process target).sid
  · rwa [if_neg hchild, if_neg hsid, if_pos hlead]
  generalize (if pgid = 0 then (s.process target).pid else pgid) = wanted
  split_ifs with hmissing
  · exact h
  have hfits : wanted = (s.process target).pid ∨ ∃ x ∈ s.processes, (s.process x).pgid = wanted ∧
      (s.process x).sid = (s.process target).sid := by
    by_cases hown : wanted = (s.process target).pid
    · exact .inl hown
    · have hfound : s.groupInSession wanted (s.process caller).sid = true := by
        simpa [hown] using hmissing
      obtain ⟨x, hx, heq⟩ := List.any_eq_true.mp hfound
      rw [Bool.and_eq_true, beq_iff_eq, beq_iff_eq, ← not_not.mp hsid] at heq
      exact .inr ⟨x, hx, heq⟩
  refine h.regroup rfl (fun q hq _ heq => ?_) (fun p hp hne heq => ?_)
    fun q hq _ heq => h.leader target ht q hq heq
  · rcases hfits with hown | ⟨x, hx, hxgroup, hxsid⟩
    · exact h.leader target ht q hq (heq.trans hown)
    · exact (h.group q hq x hx (heq.trans hxgroup.symm)).trans hxsid
  · rcases hfits with hown | ⟨x, hx, hxgroup, hxsid⟩
    · exact absurd (h.distinct p hp target ht (heq.symm.trans hown)) hne
    · exact hxsid.symm.trans (h.leader p hp x hx (hxgroup.trans heq))

lemma Inv.setProcessGroup {pid : ℤ} (hcaller : caller ∈ s.processes) :
    Inv (s.orSame (s.setProcessGroup caller pid pgid)) := by
  unfold SessionTable.setProcessGroup
  split_ifs with hneg hzero
  · exact h
  · exact h.joinGroup hcaller
  · cases hfound : s.byPid pid with
    | none => exact h
    | some target => exact h.joinGroup (List.mem_of_find?_eq_some hfound)

lemma Inv.startSession (hp : p ∈ s.processes)
    (hclear : s.Clear (.setsid p)) :
    Inv (s.orSame (s.startSession p)) := by
  unfold SessionTable.startSession
  dsimp only
  split_ifs with hlead
  · exact h
  · refine h.regroup rfl (fun q hq hne heq => ?_) (fun q hq hne heq => ?_) fun q hq hne heq => ?_
    · exact absurd heq (hclear hlead q hq)
    · exact absurd (h.distinct q hq p hp heq.symm) hne
    · exact absurd heq (hclear hlead q hq)

lemma Inv.markExited : Inv (s.markExited p) := by
  refine h.congr (fun q hq => hq) rfl fun q _ => ?_
  unfold SessionTable.markExited setProcess
  dsimp only
  by_cases hqp : q = p
  · subst hqp
    split_ifs <;> simp
  · split_ifs <;> simp [Function.update_of_ne hqp]

lemma Inv.reap {child : ℕ} : Inv (s.reap child) :=
  h.congr (fun _ hq => List.mem_of_mem_erase hq) rfl fun _ _ => ⟨rfl, rfl, rfl⟩

end

/-! ## Whole runs -/

lemma inv_initial : Inv initial where
  known := by decide
  distinct := by decide
  leader := by decide
  group := by decide

lemma ite_some {c : Prop} [Decidable c] {t : SessionTable}
    (h : (if c then some t else none) = some s') : c ∧ t = s' := by
  simpa using h

lemma inv_step (s : SessionTable) (c : SessionCall) (s' : SessionTable) (h : Inv s)
    (hclear : s.Clear c) (hstep : s.step c = some s') : Inv s' := by
  cases c with
  | fork self =>
    obtain ⟨halive, rfl⟩ := ite_some hstep
    exact h.create halive.1 hclear
  | setpgid self pid pgid =>
    obtain ⟨halive, rfl⟩ := ite_some hstep
    exact h.setProcessGroup halive.1
  | setsid self =>
    obtain ⟨halive, rfl⟩ := ite_some hstep
    exact h.startSession halive.1 hclear
  | exit self =>
    obtain ⟨-, rfl⟩ := ite_some hstep
    exact h.markExited
  | reap self child =>
    obtain ⟨-, rfl⟩ := ite_some hstep
    exact h.reap

/-- **One session per group.**  In a run of forks, `setpgid`s, `setsid`s, exits and reapings in
which no number is handed out twice and nobody founds a session who has left others in the group
with their number, all members of a group are in one session. -/
theorem one_session_per_group {calls : List SessionCall} {s : SessionTable}
    (hclear : Transition.Along step Clear initial calls)
    (hrun : Transition.run step initial calls = some s) : s.OneSession :=
  (Transition.run_invariant inv_step calls initial s inv_initial hclear hrun).group

/-- A shell and two jobs: the first job is put into a group of its own, forks and exits; the second
starts a session. -/
def shellSession : List SessionCall :=
  [.fork 1, .setpgid 1 2 2, .fork 2, .fork 1, .setsid 4, .fork 4, .exit 2, .reap 1 2]

theorem one_session_per_group_shell :
    ∃ s, Transition.run step initial shellSession = some s ∧ s.processes = [0, 1, 3, 4, 5] ∧
      (s.process 3).pgid = 2 ∧ (s.process 5).sid = 4 ∧ s.OneSession := by
  refine Transition.exists_run_mono (fun s => s.processes = [0, 1, 3, 4, 5] ∧
    (s.process 3).pgid = 2 ∧ (s.process 5).sid = 4) (by decide +kernel) fun s hrun hs => ?_
  exact ⟨hs.1, hs.2.1, hs.2.2, one_session_per_group (by decide +kernel) hrun⟩

/-- Process 2 founds group 2 and forks process 3 into it, moves to group 1, and starts session 2,
which puts it back into group 2.  Process 3 is there too, in session 1. -/
theorem setsid_splits_group :
    ∃ s, Transition.run step initial
        [.fork 1, .setpgid 2 0 0, .fork 2, .setpgid 2 0 1, .setsid 2] = some s ∧
      s.process 2 = ⟨2, 1, 2, 2, false⟩ ∧ s.process 3 = ⟨3, 2, 2, 1, false⟩ ∧ ¬ s.OneSession := by
  decide +kernel

end SessionTable
end ShitOs
