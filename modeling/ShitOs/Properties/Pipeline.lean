import Mathlib.Data.List.Nodup
import ShitOs.Construction.Pipeline

/-!
# The status of a pipeline is not that of its last command

Without job control `run_pipeline` returns what the last command returned, in whatever order the
processes end.  With job control it returns what it makes of the wait status of the process that is
waited for last, and it takes the status of one that exited for a value of 128 or more that is to be
returned as it is: `false` alone gives 256.  `pipeline_status_iff` says when the value is right.
-/

namespace ShitOs
namespace Shell

/-- What a shell makes of the end of a process. -/
def Outcome.value : Outcome → ℕ
  | .exited code => code.toNat
  | .killed signal _ => 128 + signal

/-- The process exited with another code than 0. -/
def Outcome.Failed : Outcome → Prop
  | .exited code => code ≠ 0
  | .killed _ _ => False

lemma status_exited : ∀ code : BitVec 8, WIFSTOPPED (W_EXITED code.toNat) = false ∧
    valueOf (W_EXITED code.toNat) = code.toNat ∧ jobValueOf (W_EXITED code.toNat) =
      256 * code.toNat := by
  decide

lemma status_killed : ∀ signal < 32, 0 < signal → WIFSTOPPED (W_SIGNALLED signal) = false ∧
    valueOf (W_SIGNALLED signal) = 128 + signal ∧ jobValueOf (W_SIGNALLED signal) =
      128 + signal := by
  decide

namespace Outcome

lemma not_stopped (o : Outcome) : WIFSTOPPED o.status = false := by
  cases o with
  | exited code => exact (status_exited code).1
  | killed signal h => exact (status_killed signal h.2 h.1).1

lemma valueOf_status (o : Outcome) : valueOf o.status = o.value := by
  cases o with
  | exited code => exact (status_exited code).2.1
  | killed signal h => exact (status_killed signal h.2 h.1).2.1

lemma value_lt (o : Outcome) : o.value < 256 := by
  cases o with
  | exited code => exact code.isLt
  | killed signal h =>
    rw [value]
    omega

lemma jobValueOf_eq_iff (o : Outcome) {v : ℕ} (hv : v < 256) :
    jobValueOf o.status = v ↔ ¬ o.Failed ∧ o.value = v := by
  cases o with
  | exited code =>
    have hzero : code = 0 ↔ code.toNat = 0 := by rw [← BitVec.toNat_inj]; rfl
    rw [status, (status_exited code).2.2, Failed, value, ne_eq, not_not, hzero]
    omega
  | killed signal h =>
    rw [status, (status_killed signal h.2 h.1).2.2, Failed, value]
    simp

end Outcome

/-- The loop of `wait_for_job` ends with the status of the process it finds last. -/
lemma waitForJob_eq {pgid : ℕ} {children : List Child} {c : Child} (status : ℕ)
    (hgroup : ∀ d ∈ children ++ [c], d.group = pgid) :
    waitForJob pgid (children ++ [c]) status = c.outcome.status := by
  induction children generalizing status with
  | nil => simp [waitForJob, hgroup, Outcome.not_stopped]
  | cons d children ih =>
    rw [List.cons_append, waitForJob, if_neg (not_not.mpr (hgroup d List.mem_cons_self)),
      Outcome.not_stopped]
    exact ih _ fun e he => hgroup e (List.mem_cons_of_mem d he)

lemma waitEach_eq (children : List Child) (pid status : ℕ) :
    ∀ pids : List ℕ, waitEach children (pids ++ [pid]) status = waitStatus children pid
  | [] => rfl
  | [_] => rfl
  | _ :: q :: pids => waitEach_eq children pid status (q :: pids)

/-- A child is found by its number, in whatever order the children are. -/
lemma waitStatus_eq {children : List Child} {c : Child} (hc : c ∈ children)
    (hpids : (children.map Child.pid).Nodup) : waitStatus children c.pid = c.outcome.status := by
  have hfind : ∃ d, children.find? (·.pid = c.pid) = some d := by
    rw [← Option.isSome_iff_exists, List.find?_isSome]
    exact ⟨c, hc, by simp⟩
  obtain ⟨d, hd⟩ := hfind
  have hpid : d.pid = c.pid := by simpa using List.find?_some hd
  obtain rfl := List.inj_on_of_nodup_map hpids (List.mem_of_find?_eq_some hd) hc hpid
  rw [waitStatus, hd]
  rfl

/-- Without job control the status of a foreground pipeline is that of its last command, in whatever
order the processes are waited for.  With job control it is right just if the process that is waited
for last was killed or exited with 0, and the last command ended with the same value. -/
theorem pipeline_status_iff (forked : List (ℕ × Outcome)) {pid shellGroup : ℕ} {last : Outcome}
    (hpids : ((forked ++ [(pid, last)]).map Prod.fst).Nodup) {children : List Child}
    {jobControl : Bool}
    (horder : children.Perm (start jobControl shellGroup (forked ++ [(pid, last)]))) :
    runPipeline jobControl ((forked ++ [(pid, last)]).map Prod.fst) children = last.value ↔
      jobControl = true → ∃ c ∈ children.getLast?, ¬ c.outcome.Failed ∧ c.outcome.value =
        last.value := by
  cases jobControl with
  | false =>
    have hnodup : (children.map Child.pid).Nodup := by
      rw [(horder.map Child.pid).nodup_iff]
      simpa [start, Function.comp_def] using hpids
    have hlast : (⟨pid, shellGroup, last⟩ : Child) ∈ children := by
      rw [horder.mem_iff]
      simp [start]
    have hstatus := waitStatus_eq hlast hnodup
    simp [runPipeline, waitEach_eq, hstatus, last.valueOf_status]
  | true =>
    have hne : children ≠ [] := by
      rintro rfl
      simpa [start] using horder.length_eq
    obtain ⟨rest, c, rfl⟩ := (List.eq_nil_or_concat' children).resolve_left hne
    have hgroup : ∀ d ∈ rest ++ [c], d.group =
      ((forked ++ [(pid, last)]).map Prod.fst).headD 0 := by
      intro d hd
      obtain ⟨x, -, rfl⟩ := List.mem_map.mp (horder.mem_iff.mp hd)
      rfl
    have hiff := c.outcome.jobValueOf_eq_iff last.value_lt
    rw [← waitForJob_eq 0 hgroup] at hiff
    simpa [runPipeline] using hiff

/-- Two commands that exit with 0 and 1. -/
theorem pipeline_status_iff_two :
    runPipeline false [7, 8] [⟨8, 1, .exited 1⟩, ⟨7, 1, .exited 0⟩] = 1 :=
  (pipeline_status_iff [(7, .exited 0)] (by decide) (.swap _ _ [])).mpr (by simp)

/-- With job control the status of a command that exits with 1 is 256; and where the first of two
commands ends last, killed by signal 2, the status is its 130. -/
theorem pipeline_status_wrong :
    runPipeline true [7] [⟨7, 7, .exited 1⟩] = 256 ∧
      runPipeline true [7, 8] [⟨8, 7, .exited 0⟩, ⟨7, 7, .killed 2 (by decide)⟩] = 130 := by
  decide

end Shell
end ShitOs
