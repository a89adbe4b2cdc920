import Mathlib.Data.Nat.Notation
import Mathlib.Tactic.Common

/-!
# The status of a pipeline

A model of how `user/bin/sh.c` starts a foreground pipeline and waits for it: `run_pipeline` and
`wait_for_job`, with the encoding of a wait status (`shitos/abi/wait.h`).  What `fork` returns, how
each process ends and the order in which `waitpid` finds the children are given.  Descriptors,
redirections and the terminal are left out; no `fork` fails and no process stops.
-/

namespace ShitOs
namespace Shell

def WEXITSTATUS (s : ℕ) : ℕ := (s >>> 8) &&& 0xff
def WTERMSIG (s : ℕ) : ℕ := s &&& 0x7f
def WSTOPSIG (s : ℕ) : ℕ := WEXITSTATUS s
def WIFSTOPPED (s : ℕ) : Bool := s &&& 0xff == 0x7f
def WIFCONTINUED (s : ℕ) : Bool := s == 0xffff
def WIFSIGNALED (s : ℕ) : Bool := !WIFSTOPPED s && !WIFCONTINUED s && WTERMSIG s != 0
def W_EXITED (code : ℕ) : ℕ := (code &&& 0xff) <<< 8
def W_SIGNALLED (signal : ℕ) : ℕ := signal &&& 0x7f

/-- How a process ends. -/
inductive Outcome
  | exited (code : BitVec 8)
  | killed (signal : ℕ) (h : 0 < signal ∧ signal < 32)

/-- The wait status that the kernel makes of it. -/
def Outcome.status : Outcome → ℕ
  | .exited code => W_EXITED code.toNat
  | .killed signal _ => W_SIGNALLED signal

/-- A process of the pipeline that has not been waited for. -/
structure Child where
  pid : ℕ
  group : ℕ
  outcome : Outcome

/-- The loop of `run_pipeline` that forks, with what `fork` returns and how each command ends.  With
job control all processes join the group of the first. -/
def start (jobControl : Bool) (shellGroup : ℕ) (forked : List (ℕ × Outcome)) : List Child :=
  forked.map fun c => ⟨c.1, if jobControl then (forked.map Prod.fst).headD 0 else shellGroup, c.2⟩

/-- `wait_for_job`.  The children are in the order in which `waitpid` returns them. -/
def waitForJob (pgid : ℕ) : List Child → ℕ → ℕ
  | [], status => status
  | c :: rest, status =>
    if c.group ≠ pgid then waitForJob pgid rest status
    else if WIFSTOPPED c.outcome.status then 128 + WSTOPSIG c.outcome.status
    else waitForJob pgid rest c.outcome.status

/-- `waitpid` of one child: its status, or the `0` that was there if there is no such child. -/
def waitStatus (children : List Child) (pid : ℕ) : ℕ :=
  ((children.find? (·.pid = pid)).map (·.outcome.status)).getD 0

/-- The loop of `run_pipeline` that waits for each child; it keeps the status of the last. -/
def waitEach (children : List Child) : List ℕ → ℕ → ℕ
  | [], status => status
  | [pid], _ => waitStatus children pid
  | _ :: pids, status => waitEach children pids status

/-- What `run_pipeline` returns for a status without job control. -/
def valueOf (status : ℕ) : ℕ :=
  if WIFSIGNALED status then 128 + WTERMSIG status else WEXITSTATUS status

/-- What it returns for what `wait_for_job` returns. -/
def jobValueOf (status : ℕ) : ℕ :=
  if WIFSIGNALED status then 128 + WTERMSIG status
  else if status ≥ 128 then status
  else WEXITSTATUS status

/-- `run_pipeline` in the foreground, once the processes `pids` are started. -/
def runPipeline (jobControl : Bool) (pids : List ℕ) (children : List Child) : ℕ :=
  if jobControl then jobValueOf (waitForJob (pids.headD 0) children 0)
  else valueOf (waitEach children pids 0)

end Shell
end ShitOs
