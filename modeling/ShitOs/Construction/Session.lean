import ShitOs.Construction.Abi
import Mathlib.Data.Int.Notation

/-!
# Process groups and sessions

A model of the part of `kernel/sched/process.cpp` that gives a process its group and its session:
`Process::create`, `set_process_group`, `start_session`, and the exit and the reaping that take
processes off the table.

Objects are numbers.  `process p` is what the object `p` holds and `processes` is the list
`s_processes`. `pid_t` has 32 bits, so that the counter of process numbers comes around.  Each call
is one step.

The controlling terminal takes no part in the checks and is left out.
-/

namespace ShitOs

/-- What a `Process` knows about its relatives. -/
structure SessionProcess where
  pid : ℤ
  parentPid : ℤ
  pgid : ℤ
  sid : ℤ
  hasExited : Bool
  deriving DecidableEq

/-- The table of processes. -/
structure SessionTable where
  processes : List ℕ
  process : ℕ → SessionProcess
  nextProcess : ℕ
  /-- `s_next_pid`. -/
  nextPid : ℤ

/-- A call by process `self`. -/
inductive SessionCall
  | fork (self : ℕ)
  | setpgid (self : ℕ) (pid pgid : ℤ)
  | setsid (self : ℕ)
  | exit (self : ℕ)
  | reap (self child : ℕ)
  deriving DecidableEq

namespace SessionTable

def byPid (s : SessionTable) (pid : ℤ) : Option ℕ :=
  s.processes.find? fun p => (s.process p).pid == pid

/-- Process `p` changes. -/
def setProcess (s : SessionTable) (p : ℕ) (process : SessionProcess) : SessionTable :=
  { s with process := Function.update s.process p process }

/-- `s_next_pid++`. -/
def succPid (pid : ℤ) : ℤ := (pid + 1).bmod (2 ^ 32)

/-- The child `Process::create` makes. -/
def childOf (parent : SessionProcess) (pid : ℤ) : SessionProcess where
  pid := pid
  parentPid := parent.pid
  pgid := parent.pgid
  sid := parent.sid
  hasExited := false

/-- `Process::create`, called by `sys_fork`. -/
def create (s : SessionTable) (parent : ℕ) : SessionTable :=
  let p := s.nextProcess
  { s.setProcess p (childOf (s.process parent) s.nextPid) with
    processes := s.processes ++ [p]
    nextProcess := p + 1
    nextPid := succPid s.nextPid }

/-- The loop of `set_process_group` that looks for the group in the session. -/
def groupInSession (s : SessionTable) (pgid sid : ℤ) : Bool :=
  s.processes.any fun p => (s.process p).pgid == pgid && (s.process p).sid == sid

/-- The end of `set_process_group`, once the target is known. -/
def joinGroup (s : SessionTable) (caller target : ℕ) (pgid : ℤ) : Except Errno SessionTable :=
  let t := s.process target
  let c := s.process caller
  if target ≠ caller ∧ t.parentPid ≠ c.pid then .error .ESRCH
  else if t.sid ≠ c.sid then .error .EPERM
  else if t.pid = t.sid then .error .EPERM
  else
    let wanted := if pgid = 0 then t.pid else pgid
    if wanted ≠ t.pid ∧ ¬ s.groupInSession wanted c.sid then .error .EPERM
    else .ok (s.setProcess target { t with pgid := wanted })

def setProcessGroup (s : SessionTable) (caller : ℕ) (pid pgid : ℤ) : Except Errno SessionTable :=
  if pid < 0 ∨ pgid < 0 then .error .EINVAL
  else
    match if pid = 0 then some caller else s.byPid pid with
    | none => .error .ESRCH
    | some target => s.joinGroup caller target pgid

def startSession (s : SessionTable) (p : ℕ) : Except Errno SessionTable :=
  let process := s.process p
  if process.pid = process.pgid then .error .EPERM
  else .ok (s.setProcess p { process with sid := process.pid, pgid := process.pid })

/-- `mark_exited`: the children are handed to init. -/
def markExited (s : SessionTable) (p : ℕ) : SessionTable :=
  let s := s.setProcess p { s.process p with hasExited := true }
  { s with process := fun q =>
      if q ∈ s.processes ∧ (s.process q).parentPid = (s.process p).pid then
        { s.process q with parentPid := 1 }
      else s.process q }

/-- The end of `reap_child`. -/
def reap (s : SessionTable) (child : ℕ) : SessionTable :=
  { s with processes := s.processes.erase child }

/-- A process that can make calls. -/
def Alive (s : SessionTable) (p : ℕ) : Prop := p ∈ s.processes ∧ (s.process p).hasExited = false

instance (s : SessionTable) (p : ℕ) : Decidable (s.Alive p) := inferInstanceAs (Decidable (_ ∧ _))

/-- A call that fails changes nothing. -/
def orSame (s : SessionTable) : Except Errno SessionTable → SessionTable
  | .ok s' => s'
  | .error _ => s

/-- One call. -/
def step (s : SessionTable) : SessionCall → Option SessionTable
  | .fork self => if s.Alive self then some (s.create self) else none
  | .setpgid self pid pgid =>
    if s.Alive self then some (s.orSame (s.setProcessGroup self pid pgid)) else none
  | .setsid self => if s.Alive self then some (s.orSame (s.startSession self)) else none
  | .exit self => if s.Alive self then some (s.markExited self) else none
  | .reap self child =>
    if s.Alive self ∧ child ∈ s.processes ∧ (s.process child).hasExited ∧ child ≠ self ∧
        (s.process child).parentPid = (s.process self).pid then
      some (s.reap child)
    else none

/-- After boot: the kernel's process and init, each the leader of its group and session. -/
def initial : SessionTable where
  processes := [0, 1]
  process := fun p => ⟨p, 0, p, p, false⟩
  nextProcess := 2
  nextPid := 2

end SessionTable

end ShitOs
