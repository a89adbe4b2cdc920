import ShitOs.Construction.AddressSpace
import ShitOs.Construction.Descriptors
import ShitOs.Construction.SignalDelivery

/-!
# Fork

A model of `sys_fork` (`kernel/sys/syscall.cpp`) with `Process::create`
(`kernel/sched/process.cpp`), `Thread::create_from_frame` (`kernel/sched/thread.cpp`) and
`AddressSpace::clone_user_space`, over the machine, the descriptor tables and the process table of
the other modules.

`ProcessSystem` has the part of a process that decides about waiting and scheduling,
`DescriptorSystem` its descriptors with the reference counts of descriptions and inodes, and
`ProcessDetails` all its other members that a fork may look at.  A call that fails keeps what it has
done so far, and the steps are in the order of the source.

Whether the kernel heap has room for the three objects that a fork needs is an argument
(`ForkRoom`); the frames of user memory come from the machine.  A fork is not interrupted here.
Left out: wait status and stop signal, zero in a new process, and the clean FPU state.
-/

namespace ShitOs

open Program

/-- The other members of a `Process`.  `name` is the text in `m_name`. -/
structure ProcessDetails where
  name : List (BitVec 8)
  addressSpace : Option ℕ
  workingDirectory : Option ℕ
  controllingTerminal : Option ℕ
  umask : BitVec 32
  brkStart : U64
  brkCurrent : U64
  threadCount : ℕ
  signalHandlers : ℕ → U64
  signalFlags : ℕ → BitVec 32
  signalRestorers : ℕ → U64
  mmapNext : U64

def PROCESS_NAME_MAX : ℕ := 32

/-- Where `mmap_next` begins. -/
def MMAP_START : U64 := 0x0000100000000000

/-- A `Process` after its constructor. -/
def ProcessDetails.initial : ProcessDetails where
  name := []
  addressSpace := none
  workingDirectory := none
  controllingTerminal := none
  umask := 0o022
  brkStart := 0
  brkCurrent := 0
  threadCount := 0
  signalHandlers := fun _ => 0
  signalFlags := fun _ => 0
  signalRestorers := fun _ => 0
  mmapNext := MMAP_START

/-- The kernel as a fork sees it.  `frame` is `m_frame` of a thread. -/
structure ForkSystem where
  system : ProcessSystem
  details : ℕ → ProcessDetails
  files : DescriptorSystem
  memory : Machine
  kernelRoot : ℕ
  frame : ℕ → InterruptFrame

/-- Whether the kernel heap has room for the process, for its address space, and for its thread with
the kernel stack. -/
structure ForkRoom where
  process : Bool
  space : Bool
  thread : Bool
  deriving DecidableEq

abbrev ForkM := Program ForkSystem Errno

namespace ForkSystem

variable (s : ForkSystem)

/-- The calling process. -/
def parent : ℕ := s.system.self

/-- Process `p` changes. -/
def setDetails (p : ℕ) (details : ProcessDetails) : ForkSystem :=
  { s with details := Function.update s.details p details }

/-- The reference count of an inode changes, if there is an inode. -/
def count (f : ℕ → ℕ) (inode : Option ℕ) : ForkSystem :=
  let references := fun i => if i ∈ inode then f (s.files.references i) else s.files.references i
  { s with files := { s.files with references := references } }

/-- `Inode::ref`. -/
def refInode (inode : Option ℕ) : ForkSystem := s.count (· + 1) inode

/-- `Inode::unref` of an inode somebody else holds. -/
def unrefInode (inode : Option ℕ) : ForkSystem := s.count (· - 1) inode

def setWorkingDirectory (p : ℕ) (inode : Option ℕ) : ForkSystem :=
  let s := (s.refInode inode).unrefInode (s.details p).workingDirectory
  s.setDetails p { s.details p with workingDirectory := inode }

def setControllingTerminal (p : ℕ) (inode : Option ℕ) : ForkSystem :=
  let s := (s.refInode inode).unrefInode (s.details p).controllingTerminal
  s.setDetails p { s.details p with controllingTerminal := inode }

/-! ## `Process::create` -/

/-- A new object, with its number, its name, its group and its session.  The signal mask is taken
over with them. -/
def newProcess (parent child : ℕ) : ForkSystem :=
  let process := ProcessSystem.childOf (s.system.process parent) s.system.nextPid
  let details := { ProcessDetails.initial with
    name := (s.details parent).name.take (PROCESS_NAME_MAX - 1) }
  { s.setDetails child details with
    system := { s.system.setProcess child process with
      nextProcess := child + 1
      nextPid := s.system.nextPid + 1
      destroyed := Function.update s.system.destroyed child false }
    files := { s.files with
      slots := fun x => if x.1 = child then none else s.files.slots x
      nextProcess := child + 1
      exited := Function.update s.files.exited child false } }

/-- The working directory is the parent's. -/
def inheritDirectory (parent child : ℕ) : ForkSystem :=
  let directory := (s.details parent).workingDirectory
  (s.setDetails child { s.details child with workingDirectory := directory }).refInode directory

/-- `s_processes.append`. -/
def appendProcess (child : ℕ) : ForkSystem :=
  let processes := s.system.processes
  { s with system := { s.system with
      processes := if child ∈ processes then processes else processes ++ [child] } }

/-- `Process::create`; `room` says whether the process can be allocated. -/
def create (parent : ℕ) (room : Bool) : ForkM ℕ := do
  if ¬room then
    throw .ENOMEM
  let child := (← get).system.nextProcess
  modify fun s => s.newProcess parent child
  modify fun s => s.setControllingTerminal child (s.details parent).controllingTerminal
  modify fun s => s.setDetails child { s.details child with umask := (s.details parent).umask }
  modify fun s => s.inheritDirectory parent child
  modify fun s => s.appendProcess child
  return child

/-! ## `sys_fork` -/

/-- The loop over the descriptors. -/
def inheritDescriptors (parent child : ℕ) : ForkSystem :=
  { s with files :=
      (List.range MAX_FILE_DESCRIPTORS).foldl (DescriptorSystem.inherit parent child) s.files }

/-- `Thread::create_from_frame`, `add_thread` and `Scheduler::enqueue`. -/
def startThread (child : ℕ) (frame : InterruptFrame) : ForkSystem :=
  let details := s.details child
  { s.setDetails child { details with threadCount := details.threadCount + 1 } with
    system := s.system.addThread child
    frame := Function.update s.frame s.system.nextThread { frame with rax := 0 } }

def setBrkStart (p : ℕ) (address : U64) : ForkSystem :=
  s.setDetails p { s.details p with brkStart := address, brkCurrent := address }

/-- `set_address_space`, `set_working_directory` and `mmap_next` of the child. -/
def furnish (parent child space : ℕ) : ForkSystem :=
  let s := s.setDetails child { s.details child with addressSpace := some space }
  let s := s.setWorkingDirectory child (s.details parent).workingDirectory
  s.setDetails child { s.details child with mmapNext := (s.details parent).mmapNext }

/-- `clone_user_space`, on the machine. -/
def cloneSpace (root : ℕ) (room : Bool) : ForkM ℕ := do
  zoom memory (fun m s => { s with memory := m })
    (AddressSpace.cloneUserSpace (← get).kernelRoot root !room)

def sysFork (frame : InterruptFrame) (room : ForkRoom) : ForkM ℤ := do
  let parent := (← get).parent
  match ((← get).details parent).addressSpace with
  | none => throw .EINVAL
  | some root =>
    let child ← create parent room.process
    let space ← cloneSpace root room.space
    modify fun s => s.furnish parent child space
    modify fun s => s.inheritDescriptors parent child
    if ¬room.thread then
      throw .ENOMEM
    modify fun s => s.startThread child frame
    modify fun s => s.setBrkStart child (s.details parent).brkCurrent
    return ((← get).system.process child).pid

end ForkSystem

/-! ## `reap_child` -/

/-- What a call of `reap_child` comes to: a child whose stop or continue is reported, one that is
reaped, an error, or the caller is put to sleep. -/
inductive WaitOutcome
  | reports (child : ℕ)
  | reaps (child : ℕ)
  | fails (e : Errno)
  | sleeps
  deriving DecidableEq

/-- `reap_child`, up to the first time it sleeps. -/
def ProcessSystem.reapChild (s : ProcessSystem) (self : ℕ) (wanted : ℤ) (blocking : Bool)
    (options : BitVec 32) : WaitOutcome :=
  let found := s.scanChildren self wanted options s.processes ⟨false, none, none⟩
  match found.changed, found.finished with
  | some child, _ => .reports child
  | none, some child => .reaps child
  | none, none =>
    if !found.anyChildren then .fails .ECHILD
    else if !blocking then .fails .EAGAIN
    else .sleeps

end ShitOs
