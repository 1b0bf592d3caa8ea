import ArachKernel.Lib.Prog
import ArachKernel.Lib.Table
import ArachKernel.Process.Context

/-!
The process table (`process/lifecycle.rs`): the slots of the tasks, the counter of
process numbers, the scheduler epoch, and the two words outside the lock that
publish the running task and the epoch. Every operation holds the table lock from
its first look at a slot to its last, so each one is one step.
-/

namespace ArachKernel.Process

open Table

abbrev maximumProcesses : ℕ := 64

/-- A slot of the process table. -/
abbrev TaskIndex := Fin maximumProcesses

def noPid : ℕ := 0
def initPid : ℕ := 1
def pid0Generation : ℕ := 1

/-- The identity of the idle execution. -/
def pid0Identity : ProcessHandle := { pid := noPid, generation := pid0Generation }

inductive ExecutionAbi
  | arachNative
  | linuxX8664
  deriving DecidableEq

def ExecutionAbi.isLinux (abi : ExecutionAbi) : Bool := abi == .linuxX8664

inductive ProcessPhase
  | free
  | installing
  | runnable
  | running
  | blocked
  | zombie
  deriving DecidableEq

structure ProcessLaunch where
  addressSpaceRoot : Word
  entryPoint : Word
  userStackPointer : Word
  kernelStackPointer : Word
  imageMeasurementRoot : Word
  capabilityRoot : Word
  serviceClass : ℕ
  priority : ℕ
  abi : ExecutionAbi
  deriving DecidableEq

def ProcessLaunch.validate (launch : ProcessLaunch) : Bool :=
  validPageTableRoot launch.addressSpaceRoot && validUserAddress launch.entryPoint &&
    validUserAddress launch.userStackPointer &&
    validKernelStackPointer launch.kernelStackPointer && launch.imageMeasurementRoot != 0 &&
    launch.capabilityRoot != 0

def ProcessLaunch.empty : ProcessLaunch where
  addressSpaceRoot := 0
  entryPoint := 0
  userStackPointer := 0
  kernelStackPointer := 0
  imageMeasurementRoot := 0
  capabilityRoot := 0
  serviceClass := 0
  priority := 0
  abi := .arachNative

structure ExecutionAuthority where
  handle : ProcessHandle
  schedulerEpoch : ℕ
  deriving DecidableEq

structure ProcessSnapshot where
  handle : ProcessHandle
  threadGroup : ℕ
  parent : ℕ
  phase : ProcessPhase
  launch : ProcessLaunch
  exitCode : ℤ
  waitSequence : ℕ
  deriving DecidableEq

structure ScheduledProcess where
  handle : ProcessHandle
  context : DispatchContext
  schedulerEpoch : ℕ
  deriving DecidableEq

def ScheduledProcess.authorizedReturn (scheduled : ScheduledProcess) : AuthorizedUserReturn where
  dispatch := scheduled.context
  pid := scheduled.handle.pid
  generation := scheduled.handle.generation
  schedulerEpoch := scheduled.schedulerEpoch

structure Pid0Authority where
  generation : ℕ
  schedulerEpoch : ℕ
  deriving DecidableEq

inductive ScheduleDecision
  | user (scheduled : ScheduledProcess)
  | pid0 (authority : Pid0Authority)
  deriving DecidableEq

inductive LifecycleError
  | invalidLaunch
  | invalidContext
  | capacity
  | invalidHandle
  | invalidTransition
  | notChild
  | stillRunning
  | noChild
  | epochExhausted
  | staleDispatchAuthority
  | stalePreemptionAuthority
  | stalePid0Authority
  | pid0Immutable
  deriving DecidableEq

structure ProcessSlot where
  occupied : Bool
  generation : ℕ
  pid : ℕ
  threadGroup : ℕ
  parent : ℕ
  phase : ProcessPhase
  launch : ProcessLaunch
  context : SavedUserContext
  fsBase : Word
  exitCode : ℤ
  waitSequence : ℕ
  deriving DecidableEq

namespace ProcessSlot

def empty : ProcessSlot where
  occupied := false
  generation := 1
  pid := 0
  threadGroup := 0
  parent := 0
  phase := .free
  launch := .empty
  context := .empty
  fsBase := 0
  exitCode := 0
  waitSequence := 0

variable (slot : ProcessSlot)

def handle : ProcessHandle := { pid := slot.pid, generation := slot.generation }

def snapshot : ProcessSnapshot where
  handle := slot.handle
  threadGroup := slot.threadGroup
  parent := slot.parent
  phase := slot.phase
  launch := slot.launch
  exitCode := slot.exitCode
  waitSequence := slot.waitSequence

/-- Does the slot hold the task of this exact generation? -/
def holds (handle : ProcessHandle) : Bool :=
  slot.occupied && slot.pid == handle.pid && slot.generation == handle.generation

def inPhase (phase : ProcessPhase) : Bool := slot.occupied && slot.phase == phase

def inGroup (group : ℕ) : Bool := slot.occupied && slot.threadGroup == group

/-- The slot of the leader of a thread group. -/
def leads (group : ℕ) : Bool :=
  slot.occupied && slot.pid == group && slot.threadGroup == group

/-- A free slot that has a generation left. -/
def vacant : Bool := !slot.occupied && decide (slot.generation < u32Max)

/-- The slot after its task is gone. The last generation is never used again. -/
def retired : ProcessSlot :=
  { empty with generation := (checkedAdd u32Max slot.generation 1).getD u32Max }

end ProcessSlot

/-- `TABLE`, `CURRENT_EXECUTION` and `CURRENT_SCHEDULER_EPOCH`. -/
structure Lifecycle where
  slots : TaskIndex → ProcessSlot
  nextPid : ℕ
  schedulerEpoch : ℕ
  currentExecution : ProcessHandle
  currentSchedulerEpoch : ℕ

namespace Lifecycle

def new : Lifecycle where
  slots := fun _ => .empty
  nextPid := 2
  schedulerEpoch := 0
  currentExecution := pid0Identity
  currentSchedulerEpoch := 0

variable (s : Lifecycle)

def setSlot (i : TaskIndex) (slot : ProcessSlot) : Lifecycle :=
  { s with slots := Function.update s.slots i slot }

def setPhase (i : TaskIndex) (phase : ProcessPhase) : Lifecycle :=
  s.setSlot i { s.slots i with phase }

/-- `publish_scheduler_epoch`, together with the store to the locked epoch that it mirrors. -/
def publishEpoch (epoch : ℕ) : Lifecycle :=
  { s with schedulerEpoch := epoch, currentSchedulerEpoch := epoch }

def slotByHandle (handle : ProcessHandle) : Option TaskIndex :=
  position fun i => (s.slots i).holds handle

def slotByPid (pid : ℕ) : Option TaskIndex :=
  position fun i => (s.slots i).occupied && (s.slots i).pid == pid

local instance neZeroProcesses : NeZero maximumProcesses := ⟨by decide⟩

/-- The first index after `after`, in rotating order and `after` last, where `p` holds. -/
def rotating (after : TaskIndex) (p : TaskIndex → Bool) : Option TaskIndex :=
  (position fun offset => p (after + (offset + 1))).map fun offset => after + (offset + 1)

def nextRunnableIndex (after : TaskIndex) : Option TaskIndex :=
  rotating after fun i => (s.slots i).inPhase .runnable

def anyRunning : Bool := (position fun i => (s.slots i).inPhase .running).isSome

def vacantIndex : Option TaskIndex := position fun i => (s.slots i).vacant

def groupCount (group : ℕ) : ℕ :=
  ((List.finRange maximumProcesses).filter fun i => (s.slots i).inGroup group).length

def allocatePidLoop : ℕ → Lifecycle → Option ℕ × Lifecycle
  | 0, s => (none, s)
  | tries + 1, s =>
    let candidate := max s.nextPid 2
    let s := { s with nextPid := max ((candidate + 1) % 2 ^ 32) 2 }
    if (s.slotByPid candidate).isSome then allocatePidLoop tries s else (some candidate, s)

def allocatePid : Option ℕ × Lifecycle := allocatePidLoop (maximumProcesses + 1) s

def scheduled (i : TaskIndex) (user : SavedUserContext) (epoch : ℕ) : ScheduledProcess where
  handle := (s.slots i).handle
  context :=
    { user
      addressSpaceRoot := (s.slots i).launch.addressSpaceRoot
      kernelStackPointer := (s.slots i).launch.kernelStackPointer
      fsBase := (s.slots i).fsBase }
  schedulerEpoch := epoch

end Lifecycle

def nextSchedulerEpoch (epoch : ℕ) : Except LifecycleError ℕ :=
  match checkedAdd u64Max epoch 1 with
  | some next => .ok next
  | none => .error .epochExhausted

end ArachKernel.Process
