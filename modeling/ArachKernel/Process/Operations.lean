import ArachKernel.Lib.Locked
import ArachKernel.Process.Table
import Mathlib.Logic.Relation

/-!
The operations of the process table (`process/lifecycle.rs`). Each is a section under
the table lock: it checks its arguments and the table, and then writes.
-/

namespace ArachKernel.Process

open Table Lifecycle Locked

/-- A section of the process table. -/
abbrev Op := Locked LifecycleError Lifecycle

/-- `map_err(|_| LifecycleError::InvalidContext)`. -/
def checkContext (result : Except ContextError Unit) : Op Unit :=
  ensure result.isOk .invalidContext

/-! ### Reading -/

variable (saved : SavedUserContext) (handle : ProcessHandle) (s : Lifecycle)

def currentHandle : Option ProcessHandle :=
  if s.currentExecution.valid then some s.currentExecution else none

def currentUserHandle : Except LifecycleError ProcessHandle :=
  if s.currentExecution = pid0Identity then .error .pid0Immutable
  else
    match currentHandle s with
    | some handle => .ok handle
    | none => .error .invalidHandle

def snapshotExact : Option ProcessSnapshot :=
  (s.slotByHandle handle).map fun i => (s.slots i).snapshot

def currentPid : ℕ := ((currentHandle s).map (·.pid)).getD noPid

def currentThreadGroupMemberCount : ℕ :=
  match (currentHandle s).bind s.slotByHandle with
  | none => 0
  | some i => s.groupCount (s.slots i).threadGroup

/-- The leader of the running task's thread group. -/
def currentThreadGroupHandle : Option ProcessHandle := do
  let i ← (currentHandle s).bind s.slotByHandle
  let leader ← position fun j => (s.slots j).leads (s.slots i).threadGroup
  pure (s.slots leader).handle

/-- The leader and all members of the running task's thread group. -/
def currentThreadGroupHandles : Except LifecycleError (ProcessHandle × List ProcessHandle) := do
  let current ← currentUserHandle s
  let some i := s.slotByHandle current | .error .invalidHandle
  let group := (s.slots i).threadGroup
  let some leader := position fun j => (s.slots j).leads group | .error .invalidHandle
  let members := (List.finRange maximumProcesses).filter fun j => (s.slots j).inGroup group
  .ok ((s.slots leader).handle, members.map fun j => (s.slots j).handle)

def currentIsThreadGroupLeader : Bool :=
  ((currentHandle s).bind fun handle => snapshotExact handle s).any fun snapshot =>
    snapshot.handle.pid == snapshot.threadGroup

/-- The request that a timer interrupt leaves behind, from the two published words. -/
def currentExecutionAuthorityFromIrq : Option ExecutionAuthority :=
  match currentHandle s with
  | none => none
  | some handle =>
    if s.currentSchedulerEpoch = 0 then none
    else some { handle, schedulerEpoch := s.currentSchedulerEpoch }

def pid0Authority (epoch : ℕ) : Pid0Authority :=
  { generation := pid0Generation, schedulerEpoch := epoch }

def validatePid0Authority (authority : Pid0Authority) (s : Lifecycle) :
    Except LifecycleError Unit :=
  if s.currentExecution ≠ pid0Identity ∨ authority.generation ≠ pid0Generation ∨
      authority.schedulerEpoch ≠ s.schedulerEpoch then
    .error .stalePid0Authority
  else .ok ()

def currentPid0Authority : Except LifecycleError Pid0Authority :=
  let authority := pid0Authority s.schedulerEpoch
  match validatePid0Authority authority s with
  | .error e => .error e
  | .ok () => .ok authority

def authorizePid0 (authority : Pid0Authority) (s : Lifecycle) : Except LifecycleError Unit :=
  validatePid0Authority authority s

/-- The slot of the running task, by the published identity. -/
def runningIndex : Except LifecycleError TaskIndex :=
  match currentUserHandle s with
  | .error e => .error e
  | .ok current =>
    match s.slotByHandle current with
    | none => .error .invalidHandle
    | some i => if (s.slots i).phase ≠ .running then .error .invalidTransition else .ok i

def currentReplacementIndex : Except LifecycleError TaskIndex :=
  match runningIndex s with
  | .error e => .error e
  | .ok i =>
    let slot := s.slots i
    if !slot.launch.abi.isLinux ∨ slot.pid ≠ slot.threadGroup ∨
      s.groupCount slot.threadGroup ≠ 1 then
      .error .invalidTransition
    else .ok i

def preflightCurrentImageReplacement : Except LifecycleError ProcessHandle :=
  match currentUserHandle s, currentReplacementIndex s, nextSchedulerEpoch s.schedulerEpoch with
  | .error e, _, _ => .error e
  | .ok _, .error e, _ => .error e
  | .ok _, .ok _, .error e => .error e
  | .ok current, .ok _, .ok _ => .ok current

def currentFsBase : Except LifecycleError Word :=
  match currentUserHandle s with
  | .error e => .error e
  | .ok current =>
    match s.slotByHandle current with
    | none => .error .invalidHandle
    | some i => .ok (s.slots i).fsBase

/-- Compare the authority of a return to user mode with the table. -/
def authorizeUserReturn (authority : AuthorizedUserReturn) (s : Lifecycle) :
    Except LifecycleError ScheduledProcess :=
  if !authority.validate.isOk then .error .invalidContext
  else
    let handle := { pid := authority.pid, generation := authority.generation }
    if currentHandle s ≠ some handle ∨ s.schedulerEpoch ≠ authority.schedulerEpoch then
      .error .staleDispatchAuthority
    else
      match s.slotByHandle handle with
      | none => .error .staleDispatchAuthority
      | some i =>
        if (s.slots i).phase ≠ .running then .error .staleDispatchAuthority
        else
          let expected := s.scheduled i (s.slots i).context s.schedulerEpoch
          if expected.authorizedReturn ≠ authority then .error .staleDispatchAuthority
          else .ok expected

/-! ### Admission -/

def publishCurrent : Op Unit := do
  ensure (handle.pid != noPid) .pid0Immutable
  let s ← get
  let i ← expect (s.slotByHandle handle) .invalidHandle
  ensure ((s.slots i).phase == .running) .invalidTransition
  modify fun s => { s with currentExecution := handle }

/-- The slot of a new process that leads its own thread group. -/
def installed (generation pid parent : ℕ) (launch : ProcessLaunch) (waitSequence : ℕ) :
    ProcessSlot where
  occupied := true
  generation
  pid
  threadGroup := pid
  parent
  phase := .runnable
  launch
  context := .initial launch.entryPoint launch.userStackPointer
  fsBase := 0
  exitCode := 0
  waitSequence

def registerInit (launch : ProcessLaunch) : Op ProcessHandle := do
  ensure launch.validate .invalidLaunch
  let s ← get
  ensure (s.slotByPid initPid).isNone .invalidTransition
  let i ← expect s.vacantIndex .capacity
  let generation := (s.slots i).generation
  modify (·.setSlot i (installed generation initPid noPid launch 0))
  pure { pid := initPid, generation }

/-- Take the next free process number. The counter moves also when nothing comes of it. -/
def takePid : Op ℕ := do
  let s ← get
  modify fun s => s.allocatePid.2
  expect s.allocatePid.1 .capacity

def commitChild (parent : ℕ) (launch : ProcessLaunch) : Op ProcessHandle := do
  ensure (parent != noPid && launch.validate) .invalidLaunch
  let s ← get
  let p ← expect (s.slotByPid parent) .invalidHandle
  ensure ((s.slots p).phase != .free && (s.slots p).phase != .zombie) .invalidTransition
  let pid ← takePid
  -- a vacant slot has a generation left, so the checked increment does not fail
  let i ← expect s.vacantIndex .capacity
  let generation := (s.slots i).generation + 1
  modify (·.setSlot i (installed generation pid parent launch s.schedulerEpoch))
  pure { pid, generation }

/-- A new thread in the group of the running task. It shares the launch data, and has
a register state and an FS base of its own. -/
def cloneCurrentThread (parentContext : SavedUserContext) (childStackPointer childFsBase : Word) :
    Op (ProcessHandle × ScheduledProcess) := do
  ensure (validUserAddress childStackPointer && validUserTlsBase childFsBase) .invalidContext
  checkContext parentContext.validate
  let s ← get
  let current ← check (runningIndex s)
  let parent := s.slots current
  ensure parent.launch.abi.isLinux .invalidTransition
  let pid ← takePid
  let child ← expect s.vacantIndex .capacity
  let generation := (s.slots child).generation + 1
  let epoch ← check (nextSchedulerEpoch s.schedulerEpoch)
  let childContext :=
    { parentContext.setSyscallResult 0 with stackPointer := childStackPointer }
  checkContext childContext.validate
  let parentContext := parentContext.setSyscallResult pid
  let parentReturn := s.scheduled current parentContext epoch
  checkContext parentReturn.context.validate
  modify (·.setSlot child
    { occupied := true
      generation
      pid
      threadGroup := parent.threadGroup
      parent := parent.parent
      phase := .runnable
      launch := parent.launch
      context := childContext
      fsBase := childFsBase
      exitCode := 0
      waitSequence := epoch })
  modify fun s => s.setSlot current { s.slots current with context := parentContext }
  modify (·.publishEpoch epoch)
  pure ({ pid, generation }, parentReturn)

/-- Undo a clone that has not run yet. -/
def discardRunnableThread : Op Unit := do
  let s ← get
  let current ← check (currentUserHandle s)
  let i ← expect (s.slotByHandle current) .invalidHandle
  let j ← expect (s.slotByHandle handle) .invalidHandle
  let slot := s.slots j
  ensure (slot.phase == .runnable && slot.threadGroup == (s.slots i).threadGroup &&
    slot.pid != slot.threadGroup) .invalidTransition
  modify (·.setSlot j slot.retired)

/-! ### The running task -/

def markRunning : Op ProcessSnapshot := do
  ensure (handle.pid != noPid) .pid0Immutable
  let s ← get
  ensure (s.currentExecution == pid0Identity && !s.anyRunning) .invalidTransition
  let i ← expect (s.slotByHandle handle) .invalidHandle
  ensure ((s.slots i).phase == .runnable) .invalidTransition
  let epoch ← check (nextSchedulerEpoch s.schedulerEpoch)
  modify (·.setPhase i .running)
  modify fun s => { s with currentExecution := (s.slots i).handle }
  modify (·.publishEpoch epoch)
  pure { (s.slots i).snapshot with phase := .running }

def resumeCurrent : Op ScheduledProcess := do
  checkContext saved.validate
  let s ← get
  let i ← check (runningIndex s)
  let epoch ← check (nextSchedulerEpoch s.schedulerEpoch)
  let scheduled := s.scheduled i saved epoch
  checkContext scheduled.context.validate
  modify fun s => s.setSlot i { s.slots i with context := saved }
  modify (·.publishEpoch epoch)
  pure scheduled

def replaceCurrentImage (addressSpaceRoot entryPoint userStackPointer imageMeasurementRoot : Word) :
    Op ScheduledProcess := do
  let s ← get
  let i ← check (currentReplacementIndex s)
  let slot := s.slots i
  let replacement :=
    { slot.launch with addressSpaceRoot, entryPoint, userStackPointer, imageMeasurementRoot }
  ensure replacement.validate .invalidLaunch
  let user := SavedUserContext.initial entryPoint userStackPointer
  let epoch ← check (nextSchedulerEpoch s.schedulerEpoch)
  let scheduled : ScheduledProcess :=
    { handle := slot.handle
      context :=
        { user, addressSpaceRoot, kernelStackPointer := replacement.kernelStackPointer,
          fsBase := 0 }
      schedulerEpoch := epoch }
  checkContext scheduled.context.validate
  modify (·.setSlot i { slot with launch := replacement, context := user, fsBase := 0 })
  modify (·.publishEpoch epoch)
  pure scheduled

def setCurrentFsBase (fsBase : Word) : Op Unit := do
  ensure (validUserTlsBase fsBase) .invalidContext
  let s ← get
  let i ← check (runningIndex s)
  modify fun s => s.setSlot i { s.slots i with fsBase }

/-! ### Scheduling -/

/-- Make the selected task the running one. -/
def dispatch (target : TaskIndex) (scheduled : ScheduledProcess) : Op ScheduledProcess := do
  modify (·.setPhase target .running)
  modify fun s => { s with currentExecution := scheduled.handle }
  modify (·.publishEpoch scheduled.schedulerEpoch)
  pure scheduled

/-- `schedule_yield` and `schedule_preempt` after their checks: the running task
keeps its turn when no other is runnable. -/
def rotate (current : TaskIndex) (saved : SavedUserContext) : Op ScheduledProcess := do
  let s ← get
  let target := (s.nextRunnableIndex current).getD current
  let epoch ← check (nextSchedulerEpoch s.schedulerEpoch)
  let user := if target = current then saved else (s.slots target).context
  let scheduled := s.scheduled target user epoch
  checkContext scheduled.context.validate
  modify fun s => s.setSlot current { s.slots current with context := saved, phase := .runnable }
  dispatch target scheduled

def scheduleYield : Op ScheduledProcess := do
  checkContext saved.validate
  let s ← get
  let current ← check (runningIndex s)
  rotate current (saved.setSyscallResult 0)

def schedulePreempt (authority : ExecutionAuthority) : Op ScheduledProcess := do
  checkContext saved.validate
  let s ← get
  ensure (s.currentExecution == authority.handle && s.schedulerEpoch == authority.schedulerEpoch)
    .stalePreemptionAuthority
  let current ← expect (s.slotByHandle authority.handle) .stalePreemptionAuthority
  ensure ((s.slots current).phase == .running) .stalePreemptionAuthority
  rotate current saved

/-- The rest of every operation by which a task leaves the processor for good or until
it is woken: choose the next task, write the slots with `leave`, which gets the new
epoch, and switch to the chosen task or to the idle execution. -/
def depart (target : Option TaskIndex) (leave : ℕ → Lifecycle → Lifecycle) :
    Op ScheduleDecision := do
  let s ← get
  let epoch ← check (nextSchedulerEpoch s.schedulerEpoch)
  match target with
  | some target =>
    let scheduled := s.scheduled target (s.slots target).context epoch
    checkContext scheduled.context.validate
    modify (leave epoch)
    let scheduled ← dispatch target scheduled
    pure (.user scheduled)
  | none =>
    modify (leave epoch)
    modify fun s => { s with currentExecution := pid0Identity }
    modify (·.publishEpoch epoch)
    pure (.pid0 (pid0Authority epoch))

def scheduleBlock : Op ScheduleDecision := do
  checkContext saved.validate
  let s ← get
  let current ← check (runningIndex s)
  depart (s.nextRunnableIndex current) fun epoch s => s.setSlot current
    { s.slots current with context := saved, phase := .blocked, waitSequence := epoch }

def scheduleExit (exitCode : ℤ) : Op ScheduleDecision := do
  let s ← get
  let current ← check (runningIndex s)
  depart (s.nextRunnableIndex current) fun epoch s => s.setSlot current
    { s.slots current with phase := .zombie, exitCode, waitSequence := epoch }

/-- The slots after a group exit: the leader is a zombie, every other member is gone. -/
def disband (leader : TaskIndex) (group : ℕ) (exitCode : ℤ) (epoch : ℕ) (s : Lifecycle) :
    Lifecycle :=
  { s with
    slots := fun i =>
      let slot := s.slots i
      if !slot.inGroup group then slot
      else if i = leader then { slot with phase := .zombie, exitCode, waitSequence := epoch }
      else slot.retired }

def scheduleExitGroup (exitCode : ℤ) : Op ScheduleDecision := do
  let s ← get
  let current ← check (runningIndex s)
  let group := (s.slots current).threadGroup
  let leader ← expect (position fun i => (s.slots i).leads group) .invalidHandle
  let target := rotating current fun i =>
    (s.slots i).inPhase .runnable && (s.slots i).threadGroup != group
  depart target (disband leader group exitCode)

def scheduleThreadExit : Op ScheduleDecision := do
  let s ← get
  let current ← check (runningIndex s)
  let slot := s.slots current
  ensure (slot.pid != slot.threadGroup) .invalidTransition
  depart (s.nextRunnableIndex current) fun _ s => s.setSlot current slot.retired

def scheduleFromPid0 (authority : Pid0Authority) : Op ScheduleDecision := do
  let s ← get
  check (validatePid0Authority authority s)
  ensure (!s.anyRunning) .invalidTransition
  depart (position fun i => (s.slots i).inPhase .runnable) fun _ s => s

/-! ### Waking, waiting and reaping -/

def markRunnable : Op Unit := do
  ensure (handle.pid != noPid) .pid0Immutable
  let s ← get
  let i ← expect (s.slotByHandle handle) .invalidHandle
  ensure ((s.slots i).phase == .running || (s.slots i).phase == .blocked) .invalidTransition
  modify (·.setPhase i .runnable)

def markBlocked : Op Unit := do
  ensure (handle.pid != noPid) .pid0Immutable
  let s ← get
  let i ← expect (s.slotByHandle handle) .invalidHandle
  ensure ((s.slots i).phase == .running) .invalidTransition
  modify (·.setPhase i .blocked)

def reapChild (parent : ℕ) (handle : ProcessHandle) : Op ℤ := do
  ensure (handle.pid != noPid) .pid0Immutable
  let s ← get
  let i ← expect (s.slotByHandle handle) .invalidHandle
  let slot := s.slots i
  ensure (slot.parent == parent) .notChild
  ensure (slot.phase == .zombie) .stillRunning
  modify (·.setSlot i slot.retired)
  pure slot.exitCode

/-! ### Runs -/

/-- The operations that write, by the type of what they return. -/
inductive LifecycleCall : Type → Type
  | publishCurrent (handle : ProcessHandle) : LifecycleCall Unit
  | registerInit (launch : ProcessLaunch) : LifecycleCall ProcessHandle
  | commitChild (parent : ℕ) (launch : ProcessLaunch) : LifecycleCall ProcessHandle
  | cloneCurrentThread (parentContext : SavedUserContext) (childStackPointer childFsBase : Word) :
      LifecycleCall (ProcessHandle × ScheduledProcess)
  | discardRunnableThread (handle : ProcessHandle) : LifecycleCall Unit
  | markRunning (handle : ProcessHandle) : LifecycleCall ProcessSnapshot
  | resumeCurrent (saved : SavedUserContext) : LifecycleCall ScheduledProcess
  | replaceCurrentImage (addressSpaceRoot entryPoint userStackPointer imageMeasurementRoot : Word) :
      LifecycleCall ScheduledProcess
  | setCurrentFsBase (fsBase : Word) : LifecycleCall Unit
  | scheduleYield (saved : SavedUserContext) : LifecycleCall ScheduledProcess
  | schedulePreempt (saved : SavedUserContext) (authority : ExecutionAuthority) :
      LifecycleCall ScheduledProcess
  | scheduleBlock (saved : SavedUserContext) : LifecycleCall ScheduleDecision
  | scheduleExit (exitCode : ℤ) : LifecycleCall ScheduleDecision
  | scheduleExitGroup (exitCode : ℤ) : LifecycleCall ScheduleDecision
  | scheduleThreadExit : LifecycleCall ScheduleDecision
  | scheduleFromPid0 (authority : Pid0Authority) : LifecycleCall ScheduleDecision
  | markRunnable (handle : ProcessHandle) : LifecycleCall Unit
  | markBlocked (handle : ProcessHandle) : LifecycleCall Unit
  | reapChild (parent : ℕ) (handle : ProcessHandle) : LifecycleCall ℤ

namespace LifecycleCall

variable {α : Type}

def op : LifecycleCall α → Op α
  | publishCurrent handle => Process.publishCurrent handle
  | registerInit launch => Process.registerInit launch
  | commitChild parent launch => Process.commitChild parent launch
  | cloneCurrentThread parentContext childStackPointer childFsBase =>
    Process.cloneCurrentThread parentContext childStackPointer childFsBase
  | discardRunnableThread handle => Process.discardRunnableThread handle
  | markRunning handle => Process.markRunning handle
  | resumeCurrent saved => Process.resumeCurrent saved
  | replaceCurrentImage addressSpaceRoot entryPoint userStackPointer imageMeasurementRoot =>
    Process.replaceCurrentImage addressSpaceRoot entryPoint userStackPointer imageMeasurementRoot
  | setCurrentFsBase fsBase => Process.setCurrentFsBase fsBase
  | scheduleYield saved => Process.scheduleYield saved
  | schedulePreempt saved authority => Process.schedulePreempt saved authority
  | scheduleBlock saved => Process.scheduleBlock saved
  | scheduleExit exitCode => Process.scheduleExit exitCode
  | scheduleExitGroup exitCode => Process.scheduleExitGroup exitCode
  | scheduleThreadExit => Process.scheduleThreadExit
  | scheduleFromPid0 authority => Process.scheduleFromPid0 authority
  | markRunnable handle => Process.markRunnable handle
  | markBlocked handle => Process.markBlocked handle
  | reapChild parent handle => Process.reapChild parent handle

def exec (c : LifecycleCall α) (s : Lifecycle) : Except LifecycleError α × Lifecycle :=
  c.op.exec s

/-- The calls that make a new scheduling decision when they succeed. -/
def decides : LifecycleCall α → Bool
  | cloneCurrentThread .. | markRunning .. | resumeCurrent .. | replaceCurrentImage ..
  | scheduleYield .. | schedulePreempt .. | scheduleBlock .. | scheduleExit ..
  | scheduleExitGroup .. | scheduleThreadExit | scheduleFromPid0 .. => true
  | publishCurrent .. | registerInit .. | commitChild .. | discardRunnableThread ..
  | setCurrentFsBase .. | markRunnable .. | markBlocked .. | reapChild .. => false

/-- The calls that take a process number. -/
def allocates : LifecycleCall α → Bool
  | commitChild .. | cloneCurrentThread .. => true
  | _ => false

end LifecycleCall

/-- One call, of those that are allowed in the state. -/
def Step (allowed : {α : Type} → LifecycleCall α → Lifecycle → Prop) (s t : Lifecycle) : Prop :=
  ∃ (α : Type) (c : LifecycleCall α), allowed c s ∧ t = (c.exec s).2

/-- The states that runs of allowed calls lead to. -/
def Runs (allowed : {α : Type} → LifecycleCall α → Lifecycle → Prop) :
    Lifecycle → Lifecycle → Prop :=
  Relation.ReflTransGen (Step allowed)

theorem Runs.exec {allowed : {α : Type} → LifecycleCall α → Lifecycle → Prop} {s t : Lifecycle}
    (h : Runs allowed s t) {α : Type} (c : LifecycleCall α) (hc : allowed c t) :
    Runs allowed s (c.exec t).2 :=
  Relation.ReflTransGen.tail h ⟨α, c, hc, rfl⟩

/-- Every call is allowed. -/
def anyCall {α : Type} (_ : LifecycleCall α) (_ : Lifecycle) : Prop := True

/-- A launch that passes the checks. -/
def sampleLaunch : ProcessLaunch where
  addressSpaceRoot := 0x1000
  entryPoint := 0x2000
  userStackPointer := 0x8000
  kernelStackPointer := 0xffff800000000000
  imageMeasurementRoot := 1
  capabilityRoot := 1
  serviceClass := 0
  priority := 10
  abi := .linuxX8664

/-- The table after the first process is registered. -/
def registered : Lifecycle := ((LifecycleCall.registerInit sampleLaunch).exec .new).2

/-- The table after the first process is started. -/
def started : Lifecycle :=
  ((LifecycleCall.markRunning { pid := initPid, generation := 1 }).exec registered).2

theorem runs_started {allowed : {α : Type} → LifecycleCall α → Lifecycle → Prop}
    (hinit : allowed (.registerInit sampleLaunch) .new)
    (hmark : allowed (.markRunning { pid := initPid, generation := 1 }) registered) :
    Runs allowed .new started :=
  (Runs.exec .refl (.registerInit sampleLaunch) hinit).exec _ hmark

end ArachKernel.Process
