import ArachKernel.Lib.Serial
import ArachKernel.Process.ServiceRegistry
import ArachKernel.Process.Tenants

/-!
The system calls that create and end tasks (`syscalls.rs`), over the process table, the
service registry, the runtime and the loaded page-table root. System calls are serialized:
interrupts are masked from the entry to the return to user mode. Each one leads to a
scheduling decision; the return path then loads the root of the chosen task, or the kernel
root when there is none, and reaps the image that an ending task or an `execve` has left.

What user memory and the signal tables decide comes as an argument. The tasks that an
ending task wakes are given by a list.
-/

namespace ArachKernel.Syscalls

open Process

structure Machine where
  table : Lifecycle
  registry : ServiceImageRegistry
  runtime : ProcessRuntime
  kernelRoot : Word
  activeRoot : Word

/-- The sections of the three tables, and the load of a page-table root. -/
inductive MachineCall : Type → Type 1
  | read {β : Type} (view : Lifecycle → β) : MachineCall β
  | lifecycle {α : Type} (c : LifecycleCall α) : MachineCall (Except LifecycleError α)
  | launch (parent serviceClass : ℕ) : MachineCall (Except ServiceRegistryError ProcessHandle)
  | takeExitedService (caller : ProcessHandle) :
      MachineCall (Except ServiceRegistryError (Option ProcessImageHandle))
  | exchangeRunningImage (caller : ProcessHandle) (replacement : ProcessImageHandle) :
      MachineCall (Except (ServiceRegistryError × ProcessImageHandle) ProcessImageHandle)
  | installExecImage (installation : Installation) :
      MachineCall (Except ProcessRuntimeError RuntimeReplacement)
  | discardExecImage (image : ProcessImageHandle) (frames : FrameRelease) :
      MachineCall (Except ProcessRuntimeError Unit)
  | deferReap (image : ProcessImageHandle) : MachineCall (Except ProcessRuntimeError Unit)
  | loadPageTableRoot (root : Word) : MachineCall Unit
  | reapAfterRootSwitch (frames : FrameRelease) : MachineCall (Except ProcessRuntimeError Bool)
  | enterKernelIdleAndReap (frames : FrameRelease) : MachineCall (Except ProcessRuntimeError Bool)

def exec : Handler MachineCall Machine
  | _, .read view, m => (view m.table, m)
  | _, .lifecycle c, m => ((c.exec m.table).1, { m with table := (c.exec m.table).2 })
  | _, .launch parent serviceClass, m =>
    let (answer, registry, table) := m.registry.launch parent serviceClass m.table
    (answer, { m with registry, table })
  | _, .takeExitedService caller, m =>
    let (answer, registry) := m.registry.takeExited caller m.table
    (answer, { m with registry })
  | _, .exchangeRunningImage caller replacement, m =>
    let (answer, registry) := m.registry.exchangeRunningImage caller replacement m.table
    (answer, { m with registry })
  | _, .installExecImage installation, m =>
    let (answer, runtime) := m.runtime.installExecImage installation m.activeRoot
    (answer, { m with runtime })
  | _, .discardExecImage image frames, m =>
    let (answer, runtime) := m.runtime.discardExecImage image frames m.activeRoot
    (answer, { m with runtime })
  | _, .deferReap image, m =>
    let (answer, runtime) := m.runtime.deferReap image
    (answer, { m with runtime })
  | _, .loadPageTableRoot root, m => ((), { m with activeRoot := root })
  | _, .reapAfterRootSwitch frames, m =>
    let (answer, runtime) := m.runtime.reap frames m.activeRoot
    (answer, { m with runtime })
  | _, .enterKernelIdleAndReap frames, m =>
    let (answer, runtime) := m.runtime.reap frames m.kernelRoot
    (answer, { m with runtime, activeRoot := m.kernelRoot })

/-! ### Ends of system calls -/

/-- A program that comes to a scheduling decision, or halts the kernel. -/
abbrev Request := Prog MachineCall (Option ScheduleDecision)

def halt : Request := pure none

variable (saved : SavedUserContext)

def resumeCurrent : Request := do
  match ← .perform (.lifecycle (.resumeCurrent saved)) with
  | .ok scheduled => pure (some (.user scheduled))
  | .error _ => halt

/-- The tasks that wait for what an ending task gives back. -/
def wakeReleased (released : List ProcessHandle) : Prog MachineCall Unit :=
  Prog.each (fun owner => do
    let _ ← .perform (.lifecycle (.markRunnable owner))) released

/-- The image of a process that has ended waits for the next switch of the root. -/
def retireService (ended : ProcessHandle) (decision : ScheduleDecision) : Request := do
  match ← .perform (.takeExitedService ended) with
  | .ok (some image) =>
    match ← .perform (.deferReap image) with
    | .ok () => pure (some decision)
    | .error _ => halt
  | .ok none => pure (some decision)
  | .error _ => halt

def scheduleExitReturn (exitCode : ℤ) (released : List ProcessHandle) : Request := do
  match ← .perform (.read currentHandle) with
  | none => halt
  | some exiting =>
    wakeReleased released
    if ← .perform (.read currentIsThreadGroupLeader) then
      match ← .perform (.lifecycle (.scheduleExit exitCode)) with
      | .ok decision => retireService exiting decision
      | .error _ => halt
    else
      match ← .perform (.lifecycle .scheduleThreadExit) with
      | .ok decision => pure (some decision)
      | .error _ => halt

def scheduleLinuxExitGroupReturn (exitCode : ℤ) (released : List ProcessHandle) : Request := do
  match ← .perform (.read currentThreadGroupHandles) with
  | .error _ => halt
  | .ok (leader, _) =>
    wakeReleased released
    match ← .perform (.lifecycle (.scheduleExitGroup exitCode)) with
    | .ok decision => retireService leader decision
    | .error _ => halt

/-- A leader that has threads does not end by `exit`. -/
def scheduleLinuxExitReturn (exitCode : ℤ) (released : List ProcessHandle) : Request := do
  let leader ← .perform (.read currentIsThreadGroupLeader)
  let count ← .perform (.read currentThreadGroupMemberCount)
  if leader ∧ count ≠ 1 then resumeCurrent saved else scheduleExitReturn exitCode released

/-- What the signal tables and the stack of the task say about a return to user mode. -/
inductive Delivery
  | notPending
  | noFrame
  | nothing
  | terminate (signal : ℕ)
  | handler (context : SavedUserContext) (copied : Bool)
  | failed

def resumeLinuxWithPendingSignal (delivery : Delivery)
    (released : List ProcessHandle) : Request := do
  match ← .perform (.read currentHandle), ← .perform (.read currentThreadGroupHandle) with
  | some _, some _ =>
    match delivery with
    | .notPending | .nothing => resumeCurrent saved
    | .noFrame | .failed | .handler _ false => scheduleExitReturn (128 + 11) released
    | .terminate signal => scheduleExitReturn (128 + signal) released
    | .handler context true => resumeCurrent context
  | _, _ => halt

/-- `restored` is missing when the frame is not the active one, cannot be read or does not
hold a context. -/
def scheduleLinuxSigreturn (restored : Option SavedUserContext) (delivery : Delivery)
    (released : List ProcessHandle) : Request := do
  match ← .perform (.read currentHandle), restored with
  | none, _ => halt
  | some _, none => scheduleExitReturn (128 + 11) released
  | some _, some saved => resumeLinuxWithPendingSignal saved delivery released

/-- A new thread. It is taken back when its number cannot be published. -/
def scheduleLinuxCloneReturn (saved failed : SavedUserContext) (childStack childFsBase : Word)
    (published : Bool) : Request := do
  match ← .perform (.lifecycle (.cloneCurrentThread saved childStack childFsBase)) with
  | .error _ => resumeCurrent failed
  | .ok (child, parentReturn) =>
    if published then pure (some (.user parentReturn))
    else
      match ← .perform (.lifecycle (.discardRunnableThread child)) with
      | .ok () => resumeCurrent failed
      | .error _ => halt

/-- An image that does not become that of a task. -/
def discardImage (failed : SavedUserContext) (image : ProcessImageHandle) (frames : FrameRelease) :
    Request := do
  match ← .perform (.discardExecImage image frames) with
  | .ok () => resumeCurrent failed
  | .error _ => halt

/-- `prepared` says that the arguments and the files could be read. -/
def scheduleLinuxExecveReturn (failed : SavedUserContext) (prepared : Bool)
    (installation : Installation) (frames : FrameRelease) : Request := do
  match ← .perform (.read preflightCurrentImageReplacement) with
  | .error _ => resumeCurrent failed
  | .ok current =>
    if !prepared then resumeCurrent failed
    else
      match ← .perform (.installExecImage installation) with
      | .error _ => resumeCurrent failed
      | .ok replacement =>
        match ← .perform (.exchangeRunningImage current replacement.process) with
        | .error (_, rejected) => discardImage failed rejected frames
        | .ok previous =>
          match ← .perform (.lifecycle (.replaceCurrentImage replacement.addressSpaceRoot
            replacement.entryPoint replacement.userStackPointer
            replacement.imageMeasurementRoot)) with
          | .ok scheduled =>
            match ← .perform (.deferReap previous) with
            | .ok () => pure (some (.user scheduled))
            | .error _ => halt
          | .error _ =>
            match ← .perform (.exchangeRunningImage current previous) with
            | .ok rejected => discardImage failed rejected frames
            | .error _ => halt

def spawnMeasuredService (serviceClass : ℕ) : Request := do
  let parent ← .perform (.read currentPid)
  let _ ← .perform (.launch parent serviceClass)
  resumeCurrent saved

/-! ### The return to user mode -/

/-- `arach_syscall_activate`. `dispatched` says that the task state and the FS base were
written. -/
def arachSyscallActivate (authority : AuthorizedUserReturn) (dispatched : Bool)
    (frames : FrameRelease) : Prog MachineCall Bool := do
  match ← .perform (.read (authorizeUserReturn authority)) with
  | .error _ => pure false
  | .ok scheduled =>
    if scheduled.authorizedReturn ≠ authority ∨ !dispatched then pure false
    else
      .perform (.loadPageTableRoot authority.dispatch.addressSpaceRoot)
      match ← .perform (.reapAfterRootSwitch frames) with
      | .ok _ => pure true
      | .error _ => pure false

/-- A user task is resumed. Otherwise the kernel root is loaded, and the machine is idle. -/
def completeScheduleDecision (dispatched : Bool) (frames : FrameRelease) :
    Option ScheduleDecision → Prog MachineCall Bool
  | none => pure false
  | some (.user scheduled) =>
    if !scheduled.authorizedReturn.validate.isOk then pure false
    else arachSyscallActivate scheduled.authorizedReturn dispatched frames
  | some (.pid0 _) => do
    match ← .perform (.enterKernelIdleAndReap frames) with
    | .ok _ => pure true
    | .error _ => pure false

/-! ### Runs -/

/-- Reads and ordinary operations of the process table. -/
inductive Ordinary : (β : Type) → MachineCall β → Prop
  | read {β : Type} (view : Lifecycle → β) : Ordinary β (.read view)
  | lifecycle {α : Type} {c : LifecycleCall α} (hc : ordinary c) :
      Ordinary (Except LifecycleError α) (.lifecycle c)

inductive LinuxRequest : Request → Prop
  | exit (saved : SavedUserContext) (exitCode : ℤ) (released : List ProcessHandle) :
      LinuxRequest (scheduleLinuxExitReturn saved exitCode released)
  | exitGroup (exitCode : ℤ) (released : List ProcessHandle) :
      LinuxRequest (scheduleLinuxExitGroupReturn exitCode released)
  | clone (saved failed : SavedUserContext) (childStack childFsBase : Word) (published : Bool) :
      LinuxRequest (scheduleLinuxCloneReturn saved failed childStack childFsBase published)
  | futex {p : Request} (hp : p.Uses Ordinary) : LinuxRequest p
  | sigreturn (restored : Option SavedUserContext) (delivery : Delivery)
      (released : List ProcessHandle) :
      LinuxRequest (scheduleLinuxSigreturn restored delivery released)
  | execve (failed : SavedUserContext) (prepared : Bool) (installation : Installation)
      (frames : FrameRelease) :
      LinuxRequest (scheduleLinuxExecveReturn failed prepared installation frames)
  | other {p : Prog MachineCall SavedUserContext} (hp : p.Uses Ordinary) (delivery : Delivery)
      (released : List ProcessHandle) :
      LinuxRequest (p >>= fun saved => resumeLinuxWithPendingSignal saved delivery released)

inductive NativeRequest : Request → Prop
  | exit (exitCode : ℤ) (released : List ProcessHandle) :
      NativeRequest (scheduleExitReturn exitCode released)
  | spawn (saved : SavedUserContext) (serviceClass : ℕ) :
      NativeRequest (spawnMeasuredService saved serviceClass)
  | other {p : Request} (hp : p.Uses Ordinary) : NativeRequest p

/-- `current_execution_abi().is_linux()`. -/
def currentIsLinux (s : Lifecycle) : Bool :=
  ((currentHandle s).bind fun handle => snapshotExact handle s).any (·.launch.abi.isLinux)

/-- The personality of the task decides what its request means. -/
def arachSyscallDispatch (linux native : Request) : Request := do
  if ← .perform (.read currentIsLinux) then linux else native

/-- What the machine does next: a system call of the running task, or another turn of the
idle loop. -/
inductive SystemCall : Prog MachineCall Bool → Prop
  | syscall {linux native : Request} (hlinux : LinuxRequest linux) (hnative : NativeRequest native)
      (dispatched : Bool) (frames : FrameRelease) :
      SystemCall (arachSyscallDispatch linux native >>= completeScheduleDecision dispatched frames)
  | idle (authority : Pid0Authority) (dispatched : Bool) (frames : FrameRelease) :
      SystemCall (do
        match ← .perform (.lifecycle (.scheduleFromPid0 authority)) with
        | .ok decision => completeScheduleDecision dispatched frames (some decision)
        | .error _ => pure false)

end ArachKernel.Syscalls
