import ArachKernel.Syscalls.Reaping

/-!
The machine as the boot leaves it (`main.rs`): the images of the first process and of the
services are installed, the registry has those of the services, and the first process runs
in its own. From there on no address space is released under a live task, as long as no
service with threads ends alone.
-/

namespace ArachKernel.Syscalls

open Process Process.Lifecycle Table List

/-! ### The first process -/

/-- The launch data of the first process. -/
def initLaunch {α : Type} : LifecycleCall α → Option ProcessLaunch
  | .registerInit launch => some launch
  | _ => none

variable {launch : ProcessLaunch}

theorem root_of_registerInit {α : Type} {s t : Lifecycle} {c : LifecycleCall α} {a : α}
    (h : Effect s c a t) (hc : initLaunch c = some launch)
    (hemp : ∀ i, ¬ Live (s.slots i)) (i : TaskIndex) (hi : Live (t.slots i)) :
    (t.slots i).launch.addressSpaceRoot = launch.addressSpaceRoot := by
  cases h with
  | @registerInit _ k =>
    cases hc
    revert hi
    exact setSlot_cases (fun _ => rfl) (fun i _ hi => absurd hi (hemp i)) i
  | _ => cases hc

/-! ### What the loader leaves -/

/-- The address spaces that the loader has installed. Each image is committed, has its own
slot and its own page tables, and is launched with them. -/
structure Boot where
  spaces : Fin maximumRetainedProcesses → SpaceSlot
  kernelRoot : Word
  pid1 : ProcessLaunch × ProcessImageHandle
  services : List (ProcessLaunch × ProcessImageHandle)
  installed : ∀ x ∈ pid1 :: services, (spaces x.2.slot).committed ∧
    (spaces x.2.slot).generation = x.2.generation ∧ (spaces x.2.slot).root = x.1.addressSpaceRoot
  slots : ((pid1 :: services).map (·.2.slot)).Nodup
  roots : ∀ k k', (spaces k).committed → (spaces k').committed →
    (spaces k).root = (spaces k').root → k = k'
  kernel : ∀ k, (spaces k).committed → (spaces k).root ≠ kernelRoot

def installServices (services : List (ProcessLaunch × ProcessImageHandle))
    (r : ServiceImageRegistry) : Except ServiceRegistryError ServiceImageRegistry :=
  services.foldlM (fun r x => r.install x.1 x.2) r

namespace Boot

def runtime (b : Boot) : ProcessRuntime where
  spaces := b.spaces
  pendingReap := none

/-- The table with the first process, which runs. -/
def table (b : Boot) : Option Lifecycle :=
  match (LifecycleCall.registerInit b.pid1.1).exec .new with
  | (.error _, _) => none
  | (.ok handle, s) =>
    match (LifecycleCall.markRunning handle).exec s with
    | (.error _, _) => none
    | (.ok _, s) => some s

/-- The machine, unless the boot halts. -/
def machine (b : Boot) : Option Machine :=
  match installServices b.services .empty, b.table with
  | .ok registry, some table =>
    some
      { table
        registry
        runtime := b.runtime
        kernelRoot := b.kernelRoot
        activeRoot := b.pid1.1.addressSpaceRoot }
  | _, _ => none

end Boot

/-! ### The registry -/

/-- The registry has images of the list, each under its class, and none is launched. -/
structure Sealed (services : List (ProcessLaunch × ProcessImageHandle)) (r : ServiceImageRegistry) :
    Prop where
  launched : ∀ c, r.launched c = false
  handles : ∀ c, r.handles c = none
  source : ∀ c image, r.images c = some image → ∃ launch, r.launches c = some launch ∧
    (launch, image) ∈ services ∧ ServiceImageRegistry.index launch.serviceClass = some c

variable {image : ProcessImageHandle}

namespace Sealed

variable {services : List (ProcessLaunch × ProcessImageHandle)} {r r' : ServiceImageRegistry}

theorem empty : Sealed services .empty where
  launched _ := rfl
  handles _ := rfl
  source _ _ h := by cases h

theorem install (h : Sealed services r) (hx : (launch, image) ∈ services)
    (hok : r.install launch image = .ok r') : Sealed services r' := by
  unfold ServiceImageRegistry.install at hok
  split at hok
  · cases hok
  next c hidx =>
  split at hok
  · cases hok
  split at hok
  · cases hok
  cases hok
  refine { launched := h.launched, handles := h.handles, source := fun c' image' himg => ?_ }
  by_cases hc : c' = c
  · subst hc
    obtain rfl : image = image' := by simpa using himg
    exact ⟨launch, by simp, hx, hidx⟩
  · simp only [Function.update_of_ne hc] at himg ⊢
    exact h.source c' image' himg

theorem installServices (h : Sealed services r) {xs : List (ProcessLaunch × ProcessImageHandle)}
    (hxs : ∀ x ∈ xs, x ∈ services) (hok : installServices xs r = .ok r') : Sealed services r' := by
  induction xs generalizing r with
  | nil =>
    cases hok
    exact h
  | cons x xs ih =>
    rw [Syscalls.installServices, foldlM_cons] at hok
    cases hinst : r.install x.1 x.2 with
    | error =>
      rw [hinst] at hok
      cases hok
    | ok =>
      rw [hinst] at hok
      exact ih (h.install (hxs x (by simp)) hinst) (fun y hy => hxs y (mem_cons_of_mem x hy)) hok

end Sealed

/-! ### The machine at rest -/

namespace Boot

variable {b : Boot} {m : Machine}

theorem holds (b : Boot) (h : (launch, image) ∈ b.pid1 :: b.services) :
    b.runtime.holds image ∧ b.runtime.rootOf image = launch.addressSpaceRoot := by
  obtain ⟨hcommitted, hgen, hroot⟩ := b.installed _ h
  refine ⟨?_, hroot⟩
  simp [ProcessRuntime.holds, runtime, hcommitted, hgen]

theorem holds_pid1 (b : Boot) :
    b.runtime.holds b.pid1.2 ∧ b.runtime.rootOf b.pid1.2 = b.pid1.1.addressSpaceRoot :=
  b.holds mem_cons_self

theorem table_spec {s : Lifecycle} (h : b.table = some s) : Numbered s ∧ ∀ i, Live (s.slots i) →
      (s.slots i).launch.addressSpaceRoot = b.pid1.1.addressSpaceRoot := by
  unfold table at h
  split at h
  · cases h
  next handle s₁ hinit =>
  split at h
  · cases h
  next hrun =>
  cases h
  have hs₁ : ((LifecycleCall.registerInit b.pid1.1).exec .new).2 = s₁ := by rw [hinit]
  have hs₂ : ((LifecycleCall.markRunning handle).exec s₁).2 = s := by rw [hrun]
  have hok : ((LifecycleCall.registerInit b.pid1.1).exec .new).1 = .ok handle := by rw [hinit]
  refine ⟨?_, fun i hi => ?_⟩
  · rw [← hs₂, ← hs₁]
    exact (Numbered.new.exec _).exec _
  · have htenants : Tenants s₁ s none := hs₂ ▸ tenants_exec (.markRunning handle) rfl
    obtain ⟨j, hj, _, hroot⟩ := htenants.source i hi
    rw [hroot]
    have heff := effect_of_ok hok
    rw [hs₁] at heff
    exact root_of_registerInit heff rfl (fun k hk => by cases hk.1) j hj

/-- The first process and the registry own what the loader has installed, each its own. -/
theorem owned {registry : ServiceImageRegistry} (h : Sealed b.services registry) :
    Owned b.runtime fun
      | .init => some b.pid1.2
      | .service c => registry.images c
      | .pending | .held => none where
  holds o image ho := by
    cases o with
    | init =>
      cases ho
      exact (b.holds_pid1).1
    | service c =>
      obtain ⟨launch, _, hmem, _⟩ := h.source c image ho
      exact (b.holds (mem_cons_of_mem _ hmem)).1
    | pending | held => cases ho
  apart o o' image image' ho ho' hslot := by
    have hfst {launch : ProcessLaunch} {image : ProcessImageHandle}
        (hmem : (launch, image) ∈ b.services) : b.pid1.2.slot ≠ image.slot := fun heq =>
      (nodup_cons.mp b.slots).1 (mem_map.mpr ⟨_, hmem, heq.symm⟩)
    cases o with
    | init =>
      cases ho
      cases o' with
      | init => rfl
      | service c' =>
        obtain ⟨launch, _, hmem, _⟩ := h.source c' image' ho'
        exact absurd hslot (hfst hmem)
      | pending | held => cases ho'
    | service c =>
      obtain ⟨launch, _, hmem, hidx⟩ := h.source c image ho
      cases o' with
      | init =>
        cases ho'
        exact absurd hslot.symm (hfst hmem)
      | service c' =>
        obtain ⟨launch', _, hmem', hidx'⟩ := h.source c' image' ho'
        have heq := inj_on_of_nodup_map b.slots (mem_cons_of_mem _ hmem)
          (mem_cons_of_mem _ hmem') hslot
        obtain rfl : launch = launch' := congrArg Prod.fst heq
        rw [Option.some.inj (hidx.symm.trans hidx')]
      | pending | held => cases ho'
    | pending | held => cases ho

theorem atRest (h : b.machine = some m) : AtRest b.pid1.2 m := by
  unfold machine at h
  split at h
  next registry s hregy htab =>
    cases h
    have hsealed := Sealed.empty.installServices (fun x hx => hx) hregy
    obtain ⟨hnum, hlive⟩ := table_spec htab
    obtain ⟨hholds, hroot⟩ := b.holds_pid1
    refine
      { roots := b.roots
        kernel := b.kernel
        active := .inr ⟨b.pid1.2.slot, committed_of_holds hholds, hroot⟩
        numbered := hnum
        owned := ?_
        home := fun i hi => .init ((hlive i hi).trans hroot.symm)
        registered := fun c handle hc => ?_
        waiting := fun c _ => ⟨hsealed.handles c, fun launch image hlau himg => ?_⟩
        leaving := fun handle hf => by cases hf
        pending := rfl }
    · have howns : Machine.owns
          { table := s, registry, runtime := b.runtime, kernelRoot := b.kernelRoot,
            activeRoot := b.pid1.1.addressSpaceRoot } b.pid1.2 .nothing = _ :=
        funext fun o => by cases o <;> rfl
      rw [howns]
      exact owned hsealed
    · simp [hsealed.handles c] at hc
    · obtain ⟨launch', hlau', hmem, hidx⟩ := hsealed.source c image himg
      obtain rfl := Option.some.inj (hlau.symm.trans hlau')
      exact ⟨(b.holds (mem_cons_of_mem _ hmem)).2.symm, hidx⟩
  · cases h

end Boot

/-! ### Runs -/

/-- In every run from the boot in which no service with threads ends alone, and the frame
allocator keeps its word, no address space is released under a live task or under the CPU,
and no deferred reap fails. -/
theorem no_release_under_live_task {b : Boot} {start m : Machine} {β : Type} {c : MachineCall β}
    {next : β → Prog MachineCall Bool} (hboot : b.machine = some start)
    (hrun : SerialWhen exec orderly SystemCall start (.call c next) m) (hc : orderly β c m) :
    SafeRelease β c m :=
  (hrun.secures (Boot.atRest hboot) (fun _ _ hp hs => secures_systemCall hp hs) hc).1

/-! ### Two runs -/

/-- A native first process, and a service with the personality of Linux. -/
def sampleBoot : Boot where
  spaces k :=
    if k = 0 then { committed := true, generation := 1, root := 0x1000, retained := false }
    else if k = 1 then { committed := true, generation := 1, root := 0x2000, retained := false }
    else { committed := false, generation := 0, root := 0, retained := false }
  kernelRoot := 0x3000
  pid1 :=
    ({ sampleLaunch with serviceClass := 1, abi := .arachNative }, { slot := 0, generation := 1 })
  services :=
    [({ sampleLaunch with addressSpaceRoot := 0x2000, serviceClass := 2 },
      { slot := 1, generation := 1 })]
  installed := by decide
  slots := by decide
  roots := by decide
  kernel := by decide

def sampleContext : SavedUserContext := .initial 0x2000 0x8000

def yieldNow : Request := do
  match ← .perform (.lifecycle (.scheduleYield sampleContext)) with
  | .ok scheduled => pure (some (.user scheduled))
  | .error _ => halt

def blockNow : Request := do
  match ← .perform (.lifecycle (.scheduleBlock sampleContext)) with
  | .ok decision => pure (some decision)
  | .error _ => halt

/-- A request, whatever the personality of the task. -/
def request (linux native : Request) : Prog MachineCall Bool :=
  arachSyscallDispatch linux native >>= completeScheduleDecision true .freed

/-- The first process starts the service and lets it run. -/
def startService : List (Prog MachineCall Bool) :=
  [request halt (spawnMeasuredService sampleContext 2), request halt yieldNow]

/-- The service starts a thread. The thread waits, and the service is back. -/
def startThread : List (Prog MachineCall Bool) :=
  [request (scheduleLinuxCloneReturn sampleContext sampleContext 0x9000 0 true) halt,
    request yieldNow halt, request blockNow halt, request halt yieldNow]

def exitGroup : Prog MachineCall Bool := request (scheduleLinuxExitGroupReturn 0 []) halt

/-- A signal ends the running task. -/
def killed : Prog MachineCall Bool :=
  request (do resumeLinuxWithPendingSignal (← pure sampleContext) (.terminate 9) []) halt

def sampleStart : Machine := (sampleBoot.machine).get (by decide +kernel)

/-- No image is installed, and frames are taken back. -/
def framesReturn {β : Type} : MachineCall β → Bool
  | .installExecImage _ => false
  | .discardExecImage _ frames | .reapAfterRootSwitch frames | .enterKernelIdleAndReap frames =>
    frames = .freed
  | _ => true

/-- Besides, nobody calls `schedule_exit`. -/
def nobodyExits {β : Type} (c : MachineCall β) : Bool :=
  framesReturn c &&
    match c with
    | .lifecycle (.scheduleExit _) => false
    | _ => true

variable {β : Type} {c : MachineCall β}

theorem allocatorSound_of_framesReturn {m : Machine}
    (h : framesReturn c) : allocatorSound β c m := by
  cases c with
  | installExecImage => cases h
  | discardExecImage image frames => exact (of_decide_eq_true h : frames = .freed)
  | reapAfterRootSwitch frames => exact (of_decide_eq_true h : frames = .freed)
  | enterKernelIdleAndReap frames => exact (of_decide_eq_true h : frames = .freed)
  | _ => trivial

theorem orderly_of_nobodyExits {m : Machine} (h : nobodyExits c) : orderly β c m := by
  obtain ⟨hfrs, hexit⟩ := Bool.and_eq_true_iff.mp h
  refine ⟨allocatorSound_of_framesReturn hfrs, ?_⟩
  cases c with
  | lifecycle c =>
    cases c with
    | scheduleExit => cases hexit
    | _ => exact fun _ => trivial
  | _ => trivial

theorem uses_halt : Prog.Uses Ordinary halt := Prog.uses_pure _

theorem uses_yieldNow : Prog.Uses Ordinary yieldNow := by
  refine .bind (Prog.uses_perform.mpr (.lifecycle rfl)) fun answer => ?_
  cases answer with
  | ok | error => exact Prog.uses_pure _

theorem uses_blockNow : Prog.Uses Ordinary blockNow := by
  refine .bind (Prog.uses_perform.mpr (.lifecycle rfl)) fun answer => ?_
  cases answer with
  | ok | error => exact Prog.uses_pure _

theorem systemCall_linux {linux : Request} (h : LinuxRequest linux) :
    SystemCall (request linux halt) :=
  .syscall h (.other uses_halt) true .freed

theorem systemCall_native {native : Request} (h : NativeRequest native) :
    SystemCall (request halt native) :=
  .syscall (.futex uses_halt) h true .freed

theorem systemCall_startService : ∀ p ∈ startService, SystemCall p :=
  forall_mem_cons.mpr ⟨systemCall_native (.spawn _ _),
    forall_mem_singleton.mpr (systemCall_native (.other uses_yieldNow))⟩

theorem systemCall_startThread : ∀ p ∈ startThread, SystemCall p :=
  forall_mem_cons.mpr ⟨systemCall_linux (.clone _ _ _ _ _),
    forall_mem_cons.mpr ⟨systemCall_linux (.futex uses_yieldNow),
      forall_mem_cons.mpr ⟨systemCall_linux (.futex uses_blockNow),
        forall_mem_singleton.mpr (systemCall_native (.other uses_yieldNow))⟩⟩⟩

/-- The service in its `exit_group`, just before its image is reaped. -/
def leavingService : Prog MachineCall Bool × Machine :=
  serve exec (fun _ c m => nobodyExits c && (releasing c m).isNone) (startService ++ [exitGroup])
    (.done true, sampleStart)

/-- The leader killed by a signal, just before its image is reaped. -/
def killedLeader : Prog MachineCall Bool × Machine :=
  serve exec (fun _ c m => framesReturn c && (releasing c m).isNone)
    (startService ++ (startThread ++ [killed])) (.done true, sampleStart)

theorem serial_leavingService :
    SerialWhen exec orderly SystemCall sampleStart leavingService.1 leavingService.2 := by
  refine SerialWhen.serve (fun h => orderly_of_nobodyExits (Bool.and_eq_true_iff.mp h).1) ?_ .boot
    leavingService.eq_1.symm
  exact forall_mem_append.mpr ⟨systemCall_startService,
    forall_mem_singleton.mpr (systemCall_linux (.exitGroup 0 []))⟩

theorem serial_killedLeader :
    SerialWhen exec allocatorSound SystemCall sampleStart killedLeader.1 killedLeader.2 := by
  refine SerialWhen.serve (fun h => allocatorSound_of_framesReturn (Bool.and_eq_true_iff.mp h).1) ?_
    .boot killedLeader.eq_1.symm
  exact forall_mem_append.mpr ⟨systemCall_startService,
    forall_mem_append.mpr ⟨systemCall_startThread, forall_mem_singleton.mpr
        (systemCall_linux (.other (Prog.uses_pure sampleContext) (.terminate 9) []))⟩⟩

/-- What is left of the program begins with a call that passes the test. -/
def nextCall (test : (β : Type) → MachineCall β → Bool) : Prog MachineCall Bool → Bool
  | .call c _ => test _ c
  | .done _ => false

theorem exists_of_nextCall {test : (β : Type) → MachineCall β → Bool} {p : Prog MachineCall Bool}
    (h : nextCall test p) :
    ∃ (β : Type) (c : MachineCall β) (next : β → Prog MachineCall Bool),
      p = .call c next ∧ test β c := by
  cases p with
  | done => cases h
  | call c next => exact ⟨_, c, next, rfl, h⟩

/-- The page tables of the service are released, and the first process stays. -/
theorem no_release_under_live_task_exitGroup :
    ∃ (β : Type) (c : MachineCall β) (next : β → Prog MachineCall Bool),
      leavingService.1 = .call c next ∧ releasing c leavingService.2 = some 0x2000 ∧
        SafeRelease β c leavingService.2 := by
  have hnext : nextCall (fun _ c => nobodyExits c &&
      (releasing c leavingService.2 == some 0x2000)) leavingService.1 := by decide +kernel
  obtain ⟨β, c, next, hcall, htest⟩ := exists_of_nextCall hnext
  obtain ⟨hexits, hroot⟩ := Bool.and_eq_true_iff.mp htest
  exact ⟨β, c, next, hcall, beq_iff_eq.mp hroot, no_release_under_live_task
    (Option.some_get _).symm (hcall ▸ serial_leavingService) (orderly_of_nobodyExits hexits)⟩

/-- A signal ends a leader, and its page tables are released under a thread that waits. -/
theorem page_tables_released_under_thread :
    ∃ (β : Type) (c : MachineCall β) (next : β → Prog MachineCall Bool) (m : Machine) (root : Word)
      (i : TaskIndex), sampleBoot.machine = some sampleStart ∧
      SerialWhen exec allocatorSound SystemCall sampleStart (.call c next) m ∧
      releasing c m = some root ∧ Live (m.table.slots i) ∧
      (m.table.slots i).launch.addressSpaceRoot = root := by
  have hnext : nextCall (fun _ c => releasing c killedLeader.2 == some 0x2000) killedLeader.1 =
      true := by decide +kernel
  have hthr : ((killedLeader.2.table.slots 2).occupied ∧
      (killedLeader.2.table.slots 2).phase ≠ .zombie) ∧
      (killedLeader.2.table.slots 2).launch.addressSpaceRoot = 0x2000 := by decide +kernel
  obtain ⟨β, c, next, hcall, hroot⟩ := exists_of_nextCall hnext
  exact ⟨β, c, next, killedLeader.2, 0x2000, 2, (Option.some_get _).symm,
    hcall ▸ serial_killedLeader, beq_iff_eq.mp hroot, hthr.1, hthr.2⟩

end ArachKernel.Syscalls
