import ArachKernel.Process.Operations

/-!
The installed images of services (`process/service_registry.rs`, `process/runtime.rs`). The
registry owns one image for each service class; the image of a class is launched once, and
its owner is the exact process that was launched. The runtime owns the address spaces and
one image that is waiting to be reaped.

Loading an image and giving back its frames is the work of the frame allocator: the
sections take as arguments how that went.
-/

namespace ArachKernel.Process

open Table Function

abbrev maximumServiceClasses : ℕ := 16
abbrev maximumRetainedProcesses : ℕ := maximumServiceClasses
abbrev ServiceIndex := Fin maximumServiceClasses

/-- The right to one installed image. -/
structure ProcessImageHandle where
  slot : Fin maximumRetainedProcesses
  generation : ℕ
  deriving DecidableEq

/-! ### The registry -/

inductive ServiceRegistryError
  | invalidLaunch
  | unsupportedService
  | notInit
  | alreadyInstalled
  | alreadyLaunched
  | unauthorizedCaller
  | notRunning
  | lifecycle (error : LifecycleError)
  deriving DecidableEq

structure ServiceImageRegistry where
  launches : ServiceIndex → Option ProcessLaunch
  images : ServiceIndex → Option ProcessImageHandle
  launched : ServiceIndex → Bool
  handles : ServiceIndex → Option ProcessHandle

namespace ServiceImageRegistry

def empty : ServiceImageRegistry where
  launches _ := none
  images _ := none
  launched _ := false
  handles _ := none

def index (serviceClass : ℕ) : Option ServiceIndex :=
  if h : serviceClass ≠ 0 ∧ serviceClass < maximumServiceClasses then some ⟨serviceClass, h.2⟩
  else none

def install (launch : ProcessLaunch) (image : ProcessImageHandle) (r : ServiceImageRegistry) :
    Except ServiceRegistryError ServiceImageRegistry :=
  match index launch.serviceClass with
  | none => .error .unsupportedService
  | some c =>
    if !launch.validate then .error .invalidLaunch
    else if (r.launches c).isSome ∨ (r.images c).isSome then .error .alreadyInstalled
    else .ok
      { r with
        launches := update r.launches c (some launch)
        images := update r.images c (some image) }

/-- A new process from the image of its class. Only the first process may ask for one. -/
def launch (parent serviceClass : ℕ) (r : ServiceImageRegistry) (s : Lifecycle) :
    Except ServiceRegistryError ProcessHandle × ServiceImageRegistry × Lifecycle :=
  if parent ≠ initPid then (.error .notInit, r, s)
  else
    match index serviceClass with
    | none => (.error .unsupportedService, r, s)
    | some c =>
      if r.launched c then (.error .alreadyLaunched, r, s)
      else
        match r.launches c with
        | none => (.error .unsupportedService, r, s)
        | some launch =>
          if (r.images c).isNone then (.error .unsupportedService, r, s)
          else
            match (LifecycleCall.commitChild parent launch).exec s with
            | (.error error, s) => (.error (.lifecycle error), r, s)
            | (.ok handle, s) =>
              (.ok handle,
                { r with
                  launched := update r.launched c true
                  handles := update r.handles c (some handle) }, s)

/-- The image of a process that has ended, when the process owns one. -/
def takeExited (caller : ProcessHandle) (s : Lifecycle) (r : ServiceImageRegistry) :
    Except ServiceRegistryError (Option ProcessImageHandle) × ServiceImageRegistry :=
  match snapshotExact caller s with
  | none => (.error .notRunning, r)
  | some snapshot =>
    if snapshot.phase ≠ .zombie then (.error .notRunning, r)
    else
      match index snapshot.launch.serviceClass with
      | none => (.ok none, r)
      | some c =>
        if r.handles c ≠ some caller then (.ok none, r)
        else
          match r.images c with
          | none => (.error .notRunning, r)
          | some image =>
            (.ok (some image),
              { r with
                images := update r.images c none
                handles := update r.handles c none })

def exchangeAuthenticatedImage (caller : ProcessHandle) (serviceClass : ℕ)
    (replacement : ProcessImageHandle) (r : ServiceImageRegistry) :
    Except (ServiceRegistryError × ProcessImageHandle) ProcessImageHandle × ServiceImageRegistry :=
  match index serviceClass with
  | none => (.error (.unsupportedService, replacement), r)
  | some c =>
    if r.handles c ≠ some caller ∨ !r.launched c then
      (.error (.unauthorizedCaller, replacement), r)
    else
      match r.images c with
      | none => (.error (.notRunning, replacement), r)
      | some previous =>
        (.ok previous, { r with images := update r.images c (some replacement) })

def exchangeRunningImage (caller : ProcessHandle) (replacement : ProcessImageHandle) (s : Lifecycle)
    (r : ServiceImageRegistry) :
    Except (ServiceRegistryError × ProcessImageHandle) ProcessImageHandle × ServiceImageRegistry :=
  match snapshotExact caller s with
  | none => (.error (.notRunning, replacement), r)
  | some snapshot =>
    if snapshot.phase ≠ .running then (.error (.notRunning, replacement), r)
    else exchangeAuthenticatedImage caller snapshot.launch.serviceClass replacement r

end ServiceImageRegistry

/-! ### The runtime -/

inductive FrameBackedError
  | memory
  | invalidHandle
  | capacityExceeded
  | corruptHierarchy
  | activeProcess
  deriving DecidableEq

inductive ProcessRuntimeError
  | reapAlreadyPending
  | image
  | install
  | backend (error : FrameBackedError)
  deriving DecidableEq

/-- The slot of an address space. While an image is installed its slot is staging, but that
is over before the lock is given back. -/
structure SpaceSlot where
  committed : Bool
  generation : ℕ
  root : Word
  /-- frames of the last image that the allocator did not take back -/
  retained : Bool
  deriving DecidableEq

/-- What becomes of the frames of a space that is released. -/
inductive FrameRelease
  | freed
  | sharedKept
  | ownedKept
  deriving DecidableEq

structure ProcessRuntime where
  spaces : Fin maximumRetainedProcesses → SpaceSlot
  pendingReap : Option ProcessImageHandle

def nextGeneration (generation : ℕ) : ℕ := max ((generation + 1) % 2 ^ 32) 1

structure RuntimeReplacement where
  process : ProcessImageHandle
  entryPoint : Word
  userStackPointer : Word
  addressSpaceRoot : Word
  imageMeasurementRoot : Word
  deriving DecidableEq

/-- How the installation of an image goes: it is not prepared; its transaction is given up;
it is committed, but has no stack or cannot be activated; or it is there. -/
inductive Installation
  | unprepared
  | aborted (retained : Bool)
  | discarded (root : Word) (frames : FrameRelease)
  | installed (root entryPoint userStackPointer imageMeasurementRoot : Word)
  deriving DecidableEq

namespace ProcessRuntime

variable (r : ProcessRuntime) (image : ProcessImageHandle)

/-- `process_slot`: the handle is that of the committed image. -/
def holds : Bool :=
  (r.spaces image.slot).committed && (r.spaces image.slot).generation == image.generation

def rootOf : Word := (r.spaces image.slot).root

def setSpace (k : Fin maximumRetainedProcesses) (space : SpaceSlot) : ProcessRuntime :=
  { r with spaces := update r.spaces k space }

def releaseProcess (frames : FrameRelease) (activeRoot : Word)
    (r : ProcessRuntime) : Except FrameBackedError Unit × ProcessRuntime :=
  if !r.holds image then (.error .invalidHandle, r)
  else if activeRoot = r.rootOf image then (.error .activeProcess, r)
  else
    let space := r.spaces image.slot
    match frames with
    | .freed => (.ok (), r.setSpace image.slot { space with committed := false })
    | .sharedKept => (.error .corruptHierarchy, r)
    | .ownedKept =>
      (.error .memory, r.setSpace image.slot { space with committed := false, retained := true })

def deferReap (r : ProcessRuntime) : Except ProcessRuntimeError Unit × ProcessRuntime :=
  if r.pendingReap.isSome then (.error .reapAlreadyPending, r)
  else (.ok (), { r with pendingReap := some image })

/-- Release the image that waits. A failure leaves it waiting. -/
def reap (frames : FrameRelease) (activeRoot : Word) (r : ProcessRuntime) :
    Except ProcessRuntimeError Bool × ProcessRuntime :=
  match r.pendingReap with
  | none => (.ok false, r)
  | some image =>
    match releaseProcess image frames activeRoot { r with pendingReap := none } with
    | (.ok (), r) => (.ok true, r)
    | (.error error, r) => (.error (.backend error), { r with pendingReap := some image })

def discardExecImage (frames : FrameRelease) (activeRoot : Word)
    (r : ProcessRuntime) : Except ProcessRuntimeError Unit × ProcessRuntime :=
  match releaseProcess image frames activeRoot r with
  | (.ok (), r) => (.ok (), r)
  | (.error error, r) =>
    (.error (.backend error),
      if r.pendingReap.isNone then { r with pendingReap := some image } else r)

/-- `begin`, up to the choice of the slot. -/
def freeSpace : Option (Fin maximumRetainedProcesses) :=
  position fun k => !(r.spaces k).committed && !(r.spaces k).retained

/-- The slot `k` with a new committed image. -/
def committed (r : ProcessRuntime) (k : Fin maximumRetainedProcesses) (root : Word) :
    ProcessRuntime :=
  r.setSpace k
    { committed := true
      generation := nextGeneration (r.spaces k).generation
      root
      retained := false }

/-- The right to the image that `committed` puts in the slot `k`. -/
def newImage (k : Fin maximumRetainedProcesses) : ProcessImageHandle where
  slot := k
  generation := nextGeneration (r.spaces k).generation

/-- `install_exec_image` and `install_dynamic_exec_image`. -/
def installExecImage (installation : Installation) (activeRoot : Word) (r : ProcessRuntime) :
    Except ProcessRuntimeError RuntimeReplacement × ProcessRuntime :=
  if r.pendingReap.isSome then (.error .reapAlreadyPending, r)
  else
    match installation, r.freeSpace with
    | .unprepared, _ => (.error .image, r)
    | _, none => (.error (.backend .capacityExceeded), r)
    | .aborted retained, some k =>
      (.error .install, r.setSpace k
        { r.spaces k with generation := nextGeneration (r.spaces k).generation, retained })
    | .discarded root frames, some k =>
      match releaseProcess (r.newImage k) frames activeRoot (r.committed k root) with
      | (.ok (), r) => (.error .install, r)
      | (.error _, s) => (.error .install, { s with pendingReap := some (r.newImage k) })
    | .installed addressSpaceRoot entryPoint userStackPointer imageMeasurementRoot, some k =>
      (.ok
        { process := r.newImage k
          entryPoint
          userStackPointer
          addressSpaceRoot
          imageMeasurementRoot }, r.committed k addressSpaceRoot)

end ProcessRuntime

/-! ### What the sections do -/

namespace ServiceImageRegistry

variable {s t : Lifecycle} {r r' : ServiceImageRegistry} {caller : ProcessHandle}

theorem snapshotExact_eq_some {snapshot : ProcessSnapshot}
    (h : snapshotExact caller s = some snapshot) :
    ∃ i, (s.slots i).holds caller ∧ snapshot = (s.slots i).snapshot := by
  obtain ⟨i, hi, rfl⟩ := Option.map_eq_some_iff.mp h
  exact ⟨i, position_some hi, rfl⟩

/-- The registry without the image of a process that has ended. -/
def without (r : ServiceImageRegistry) (c : ServiceIndex) : ServiceImageRegistry :=
  { r with images := update r.images c none, handles := update r.handles c none }

theorem takeExited_ok {answer : Option ProcessImageHandle}
    (h : takeExited caller s r = (.ok answer, r')) :
    ∃ i, (s.slots i).holds caller ∧ (answer = none ∧ r' = r ∧
          (∀ c, index (s.slots i).launch.serviceClass = some c → r.handles c ≠ some caller) ∨
        ∃ c image, answer = some image ∧ r' = r.without c ∧ r.handles c = some caller ∧
          r.images c = some image) := by
  unfold takeExited at h
  split at h
  · cases h
  next hsnap =>
  obtain ⟨i, hi, rfl⟩ := snapshotExact_eq_some hsnap
  refine ⟨i, hi, ?_⟩
  split at h
  · cases h
  split at h
  next hidx =>
    cases h
    refine .inl ⟨rfl, rfl, fun c hc => ?_⟩
    exact absurd (hidx.symm.trans hc) (by simp)
  next c hidx =>
  split at h
  next hoth =>
    cases h
    refine .inl ⟨rfl, rfl, fun c' hc' => ?_⟩
    obtain rfl := Option.some.inj (hidx.symm.trans hc')
    exact hoth
  next hmine =>
  split at h
  · cases h
  next image himg =>
  cases h
  exact .inr ⟨c, image, rfl, rfl, not_not.mp hmine, himg⟩

/-- The registry with another image of a class. -/
def withImage (r : ServiceImageRegistry) (c : ServiceIndex)
    (image : ProcessImageHandle) : ServiceImageRegistry :=
  { r with images := update r.images c (some image) }

theorem exchangeRunningImage_ok {replacement previous : ProcessImageHandle}
    (h : exchangeRunningImage caller replacement s r = (.ok previous, r')) :
    ∃ c, r.handles c = some caller ∧ r.images c = some previous ∧
      r' = r.withImage c replacement := by
  unfold exchangeRunningImage at h
  split at h
  · cases h
  split at h
  · cases h
  unfold exchangeAuthenticatedImage at h
  split at h
  · cases h
  next c _ =>
  split at h
  · cases h
  next hmine =>
  split at h
  · cases h
  next himg =>
  cases h
  rw [not_or, not_not] at hmine
  exact ⟨c, hmine.1, himg, rfl⟩

/-- The image that is not accepted comes back. -/
theorem exchangeRunningImage_error {replacement rejected : ProcessImageHandle}
    {error : ServiceRegistryError}
    (h : exchangeRunningImage caller replacement s r = (.error (error, rejected), r')) :
    rejected = replacement ∧ r' = r := by
  unfold exchangeRunningImage exchangeAuthenticatedImage at h
  repeat
    split at h
    · cases h
      exact ⟨rfl, rfl⟩
  cases h

/-- The registry with the process of a class. -/
def withProcess (r : ServiceImageRegistry) (c : ServiceIndex)
    (handle : ProcessHandle) : ServiceImageRegistry :=
  { r with
    launched := update r.launched c true
    handles := update r.handles c (some handle) }

/-- A launch asks the process table for a new process of a class that had none. -/
theorem launch_cases (parent serviceClass : ℕ) (r : ServiceImageRegistry) (s : Lifecycle) :
    (∃ error, launch parent serviceClass r s = (.error error, r, s)) ∨
      ∃ c data image, r.launched c = false ∧ r.launches c = some data ∧ r.images c = some image ∧
        ((∃ error, ((LifecycleCall.commitChild parent data).exec s).1 = .error error ∧
            launch parent serviceClass r s =
              (.error (.lifecycle error), r, ((LifecycleCall.commitChild parent data).exec s).2)) ∨
          ∃ handle, ((LifecycleCall.commitChild parent data).exec s).1 = .ok handle ∧
            launch parent serviceClass r s = (.ok handle, r.withProcess c handle,
                ((LifecycleCall.commitChild parent data).exec s).2)) := by
  unfold launch
  split
  · exact .inl ⟨_, rfl⟩
  split
  · exact .inl ⟨_, rfl⟩
  next c _ =>
  split
  · exact .inl ⟨_, rfl⟩
  next hlaunched =>
  split
  · exact .inl ⟨_, rfl⟩
  next data hdata =>
  split
  · exact .inl ⟨_, rfl⟩
  next himg =>
  obtain ⟨image, himg⟩ := Option.ne_none_iff_exists'.mp (by simpa using himg)
  refine .inr ⟨c, data, image, by simpa using hlaunched, hdata, himg, ?_⟩
  split
  · next error t hexec => exact .inl ⟨error, by rw [hexec], by rw [hexec]⟩
  · next handle t hexec => exact .inr ⟨handle, by rw [hexec], by rw [hexec]; rfl⟩

end ServiceImageRegistry

/-- The allocator takes back the frames of an image that is given up, and the image was not
the loaded one. -/
def Installation.clean (activeRoot : Word) : Installation → Prop
  | .discarded root frames => activeRoot ≠ root ∧ frames = .freed
  | _ => True

namespace ProcessRuntime

/-- The runtime without the image. -/
def freed (r : ProcessRuntime) (image : ProcessImageHandle) : ProcessRuntime :=
  r.setSpace image.slot { r.spaces image.slot with committed := false }

variable {image : ProcessImageHandle} {r : ProcessRuntime} {k : Fin maximumRetainedProcesses}
  {activeRoot : Word}

theorem releaseProcess_freed (hholds : r.holds image) (hact : activeRoot ≠ r.rootOf image) :
    r.releaseProcess image .freed activeRoot = (.ok (), r.freed image) := by
  simp [releaseProcess, hholds, hact, freed]

theorem freed_other (hk : k ≠ image.slot) : (r.freed image).spaces k = r.spaces k := by
  simp [freed, setSpace, hk]

theorem committed_of_freed (hk : ((r.freed image).spaces k).committed) : k ≠ image.slot := by
  rintro rfl
  simp [freed, setSpace] at hk

theorem rootOf_freed (r : ProcessRuntime) (image image' : ProcessImageHandle) :
    (r.freed image).rootOf image' = r.rootOf image' := by
  by_cases hslot : image'.slot = image.slot
  · simp [rootOf, freed, setSpace, hslot]
  · rw [rootOf, freed_other hslot, rootOf]

/-- An installation changes nothing, leaves a free space, or a new image. -/
theorem installExecImage_cases {installation : Installation} (r : ProcessRuntime)
    (hpend : r.pendingReap = none) (hclean : installation.clean activeRoot) :
    (∃ e, r.installExecImage installation activeRoot = (.error e, r)) ∨
      (∃ k space, r.freeSpace = some k ∧ space.committed = false ∧
        r.installExecImage installation activeRoot = (.error .install, r.setSpace k space)) ∨
      ∃ k root entryPoint userStackPointer imageMeasurementRoot, r.freeSpace = some k ∧
        installation = .installed root entryPoint userStackPointer imageMeasurementRoot ∧
        r.installExecImage installation activeRoot =
          (.ok
            { process := r.newImage k
              entryPoint
              userStackPointer
              addressSpaceRoot := root
              imageMeasurementRoot }, r.committed k root) := by
  have hstart : ¬ r.pendingReap.isSome := by simp [hpend]
  unfold installExecImage
  rw [if_neg hstart]
  split
  · exact .inl ⟨_, rfl⟩
  · exact .inl ⟨_, rfl⟩
  next retained k hsp =>
    have hfree := position_some hsp
    simp only [Bool.and_eq_true, Bool.not_eq_true'] at hfree
    have hkept : { r.spaces k with
        generation := nextGeneration (r.spaces k).generation, retained }.committed =
          false := hfree.1
    exact .inr (.inl ⟨k, _, hsp, hkept, rfl⟩)
  next root frames k hsp =>
    obtain ⟨hact, rfl⟩ := hclean
    have hself : (r.committed k root).spaces k =
        { committed := true
          generation := nextGeneration (r.spaces k).generation
          root
          retained := false } := by simp [committed, setSpace]
    have hholds : (r.committed k root).holds (r.newImage k) := by
      simp [holds, newImage, hself]
    have hroot : activeRoot ≠ (r.committed k root).rootOf (r.newImage k) := by
      simpa [rootOf, newImage, hself] using hact
    rw [releaseProcess_freed hholds hroot]
    refine .inr (.inl ⟨k, { ((r.committed k root).spaces k) with committed := false }, hsp, rfl,
      ?_⟩)
    simp [freed, committed, setSpace, newImage]
  next root entryPoint userStackPointer imageMeasurementRoot k hsp =>
    exact .inr (.inr ⟨k, root, entryPoint, userStackPointer, imageMeasurementRoot, hsp, rfl, rfl⟩)

end ProcessRuntime

end ArachKernel.Process
