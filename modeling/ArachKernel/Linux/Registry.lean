import ArachKernel.AkashicVfs

/-!
The descriptor registry (`linux_fd.rs`): per process a space of descriptor slots,
and one table of open objects that the slots point into. An object counts its
descriptors and transfer tokens (`descriptorReferences`), these together with the
epoll watches on it (`references`), and the operations in progress on it
(`activeOperations`).

Each function here is one section under the registry lock. What follows a section
without the lock (finalization of a taken object, detaching of its watches) is in
`ArachKernel.Linux.Fd`.
-/

namespace ArachKernel

namespace LinuxFile

def oRdonly : Flags := 0
def oWronly : Flags := 0x1
def oRdwr : Flags := 0x2
def oNonblock : Flags := 0x800

inductive FileError
  | invalidArgument
  | badFileDescriptor
  | capacity
  | vfs (error : VfsError)
  deriving DecidableEq

end LinuxFile

namespace LinuxFd

open Table Function

abbrev ObjectIndex := Fin maximumOpenObjects
abbrev SpaceIndex := Fin maximumDescriptorSpaces
abbrev FdIndex := Fin maximumFileDescriptors

def fdCloexec : Flags := 1

inductive DescriptorError
  | invalidArgument
  | badFileDescriptor
  | capacity
  | wouldBlock
  | brokenPipe
  | illegalSeek
  | alreadyExists
  | notFound
  | addressFamilyNotSupported
  | addressInUse
  | connectionRefused
  | alreadyConnected
  | notConnected
  | notSocket
  | operationNotSupported
  | operationNotPermitted
  | permissionDenied
  | io
  | file (error : LinuxFile.FileError)
  deriving DecidableEq

/-- What an open object is, with the handle of its backend. -/
inductive OpenObjectKind
  | empty
  | consoleInput
  | consoleOutput
  | consoleError
  | file (fd : ℕ)
  | memFd (fd : ℕ)
  | eventFd (fd : ℕ)
  | timerFd (fd : ℕ)
  | signalFd (fd : ℕ)
  | epoll (fd : ℕ)
  | pipeRead (handle : ℕ)
  | pipeWrite (handle : ℕ)
  | unixSocket (handle : ℕ)
  | unixDatagram (handle : ℕ)
  deriving DecidableEq

namespace OpenObjectKind

def occupied : OpenObjectKind → Bool
  | empty => false
  | _ => true

def isEpoll : OpenObjectKind → Bool
  | epoll _ => true
  | _ => false

def isUnixSocket : OpenObjectKind → Bool
  | unixSocket _ => true
  | _ => false

end OpenObjectKind

structure OpenObject where
  generation : ℕ
  owner : ProcessHandle
  references : ℕ
  descriptorReferences : ℕ
  activeOperations : ℕ
  closing : Bool
  statusFlags : Flags
  kind : OpenObjectKind

def OpenObject.empty : OpenObject where
  generation := 0
  owner := .empty
  references := 0
  descriptorReferences := 0
  activeOperations := 0
  closing := false
  statusFlags := 0
  kind := .empty

/-- An object taken out of the table, whose backend is to be closed. The key
only tells which object it was. -/
structure FinalObject where
  key : ObjectKey
  owner : ProcessHandle
  kind : OpenObjectKind
  deriving DecidableEq

structure DescriptorSlot where
  object : Option ObjectIndex
  closeOnExec : Bool

def DescriptorSlot.empty : DescriptorSlot where
  object := none
  closeOnExec := false

def DescriptorSlot.occupied (slot : DescriptorSlot) : Bool := slot.object.isSome

structure DescriptorSpace where
  owner : ProcessHandle
  descriptors : FdIndex → DescriptorSlot

def DescriptorSpace.empty : DescriptorSpace where
  owner := .empty
  descriptors := fun _ => .empty

def DescriptorSpace.occupied (space : DescriptorSpace) : Bool := space.owner.valid

structure Registry where
  spaces : SpaceIndex → DescriptorSpace
  objects : ObjectIndex → OpenObject

structure ObjectLease where
  key : ObjectKey
  owner : ProcessHandle
  kind : OpenObjectKind
  statusFlags : Flags

namespace Registry

def empty : Registry where
  spaces := fun _ => .empty
  objects := fun _ => .empty

/-! ### Tables -/

variable (key : ObjectKey) (i : ObjectIndex) (sp : SpaceIndex)
  (owner : ProcessHandle) (r : Registry)

def setObject (object : OpenObject) (r : Registry) : Registry :=
  { r with objects := update r.objects i object }

def setSpace (space : DescriptorSpace) (r : Registry) : Registry :=
  { r with spaces := update r.spaces sp space }

def setSlot (fd : FdIndex) (slot : DescriptorSlot) (r : Registry) : Registry :=
  r.setSpace sp
    { r.spaces sp with descriptors := update (r.spaces sp).descriptors fd slot }

def setOwner : Registry :=
  r.setSpace sp { r.spaces sp with owner }

def slot (fd : FdIndex) (r : Registry) : DescriptorSlot :=
  (r.spaces sp).descriptors fd

/-- The key of the present occupant of an object slot. -/
def keyAt : ObjectKey where
  index := i
  generation := (r.objects i).generation

/-- A descriptor number within a space, and the object it names. -/
def lookup (fd : ℕ) (r : Registry) : Option (FdIndex × ObjectIndex) :=
  if h : fd < maximumFileDescriptors then
    (r.slot sp ⟨fd, h⟩).object.map fun i => (⟨fd, h⟩, i)
  else none

def findSpace : Option SpaceIndex :=
  position fun sp => (r.spaces sp).occupied && (r.spaces sp).owner == owner

/-! ### Objects -/

/-- The next generation of an object slot. -/
def nextGeneration (object : OpenObject) : Option ℕ :=
  (checkedAdd u32Max object.generation 1).filter (· ≠ 0)

def allocateObject (kind : OpenObjectKind) (statusFlags : Flags)
    (r : Registry) : Option (ObjectIndex × Registry) :=
  match position fun i => !(r.objects i).kind.occupied with
  | none => none
  | some i =>
    match nextGeneration (r.objects i) with
    | none => none
    | some generation =>
      some (i, r.setObject i { OpenObject.empty with generation, owner, statusFlags, kind })

/-- Give a new object its first descriptor. -/
def attach (fd : FdIndex)
    (i : ObjectIndex) (closeOnExec : Bool) (r : Registry) : Registry :=
  (r.setObject i { r.objects i with references := 1, descriptorReferences := 1 }).setSlot sp fd
    { object := some i, closeOnExec }

/-- `take`: empty an object slot, which keeps its generation. -/
def take : Registry :=
  r.setObject i { OpenObject.empty with generation := (r.objects i).generation }

/-- The final object that `take` hands out. -/
def finalAt : FinalObject where
  key := r.keyAt i
  owner := (r.objects i).owner
  kind := (r.objects i).kind

def maybeTakeClosing : Option FinalObject × Registry :=
  let object := r.objects i
  if object.closing ∧ object.references = 0 ∧ object.activeOperations = 0 then
    (some (r.finalAt i), r.take i)
  else (none, r)

/-- One more descriptor or token for an object, if its counters have room. -/
def shareObject : Option Registry :=
  let object := r.objects i
  match checkedAdd u16Max object.references 1, checkedAdd u16Max object.descriptorReferences 1 with
  | some references, some descriptorReferences =>
    some (r.setObject i { object with references, descriptorReferences })
  | _, _ => none

/-- Take a descriptor or a token away from an object. The first answer is the
object, when nothing holds it any more; the second its key, when this was its last
descriptor. -/
def unshareObject : (Option FinalObject × Option ObjectKey) × Registry :=
  let object := r.objects i
  let descriptorReferences := object.descriptorReferences - 1
  let r := r.setObject i
    { object with
      references := object.references - 1
      descriptorReferences
      closing := object.closing || descriptorReferences == 0 }
  let (pending, r') := r.maybeTakeClosing i
  ((pending, if descriptorReferences = 0 then some (r.keyAt i) else none), r')

/-! ### Spaces -/

/-- The standard descriptors of a new space: their kinds and status flags. -/
def standardDescriptors : List (FdIndex × OpenObjectKind × Flags) :=
  [(0, .consoleInput, LinuxFile.oRdonly), (1, .consoleOutput, LinuxFile.oWronly),
    (2, .consoleError, LinuxFile.oWronly)]

/-- Take back a standard descriptor of a space that could not be completed. -/
def detachStandard (fd : FdIndex) : Registry :=
  match (r.slot sp fd).object with
  | none => r
  | some i => (r.setSlot sp fd .empty).take i

/-- Attach the standard descriptors from a list; `attached` are those that are
taken back when the object table is full. -/
def initializeStandardDescriptors (sp : SpaceIndex) :
    List FdIndex → List (FdIndex × OpenObjectKind × Flags) →
      Registry → Bool × Registry
  | _, [], r => (true, r)
  | attached, (fd, kind, statusFlags) :: standard, r =>
    match r.allocateObject (r.spaces sp).owner kind statusFlags with
    | none => (false, attached.foldl (detachStandard sp) r)
    | some (i, r) =>
      initializeStandardDescriptors sp (attached ++ [fd]) standard (r.attach sp fd i false)

def ensureSpace : Except DescriptorError SpaceIndex × Registry :=
  if !owner.valid then (.error .permissionDenied, r)
  else
    match r.findSpace owner with
    | some sp => (.ok sp, r)
    | none =>
      match position fun sp => !(r.spaces sp).occupied with
      | none => (.error .capacity, r)
      | some sp =>
        match initializeStandardDescriptors sp [] standardDescriptors (r.setOwner sp owner) with
        | (true, r) => (.ok sp, r)
        | (false, r) => (.error .capacity, r.setOwner sp .empty)

/-- Run a section in the space of `owner`. -/
def inSpace {α : Type}
    (body : SpaceIndex → Registry → Except DescriptorError α × Registry)
    (r : Registry) : Except DescriptorError α × Registry :=
  match r.ensureSpace owner with
  | (.error error, r) => (.error error, r)
  | (.ok sp, r) => body sp r

/-- Run a section on the object that a descriptor of `owner` names. -/
def onDescriptor {α : Type} (fd : ℕ)
    (body : SpaceIndex → FdIndex → ObjectIndex →
      Registry → Except DescriptorError α × Registry) :
    Registry → Except DescriptorError α × Registry :=
  inSpace owner fun sp r =>
    match r.lookup sp fd with
    | none => (.error .badFileDescriptor, r)
    | some (fd, i) => body sp fd i r

/-! ### Installing -/

def installBackendObject (descriptorOwner backendOwner : ProcessHandle) (kind : OpenObjectKind)
    (statusFlags : Flags) (closeOnExec : Bool) : Registry → Except DescriptorError ℕ × Registry :=
  inSpace descriptorOwner fun sp r =>
    match position fun fd => !(r.slot sp fd).occupied with
    | none => (.error .capacity, r)
    | some fd =>
      match r.allocateObject backendOwner kind statusFlags with
      | none => (.error .capacity, r)
      | some (i, r) => (.ok fd, r.attach sp fd i closeOnExec)

/-- The first index after `first` that satisfies a predicate. -/
def positionAfter {n : ℕ} (first : Fin n) (p : Fin n → Bool) : Option (Fin n) :=
  position fun i => decide (first < i) && p i

def installObjectPair (firstKind : OpenObjectKind)
    (firstStatusFlags : Flags) (secondKind : OpenObjectKind) (secondStatusFlags : Flags)
    (closeOnExec : Bool) : Registry → Except DescriptorError (ℕ × ℕ) × Registry :=
  inSpace owner fun sp r =>
    let freeSlot := fun fd => !(r.slot sp fd).occupied
    let freeObject := fun i => !(r.objects i).kind.occupied
    match position freeSlot, (position freeSlot).bind (positionAfter · freeSlot),
        position freeObject, (position freeObject).bind (positionAfter · freeObject) with
    | some firstFd, some secondFd, some first, some second =>
      match nextGeneration (r.objects first), nextGeneration (r.objects second) with
      | some firstGeneration, some secondGeneration =>
        let r := r.setObject first
          { OpenObject.empty with
            generation := firstGeneration, owner, statusFlags := firstStatusFlags
            kind := firstKind }
        let r := r.setObject second
          { OpenObject.empty with
            generation := secondGeneration, owner, statusFlags := secondStatusFlags
            kind := secondKind }
        let r := r.attach sp firstFd first closeOnExec
        (.ok (firstFd, secondFd), r.attach sp secondFd second closeOnExec)
      | _, _ => (.error .capacity, r)
    | _, _, _, _ => (.error .capacity, r)

/-! ### Leases -/

/-- The lease on the object in a slot, once it is counted. -/
def leaseAt : ObjectLease where
  key := r.keyAt i
  owner := (r.objects i).owner
  kind := (r.objects i).kind
  statusFlags := (r.objects i).statusFlags

def acquireObject : Except DescriptorError ObjectLease × Registry :=
  match checkedAdd u16Max (r.objects i).activeOperations 1 with
  | none => (.error .capacity, r)
  | some activeOperations =>
    (.ok (r.leaseAt i), r.setObject i { r.objects i with activeOperations })

def acquireDescriptor (fd : ℕ) : Registry → Except DescriptorError ObjectLease × Registry :=
  onDescriptor owner fd fun _ _ i r =>
    if !(r.objects i).kind.occupied || (r.objects i).closing then (.error .badFileDescriptor, r)
    else r.acquireObject i

/-- A key names the present occupant of its slot. -/
def live : Bool :=
  (r.objects key.index).kind.occupied && (r.objects key.index).generation == key.generation

def acquireKey : Except DescriptorError ObjectLease × Registry :=
  if key.isEmpty || !r.live key || (r.objects key.index).closing then (.error .badFileDescriptor, r)
  else r.acquireObject key.index

def releaseLeaseLocked : Option FinalObject × Registry :=
  let object := r.objects key.index
  if key.isEmpty ∨ object.generation ≠ key.generation ∨ object.activeOperations = 0 then (none, r)
  else
    (r.setObject key.index { object with activeOperations := object.activeOperations - 1 })
      |>.maybeTakeClosing key.index

def retainKey : Except DescriptorError Unit × Registry :=
  let object := r.objects key.index
  if key.isEmpty || !r.live key || object.descriptorReferences == 0 || object.closing then
    (.error .badFileDescriptor, r)
  else
    match checkedAdd u16Max object.references 1 with
    | none => (.error .capacity, r)
    | some references => (.ok (), r.setObject key.index { object with references })

def dropKeyReferenceLocked : Option FinalObject × Registry :=
  let object := r.objects key.index
  if key.isEmpty ∨ object.generation ≠ key.generation ∨ object.references = 0 then (none, r)
  else
    (r.setObject key.index
      { object with
        references := object.references - 1
        closing := object.closing || object.references - 1 == 0 })
      |>.maybeTakeClosing key.index

/-! ### Descriptors -/

/-- What a section that drops descriptors leaves to be done without the lock: an
object to finalize, and a key whose epoll watches are to be detached. -/
abbrev Leftover := Option FinalObject × Option ObjectKey

def closeLocked (fd : ℕ) : Registry → Except DescriptorError Leftover × Registry :=
  onDescriptor owner fd fun sp fd i r =>
    if (r.objects i).references = 0 ∨ (r.objects i).descriptorReferences = 0 then
      (.error .badFileDescriptor, r)
    else
      let (leftover, r) := (r.setSlot sp fd .empty).unshareObject i
      (.ok leftover, r)

def duplicate (oldFd minimum : ℕ) (closeOnExec : Bool) (r : Registry) :
    Except DescriptorError ℕ × Registry :=
  if maximumFileDescriptors ≤ minimum then (.error .invalidArgument, r)
  else
    r |> onDescriptor owner oldFd fun sp _ i r =>
      match position fun fd => decide (minimum ≤ fd) && !(r.slot sp fd).occupied with
      | none => (.error .capacity, r)
      | some target =>
        if !(r.objects i).kind.occupied || (r.objects i).closing then
          (.error .badFileDescriptor, r)
        else
          match r.shareObject i with
          | none => (.error .capacity, r)
          | some r => (.ok target, r.setSlot sp target { object := some i, closeOnExec })

/-- The section of `duplicate_to` for two different descriptor numbers. -/
def duplicateToLocked (oldFd : ℕ) (newFd : FdIndex)
    (closeOnExec : Bool) : Registry → Except DescriptorError Leftover × Registry :=
  onDescriptor owner oldFd fun sp _ source r =>
    let replacement : DescriptorSlot := { object := some source, closeOnExec }
    if !(r.objects source).kind.occupied || (r.objects source).closing then
      (.error .badFileDescriptor, r)
    else
      match (r.slot sp newFd).object with
      | none =>
        match r.shareObject source with
        | none => (.error .capacity, r)
        | some r => (.ok (none, none), r.setSlot sp newFd replacement)
      | some existing =>
        if existing = source then (.ok (none, none), r.setSlot sp newFd replacement)
        else if (r.objects existing).references = 0 ∨
            (r.objects existing).descriptorReferences = 0 then (.error .badFileDescriptor, r)
        else
          match r.shareObject source with
          | none => (.error .capacity, r)
          | some r =>
            let (leftover, r) := (r.setSlot sp newFd replacement).unshareObject existing
            (.ok leftover, r)

def descriptorFlags (fd : ℕ) : Registry → Except DescriptorError Flags × Registry :=
  onDescriptor owner fd fun sp fd _ r =>
    (.ok (if (r.slot sp fd).closeOnExec then fdCloexec else 0), r)

def setDescriptorFlags (fd : ℕ) (flags : Flags) (r : Registry) :
    Except DescriptorError Unit × Registry :=
  if flags &&& ~~~fdCloexec ≠ 0 then (.error .invalidArgument, r)
  else
    r |> onDescriptor owner fd fun sp fd i r =>
      (.ok (), r.setSlot sp fd
        { object := some i, closeOnExec := flags &&& fdCloexec != 0 })

def setStatusFlags (fd : ℕ) (requested : Flags) :
    Registry → Except DescriptorError Unit × Registry :=
  onDescriptor owner fd fun _ _ i r =>
    let object := r.objects i
    (.ok (), r.setObject i
      { object with
        statusFlags := (object.statusFlags &&& ~~~LinuxFile.oNonblock) |||
          (requested &&& LinuxFile.oNonblock) })

/-! ### Transfers -/

/-- The checks of `capture_transfers` on each descriptor; `keys` are those passed
so far, whose reservations count against the room of the counters. -/
def captureKeys (sp : SpaceIndex) (r : Registry) :
    List ObjectKey → List ℕ → Except DescriptorError (List ObjectKey)
  | keys, [] => .ok keys
  | keys, fd :: fds =>
    match r.lookup sp fd with
    | none => .error .badFileDescriptor
    | some (_, i) =>
      let object := r.objects i
      if !object.kind.occupied || object.closing then .error .badFileDescriptor
      else if object.kind.isUnixSocket || object.kind.isEpoll then
        .error .operationNotSupported
      else
        let reservations := keys.count (r.keyAt i) + 1
        if u16Max < object.references + reservations ∨
            u16Max < object.descriptorReferences + reservations then .error .capacity
        else captureKeys sp r (keys ++ [r.keyAt i]) fds

/-- Count one reservation. -/
def reserve (key : ObjectKey) : Registry :=
  let object := r.objects key.index
  r.setObject key.index
    { object with
      references := object.references + 1
      descriptorReferences := object.descriptorReferences + 1 }

def captureTransfers (descriptors : List ℕ) (r : Registry) :
    Except DescriptorError (List TransferToken) × Registry :=
  if maximumTransferDescriptors < descriptors.length then (.error .invalidArgument, r)
  else
    r |> inSpace owner fun sp r =>
      match captureKeys sp r [] descriptors with
      | .error error => (.error error, r)
      | .ok keys => (.ok keys, keys.foldl reserve r)

/-- The free descriptors of a space, lowest first. -/
def freeSlots : List FdIndex :=
  (List.finRange maximumFileDescriptors).filter fun fd => !(r.slot sp fd).occupied

/-- A token that can be installed. -/
def installable (token : TransferToken) : Bool :=
  let object := r.objects token.index
  !token.isEmpty && r.live token && object.references != 0 && object.descriptorReferences != 0 &&
    !object.closing

/-- Write one token's object into a slot. -/
def placeToken (closeOnExec : Bool) (r : Registry)
    (target : FdIndex × TransferToken) : Registry :=
  r.setSlot sp target.1 { object := some target.2.index, closeOnExec }

def installTransfers (tokens : List TransferToken) (closeOnExec : Bool)
    (room : ℕ) (r : Registry) : Except DescriptorError (List ℕ) × Registry :=
  if maximumTransferDescriptors < tokens.length ∨ room < tokens.length then
    (.error .invalidArgument, r)
  else
    r |> inSpace owner fun sp r =>
      let targets := (r.freeSlots sp).take tokens.length
      if targets.length ≠ tokens.length then (.error .capacity, r)
      else if !tokens.all r.installable then (.error .badFileDescriptor, r)
      else
        (.ok (targets.map (·.val)), (targets.zip tokens).foldl (placeToken sp closeOnExec) r)

/-- The section of `release_transfers` for one token. -/
def releaseTransferLocked (token : TransferToken) (r : Registry) : Leftover × Registry :=
  let object := r.objects token.index
  if token.isEmpty ∨ object.generation ≠ token.generation ∨ object.references = 0 ∨
      object.descriptorReferences = 0 then ((none, none), r)
  else r.unshareObject token.index

/-! ### Sweeps -/

/-- What a sweep over a space has done so far. -/
structure Sweep where
  closed : ℕ
  pending : List FinalObject
  detached : List ObjectKey

/-- One descriptor of a sweep. -/
def sweepDescriptor (onlyCloseOnExec : Bool)
    (state : Sweep × Registry) (fd : FdIndex) : Sweep × Registry :=
  let (sweep, r) := state
  match (r.slot sp fd).object with
  | none => (sweep, r)
  | some i =>
    if onlyCloseOnExec && !(r.slot sp fd).closeOnExec then (sweep, r)
    else
      let ((pending, detached), r) := (r.setSlot sp fd .empty).unshareObject i
      ({ closed := sweep.closed + 1
         pending := sweep.pending ++ pending.toList
         detached := sweep.detached ++ detached.toList }, r)

def closeMatchingLocked (onlyCloseOnExec : Bool) (r : Registry) : Sweep × Registry :=
  let nothing : Sweep := { closed := 0, pending := [], detached := [] }
  match r.findSpace owner with
  | none => (nothing, r)
  | some sp =>
    let (sweep, r) := (List.finRange maximumFileDescriptors).foldl
      (sweepDescriptor sp onlyCloseOnExec) (nothing, r)
    (sweep, if onlyCloseOnExec then r else r.setOwner sp .empty)

end Registry

/-- The sections under the registry lock. -/
inductive RegistryCall : Type → Type
  | installBackendObject (descriptorOwner backendOwner : ProcessHandle) (kind : OpenObjectKind)
      (statusFlags : Flags) (closeOnExec : Bool) : RegistryCall (Except DescriptorError ℕ)
  | installObjectPair (owner : ProcessHandle) (firstKind : OpenObjectKind)
      (firstStatusFlags : Flags) (secondKind : OpenObjectKind) (secondStatusFlags : Flags)
      (closeOnExec : Bool) : RegistryCall (Except DescriptorError (ℕ × ℕ))
  | acquireDescriptor (owner : ProcessHandle) (fd : ℕ) :
      RegistryCall (Except DescriptorError ObjectLease)
  | acquireKey (key : ObjectKey) : RegistryCall (Except DescriptorError ObjectLease)
  | releaseLease (key : ObjectKey) : RegistryCall (Option FinalObject)
  | retainKey (key : ObjectKey) : RegistryCall (Except DescriptorError Unit)
  | dropKeyReference (key : ObjectKey) : RegistryCall (Option FinalObject)
  | close (owner : ProcessHandle) (fd : ℕ) : RegistryCall (Except DescriptorError Registry.Leftover)
  | duplicate (owner : ProcessHandle) (oldFd minimum : ℕ) (closeOnExec : Bool) :
      RegistryCall (Except DescriptorError ℕ)
  | duplicateTo (owner : ProcessHandle) (oldFd : ℕ) (newFd : FdIndex)
      (closeOnExec : Bool) : RegistryCall (Except DescriptorError Registry.Leftover)
  | descriptorFlags (owner : ProcessHandle) (fd : ℕ) : RegistryCall (Except DescriptorError Flags)
  | setDescriptorFlags (owner : ProcessHandle) (fd : ℕ) (flags : Flags) :
      RegistryCall (Except DescriptorError Unit)
  | setStatusFlags (owner : ProcessHandle) (fd : ℕ) (requested : Flags) :
      RegistryCall (Except DescriptorError Unit)
  | captureTransfers (owner : ProcessHandle) (descriptors : List ℕ) :
      RegistryCall (Except DescriptorError (List TransferToken))
  | installTransfers (owner : ProcessHandle) (tokens : List TransferToken) (closeOnExec : Bool)
      (room : ℕ) : RegistryCall (Except DescriptorError (List ℕ))
  | releaseTransfer (token : TransferToken) : RegistryCall Registry.Leftover
  | closeMatching (owner : ProcessHandle) (onlyCloseOnExec : Bool) : RegistryCall Registry.Sweep

def execRegistry : Handler RegistryCall Registry
  | _, .installBackendObject descriptorOwner backendOwner kind statusFlags closeOnExec, r =>
    r.installBackendObject descriptorOwner backendOwner kind statusFlags closeOnExec
  | _, .installObjectPair owner firstKind firstStatusFlags secondKind secondStatusFlags
      closeOnExec, r =>
      r.installObjectPair owner firstKind firstStatusFlags secondKind secondStatusFlags closeOnExec
  | _, .acquireDescriptor owner fd, r => r.acquireDescriptor owner fd
  | _, .acquireKey key, r => r.acquireKey key
  | _, .releaseLease key, r => r.releaseLeaseLocked key
  | _, .retainKey key, r => r.retainKey key
  | _, .dropKeyReference key, r => r.dropKeyReferenceLocked key
  | _, .close owner fd, r => r.closeLocked owner fd
  | _, .duplicate owner oldFd minimum closeOnExec, r => r.duplicate owner oldFd minimum closeOnExec
  | _, .duplicateTo owner oldFd newFd closeOnExec, r =>
    r.duplicateToLocked owner oldFd newFd closeOnExec
  | _, .descriptorFlags owner fd, r => r.descriptorFlags owner fd
  | _, .setDescriptorFlags owner fd flags, r => r.setDescriptorFlags owner fd flags
  | _, .setStatusFlags owner fd requested, r => r.setStatusFlags owner fd requested
  | _, .captureTransfers owner descriptors, r => r.captureTransfers owner descriptors
  | _, .installTransfers owner tokens closeOnExec room, r =>
    r.installTransfers owner tokens closeOnExec room
  | _, .releaseTransfer token, r => r.releaseTransferLocked token
  | _, .closeMatching owner onlyCloseOnExec, r => r.closeMatchingLocked owner onlyCloseOnExec

end LinuxFd

end ArachKernel
