import ArachKernel.Lib.Table
import ArachKernel.Process.Context

/-!
Privilege domains (`ring_authority.rs`): the registry of domains with their address
spaces and hardware authority, and the frontier of each CPU, through which a domain is
entered and left.

Ranges carry what their constructors check. A call that fails has changed nothing, so
the functions return the new state only on success.
-/

namespace ArachKernel.RingAuthority

open Table Function
open Process (Word validPageTableRoot)

def maximumIoPortRanges : ℕ := 8
def maximumMmioRanges : ℕ := 8

inductive PrivilegeRing
  | kernel
  | hardwareCell
  | personality
  | user
  deriving DecidableEq

inductive DomainRole
  | nativeHardwareCell
  | personalityTranslator
  | userProcess
  deriving DecidableEq

def DomainRole.ring : DomainRole → PrivilegeRing
  | .nativeHardwareCell => .hardwareCell
  | .personalityTranslator => .personality
  | .userProcess => .user

inductive TransitionGate
  | iretq
  | sysretq
  deriving DecidableEq

def validDispatchGate (source target : PrivilegeRing) (gate : TransitionGate) : Bool :=
  if source ≠ .kernel then false
  else
    match gate with
    | .iretq => target ≠ .kernel
    | .sysretq => target = .user

inductive AuthorityError
  | invalidAddressSpaceRoot
  | sharedAddressSpace
  | invalidCpuGeneration
  | invalidIoPortRange
  | invalidMmioRange
  | invalidDmaGrant
  | overlappingIoPortRange
  | overlappingMmioRange
  | ioPortCapacity
  | mmioCapacity
  | dmaAlreadyGranted
  | hardwareCellHasNoAuthority
  | hardwareAuthorityForbidden
  | hardwareRequestDenied
  | hardwareAuthorityConflict
  | domainCapacity
  | domainBusy
  | generationExhausted
  | corruptExecutionReference
  | staleDomain
  | kernelAddressSpaceMismatch
  | kernelNotActive
  | transitionAlreadyPending
  | invalidTransitionGate
  | wrongCpu
  | staleTransition
  | unexpectedCaller
  | sourceAddressSpaceMismatch
  | staleInvocation
  deriving DecidableEq

structure DomainHandle where
  slot : ℕ
  generation : ℕ
  deriving DecidableEq

/-! ### Hardware authority -/

structure IoPortRange where
  first : ℕ
  last : ℕ
  valid : first ≤ last ∧ last ≤ u16Max
  deriving DecidableEq

namespace IoPortRange

def contains (range : IoPortRange) (first byteWidth : ℕ) : Bool :=
  if byteWidth ≠ 1 ∧ byteWidth ≠ 2 ∧ byteWidth ≠ 4 then false
  else
    match checkedAdd u16Max first (byteWidth - 1) with
    | some last => range.first ≤ first ∧ last ≤ range.last
    | none => false

def overlaps (range other : IoPortRange) : Bool :=
  range.first ≤ other.last ∧ other.first ≤ range.last

end IoPortRange

abbrev MmioAccess := BitVec 8

namespace MmioAccess

def readWrite : MmioAccess := 3

def valid (access : MmioAccess) : Bool := access ≠ 0 ∧ access &&& ~~~readWrite = 0

def contains (access requested : MmioAccess) : Bool :=
  requested.valid && access &&& requested = requested

end MmioAccess

structure MmioRange where
  base : ℕ
  length : ℕ
  access : MmioAccess
  valid : 0 < length ∧ base + length ≤ u64Max
  deriving DecidableEq

namespace MmioRange

def stop (range : MmioRange) : ℕ := range.base + range.length

def contains (range : MmioRange) (address length : ℕ) (access : MmioAccess) : Bool :=
  if length = 0 ∨ range.access.contains access = false then false
  else
    match checkedAdd u64Max address length with
    | some stop => range.base ≤ address ∧ stop ≤ range.stop
    | none => false

def overlaps (range other : MmioRange) : Bool :=
  range.base < other.stop ∧ other.base < range.stop

end MmioRange

structure DmaGrant where
  iommuDomain : ℕ
  generation : ℕ
  requesterId : ℕ
  deriving DecidableEq

structure HardwareAuthority where
  ioPorts : Fin maximumIoPortRanges → Option IoPortRange
  mmio : Fin maximumMmioRanges → Option MmioRange
  dma : Option DmaGrant

namespace HardwareAuthority

def none : HardwareAuthority := ⟨fun _ => .none, fun _ => .none, .none⟩

variable (authority : HardwareAuthority)

def permitsIo (port byteWidth : ℕ) : Bool :=
  ∃ i, (authority.ioPorts i).any fun range => range.contains port byteWidth

def permitsMmio (address length : ℕ) (access : MmioAccess) : Bool :=
  ∃ i, (authority.mmio i).any fun range => range.contains address length access

def permitsDma (iommuDomain generation requesterId : ℕ) : Bool :=
  authority.dma = some ⟨iommuDomain, generation, requesterId⟩

def isEmpty : Bool :=
  (∀ i, (authority.ioPorts i).isNone) ∧ (∀ i, (authority.mmio i).isNone) ∧ authority.dma.isNone

def conflictsWith (authority other : HardwareAuthority) : Bool :=
  (∃ i j, (authority.ioPorts i).any fun left => (other.ioPorts j).any left.overlaps) ∨
    (∃ i j, (authority.mmio i).any fun left => (other.mmio j).any left.overlaps) ∨
    authority.dma.any fun left => other.dma.any fun right =>
      left.iommuDomain = right.iommuDomain ∨ left.requesterId = right.requesterId

end HardwareAuthority

/-! ### The registry -/

structure DomainDescriptor where
  role : DomainRole
  addressSpaceRoot : Word
  authority : HardwareAuthority

def DomainDescriptor.validate (descriptor : DomainDescriptor) : Except AuthorityError Unit :=
  if validPageTableRoot descriptor.addressSpaceRoot = false then .error .invalidAddressSpaceRoot
  else
    match descriptor.role with
    | .nativeHardwareCell =>
      if descriptor.authority.isEmpty then .error .hardwareCellHasNoAuthority else .ok ()
    | .personalityTranslator | .userProcess =>
      if descriptor.authority.isEmpty then .ok () else .error .hardwareAuthorityForbidden

structure DomainSlot where
  occupied : Bool
  generation : ℕ
  executionReferences : ℕ
  descriptor : DomainDescriptor

def DomainSlot.empty : DomainSlot := ⟨false, 0, 0, .userProcess, 0, .none⟩

structure DomainRegistry (capacity : ℕ) where
  kernelAddressSpaceRoot : Word
  slots : Fin capacity → DomainSlot
  live : ℕ

structure KernelInvocation where
  cpuId : ℕ
  cpuGeneration : ℕ
  caller : DomainHandle
  entrySequence : ℕ
  deriving DecidableEq

inductive ActiveExecution
  | kernel
  | domain (handle : DomainHandle)
  deriving DecidableEq

structure PendingTransition where
  sequence : ℕ
  target : DomainHandle
  targetRing : PrivilegeRing
  addressSpaceRoot : Word
  gate : TransitionGate
  deriving DecidableEq

structure TransitionLease where
  cpuId : ℕ
  cpuGeneration : ℕ
  pending : PendingTransition

structure CommittedTransition where
  target : DomainHandle
  targetRing : PrivilegeRing
  addressSpaceRoot : Word
  gate : TransitionGate
  sequence : ℕ

/-- The transition state of one CPU. -/
structure TransitionFrontier where
  cpuId : ℕ
  cpuGeneration : ℕ
  kernelAddressSpaceRoot : Word
  sequence : ℕ
  active : ActiveExecution
  pending : Option PendingTransition
  invocation : Option (DomainHandle × ℕ)

namespace DomainRegistry

variable {capacity : ℕ}

def new (capacity : ℕ) (kernelAddressSpaceRoot : Word) :
    Except AuthorityError (DomainRegistry capacity) :=
  if capacity = 0 ∨ u16Max + 1 < capacity then .error .domainCapacity
  else if validPageTableRoot kernelAddressSpaceRoot = false then .error .invalidAddressSpaceRoot
  else .ok ⟨kernelAddressSpaceRoot, fun _ => .empty, 0⟩

variable (registry : DomainRegistry capacity) (handle : DomainHandle)

/-- Replace one slot. -/
def setSlot (index : Fin capacity) (slot : DomainSlot) : DomainRegistry capacity :=
  { registry with slots := update registry.slots index slot }

def register (descriptor : DomainDescriptor) :
    Except AuthorityError (DomainHandle × DomainRegistry capacity) := do
  descriptor.validate
  if descriptor.addressSpaceRoot = registry.kernelAddressSpaceRoot ∨
      ∃ i, (registry.slots i).occupied ∧
        (registry.slots i).descriptor.addressSpaceRoot = descriptor.addressSpaceRoot then
    .error .sharedAddressSpace
  else if descriptor.role = .nativeHardwareCell ∧ ∃ i, (registry.slots i).occupied ∧
      (registry.slots i).descriptor.role = .nativeHardwareCell ∧
      (registry.slots i).descriptor.authority.conflictsWith descriptor.authority then
    .error .hardwareAuthorityConflict
  else
    match position fun i =>
        !(registry.slots i).occupied && (registry.slots i).generation != u32Max with
    | none => .error .domainCapacity
    | some index =>
      match checkedAdd u32Max (registry.slots index).generation 1 with
      | none => .error .generationExhausted
      | some generation =>
        .ok (⟨index, generation⟩,
          { registry.setSlot index ⟨true, generation, 0, descriptor⟩ with
            live := registry.live + 1 })

/-- The slot of a live handle. -/
def slot : Except AuthorityError (Fin capacity) :=
  if h : handle.slot < capacity then
    if (registry.slots ⟨handle.slot, h⟩).occupied = false ∨
        (registry.slots ⟨handle.slot, h⟩).generation ≠ handle.generation then .error .staleDomain
    else .ok ⟨handle.slot, h⟩
  else .error .staleDomain

def descriptor : Except AuthorityError DomainDescriptor := do
  let index ← registry.slot handle
  .ok (registry.slots index).descriptor

def revoke : Except AuthorityError (DomainRegistry capacity) := do
  let index ← registry.slot handle
  if (registry.slots index).executionReferences ≠ 0 then .error .domainBusy
  else
    .ok { registry.setSlot index { registry.slots index with
            occupied := false, descriptor := DomainSlot.empty.descriptor } with
          live := registry.live - 1 }

def retainExecution : Except AuthorityError (DomainRegistry capacity) := do
  let index ← registry.slot handle
  if (registry.slots index).executionReferences ≠ 0 then .error .domainBusy
  else
    match checkedAdd u32Max (registry.slots index).executionReferences 1 with
    | none => .error .generationExhausted
    | some references =>
      .ok (registry.setSlot index
        { registry.slots index with executionReferences := references })

def releaseExecution : Except AuthorityError (DomainRegistry capacity) := do
  let index ← registry.slot handle
  if (registry.slots index).executionReferences = 0 then .error .corruptExecutionReference
  else
    .ok (registry.setSlot index { registry.slots index with
      executionReferences := (registry.slots index).executionReferences - 1 })

end DomainRegistry

/-! ### Frontiers -/

namespace TransitionFrontier

variable {capacity : ℕ}

def new (cpuId cpuGeneration : ℕ) (kernelAddressSpaceRoot : Word) :
    Except AuthorityError TransitionFrontier :=
  if cpuGeneration = 0 then .error .invalidCpuGeneration
  else if validPageTableRoot kernelAddressSpaceRoot = false then .error .invalidAddressSpaceRoot
  else .ok ⟨cpuId, cpuGeneration, kernelAddressSpaceRoot, 0, .kernel, none, none⟩

variable (frontier : TransitionFrontier) (registry : DomainRegistry capacity)

def prepare (target : DomainHandle) (gate : TransitionGate) :
    Except AuthorityError (TransitionLease × TransitionFrontier × DomainRegistry capacity) := do
  if registry.kernelAddressSpaceRoot ≠ frontier.kernelAddressSpaceRoot then
    .error .kernelAddressSpaceMismatch
  else if frontier.active ≠ .kernel then .error .kernelNotActive
  else if frontier.pending.isSome then .error .transitionAlreadyPending
  else
    let descriptor ← registry.descriptor target
    let targetRing := descriptor.role.ring
    if validDispatchGate .kernel targetRing gate = false then .error .invalidTransitionGate
    else if descriptor.addressSpaceRoot = frontier.kernelAddressSpaceRoot then
      .error .sharedAddressSpace
    else
      match checkedAdd u64Max frontier.sequence 1 with
      | none => .error .generationExhausted
      | some sequence =>
        let registry ← registry.retainExecution target
        let pending : PendingTransition :=
          ⟨sequence, target, targetRing, descriptor.addressSpaceRoot, gate⟩
        .ok (⟨frontier.cpuId, frontier.cpuGeneration, pending⟩,
          { frontier with sequence, pending := some pending, invocation := none }, registry)

def commit (lease : TransitionLease) (observedKernelAddressSpaceRoot : Word) :
    Except AuthorityError (CommittedTransition × TransitionFrontier) := do
  if lease.cpuId ≠ frontier.cpuId ∨ lease.cpuGeneration ≠ frontier.cpuGeneration then
    .error .wrongCpu
  else if frontier.pending ≠ some lease.pending then .error .staleTransition
  else
    let descriptor ← registry.descriptor lease.pending.target
    if descriptor.addressSpaceRoot ≠ lease.pending.addressSpaceRoot ∨
        descriptor.role.ring ≠ lease.pending.targetRing then .error .staleDomain
    else if observedKernelAddressSpaceRoot ≠ frontier.kernelAddressSpaceRoot ∨
        registry.kernelAddressSpaceRoot ≠ frontier.kernelAddressSpaceRoot then
      .error .kernelAddressSpaceMismatch
    else if validDispatchGate .kernel lease.pending.targetRing lease.pending.gate = false then
      .error .invalidTransitionGate
    else
      .ok (⟨lease.pending.target, lease.pending.targetRing, lease.pending.addressSpaceRoot,
          lease.pending.gate, lease.pending.sequence⟩,
        { frontier with pending := none, active := .domain lease.pending.target })

def abort (lease : TransitionLease) :
    Except AuthorityError (TransitionFrontier × DomainRegistry capacity) := do
  if lease.cpuId ≠ frontier.cpuId ∨ lease.cpuGeneration ≠ frontier.cpuGeneration then
    .error .wrongCpu
  else if frontier.pending ≠ some lease.pending then .error .staleTransition
  else
    let registry ← registry.releaseExecution lease.pending.target
    .ok ({ frontier with pending := none }, registry)

def enterKernel
    (caller : DomainHandle) (sourceAddressSpaceRoot installedKernelAddressSpaceRoot : Word) :
    Except AuthorityError (KernelInvocation × TransitionFrontier × DomainRegistry capacity) := do
  if frontier.pending.isSome then .error .transitionAlreadyPending
  else if frontier.active ≠ .domain caller then .error .unexpectedCaller
  else
    let descriptor ← registry.descriptor caller
    if descriptor.addressSpaceRoot ≠ sourceAddressSpaceRoot then
      .error .sourceAddressSpaceMismatch
    else if installedKernelAddressSpaceRoot ≠ frontier.kernelAddressSpaceRoot ∨
        registry.kernelAddressSpaceRoot ≠ frontier.kernelAddressSpaceRoot then
      .error .kernelAddressSpaceMismatch
    else
      match checkedAdd u64Max frontier.sequence 1 with
      | none => .error .generationExhausted
      | some entrySequence =>
        let registry ← registry.releaseExecution caller
        .ok (⟨frontier.cpuId, frontier.cpuGeneration, caller, entrySequence⟩,
          { frontier with
            sequence := entrySequence
            active := .kernel
            invocation := some (caller, entrySequence) },
          registry)

def validateInvocation (invocation : KernelInvocation) : Except AuthorityError Unit :=
  if invocation.cpuId ≠ frontier.cpuId ∨ invocation.cpuGeneration ≠ frontier.cpuGeneration then
    .error .wrongCpu
  else if frontier.active ≠ .kernel ∨ frontier.pending.isSome ∨
      frontier.invocation ≠ some (invocation.caller, invocation.entrySequence) then
    .error .staleInvocation
  else .ok ()

end TransitionFrontier

/-! ### Requests -/

namespace DomainRegistry

variable {capacity : ℕ}

variable (registry : DomainRegistry capacity) (frontier : TransitionFrontier)
  (invocation : KernelInvocation)

def authorizedCaller : Except AuthorityError DomainDescriptor := do
  frontier.validateInvocation invocation
  registry.descriptor invocation.caller

/-- The three kinds of requests differ in what the authority must permit. -/
def authorize (permits : HardwareAuthority → Bool) : Except AuthorityError Unit := do
  let descriptor ← registry.authorizedCaller frontier invocation
  if descriptor.role ≠ .nativeHardwareCell ∨ permits descriptor.authority = false then
    .error .hardwareRequestDenied
  else .ok ()

def authorizeIo (port byteWidth : ℕ) : Except AuthorityError Unit :=
  registry.authorize frontier invocation fun authority => authority.permitsIo port byteWidth

def authorizeMmio (address length : ℕ) (access : MmioAccess) : Except AuthorityError Unit :=
  registry.authorize frontier invocation fun authority =>
    authority.permitsMmio address length access

def authorizeDma (iommuDomain generation requesterId : ℕ) : Except AuthorityError Unit :=
  registry.authorize frontier invocation fun authority =>
    authority.permitsDma iommuDomain generation requesterId

end DomainRegistry

end ArachKernel.RingAuthority
