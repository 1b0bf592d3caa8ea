import ArachKernel.Lib.Guarded
import ArachKernel.Process.Lifecycle

/-!
Second-level page tables of VT-d (`hw/vtd_slpt.rs`): a ledger of mappings and the
tables that realize them.

The memory that holds the tables and the invalidation of the translation caches are
supplied from outside, as a platform. Each of its calls may fail at any time, so a
call is an operation on the platform's state that returns a value or an error.
Errors of the source are `SlptFault`s; an index outside an array is a panic.
-/

namespace ArachKernel.Vtd

open Guarded

def pageShift : ℕ := 12
def pageSize : ℕ := 4096
def entriesPerTable : ℕ := 512
def physicalPageMask : ℕ := 0x000ffffffffff000
def permissionMask : ℕ := 3

/-- The address of a table: not zero, aligned, and inside the physical address bits. -/
structure SlptFrame where
  address : ℕ
  valid : address ≠ 0 ∧ address % 4096 = 0 ∧ address < 2 ^ 52
  deriving DecidableEq

def SlptFrame.fromPhysicalAddress (address : ℕ) : Option SlptFrame :=
  if h : address ≠ 0 ∧ address % 4096 = 0 ∧ address < 2 ^ 52 then some ⟨address, h⟩ else none

structure SlptConfig where
  supportedAdjustedGuestWidths : ℕ
  maximumGuestAddressWidth : ℕ
  addressWidthEncoding : ℕ

structure DmaPermissions where
  read : Bool
  write : Bool
  deriving DecidableEq

inductive MappingPhase
  | awaitingMapInvalidation
  | active
  | awaitingUnmapInvalidation
  | awaitingCleanup
  deriving DecidableEq

inductive SlptState
  | operational
  | poisoned
  deriving DecidableEq

inductive SlptFault
  | invalidAddressWidth
  | unsupportedAddressWidth
  | invalidRoot
  | rootNotEmpty
  | invalidIova
  | invalidPhysicalAddress
  | invalidPermissions
  | capacityExhausted
  | iovaOverlap
  | physicalAlias
  | foreignEntry
  | malformedEntry
  | frameAlias
  | unknownMapping
  | invalidPhase
  | staleReceipt
  | entryMismatch
  | memory (error : ℕ)
  | rollbackFailed
  | poisoned
  deriving DecidableEq

structure MappingHandle where
  slot : ℕ
  generation : ℕ
  deriving DecidableEq

structure MapReceipt where
  handle : MappingHandle

structure UnmapReceipt where
  handle : MappingHandle

inductive PendingCause
  | invalidation (error : ℕ)
  | cleanup (error : ℕ)

inductive MapOutcome
  | active (handle : MappingHandle)
  | pending (receipt : MapReceipt) (cause : PendingCause)

inductive UnmapOutcome
  | complete
  | pending (receipt : UnmapReceipt) (cause : PendingCause)

structure PagePath where
  frames : List SlptFrame
  indices : List ℕ
  depth : ℕ

structure MappingRecord where
  iova : ℕ
  physicalAddress : ℕ
  leaf : ℕ
  path : PagePath
  cleanupDepth : ℕ
  phase : MappingPhase

structure MappingSlot where
  generation : ℕ
  record : Option MappingRecord
  retired : Bool

def MappingSlot.empty : MappingSlot := ⟨1, none, false⟩

structure NewLink where
  parent : SlptFrame
  index : ℕ
  child : SlptFrame

structure Slpt (mappings : ℕ) where
  root : SlptFrame
  adjustedWidth : ℕ
  levels : ℕ
  slots : Fin mappings → MappingSlot
  state : SlptState

def Slpt.setSlot {mappings : ℕ} (slpt : Slpt mappings) (slot : Fin mappings) (new : MappingSlot) :
    Slpt mappings :=
  { slpt with slots := Function.update slpt.slots slot new }

/-- Table memory and invalidation, as operations on a state. -/
structure Platform (μ : Type) where
  allocateTable : μ → Except ℕ SlptFrame × μ
  zeroTable : SlptFrame → μ → Except ℕ Unit × μ
  readEntry : SlptFrame → ℕ → μ → Except ℕ ℕ × μ
  writeEntry : SlptFrame → ℕ → ℕ → μ → Except ℕ Unit × μ
  releaseTable : SlptFrame → μ → Except ℕ Unit × μ
  invalidate : ℕ → μ → Except ℕ Unit × μ

/-! ### Entries -/

/-- The entry that points to a table. -/
def pointer (child : SlptFrame) : ℕ := child.address ||| permissionMask

def decodeTablePointer (entry : ℕ) : Except SlptFault SlptFrame :=
  if entry &&& permissionMask ≠ permissionMask ∨
      entry &&& (u64Max - (physicalPageMask ||| permissionMask)) ≠ 0 ∨
      entry &&& physicalPageMask = 0 then .error .malformedEntry
  else
    match SlptFrame.fromPhysicalAddress (entry &&& physicalPageMask) with
    | some frame => .ok frame
    | none => .error .malformedEntry

def DmaPermissions.bits (permissions : DmaPermissions) : ℕ :=
  (if permissions.read then 1 else 0) ||| (if permissions.write then 2 else 0)

/-- The index of an address in the table at a position of its path. -/
def indexAt (levels iova position : ℕ) : ℕ :=
  (iova >>> (pageShift + (levels - 1 - position) * 9)) &&& 0x1ff

def indices (levels iova : ℕ) : List ℕ := (List.range levels).map (indexAt levels iova)

/-! ### Attaching -/

def SlptConfig.adjustedGuestAddressWidth (config : SlptConfig) : Option ℕ :=
  match config.addressWidthEncoding with
  | 0 => some 30
  | 1 => some 39
  | 2 => some 48
  | 3 => some 57
  | _ => none

def SlptConfig.validate (config : SlptConfig) : Except SlptFault ℕ :=
  match config.adjustedGuestAddressWidth with
  | none => .error .invalidAddressWidth
  | some width =>
    if config.supportedAdjustedGuestWidths &&& (1 <<< config.addressWidthEncoding) = 0 ∨
        config.maximumGuestAddressWidth < 30 ∨ 64 < config.maximumGuestAddressWidth ∨
        config.maximumGuestAddressWidth < width then .error .unsupportedAddressWidth
    else .ok width

section Operations

variable {n : ℕ} {μ : Type} (P : Platform μ)

/-- The loop that checks that the root is empty. -/
def rootEmpty (root : SlptFrame) : ℕ → ℕ → μ → Except SlptFault Unit × μ
  | 0, _, m => (.ok (), m)
  | remaining + 1, index, m =>
    match P.readEntry root index m with
    | (.error e, m) => (.error (.memory e), m)
    | (.ok entry, m) =>
      if entry ≠ 0 then (.error .rootNotEmpty, m) else rootEmpty root remaining (index + 1) m

/-- `Slpt::attach`. -/
def attach (n : ℕ) (root : SlptFrame) (config : SlptConfig) (m : μ) :
    Except SlptFault (Slpt n) × μ :=
  if n = 0 ∨ u16Max < n ∨ root.address = 0 then (.error .invalidRoot, m)
  else
    match config.validate with
    | .error e => (.error e, m)
    | .ok width =>
      match rootEmpty P root entriesPerTable 0 m with
      | (.error e, m) => (.error e, m)
      | (.ok (), m) =>
        (.ok ⟨root, width, (width - pageShift + 8) / 9, fun _ => .empty, .operational⟩, m)

/-- Computations on a table and its platform. -/
abbrev SlptM (n : ℕ) (μ α : Type) := Guarded (Slpt n × μ) SlptFault α

/-- A platform call whose error is handled by the caller. -/
def attempt {α : Type} (call : μ → Except ℕ α × μ) : SlptM n μ (Except ℕ α) :=
  fun s => (.ok (call s.2).1, (s.1, (call s.2).2))

/-- A platform call whose error is passed on. -/
def perform {α : Type} (call : μ → Except ℕ α × μ) : SlptM n μ α := do
  match ← attempt call with
  | .ok a => pure a
  | .error e => fail (.memory e)

def poison : SlptM n μ Unit := modify fun s => ({ s.1 with state := .poisoned }, s.2)

variable (slot : Fin n)

def setRecord (record : Option MappingRecord) : SlptM n μ Unit :=
  modify fun s => (s.1.setSlot slot { s.1.slots slot with record := record }, s.2)

def ensureOperational : SlptM n μ Unit := do
  let state ← read fun s => s.1.state
  refuse (state ≠ .operational) .poisoned

def validateIova (adjustedWidth iova : ℕ) : SlptM n μ Unit := do
  refuse (iova % pageSize ≠ 0) .invalidIova
  let last ← okOr .invalidIova (checkedAdd u64Max iova (pageSize - 1))
  refuse (adjustedWidth < 64 ∧ 2 ^ adjustedWidth ≤ last) .invalidIova

def frameIsKnown (slpt : Slpt n) (frame : SlptFrame) : Bool :=
  frame = slpt.root || (List.finRange n).any fun slot =>
    (slpt.slots slot).record.any fun record =>
      (record.path.frames.take (record.path.depth - record.cleanupDepth)).contains frame

/-- Refuse an address or a page that a record already has. -/
def checkAliases (iova physicalAddress : ℕ) : List (Fin n) → SlptM n μ Unit
  | [] => pure ()
  | slot :: rest => do
    let record ← read fun s => (s.1.slots slot).record
    refuse (record.any fun record => record.iova = iova) .iovaOverlap
    refuse (record.any fun record => record.physicalAddress = physicalAddress) .physicalAlias
    checkAliases iova physicalAddress rest

/-! ### Building a path -/

/-- Give back a table that could not be linked. -/
def undoAllocation {α : Type} (child : SlptFrame) (error : ℕ) : SlptM n μ (Except SlptFault α) := do
  match ← attempt (P.releaseTable child) with
  | .ok () => pure (.error (.memory error))
  | .error _ => pure (.error .rollbackFailed)

/-- The table under an entry of an inner table, and the link made to it if there was
none. -/
def childTable (parent : SlptFrame) (index : ℕ) (frames : List SlptFrame) (entry : ℕ) :
    SlptM n μ (Except SlptFault (SlptFrame × List NewLink)) :=
  if entry = 0 then do
    match ← attempt P.allocateTable with
    | .error e => pure (.error (.memory e))
    | .ok child => do
      let known ← read fun s => frameIsKnown s.1 child
      if child.address = 0 ∨ known ∨ child ∈ frames then do
        poison
        pure (.error .frameAlias)
      else do
        match ← attempt (P.zeroTable child) with
        | .error e => undoAllocation P child e
        | .ok () => do
          match ← attempt (P.writeEntry parent index (pointer child)) with
          | .error e => undoAllocation P child e
          | .ok () => pure (.ok (child, [⟨parent, index, child⟩]))
  else
    match decodeTablePointer entry with
    | .error fault => do
      poison
      pure (.error fault)
    | .ok child => do
      let known ← read fun s => frameIsKnown s.1 child
      if known then pure (.ok (child, []))
      else do
        poison
        pure (.error .foreignEntry)

/-- `build_path` from a position on: the frames of the path, or what went wrong, and
the links made so far, the newest first. -/
def buildPath (levels iova : ℕ) : ℕ → ℕ → SlptFrame → List SlptFrame → List NewLink →
    SlptM n μ (Except SlptFault (List SlptFrame) × List NewLink)
  | 0, _, _, frames, links => pure (.ok frames, links)
  | remaining + 1, position, parent, frames, links => do
    match ← attempt (P.readEntry parent (indexAt levels iova position)) with
    | .error e => pure (.error (.memory e), links)
    | .ok entry => do
      match ← childTable P parent (indexAt levels iova position) frames entry with
      | .error fault => pure (.error fault, links)
      | .ok (child, new) =>
        if child ∈ frames then do
          poison
          pure (.error .malformedEntry, new ++ links)
        else
          buildPath levels iova remaining (position + 1) child (frames ++ [child]) (new ++ links)

/-- `rollback_new_links`: whether all links could be removed. -/
def rollbackNewLinks : List NewLink → SlptM n μ Bool
  | [] => pure true
  | link :: rest => do
    match ← attempt (P.writeEntry link.parent link.index 0) with
    | .error _ => pure false
    | .ok () => do
      match ← attempt (P.releaseTable link.child) with
      | .ok () => rollbackNewLinks rest
      | .error _ => do
        let _ ← attempt (P.writeEntry link.parent link.index (pointer link.child))
        pure false

/-- Roll the links back, and poison the table if that fails. -/
def abandon (links : List NewLink) : SlptM n μ Unit := do
  let undone ← rollbackNewLinks P links
  if undone then pure ()
  else do
    poison
    fail .rollbackFailed

/-! ### Mapping -/

def frameAt (path : PagePath) (position : ℕ) : SlptM n μ SlptFrame :=
  match path.frames[position]? with
  | some frame => pure frame
  | none => panic

def pathIndex (path : PagePath) (position : ℕ) : SlptM n μ ℕ :=
  match path.indices[position]? with
  | some index => pure index
  | none => panic

/-- Run the invalidation for a new leaf, and activate its record. -/
def activate (record : MappingRecord) (handle : MappingHandle) : SlptM n μ MapOutcome := do
  match ← attempt (P.invalidate record.iova) with
  | .ok () => do
    setRecord slot (some { record with phase := .active })
    pure (.active handle)
  | .error e => pure (.pending ⟨handle⟩ (.invalidation e))

/-- The part of `map_page` after the path has been built. -/
def publishLeaf (iova physicalAddress bits : ℕ) (path : PagePath)
    (links : List NewLink) : SlptM n μ MapOutcome := do
  let leafTable ← frameAt path (path.depth - 1)
  let leafIndex ← pathIndex path (path.depth - 1)
  match ← attempt (P.readEntry leafTable leafIndex) with
  | .error e => do
    abandon P links
    fail (.memory e)
  | .ok existing =>
    if existing ≠ 0 then do
      abandon P links
      poison
      fail .foreignEntry
    else do
      let leaf := physicalAddress ||| bits
      match ← attempt (P.writeEntry leafTable leafIndex leaf) with
      | .error e => do
        abandon P links
        fail (.memory e)
      | .ok () => do
        let generation ← read fun s => (s.1.slots slot).generation
        let record := ⟨iova, physicalAddress, leaf, path, 0, .awaitingMapInvalidation⟩
        setRecord slot (some record)
        activate P slot record ⟨slot, generation⟩

/-- `map_page`. -/
def mapPage (iova physicalAddress : ℕ) (permissions : DmaPermissions) : SlptM n μ MapOutcome := do
  ensureOperational
  let slpt ← read Prod.fst
  validateIova slpt.adjustedWidth iova
  refuse (physicalAddress % pageSize ≠ 0 ∨ 2 ^ 52 ≤ physicalAddress) .invalidPhysicalAddress
  refuse (permissions.bits = 0) .invalidPermissions
  checkAliases iova physicalAddress (List.finRange n)
  let slot ← okOr .capacityExhausted ((List.finRange n).find? fun slot =>
    (slpt.slots slot).record.isNone && !(slpt.slots slot).retired)
  let (built, links) ←
    buildPath P slpt.levels iova (slpt.levels - 1) 0 slpt.root [slpt.root] []
  match built with
  | .error fault => do
    abandon P links
    if fault = .rollbackFailed then do
      poison
      fail fault
    else fail fault
  | .ok frames =>
    publishLeaf P slot iova physicalAddress permissions.bits
      ⟨frames, indices slpt.levels iova, slpt.levels⟩ links

/-- `record_index`, with the record. -/
def recordOf (handle : MappingHandle) : SlptM n μ (Fin n × MappingRecord) :=
  if h : handle.slot < n then do
    let slot ← read fun s => s.1.slots ⟨handle.slot, h⟩
    refuse (slot.generation ≠ handle.generation) .unknownMapping
    let record ← okOr .unknownMapping slot.record
    pure (⟨handle.slot, h⟩, record)
  else fail .unknownMapping

/-- `finish_map`. -/
def finishMap (receipt : MapReceipt) : SlptM n μ MapOutcome := do
  ensureOperational
  let (slot, record) ← recordOf receipt.handle
  refuse (record.phase ≠ .awaitingMapInvalidation) .staleReceipt
  activate P slot record receipt.handle

/-! ### Unmapping -/

inductive ReclaimError
  | memory (error : ℕ)
  | invalidation (error : ℕ)
  | fatal

/-- `table_is_empty` from an index on. -/
def tableIsEmpty (frame : SlptFrame) : ℕ → ℕ → SlptM n μ (Except ℕ Bool)
  | 0, _ => pure (.ok true)
  | remaining + 1, index => do
    match ← attempt (P.readEntry frame index) with
    | .error e => pure (.error e)
    | .ok entry =>
      if entry ≠ 0 then pure (.ok false) else tableIsEmpty frame remaining (index + 1)

/-- Put a link back after a failure. -/
def relink (parent : SlptFrame) (index : ℕ) (child : SlptFrame) (cause : ReclaimError) :
    SlptM n μ (Except ReclaimError Bool) := do
  match ← attempt (P.writeEntry parent index (pointer child)) with
  | .ok () => pure (.error cause)
  | .error _ => pure (.error .fatal)

/-- The body of the loop of `reclaim_empty_tables`: whether an empty table was unlinked
and released. -/
def reclaimTable (record : MappingRecord) : SlptM n μ (Except ReclaimError Bool) := do
  let position := record.path.depth - 1 - record.cleanupDepth
  let child ← frameAt record.path position
  match ← tableIsEmpty P child entriesPerTable 0 with
  | .error e => pure (.error (.memory e))
  | .ok false => pure (.ok false)
  | .ok true => do
    let parent ← frameAt record.path (position - 1)
    let parentIndex ← pathIndex record.path (position - 1)
    match ← attempt (P.readEntry parent parentIndex) with
    | .error e => pure (.error (.memory e))
    | .ok entry =>
      if entry ≠ pointer child then pure (.error .fatal)
      else do
        match ← attempt (P.writeEntry parent parentIndex 0) with
        | .error e => pure (.error (.memory e))
        | .ok () => do
          match ← attempt (P.invalidate record.iova) with
          | .error e => relink P parent parentIndex child (.invalidation e)
          | .ok () => do
            match ← attempt (P.releaseTable child) with
            | .error e => relink P parent parentIndex child (.memory e)
            | .ok () => pure (.ok true)

/-- The record of a slot that is known to have one. -/
def recordIn : SlptM n μ MappingRecord := do
  match ← read fun s => (s.1.slots slot).record with
  | some record => pure record
  | none => panic

/-- `reclaim_empty_tables`. -/
def reclaimEmptyTables (slot : Fin n) : ℕ → SlptM n μ (Except ReclaimError Unit)
  | 0 => panic
  | fuel + 1 => do
    let record ← recordIn slot
    if record.path.depth ≤ record.cleanupDepth + 1 then pure (.ok ())
    else do
      match ← reclaimTable P record with
      | .error e => pure (.error e)
      | .ok false => pure (.ok ())
      | .ok true => do
        setRecord slot (some { record with cleanupDepth := record.cleanupDepth + 1 })
        reclaimEmptyTables slot fuel

/-- A slot after its mapping is gone: its generation advances until it is used up. -/
def MappingSlot.retire (slot : MappingSlot) : MappingSlot :=
  if slot.generation = u32Max then { slot with record := none, retired := true }
  else { slot with record := none, generation := slot.generation + 1 }

def retireSlot : SlptM n μ Unit :=
  modify fun s => (s.1.setSlot slot (s.1.slots slot).retire, s.2)

/-- The cleanup part of `finish_unmap`. -/
def cleanUp (receipt : UnmapReceipt) : SlptM n μ UnmapOutcome := do
  let record ← recordIn slot
  match ← reclaimEmptyTables P slot (record.path.depth + 1) with
  | .ok () => do
    retireSlot slot
    pure .complete
  | .error (.memory e) => pure (.pending receipt (.cleanup e))
  | .error (.invalidation e) => pure (.pending receipt (.invalidation e))
  | .error .fatal => do
    poison
    fail .rollbackFailed

/-- `finish_unmap`. -/
def finishUnmap (receipt : UnmapReceipt) : SlptM n μ UnmapOutcome := do
  ensureOperational
  let (slot, record) ← recordOf receipt.handle
  if record.phase = .awaitingUnmapInvalidation then do
    match ← attempt (P.invalidate record.iova) with
    | .error e => pure (.pending receipt (.invalidation e))
    | .ok () => do
      setRecord slot (some { record with phase := .awaitingCleanup })
      cleanUp P slot receipt
  else do
    refuse (record.phase ≠ .awaitingCleanup) .staleReceipt
    cleanUp P slot receipt

/-- Take the leaf of a record out of its table. -/
def removeLeaf (record : MappingRecord) : SlptM n μ Unit := do
  let leafTable ← frameAt record.path (record.path.depth - 1)
  let leafIndex ← pathIndex record.path (record.path.depth - 1)
  let entry ← perform (P.readEntry leafTable leafIndex)
  if entry ≠ record.leaf then do
    poison
    fail .entryMismatch
  else do
    perform (P.writeEntry leafTable leafIndex 0)
    setRecord slot (some { record with phase := .awaitingUnmapInvalidation })

/-- `unmap_page`. -/
def unmapPage (handle : MappingHandle) : SlptM n μ UnmapOutcome := do
  ensureOperational
  let (slot, record) ← recordOf handle
  refuse (record.phase ≠ .active) .invalidPhase
  removeLeaf P slot record
  finishUnmap P ⟨handle⟩

/-- `cancel_pending_map`. -/
def cancelPendingMap (receipt : MapReceipt) : SlptM n μ UnmapOutcome := do
  ensureOperational
  let (slot, record) ← recordOf receipt.handle
  refuse (record.phase ≠ .awaitingMapInvalidation) .staleReceipt
  removeLeaf P slot record
  finishUnmap P ⟨receipt.handle⟩

end Operations

end ArachKernel.Vtd
