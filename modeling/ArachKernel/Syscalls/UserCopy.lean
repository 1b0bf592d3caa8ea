import ArachKernel.Process.Context
import ArachKernel.Lib.Table

/-!
Copies between the kernel and the memory of the calling task (`syscalls.rs`). The kernel
walks the page tables of the active root in software and reaches the frames through the
direct map of the first 4 GiB. The tables are ordinary bytes of the physical memory, so a
copy may change tables that it has still to walk.
-/

namespace ArachKernel.Syscalls

open Process

abbrev Byte := BitVec 8

/-- Physical memory, by address. -/
abbrev Memory := ℕ → Byte

def pageSize : ℕ := 4096
def pageAddressMask : Word := 0x000ffffffffff000
def entryPresent : Word := 1 <<< 0
def entryWritable : Word := 1 <<< 1
def entryUser : Word := 1 <<< 2
def entryHuge : Word := 1 <<< 7
def earlyMappedPhysicalLimit : ℕ := 4 * 1024 * 1024 * 1024
def higherHalfDirectMapBase : ℕ := 0xffff800000000000

inductive UserCopyError
  | invalidRange
  | missingMapping
  | permissionDenied
  | hugePageUnsupported
  | unmappedPhysicalMemory
  deriving DecidableEq

def directMapAddress (physicalAddress : ℕ) : Option ℕ :=
  if physicalAddress ≥ earlyMappedPhysicalLimit then none
  else checkedAdd u64Max higherHalfDirectMapBase physicalAddress

def validUserControlAddress (address : Word) : Bool :=
  decide (userAddressMinimum ≤ address) && decide (address < userAddressLimit)

/-- The little-endian word at an address. -/
def readVolatile (m : Memory) (physical : ℕ) : Word :=
  (List.range 8).foldr (fun i word => word <<< 8 ||| (m (physical + i)).setWidth 64) 0

def readActiveEntry (m : Memory) (table : Word) (index : ℕ) : Option Word :=
  if table &&& 0xfff ≠ 0 ∨ index ≥ 512 then none
  else
    match checkedAdd u64Max table.toNat (index * 8) with
    | none => none
    | some physical =>
      match checkedAdd u64Max physical 8 with
      | none => none
      | some physicalEnd =>
        if physicalEnd > earlyMappedPhysicalLimit then none
        else (directMapAddress physical).map fun _ => readVolatile m physical

/-- The checks that an entry of any level has to pass. -/
def checkEntry (write : Bool) (entry : Word) : Except UserCopyError Unit :=
  if entry &&& (entryPresent ||| entryUser) ≠ entryPresent ||| entryUser then
    .error .permissionDenied
  else if write ∧ entry &&& entryWritable = 0 then .error .permissionDenied
  else .ok ()

/-- One of the three upper levels: the next table. -/
def nextTable (write : Bool) (readEntry : Word → ℕ → Option Word) (table : Word) (index : ℕ) :
    Except UserCopyError Word := do
  let some entry := readEntry table index | .error .missingMapping
  checkEntry write entry
  if entry &&& entryHuge ≠ 0 then .error .hugePageUnsupported
  .ok (entry &&& pageAddressMask)

/-- The index of an address in the table of a level. -/
def tableIndex (address : Word) (shift : ℕ) : ℕ := (address >>> shift &&& 0x1ff).toNat

def translateUserAddressWithAccess (root address : Word) (write : Bool)
    (readEntry : Word → ℕ → Option Word) : Except UserCopyError Word := do
  if root = 0 ∨ root &&& 0xfff ≠ 0 ∨ !validUserControlAddress address then .error .invalidRange
  if tableIndex address 39 ≥ 256 then .error .invalidRange
  let table ← nextTable write readEntry root (tableIndex address 39)
  let table ← nextTable write readEntry table (tableIndex address 30)
  let table ← nextTable write readEntry table (tableIndex address 21)
  let some leaf := readEntry table (tableIndex address 12) | .error .missingMapping
  checkEntry write leaf
  .ok (leaf &&& pageAddressMask ||| address &&& 0xfff)

/-! ### The three passes -/

/-- What a pass over a user range does: how it walks, what it needs of a physical address,
and what it does with a span of physical memory. -/
structure Pass (σ : Type) where
  write : Bool
  memory : σ → Memory
  pointer : ℕ → Option ℕ
  visit : (physical checked span : ℕ) → σ → σ

section Pass

variable {σ : Type}

/-- The loop, from the offset `checked` on: at most one page in each turn. -/
def spans (pass : Pass σ) (root target : Word) (length checked : ℕ) (s : σ) :
    Except UserCopyError Unit × σ :=
  if checked < length then
    let userAddress := target + BitVec.ofNat 64 checked
    match translateUserAddressWithAccess root userAddress pass.write
        (readActiveEntry (pass.memory s)) with
    | .error error => (.error error, s)
    | .ok physical =>
      let pageRemaining := pageSize - userAddress.toNat % pageSize
      let span := min pageRemaining (length - checked)
      match checkedAdd u64Max physical.toNat span with
      | none => (.error .unmappedPhysicalMemory, s)
      | some physicalEnd =>
        if physicalEnd > earlyMappedPhysicalLimit then (.error .unmappedPhysicalMemory, s)
        else
          match pass.pointer physical.toNat with
          | none => (.error .unmappedPhysicalMemory, s)
          | some _ =>
            spans pass root target length (checked + span)
              (pass.visit physical.toNat checked span s)
  else (.ok (), s)
termination_by length - checked
decreasing_by
  have hpage : 0 < pageSize - (target + BitVec.ofNat 64 checked).toNat % pageSize :=
    Nat.sub_pos_of_lt (Nat.mod_lt _ (by decide))
  omega

/-- A pass over a range of user addresses. -/
def overUserRange (pass : Pass σ) (root target : Word) (length : ℕ) (s : σ) :
    Except UserCopyError Unit × σ :=
  if length = 0 then (.ok (), s)
  else
    match checkedAdd u64Max target.toNat length with
    | none => (.error .invalidRange, s)
    | some rangeEnd =>
      if target < userAddressMinimum ∨ rangeEnd > userAddressLimit.toNat then
        (.error .invalidRange, s)
      else spans pass root target length 0 s

end Pass

/-- Bytes written one after the other. -/
def writeAll (m : Memory) (writes : List (ℕ × Byte)) : Memory :=
  writes.foldl (fun m write => Function.update m write.1 write.2) m

/-- The bytes of a list and the places from `physical` on. -/
def placed (physical : ℕ) (bytes : List Byte) : List (ℕ × Byte) :=
  (List.range' physical bytes.length).zip bytes

/-- Physical memory, with all writes since the start. -/
structure Physical where
  memory : Memory
  written : List (ℕ × Byte)

def Physical.store (s : Physical) (writes : List (ℕ × Byte)) : Physical where
  memory := writeAll s.memory writes
  written := s.written ++ writes

/-- A buffer of the kernel, as far as it is filled: the places read, and what was there. -/
structure Loads where
  memory : Memory
  loaded : List (ℕ × Byte)

def Loads.load (s : Loads) (physical span : ℕ) : Loads where
  memory := s.memory
  loaded := s.loaded ++ (List.range' physical span).map fun p => (p, s.memory p)

def validation : Pass Memory where
  write := true
  memory := id
  pointer := some
  visit _ _ _ m := m

def validateUserWriteRange (root target : Word) (length : ℕ) (m : Memory) :
    Except UserCopyError Unit :=
  (overUserRange validation root target length m).1

def copyingFrom : Pass Loads where
  write := false
  memory := Loads.memory
  pointer := directMapAddress
  visit physical _ span s := s.load physical span

def copyFromUser (root source : Word) (length : ℕ) (m : Memory) :
    Except UserCopyError Unit × List (ℕ × Byte) :=
  let (result, s) := overUserRange copyingFrom root source length { memory := m, loaded := [] }
  (result, s.loaded)

def copyingTo (source : List Byte) : Pass Physical where
  write := true
  memory := Physical.memory
  pointer := directMapAddress
  visit physical copied span s := s.store (placed physical ((source.drop copied).take span))

def copyToUser (root target : Word) (source : List Byte) (s : Physical) :
    Except UserCopyError Unit × Physical :=
  overUserRange (copyingTo source) root target source.length s

end ArachKernel.Syscalls
