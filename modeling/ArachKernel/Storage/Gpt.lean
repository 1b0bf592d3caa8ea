import ArachKernel.Storage.Device

/-!
The GUID partition table (`GptTable::parse` in `storage.rs`), and that reading it
off an arbitrary device neither panics nor asks for a sector the device does not
have.
-/

namespace ArachKernel.Storage

open Guarded List

variable {σ ε : Type}

def gptHeaderLba : ℕ := 1
def gptHeaderBytes : ℕ := 92
def gptPartitionEntryBytes : ℕ := 128
def maximumGptPartitions : ℕ := 128
def maximumGptPartitionNameUnits : ℕ := 36

/-- The letters `EFI PART`. -/
def gptSignature : List UInt8 := [0x45, 0x46, 0x49, 0x20, 0x50, 0x41, 0x52, 0x54]

def gptRevision10 : ℕ := 0x00010000

/-! ### The checksum -/

variable (value : BitVec 32)

/-- One of the eight steps for a byte. -/
def crc32Shift : BitVec 32 :=
  let mask := 0#32 - (value &&& 1#32)
  (value >>> 1) ^^^ (0xedb88320#32 &&& mask)

def crc32Byte (byte : UInt8) : BitVec 32 :=
  crc32Shift^[8] (value ^^^ BitVec.ofNat 32 byte.toNat)

def Crc32.new : BitVec 32 := BitVec.allOnes 32

def Crc32.update (bytes : List UInt8) : BitVec 32 :=
  bytes.foldl crc32Byte value

def Crc32.finish : BitVec 32 := ~~~value

def crc32 (bytes : List UInt8) : BitVec 32 := Crc32.finish (Crc32.update Crc32.new bytes)

/-! ### The table -/

/-- A partition; `name` holds the units before the terminating zero. -/
structure GptPartition where
  index : ℕ
  typeGuid : List UInt8
  uniqueGuid : List UInt8
  firstLba : ℕ
  lastLba : ℕ
  attributes : ℕ
  name : List ℕ

structure GptTable where
  diskGuid : List UInt8
  firstUsableLba : ℕ
  lastUsableLba : ℕ
  partitions : List GptPartition

def validateHeader (header : List UInt8) (sectorCount : ℕ) : Guarded σ BlockError Unit := do
  let signature ← slice header 0 8
  refuse (signature ≠ gptSignature) .corruptMetadata
  let revision ← readU32 header 8
  refuse (revision ≠ gptRevision10) .corruptMetadata
  let size ← readU32 header 12
  refuse (¬ (gptHeaderBytes ≤ size ∧ size ≤ sectorBytes)) .corruptMetadata
  let current ← readU64 header 0x18
  refuse (current ≠ gptHeaderLba) .corruptMetadata
  let backup ← readU64 header 0x20
  refuse (sectorCount ≤ backup) .corruptMetadata
  let firstUsable ← readU64 header 0x28
  let lastUsable ← readU64 header 0x30
  refuse (lastUsable < firstUsable) .corruptMetadata
  refuse (sectorCount ≤ lastUsable) .corruptMetadata

/-- The units of a partition's name from `unit` on, at most `remaining` of them. -/
def partitionName (raw : List UInt8) : ℕ → ℕ → Guarded σ ε (List ℕ)
  | 0, _ => pure []
  | remaining + 1, unit => do
    let low ← byteAt raw (56 + unit * 2)
    let high ← byteAt raw (57 + unit * 2)
    let value := fromLeBytes [low, high]
    if value = 0 then pure []
    else do
      let rest ← partitionName raw remaining (unit + 1)
      pure (value :: rest)

/-- The body of the loop over the entries of a sector. -/
def parseEntry (firstUsableLba lastUsableLba index : ℕ) (raw : List UInt8)
    (partitions : List GptPartition) : Guarded σ BlockError (List GptPartition) := do
  let typeGuid ← slice raw 0 16
  if typeGuid.all (· == 0) then pure partitions
  else do
    let firstLba ← readU64 raw 32
    let lastLba ← readU64 raw 40
    refuse (firstLba < firstUsableLba ∨ lastLba < firstLba ∨ lastUsableLba < lastLba)
      .corruptMetadata
    let uniqueGuid ← slice raw 16 32
    let attributes ← readU64 raw 48
    let name ← partitionName raw maximumGptPartitionNameUnits 0
    refuse (partitions.length = maximumGptPartitions) .capacity
    -- the write to the array of partitions is indexed by their number
    if partitions.length < maximumGptPartitions then
      pure (partitions ++
        [⟨index % 2 ^ 32, typeGuid, uniqueGuid, firstLba, lastLba, attributes, name⟩])
    else panic

/-- The loop over the entries of a sector; `first` is the index of the first one. -/
def parseEntries (firstUsableLba lastUsableLba first : ℕ) :
    ℕ → List (List UInt8) → List GptPartition → Guarded σ BlockError (List GptPartition)
  | _, [], partitions => pure partitions
  | offset, raw :: rest, partitions => do
    let index ← plus first offset
    let partitions ← parseEntry firstUsableLba lastUsableLba index raw partitions
    parseEntries firstUsableLba lastUsableLba first (offset + 1) rest partitions

/-- The whole entries in a piece of a sector. -/
def chunksExact (size : ℕ) (bytes : List UInt8) : List (List UInt8) :=
  (List.range (bytes.length / size)).map fun i => (bytes.drop (size * i)).take size

/-- Two of the partitions share a sector. -/
def overlapping : List GptPartition → Bool
  | [] => false
  | left :: rest =>
    rest.any (fun right => left.firstLba ≤ right.lastLba ∧ right.firstLba ≤ left.lastLba) ||
      overlapping rest

section Parse

variable (d : BlockDevice σ)

/-- The loop over the sectors of the entry array. -/
def parseSectors (firstUsableLba lastUsableLba total : ℕ) :
    ℕ → BitVec 32 → ℕ → ℕ → List GptPartition →
      Guarded (Drive σ) BlockError (BitVec 32 × List GptPartition)
  | 0, crc, _, _, partitions => pure (crc, partitions)
  | sectors + 1, crc, entryBytes, lba, partitions => do
    let sector ← d.request lba
    let remaining ← minus total entryBytes
    let copied := min remaining sectorBytes
    let entrySector ← slice sector.1 0 copied
    let partitions ← parseEntries firstUsableLba lastUsableLba
      (entryBytes / gptPartitionEntryBytes) 0 (chunksExact gptPartitionEntryBytes entrySector)
      partitions
    let entryBytes ← plus entryBytes copied
    let lba ← okOr .invalidSector (checkedAdd u64Max lba 1)
    parseSectors firstUsableLba lastUsableLba total sectors (Crc32.update crc entrySector)
      entryBytes lba partitions

/-- `GptTable::parse`. -/
def GptTable.parse : Guarded (Drive σ) BlockError GptTable := do
  refuse (d.sectorCount < 3) .invalidGeometry
  let header ← d.request gptHeaderLba
  validateHeader header.1 d.sectorCount
  let headerSize ← readU32 header.1 12
  let expectedHeaderCrc ← readU32 header.1 16
  let headerForCrc ← copyFromSlice header 16 20 [0, 0, 0, 0]
  let checked ← slice headerForCrc.1 0 headerSize
  refuse ((crc32 checked).toNat ≠ expectedHeaderCrc) .corruptMetadata
  let entryLba ← readU64 header.1 72
  let entryCount ← readU32 header.1 80
  let entrySize ← readU32 header.1 84
  let bytes ← okOr .capacity ((checkedMul u64Max entryCount entrySize).bind fun bytes =>
      checkedAdd u64Max bytes (sectorBytes - 1))
  let entrySectors := bytes / sectorBytes
  refuse (entryCount = 0 ∨ maximumGptPartitions < entryCount ∨ entrySize ≠ gptPartitionEntryBytes ∨
    (checkedAdd u64Max entryLba entrySectors).all (d.sectorCount < ·)) .unsupportedMetadata
  let firstUsableLba ← readU64 header.1 40
  let lastUsableLba ← readU64 header.1 48
  refuse (entryLba < 2 ∨ (checkedAdd u64Max entryLba entrySectors).all (firstUsableLba < ·))
    .corruptMetadata
  let expectedEntriesCrc ← readU32 header.1 88
  let total ← times entryCount entrySize
  let (crc, partitions) ←
    parseSectors d firstUsableLba lastUsableLba total entrySectors Crc32.new 0 entryLba []
  refuse ((Crc32.finish crc).toNat ≠ expectedEntriesCrc) .corruptMetadata
  refuse (overlapping partitions) .corruptMetadata
  let diskGuid ← slice header.1 56 72
  pure ⟨diskGuid, firstUsableLba, lastUsableLba, partitions⟩

end Parse

/-! ### Safety -/

section Safety

variable {I : σ → Prop} {raw : List UInt8}

theorem validateHeader_safe {header : List UInt8} {sectorCount : ℕ} (h : header.length = 512) :
    Safe I (validateHeader header sectorCount : Guarded σ BlockError Unit)
      fun _ => word 4 header 12 ≤ 512 := by
  have hword : ∀ width offset, offset + width ≤ 512 →
      Safe I (readWord width header offset : Guarded σ BlockError ℕ)
        (· = word width header offset) :=
    fun width offset hle => readWord_safe (by omega)
  rw [validateHeader]
  refine .bind (slice_safe (by omega) (by omega)) fun _ _ => ?_
  refine .refuse_then fun _ => ?_
  refine .bind (hword 4 8 (by omega)) fun _ _ => ?_
  refine .refuse_then fun _ => ?_
  refine .value_then (hword 4 12 (by omega)) ?_
  refine .refuse_then fun hsize => ?_
  refine .bind (hword 8 0x18 (by omega)) fun _ _ => ?_
  refine .refuse_then fun _ => ?_
  refine .bind (hword 8 0x20 (by omega)) fun _ _ => ?_
  refine .refuse_then fun _ => ?_
  refine .bind (hword 8 0x28 (by omega)) fun _ _ => ?_
  refine .bind (hword 8 0x30 (by omega)) fun _ _ => ?_
  refine .refuse_then fun _ => ?_
  refine .mono Safe.refuse fun _ _ => ?_
  exact (not_not.mp hsize).2

theorem partitionName_safe (h : raw.length = 128) (remaining unit : ℕ)
    (hle : unit + remaining ≤ 36) :
    Safe I (partitionName raw remaining unit : Guarded σ ε (List ℕ)) fun _ => True := by
  induction remaining generalizing unit with
  | zero => exact .pure trivial
  | succ remaining ih =>
    rw [partitionName]
    refine .bind (byteAt_safe (by omega)) fun low _ => ?_
    refine .bind (byteAt_safe (by omega)) fun high _ => ?_
    refine .ite (fun _ => Safe.pure trivial) fun _ => ?_
    exact .bind (ih (unit + 1) (by omega)) fun _ _ => Safe.pure trivial

theorem parseEntry_safe {first last index : ℕ}
    {partitions : List GptPartition} (h : raw.length = 128) (hle : partitions.length ≤ 128) :
    Safe I (parseEntry first last index raw partitions :
      Guarded σ BlockError (List GptPartition)) fun after => after.length ≤ 128 := by
  rw [parseEntry]
  refine .bind (slice_safe (by omega) (by omega)) fun typeGuid _ => ?_
  refine .ite (fun _ => Safe.pure hle) fun _ => ?_
  refine .bind (readWord_safe (by omega)) fun firstLba _ => ?_
  refine .bind (readWord_safe (by omega)) fun lastLba _ => ?_
  refine .refuse_then fun _ => ?_
  refine .bind (slice_safe (by omega) (by omega)) fun uniqueGuid _ => ?_
  refine .bind (readWord_safe (by omega)) fun attributes _ => ?_
  refine .bind (partitionName_safe h _ _ (by decide)) fun name _ => ?_
  refine .refuse_then fun hne => ?_
  -- the check for equality is enough because the number never exceeds the bound
  have hlt : partitions.length < maximumGptPartitions := Nat.lt_of_le_of_ne hle hne
  rw [if_pos hlt]
  apply Safe.pure
  rw [length_append]
  exact hlt

theorem parseEntries_safe {firstUsable lastUsable first : ℕ} (raws : List (List UInt8))
    (offset : ℕ) (partitions : List GptPartition) (hraws : ∀ raw ∈ raws, raw.length = 128)
    (hle : partitions.length ≤ 128) (hidx : first + offset + raws.length ≤ u64Max) :
    Safe I (parseEntries firstUsable lastUsable first offset raws partitions :
      Guarded σ BlockError (List GptPartition)) fun after => after.length ≤ 128 := by
  induction raws generalizing offset partitions with
  | nil => exact .pure hle
  | cons raw rest ih =>
    rw [length_cons] at hidx
    rw [parseEntries]
    refine .bind (plus_safe (by omega)) fun index _ => ?_
    refine .bind (parseEntry_safe (hraws raw mem_cons_self) hle) ?_
    intro after hafter
    exact ih (offset + 1) after (fun raw hraw => hraws raw (mem_cons_of_mem _ hraw))
      hafter (by omega)

theorem length_of_mem_chunksExact {size : ℕ} {bytes chunk : List UInt8} (hsize : 0 < size)
    (h : chunk ∈ chunksExact size bytes) : chunk.length = size := by
  rw [chunksExact, mem_map] at h
  obtain ⟨i, hi, rfl⟩ := h
  have hle : size * (i + 1) ≤ bytes.length :=
    (Nat.mul_le_mul_left size (mem_range.mp hi)).trans (Nat.mul_div_le _ _)
  rw [Nat.mul_succ] at hle
  rw [length_take, length_drop]
  omega

end Safety

variable {d : BlockDevice σ}

theorem parseSectors_safe {firstUsable lastUsable total : ℕ} (htotal : total ≤ 2 ^ 32)
    (sectors : ℕ) (crc : BitVec 32) (entryBytes lba : ℕ) (partitions : List GptPartition)
    (hbytes : entryBytes ≤ total) (hlba : lba + sectors ≤ d.sectorCount)
    (hle : partitions.length ≤ 128) :
    Safe d.InRange
      (parseSectors d firstUsable lastUsable total sectors crc entryBytes lba partitions)
      fun _ => True := by
  induction sectors generalizing crc entryBytes lba partitions with
  | zero => exact .pure trivial
  | succ sectors ih =>
    rw [parseSectors]
    refine .bind (BlockDevice.request_safe (by omega)) fun sector _ => ?_
    refine .value_then (minus_safe hbytes) ?_
    generalize hm : min (total - entryBytes) sectorBytes = copied
    have hcopied : copied ≤ total - entryBytes ∧ copied ≤ 512 := by
      rw [← hm]
      exact ⟨Nat.min_le_left _ _, Nat.min_le_right _ _⟩
    refine .bind (slice_safe (by omega) (by omega)) fun entrySector hlen => ?_
    have hcnt : (chunksExact gptPartitionEntryBytes entrySector).length ≤ 512 := by
      rw [chunksExact, length_map, length_range]
      exact (Nat.div_le_self _ _).trans (by omega)
    have hidx : entryBytes / gptPartitionEntryBytes ≤ 2 ^ 32 :=
      (Nat.div_le_self _ _).trans (by omega)
    refine .bind (parseEntries_safe _ _ _
      (fun _ => length_of_mem_chunksExact (by decide)) hle ?_) fun after hafter => ?_
    · simp only [u64Max]
      omega
    refine .value_then (plus_safe (by simp only [u64Max]; omega)) ?_
    refine .bind checkedAdd_safe ?_
    rintro _ ⟨-, rfl⟩
    exact ih _ _ _ _ (by omega) (by omega) hafter

/-- Reading the partition table of any device is safe. -/
theorem GptTable.parse_safe : Safe d.InRange (GptTable.parse d) fun _ => True := by
  rw [GptTable.parse]
  refine .refuse_then fun hcnt => ?_
  refine .bind (BlockDevice.request_safe ?_) fun header _ => ?_
  · simp only [gptHeaderLba]
    omega
  have hhdr : header.1.length = 512 := header.2
  have hword : ∀ width offset, offset + width ≤ 512 →
      Safe d.InRange (readWord width header.1 offset : Guarded (Drive σ) BlockError ℕ)
        (· = word width header.1 offset) :=
    fun width offset hle => readWord_safe (by omega)
  refine .bind (validateHeader_safe hhdr) fun _ hsize => ?_
  refine .value_then (hword 4 12 (by omega)) ?_
  refine .bind (hword 4 16 (by omega)) fun expectedHeaderCrc _ => ?_
  refine .bind (copyFromSlice_safe (by decide) (by decide) rfl) fun headerForCrc _ => ?_
  refine .bind (slice_safe (by omega) (by omega)) fun checked _ => ?_
  refine .refuse_then fun _ => ?_
  refine .bind (hword 8 72 (by omega)) fun entryLba _ => ?_
  refine .bind (hword 4 80 (by omega)) fun entryCount _ => ?_
  refine .bind (hword 4 84 (by omega)) fun entrySize _ => ?_
  refine .bind (P := fun _ => True) (Safe.okOr fun _ _ => trivial) fun bytes _ => ?_
  refine .refuse_then fun hshape => ?_
  simp only [not_or, ne_eq, not_not] at hshape
  obtain ⟨-, hents, hsize, hend⟩ := hshape
  refine .bind (hword 8 40 (by omega)) fun firstUsable _ => ?_
  refine .bind (hword 8 48 (by omega)) fun lastUsable _ => ?_
  refine .refuse_then fun _ => ?_
  refine .bind (hword 4 88 (by omega)) fun expectedEntriesCrc _ => ?_
  simp only [maximumGptPartitions, gptPartitionEntryBytes] at hents hsize
  subst hsize
  refine .value_then (times_safe (by simp only [u64Max]; omega)) ?_
  -- the array of entries ends on the device
  have hlba : entryLba + bytes / sectorBytes ≤ d.sectorCount := by
    cases hsum : checkedAdd u64Max entryLba (bytes / sectorBytes) with
    | none => simp [hsum] at hend
    | some =>
      rw [hsum] at hend
      rw [← (checkedAdd_eq_some.mp hsum).2]
      simpa using hend
  refine .bind (parseSectors_safe (by omega) _ _ _ _ _ (by omega) hlba (by simp)) ?_
  rintro ⟨crc, partitions⟩ -
  refine .refuse_then fun _ => ?_
  refine .refuse_then fun _ => ?_
  refine .bind (slice_safe (by omega) (by omega)) fun diskGuid _ => ?_
  exact .pure trivial

end ArachKernel.Storage
