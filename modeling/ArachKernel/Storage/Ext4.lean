import ArachKernel.Storage.Device

/-!
The read-only ext4 reader (`Ext4ReadOnly` in `storage.rs`): the checks on the
superblock, inodes and their block maps, directories, and paths with symbolic
links.

The reader works in eight scratch blocks, which keep their contents from one call
to the next. Loops are given as many steps as they can need; running out of steps
is a panic like any other, so that safety includes termination.
-/

namespace ArachKernel.Storage

open Guarded Function

variable {σ ε : Type}

def ext4SuperblockOffset : ℕ := 1024
def ext4SuperblockBytes : ℕ := 256
def ext4Magic : ℕ := 0xef53
def ext4ExtentsFlag : Flags := 0x00080000#32
def ext4IncompatFiletype : Flags := 0x0002#32
def ext4IncompatExtents : Flags := 0x0040#32
def ext4Incompat64bit : Flags := 0x0080#32
def ext4IncompatFlexBg : Flags := 0x0200#32
def ext4IncompatReserved : Flags :=
  ext4IncompatFiletype ||| ext4IncompatExtents ||| ext4Incompat64bit ||| ext4IncompatFlexBg
def ext4RoCompatGdtCsum : Flags := 0x0010#32
def ext4RoCompatMetadataCsum : Flags := 0x0400#32
def ext4RoCompatBigalloc : Flags := 0x0200#32
def ext4RoCompatQuota : Flags := 0x0100#32
def ext4RoCompatSharedBlocks : Flags := 0x4000#32
def ext4RoCompatVerity : Flags := 0x8000#32
def ext4RoCompatOrphanPresent : Flags := 0x10000#32
def ext4ExtentHeaderMagic : ℕ := 0xf30a
def ext4ExtentUnwritten : ℕ := 0x8000
def ext4ExtentEntryBytes : ℕ := 12
def ext4MaximumBlockSize : ℕ := 4096
def ext4MaximumExtentDepth : ℕ := 5
def ext4RootInode : ℕ := 2
def ext4MaximumPathBytes : ℕ := 4096
def ext4MaximumSymlinkDepth : ℕ := 8
def ext4ScratchBlocks : ℕ := ext4MaximumExtentDepth + 3

/-- The features whose presence makes the reader refuse a volume. -/
def ext4RoCompatRefused : Flags :=
  ext4RoCompatGdtCsum ||| ext4RoCompatMetadataCsum ||| ext4RoCompatBigalloc |||
    ext4RoCompatQuota ||| ext4RoCompatSharedBlocks ||| ext4RoCompatVerity |||
    ext4RoCompatOrphanPresent

inductive Ext4NodeKind
  | file
  | directory
  | symlink
  | other
  deriving DecidableEq

structure Ext4Metadata where
  inode : ℕ
  sizeBytes : ℕ
  kind : Ext4NodeKind

structure Ext4Inode where
  number : ℕ
  mode : ℕ
  flags : Flags
  sizeBytes : ℕ
  blockMap : Buffer 60

def Ext4Inode.kind (inode : Ext4Inode) : Ext4NodeKind :=
  match inode.mode &&& 0xf000 with
  | 0x4000 => .directory
  | 0x8000 => .file
  | 0xa000 => .symlink
  | _ => .other

def Ext4Inode.metadata (inode : Ext4Inode) : Ext4Metadata :=
  ⟨inode.number, inode.sizeBytes, inode.kind⟩

structure Ext4ReadOnly where
  blockSize : ℕ
  blocksCount : ℕ
  blocksPerGroup : ℕ
  inodesCount : ℕ
  inodesPerGroup : ℕ
  inodeSize : ℕ
  groupCount : ℕ
  groupDescriptorSize : ℕ
  groupDescriptorStart : ℕ
  firstDataBlock : ℕ
  featureIncompat : Flags

/-! ### Scratch blocks -/

abbrev Ext4Scratch := Fin ext4ScratchBlocks → Buffer ext4MaximumBlockSize

/-- Computations of the reader: on the device and the scratch blocks. -/
abbrev Ext4 (σ α : Type) := Guarded (Drive σ × Ext4Scratch) Ext4Error α

/-- A computation on the device alone. -/
def onDrive {α : Type} (m : Guarded (Drive σ) Ext4Error α) : Ext4 σ α :=
  zoom Prod.fst (fun drive s => (drive, s.2)) id m

/-- `scratch.block(index)?`. -/
def scratchSlot (index : ℕ) : Ext4 σ (Fin ext4ScratchBlocks) :=
  if h : index < ext4ScratchBlocks then pure ⟨index, h⟩ else fail .capacity

/-- The bytes of a scratch block. -/
def scratchBytes (slot : Fin ext4ScratchBlocks) : Ext4 σ (Buffer ext4MaximumBlockSize) :=
  read fun s => s.2 slot

def scratchStore (slot : Fin ext4ScratchBlocks) (block : Buffer ext4MaximumBlockSize) :
    Ext4 σ Unit :=
  modify fun s => (s.1, update s.2 slot block)

/-- The first `n` bytes of a buffer. -/
def Buffer.front {m : ℕ} (buffer : Buffer m) {n : ℕ} (h : n ≤ m) : Buffer n :=
  ⟨buffer.1.take n, by rw [List.length_take, buffer.2, Nat.min_eq_left h]⟩

/-- Replace the first bytes of a buffer. -/
def Buffer.putFront {m n : ℕ} (buffer : Buffer m) (front : Buffer n) (h : n ≤ m) : Buffer m :=
  buffer.overwrite 0 front.1 (by rw [front.2]; omega)

/-- `block[..size].fill(0)`. -/
def fillZero (slot : Fin ext4ScratchBlocks) (size : ℕ) : Ext4 σ Unit :=
  if h : size ≤ ext4MaximumBlockSize then
    modify fun s => (s.1, update s.2 slot ((s.2 slot).putFront (Buffer.zero size) h))
  else panic

namespace Ext4ReadOnly

variable (d : BlockDevice σ) (fs : Ext4ReadOnly)

/-- `read_block`, into a scratch block. -/
def readBlock (block : ℕ) (slot : Fin ext4ScratchBlocks) : Ext4 σ Unit := do
  refuse (fs.blocksCount ≤ block) .corruptMetadata
  let offset ← okOr .capacity (checkedMul u64Max block fs.blockSize)
  fillZero slot fs.blockSize
  if h : fs.blockSize ≤ ext4MaximumBlockSize then
    zoom (fun s => (s.1, (s.2 slot).front h))
      (fun t s => (t.1, update s.2 slot ((s.2 slot).putFront t.2 h))) id
      (readBytes d offset)
  else panic

/-- Read a block into a zeroed scratch block, which stays zero for a hole. -/
def loadBlock (physical : Option ℕ) (slot : Fin ext4ScratchBlocks) : Ext4 σ Unit := do
  fillZero slot fs.blockSize
  match physical with
  | some physical => readBlock d fs physical slot
  | none => pure ()

/-! ### Extents -/

/-- The body of the loop over the extents of a leaf: what to return if the extent covers
the block, `none` to go on. -/
def mapExtent (logical first rawLength physicalHigh physicalLow : ℕ) :
    Guarded σ Ext4Error (Option (Option ℕ)) := do
  let length := rawLength &&& 0x7fff
  refuse (length = 0) .corruptMetadata
  let stop ← okOr .capacity (checkedAdd u64Max first length)
  if first ≤ logical ∧ logical < stop then
    if rawLength &&& ext4ExtentUnwritten ≠ 0 then pure (some none)
    else do
      let inside ← minus logical first
      let physical ← okOr .capacity
        (checkedAdd u64Max ((physicalHigh <<< 32) ||| physicalLow) inside)
      refuse (fs.blocksCount ≤ physical) .corruptMetadata
      pure (some (some physical))
  else pure none

/-- The loop of `map_extent_node` over the extents of a leaf. -/
def mapExtents (logical slotIndex : ℕ) : ℕ → ℕ → Ext4 σ (Option ℕ)
  | 0, _ => pure none
  | remaining + 1, index => do
    let step ← times index ext4ExtentEntryBytes
    let offset ← plus 12 step
    let slot ← scratchSlot slotIndex
    let node ← scratchBytes slot
    let first ← readU32 node.1 offset
    let rawLength ← readU16 node.1 (offset + 4)
    let physicalHigh ← readU16 node.1 (offset + 6)
    let physicalLow ← readU32 node.1 (offset + 8)
    match ← mapExtent fs logical first rawLength physicalHigh physicalLow with
    | some found => pure found
    | none => mapExtents logical slotIndex remaining (index + 1)

/-- The loop of `map_extent_node` that selects the last index entry not above the
block. -/
def selectChild (node : List UInt8) (logical : ℕ) : ℕ → ℕ → Option ℕ → Guarded σ ε (Option ℕ)
  | 0, _, selected => pure selected
  | remaining + 1, index, selected => do
    let step ← times index ext4ExtentEntryBytes
    let offset ← plus 12 step
    let first ← readU32 node offset
    if first ≤ logical then selectChild node logical remaining (index + 1) (some offset)
    else pure selected

/-- The checks of `map_extent_node` on the header of the node in a scratch block: the
node, the number of its entries and its depth. -/
def extentHeader (level slotIndex : ℕ) : Ext4 σ (Buffer ext4MaximumBlockSize × ℕ × ℕ) := do
  let slot ← scratchSlot slotIndex
  let node ← scratchBytes slot
  let magic ← readU16 node.1 0
  refuse (magic ≠ ext4ExtentHeaderMagic ∨ ext4MaximumExtentDepth < level) .corruptMetadata
  let entries ← readU16 node.1 2
  let maximum ← readU16 node.1 4
  let depth ← readU16 node.1 6
  refuse (entries = 0 ∨ maximum < entries ∨ (ext4MaximumBlockSize - 12) / 12 < entries)
    .corruptMetadata
  pure (node, entries, depth)

/-- `map_extent_node`. The fuel bounds the recursion. -/
def mapExtentNode (logical : ℕ) : ℕ → ℕ → ℕ → Ext4 σ (Option ℕ)
  | 0, _, _ => panic
  | fuel + 1, level, slotIndex => do
    let (node, entries, depth) ← extentHeader level slotIndex
    if depth = 0 then mapExtents fs logical slotIndex entries 0
    else do
      let next ← plus level 1
      refuse (depth ≠ next) .corruptMetadata
      match ← selectChild node.1 logical entries 0 none with
      | none => pure none
      | some offset => do
        let childSlot ← okOr .capacity (checkedAdd u64Max slotIndex 1)
        let high ← readU16 node.1 (offset + 8)
        let low ← readU32 node.1 (offset + 4)
        let child := (high <<< 32) ||| low
        let target ← scratchSlot childSlot
        readBlock d fs child target
        mapExtentNode logical fuel next childSlot

/-- `map_block`: the physical block of a logical one, `none` for a hole. -/
def mapBlock (inode : Ext4Inode) (logical slotIndex : ℕ) : Ext4 σ (Option ℕ) :=
  if inode.flags &&& ext4ExtentsFlag = 0 then
    if logical < 12 then do
      let index ← times logical 4
      let block ← readU32 inode.blockMap.1 index
      pure (if block ≠ 0 then some block else none)
    else fail .unsupportedFeature
  else do
    let slot ← scratchSlot slotIndex
    let block ← scratchBytes slot
    let block ← copyFromSlice block 0 60 inode.blockMap.1
    scratchStore slot block
    mapExtentNode d fs logical (ext4MaximumExtentDepth + 2) 0 slotIndex

/-! ### Inodes -/

/-- `group_descriptor`: the first block of a group's inode table. -/
def groupDescriptor (group : ℕ) : Ext4 σ ℕ := do
  let descriptorOffset ← okOr .capacity (checkedMul u64Max group fs.groupDescriptorSize)
  let skipped ← divide descriptorOffset fs.blockSize
  let block ← okOr .capacity (checkedAdd u64Max fs.groupDescriptorStart skipped)
  let offset ← remainder descriptorOffset fs.blockSize
  let slot ← scratchSlot 1
  readBlock d fs block slot
  refuse ((checkedAdd u64Max offset fs.groupDescriptorSize).all (fs.blockSize < ·)) .corruptMetadata
  let bytes ← scratchBytes slot
  let raw ← slice bytes.1 offset (offset + fs.groupDescriptorSize)
  let low ← readU32 raw 8
  let high ← (if 64 ≤ fs.groupDescriptorSize then readU32 raw 40 else pure 0)
  let inodeTable := low ||| (high <<< 32)
  refuse (inodeTable < fs.firstDataBlock ∨ fs.blocksCount ≤ inodeTable) .corruptMetadata
  pure inodeTable

/-- `read_inode`. -/
def readInode (inodeNumber : ℕ) : Ext4 σ Ext4Inode := do
  refuse (inodeNumber = 0 ∨ fs.inodesCount < inodeNumber) .notFound
  let zeroBased ← minus inodeNumber 1
  let group ← divide zeroBased fs.inodesPerGroup
  let index ← remainder zeroBased fs.inodesPerGroup
  refuse (fs.groupCount ≤ group) .corruptMetadata
  let descriptor ← groupDescriptor d fs group
  let byteOffset ← okOr .capacity (checkedMul u64Max index fs.inodeSize)
  let skipped ← divide byteOffset fs.blockSize
  let block ← okOr .capacity (checkedAdd u64Max descriptor skipped)
  let offset ← remainder byteOffset fs.blockSize
  let slot ← scratchSlot 0
  readBlock d fs block slot
  refuse ((checkedAdd u64Max offset fs.inodeSize).all (fs.blockSize < ·)) .corruptMetadata
  let bytes ← scratchBytes slot
  let raw ← slice bytes.1 offset (offset + fs.inodeSize)
  let map ← slice raw 40 100
  let blockMap ← copyFromSlice (Buffer.zero 60) 0 60 map
  let sizeLo ← readU32 raw 4
  let sizeHi ← (if 112 ≤ fs.inodeSize then readU32 raw 108 else pure 0)
  let mode ← readU16 raw 0
  let flags ← readU32 raw 32
  pure ⟨inodeNumber, mode, BitVec.ofNat 32 flags, sizeLo ||| (sizeHi <<< 32), blockMap⟩

/-! ### Directories -/

/-- The loop over the records of a directory block: the inode of the wanted name, if
it is in this block. -/
def scanRecords (block wanted : List UInt8) : ℕ → ℕ → Guarded σ Ext4Error (Option ℕ)
  | 0, _ => panic
  | fuel + 1, offset =>
    if offset < fs.blockSize then do
      let room ← minus fs.blockSize offset
      refuse (room < 8) .corruptMetadata
      let inode ← readU32 block offset
      let recordLength ← readU16 block (offset + 4)
      let nameByte ← byteAt block (offset + 6)
      let nameLength := nameByte.toNat
      refuse (recordLength < 8) .corruptMetadata
      refuse (recordLength % 4 ≠ 0) .corruptMetadata
      refuse (room < recordLength) .corruptMetadata
      let nameRoom ← minus recordLength 8
      refuse (nameRoom < nameLength) .corruptMetadata
      let found ←
        (if inode ≠ 0 ∧ nameLength = wanted.length then do
          let name ← slice block (offset + 8) (offset + 8 + nameLength)
          pure (name == wanted)
        else pure false)
      if found then pure (some inode)
      else do
        let next ← plus offset recordLength
        scanRecords block wanted fuel next
    else pure none

/-- The loop of `find_directory_entry` over the blocks of the directory. -/
def findInBlocks (directory : Ext4Inode) (wanted : List UInt8) : ℕ → ℕ → Ext4 σ ℕ
  | 0, _ => panic
  | fuel + 1, blockNumber =>
    if (checkedMul u64Max blockNumber fs.blockSize).any (· < directory.sizeBytes) then do
      let physical ← mapBlock d fs directory blockNumber 2
      let slot ← scratchSlot 1
      loadBlock d fs physical slot
      let block ← scratchBytes slot
      match ← scanRecords fs block.1 wanted (fs.blockSize + 1) 0 with
      | some inode => pure inode
      | none => do
        let next ← plus blockNumber 1
        findInBlocks directory wanted fuel next
    else fail .notFound

/-- `find_directory_entry`. -/
def findDirectoryEntry (directory : Ext4Inode) (wanted : List UInt8) : Ext4 σ ℕ :=
  findInBlocks d fs directory wanted (directory.sizeBytes + 1) 0

/-! ### Contents -/

/-- The loop of `read_inode_contents`. -/
def readContentsLoop {n : ℕ} (inode : Ext4Inode) (offset requested : ℕ) :
    ℕ → ℕ → Buffer n → Ext4 σ (ℕ × Buffer n)
  | 0, _, _ => panic
  | fuel + 1, copied, output =>
    if copied < requested then do
      let absolute ← okOr .capacity (checkedAdd u64Max offset copied)
      let logical ← divide absolute fs.blockSize
      let within ← remainder absolute fs.blockSize
      let room ← minus fs.blockSize within
      let rest ← minus requested copied
      let take := min room rest
      let physical ← mapBlock d fs inode logical 1
      let slot ← scratchSlot 0
      loadBlock d fs physical slot
      let block ← scratchBytes slot
      let stop ← plus copied take
      let piece ← slice block.1 within (within + take)
      let output ← copyFromSlice output copied stop piece
      readContentsLoop inode offset requested fuel stop output
    else pure (copied, output)

/-- `read_inode_contents`: the number of bytes read, and the output buffer. -/
def readInodeContents {n : ℕ} (inode : Ext4Inode) (offset : ℕ) (output : Buffer n) :
    Ext4 σ (ℕ × Buffer n) := do
  refuse (inode.kind ≠ .file ∧ inode.kind ≠ .symlink) .notFile
  if inode.sizeBytes ≤ offset ∨ n = 0 then pure (0, output)
  else if inode.kind = .symlink ∧ inode.sizeBytes ≤ 60 then do
    let room ← minus inode.sizeBytes offset
    let requested := min n room
    let piece ← slice inode.blockMap.1 offset (offset + requested)
    let output ← copyFromSlice output 0 requested piece
    pure (requested, output)
  else do
    let remaining ← minus inode.sizeBytes offset
    let requested := min n remaining
    readContentsLoop d fs inode offset requested (requested + 1) 0 output

/-! ### Paths -/

def slash : UInt8 := 0x2f

def dot : UInt8 := 0x2e

variable (path : List UInt8)

/-- The position after the separators at `cursor`. -/
def skipSlashes (cursor : ℕ) : ℕ :=
  cursor + ((path.drop cursor).takeWhile (· == slash)).length

/-- `next_component`: the component at the cursor, and the cursor after it. -/
def nextComponent (cursor : ℕ) : Guarded σ Ext4Error (Option (List UInt8) × ℕ) := do
  let start := skipSlashes path cursor
  if start = path.length then pure (none, start)
  else do
    let stop := start + ((path.drop start).takeWhile (· != slash)).length
    let component ← slice path start stop
    refuse (component = [] ∨ 255 < component.length) .invalidPath
    pure (some component, stop)

/-- Drop bytes from the end until the path ends in a separator. -/
def dropComponent (output : List UInt8) : ℕ → Guarded σ ε ℕ
  | 0 => pure 0
  | length + 1 =>
    if 1 < length + 1 then do
      let last ← byteAt output length
      if last ≠ slash then dropComponent output length else pure (length + 1)
    else pure (length + 1)

/-- The loop of `normalize_path`. -/
def normalizeLoop (path : List UInt8) : ℕ → ℕ → Buffer ext4MaximumPathBytes → ℕ →
    Guarded σ Ext4Error (ℕ × Buffer ext4MaximumPathBytes)
  | 0, _, _, _ => panic
  | fuel + 1, cursor, output, outputLen => do
    match ← nextComponent path cursor with
    | (none, _) => pure (outputLen, output)
    | (some component, cursor) =>
      if component = [dot] then normalizeLoop path fuel cursor output outputLen
      else if component = [dot, dot] then
        if 1 < outputLen then do
          let outputLen ← minus outputLen 1
          let outputLen ← dropComponent output.1 outputLen
          normalizeLoop path fuel cursor output outputLen
        else normalizeLoop path fuel cursor output outputLen
      else do
        let separator := if 1 < outputLen then 1 else 0
        let stop ← okOr .capacity ((checkedAdd u64Max outputLen separator).bind
          fun value => checkedAdd u64Max value component.length)
        refuse (ext4MaximumPathBytes < stop) .capacity
        let start ← plus outputLen separator
        let output ←
          (if separator ≠ 0 then copyFromSlice output outputLen start [slash]
          else pure output)
        let output ← copyFromSlice output start stop component
        normalizeLoop path fuel cursor output stop

/-- `normalize_path`: the length of the normalized path, and the buffer holding it. -/
def normalizePath (output : Buffer ext4MaximumPathBytes) :
    Guarded σ Ext4Error (ℕ × Buffer ext4MaximumPathBytes) := do
  refuse (path.head? ≠ some slash) .invalidPath
  let output ← copyFromSlice output 0 1 [slash]
  normalizeLoop path (path.length + 1) 0 output 1

/-- The directory a relative link starts from, closed by a separator. -/
def linkParent (active : Buffer ext4MaximumPathBytes) (parentLen : ℕ) :
    Guarded σ Ext4Error (ℕ × Buffer ext4MaximumPathBytes) := do
  let parent ← slice active.1 0 parentLen
  let combined ← copyFromSlice (Buffer.zero ext4MaximumPathBytes) 0 parentLen parent
  let unclosed ←
    (if 1 < parentLen then do
      let last ← byteAt combined.1 (parentLen - 1)
      pure (last != slash)
    else pure false)
  if unclosed then do
    let combinedLen ← plus parentLen 1
    let combined ← copyFromSlice combined parentLen combinedLen [slash]
    pure (combinedLen, combined)
  else pure (parentLen, combined)

/-- The path of a symbolic link's target in place of the link, and what follows it. -/
def substituteLink (active : Buffer ext4MaximumPathBytes) (activeLen componentStart cursor : ℕ)
    (target : Buffer ext4MaximumPathBytes) (targetLen : ℕ) :
    Guarded σ Ext4Error (ℕ × Buffer ext4MaximumPathBytes) := do
  let parentLen := if componentStart ≤ 1 then 1 else componentStart - 1
  let suffix ← slice active.1 cursor activeLen
  let first ← byteAt target.1 0
  let (combinedLen, combined) ←
    (if first ≠ slash then linkParent active parentLen
    else pure (0, Buffer.zero ext4MaximumPathBytes))
  let targetEnd ← okOr .capacity (checkedAdd u64Max combinedLen targetLen)
  refuse (ext4MaximumPathBytes < targetEnd) .capacity
  let text ← slice target.1 0 targetLen
  let combined ← copyFromSlice combined combinedLen targetEnd text
  let suffixEnd ← okOr .capacity (checkedAdd u64Max targetEnd suffix.length)
  refuse (ext4MaximumPathBytes < suffixEnd) .capacity
  let combined ← copyFromSlice combined targetEnd suffixEnd suffix
  let path ← slice combined.1 0 suffixEnd
  normalizePath path active

/-- How a walk along a path ends: at an inode, or at a symbolic link with the path to
start again with. -/
inductive Walk
  | arrived (inode : Ext4Inode)
  | redirected (activeLen : ℕ) (active : Buffer ext4MaximumPathBytes)

/-- The inner loop of `lookup`. -/
def walk (active : Buffer ext4MaximumPathBytes) (activeLen : ℕ) : ℕ → ℕ → Ext4Inode → Ext4 σ Walk
  | 0, _, _ => panic
  | fuel + 1, before, inode => do
    let path ← slice active.1 0 activeLen
    match ← nextComponent path before with
    | (none, _) => pure (.arrived inode)
    | (some component, cursor) => do
      let rest ← slice active.1 before activeLen
      let componentStart ← plus before (rest.takeWhile (· == slash)).length
      if component = [dot] then walk active activeLen fuel cursor inode
      else do
        refuse (inode.kind ≠ .directory) .notDirectory
        let child ← findDirectoryEntry d fs inode component
        let inode ← readInode d fs child
        if inode.kind ≠ .symlink then walk active activeLen fuel cursor inode
        else do
          let (targetLen, target) ←
            readInodeContents d fs inode 0 (Buffer.zero ext4MaximumPathBytes)
          refuse (targetLen = 0) .invalidPath
          let (activeLen, active) ←
            substituteLink active activeLen componentStart cursor target targetLen
          pure (.redirected activeLen active)

/-- The outer loop of `lookup`, once for each link that may be followed. -/
def lookupLoop : ℕ → ℕ → Buffer ext4MaximumPathBytes → Ext4 σ Ext4Inode
  | 0, _, _ => fail .invalidPath
  | rounds + 1, activeLen, active => do
    let root ← readInode d fs ext4RootInode
    match ← walk d fs active activeLen (activeLen + 1) 0 root with
    | .arrived inode => pure inode
    | .redirected activeLen active => lookupLoop rounds activeLen active

/-- `lookup`. -/
def lookup : Ext4 σ Ext4Inode := do
  refuse (path.head? ≠ some slash ∨ ext4MaximumPathBytes < path.length) .invalidPath
  let active ← copyFromSlice (Buffer.zero ext4MaximumPathBytes) 0 path.length path
  lookupLoop d fs (ext4MaximumSymlinkDepth + 1) path.length active

/-- `metadata`. -/
def metadata : Ext4 σ Ext4Metadata := do
  let inode ← lookup d fs path
  pure inode.metadata

/-- `read_file`. -/
def readFile {n : ℕ} (offset : ℕ) (output : Buffer n) : Ext4 σ (ℕ × Buffer n) := do
  let inode ← lookup d fs path
  readInodeContents d fs inode offset output

/-! ### Mounting -/

def isPowerOfTwo (n : ℕ) : Bool := n ≠ 0 && n &&& (n - 1) = 0

/-- The superblock of the volume. -/
def readSuperblock : Guarded (Drive σ) Ext4Error (Buffer ext4SuperblockBytes) :=
  withLocal (Buffer.zero ext4SuperblockBytes) (readBytes d ext4SuperblockOffset)

/-- The part of `probe` before the number of blocks: magic number, block size and
feature sets. -/
def probeFeatures (superblock : List UInt8) : Guarded σ Ext4Error (ℕ × Flags) := do
  let magic ← readU16 superblock 0x38
  refuse (magic ≠ ext4Magic) .corruptMetadata
  let logBlockSize ← readU32 superblock 0x18
  refuse (2 < logBlockSize) .unsupportedFeature
  let blockSize := 1024 <<< logBlockSize
  refuse (¬ (sectorBytes ≤ blockSize ∧ blockSize ≤ ext4MaximumBlockSize) ∨
    blockSize % sectorBytes ≠ 0) .unsupportedFeature
  let featureIncompat ← readU32 superblock 0x60
  refuse (BitVec.ofNat 32 featureIncompat &&& ~~~ext4IncompatReserved ≠ 0) .unsupportedFeature
  let featureRoCompat ← readU32 superblock 0x64
  refuse (BitVec.ofNat 32 featureRoCompat &&& ext4RoCompatRefused ≠ 0) .unsupportedFeature
  pure (blockSize, BitVec.ofNat 32 featureIncompat)

/-- The rest of the checks of `probe` on the superblock. -/
def probeGeometry (sectorCount : ℕ) (superblock : List UInt8) (blockSize : ℕ)
    (featureIncompat : Flags) : Guarded σ Ext4Error Ext4ReadOnly := do
  let blocksLo ← readU32 superblock 0x04
  let blocksHi ←
    (if featureIncompat &&& ext4Incompat64bit ≠ 0 then readU32 superblock 0x150 else pure 0)
  let blocksCount := blocksLo ||| (blocksHi <<< 32)
  let firstDataBlock ← readU32 superblock 0x14
  let blocksPerGroup ← readU32 superblock 0x20
  let inodesCount ← readU32 superblock 0x00
  let inodesPerGroup ← readU32 superblock 0x28
  let inodeSize ← readU16 superblock 0x58
  refuse (blocksCount = 0 ∨ inodesCount < ext4RootInode ∨ blocksPerGroup = 0 ∨
    inodesPerGroup = 0 ∨ isPowerOfTwo inodeSize = false ∨
    ¬ (128 ≤ inodeSize ∧ inodeSize ≤ 256)) .invalidGeometry
  let dataBlocks ← okOr .invalidGeometry (checkedSub blocksCount firstDataBlock)
  let round ← minus blocksPerGroup 1
  let rounded ← okOr .capacity (checkedAdd u64Max dataBlocks round)
  let groupCount ← divide rounded blocksPerGroup
  refuse (u32Max < groupCount) .capacity
  refuse (groupCount = 0) .invalidGeometry
  let descriptorSize ← readU16 superblock 0xfe
  refuse (descriptorSize ≠ 0 ∧
    ¬ ((32 ≤ descriptorSize ∧ descriptorSize ≤ 64) ∧ isPowerOfTwo descriptorSize))
    .unsupportedFeature
  let groupDescriptorSize := if descriptorSize = 0 then 32 else descriptorSize
  refuse (featureIncompat &&& ext4Incompat64bit ≠ 0 ∧ groupDescriptorSize < 64) .corruptMetadata
  let groupDescriptorStart := if blockSize = 1024 then 2 else 1
  let totalBytes ← okOr .capacity (checkedMul u64Max sectorCount sectorBytes)
  let filesystemBytes ← okOr .capacity (checkedMul u64Max blocksCount blockSize)
  refuse (totalBytes < filesystemBytes ∨ blocksCount ≤ firstDataBlock ∨
    blocksCount ≤ groupDescriptorStart) .invalidGeometry
  pure ⟨blockSize, blocksCount, blocksPerGroup, inodesCount, inodesPerGroup, inodeSize,
    groupCount, groupDescriptorSize, groupDescriptorStart, firstDataBlock, featureIncompat⟩

/-- `probe` once the superblock has been read. -/
def probeSuperblock (superblock : Buffer ext4SuperblockBytes) : Ext4 σ Ext4ReadOnly := do
  let (blockSize, featureIncompat) ← probeFeatures superblock.1
  let filesystem ← probeGeometry d.sectorCount superblock.1 blockSize featureIncompat
  let root ← readInode d filesystem ext4RootInode
  refuse (root.kind ≠ .directory) .corruptMetadata
  pure filesystem

/-- `Ext4ReadOnly::probe`. -/
def probe : Ext4 σ Ext4ReadOnly := do
  let superblock ← onDrive (readSuperblock d)
  probeSuperblock d superblock

end Ext4ReadOnly

end ArachKernel.Storage
