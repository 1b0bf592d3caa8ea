import ArachKernel.Storage.Device

/-!
Load plans of ELF images (`module/loader.rs`): the header and the program headers of an
image are checked, and each loadable one becomes a segment of the plan. A shared object
is moved to a fixed base.

An index outside a slice is a panic. `usize` has 64 bits, so the conversions from `u64`
always succeed.
-/

namespace ArachKernel.Loader

open Guarded
open Storage (word byteAt slice minus plus times checkedMul checkedSub)

def elfHeaderLength : ℕ := 64
def programHeaderLength : ℕ := 56
def elfTypeExecutable : ℕ := 2
def elfTypeSharedObject : ℕ := 3
def machineX86 : ℕ := 62
def segmentLoad : ℕ := 1
def segmentExecutable : ℕ := 1
def segmentWritable : ℕ := 2
def segmentReadable : ℕ := 4
def segmentFlags : ℕ := 7
def segmentInterpreter : ℕ := 3
def maximumLoadSegments : ℕ := 16
def maximumInterpreterPathBytes : ℕ := 255
def positionIndependentLoadBase : ℕ := 0x10000000
def pageSize : ℕ := 0x1000

structure LoadSegment where
  fileOffset : ℕ
  fileSize : ℕ
  virtualAddress : ℕ
  memorySize : ℕ
  alignment : ℕ
  readable : Bool
  writable : Bool
  executable : Bool
  deriving DecidableEq

namespace LoadSegment

def stop (segment : LoadSegment) : Option ℕ :=
  checkedAdd u64Max segment.virtualAddress segment.memorySize

def contains (segment : LoadSegment) (address : ℕ) : Bool :=
  decide (segment.virtualAddress ≤ address) && segment.stop.any fun stop => address < stop

end LoadSegment

structure LoadPlan where
  segments : List LoadSegment
  imageStart : ℕ
  imageEnd : ℕ
  entryPoint : ℕ
  loadBias : ℕ
  requiresRuntimeLinker : Bool
  positionIndependent : Bool
  programHeaderAddress : Option ℕ
  programHeaderCount : ℕ
  interpreterFileOffset : ℕ
  interpreterPathLength : ℕ
  deriving DecidableEq

inductive LoaderError
  | truncated
  | invalidMagic
  | unsupportedFormat
  | invalidHeader
  | invalidProgramHeaders
  | invalidSegment
  | writeExecuteSegment
  | overlappingSegments
  | tooManySegments
  | missingLoadSegment
  | invalidEntryPoint
  | invalidImageBias
  | invalidInterpreter
  | duplicateInterpreter
  | invalidRuntimeLinker
  deriving DecidableEq

/-- Computations that may fail or panic. -/
abbrev LoaderM (α : Type) := Guarded Unit LoaderError α

/-! ### Reading -/

variable (bytes : List UInt8)

/-- `bytes.get(start..stop)`. -/
def getRange (start stop : ℕ) : Option (List UInt8) :=
  if start ≤ stop ∧ stop ≤ bytes.length then some ((bytes.drop start).take (stop - start))
  else none

/-- The reads of little-endian words. -/
def readWord (width : ℕ) (bytes : List UInt8) (offset : ℕ) : Option ℕ :=
  if offset + width ≤ bytes.length then some (word width bytes offset) else none

def readU16 : List UInt8 → ℕ → Option ℕ := readWord 2
def readU32 : List UInt8 → ℕ → Option ℕ := readWord 4
def readU64 : List UInt8 → ℕ → Option ℕ := readWord 8

def alignDown (address : ℕ) : ℕ := address - address % pageSize

def isPowerOfTwo (n : ℕ) : Bool := n ≠ 0 ∧ 2 ^ n.log2 = n

def isCanonicalAbsolutePath : List UInt8 → Bool
  | [] => false
  | first :: rest =>
    if first ≠ 0x2f ∨ 0 ∈ first :: rest ∨ ¬ ByteArray.IsValidUTF8 ⟨(first :: rest).toArray⟩ then
      false
    else if rest = [] then true
    else if rest.getLast? = some 0x2f then false
    else (rest.splitOn 0x2f).all fun component =>
      component ≠ [] ∧ component ≠ [0x2e] ∧ component ≠ [0x2e, 0x2e]

def validateHeader : LoaderM Unit := do
  refuse (bytes.length < elfHeaderLength) .truncated
  refuse (getRange bytes 0 4 ≠ some [0x7f, 0x45, 0x4c, 0x46]) .invalidMagic
  let imageType := readU16 bytes 16
  let elfClass ← byteAt bytes 4
  let data ← byteAt bytes 5
  let version ← byteAt bytes 6
  refuse (elfClass ≠ 2 ∨ data ≠ 1 ∨ version ≠ 1 ∨
    (imageType ≠ some elfTypeExecutable ∧ imageType ≠ some elfTypeSharedObject) ∨
    readU16 bytes 18 ≠ some machineX86 ∨ readU32 bytes 20 ≠ some 1) .unsupportedFormat
  refuse (readU16 bytes 52 ≠ some elfHeaderLength) .invalidHeader

/-! ### Program headers -/

/-- A `PT_INTERP` header. -/
def readInterpreter (bytes header : List UInt8) (plan : LoadPlan) : LoaderM LoadPlan := do
  refuse plan.requiresRuntimeLinker .duplicateInterpreter
  let fileOffset ← okOr .invalidInterpreter (readU64 header 8)
  let fileSize ← okOr .invalidInterpreter (readU64 header 32)
  let memorySize ← okOr .invalidInterpreter (readU64 header 40)
  let fileEnd ← okOr .invalidInterpreter (checkedAdd u64Max fileOffset fileSize)
  let path ← okOr .invalidInterpreter (getRange bytes fileOffset fileEnd)
  refuse (fileSize < 2 ∨ maximumInterpreterPathBytes + 1 < fileSize ∨ memorySize ≠ fileSize ∨
    path.getLast? ≠ some 0) .invalidInterpreter
  let length ← minus path.length 1
  let name ← slice path 0 length
  refuse (isCanonicalAbsolutePath name = false) .invalidInterpreter
  let pathLength ← minus fileSize 1
  pure { plan with
    requiresRuntimeLinker := true
    interpreterFileOffset := fileOffset
    interpreterPathLength := pathLength }

/-- A `PT_LOAD` header; one with nothing to load gives no segment. -/
def readSegment (bytes header : List UInt8) : LoaderM (Option LoadSegment) := do
  let flags ← okOr .invalidSegment (readU32 header 4)
  let fileOffset ← okOr .invalidSegment (readU64 header 8)
  let virtualAddress ← okOr .invalidSegment (readU64 header 16)
  let fileSize ← okOr .invalidSegment (readU64 header 32)
  let memorySize ← okOr .invalidSegment (readU64 header 40)
  let alignment ← okOr .invalidSegment (readU64 header 48)
  if memorySize = 0 then pure none
  else do
    refuse (flags &&& (u32Max - segmentFlags) ≠ 0 ∨
      flags &&& (segmentWritable ||| segmentExecutable) = segmentWritable ||| segmentExecutable)
      .writeExecuteSegment
    refuse (memorySize < fileSize ∨ (1 < alignment ∧ isPowerOfTwo alignment = false) ∨
      (1 < alignment ∧ fileOffset % alignment ≠ virtualAddress % alignment)) .invalidSegment
    refuse ((checkedAdd u64Max fileOffset fileSize).all (fun stop => bytes.length < stop) ∨
      checkedAdd u64Max virtualAddress memorySize = none) .invalidSegment
    pure (some ⟨fileOffset, fileSize, virtualAddress, memorySize, alignment,
      flags &&& segmentReadable ≠ 0, flags &&& segmentWritable ≠ 0,
      flags &&& segmentExecutable ≠ 0⟩)

/-- Add a segment to the plan. -/
def LoadPlan.push (plan : LoadPlan) (segment : LoadSegment) : LoaderM LoadPlan := do
  refuse (maximumLoadSegments ≤ plan.segments.length) .tooManySegments
  let stop ← okOr .invalidSegment segment.stop
  pure { plan with
    segments := plan.segments ++ [segment]
    imageStart := min plan.imageStart segment.virtualAddress
    imageEnd := max plan.imageEnd stop }

/-- The body of the loop over the program headers. -/
def readProgramHeader (bytes header : List UInt8) (plan : LoadPlan) : LoaderM LoadPlan := do
  let segmentType ← okOr .invalidProgramHeaders (readU32 header 0)
  let plan ← (if segmentType = segmentInterpreter then readInterpreter bytes header plan
    else pure plan)
  if segmentType ≠ segmentLoad then pure plan
  else do
    match ← readSegment bytes header with
    | none => pure plan
    | some segment => plan.push segment

/-- The loop over the program headers from an index on. -/
def readProgramHeaders (bytes : List UInt8) (programHeaderOffset : ℕ) :
    ℕ → ℕ → LoadPlan → LoaderM LoadPlan
  | 0, _, plan => pure plan
  | remaining + 1, index, plan => do
    let position ← times index programHeaderLength
    let offset ← plus programHeaderOffset position
    let stop ← plus offset programHeaderLength
    let header ← slice bytes offset stop
    let plan ← readProgramHeader bytes header plan
    readProgramHeaders bytes programHeaderOffset remaining (index + 1) plan

/-! ### Plans -/

/-- Move the segments by the bias. -/
def moveSegments (loadBias : ℕ) : List LoadSegment → LoaderM (List LoadSegment)
  | [] => pure []
  | segment :: rest => do
    let virtualAddress ← okOr .invalidImageBias (checkedAdd u64Max segment.virtualAddress loadBias)
    let rest ← moveSegments loadBias rest
    pure ({ segment with virtualAddress } :: rest)

/-- Move a position-independent plan to its base. -/
def LoadPlan.move (plan : LoadPlan) (positionIndependentBase : ℕ) : LoaderM LoadPlan := do
  let loadBias ← okOr .invalidImageBias
    (checkedSub positionIndependentBase (alignDown plan.imageStart))
  let segments ← moveSegments loadBias plan.segments
  let imageStart ← okOr .invalidImageBias (checkedAdd u64Max plan.imageStart loadBias)
  let imageEnd ← okOr .invalidImageBias (checkedAdd u64Max plan.imageEnd loadBias)
  let entryPoint ← okOr .invalidImageBias (checkedAdd u64Max plan.entryPoint loadBias)
  pure { plan with segments, imageStart, imageEnd, entryPoint, loadBias }

/-- Where a segment puts the program headers, if it holds them all. -/
def LoadSegment.programHeaders (segment : LoadSegment) (offset stop : ℕ) : Option ℕ :=
  (checkedAdd u64Max segment.fileOffset segment.fileSize).bind fun segmentFileEnd =>
    if segment.fileOffset ≤ offset ∧ stop ≤ segmentFileEnd then
      checkedAdd u64Max segment.virtualAddress (offset - segment.fileOffset)
    else none

def parseWithPositionIndependentBase (positionIndependentBase : ℕ) : LoaderM LoadPlan := do
  validateHeader bytes
  refuse (positionIndependentBase % pageSize ≠ 0) .invalidImageBias
  let programHeaderOffset ← okOr .truncated (readU64 bytes 32)
  let programHeaderSize ← okOr .truncated (readU16 bytes 54)
  let programHeaderCount ← okOr .truncated (readU16 bytes 56)
  refuse (programHeaderSize ≠ programHeaderLength ∨ programHeaderCount = 0) .invalidProgramHeaders
  let tableSize ← okOr .invalidProgramHeaders
    (checkedMul u64Max programHeaderCount programHeaderSize)
  refuse ((checkedAdd u64Max programHeaderOffset tableSize).all fun stop => bytes.length < stop)
    .invalidProgramHeaders
  let imageType ← okOr .truncated (readU16 bytes 16)
  let entryPoint ← okOr .truncated (readU64 bytes 24)
  let plan ← readProgramHeaders bytes programHeaderOffset programHeaderCount 0
    ⟨[], u64Max, 0, entryPoint, 0, false, imageType = elfTypeSharedObject, none,
      programHeaderCount, 0, 0⟩
  refuse (plan.segments = []) .missingLoadSegment
  refuse ((plan.segments.any fun segment =>
    segment.executable && segment.contains plan.entryPoint) = false) .invalidEntryPoint
  let plan ← (if plan.positionIndependent then plan.move positionIndependentBase else pure plan)
  let programHeaderEnd ← okOr .invalidProgramHeaders
    (checkedAdd u64Max programHeaderOffset tableSize)
  pure { plan with
    programHeaderAddress := plan.segments.findSome? fun segment =>
      segment.programHeaders programHeaderOffset programHeaderEnd }

def parse : LoaderM LoadPlan :=
  parseWithPositionIndependentBase bytes positionIndependentLoadBase

end ArachKernel.Loader
