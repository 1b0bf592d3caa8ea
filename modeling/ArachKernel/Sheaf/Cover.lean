import ArachKernel.Lib.Guarded
import ArachKernel.Process.Context

/-!
The capability sheaf over a hardware cover. Every open carries a stalk of capability bits,
every overlap a linear restriction over GF(2) from each of its sides, and an owner's sections
glue when the restrictions agree on every overlap. Arrays with a count are lists here, and
`open` and `section`, which are keywords, are `openRecord` and `sectionOf`.
-/

namespace ArachKernel.Sheaf

open Process (Word)

def maxOpens : ℕ := 32
def maxOverlaps : ℕ := 64
def maxSections : ℕ := 96
def maxStalkBits : ℕ := 64
def maxGlobalBits : ℕ := 64

/-- `NONE`, the identifier of no open and of no overlap. -/
def none16 : ℕ := u16Max

inductive SheafError
  | capacity | unknownOpen | duplicateOpen | duplicateOverlap | invalidDimension
  | invalidLinearMap | globalDimension | staleEpoch | missingSection | zeroSecret
  deriving DecidableEq

def dimensionMask (dimension : ℕ) : Word :=
  if 64 ≤ dimension then BitVec.allOnes 64
  else if dimension = 0 then 0
  else (1 : Word) <<< dimension - 1

def mix (state word : Word) : Word :=
  let state := state ^^^ word * 0x9e3779b97f4a7c15
  let state := state ^^^ state >>> 30
  let state := state * 0xbf58476d1ce4e5b9
  let state := state ^^^ state >>> 27
  let state := state * 0x94d049bb133111eb
  state ^^^ state >>> 31

def countOnes (word : Word) : ℕ := word.cpop.toNat

structure BinaryLinearMap where
  inputDimension : ℕ
  outputDimension : ℕ
  rows : Vector Word maxStalkBits

namespace BinaryLinearMap

def validate (map : BinaryLinearMap) : Except SheafError Unit :=
  let inputMask := dimensionMask map.inputDimension
  if maxStalkBits < map.inputDimension ∨ maxStalkBits < map.outputDimension then
    .error .invalidDimension
  else if (map.rows.toList.take map.outputDimension).any (· &&& ~~~inputMask != 0) then
    .error .invalidLinearMap
  else if (map.rows.toList.drop map.outputDimension).any (· != 0) then .error .invalidLinearMap
  else .ok ()

def apply (map : BinaryLinearMap) (input : Word) : Except SheafError Word := do
  map.validate
  let input := input &&& dimensionMask map.inputDimension
  let parity (row : Word) : Word := .ofNat 64 (countOnes (row &&& input) % 2)
  return (map.rows.toList.take map.outputDimension).zipIdx.foldl
    (fun output entry => output ||| parity entry.1 <<< entry.2) 0

end BinaryLinearMap

structure SheafOpen where
  id : ℕ
  geometryKey : Word
  stalkDimension : ℕ
  flags : ℕ

structure SheafOverlap where
  id : ℕ
  left : ℕ
  right : ℕ
  stalkDimension : ℕ
  restrictLeft : BinaryLinearMap
  restrictRight : BinaryLinearMap
  geometryKey : Word

structure LocalSection where
  owner : Word
  openId : ℕ
  value : Word
  epoch : ℕ

def LocalSection.empty : LocalSection := ⟨0, none16, 0, 0⟩

structure GlueCertificate where
  owner : Word
  epoch : ℕ
  checkedOverlaps : ℕ := 0
  incompleteOverlaps : ℕ := 0
  nonzeroObstructions : ℕ := 0
  obstructionWeight : ℕ := 0
  firstFailure : ℕ := none16
  obstructionRoot : Word := 0
  globalSectionDimension : ℕ := 0
  root : Word := 0

namespace GlueCertificate

def glued (certificate : GlueCertificate) : Bool :=
  certificate.incompleteOverlaps == 0 && certificate.nonzeroObstructions == 0

/-- `certificate_root`. -/
def sealed (secret : Word) (certificate : GlueCertificate) : Word :=
  let word (count : ℕ) : Word := .ofNat 64 count
  let counts := word certificate.checkedOverlaps |||
    word certificate.incompleteOverlaps <<< 16 ||| word certificate.nonzeroObstructions <<< 32
  [word certificate.epoch, counts, word certificate.obstructionWeight,
    word certificate.firstFailure, certificate.obstructionRoot,
    word certificate.globalSectionDimension].foldl mix (mix secret certificate.owner)

def verify (certificate : GlueCertificate) (secret : Word) : Bool :=
  certificate.root == certificate.sealed secret

/-- The first overlap that does not glue is the one the certificate names. -/
def failAt (certificate : GlueCertificate) (overlap : SheafOverlap) : GlueCertificate :=
  if certificate.firstFailure = none16 then { certificate with firstFailure := overlap.id }
  else certificate

end GlueCertificate

structure CellularCapabilitySheaf where
  opens : List SheafOpen
  overlaps : List SheafOverlap
  sections : List LocalSection
  epoch : ℕ
  secret : Word

/-- One column of the elimination. Once every row is a pivot row there is no candidate left,
which is where the source leaves its loop. -/
def eliminate (state : List Word × ℕ) (column : ℕ) : List Word × ℕ :=
  let rank := state.2
  let marked (row : ℕ) : Bool := (state.1.getD row 0).getLsbD column
  match (List.range' rank (state.1.length - rank)).find? marked with
  | none => state
  | some pivot =>
    let pivotRow := state.1.getD pivot 0
    let swapped := (state.1.set pivot (state.1.getD rank 0)).set rank pivotRow
    (swapped.mapIdx fun row word =>
      if row ≠ rank ∧ word.getLsbD column then word ^^^ pivotRow else word, rank + 1)

def binaryRank (rows : List Word) (columnCount : ℕ) : ℕ :=
  ((List.range columnCount).foldl eliminate (rows, 0)).2

namespace CellularCapabilitySheaf

variable (sheaf : CellularCapabilitySheaf)

def new (secret : Word) : Except SheafError CellularCapabilitySheaf :=
  if secret = 0 then .error .zeroSecret else .ok ⟨[], [], [], 1, secret⟩

/-- `wrapping_add(1).max(1)`. -/
def nextEpoch : ℕ := max ((sheaf.epoch + 1) % 2 ^ 64) 1

def openRecord (id : ℕ) : Except SheafError SheafOpen :=
  match sheaf.opens[id]?.filter (·.id = id) with
  | some record => .ok record
  | none => .error .unknownOpen

variable (owner : Word) (openId : ℕ)

def sectionOf : Option LocalSection :=
  sheaf.sections.find? fun held => held.owner = owner ∧ held.openId = openId

def addOpen (geometryKey : Word) (stalkDimension flags : ℕ) :
    Except SheafError (CellularCapabilitySheaf × ℕ) :=
  let id := sheaf.opens.length
  if stalkDimension = 0 ∨ maxStalkBits < stalkDimension then .error .invalidDimension
  else if sheaf.opens.any (·.geometryKey = geometryKey) then .error .duplicateOpen
  else if maxOpens ≤ id then .error .capacity
  else .ok ({ sheaf with
    opens := sheaf.opens ++ [⟨id, geometryKey, stalkDimension, flags⟩]
    epoch := sheaf.nextEpoch }, id)

def addOverlap (left right : ℕ) (geometryKey : Word)
    (restrictLeft restrictRight : BinaryLinearMap) :
    Except SheafError (CellularCapabilitySheaf × ℕ) :=
  let id := sheaf.overlaps.length
  if left = right then .error .duplicateOverlap
  else do
    let leftOpen ← sheaf.openRecord left
    let rightOpen ← sheaf.openRecord right
    restrictLeft.validate
    restrictRight.validate
    if restrictLeft.inputDimension ≠ leftOpen.stalkDimension ∨
        restrictRight.inputDimension ≠ rightOpen.stalkDimension ∨
        restrictLeft.outputDimension ≠ restrictRight.outputDimension ∨
        restrictLeft.outputDimension = 0 then .error .invalidLinearMap
    else
      let mapLeft := if left < right then restrictLeft else restrictRight
      let mapRight := if left < right then restrictRight else restrictLeft
      let overlap : SheafOverlap := ⟨id, min left right, max left right,
        mapLeft.outputDimension, mapLeft, mapRight, geometryKey⟩
      if sheaf.overlaps.any (fun old => old.left = overlap.left ∧ old.right = overlap.right) then
        .error .duplicateOverlap
      else if maxOverlaps ≤ id then .error .capacity
      else .ok ({ sheaf with
        overlaps := sheaf.overlaps ++ [overlap]
        epoch := sheaf.nextEpoch }, id)

/-- The first section of the same owner on the same open takes the new value. -/
def replace (new : LocalSection) : List LocalSection → Option (List LocalSection)
  | [] => none
  | held :: rest =>
    if held.owner = new.owner ∧ held.openId = new.openId then some (new :: rest)
    else (replace new rest).map (held :: ·)

def install (value : Word) : Except SheafError (CellularCapabilitySheaf × Unit) := do
  let record ← sheaf.openRecord openId
  let new : LocalSection :=
    ⟨owner, openId, value &&& dimensionMask record.stalkDimension, sheaf.epoch⟩
  match replace new sheaf.sections with
  | some sections => .ok ({ sheaf with sections := sections }, ())
  | none =>
    if maxSections ≤ sheaf.sections.length then .error .capacity
    else .ok ({ sheaf with sections := sheaf.sections ++ [new] }, ())

/-- `revoke_owner`, with the pass of `compact_sections` over the cleared entries. -/
def revokeOwner : CellularCapabilitySheaf :=
  let cleared := sheaf.sections.map fun held => if held.owner = owner then .empty else held
  { sheaf with sections := cleared.filter (·.openId ≠ none16), epoch := sheaf.nextEpoch }

/-- The bits of the opens before this one: identifiers count the opens. -/
def offset : ℕ := ((sheaf.opens.take openId).map (·.stalkDimension)).sum

def globalSectionDimension : Except SheafError ℕ :=
  let totalDimension := sheaf.offset sheaf.opens.length
  let placed (map : BinaryLinearMap) (openId row : ℕ) : Word :=
    map.rows.toList.getD row 0 <<< sheaf.offset openId
  let equations := (sheaf.overlaps.flatMap fun overlap =>
    (List.range overlap.stalkDimension).map fun row =>
      placed overlap.restrictLeft overlap.left row ^^^
        placed overlap.restrictRight overlap.right row).filter (· ≠ 0)
  if maxGlobalBits < totalDimension then .error .globalDimension
  else if maxStalkBits < equations.length then .error .capacity
  else .ok (totalDimension - binaryRank equations totalDimension)

/-- The loop body of `certify`; the certificate carries the root the source has in a local. -/
def checkOverlap (certificate : GlueCertificate) (overlap : SheafOverlap) :
    Except SheafError GlueCertificate :=
  let mixed (word : Word) := mix certificate.obstructionRoot word
  match sheaf.sectionOf owner overlap.left, sheaf.sectionOf owner overlap.right with
  | some left, some right =>
    if left.epoch ≠ sheaf.epoch ∨ right.epoch ≠ sheaf.epoch then .error .staleEpoch
    else do
      let leftImage ← overlap.restrictLeft.apply left.value
      let rightImage ← overlap.restrictRight.apply right.value
      let obstruction := leftImage ^^^ rightImage
      let checked := { certificate with
        checkedOverlaps := min (certificate.checkedOverlaps + 1) u16Max
        obstructionWeight := min (certificate.obstructionWeight + countOnes obstruction) u32Max
        obstructionRoot := mixed (overlap.geometryKey ^^^ obstruction) }
      return if obstruction = 0 then checked
        else { checked.failAt overlap with
          nonzeroObstructions := min (checked.nonzeroObstructions + 1) u16Max }
  | _, _ => .ok { certificate.failAt overlap with
      incompleteOverlaps := min (certificate.incompleteOverlaps + 1) u16Max
      obstructionRoot := mixed overlap.geometryKey }

def certify : Except SheafError GlueCertificate := do
  let globalDimension ← sheaf.globalSectionDimension
  let certificate ← sheaf.overlaps.foldlM (sheaf.checkOverlap owner)
    { owner, epoch := sheaf.epoch, globalSectionDimension := globalDimension
      obstructionRoot := mix sheaf.secret (owner ^^^ .ofNat 64 sheaf.epoch) }
  return { certificate with root := certificate.sealed sheaf.secret }

def allow (required : Word) (certificate : GlueCertificate) : Except SheafError Unit :=
  if !certificate.verify sheaf.secret ∨ certificate.owner ≠ owner ∨
      certificate.epoch ≠ sheaf.epoch ∨ !certificate.glued then .error .missingSection
  else do
    let record ← sheaf.openRecord openId
    match sheaf.sectionOf owner openId with
    | none => .error .missingSection
    | some held =>
      let required := required &&& dimensionMask record.stalkDimension
      if held.epoch ≠ sheaf.epoch ∨ held.value &&& required ≠ required then
        .error .missingSection
      else .ok ()

end CellularCapabilitySheaf

end ArachKernel.Sheaf
