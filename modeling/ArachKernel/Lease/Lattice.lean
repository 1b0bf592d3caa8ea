import ArachKernel.Lib.Table
import ArachKernel.Process.Lifecycle

/-!
Leases (`lease_lattice.rs`): rights with a lifetime and a quota, kept in a table. A
lease with the right to delegate can be attenuated to a child, which names its parent
by slot and generation. A lease counts as long as all records on its way to a root
are there.

The calls take the lock for their whole length, so each is one function of the state.
A call that fails has changed nothing, so the functions return the new state only on
success.
-/

namespace ArachKernel.Lease

open Table Function

def u8Max : ℕ := 2 ^ 8 - 1

def rootParent : ℕ := u16Max
def maximumDelegationDepth : ℕ := 8

abbrev LeaseRights := BitVec 32

namespace LeaseRights

def observe : LeaseRights := 1 <<< 0
def delegate : LeaseRights := 1 <<< 31

def contains (rights required : LeaseRights) : Prop := rights &&& required = required

instance (rights required : LeaseRights) : Decidable (contains rights required) :=
  inferInstanceAs (Decidable (_ = _))

end LeaseRights

/-- A token: 16 bits of slot, 16 bits of generation and 32 bits of tag. -/
structure LeaseToken where
  raw : ℕ
  deriving DecidableEq

namespace LeaseToken

def new (slot generation : ℕ) (tag : BitVec 32) : LeaseToken :=
  ⟨slot % 2 ^ 16 + generation % 2 ^ 16 * 2 ^ 16 + tag.toNat * 2 ^ 32⟩

def slot (token : LeaseToken) : ℕ := token.raw % 2 ^ 16

def generation (token : LeaseToken) : ℕ := token.raw / 2 ^ 16 % 2 ^ 16

def tag (token : LeaseToken) : BitVec 32 := BitVec.ofNat 32 (token.raw / 2 ^ 32)

end LeaseToken

structure LeaseRecord where
  active : Bool
  generation : ℕ
  depth : ℕ
  rights : LeaseRights
  parentSlot : ℕ
  parentGeneration : ℕ
  notBefore : ℕ
  expiresAt : ℕ
  quotaLimit : ℕ
  uses : ℕ
  tag : BitVec 32

def LeaseRecord.empty : LeaseRecord :=
  ⟨false, 1, 0, 0, rootParent, 0, 0, 0, 0, 0, 0⟩

structure LeaseState (n : ℕ) where
  records : Fin n → LeaseRecord
  issuanceNonce : BitVec 64

def LeaseState.new (n : ℕ) : LeaseState n := ⟨fun _ => .empty, 1⟩

inductive LeaseError
  | capacity
  | invalid
  | forged
  | notYetValid
  | expired
  | exhausted
  | missingRight
  | cannotDelegate
  | rightsAmplification
  | invalidLifetime
  | invalidQuota
  | delegationDepth
  deriving DecidableEq

structure LeaseAdmission where
  rights : LeaseRights
  remainingUses : ℕ
  expiresAt : ℕ
  depth : ℕ

/-! ### Tags and generations -/

def mix (state value : BitVec 64) : BitVec 64 :=
  let state := state ^^^ (value + 0x9e3779b97f4a7c15)
  let state := state.rotateLeft 29
  let state := state * 0xbf58476d1ce4e5b9
  state ^^^ (state >>> 31)

/-- `seal`, which is a keyword here. -/
def sealTag (secret : BitVec 64) (slot : ℕ) (record : LeaseRecord) (nonce : BitVec 64) :
    BitVec 32 :=
  let state := secret ^^^ nonce.rotateLeft 17
  let state := mix state (BitVec.ofNat 64 slot)
  let state := mix state (BitVec.ofNat 64 record.generation)
  let state := mix state (record.rights.setWidth 64)
  let state := mix state (BitVec.ofNat 64 record.notBefore)
  let state := mix state (BitVec.ofNat 64 record.expiresAt)
  let state := mix state (BitVec.ofNat 64 record.quotaLimit)
  let state := mix state
    (BitVec.ofNat 64 record.parentSlot ||| BitVec.ofNat 64 record.parentGeneration <<< 16)
  (state ^^^ (state >>> 32)).setWidth 32

/-- The record with its tag. -/
def LeaseRecord.sealed (record : LeaseRecord) (secret : BitVec 64) (slot : ℕ)
    (nonce : BitVec 64) : LeaseRecord :=
  { record with tag := sealTag secret slot record nonce }

/-- `wrapping_add(1).max(1)` on 16 bits. -/
def nextGeneration (generation : ℕ) : ℕ := max ((generation + 1) % 2 ^ 16) 1

/-- `wrapping_add(1).max(1)` on 64 bits. -/
def nextNonce (nonce : BitVec 64) : BitVec 64 := if nonce + 1 = 0 then 1 else nonce + 1

def saturatingAdd (maximum a b : ℕ) : ℕ := min (a + b) maximum

/-! ### Validation -/

section Calls

variable {n : ℕ}

def validateLifetime (notBefore expiresAt : ℕ) : Except LeaseError Unit :=
  if expiresAt = 0 ∨ expiresAt ≤ notBefore then .error .invalidLifetime else .ok ()

variable (state : LeaseState n) (token : LeaseToken)

def validateTokenWithoutTime : Except LeaseError (Fin n) :=
  if h : token.slot < n then
    let record := state.records ⟨token.slot, h⟩
    if ¬ record.active ∨ record.generation ≠ token.generation then .error .invalid
    else if record.tag ≠ token.tag then .error .forged
    else .ok ⟨token.slot, h⟩
  else .error .invalid

def validateToken (nowTick : ℕ) : Except LeaseError (Fin n) := do
  let index ← validateTokenWithoutTime state token
  if nowTick < (state.records index).notBefore then .error .notYetValid
  else if (state.records index).expiresAt < nowTick then .error .expired
  else .ok index

/-- The loop of `validate_ancestry`, with the number of steps it may still take. -/
def validateAncestryFrom (state : LeaseState n) : ℕ → Fin n → Except LeaseError Unit
  | remaining, current =>
    let record := state.records current
    if record.parentSlot = rootParent then .ok ()
    else
      match remaining with
      | 0 => .error .delegationDepth
      | remaining + 1 =>
        if h : record.parentSlot < n then
          let parent := state.records ⟨record.parentSlot, h⟩
          if ¬ parent.active ∨ parent.generation ≠ record.parentGeneration then
            .error .invalid
          else validateAncestryFrom state remaining ⟨record.parentSlot, h⟩
        else .error .invalid

def validateAncestry (start : Fin n) : Except LeaseError Unit :=
  validateAncestryFrom state maximumDelegationDepth start

/-! ### Calls -/

/-- The first slot that is not in use. -/
def LeaseState.freeSlot : Option (Fin n) :=
  position fun slot => !(state.records slot).active

/-- A new record in a slot. -/
def LeaseState.insert (secret : BitVec 64) (slot : Fin n)
    (record : LeaseRecord) : LeaseToken × LeaseState n :=
  let record := record.sealed secret slot state.issuanceNonce
  (.new slot record.generation record.tag,
    ⟨update state.records slot record, nextNonce state.issuanceNonce⟩)

def issueRoot (secret : BitVec 64) (rights : LeaseRights) (notBefore expiresAt : ℕ)
    (quota : UInt32) (state : LeaseState n) : Except LeaseError (LeaseToken × LeaseState n) := do
  validateLifetime notBefore expiresAt
  if quota.toNat = 0 then .error .invalidQuota
  else
    match state.freeSlot with
    | none => .error .capacity
    | some slot =>
      let generation := nextGeneration (state.records slot).generation
      .ok (state.insert secret slot ⟨true, generation, 0, rights, rootParent, 0, notBefore,
        expiresAt, quota.toNat, 0, 0⟩)

/-- The record of a child. -/
def LeaseRecord.child (parent : LeaseRecord) (parentIndex generation : ℕ) (rights : LeaseRights)
    (expiresAt quota nowTick : ℕ) : LeaseRecord :=
  ⟨true, generation, saturatingAdd u8Max parent.depth 1, parent.rights &&& rights,
    parentIndex % 2 ^ 16, parent.generation, nowTick, expiresAt, quota, 0, 0⟩

/-- Count uses of a record. -/
def LeaseState.use (slot : Fin n) (count : ℕ) : LeaseState n :=
  { state with
    records := update state.records slot
      { state.records slot with
        uses := saturatingAdd u32Max (state.records slot).uses count } }

def attenuate (secret : BitVec 64) (parentToken : LeaseToken) (rights : LeaseRights)
    (expiresAt : ℕ) (quota : UInt32) (nowTick : ℕ) (state : LeaseState n) :
    Except LeaseError (LeaseToken × LeaseState n) := do
  if quota.toNat = 0 then .error .invalidQuota
  else
    let parentIndex ← validateToken state parentToken nowTick
    validateAncestry state parentIndex
    let parent := state.records parentIndex
    if ¬ parent.rights.contains LeaseRights.delegate then .error .cannotDelegate
    else if maximumDelegationDepth ≤ parent.depth then .error .delegationDepth
    else if ¬ parent.rights.contains rights then .error .rightsAmplification
    else if parent.expiresAt < expiresAt ∨ expiresAt ≤ nowTick then .error .invalidLifetime
    else if parent.quotaLimit - parent.uses < quota.toNat then .error .invalidQuota
    else
      match state.freeSlot with
      | none => .error .capacity
      | some slot =>
        let generation := nextGeneration (state.records slot).generation
        .ok ((state.use parentIndex quota.toNat).insert secret slot
          (parent.child parentIndex generation rights expiresAt quota.toNat nowTick))

def admitToken (required : LeaseRights) (nowTick : ℕ) (state : LeaseState n) :
    Except LeaseError (LeaseAdmission × LeaseState n) := do
  let index ← validateToken state token nowTick
  validateAncestry state index
  let record := state.records index
  if ¬ record.rights.contains required then .error .missingRight
  else if record.quotaLimit ≤ record.uses then .error .exhausted
  else
    let uses := saturatingAdd u32Max record.uses 1
    .ok (⟨record.rights, record.quotaLimit - uses, record.expiresAt, record.depth⟩,
      state.use index 1)

def revoke (state : LeaseState n) : Except LeaseError (LeaseState n) := do
  let index ← validateTokenWithoutTime state token
  .ok { state with
    records := update state.records index
      { LeaseRecord.empty with
        generation := nextGeneration (state.records index).generation } }

end Calls

end ArachKernel.Lease
