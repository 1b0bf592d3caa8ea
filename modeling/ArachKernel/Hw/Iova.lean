import ArachKernel.Lib.Align
import ArachKernel.Lib.Prog
import ArachKernel.Lib.Table

/-!
Leases of I/O virtual addresses (`hw/iova.rs`). A ledger has an aperture, a sorted list of
reserved ranges in it, and a table of leases. A released slot keeps its generation, and a
slot whose generation is used up is not leased again.

The end of a range is called `stop` here.
-/

namespace ArachKernel.Iova

open Table

def iovaPageSize : ℕ := 4096

structure IovaRange where
  start : ℕ
  stop : ℕ
  deriving DecidableEq

inductive IovaError
  | invalidRange
  | invalidRequest
  | invalidCapacity
  | reservedCapacity
  | reservedOutsideAperture
  | overlappingReservedRanges
  | leaseCapacity
  | addressSpaceExhausted
  | exactRangeUnavailable
  | staleLease
  | batchOutputMismatch
  deriving DecidableEq

namespace IovaRange

def empty : IovaRange := { start := 0, stop := 0 }

def new (start length : ℕ) : Except IovaError IovaRange :=
  match checkedAdd u64Max start length with
  | none => .error .invalidRange
  | some stop =>
    if length = 0 ∨ start % iovaPageSize ≠ 0 ∨ length % iovaPageSize ≠ 0 ∨
        stop % iovaPageSize ≠ 0 then .error .invalidRange
    else .ok { start, stop }

def contains (range other : IovaRange) : Bool :=
  decide (range.start ≤ other.start) && decide (other.stop ≤ range.stop)

def overlaps (range other : IovaRange) : Bool :=
  decide (range.start < other.stop) && decide (other.start < range.stop)

theorem overlaps_iff {range other : IovaRange} :
    range.overlaps other ↔ range.start < other.stop ∧ other.start < range.stop := by
  simp [overlaps]

end IovaRange

/-- A lease is a word with the slot in its low half and the generation in its high half. -/
structure IovaLease where
  raw : ℕ
  deriving DecidableEq

namespace IovaLease

def new (slot generation : ℕ) : IovaLease where
  raw := (generation <<< 32) ||| (slot + 1)

def slot (lease : IovaLease) : Option ℕ :=
  let encoded := lease.raw % 2 ^ 32
  if encoded = 0 then none else some (encoded - 1)

def generation (lease : IovaLease) : ℕ := lease.raw >>> 32

end IovaLease

/-- A request that has passed the checks of `IovaRequest::new`. -/
structure IovaRequest where
  pageCount : ℕ
  alignmentPages : ℕ
  pageCount_pos : 0 < pageCount
  isPowerOfTwo : ∃ k, alignmentPages = 2 ^ k
  size_le : pageCount * iovaPageSize ≤ u64Max
  alignment_le : alignmentPages * iovaPageSize ≤ u64Max

namespace IovaRequest

variable (request : IovaRequest)

def length : ℕ := request.pageCount * iovaPageSize
def alignment : ℕ := request.alignmentPages * iovaPageSize

/-- The alignment in bytes is a power of two that fits in a word. -/
theorem alignment_eq : ∃ k, k ≤ 64 ∧ request.alignment = 2 ^ k := by
  obtain ⟨k, hk⟩ := request.isPowerOfTwo
  have heq : request.alignment = 2 ^ (k + 12) := by
    rw [alignment, hk, iovaPageSize, Nat.pow_add]
  refine ⟨k + 12, ?_, heq⟩
  by_contra hlarge
  have hle : request.alignment ≤ u64Max := request.alignment_le
  have hpow : 2 ^ 64 ≤ 2 ^ (k + 12) := Nat.pow_le_pow_right (by decide) (by omega)
  rw [u64Max] at hle
  omega

theorem length_pos : 0 < request.length :=
  Nat.mul_pos request.pageCount_pos (by decide)

end IovaRequest

structure LeaseSlot where
  range : IovaRange
  generation : ℕ
  active : Bool
  deriving DecidableEq

def LeaseSlot.empty : LeaseSlot := { range := .empty, generation := 0, active := false }

/-- `reserved` is the used part of the array of reserved ranges. -/
structure IovaLedger (LEASES : ℕ) where
  aperture : IovaRange
  reserved : List IovaRange
  leases : Fin LEASES → LeaseSlot
  activeCount : ℕ

namespace IovaLedger

variable {LEASES : ℕ}

def insertReserved (range : IovaRange) (l : IovaLedger LEASES) :
    Except IovaError (IovaLedger LEASES) :=
  if !l.aperture.contains range then .error .reservedOutsideAperture
  else if l.reserved.any (·.overlaps range) then .error .overlappingReservedRanges
  else
    -- the ranges behind the position move up by one
    let position := l.reserved.findIdx fun existing => range.start < existing.start
    .ok { l with reserved := l.reserved.take position ++ range :: l.reserved.drop position }

def new (LEASES RESERVED : ℕ) (aperture : IovaRange) (reserved : List IovaRange) :
    Except IovaError (IovaLedger LEASES) :=
  if LEASES = 0 ∨ u32Max < LEASES then .error .invalidCapacity
  else if RESERVED < reserved.length then .error .reservedCapacity
  else
    reserved.foldlM (fun l range => l.insertReserved range)
      { aperture, reserved := [], leases := fun _ => .empty, activeCount := 0 }

/-- The reserved ranges, then those of the active leases. -/
def blockers (l : IovaLedger LEASES) : List IovaRange :=
  l.reserved ++ ((List.finRange LEASES).filter fun i => (l.leases i).active).map fun i =>
    (l.leases i).range

/-- The furthest end of a blocker that the candidate meets, or zero. -/
def advanceTo (candidate : IovaRange) (blockers : List IovaRange) : ℕ :=
  blockers.foldl (fun furthest blocker =>
    if candidate.overlaps blocker then max furthest blocker.stop else furthest) 0

theorem advanceTo_cases (candidate : IovaRange) (blockers : List IovaRange) :
    (∃ blocker ∈ blockers, blocker.start < candidate.stop ∧
        candidate.start < advanceTo candidate blockers ∧
        blocker.stop = advanceTo candidate blockers) ∨
      advanceTo candidate blockers = 0 ∧
        ∀ blocker ∈ blockers, candidate.overlaps blocker = false := by
  induction blockers using List.reverseRecOn with
  | nil => exact .inr ⟨rfl, fun _ h => absurd h List.not_mem_nil⟩
  | append_singleton blockers blocker ih =>
    have hlast : advanceTo candidate (blockers ++ [blocker]) =
        if candidate.overlaps blocker then max (advanceTo candidate blockers) blocker.stop
        else advanceTo candidate blockers := by simp [advanceTo]
    by_cases hmeets : candidate.overlaps blocker
    · obtain ⟨hlt, hstart⟩ := IovaRange.overlaps_iff.mp hmeets
      rw [hlast, if_pos hmeets]
      rcases le_total (advanceTo candidate blockers) blocker.stop with hle | hle
      · rw [max_eq_right hle]
        exact .inl ⟨blocker, by simp, hstart, hlt, rfl⟩
      · rw [max_eq_left hle]
        obtain ⟨other, hmem, hother⟩ := ih.resolve_right (by omega)
        exact .inl ⟨other, List.mem_append_left _ hmem, hother⟩
    · rw [hlast, if_neg hmeets]
      rcases ih with ⟨other, hmem, hother⟩ | ⟨hzero, hnone⟩
      · exact .inl ⟨other, List.mem_append_left _ hmem, hother⟩
      · exact .inr ⟨hzero, by simpa [or_imp, forall_and, hmeets] using hnone⟩

/-- The loop of `first_fit`: a candidate that meets a blocker moves behind the furthest one. -/
def firstFitFrom (l : IovaLedger LEASES) (request : IovaRequest) (start : ℕ) :
    Except IovaError IovaRange :=
  match hstop : (checkedAdd u64Max start request.length).filter (· ≤ l.aperture.stop) with
  | none => .error .addressSpaceExhausted
  | some stop =>
    if hfree : advanceTo { start, stop } l.blockers = 0 then .ok { start, stop }
    else
      match hnext : alignUp (advanceTo { start, stop } l.blockers) request.alignment with
      | none => .error .addressSpaceExhausted
      | some next => l.firstFitFrom request next
termination_by l.aperture.stop - start
decreasing_by
  obtain ⟨hadd, hle⟩ := Option.filter_eq_some_iff.mp hstop
  obtain ⟨_, rfl⟩ := checkedAdd_eq_some.mp hadd
  have hpos := request.length_pos
  obtain ⟨_, _, _, hlt, _⟩ := (advanceTo_cases { start, stop := start + request.length }
    l.blockers).resolve_right fun h => hfree h.1
  obtain ⟨k, hk, halignment⟩ := request.alignment_eq
  rw [halignment] at hnext
  have hge := (alignUp_eq_some hk hnext).1
  simp only [decide_eq_true_eq] at hle hlt
  omega

def firstFit (request : IovaRequest) (l : IovaLedger LEASES) : Except IovaError IovaRange :=
  match alignUp l.aperture.start request.alignment with
  | none => .error .addressSpaceExhausted
  | some start => l.firstFitFrom request start

/-- A slot that can be leased. -/
def freeSlot (l : IovaLedger LEASES) : Option (Fin LEASES) :=
  position fun i => !(l.leases i).active && (l.leases i).generation != u32Max

/-- The ledger with a new lease. -/
def grant (l : IovaLedger LEASES) (i : Fin LEASES) (range : IovaRange) : IovaLedger LEASES :=
  { l with
    leases := Function.update l.leases i
      { range, generation := (l.leases i).generation + 1, active := true }
    activeCount := l.activeCount + 1 }

def reserve (request : IovaRequest) (l : IovaLedger LEASES) :
    Except IovaError IovaLease × IovaLedger LEASES :=
  match l.freeSlot with
  | none => (.error .leaseCapacity, l)
  | some i =>
    match l.firstFit request with
    | .error e => (.error e, l)
    | .ok range => (.ok (.new i ((l.leases i).generation + 1)), l.grant i range)

def reserveExact (range : IovaRange) (l : IovaLedger LEASES) :
    Except IovaError IovaLease × IovaLedger LEASES :=
  if !l.aperture.contains range ∨ l.blockers.any (·.overlaps range) then
    (.error .exactRangeUnavailable, l)
  else
    match l.freeSlot with
    | none => (.error .leaseCapacity, l)
    | some i => (.ok (.new i ((l.leases i).generation + 1)), l.grant i range)

/-- The loop of `reserve_many` on the candidate ledger. -/
def reserveEach : List IovaRequest → IovaLedger LEASES →
    Except IovaError (List IovaLease × IovaLedger LEASES)
  | [], l => .ok ([], l)
  | request :: requests, l =>
    match l.reserve request with
    | (.error e, _) => .error e
    | (.ok lease, l) =>
      match reserveEach requests l with
      | .error e => .error e
      | .ok (leases, l) => .ok (lease :: leases, l)

/-- All requests or none. `room` is the length of the output. -/
def reserveMany (requests : List IovaRequest) (room : ℕ) (l : IovaLedger LEASES) :
    Except IovaError (List IovaLease) × IovaLedger LEASES :=
  if requests.isEmpty ∨ requests.length ≠ room ∨ LEASES < requests.length then
    (.error .batchOutputMismatch, l)
  else
    match reserveEach requests l with
    | .error e => (.error e, l)
    | .ok (leases, candidate) => (.ok leases, candidate)

/-- The slot of a lease that is active. -/
def slot (lease : IovaLease) (l : IovaLedger LEASES) : Except IovaError (Fin LEASES) :=
  match lease.slot with
  | none => .error .staleLease
  | some index =>
    if h : index < LEASES then
      if (l.leases ⟨index, h⟩).active && (l.leases ⟨index, h⟩).generation == lease.generation then
        .ok ⟨index, h⟩
      else .error .staleLease
    else .error .staleLease

def range (lease : IovaLease) (l : IovaLedger LEASES) : Except IovaError IovaRange :=
  match l.slot lease with
  | .error e => .error e
  | .ok i => .ok (l.leases i).range

def release (lease : IovaLease) (l : IovaLedger LEASES) :
    Except IovaError IovaRange × IovaLedger LEASES :=
  match l.slot lease with
  | .error e => (.error e, l)
  | .ok i =>
    (.ok (l.leases i).range,
      { l with
        leases := Function.update l.leases i { l.leases i with range := .empty, active := false }
        activeCount := l.activeCount - 1 })

end IovaLedger

end ArachKernel.Iova
