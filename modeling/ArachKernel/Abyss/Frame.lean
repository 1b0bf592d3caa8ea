import ArachKernel.Lib.Align
import ArachKernel.Lib.Bitmap
import ArachKernel.Lib.Prog

/-!
The allocator of physical frames (`core/abyss/src/frame.rs`). One bitmap says which frames
are taken and a second one which are reserved; the number of free frames is kept beside
them. Memory maps (`memory.rs`) give the frames that can be used.
-/

namespace ArachKernel.Abyss

open Bitmap

def pageSize : ℕ := 4096

def bitsPerWord : ℕ := 64

inductive MemoryRegionKind
  | usable
  | reserved
  | acpiReclaimable
  | acpiNonVolatile
  | defective
  deriving DecidableEq

structure MemoryRegion where
  start : ℕ
  stop : ℕ
  kind : MemoryRegionKind
  deriving DecidableEq

def maxMemoryRegions : ℕ := 128

/-- The used part of the array of regions. -/
structure MemoryMap where
  regions : List MemoryRegion
  valid : ∀ region ∈ regions, region.start < region.stop
  length_le : regions.length ≤ maxMemoryRegions

inductive FrameAllocatorError
  | addressOverflow
  | storageTooSmall
  | invalidFrameCount
  | unalignedFrame
  | frameOutOfRange
  | reservedFrame
  | doubleFree
  deriving DecidableEq

def frameCount (maximumAddress : ℕ) : Except FrameAllocatorError ℕ :=
  match checkedAdd u64Max maximumAddress (pageSize - 1) with
  | none => .error .addressOverflow
  | some sum => .ok (sum / pageSize)

def wordsForFrames (frames : ℕ) : ℕ := (frames + (bitsPerWord - 1)) / bitsPerWord

/-- `first..last` -/
def span (first last : ℕ) : List ℕ := List.range' first (last - first)

@[simp] theorem mem_span {first last frame : ℕ} :
    frame ∈ span first last ↔ first ≤ frame ∧ frame < last := by
  rw [span, List.mem_range'_1]
  omega

theorem nodup_span (first last : ℕ) : (span first last).Nodup := List.nodup_range'

structure BitmapFrameAllocator where
  allocated : Bitmap
  reserved : Bitmap
  frameCount : ℕ
  nextSearch : ℕ
  freeFrames : ℕ

namespace BitmapFrameAllocator

variable (s : BitmapFrameAllocator) (frame : ℕ)

def isAllocated : Bool := bitIsSet s.allocated frame

def isReserved : Bool := bitIsSet s.reserved frame

def setAllocated (value : Bool) (s : BitmapFrameAllocator) : BitmapFrameAllocator :=
  { s with allocated := setBit s.allocated frame value }

def setReserved (value : Bool) (s : BitmapFrameAllocator) : BitmapFrameAllocator :=
  { s with reserved := setBit s.reserved frame value }

/-- The loop body of `mark_usable`. -/
def usableFrame : BitmapFrameAllocator :=
  (if s.isAllocated frame then { s with freeFrames := s.freeFrames + 1 } else s)
    |>.setAllocated frame false |>.setReserved frame false

def markUsable (start stop : ℕ) (s : BitmapFrameAllocator) : BitmapFrameAllocator :=
  if start ≥ stop then s
  else
    let first := start / pageSize
    let last := min (stop / pageSize) s.frameCount
    (span (min first s.frameCount) last).foldl usableFrame s

/-- The usable regions shrink to whole frames below the maximum. -/
def useRegion (maximumAddress : ℕ) (s : BitmapFrameAllocator) (region : MemoryRegion) :
    BitmapFrameAllocator :=
  if region.kind ≠ .usable then s
  else
    match alignUp region.start pageSize with
    | none => s
    | some start => s.markUsable start (alignDown (min region.stop maximumAddress) pageSize)

/-- `storage` is the number of words there are for the two bitmaps. -/
def new (map : MemoryMap) (maximumAddress storage : ℕ) :
    Except FrameAllocatorError BitmapFrameAllocator :=
  match Abyss.frameCount maximumAddress with
  | .error e => .error e
  | .ok frames =>
    if storage < min u64Max (wordsForFrames frames * 2) then .error .storageTooSmall
    else
      .ok (map.regions.foldl (useRegion maximumAddress)
        { allocated := fun _ => BitVec.allOnes 64
          reserved := fun _ => BitVec.allOnes 64
          frameCount := frames
          nextSearch := 0
          freeFrames := 0 })

/-- The loop body of `reserve_range`. -/
def reserveFrame : BitmapFrameAllocator :=
  (if !s.isAllocated frame then { s with freeFrames := s.freeFrames - 1 } else s)
    |>.setAllocated frame true |>.setReserved frame true

def reserveRange (start stop : ℕ) (s : BitmapFrameAllocator) : BitmapFrameAllocator :=
  if start ≥ stop then s
  else
    let first := start / pageSize
    match alignUp stop pageSize with
    | none => s
    | some roundedEnd =>
      let last := min (roundedEnd / pageSize) s.frameCount
      (span (min first s.frameCount) last).foldl reserveFrame s

/-- The entries of a reservation table are pairs of a start and an end. -/
def applyReservations (entries : List (ℕ × ℕ)) (s : BitmapFrameAllocator) : BitmapFrameAllocator :=
  entries.foldl (fun s entry => s.reserveRange entry.1 entry.2) s

/-- Answers with the address of the frame. -/
def allocate : Option ℕ × BitmapFrameAllocator :=
  if s.freeFrames = 0 then (none, s)
  else
    match (List.range s.frameCount).find? fun offset =>
        !s.isAllocated ((s.nextSearch + offset) % s.frameCount) with
    | none => (none, s)
    | some offset =>
      let frame := (s.nextSearch + offset) % s.frameCount
      (some (frame * pageSize),
        { s.setAllocated frame true with
          freeFrames := s.freeFrames - 1
          nextSearch := (frame + 1) % s.frameCount })

/-- A power of two that is a machine word. -/
def IsPowerOfTwo (n : ℕ) : Prop := ∃ k ∈ List.range 64, n = 2 ^ k

instance (n : ℕ) : Decidable (IsPowerOfTwo n) :=
  inferInstanceAs (Decidable (∃ k ∈ List.range 64, n = 2 ^ k))

/-- The loop of `find_contiguous`: the candidate moves behind the first frame in its way. -/
def findContiguousFrom (s : BitmapFrameAllocator) (frames alignment : ℕ)
    (halignment : IsPowerOfTwo alignment) (candidate : ℕ) : Option ℕ :=
  match hadd : checkedAdd u64Max candidate frames with
  | none => none
  | some stop =>
    if hstop : stop ≤ s.frameCount then
      match hfind : (span candidate (candidate + frames)).find? s.isAllocated with
      | none => some candidate
      | some occupied =>
        match hnext : alignUp (occupied + 1) alignment with
        | none => none
        | some next => s.findContiguousFrom frames alignment halignment next
    else none
termination_by s.frameCount + 1 - candidate
decreasing_by
  obtain ⟨_, rfl⟩ := checkedAdd_eq_some.mp hadd
  obtain ⟨k, hk, rfl⟩ := halignment
  have hge := (alignUp_eq_some (List.mem_range.mp hk).le hnext).1
  have hmem := mem_span.mp (List.mem_of_find?_eq_some hfind)
  omega

def findContiguous (searchStart frames alignment : ℕ)
    (halignment : IsPowerOfTwo alignment) : Option ℕ :=
  match alignUp searchStart alignment with
  | none => none
  | some candidate => s.findContiguousFrom frames alignment halignment candidate

def allocateContiguous (frames alignment : ℕ) (s : BitmapFrameAllocator) :
    Option ℕ × BitmapFrameAllocator :=
  if h : frames = 0 ∨ ¬IsPowerOfTwo alignment ∨ s.freeFrames < frames then (none, s)
  else
    have halignment : IsPowerOfTwo alignment := by
      simp only [not_or, not_not] at h
      exact h.2.1
    match (s.findContiguous s.nextSearch frames alignment halignment).or
        (s.findContiguous 0 frames alignment halignment) with
    | none => (none, s)
    | some first =>
      (some (first * pageSize),
        { (span first (first + frames)).foldl (fun s frame => s.setAllocated frame true) s with
          freeFrames := s.freeFrames - frames
          nextSearch := (first + frames) % s.frameCount })

/-- What stands in the way of the release of a frame. -/
def releaseError : Option FrameAllocatorError :=
  if s.isReserved frame then some .reservedFrame
  else if !s.isAllocated frame then some .doubleFree
  else none

def deallocateContiguous (firstFrame frames : ℕ) (s : BitmapFrameAllocator) :
    Except FrameAllocatorError Unit × BitmapFrameAllocator :=
  if frames = 0 then (.error .invalidFrameCount, s)
  else if firstFrame % pageSize ≠ 0 then (.error .unalignedFrame, s)
  else
    let first := firstFrame / pageSize
    match (checkedAdd u64Max first frames).filter (· ≤ s.frameCount) with
    | none => (.error .frameOutOfRange, s)
    | some stop =>
      match (span first stop).findSome? s.releaseError with
      | some e => (.error e, s)
      | none =>
        (.ok (),
          { (span first stop).foldl (fun s frame => s.setAllocated frame false) s with
            freeFrames := s.freeFrames + frames
            nextSearch := first })

def deallocate (s : BitmapFrameAllocator) :
    Except FrameAllocatorError Unit × BitmapFrameAllocator := s.deallocateContiguous frame 1

end BitmapFrameAllocator

end ArachKernel.Abyss
