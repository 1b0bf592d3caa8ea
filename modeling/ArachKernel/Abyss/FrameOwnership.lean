import ArachKernel.Abyss.Frame
import Mathlib.Data.List.Nodup

/-!
A frame has one owner. The history of an allocator lists the frames that were handed out and
given back and the ranges that were reserved; a frame that is taken and not reserved is one
that was handed out and not given back.
-/

namespace ArachKernel.Abyss

open Bitmap List Finset

/-- The frame has an address in the range. -/
def Meets (frame start stop : ℕ) : Prop :=
  ∃ address, address / pageSize = frame ∧ start ≤ address ∧ address < stop

/-- A usable region has the whole frame. -/
def Inside (regions : List MemoryRegion) (frame : ℕ) : Prop :=
  ∃ region ∈ regions, region.kind = .usable ∧ region.start ≤ frame * pageSize ∧
    (frame + 1) * pageSize ≤ region.stop

inductive Event
  | out (frame : ℕ)
  | freed (frame : ℕ)
  | reserved (start stop : ℕ)
  deriving DecidableEq

/-- The frames that are handed out and not given back. The last event is the first one. -/
def outstanding : List Event → List ℕ
  | [] => []
  | .out frame :: log => frame :: outstanding log
  | .freed frame :: log => (outstanding log).erase frame
  | .reserved _ _ :: log => outstanding log

/-- A frame that is handed out has no address in a range that was reserved before. -/
def Spares (newer older : Event) : Prop :=
  ∀ frame start stop, newer = .out frame → older = .reserved start stop → ¬Meets frame start stop

namespace BitmapFrameAllocator

variable {s : BitmapFrameAllocator} {frame other : ℕ}

/-! ### Reading the bitmaps after a write -/

@[simp] theorem isAllocated_setAllocated (value : Bool) :
    (s.setAllocated frame value).isAllocated other =
      if other = frame then value else s.isAllocated other :=
  bitIsSet_setBit ..

@[simp] theorem isReserved_setReserved (value : Bool) :
    (s.setReserved frame value).isReserved other =
      if other = frame then value else s.isReserved other :=
  bitIsSet_setBit ..

@[simp] theorem isReserved_setAllocated (value : Bool) :
    (s.setAllocated frame value).isReserved other = s.isReserved other := rfl

@[simp] theorem isAllocated_setReserved (value : Bool) :
    (s.setReserved frame value).isAllocated other = s.isAllocated other := rfl

@[simp] theorem isAllocated_reserveFrame :
    (s.reserveFrame frame).isAllocated other = (decide (other = frame) || s.isAllocated other) := by
  unfold reserveFrame
  split
  all_goals
    rw [isAllocated_setReserved, isAllocated_setAllocated]
    split
    · simp [*]
    · simp [*, isAllocated]

@[simp] theorem isReserved_reserveFrame :
    (s.reserveFrame frame).isReserved other = (decide (other = frame) || s.isReserved other) := by
  unfold reserveFrame
  split
  all_goals
    rw [isReserved_setReserved, isReserved_setAllocated]
    split
    · simp [*]
    · simp [*, isReserved]

@[simp] theorem frameCount_reserveFrame : (s.reserveFrame frame).frameCount = s.frameCount := by
  unfold reserveFrame
  split
  · rfl
  · rfl

@[simp] theorem isAllocated_usableFrame :
    (s.usableFrame frame).isAllocated other = (decide (other ≠ frame) && s.isAllocated other) := by
  unfold usableFrame
  split
  all_goals
    rw [isAllocated_setReserved, isAllocated_setAllocated]
    split
    · simp [*]
    · simp [*, isAllocated]

@[simp] theorem isReserved_usableFrame :
    (s.usableFrame frame).isReserved other = (decide (other ≠ frame) && s.isReserved other) := by
  unfold usableFrame
  split
  all_goals
    rw [isReserved_setReserved, isReserved_setAllocated]
    split
    · simp [*]
    · simp [*, isReserved]

@[simp] theorem frameCount_usableFrame : (s.usableFrame frame).frameCount = s.frameCount := by
  unfold usableFrame
  split
  · rfl
  · rfl

/-! ### The number of free frames -/

/-- The frames whose bit is clear in any word of the bitmap. -/
def free (s : BitmapFrameAllocator) : Finset ℕ :=
  clear s.allocated (bitsPerWord * wordsForFrames s.frameCount)

theorem lt_words {frames : ℕ} (h : frame < frames) :
    frame < bitsPerWord * wordsForFrames frames := by
  rw [wordsForFrames, bitsPerWord]
  omega

theorem mem_free : frame ∈ s.free ↔
    frame < bitsPerWord * wordsForFrames s.frameCount ∧ s.isAllocated frame = false :=
  mem_clear

/-- A bit that is set takes one frame from the free ones, if it was one. -/
theorem card_free_taken (hfree : s.freeFrames = s.free.card) (hfr : frame < s.frameCount) :
    ((s.setAllocated frame true).free).card =
      if s.isAllocated frame then s.freeFrames else s.freeFrames - 1 := by
  have herase : (s.setAllocated frame true).free = s.free.erase frame := clear_setBit_true ..
  rw [herase, hfree]
  split
  next hset =>
    rw [erase_eq_of_notMem]
    intro hmem
    exact Bool.noConfusion (hset.symm.trans (mem_free.mp hmem).2)
  next hclr =>
    exact card_erase_of_mem (mem_free.mpr ⟨lt_words hfr, Bool.eq_false_iff.mpr hclr⟩)

theorem card_free_given (hfree : s.freeFrames = s.free.card) (hfr : frame < s.frameCount) :
    ((s.setAllocated frame false).free).card =
      if s.isAllocated frame then s.freeFrames + 1 else s.freeFrames := by
  have hinsert : (s.setAllocated frame false).free = insert frame s.free :=
    clear_setBit_false (lt_words hfr)
  rw [hinsert, hfree]
  split
  next hset =>
    apply card_insert_of_notMem
    intro hmem
    exact Bool.noConfusion (hset.symm.trans (mem_free.mp hmem).2)
  next hclr =>
    rw [insert_eq_of_mem]
    exact mem_free.mpr ⟨lt_words hfr, Bool.eq_false_iff.mpr hclr⟩

/-! ### Owners -/

/-- What holds of an allocator with this history. -/
structure Owned (regions : List MemoryRegion) (log : List Event) (s : BitmapFrameAllocator) :
    Prop where
  counted : s.freeFrames = s.free.card
  managed : ∀ frame, s.isReserved frame = false → frame < s.frameCount
  free_unreserved : ∀ frame, s.isAllocated frame = false → s.isReserved frame = false
  inside : ∀ frame, s.isReserved frame = false → Inside regions frame
  unreserved : ∀ frame, s.isReserved frame = false → ∀ start stop, .reserved start stop ∈ log →
    ¬Meets frame start stop
  taken : ∀ frame, s.isAllocated frame → s.isReserved frame = false → frame ∈ outstanding log
  allocated : ∀ frame ∈ outstanding log, s.isAllocated frame
  nodup : (outstanding log).Nodup
  spares : log.Pairwise Spares
  handed : ∀ frame, .out frame ∈ log → Inside regions frame

variable {regions : List MemoryRegion} {log : List Event}

/-- The place where the next search starts does not matter. -/
theorem Owned.search (h : Owned regions log s) (next : ℕ) :
    Owned regions log { s with nextSearch := next } :=
  ⟨h.counted, h.managed, h.free_unreserved, h.inside, h.unreserved, h.taken, h.allocated, h.nodup,
    h.spares, h.handed⟩

/-- A frame of a usable region becomes free, before any frame is handed out. -/
theorem Owned.usable (h : Owned regions [] s) (hfr : frame < s.frameCount)
    (hinside : Inside regions frame) : Owned regions [] (s.usableFrame frame) where
  counted := by
    have hcard := card_free_given h.counted hfr
    unfold usableFrame
    split
    next hset => exact ((if_pos hset).symm.trans hcard.symm)
    next hclr => exact ((if_neg hclr).symm.trans hcard.symm)
  managed other hother := by
    rw [isReserved_usableFrame, Bool.and_eq_false_iff, decide_eq_false_iff_not, not_not] at hother
    rw [frameCount_usableFrame]
    rcases hother with rfl | hother
    · exact hfr
    · exact h.managed other hother
  free_unreserved other hother := by
    rw [isAllocated_usableFrame, Bool.and_eq_false_iff] at hother
    rw [isReserved_usableFrame, Bool.and_eq_false_iff]
    exact hother.imp_right (h.free_unreserved other)
  inside other hother := by
    rw [isReserved_usableFrame, Bool.and_eq_false_iff, decide_eq_false_iff_not, not_not] at hother
    rcases hother with rfl | hother
    · exact hinside
    · exact h.inside other hother
  unreserved _ _ _ _ hmem := absurd hmem not_mem_nil
  taken other hset hunres := by
    rw [isAllocated_usableFrame, Bool.and_eq_true] at hset
    rw [isReserved_usableFrame, hset.1] at hunres
    exact h.taken other hset.2 hunres
  allocated _ hmem := absurd hmem not_mem_nil
  nodup := nodup_nil
  spares := List.Pairwise.nil
  handed _ hmem := absurd hmem not_mem_nil

section

variable (h : Owned regions log s)
include h

theorem Owned.reserveFrame (hfr : frame < s.frameCount) :
    Owned regions log (s.reserveFrame frame) where
  counted := by
    have hcard := card_free_taken h.counted hfr
    unfold BitmapFrameAllocator.reserveFrame
    split
    next hclr =>
      rw [if_neg (by simpa using hclr)] at hcard
      exact hcard.symm
    next hset =>
      rw [if_pos (by simpa using hset)] at hcard
      exact hcard.symm
  managed other hother := by
    rw [isReserved_reserveFrame, Bool.or_eq_false_iff] at hother
    rw [frameCount_reserveFrame]
    exact h.managed other hother.2
  free_unreserved other hother := by
    rw [isAllocated_reserveFrame, Bool.or_eq_false_iff] at hother
    rw [isReserved_reserveFrame, hother.1]
    exact h.free_unreserved other hother.2
  inside other hother := by
    rw [isReserved_reserveFrame, Bool.or_eq_false_iff] at hother
    exact h.inside other hother.2
  unreserved other hother := by
    rw [isReserved_reserveFrame, Bool.or_eq_false_iff] at hother
    exact h.unreserved other hother.2
  taken other hset hunres := by
    rw [isReserved_reserveFrame, Bool.or_eq_false_iff] at hunres
    rw [isAllocated_reserveFrame, hunres.1] at hset
    exact h.taken other hset hunres.2
  allocated other hmem := by
    rw [isAllocated_reserveFrame, h.allocated other hmem, Bool.or_true]
  nodup := h.nodup
  spares := h.spares
  handed := h.handed

/-- The range that is reserved enters the history once no free frame meets it. -/
theorem Owned.note_reserved {start stop : ℕ}
    (hspared : ∀ frame, s.isReserved frame = false → ¬Meets frame start stop) :
    Owned regions (.reserved start stop :: log) s where
  counted := h.counted
  managed := h.managed
  free_unreserved := h.free_unreserved
  inside := h.inside
  unreserved other hoth start' stop' hmem := by
    rcases mem_cons.mp hmem with heq | hmem
    · cases heq
      exact hspared other hoth
    · exact h.unreserved other hoth start' stop' hmem
  taken := h.taken
  allocated := h.allocated
  nodup := h.nodup
  spares := pairwise_cons.mpr ⟨fun _ _ _ _ _ hout => Event.noConfusion hout, h.spares⟩
  handed other hmem := by
    rcases mem_cons.mp hmem with heq | hmem
    · cases heq
    · exact h.handed other hmem

/-- One frame is handed out. -/
def takeFrame (s : BitmapFrameAllocator) (frame : ℕ) : BitmapFrameAllocator :=
  { s.setAllocated frame true with freeFrames := s.freeFrames - 1 }

theorem Owned.take (hclr : s.isAllocated frame = false) :
    Owned regions (.out frame :: log) (s.takeFrame frame) := by
  have hunres := h.free_unreserved frame hclr
  have hread : ∀ other, (s.takeFrame frame).isAllocated other =
      if other = frame then true else s.isAllocated other := fun _ => isAllocated_setAllocated true
  have hfresh : frame ∉ outstanding log := by
    intro hmem
    exact Bool.noConfusion (hclr.symm.trans (h.allocated frame hmem))
  refine ⟨?_, h.managed, ?_, h.inside, ?_, ?_, ?_, nodup_cons.mpr ⟨hfresh, h.nodup⟩, ?_, ?_⟩
  · have hcard := card_free_taken h.counted (h.managed frame hunres)
    rw [hclr] at hcard
    exact hcard.symm
  · intro other hoth
    rw [hread] at hoth
    split at hoth
    · cases hoth
    · exact h.free_unreserved other hoth
  · intro other hoth start stop hmem
    rcases mem_cons.mp hmem with heq | hmem
    · cases heq
    · exact h.unreserved other hoth start stop hmem
  · intro other hset hoth
    rw [hread] at hset
    split at hset
    next heq => exact heq ▸ mem_cons_self
    · exact mem_cons_of_mem _ (h.taken other hset hoth)
  · intro other hmem
    rw [hread]
    split
    · rfl
    next hne => exact h.allocated other ((mem_cons.mp hmem).resolve_left hne)
  · refine pairwise_cons.mpr ⟨fun older holder frame' start stop hout hrng => ?_, h.spares⟩
    cases hout
    subst hrng
    exact h.unreserved frame hunres start stop holder
  · intro other hmem
    rcases mem_cons.mp hmem with heq | hmem
    · cases heq
      exact h.inside frame hunres
    · exact h.handed other hmem

/-- One frame is given back. -/
def giveFrame (s : BitmapFrameAllocator) (frame : ℕ) : BitmapFrameAllocator :=
  { s.setAllocated frame false with freeFrames := s.freeFrames + 1 }

theorem Owned.give (hset : s.isAllocated frame) (hunres : s.isReserved frame = false) :
    Owned regions (.freed frame :: log) (s.giveFrame frame) := by
  have hread : ∀ other, (s.giveFrame frame).isAllocated other =
      if other = frame then false else s.isAllocated other := fun _ =>
        isAllocated_setAllocated false
  refine ⟨?_, h.managed, ?_, h.inside, ?_, ?_, ?_, h.nodup.erase frame, ?_, ?_⟩
  · have hcard := card_free_given h.counted (h.managed frame hunres)
    rw [if_pos hset] at hcard
    exact hcard.symm
  · intro other hoth
    rw [hread] at hoth
    split at hoth
    next heq => exact heq ▸ hunres
    · exact h.free_unreserved other hoth
  · intro other hoth start stop hmem
    rcases mem_cons.mp hmem with heq | hmem
    · cases heq
    · exact h.unreserved other hoth start stop hmem
  · intro other hoth hunres'
    rw [hread] at hoth
    split at hoth
    · cases hoth
    next hne => exact (mem_erase_of_ne hne).mpr (h.taken other hoth hunres')
  · intro other hmem
    obtain ⟨hne, hmem⟩ := h.nodup.mem_erase_iff.mp hmem
    rw [hread, if_neg hne]
    exact h.allocated other hmem
  · exact pairwise_cons.mpr ⟨fun _ _ _ _ _ hout => Event.noConfusion hout, h.spares⟩
  · intro other hmem
    rcases mem_cons.mp hmem with heq | hmem
    · cases heq
    · exact h.handed other hmem

end

/-! ### Construction -/

variable {frames : List ℕ} {maximumAddress first : ℕ}

theorem Owned.usables (h : Owned regions [] s)
    (hfrs : ∀ frame ∈ frames, frame < s.frameCount ∧ Inside regions frame) :
    Owned regions [] (frames.foldl usableFrame s) := by
  induction frames generalizing s with
  | nil => exact h
  | cons frame frames ih =>
    obtain ⟨hlt, hinside⟩ := hfrs frame mem_cons_self
    apply ih (h.usable hlt hinside)
    intro other hoth
    rw [frameCount_usableFrame]
    exact hfrs other (mem_cons_of_mem _ hoth)

theorem le_of_span {last frames : ℕ} (h : frame ∈ span (min first frames) (min last frames)) :
    first ≤ frame ∧ frame < last ∧ frame < frames := by
  rw [mem_span] at h
  omega

theorem Owned.useRegion (hmaximum : maximumAddress ≤ u64Max) {region : MemoryRegion}
    (hregion : region ∈ regions) (h : Owned regions [] s) :
    Owned regions [] (s.useRegion maximumAddress region) := by
  unfold BitmapFrameAllocator.useRegion
  split
  · exact h
  next hkind =>
  split
  · exact h
  next hstart =>
  unfold markUsable
  split
  · exact h
  refine h.usables fun frame hfr => ?_
  obtain ⟨hfst, hlast, hlt⟩ := le_of_span hfr
  obtain ⟨hge, _, hdvd⟩ := alignUp_eq_some (k := 12) (by decide) hstart
  have hle : alignDown (min region.stop maximumAddress) pageSize ≤ min region.stop maximumAddress :=
    alignDown_le (k := 12) ((min_le_right region.stop _).trans hmaximum) (by decide)
  refine ⟨hlt, region, hregion, not_not.mp hkind, ?_, ?_⟩
  · have hscaled := Nat.mul_le_mul_right pageSize hfst
    simp only [pageSize] at hscaled ⊢
    omega
  · have hscaled := Nat.mul_le_of_le_div pageSize (frame + 1) _ hlast
    exact hscaled.trans (hle.trans (min_le_left ..))

theorem owned_new {map : MemoryMap} {storage : ℕ}
    (h : BitmapFrameAllocator.new map maximumAddress storage = .ok s) : Owned map.regions [] s := by
  unfold BitmapFrameAllocator.new at h
  split at h
  · cases h
  next hfrs =>
  split at h
  · cases h
  have hmaximum : maximumAddress ≤ u64Max := by
    unfold Abyss.frameCount at hfrs
    split at hfrs
    · cases hfrs
    next hsum => exact (Nat.le_add_right ..).trans (checkedAdd_eq_some.mp hsum).1
  cases h
  -- the fold runs over a suffix of the map
  suffices hfold : ∀ (suffix : List MemoryRegion) (s : BitmapFrameAllocator),
      (∀ region ∈ suffix, region ∈ map.regions) → Owned map.regions [] s →
      Owned map.regions [] (suffix.foldl (BitmapFrameAllocator.useRegion maximumAddress) s) by
    apply hfold _ _ fun _ hregion => hregion
    have hones : ∀ bit, bitIsSet (fun _ => BitVec.allOnes 64) bit := by
      intro bit
      rw [bitIsSet_eq, BitVec.getLsbD_allOnes, decide_eq_true_eq]
      exact Nat.mod_lt _ (by decide)
    have hset : ∀ {bit}, bitIsSet (fun _ => BitVec.allOnes 64) bit ≠ false :=
      fun {bit} hfalse => Bool.noConfusion (hfalse.symm.trans (hones bit))
    refine ⟨?_, fun _ hbit => absurd hbit hset, fun _ hbit => absurd hbit hset,
      fun _ hbit => absurd hbit hset, fun _ hbit => absurd hbit hset,
      fun _ _ hbit => absurd hbit hset, fun _ hmem => absurd hmem not_mem_nil,
      nodup_nil, List.Pairwise.nil, fun _ hmem => absurd hmem not_mem_nil⟩
    apply (card_eq_zero.mpr (eq_empty_of_forall_notMem fun bit hbit => ?_)).symm
    exact absurd (mem_free.mp hbit).2 hset
  intro suffix
  induction suffix with
  | nil => exact fun _ _ h => h
  | cons region suffix ih =>
    intro s hsuf h
    exact ih _ (fun other hoth => hsuf other (mem_cons_of_mem _ hoth))
      (h.useRegion hmaximum (hsuf region mem_cons_self))

/-! ### Reservations -/

theorem Owned.reserveFrames (frames : List ℕ) (h : Owned regions log s)
    (hfrs : ∀ frame ∈ frames, frame < s.frameCount) :
    Owned regions log (frames.foldl BitmapFrameAllocator.reserveFrame s) ∧
      ∀ frame, (frames.foldl BitmapFrameAllocator.reserveFrame s).isReserved frame = false →
        s.isReserved frame = false ∧ frame ∉ frames := by
  induction frames generalizing s with
  | nil => exact ⟨h, fun _ hfr => ⟨hfr, not_mem_nil⟩⟩
  | cons frame frames ih =>
    obtain ⟨howned, hread⟩ := ih (h.reserveFrame (hfrs frame mem_cons_self)) fun other hoth => by
      rw [frameCount_reserveFrame]
      exact hfrs other (mem_cons_of_mem _ hoth)
    refine ⟨howned, fun other hoth => ?_⟩
    obtain ⟨hunres, hnotin⟩ := hread other hoth
    rw [isReserved_reserveFrame, Bool.or_eq_false_iff, decide_eq_false_iff_not] at hunres
    exact ⟨hunres.2, not_mem_cons_of_ne_of_not_mem hunres.1 hnotin⟩

/-- The end of the range can be rounded up to a page. -/
def Roundable (start stop : ℕ) : Prop := start < stop → stop + (pageSize - 1) ≤ u64Max

/-- The rounded range has every frame that the range meets. -/
theorem mem_span_of_meets {start stop roundedEnd frames : ℕ} (hmeets : Meets frame start stop)
    (hrounded : alignUp stop pageSize = some roundedEnd) (hlt : frame < frames) :
    frame ∈ span (min (start / pageSize) frames) (min (roundedEnd / pageSize) frames) := by
  obtain ⟨address, rfl, hge, haddress⟩ := hmeets
  obtain ⟨hstop, _, hdvd⟩ := alignUp_eq_some (k := 12) (by decide) hrounded
  have hfirst : start / pageSize ≤ address / pageSize := Nat.div_le_div_right hge
  have hlast : address / pageSize < roundedEnd / pageSize :=
    Nat.div_lt_div_of_lt_of_dvd hdvd (haddress.trans_le hstop)
  rw [mem_span]
  omega

theorem Roundable.alignUp {start stop : ℕ} (h : Roundable start stop) (hlt : start < stop) :
    alignUp stop pageSize ≠ none := by
  intro hnone
  have hlarge := alignUp_eq_none (k := 12) hnone
  have hle := h hlt
  simp only [pageSize] at hle
  omega

theorem Owned.reserveRange {start stop : ℕ} (h : Owned regions log s)
    (hround : Roundable start stop) :
    Owned regions (.reserved start stop :: log) (s.reserveRange start stop) := by
  unfold BitmapFrameAllocator.reserveRange
  split
  · refine h.note_reserved fun frame _ hmeets => ?_
    obtain ⟨address, _, hge, hlt⟩ := hmeets
    omega
  next hrng =>
  split
  next hnone => exact absurd hnone (hround.alignUp (not_le.mp hrng))
  next roundedEnd hrounded =>
  obtain ⟨howned, hread⟩ := h.reserveFrames (span (min (start / pageSize) s.frameCount)
    (min (roundedEnd / pageSize) s.frameCount)) fun frame hfr => (le_of_span hfr).2.2
  refine howned.note_reserved fun frame hfr hmeets => ?_
  obtain ⟨hunres, hnotin⟩ := hread frame hfr
  exact hnotin (mem_span_of_meets hmeets hrounded (h.managed _ hunres))

/-! ### Frames handed out and given back -/

theorem foldl_setAllocated (frames : List ℕ) (value : Bool) :
    frames.foldl (fun s frame => s.setAllocated frame value) s =
      { s with allocated := frames.foldl (setBit · · value) s.allocated } := by
  induction frames generalizing s with
  | nil => rfl
  | cons frame frames ih => rw [foldl_cons, ih, foldl_cons, setAllocated]

theorem foldl_takeFrame (frames : List ℕ) : frames.foldl takeFrame s =
      { s with
        allocated := frames.foldl (setBit · · true) s.allocated
        freeFrames := s.freeFrames - frames.length } := by
  induction frames generalizing s with
  | nil => rfl
  | cons frame frames ih =>
    rw [foldl_cons, ih, foldl_cons, length_cons, takeFrame, setAllocated]
    simp [Nat.sub_sub, Nat.add_comm]

theorem foldl_giveFrame (frames : List ℕ) : frames.foldl giveFrame s =
      { s with
        allocated := frames.foldl (setBit · · false) s.allocated
        freeFrames := s.freeFrames + frames.length } := by
  induction frames generalizing s with
  | nil => rfl
  | cons frame frames ih =>
    rw [foldl_cons, ih, foldl_cons, length_cons, giveFrame, setAllocated]
    simp [Nat.add_assoc, Nat.add_comm 1]

theorem Owned.takes (h : Owned regions log s) (hnd : frames.Nodup)
    (hclr : ∀ frame ∈ frames, s.isAllocated frame = false) :
    Owned regions (frames.foldl (fun log frame => .out frame :: log) log)
      (frames.foldl takeFrame s) := by
  induction frames generalizing s log with
  | nil => exact h
  | cons frame frames ih =>
    obtain ⟨hnotin, hnd⟩ := nodup_cons.mp hnd
    apply ih (h.take (hclr frame mem_cons_self)) hnd
    intro other hoth
    have hne : other ≠ frame := fun heq => hnotin (heq ▸ hoth)
    have hread : (s.takeFrame frame).isAllocated other =
      if other = frame then true else s.isAllocated other := isAllocated_setAllocated true
    rw [hread, if_neg hne]
    exact hclr other (mem_cons_of_mem _ hoth)

theorem Owned.gives (h : Owned regions log s) (hnd : frames.Nodup)
    (hset : ∀ frame ∈ frames, s.isAllocated frame ∧ s.isReserved frame = false) :
    Owned regions (frames.foldl (fun log frame => .freed frame :: log) log)
      (frames.foldl giveFrame s) := by
  induction frames generalizing s log with
  | nil => exact h
  | cons frame frames ih =>
    obtain ⟨hnotin, hnd⟩ := nodup_cons.mp hnd
    obtain ⟨halloc, hunres⟩ := hset frame mem_cons_self
    apply ih (h.give halloc hunres) hnd
    intro other hoth
    have hne : other ≠ frame := fun heq => hnotin (heq ▸ hoth)
    have hread : (s.giveFrame frame).isAllocated other =
      if other = frame then false else s.isAllocated other := isAllocated_setAllocated false
    rw [hread, if_neg hne]
    exact hset other (mem_cons_of_mem _ hoth)

theorem length_span (first frames : ℕ) : (span first (first + frames)).length = frames := by
  rw [span, length_range', Nat.add_sub_cancel_left]

/-- A run of free frames at an aligned place. -/
structure FreeRun (s : BitmapFrameAllocator) (frames alignment first : ℕ) : Prop where
  aligned : alignment ∣ first
  managed : first + frames ≤ s.frameCount
  word : first + frames ≤ u64Max
  free : ∀ frame ∈ span first (first + frames), s.isAllocated frame = false

variable {frames alignment candidate occupied : ℕ} {halign : IsPowerOfTwo alignment}

theorem FreeRun.alignUp_le (h : s.FreeRun frames alignment first) (halign : IsPowerOfTwo alignment)
    {value : ℕ} (hle : value ≤ first) :
    ∃ next, alignUp value alignment = some next ∧ next ≤ first := by
  obtain ⟨k, hk, rfl⟩ := halign
  exact exists_alignUp_le (List.mem_range.mp hk).le h.aligned hle (by have := h.word; omega)

theorem dvd_of_alignUp {value next : ℕ} (halign : IsPowerOfTwo alignment)
    (h : alignUp value alignment = some next) : alignment ∣ next := by
  obtain ⟨k, hk, rfl⟩ := halign
  exact (alignUp_eq_some (List.mem_range.mp hk).le h).2.2

/-- No run starts between a candidate and a frame in its way. -/
theorem FreeRun.past (h : s.FreeRun frames alignment first) (hle : candidate ≤ first)
    (hfind : (span candidate (candidate + frames)).find? s.isAllocated = some occupied) :
    occupied + 1 ≤ first := by
  by_contra hlt
  have hmem := mem_span.mp (mem_of_find?_eq_some hfind)
  simpa [find?_some hfind] using h.free occupied (mem_span.mpr (by omega))

theorem findContiguousFrom_cases (hdvd : alignment ∣ candidate) :
    (∃ first, s.findContiguousFrom frames alignment halign candidate = some first ∧
        s.FreeRun frames alignment first) ∨
      s.findContiguousFrom frames alignment halign candidate = none ∧
        ∀ first, candidate ≤ first → ¬s.FreeRun frames alignment first := by
  fun_induction findContiguousFrom s frames alignment halign candidate with
  | case1 candidate hadd =>
    refine .inr ⟨rfl, fun first hle h => ?_⟩
    have hword := h.word
    rw [checkedAdd, if_pos (by omega)] at hadd
    cases hadd
  | case2 candidate stop hadd hstop hfind =>
    obtain ⟨hword, rfl⟩ := checkedAdd_eq_some.mp hadd
    exact .inl ⟨candidate, rfl, hdvd, hstop, hword, fun frame hfr =>
      Bool.eq_false_iff.mpr (find?_eq_none.mp hfind frame hfr)⟩
  | case3 candidate stop hadd hstop occupied hfind hnext =>
    refine .inr ⟨rfl, fun first hle h => ?_⟩
    obtain ⟨next, hsome, _⟩ := h.alignUp_le halign (h.past hle hfind)
    simp [hnext] at hsome
  | case4 candidate stop hadd hstop occupied hfind next hnext ih =>
    refine (ih (dvd_of_alignUp halign hnext)).imp_right fun hnone =>
      ⟨hnone.1, fun first hle h => ?_⟩
    obtain ⟨_, hsome, hbehind⟩ := h.alignUp_le halign (h.past hle hfind)
    rw [hnext] at hsome
    cases hsome
    exact hnone.2 first hbehind h
  | case5 candidate stop hadd hstop =>
    refine .inr ⟨rfl, fun first hle h => ?_⟩
    obtain ⟨_, rfl⟩ := checkedAdd_eq_some.mp hadd
    have hmanaged := h.managed
    omega

theorem findContiguous_cases (s : BitmapFrameAllocator) (frames : ℕ)
    (halign : IsPowerOfTwo alignment) (searchStart : ℕ) :
    (∃ first, s.findContiguous searchStart frames alignment halign = some first ∧
        s.FreeRun frames alignment first) ∨
      s.findContiguous searchStart frames alignment halign = none ∧
        ∀ first, searchStart ≤ first → ¬s.FreeRun frames alignment first := by
  unfold findContiguous
  split
  next hnone =>
    refine .inr ⟨rfl, fun first hle h => ?_⟩
    obtain ⟨_, hsome, _⟩ := h.alignUp_le halign hle
    simp [hnone] at hsome
  next candidate hcandidate =>
    refine (findContiguousFrom_cases (dvd_of_alignUp halign hcandidate)).imp_right
      fun hnone => ⟨hnone.1, fun first hle h => ?_⟩
    obtain ⟨_, hsome, hbehind⟩ := h.alignUp_le halign hle
    rw [hcandidate] at hsome
    cases hsome
    exact hnone.2 first hbehind h

/-- The second search starts at zero and misses nothing. -/
theorem allocateContiguous_cases (s : BitmapFrameAllocator) (frames alignment : ℕ) :
    (s.allocateContiguous frames alignment = (none, s) ∧
        (frames ≠ 0 → IsPowerOfTwo alignment → frames ≤ s.freeFrames →
          ∀ first, ¬s.FreeRun frames alignment first)) ∨
      frames ≠ 0 ∧ IsPowerOfTwo alignment ∧ ∃ first, s.FreeRun frames alignment first ∧
        s.allocateContiguous frames alignment = (some (first * pageSize),
          { s with
            allocated := (span first (first + frames)).foldl (setBit · · true) s.allocated
            freeFrames := s.freeFrames - frames
            nextSearch := (first + frames) % s.frameCount }) := by
  unfold allocateContiguous
  split
  next hbad =>
    refine .inl ⟨rfl, fun hframes halign hle => ?_⟩
    rcases hbad with hzero | hnot | hlt
    · exact absurd hzero hframes
    · exact absurd halign hnot
    · omega
  next hgood =>
  simp only [not_or, not_not] at hgood
  dsimp only
  rcases findContiguous_cases s frames hgood.2.1 s.nextSearch with
    ⟨first, hfirst, hrun⟩ | ⟨hnone, _⟩
  · rw [hfirst, Option.some_or]
    refine .inr ⟨hgood.1, hgood.2.1, first, hrun, ?_⟩
    simp [foldl_setAllocated]
  rw [hnone, Option.none_or]
  rcases findContiguous_cases s frames hgood.2.1 0 with
    ⟨first, hfirst, hrun⟩ | ⟨hnone, hruns⟩
  · rw [hfirst]
    refine .inr ⟨hgood.1, hgood.2.1, first, hrun, ?_⟩
    simp [foldl_setAllocated]
  · rw [hnone]
    exact .inl ⟨rfl, fun _ _ _ first => hruns first (Nat.zero_le first)⟩

theorem Owned.allocate (h : Owned regions log s) :
    (s.allocate.1 = none ∧ Owned regions log s.allocate.2) ∨
      ∃ frame, s.allocate.1 = some (frame * pageSize) ∧
        Owned regions (.out frame :: log) s.allocate.2 := by
  unfold BitmapFrameAllocator.allocate
  split
  · exact .inl ⟨rfl, h⟩
  split
  · exact .inl ⟨rfl, h⟩
  next hfind =>
  have hclr := find?_some hfind
  rw [Bool.not_eq_true'] at hclr
  exact .inr ⟨_, rfl, (h.take hclr).search _⟩

theorem Owned.allocateContiguous (h : Owned regions log s) :
    ((s.allocateContiguous frames alignment).1 = none ∧
        Owned regions log (s.allocateContiguous frames alignment).2) ∨
      ∃ first, (s.allocateContiguous frames alignment).1 = some (first * pageSize) ∧
        Owned regions ((span first (first + frames)).foldl (fun log frame => .out frame :: log) log)
          (s.allocateContiguous frames alignment).2 := by
  rcases allocateContiguous_cases s frames alignment with ⟨heq, _⟩ | ⟨_, _, first, hrun, heq⟩
  · rw [heq]
    exact .inl ⟨rfl, h⟩
  rw [heq]
  have htaken := h.takes (nodup_span ..) hrun.free
  rw [foldl_takeFrame, length_span] at htaken
  exact .inr ⟨first, rfl, htaken.search _⟩

theorem deallocateContiguous_cases (s : BitmapFrameAllocator) (firstFrame frames : ℕ) :
    (∃ e, s.deallocateContiguous firstFrame frames = (.error e, s)) ∨
      (∀ frame ∈ span (firstFrame / pageSize) (firstFrame / pageSize + frames),
        frame < s.frameCount ∧ s.isAllocated frame ∧ s.isReserved frame = false) ∧
      s.deallocateContiguous firstFrame frames = (.ok (),
        { s with
          allocated := (span (firstFrame / pageSize) (firstFrame / pageSize + frames)).foldl
            (setBit · · false) s.allocated
          freeFrames := s.freeFrames + frames
          nextSearch := firstFrame / pageSize }) := by
  unfold deallocateContiguous
  split
  · exact .inl ⟨_, rfl⟩
  split
  · exact .inl ⟨_, rfl⟩
  dsimp only
  split
  · exact .inl ⟨_, rfl⟩
  next hstop =>
  split
  · exact .inl ⟨_, rfl⟩
  next hclean =>
  obtain ⟨hadd, hle⟩ := Option.filter_eq_some_iff.mp hstop
  obtain ⟨_, rfl⟩ := checkedAdd_eq_some.mp hadd
  refine .inr ⟨fun frame hfr => ⟨?_, ?_⟩, by simp only [foldl_setAllocated]⟩
  · exact (mem_span.mp hfr).2.trans_le (of_decide_eq_true hle)
  have hnone := findSome?_eq_none_iff.mp hclean frame hfr
  unfold releaseError at hnone
  split at hnone
  · cases hnone
  next hrsv =>
  split at hnone
  · cases hnone
  next halloc => exact ⟨by simpa using halloc, Bool.eq_false_iff.mpr hrsv⟩

theorem Owned.deallocateContiguous {firstFrame : ℕ} (h : Owned regions log s) :
    (∃ e, s.deallocateContiguous firstFrame frames = (.error e, s)) ∨
      (s.deallocateContiguous firstFrame frames).1 = .ok () ∧
        Owned regions ((span (firstFrame / pageSize) (firstFrame / pageSize + frames)).foldl
          (fun log frame => .freed frame :: log) log)
            (s.deallocateContiguous firstFrame frames).2 := by
  refine (deallocateContiguous_cases s firstFrame frames).imp_right fun ⟨hset, heq⟩ => ?_
  rw [heq]
  have hgiven := h.gives (nodup_span ..) fun frame hfr => (hset frame hfr).2
  rw [foldl_giveFrame, length_span] at hgiven
  exact ⟨rfl, hgiven.search _⟩

end BitmapFrameAllocator

end ArachKernel.Abyss
