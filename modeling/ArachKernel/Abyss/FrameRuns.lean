import ArachKernel.Abyss.FrameOwnership

/-!
Runs of the frame allocator: every call in any order, from any memory map. Frames are owned
once as long as no usable region shares an address with another kind of region and every
reserved range can be rounded up to a page. Two short runs show what happens otherwise: the
overlap is handed out, and a range up to the last page of the address space is not reserved.
-/

namespace ArachKernel.Abyss

/-- No address is in a usable region and in one of another kind. -/
def MemoryMap.Separate (map : MemoryMap) : Prop :=
  ∀ region ∈ map.regions, region.kind = .usable → ∀ other ∈ map.regions, other.kind ≠ .usable →
    other.stop ≤ region.start ∨ region.stop ≤ other.start

namespace BitmapFrameAllocator

open Bitmap

inductive FrameCall : Type → Type
  | reserveRange (start stop : ℕ) : FrameCall Unit
  | applyReservations (entries : List (ℕ × ℕ)) : FrameCall Unit
  | allocate : FrameCall (Option ℕ)
  | allocateContiguous (frames alignment : ℕ) : FrameCall (Option ℕ)
  | deallocate (frame : ℕ) : FrameCall (Except FrameAllocatorError Unit)
  | deallocateContiguous (firstFrame frames : ℕ) : FrameCall (Except FrameAllocatorError Unit)

def exec : Handler FrameCall BitmapFrameAllocator
  | _, .reserveRange start stop, s => ((), s.reserveRange start stop)
  | _, .applyReservations entries, s => ((), s.applyReservations entries)
  | _, .allocate, s => s.allocate
  | _, .allocateContiguous frames alignment, s => s.allocateContiguous frames alignment
  | _, .deallocate frame, s => s.deallocate frame
  | _, .deallocateContiguous firstFrame frames, s => s.deallocateContiguous firstFrame frames

def FrameCall.reserves {α : Type} : FrameCall α → Bool
  | .reserveRange .. | .applyReservations .. => true
  | _ => false

/-- The frames from this address on. -/
def framesFrom (address frames : ℕ) : List ℕ :=
  span (address / pageSize) (address / pageSize + frames)

def noteOut (log : List Event) (frames : List ℕ) : List Event :=
  frames.foldl (fun log frame => .out frame :: log) log

def noteFreed (log : List Event) (frames : List ℕ) : List Event :=
  frames.foldl (fun log frame => .freed frame :: log) log

def noteReserved (log : List Event) (entries : List (ℕ × ℕ)) : List Event :=
  entries.foldl (fun log entry => .reserved entry.1 entry.2 :: log) log

/-- The history after a call with this answer. -/
def note (log : List Event) {α : Type} : FrameCall α → α → List Event
  | .reserveRange start stop => fun _ => .reserved start stop :: log
  | .applyReservations entries => fun _ => noteReserved log entries
  | .allocate => fun answer => answer.elim log fun address => .out (address / pageSize) :: log
  | .allocateContiguous frames _ => fun answer =>
    answer.elim log fun address => noteOut log (framesFrom address frames)
  | .deallocate address => fun answer =>
    answer.toOption.elim log fun _ => noteFreed log (framesFrom address 1)
  | .deallocateContiguous address frames => fun answer =>
    answer.toOption.elim log fun _ => noteFreed log (framesFrom address frames)

/-- The allocator of a memory map after some calls, with its history. -/
inductive Reached (map : MemoryMap) : List Event → BitmapFrameAllocator → Prop
  | new {maximumAddress storage : ℕ} {s : BitmapFrameAllocator}
      (h : BitmapFrameAllocator.new map maximumAddress storage = .ok s) : Reached map [] s
  | call {log : List Event} {s : BitmapFrameAllocator} (h : Reached map log s) {α : Type}
      (c : FrameCall α) : Reached map (note log c (exec _ c s).1) (exec _ c s).2

/-- Physical frames are owned once. -/
structure OwnedOnce (map : MemoryMap) (log : List Event) (s : BitmapFrameAllocator) : Prop where
  /-- The counter has the number of clear bits. -/
  counted : s.freeFrames = s.free.card
  /-- No frame is handed out a second time before it is given back. -/
  nodup : (outstanding log).Nodup
  /-- A frame that is handed out meets no range that is reserved at that time. -/
  spares : log.Pairwise Spares
  /-- A frame that is handed out meets no region of another kind. -/
  usable : ∀ frame, .out frame ∈ log → ∀ region ∈ map.regions, region.kind ≠ .usable →
    ¬Meets frame region.start region.stop

def AllRoundable (log : List Event) : Prop :=
  ∀ start stop, .reserved start stop ∈ log → Roundable start stop

variable {s : BitmapFrameAllocator} {map : MemoryMap} {log : List Event} {event : Event} {α : Type}

/-! ### The steps -/

theorem mem_foldl_cons {ι : Type} (f : ι → Event) (items : List ι) (h : event ∈ log) :
    event ∈ items.foldl (fun log item => f item :: log) log := by
  induction items generalizing log with
  | nil => exact h
  | cons item items ih => exact ih (List.mem_cons_of_mem _ h)

/-- Events stay in the history. -/
theorem mem_note (h : event ∈ log) (c : FrameCall α) (answer : α) : event ∈ note log c answer := by
  cases c with
  | reserveRange => exact List.mem_cons_of_mem _ h
  | applyReservations => exact mem_foldl_cons (fun entry : ℕ × ℕ => .reserved entry.1 entry.2) _ h
  | allocate =>
    cases answer with
    | none => exact h
    | some => exact List.mem_cons_of_mem _ h
  | allocateContiguous =>
    cases answer with
    | none => exact h
    | some => exact mem_foldl_cons .out _ h
  | deallocate | deallocateContiguous =>
    cases answer with
    | error => exact h
    | ok => exact mem_foldl_cons .freed _ h

variable {regions : List MemoryRegion}

theorem Owned.applyReservations {entries : List (ℕ × ℕ)}
    (h : Owned regions log s) (hround : AllRoundable (noteReserved log entries)) :
    Owned regions (noteReserved log entries) (s.applyReservations entries) := by
  induction entries generalizing s log with
  | nil => exact h
  | cons entry entries ih =>
    have hnew : .reserved entry.1 entry.2 ∈ .reserved entry.1 entry.2 :: log := List.mem_cons_self
    have hmem := mem_foldl_cons (fun entry : ℕ × ℕ => Event.reserved entry.1 entry.2) entries hnew
    exact ih (h.reserveRange (hround _ _ hmem)) hround

theorem exec_owned (h : Owned regions log s)
    (c : FrameCall α) (hround : c.reserves → AllRoundable (note log c (exec _ c s).1)) :
    Owned regions (note log c (exec _ c s).1) (exec _ c s).2 := by
  have hpage : ∀ frame, frame * pageSize / pageSize = frame := fun frame =>
    Nat.mul_div_cancel frame (by decide)
  cases c with
  | reserveRange start stop => exact h.reserveRange (hround rfl start stop List.mem_cons_self)
  | applyReservations => exact h.applyReservations (hround rfl)
  | allocate =>
    simp only [exec, note]
    rcases h.allocate with ⟨hnone, howned⟩ | ⟨frame, hsome, howned⟩
    · rw [hnone]
      exact howned
    · rw [hsome, Option.elim_some, hpage]
      exact howned
  | allocateContiguous =>
    simp only [exec, note]
    rcases h.allocateContiguous with ⟨hnone, howned⟩ | ⟨first, hsome, howned⟩
    · rw [hnone]
      exact howned
    · rw [hsome, Option.elim_some, framesFrom, hpage]
      exact howned
  | deallocate | deallocateContiguous =>
    simp only [exec, BitmapFrameAllocator.deallocate]
    rcases h.deallocateContiguous with ⟨e, herr⟩ | ⟨hok, howned⟩
    · rw [herr]
      exact h
    · rw [hok]
      exact howned

theorem Reached.owned (h : Reached map log s) (hround : AllRoundable log) :
    Owned map.regions log s := by
  induction h with
  | new h => exact owned_new h
  | call _ c ih =>
    exact exec_owned (ih fun start stop hmem => hround start stop (mem_note hmem c _)) c
      fun _ => hround

/-- A range that cannot be rounded is not reserved at all. -/
theorem Owned.reserveAny (h : Owned regions log s) (start stop : ℕ) :
    ∃ log, Owned regions log (s.reserveRange start stop) := by
  by_cases hround : Roundable start stop
  · exact ⟨_, h.reserveRange hround⟩
  · rw [Roundable, Classical.not_imp, not_le] at hround
    have hnone : alignUp stop pageSize = none := by
      rw [alignUp, checkedAdd, if_neg (not_le.mpr hround.2)]
      rfl
    rw [BitmapFrameAllocator.reserveRange, if_neg (not_le.mpr hround.1), hnone]
    exact ⟨log, h⟩

/-- The counter is right in every run. -/
theorem Reached.counted (h : Reached map log s) : s.freeFrames = s.free.card := by
  suffices howned : ∃ log, Owned map.regions log s from howned.elim fun _ howned => howned.counted
  induction h with
  | new h => exact ⟨_, owned_new h⟩
  | call _ c ih =>
    obtain ⟨log, howned⟩ := ih
    cases c with
    | reserveRange start stop => exact howned.reserveAny start stop
    | applyReservations entries =>
      simp only [exec, BitmapFrameAllocator.applyReservations]
      refine List.foldlRecOn (motive := fun s => ∃ log, Owned map.regions log s) entries _
        ⟨log, howned⟩ fun s h entry _ => ?_
      exact h.elim fun _ h => h.reserveAny entry.1 entry.2
    | _ => exact ⟨_, exec_owned howned _ nofun⟩

/-- A frame that a usable region has meets no region that is apart from it. -/
theorem not_meets_of_inside {frame : ℕ} (hinside : Inside map.regions frame) (hmap : map.Separate)
    {region : MemoryRegion} (hregion : region ∈ map.regions) (hkind : region.kind ≠ .usable) :
    ¬Meets frame region.start region.stop := by
  rintro ⟨address, rfl, hge, hlt⟩
  obtain ⟨home, hhome, husable, hstart, hstop⟩ := hinside
  have hapart := hmap home hhome husable region hregion hkind
  have hdiv := Nat.div_add_mod address pageSize
  have hmod := Nat.mod_lt address (show 0 < pageSize by decide)
  simp only [pageSize] at hstart hstop hdiv hmod
  omega

/-- Frames are owned once in every run over a map whose usable regions are apart from the
others, if every range to reserve can be rounded up to a page. -/
theorem frames_owned_once (h : Reached map log s) (hmap : map.Separate)
    (hround : AllRoundable log) : OwnedOnce map log s := by
  have howned := h.owned hround
  exact ⟨howned.counted, howned.nodup, howned.spares, fun frame hfr region hregion hkind =>
    not_meets_of_inside (howned.handed frame hfr) hmap hregion hkind⟩

/-! ### Short runs -/

/-- Some calls one after the other, with the history. -/
def runs :
    List (Sigma FrameCall) → List Event × BitmapFrameAllocator → List Event × BitmapFrameAllocator
  | [], x => x
  | ⟨_, c⟩ :: calls, x => runs calls (note x.1 c (exec _ c x.2).1, (exec _ c x.2).2)

theorem Reached.runs (calls : List (Sigma FrameCall)) {x : List Event × BitmapFrameAllocator}
    (h : Reached map x.1 x.2) : Reached map (runs calls x).1 (runs calls x).2 := by
  induction calls generalizing x with
  | nil => exact h
  | cons c calls ih => exact ih (x := (_, _)) (h.call c.2)

/-- The history of some calls on a new allocator. -/
def history (map : MemoryMap) (maximumAddress : ℕ) (calls : List (Sigma FrameCall)) :
    Option (List Event) :=
  match BitmapFrameAllocator.new map maximumAddress 2 with
  | .error _ => none
  | .ok s => some (runs calls ([], s)).1

theorem reached_of_history {maximumAddress : ℕ} {calls : List (Sigma FrameCall)}
    (h : history map maximumAddress calls = some log) : ∃ s, Reached map log s := by
  unfold history at h
  split at h
  · cases h
  next s hnew =>
  cases h
  exact ⟨_, Reached.runs calls (x := ([], s)) (.new hnew)⟩

def plainMap : MemoryMap where
  regions := [{ start := 0, stop := 8192, kind := .usable }]
  valid := by decide
  length_le := by decide

theorem frames_owned_once_plain :
    ∃ log s, .reserved 0 100 ∈ log ∧ .out 1 ∈ log ∧ OwnedOnce plainMap log s := by
  have hhistory : history plainMap 8192 [⟨_, .reserveRange 0 100⟩, ⟨_, .allocate⟩] =
      some [.out 1, .reserved 0 100] := by decide +kernel
  obtain ⟨s, hreach⟩ := reached_of_history hhistory
  have hseparate : plainMap.Separate := by
    intro region _ _ other hoth hkind
    cases List.mem_singleton.mp hoth
    exact absurd rfl hkind
  refine ⟨_, s, by decide, by decide, frames_owned_once hreach hseparate ?_⟩
  intro start stop hmem
  rcases List.mem_cons.mp hmem with heq | hmem
  · cases heq
  · cases List.mem_singleton.mp hmem
    exact fun _ => by decide

/-- The second page is in both regions. -/
def overlappingMap : MemoryMap where
  regions := [{ start := 0, stop := 8192, kind := .usable },
    { start := 4096, stop := 8192, kind := .reserved }]
  valid := by decide
  length_le := by decide

/-- A frame of a reserved region is handed out, and so is one of a range that was reserved up
to the end of the address space. -/
theorem frames_handed_out_reserved :
    (∃ log s, Reached overlappingMap log s ∧ ¬OwnedOnce overlappingMap log s) ∧
      ∃ log s, Reached plainMap log s ∧ ¬OwnedOnce plainMap log s := by
  constructor
  · have hhistory : history overlappingMap 8192 [⟨_, .allocate⟩, ⟨_, .allocate⟩] =
        some [.out 1, .out 0] := by decide +kernel
    obtain ⟨s, hreach⟩ := reached_of_history hhistory
    refine ⟨_, s, hreach, fun h => ?_⟩
    exact h.usable 1 (by decide) { start := 4096, stop := 8192, kind := .reserved }
      (by decide) (by decide) ⟨4096, by decide, by decide, by decide⟩
  · have hhistory : history plainMap 8192 [⟨_, .reserveRange 0 u64Max⟩, ⟨_, .allocate⟩] =
        some [.out 0, .reserved 0 u64Max] := by decide +kernel
    obtain ⟨s, hreach⟩ := reached_of_history hhistory
    refine ⟨_, s, hreach, fun h => ?_⟩
    exact (List.pairwise_cons.mp h.spares).1 _ List.mem_cons_self 0 0 u64Max rfl rfl
      ⟨0, by decide, by decide, by decide⟩

/-! ### Reserved for good -/

/-- The frames that a call with this answer hands out or takes back. -/
def moved : FrameCall α → α → List ℕ
  | .allocate, some address => framesFrom address 1
  | .allocateContiguous frames _, some address => framesFrom address frames
  | .deallocate address, .ok _ => framesFrom address 1
  | .deallocateContiguous address frames, .ok _ => framesFrom address frames
  | _, _ => []

/-- The frame is reserved, or not managed at all. -/
def Barred (s : BitmapFrameAllocator) (frame : ℕ) : Prop :=
  frame < s.frameCount → s.isReserved frame ∧ s.isAllocated frame

variable {frame : ℕ} {frames : List ℕ}

theorem foldl_reserveFrame_barred (h : frame ∈ frames ∨ s.Barred frame) :
    (frames.foldl reserveFrame s).Barred frame := by
  induction frames generalizing s with
  | nil => exact h.resolve_left List.not_mem_nil
  | cons first frames ih =>
    refine ih ?_
    simp only [List.mem_cons, Barred, frameCount_reserveFrame, isReserved_reserveFrame,
      isAllocated_reserveFrame, Bool.or_eq_true, decide_eq_true_eq] at h ⊢
    tauto

namespace Barred

variable (h : s.Barred frame)
include h

theorem reserveRange (start stop : ℕ) : (s.reserveRange start stop).Barred frame := by
  unfold BitmapFrameAllocator.reserveRange
  split
  · exact h
  split
  · exact h
  · exact foldl_reserveFrame_barred (.inr h)

/-- Writing the bits of other frames does not matter. -/
theorem write {value : Bool} (hnot : frame ∉ frames) (free next : ℕ) : Barred { s with
      allocated := frames.foldl (setBit · · value) s.allocated
      freeFrames := free
      nextSearch := next } frame := by
  intro hlt
  refine ⟨(h hlt).1, (bitIsSet_foldl_setBit ..).trans ?_⟩
  rw [if_neg hnot]
  exact (h hlt).2

theorem exec (c : FrameCall α) : frame ∉ moved c (exec _ c s).1 ∧ (exec _ c s).2.Barred frame := by
  cases c with
  | reserveRange start stop => exact ⟨List.not_mem_nil, h.reserveRange start stop⟩
  | applyReservations entries =>
    refine ⟨List.not_mem_nil, ?_⟩
    simp only [BitmapFrameAllocator.exec]
    induction entries generalizing s with
    | nil => exact h
    | cons entry entries ih => exact ih (h.reserveRange entry.1 entry.2)
  | allocate =>
    simp only [BitmapFrameAllocator.exec, BitmapFrameAllocator.allocate]
    split
    · exact ⟨List.not_mem_nil, h⟩
    split
    · exact ⟨List.not_mem_nil, h⟩
    next offset hfind =>
    have hne : frame ≠ (s.nextSearch + offset) % s.frameCount := by
      rintro rfl
      have hoffset := List.mem_range.mp (List.mem_of_find?_eq_some hfind)
      simpa [(h (Nat.mod_lt _ (by omega))).2] using List.find?_some hfind
    refine ⟨?_, h.write (show frame ∉ [_] by simpa using hne) _ _⟩
    show frame ∉ framesFrom (_ * pageSize) 1
    rw [framesFrom, Nat.mul_div_cancel _ (by decide), mem_span]
    omega
  | allocateContiguous frames alignment =>
    simp only [BitmapFrameAllocator.exec]
    rcases allocateContiguous_cases s frames alignment with ⟨heq, _⟩ | ⟨_, _, first, hrun, heq⟩
    · rw [heq]
      exact ⟨List.not_mem_nil, h⟩
    have hnot : frame ∉ span first (first + frames) := fun hmem => by
      simpa [(h ((mem_span.mp hmem).2.trans_le hrun.managed)).2] using hrun.free frame hmem
    rw [heq]
    refine ⟨?_, h.write hnot _ _⟩
    show frame ∉ framesFrom (first * pageSize) frames
    rwa [framesFrom, Nat.mul_div_cancel first (by decide)]
  | deallocate | deallocateContiguous =>
    simp only [BitmapFrameAllocator.exec, BitmapFrameAllocator.deallocate]
    rcases deallocateContiguous_cases s _ _ with ⟨e, heq⟩ | ⟨hset, heq⟩
    · rw [heq]
      exact ⟨List.not_mem_nil, h⟩
    rw [heq]
    refine ⟨fun hmem => ?_, h.write (fun hmem => ?_) _ _⟩
    all_goals
      obtain ⟨hlt, _, hunres⟩ := hset frame hmem
      simp [(h hlt).1] at hunres

theorem runs (calls : List (Sigma FrameCall)) : (runs calls (log, s)).2.Barred frame := by
  induction calls generalizing s log with
  | nil => exact h
  | cons c calls ih => exact ih (h.exec c.2).2

end Barred

/-- A range that can be rounded, or has no managed frame, is reserved for good: no later call
hands out or takes back a frame that it meets. -/
theorem reserved_range_permanent {start stop : ℕ}
    (hround : Roundable start stop ∨ s.frameCount ≤ start / pageSize)
    (calls : List (Sigma FrameCall)) (c : FrameCall α) (hmeets : Meets frame start stop) :
    frame ∉ moved c (exec _ c (runs calls ([], s.reserveRange start stop)).2).1 := by
  have hreserved : (s.reserveRange start stop).Barred frame := by
    by_cases hlt : frame < s.frameCount
    · have hrange : start < stop := by
        obtain ⟨_, _, hge, hlt⟩ := hmeets
        exact hge.trans_lt hlt
      unfold BitmapFrameAllocator.reserveRange
      rw [if_neg (not_le.mpr hrange)]
      split
      next hnone =>
        refine absurd hnone ((hround.resolve_right ?_).alignUp hrange)
        obtain ⟨address, rfl, hge, _⟩ := hmeets
        exact not_le.mpr ((Nat.div_le_div_right hge).trans_lt hlt)
      next hrounded =>
        exact foldl_reserveFrame_barred (.inl (mem_span_of_meets hmeets hrounded hlt))
    · exact Barred.reserveRange (fun hlt' => absurd hlt' hlt) start stop
  exact ((hreserved.runs calls).exec c).1

/-- All frames of one word are free. -/
def allFree : BitmapFrameAllocator :=
  { allocated := fun _ => 0, reserved := fun _ => 0, frameCount := 64, nextSearch := 0,
    freeFrames := 64 }

theorem reserved_range_permanent_allFree :
    0 ∉ moved .allocate (exec _ .allocate (allFree.reserveRange 0 100)).1 :=
  reserved_range_permanent (.inl fun _ => by decide) [] .allocate
    ⟨0, by decide, by decide, by decide⟩

/-- A range up to the last page of the address space is not reserved. -/
theorem reserve_range_ignored : Meets 0 0 u64Max ∧
    ((BitmapFrameAllocator.new plainMap 8192 2).toOption.map fun s =>
      moved .allocate (exec _ .allocate (s.reserveRange 0 u64Max)).1) = some [0] :=
  ⟨⟨0, by decide, by decide, by decide⟩, by decide +kernel⟩

/-! ### Contiguous frames -/

theorem FreeRun.le_freeFrames {count alignment first : ℕ} (h : s.FreeRun count alignment first)
    (hcounted : s.freeFrames = s.free.card) : count ≤ s.freeFrames := by
  have hsub : (span first (first + count)).toFinset ⊆ s.free := fun frame hfr => by
    rw [List.mem_toFinset] at hfr
    exact mem_free.mpr ⟨lt_words ((mem_span.mp hfr).2.trans_le h.managed), h.free frame hfr⟩
  have hcard := Finset.card_le_card hsub
  rwa [List.toFinset_card_of_nodup (nodup_span ..), length_span, ← hcounted] at hcard

/-- The counter is right in every run. With the right counter, a search fails only when there is
no run; it takes the bits of the run it finds. A release that fails changes nothing. -/
theorem contiguous_allocation_complete (count alignment : ℕ) :
    (∀ map log, Reached map log s → s.freeFrames = s.free.card) ∧ (s.freeFrames = s.free.card →
        s.allocateContiguous count alignment = (none, s) ∧ (count ≠ 0 → IsPowerOfTwo alignment →
          ∀ first, ¬s.FreeRun count alignment first) ∨
        count ≠ 0 ∧ IsPowerOfTwo alignment ∧ ∃ first s', s.FreeRun count alignment first ∧
          s.allocateContiguous count alignment = (some (first * pageSize), s') ∧
          s'.reserved = s.reserved ∧ ∀ frame, s'.isAllocated frame =
            if frame ∈ span first (first + count) then true else s.isAllocated frame) ∧
      ∀ address, (∃ e, s.deallocateContiguous address count = (.error e, s)) ∨
        (s.deallocateContiguous address count).1 = .ok () := by
  refine ⟨fun _ _ h => h.counted, fun hcounted => ?_, fun address =>
    (deallocateContiguous_cases s address count).imp_right fun h => congrArg Prod.fst h.2⟩
  rcases allocateContiguous_cases s count alignment with
    ⟨heq, hnone⟩ | ⟨hcount, halign, first, hrun, heq⟩
  · exact .inl ⟨heq, fun hcount halign first hrun =>
    hnone hcount halign (hrun.le_freeFrames hcounted) first hrun⟩
  · exact .inr ⟨hcount, halign, first, _, hrun, heq, rfl, fun _ => bitIsSet_foldl_setBit ..⟩

theorem contiguous_allocation_complete_allFree : (allFree.allocateContiguous 2 2).1 ≠ none := by
  have hrun : allFree.FreeRun 2 2 0 := ⟨by decide, by decide, by decide, by decide +kernel⟩
  rcases (contiguous_allocation_complete (s := allFree) 2 2).2.1 (by decide +kernel) with
    ⟨_, hnone⟩ | ⟨_, _, first, s', _, heq, _⟩
  · exact absurd hrun (hnone (by decide) ⟨1, by decide, rfl⟩ 0)
  · rw [heq]
    nofun

/-- A free frame is aligned to any number of frames, and a run of no frames is always there. -/
theorem contiguous_allocation_refused : allFree.FreeRun 1 3 0 ∧ allFree.FreeRun 0 1 0 ∧
    (allFree.allocateContiguous 1 3).1 = none ∧ (allFree.allocateContiguous 0 1).1 = none :=
  ⟨⟨by decide, by decide, by decide, by decide +kernel⟩,
    ⟨by decide, by decide, by decide, by decide +kernel⟩, by decide +kernel, by decide +kernel⟩

end BitmapFrameAllocator

end ArachKernel.Abyss
