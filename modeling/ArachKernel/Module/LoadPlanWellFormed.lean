import ArachKernel.Module.LoadPlan

/-!
What a load plan promises: its segments lie in the file and in the address space, none of
them is both writable and executable, the image spans exactly the segments, the program
starts in executable memory, and the address of the program headers is where they are
loaded.

The bias of a shared object is a multiple of the page size and of nothing more. A segment
with a larger alignment keeps its place in the file modulo the alignment only if the
alignment divides the bias.
-/

namespace ArachKernel.Loader

open List

open Guarded
open Storage (word byteAt_safe slice_eq_safe minus_safe plus_safe times_safe checkedSub_eq_some
  checkedMul_eq_some)

variable {I : Unit → Prop} {bytes header : List UInt8}

/-! ### What the file says -/

/-- The program header with an index. -/
def headerAt (bytes : List UInt8) (index : ℕ) : List UInt8 :=
  (bytes.drop (word 8 bytes 32 + index * programHeaderLength)).take programHeaderLength

/-- The segment a program header describes. -/
def segmentOf (header : List UInt8) : LoadSegment where
  fileOffset := word 8 header 8
  fileSize := word 8 header 32
  virtualAddress := word 8 header 16
  memorySize := word 8 header 40
  alignment := word 8 header 48
  readable := word 4 header 4 &&& segmentReadable ≠ 0
  writable := word 4 header 4 &&& segmentWritable ≠ 0
  executable := word 4 header 4 &&& segmentExecutable ≠ 0

/-- The header asks for memory. -/
def isLoadable (header : List UInt8) : Bool :=
  word 4 header 0 = segmentLoad ∧ word 8 header 40 ≠ 0

/-- The segments of the first program headers. -/
def loadable (bytes : List UInt8) (count : ℕ) : List LoadSegment :=
  (((List.range count).map (headerAt bytes)).filter isLoadable).map segmentOf

def leastAddress (segments : List LoadSegment) : ℕ :=
  segments.foldl (fun least segment => min least segment.virtualAddress) u64Max

/-- Every alignment of a shared object divides the distance it is moved by. -/
def BiasAligned (bytes : List UInt8) (positionIndependentBase : ℕ) : Prop :=
  let segments := loadable bytes (word 2 bytes 56)
  word 2 bytes 16 = elfTypeSharedObject → ∀ segment ∈ segments, 1 < segment.alignment →
    segment.alignment ∣ positionIndependentBase - alignDown (leastAddress segments)

theorem loadable_succ (bytes : List UInt8) (count : ℕ) :
    loadable bytes (count + 1) = loadable bytes count ++
      if isLoadable (headerAt bytes count) then [segmentOf (headerAt bytes count)] else [] := by
  rw [loadable, range_succ, map_append, filter_append, map_append]
  congr 1
  cases h : isLoadable (headerAt bytes count) <;> simp [h]

/-! ### What a plan promises -/

/-- A segment as its program header has to describe it. -/
structure LoadSegment.Admissible (bytes : List UInt8) (segment : LoadSegment) : Prop where
  inFile : segment.fileOffset + segment.fileSize ≤ bytes.length
  fits : segment.fileSize ≤ segment.memorySize
  notWriteExecute : ¬ (segment.writable ∧ segment.executable)
  inSpace : segment.virtualAddress + segment.memorySize ≤ u64Max

/-- The segment's address agrees with its place in the file modulo its alignment. -/
def LoadSegment.Congruent (segment : LoadSegment) : Prop :=
  1 < segment.alignment →
    segment.virtualAddress % segment.alignment = segment.fileOffset % segment.alignment

/-- The least start and the greatest end of some segments. -/
structure Spans (segments : List LoadSegment) (start stop : ℕ) : Prop where
  first : ∃ segment ∈ segments, segment.virtualAddress = start
  least : ∀ segment ∈ segments, start ≤ segment.virtualAddress
  last : ∃ segment ∈ segments, segment.virtualAddress + segment.memorySize = stop
  greatest : ∀ segment ∈ segments, segment.virtualAddress + segment.memorySize ≤ stop

structure LoadPlan.WellFormed (bytes : List UInt8) (plan : LoadPlan) : Prop where
  count_pos : 1 ≤ plan.segments.length
  count_le : plan.segments.length ≤ maximumLoadSegments
  admissible : ∀ segment ∈ plan.segments, segment.Admissible bytes
  spans : Spans plan.segments plan.imageStart plan.imageEnd
  inSpace : plan.imageEnd ≤ u64Max
  entry : ∃ segment ∈ plan.segments, segment.executable ∧ segment.virtualAddress ≤ plan.entryPoint ∧
    plan.entryPoint < segment.virtualAddress + segment.memorySize
  programHeaders : ∀ address, plan.programHeaderAddress = some address →
    ∃ segment ∈ plan.segments, segment.fileOffset ≤ word 8 bytes 32 ∧
      word 8 bytes 32 + word 2 bytes 56 * programHeaderLength ≤
        segment.fileOffset + segment.fileSize ∧
      address = segment.virtualAddress + (word 8 bytes 32 - segment.fileOffset)

def LoadPlan.Congruent (plan : LoadPlan) : Prop :=
  ∀ segment ∈ plan.segments, segment.Congruent

/-! ### Segments -/

theorem readWord_safe {width offset : ℕ} {e : LoaderError} :
    Safe I (okOr e (readWord width bytes offset) : LoaderM ℕ) fun value =>
      value = word width bytes offset ∧ offset + width ≤ bytes.length := by
  refine .okOr ?_
  intro value h
  rw [readWord] at h
  split at h
  next hlen =>
    cases h
    exact ⟨rfl, hlen⟩
  · cases h

theorem writable_and_executable {flags : ℕ} (hw : flags &&& segmentWritable ≠ 0)
    (hx : flags &&& segmentExecutable ≠ 0) :
    flags &&& (segmentWritable ||| segmentExecutable) = segmentWritable ||| segmentExecutable := by
  have hw' : flags &&& 3 &&& 2 ≠ 0 := by
    rw [Nat.and_assoc]
    exact hw
  have hx' : flags &&& 3 &&& 1 ≠ 0 := by
    rw [Nat.and_assoc]
    exact hx
  have hlt : flags &&& 3 < 4 := Nat.and_lt_two_pow (n := 2) flags (by decide)
  have hlow : ∀ low < 4, low &&& 2 ≠ 0 → low &&& 1 ≠ 0 → low = 3 := by decide
  exact hlow _ hlt hw' hx'

theorem readSegment_safe : Safe I (readSegment bytes header) fun result =>
      result = (if word 8 header 40 ≠ 0 then some (segmentOf header) else none) ∧
      ∀ segment, result = some segment → segment.Admissible bytes ∧ segment.Congruent := by
  refine readWord_safe.bind ?_
  rintro _ ⟨rfl, -⟩
  refine readWord_safe.bind ?_
  rintro _ ⟨rfl, -⟩
  refine readWord_safe.bind ?_
  rintro _ ⟨rfl, -⟩
  refine readWord_safe.bind ?_
  rintro _ ⟨rfl, -⟩
  refine readWord_safe.bind ?_
  rintro _ ⟨rfl, -⟩
  refine readWord_safe.bind ?_
  rintro _ ⟨rfl, -⟩
  refine .ite (fun hzero => Safe.pure ?_) fun hsize => ?_
  · rw [if_neg (not_not_intro hzero)]
    exact ⟨rfl, by intro segment h; cases h⟩
  refine .refuse_then fun hflags => ?_
  refine .refuse_then fun hshape => ?_
  refine .refuse_then fun hrng => ?_
  refine .pure ?_
  rw [if_pos hsize]
  refine ⟨rfl, ?_⟩
  rintro segment ⟨⟩
  push Not at hflags hshape hrng
  obtain ⟨hfile, hsp⟩ := hrng
  obtain ⟨stop, hstop⟩ := Option.ne_none_iff_exists'.mp hsp
  refine ⟨⟨?_, hshape.1, ?_, ?_⟩, fun halign => (hshape.2.2 halign).symm⟩
  · cases hsum : checkedAdd u64Max (word 8 header 8) (word 8 header 32) with
    | none =>
      rw [hsum] at hfile
      exact absurd rfl hfile
    | some fileEnd =>
      rw [hsum] at hfile
      have hle : fileEnd ≤ bytes.length := by simpa using hfile
      rw [(checkedAdd_eq_some.mp hsum).2] at hle
      exact hle
  · rintro ⟨hw, hx⟩
    exact hflags.2 (writable_and_executable (of_decide_eq_true hw) (of_decide_eq_true hx))
  · have h := checkedAdd_eq_some.mp hstop
    exact h.1

/-! ### The program headers -/

/-- The plan after the first program headers. -/
structure LoadPlan.Collected (bytes : List UInt8) (count : ℕ) (plan : LoadPlan) : Prop where
  segments : plan.segments = loadable bytes count
  count_le : plan.segments.length ≤ maximumLoadSegments
  admissible : ∀ segment ∈ plan.segments, segment.Admissible bytes ∧ segment.Congruent
  start : plan.imageStart = leastAddress plan.segments
  spans : (plan.segments = [] ∧ plan.imageEnd = 0) ∨
    Spans plan.segments plan.imageStart plan.imageEnd
  entryPoint : plan.entryPoint = word 8 bytes 24
  positionIndependent : plan.positionIndependent = decide (word 2 bytes 16 = elfTypeSharedObject)

theorem leastAddress_append (segments : List LoadSegment) (segment : LoadSegment) :
    leastAddress (segments ++ [segment]) = min (leastAddress segments) segment.virtualAddress := by
  rw [leastAddress, foldl_append]
  rfl

variable {segments : List LoadSegment}

/-- A segment more widens the span. -/
theorem Spans.push {start stop : ℕ} (h : Spans segments start stop) (segment : LoadSegment) :
    Spans (segments ++ [segment]) (min start segment.virtualAddress)
      (max stop (segment.virtualAddress + segment.memorySize)) := by
  have hnew : segment ∈ segments ++ [segment] := mem_append_right _ mem_cons_self
  have hold : ∀ s ∈ segments, s ∈ segments ++ [segment] := fun s hs => mem_append_left _ hs
  obtain ⟨first, hfst, hstart⟩ := h.first
  obtain ⟨last, hlast, hstop⟩ := h.last
  refine ⟨?_, ?_, ?_, ?_⟩
  · rcases Nat.le_total start segment.virtualAddress with hle | hle
    · exact ⟨first, hold _ hfst, by rw [hstart, min_eq_left hle]⟩
    · exact ⟨segment, hnew, (min_eq_right hle).symm⟩
  · intro s hs
    rcases mem_append.mp hs with hs | hs
    · exact (min_le_left _ _).trans (h.least s hs)
    · rw [mem_singleton.mp hs]
      exact min_le_right _ _
  · rcases Nat.le_total stop (segment.virtualAddress + segment.memorySize) with hle | hle
    · exact ⟨segment, hnew, (max_eq_right hle).symm⟩
    · exact ⟨last, hold _ hlast, by rw [hstop, max_eq_left hle]⟩
  · intro s hs
    rcases mem_append.mp hs with hs | hs
    · exact (h.greatest s hs).trans (le_max_left _ _)
    · rw [mem_singleton.mp hs]
      exact le_max_right _ _

theorem Spans.single (segment : LoadSegment) :
    Spans [segment] segment.virtualAddress (segment.virtualAddress + segment.memorySize) := by
  have hmem : segment ∈ [segment] := mem_cons_self
  refine ⟨⟨segment, hmem, rfl⟩, ?_, ⟨segment, hmem, rfl⟩, ?_⟩
  · intro s hs
    rw [mem_singleton.mp hs]
  · intro s hs
    rw [mem_singleton.mp hs]

variable {plan : LoadPlan} {count : ℕ}

section

variable (h : plan.Collected bytes count)
include h

theorem LoadPlan.Collected.skip
    (hskip : isLoadable (headerAt bytes count) = false) : plan.Collected bytes (count + 1) := by
  refine { h with segments := ?_ }
  rw [loadable_succ, hskip, h.segments]
  exact (append_nil _).symm

theorem LoadPlan.Collected.push_safe (hload : isLoadable (headerAt bytes count))
    (hseg : (segmentOf (headerAt bytes count)).Admissible bytes ∧
      (segmentOf (headerAt bytes count)).Congruent) :
    Safe I (plan.push (segmentOf (headerAt bytes count))) (·.Collected bytes (count + 1)) := by
  refine .refuse_then fun hroom => ?_
  refine (Safe.okOr fun stop hstop => hstop).bind fun stop hstop => ?_
  obtain ⟨hsp, rfl⟩ := checkedAdd_eq_some.mp hstop
  refine .pure ?_
  refine ⟨?_, ?_, ?_, ?_, .inr ?_, h.entryPoint, h.positionIndependent⟩
  · rw [loadable_succ, if_pos hload, h.segments]
  · rw [length_append, length_singleton]
    omega
  · intro segment hmem
    rcases mem_append.mp hmem with hmem | hmem
    · exact h.admissible segment hmem
    · rw [mem_singleton.mp hmem]
      exact hseg
  · rw [leastAddress_append, h.start]
  · rcases h.spans with ⟨hnil, hend⟩ | hspans
    · -- before the first segment the start is the greatest address and the end is zero
      have hstart : plan.imageStart = u64Max := by
        rw [h.start, hnil]
        rfl
      rw [hnil, hend, min_eq_right (by omega)]
      exact Spans.single _
    · exact hspans.push _

theorem readInterpreter_safe :
    Safe I (readInterpreter bytes header plan) (·.Collected bytes count) := by
  refine .refuse_then fun _ => ?_
  refine readWord_safe.bind fun _ _ => ?_
  refine readWord_safe.bind fun fileSize _ => ?_
  refine readWord_safe.bind fun _ _ => ?_
  refine (Safe.okOr fun _ _ => trivial).bind fun _ _ => ?_
  refine (Safe.okOr fun _ _ => trivial).bind fun path _ => ?_
  refine .refuse_then fun hshape => ?_
  push Not at hshape
  have hpath : 1 ≤ path.length := by
    rw [Nat.one_le_iff_ne_zero, Ne, length_eq_zero_iff]
    rintro rfl
    exact absurd hshape.2.2.2 (by decide)
  refine (minus_safe hpath).bind fun length hlen => ?_
  refine (slice_eq_safe (Nat.zero_le _) (by omega)).bind fun _ _ => ?_
  refine .refuse_then fun _ => ?_
  refine (minus_safe (by omega)).bind fun _ _ => ?_
  exact .pure { h with }

theorem readProgramHeader_safe : Safe I (readProgramHeader bytes (headerAt bytes count) plan)
      (·.Collected bytes (count + 1)) := by
  refine readWord_safe.bind ?_
  rintro _ ⟨rfl, -⟩
  have hinterpreter : Safe I (if word 4 (headerAt bytes count) 0 = segmentInterpreter then
      readInterpreter bytes (headerAt bytes count) plan else pure plan)
      (·.Collected bytes count) :=
    Safe.ite (fun _ => readInterpreter_safe h) fun _ => Safe.pure h
  refine hinterpreter.bind fun plan h => ?_
  refine .ite (fun hoth => Safe.pure (h.skip ?_)) fun hload => ?_
  · exact decide_eq_false fun hloadable => hoth hloadable.1
  refine readSegment_safe.bind fun result hret => ?_
  by_cases hsize : word 8 (headerAt bytes count) 40 ≠ 0
  · rw [if_pos hsize] at hret
    obtain ⟨rfl, hseg⟩ := hret
    exact h.push_safe (decide_eq_true ⟨not_not.mp hload, hsize⟩) (hseg _ rfl)
  · rw [if_neg hsize] at hret
    obtain ⟨rfl, -⟩ := hret
    exact .pure (h.skip (decide_eq_false fun hloadable => hsize hloadable.2))

end

/-- The loop collects the segments of all program headers. -/
theorem readProgramHeaders_safe {total remaining index : ℕ}
    (hsp : word 8 bytes 32 + total * programHeaderLength ≤ u64Max)
    (hfile : word 8 bytes 32 + total * programHeaderLength ≤ bytes.length)
    (hcnt : index + remaining = total) (h : plan.Collected bytes index) :
    Safe I (readProgramHeaders bytes (word 8 bytes 32) remaining index plan)
      (·.Collected bytes total) := by
  induction remaining generalizing index plan with
  | zero =>
    obtain rfl : index = total := hcnt
    exact .pure h
  | succ remaining ih =>
    have hle : (index + 1) * programHeaderLength ≤ total * programHeaderLength :=
      Nat.mul_le_mul_right _ (by omega)
    rw [Nat.succ_mul] at hle
    refine (times_safe (by omega)).bind ?_
    rintro _ rfl
    refine (plus_safe (by omega)).bind ?_
    rintro _ rfl
    refine (plus_safe (by omega)).bind ?_
    rintro _ rfl
    refine (slice_eq_safe (by omega) (by omega)).bind ?_
    rintro _ rfl
    rw [Nat.add_sub_cancel_left]
    refine (readProgramHeader_safe h).bind fun plan h => ?_
    exact ih (by omega) h

/-! ### Moving a plan -/

def LoadSegment.moved (loadBias : ℕ) (segment : LoadSegment) : LoadSegment :=
  { segment with virtualAddress := segment.virtualAddress + loadBias }

theorem moveSegments_safe {loadBias : ℕ} :
    Safe I (moveSegments loadBias segments) (· = segments.map (·.moved loadBias)) := by
  induction segments with
  | nil => exact .pure rfl
  | cons segment rest ih =>
    refine (Safe.okOr fun _ h => h).bind fun address haddr => ?_
    obtain ⟨-, rfl⟩ := checkedAdd_eq_some.mp haddr
    refine ih.bind ?_
    rintro _ rfl
    exact .pure rfl

theorem Spans.moved {start stop : ℕ} (h : Spans segments start stop) (loadBias : ℕ) :
    Spans (segments.map (·.moved loadBias)) (start + loadBias) (stop + loadBias) := by
  obtain ⟨first, hfst, rfl⟩ := h.first
  obtain ⟨last, hlast, rfl⟩ := h.last
  refine ⟨⟨_, mem_map_of_mem hfst, rfl⟩, ?_, ⟨_, mem_map_of_mem hlast, ?_⟩, ?_⟩
  · intro moved hmoved
    obtain ⟨segment, hseg, rfl⟩ := mem_map.mp hmoved
    exact Nat.add_le_add_right (h.least segment hseg) loadBias
  · exact Nat.add_right_comm _ _ _
  · intro moved hmoved
    obtain ⟨segment, hseg, rfl⟩ := mem_map.mp hmoved
    have hle := h.greatest segment hseg
    show segment.virtualAddress + loadBias + segment.memorySize ≤ _
    omega

variable {segment : LoadSegment}

/-- A segment in its place stays congruent when it is moved by a multiple of its
alignment, and only then. -/
theorem LoadSegment.Congruent.moved_iff (h : segment.Congruent) (loadBias : ℕ) :
    (segment.moved loadBias).Congruent ↔
      (1 < segment.alignment → segment.alignment ∣ loadBias) := by
  refine forall_congr' fun halign => ?_
  have hplace : segment.fileOffset ≡ segment.virtualAddress [MOD segment.alignment] :=
    (h halign).symm
  rw [← Nat.add_modEq_left_iff (a := segment.virtualAddress)]
  exact ⟨fun hmoved => hmoved.trans hplace, fun hmoved => hmoved.trans hplace.symm⟩

/-- The plan in its final place, before the program headers are looked up. -/
structure LoadPlan.Placed (bytes : List UInt8) (base : ℕ) (plan : LoadPlan) : Prop where
  count_pos : 1 ≤ plan.segments.length
  count_le : plan.segments.length ≤ maximumLoadSegments
  admissible : ∀ segment ∈ plan.segments, segment.Admissible bytes
  spans : Spans plan.segments plan.imageStart plan.imageEnd
  inSpace : plan.imageEnd ≤ u64Max
  entry : ∃ segment ∈ plan.segments, segment.executable ∧ segment.virtualAddress ≤ plan.entryPoint ∧
    plan.entryPoint < segment.virtualAddress + segment.memorySize
  congruent : plan.Congruent ↔ BiasAligned bytes base

section Placing

variable {base : ℕ} {plan : LoadPlan} (h : plan.Collected bytes (word 2 bytes 56))
  (hsome : plan.segments ≠ [])
  (hentry : ∃ segment ∈ plan.segments, segment.executable ∧
    segment.virtualAddress ≤ plan.entryPoint ∧
    plan.entryPoint < segment.virtualAddress + segment.memorySize)

include h hsome

theorem LoadPlan.Collected.spans_of_ne_nil : Spans plan.segments plan.imageStart plan.imageEnd :=
  h.spans.resolve_left fun hnil => hsome hnil.1

include hentry

theorem LoadPlan.Collected.placed (hfixed : plan.positionIndependent = false) :
    plan.Placed bytes base := by
  have hspans := h.spans_of_ne_nil hsome
  refine ⟨length_pos_iff.mpr hsome, h.count_le, fun s hs => (h.admissible s hs).1, hspans,
    ?_, hentry, ?_⟩
  · obtain ⟨last, hlast, hstop⟩ := hspans.last
    rw [← hstop]
    exact (h.admissible last hlast).1.inSpace
  · rw [h.positionIndependent] at hfixed
    refine ⟨fun _ hshared => absurd hshared (of_decide_eq_false hfixed), ?_⟩
    exact fun _ s hs => (h.admissible s hs).2

theorem LoadPlan.Collected.move_safe (hmoved : plan.positionIndependent) :
    Safe I (plan.move base) (·.Placed bytes base) := by
  refine (Safe.okOr fun _ hbias => hbias).bind fun loadBias hbias => ?_
  obtain ⟨-, rfl⟩ := checkedSub_eq_some.mp hbias
  generalize hb : base - alignDown plan.imageStart = loadBias
  refine moveSegments_safe.bind ?_
  rintro _ rfl
  refine (Safe.okOr fun _ hstart => hstart).bind fun start hstart => ?_
  obtain ⟨-, rfl⟩ := checkedAdd_eq_some.mp hstart
  refine (Safe.okOr fun _ hstop => hstop).bind fun stop hstop => ?_
  obtain ⟨hsp, rfl⟩ := checkedAdd_eq_some.mp hstop
  refine (Safe.okOr fun _ hpoint => hpoint).bind fun point hpoint => ?_
  obtain ⟨-, rfl⟩ := checkedAdd_eq_some.mp hpoint
  have hspans := (h.spans_of_ne_nil hsome).moved loadBias
  refine .pure ⟨?_, ?_, ?_, hspans, hsp, ?_, ?_⟩
  · rw [length_map]
    exact length_pos_iff.mpr hsome
  · rw [length_map]
    exact h.count_le
  · intro moved hmem
    have hle := hspans.greatest moved hmem
    obtain ⟨segment, hseg, rfl⟩ := mem_map.mp hmem
    exact { (h.admissible segment hseg).1 with inSpace := hle.trans hsp }
  · obtain ⟨segment, hseg, hexecutable, hfrom, hto⟩ := hentry
    refine ⟨_, mem_map_of_mem hseg, hexecutable, Nat.add_le_add_right hfrom _, ?_⟩
    show plan.entryPoint + loadBias < segment.virtualAddress + loadBias + segment.memorySize
    omega
  · have hshared : word 2 bytes 16 = elfTypeSharedObject := by
      rw [h.positionIndependent] at hmoved
      exact of_decide_eq_true hmoved
    have hbase : base - alignDown (leastAddress (loadable bytes (word 2 bytes 56))) = loadBias := by
      rw [← h.segments, ← h.start, hb]
    show (∀ s ∈ plan.segments.map (·.moved loadBias), s.Congruent) ↔ _
    rw [BiasAligned, hbase, ← h.segments, forall_mem_map]
    refine ⟨fun hall _ s hs => ((h.admissible s hs).2.moved_iff loadBias).mp (hall s hs), ?_⟩
    exact fun hall s hs => ((h.admissible s hs).2.moved_iff loadBias).mpr (hall hshared s hs)

end Placing

/-! ### Parsing -/

theorem validateHeader_safe : Safe I (validateHeader bytes) fun _ => True := by
  refine .refuse_then fun hlen => ?_
  rw [elfHeaderLength] at hlen
  refine .refuse_then fun _ => ?_
  refine (byteAt_safe (by omega)).bind fun _ _ => ?_
  refine (byteAt_safe (by omega)).bind fun _ _ => ?_
  refine (byteAt_safe (by omega)).bind fun _ _ => ?_
  refine .refuse_then fun _ => ?_
  exact Safe.refuse.trivial

theorem LoadSegment.contains_iff {address : ℕ} (h : segment.contains address) :
    segment.virtualAddress ≤ address ∧ address < segment.virtualAddress + segment.memorySize := by
  rw [contains, Bool.and_eq_true, decide_eq_true_iff] at h
  obtain ⟨hle, hlt⟩ := h
  cases hstop : segment.stop with
  | none =>
    simp [hstop] at hlt
  | some =>
    rw [hstop] at hlt
    obtain ⟨-, rfl⟩ := checkedAdd_eq_some.mp hstop
    exact ⟨hle, of_decide_eq_true hlt⟩

theorem LoadSegment.programHeaders_eq_some {offset stop address : ℕ}
    (h : segment.programHeaders offset stop = some address) :
    segment.fileOffset ≤ offset ∧ stop ≤ segment.fileOffset + segment.fileSize ∧
      address = segment.virtualAddress + (offset - segment.fileOffset) := by
  rw [programHeaders, Option.bind_eq_some_iff] at h
  obtain ⟨fileEnd, hend, h⟩ := h
  obtain ⟨-, rfl⟩ := checkedAdd_eq_some.mp hend
  split at h
  next hin => exact ⟨hin.1, hin.2, (checkedAdd_eq_some.mp h).2⟩
  · cases h

theorem parseWithPositionIndependentBase_safe (bytes : List UInt8) (base : ℕ) :
    Safe I (parseWithPositionIndependentBase bytes base) fun plan =>
      plan.WellFormed bytes ∧ (plan.Congruent ↔ BiasAligned bytes base) := by
  refine validateHeader_safe.bind fun _ _ => ?_
  refine .refuse_then fun _ => ?_
  refine readWord_safe.bind ?_
  rintro _ ⟨rfl, -⟩
  refine readWord_safe.bind ?_
  rintro size ⟨hsize, -⟩
  refine readWord_safe.bind ?_
  rintro _ ⟨rfl, -⟩
  refine .refuse_then fun hheaders => ?_
  push Not at hheaders
  obtain rfl : size = programHeaderLength := hheaders.1
  refine (Safe.okOr fun _ htab => htab).bind fun tableSize htab => ?_
  obtain ⟨-, rfl⟩ := checkedMul_eq_some.mp htab
  refine .refuse_then fun hrng => ?_
  refine readWord_safe.bind ?_
  rintro _ ⟨rfl, -⟩
  refine readWord_safe.bind ?_
  rintro _ ⟨rfl, -⟩
  have htab : ∃ stop, checkedAdd u64Max (word 8 bytes 32)
      (word 2 bytes 56 * programHeaderLength) = some stop ∧ stop ≤ bytes.length := by
    cases hsum : checkedAdd u64Max (word 8 bytes 32) (word 2 bytes 56 * programHeaderLength) with
    | none =>
      rw [hsum] at hrng
      exact absurd rfl hrng
    | some stop =>
      rw [hsum] at hrng
      exact ⟨stop, rfl, by simpa using hrng⟩
  obtain ⟨stop, hstop, hfile⟩ := htab
  obtain ⟨hsp, rfl⟩ := checkedAdd_eq_some.mp hstop
  refine (readProgramHeaders_safe hsp hfile (Nat.zero_add _)
    ⟨rfl, Nat.zero_le _, (by intro s hs; cases hs), rfl, .inl ⟨rfl, rfl⟩, rfl, rfl⟩).bind
    fun plan hplan => ?_
  refine .refuse_then fun hsome => ?_
  refine .refuse_then fun hentry => ?_
  have hpoint : ∃ segment ∈ plan.segments, segment.executable ∧
      segment.virtualAddress ≤ plan.entryPoint ∧
      plan.entryPoint < segment.virtualAddress + segment.memorySize := by
    rw [Bool.not_eq_false, any_eq_true] at hentry
    obtain ⟨segment, hseg, hboth⟩ := hentry
    rw [Bool.and_eq_true] at hboth
    exact ⟨segment, hseg, hboth.1, LoadSegment.contains_iff hboth.2⟩
  have hplaced : Safe I (if plan.positionIndependent then plan.move base else pure plan)
      (·.Placed bytes base) :=
    Safe.ite (fun hmoved => hplan.move_safe hsome hpoint hmoved)
      fun hfixed => Safe.pure (hplan.placed hsome hpoint (Bool.not_eq_true _ ▸ hfixed))
  refine hplaced.bind fun plan hplan => ?_
  refine (Safe.okOr fun _ hend => hend).bind fun headerEnd hend => ?_
  obtain ⟨-, rfl⟩ := checkedAdd_eq_some.mp hend
  refine .pure ⟨⟨hplan.count_pos, hplan.count_le, hplan.admissible, hplan.spans,
    hplan.inSpace, hplan.entry, ?_⟩, hplan.congruent⟩
  intro address haddr
  obtain ⟨segment, hseg, hfound⟩ := exists_of_findSome?_eq_some haddr
  exact ⟨segment, hseg, LoadSegment.programHeaders_eq_some hfound⟩

/-- For every file the parser does not panic, and every plan it returns is well formed.
Its segments are congruent to their places in the file exactly if the image is not moved
or is moved by a multiple of every alignment. -/
theorem parse_wellFormed (bytes : List UInt8) : (parse bytes ()).1 ≠ .error .panic ∧
    ∀ plan, (parse bytes ()).1 = .ok plan → plan.WellFormed bytes ∧
      (plan.Congruent ↔ BiasAligned bytes positionIndependentLoadBase) :=
  (parseWithPositionIndependentBase_safe (I := fun _ => True) bytes positionIndependentLoadBase ()
    trivial).2

/-- A number as little-endian bytes. -/
def littleEndian : ℕ → ℕ → List UInt8
  | 0, _ => []
  | width + 1, value => UInt8.ofNat value :: littleEndian width (value / 256)

/-- A program header. -/
def programHeader (flags fileOffset virtualAddress size alignment : ℕ) : List UInt8 :=
  littleEndian 4 segmentLoad ++ littleEndian 4 flags ++ littleEndian 8 fileOffset ++
    littleEndian 8 virtualAddress ++ littleEndian 8 0 ++ littleEndian 8 size ++
    littleEndian 8 size ++ littleEndian 8 alignment

/-- A shared object with a code segment at the second page and a data segment with an
alignment of its own. -/
def twoSegments (alignment : ℕ) : List UInt8 :=
  [0x7f, 0x45, 0x4c, 0x46, 2, 1, 1, 0, 0, 0, 0, 0, 0, 0, 0, 0] ++
    littleEndian 2 elfTypeSharedObject ++ littleEndian 2 machineX86 ++ littleEndian 4 1 ++
    littleEndian 8 0x1000 ++ littleEndian 8 elfHeaderLength ++ littleEndian 8 0 ++
    littleEndian 4 0 ++ littleEndian 2 elfHeaderLength ++ littleEndian 2 programHeaderLength ++
    littleEndian 2 2 ++ littleEndian 6 0 ++
    programHeader (segmentReadable ||| segmentExecutable) 0 0x1000 16 1 ++
    programHeader segmentReadable 0x40 0x4040 8 alignment

/-- The plan for that object. -/
def twoSegmentsPlan (alignment : ℕ) : LoadPlan :=
  ⟨[⟨0, 16, 0x10000000, 16, 1, true, false, true⟩,
    ⟨0x40, 8, 0x10003040, 8, alignment, true, false, false⟩],
    0x10000000, 0x10003048, 0x10000000, 0xffff000, false, true, none, 2, 0, 0⟩

theorem twoSegments_congruent : (twoSegmentsPlan 0x1000).WellFormed (twoSegments 0x1000) ∧
    (twoSegmentsPlan 0x1000).Congruent := by
  have h := (parse_wellFormed (twoSegments 0x1000)).2 (twoSegmentsPlan 0x1000) (by decide +kernel)
  exact ⟨h.1, h.2.mpr (by unfold BiasAligned; decide +kernel)⟩

/-- Two pages of alignment are not kept: the data segment stands at `0x40` in the file and
at `0x1040` past a multiple of its alignment in memory. -/
theorem twoSegments_misplaced : (parse (twoSegments 0x2000) ()).1 = .ok (twoSegmentsPlan 0x2000) ∧
    ¬ (twoSegmentsPlan 0x2000).Congruent := by
  refine ⟨by decide +kernel, fun h => ?_⟩
  have hdata := h ⟨0x40, 8, 0x10003040, 8, 0x2000, true, false, false⟩ (by decide) (by decide)
  exact absurd hdata (by decide)

end ArachKernel.Loader
