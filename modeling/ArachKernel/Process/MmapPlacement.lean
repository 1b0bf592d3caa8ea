import ArachKernel.Lib.Align
import Mathlib.Data.List.Induction
import Mathlib.Logic.Relation
import Mathlib.Order.Bounds.Basic

/-!
Where `mmap` places a mapping (`process/x86_64.rs`). The search starts at the hint and jumps
behind all that the candidate overlaps, until a candidate overlaps nothing. That no record ends
outside the user half is kept by all that write one.
-/

namespace ArachKernel.LinuxMmap

open List

def pageSize : ℕ := 2 ^ 12
def linuxMmapBase : ℕ := 0x40000000
def linuxBrkBase : ℕ := 0x20000000
def linuxBrkMaximumBytes : ℕ := 16 * 1024 * 1024
def userLimit : ℕ := 0x800000000000
def initialUserStackBase : ℕ := 0x400000
def cerebralIngressAddress : ℕ := 0x60000000000

inductive FrameBackedError
  | invalidRange
  | capacityExceeded
  deriving DecidableEq

structure MappingRecord where
  occupied : Bool
  heap : Bool
  virtualAddress : ℕ
  memorySize : ℕ
  pageCount : ℕ

structure PageRecord where
  virtualAddress : ℕ

structure SpaceSlot where
  mappings : List MappingRecord
  pages : List PageRecord

def rangesOverlap (leftStart leftEnd rightStart rightSize : ℕ) : Bool :=
  match checkedAdd u64Max rightStart rightSize with
  | none => true
  | some rightEnd => decide (leftStart < rightEnd) && decide (rightStart < leftEnd)

/-- `next` after one more range that the candidate may overlap. -/
def pass (candidate stop : ℕ) (next : Option ℕ) (range : ℕ × ℕ) :
    Except FrameBackedError (Option ℕ) :=
  if rangesOverlap candidate stop range.1 range.2 then
    match checkedAdd u64Max range.1 range.2 with
    | none => .error .invalidRange
    | some rangeEnd => .ok (some (next.elim rangeEnd (max · rangeEnd)))
  else .ok next

/-- The ranges that are in the way, with their sizes: the whole brk arena wherever the break
is, the mappings and the pages. -/
def SpaceSlot.ranges (slot : SpaceSlot) : List (ℕ × ℕ) :=
  (linuxBrkBase, linuxBrkMaximumBytes) :: ((slot.mappings.filter (·.occupied)).map fun mapping =>
      (mapping.virtualAddress, mapping.memorySize)) ++
    (slot.pages.filter (·.virtualAddress ≠ 0)).map fun page => (page.virtualAddress, pageSize)

/-- No range overlaps the one of a base. -/
def Clear (length base : ℕ) (ranges : List (ℕ × ℕ)) : Prop :=
  ∀ range ∈ ranges, range.1 + range.2 ≤ base ∨ base + length ≤ range.1

/-- What the ranges that were passed say about the bases from the candidate on. -/
def Passed (length candidate : ℕ) (ranges : List (ℕ × ℕ)) :
    Except FrameBackedError (Option ℕ) → Prop
  | .error _ => ∃ range ∈ ranges, u64Max < range.1 + range.2
  | .ok none => Clear length candidate ranges
  | .ok (some next) => candidate < next ∧
    ∀ base, candidate ≤ base → Clear length base ranges → next ≤ base

variable {length candidate : ℕ} {ranges : List (ℕ × ℕ)}

theorem Passed.pass {next : Option ℕ} (h : Passed length candidate ranges (.ok next))
    (range : ℕ × ℕ) : Passed length candidate (ranges ++ [range])
      (pass candidate (candidate + length) next range) := by
  unfold LinuxMmap.pass rangesOverlap checkedAdd
  by_cases hend : range.1 + range.2 ≤ u64Max
  · simp only [if_pos hend, Bool.and_eq_true, decide_eq_true_eq]
    split <;> cases next <;>
      simp only [Passed, Clear, forall_mem_append, forall_mem_singleton, Option.elim] at h ⊢
    next hmeets => exact ⟨hmeets.1, fun base hle hclear => by omega⟩
    next hmeets =>
      refine ⟨lt_max_of_lt_left h.1, fun base hle hclear => ?_⟩
      exact max_le (h.2 base hle hclear.1) (by omega)
    next => exact ⟨h, by omega⟩
    next => exact ⟨h.1, fun base hle hclear => h.2 base hle hclear.1⟩
  · simp only [if_neg hend, if_true]
    exact ⟨range, by simp, not_le.mp hend⟩

theorem passed_of_foldlM {result : Except FrameBackedError (Option ℕ)}
    (h : ranges.foldlM (pass candidate (candidate + length)) none = result) :
    Passed length candidate ranges result := by
  subst h
  induction ranges using reverseRecOn with
  | nil => exact fun _ h => absurd h not_mem_nil
  | append_singleton ranges range ih =>
    rw [foldlM_append]
    cases hpass : ranges.foldlM (pass candidate (candidate + length)) none with
    | error =>
      rw [hpass] at ih
      obtain ⟨r, hr, hlt⟩ := ih
      exact ⟨r, mem_append_left _ hr, hlt⟩
    | ok next =>
      rw [hpass] at ih
      exact (bind_pure (pass candidate (candidate + length) next range)).symm ▸ ih.pass range

def MappingRecord.empty : MappingRecord := ⟨false, false, 0, 0, 0⟩

/-- What `linux_mprotect` makes of a mapping: the protected range and the pieces before and
behind it. -/
def MappingRecord.pieces (mapping : MappingRecord) (address length : ℕ) : List MappingRecord :=
  let pageOffset := (address - mapping.virtualAddress) / pageSize
  let pageCount := length / pageSize
  let suffixPages := mapping.pageCount - pageOffset - pageCount
  [{ mapping with virtualAddress := address, memorySize := length, pageCount },
    { mapping with memorySize := pageOffset * pageSize, pageCount := pageOffset },
    { mapping with virtualAddress := address + length, memorySize := suffixPages * pageSize,
                   pageCount := suffixPages }]

/-- The pages up to a requested break. -/
def brkPages (requested : ℕ) : ℕ := (requested - linuxBrkBase + (pageSize - 1)) / pageSize

namespace SpaceSlot

set_option maxRecDepth 10000 in
/-- The loop of the search. -/
def findFrom (slot : SpaceSlot) (length candidate : ℕ) : Except FrameBackedError ℕ :=
  if u64Max < candidate + length then .error .invalidRange
  else if userLimit < candidate + length then .error .capacityExceeded
  else
    match hnext : slot.ranges.foldlM (pass candidate (candidate + length)) none with
    | .error e => .error e
    | .ok none => .ok candidate
    | .ok (some next) =>
      match hup : alignUp next pageSize with
      | none => .error .invalidRange
      | some candidate => slot.findFrom length candidate
termination_by u64Max - candidate
decreasing_by
  have hlt := (passed_of_foldlM hnext).1
  have hle := (alignUp_eq_some (by decide) hup).1
  simp only [userLimit, u64Max] at *
  omega

def searchStart (hint : ℕ) : ℕ :=
  let candidate := if hint = 0 then linuxMmapBase else alignDown hint pageSize
  if candidate < pageSize then linuxMmapBase else candidate

def findLinuxMmapBase (slot : SpaceSlot) (hint length : ℕ) : Except FrameBackedError ℕ :=
  slot.findFrom length (searchStart hint)

/-- A base where a mapping can be placed. -/
structure Fits (slot : SpaceSlot) (length base : ℕ) : Prop where
  aligned : pageSize ∣ base
  inside : base + length ≤ userLimit
  clear : Clear length base slot.ranges

/-- The answer is the lowest base from the start on, and an error only if there is none. -/
def Finds (slot : SpaceSlot) (length start : ℕ) : Except FrameBackedError ℕ → Prop
  | .ok base => IsLeast {base | start ≤ base ∧ slot.Fits length base} base
  | .error _ => ∀ base, start ≤ base → ¬slot.Fits length base

variable {slot : SpaceSlot} {start : ℕ}

theorem findFrom_finds (hends : ∀ range ∈ slot.ranges, range.1 + range.2 ≤ u64Max)
    (hdvd : pageSize ∣ candidate) (hge : start ≤ candidate)
    (hleast : ∀ base, start ≤ base → slot.Fits length base → candidate ≤ base) :
    slot.Finds length start (slot.findFrom length candidate) := by
  have hround {next base : ℕ} (h : slot.Fits length base) (hle : next ≤ base) :=
    exists_alignUp_le (k := 12) (by decide) h.aligned hle
      (by have := h.inside; simp only [userLimit, u64Max] at *; omega)
  fun_induction findFrom slot length candidate with
  | case1 | case2 =>
    intro base hbase h
    have := hleast base hbase h
    have := h.inside
    simp only [userLimit, u64Max] at *
    omega
  | case3 candidate _ _ e herr =>
    obtain ⟨range, hmem, hlt⟩ := passed_of_foldlM herr
    exact absurd (hends range hmem) (not_le.mpr hlt)
  | case4 candidate _ hin hfree =>
    exact ⟨⟨hge, hdvd, not_lt.mp hin, passed_of_foldlM hfree⟩, fun base h => hleast base h.1 h.2⟩
  | case5 candidate _ _ next hnext hup =>
    intro base hbase h
    have hle := (passed_of_foldlM hnext).2 base (hleast base hbase h) h.clear
    obtain ⟨_, hsome, _⟩ := hround h hle
    cases hup.symm.trans hsome
  | case6 candidate _ _ next hnext next' hup ih =>
    have hpass := passed_of_foldlM hnext
    obtain ⟨hle, _, hdvd'⟩ := alignUp_eq_some (by decide) hup
    refine ih hdvd' (hge.trans (hpass.1.le.trans hle)) fun base hbase h => ?_
    obtain ⟨_, hsome, hle⟩ := hround h (hpass.2 base (hleast base hbase h) h.clear)
    cases hup.symm.trans hsome
    exact hle

/-- The search alone says where a base lies, whatever the records are. -/
theorem findFrom_eq_ok {base : ℕ} (hdvd : pageSize ∣ candidate)
    (h : slot.findFrom length candidate = .ok base) :
    pageSize ∣ base ∧ base + length ≤ userLimit := by
  fun_induction findFrom slot length candidate with
  | case4 candidate _ hin =>
    cases h
    exact ⟨hdvd, not_lt.mp hin⟩
  | case6 _ _ _ _ _ _ hup ih => exact ih (alignUp_eq_some (by decide) hup).2.2 h
  | _ => cases h

theorem searchStart_aligned {hint : ℕ} (hhint : hint ≤ u64Max) :
    pageSize ≤ searchStart hint ∧ pageSize ∣ searchStart hint := by
  have hdown := alignDown_eq hhint (by decide : 12 ≤ 64)
  unfold searchStart
  by_cases hzero : hint = 0
  · rw [hzero]
    decide
  · simp only [if_neg hzero]
    split
    · decide
    next hle => exact ⟨not_lt.mp hle, Dvd.intro _ hdown.symm⟩

/-- The mapping records that are written into a slot, with what was checked about their range
before. `EMPTY` is written by `linux_munmap` and `reset_records`, a found base by both kinds of
`mmap`. -/
inductive Writes (slot : SpaceSlot) : MappingRecord → Prop
  | empty : slot.Writes .empty
  | mapZeroed {imageEnd address size : ℕ} (himage : imageEnd ≤ userLimit)
      (haligned : pageSize ∣ address) (hend : address + size ≤ imageEnd) :
      slot.Writes ⟨true, false, address, size, (size + (pageSize - 1)) / pageSize⟩
  | linuxMmap {hint length base : ℕ} (hhint : hint ≤ u64Max)
      (hbase : slot.findLinuxMmapBase hint length = .ok base) :
      slot.Writes ⟨true, false, base, length, length / pageSize⟩
  | linuxMprotect {mapping piece : MappingRecord} {address length : ℕ}
      (hmem : mapping ∈ slot.mappings) (hheap : mapping.heap = false)
      (haligned : pageSize ∣ address) (hlength : pageSize ∣ length)
      (hstart : mapping.virtualAddress ≤ address)
      (hend : address + length ≤ mapping.virtualAddress + mapping.memorySize)
      (hpages : mapping.pageCount * pageSize = mapping.memorySize)
      (hpiece : piece ∈ mapping.pieces address length) : slot.Writes piece
  | linuxBrk {requested : ℕ} (hmax : requested - linuxBrkBase ≤ linuxBrkMaximumBytes) :
      slot.Writes ⟨true, true, linuxBrkBase, brkPages requested * pageSize, brkPages requested⟩
  | resizeBrk {mapping : MappingRecord} {requested : ℕ} (hmem : mapping ∈ slot.mappings)
      (hheap : mapping.heap) (hmax : requested - linuxBrkBase ≤ linuxBrkMaximumBytes) :
      slot.Writes { mapping with memorySize := brkPages requested * pageSize,
                                 pageCount := brkPages requested }

/-- The addresses of the page records that are written into a slot. -/
inductive WritesPage (slot : SpaceSlot) : ℕ → Prop
  | empty : slot.WritesPage 0
  | mapZeroed {imageEnd address size page : ℕ} (himage : imageEnd ≤ userLimit)
      (hend : address + size ≤ imageEnd) (hpage : page < (size + (pageSize - 1)) / pageSize) :
      slot.WritesPage (address + page * pageSize)
  | installStackPages {pages page : ℕ} (hspan : (pages - 1) * pageSize ≤ initialUserStackBase)
      (hpage : page < pages) :
      slot.WritesPage (initialUserStackBase - (pages - 1) * pageSize + page * pageSize)
  | installThermalPage : slot.WritesPage 0x800000
  | installNexusPlane {page : ℕ} (hpage : page < 3) :
      slot.WritesPage (cerebralIngressAddress + page * pageSize)
  | linuxMmap {hint length base page : ℕ} (hhint : hint ≤ u64Max)
      (hbase : slot.findLinuxMmapBase hint length = .ok base) (hpage : page < length / pageSize) :
      slot.WritesPage (base + page * pageSize)
  | linuxBrk {requested page : ℕ} (hmax : requested - linuxBrkBase ≤ linuxBrkMaximumBytes)
      (hpage : page < brkPages requested) : slot.WritesPage (linuxBrkBase + page * pageSize)

/-- A call on a slot: each record was there before, or was written by it. -/
structure Step (slot slot' : SpaceSlot) : Prop where
  mappings : ∀ mapping ∈ slot'.mappings, mapping ∈ slot.mappings ∨ slot.Writes mapping
  pages : ∀ page ∈ slot'.pages, page ∈ slot.pages ∨ slot.WritesPage page.virtualAddress

/-- A slot after any calls; the sizes of its two arrays are left open. -/
def Reached (slot : SpaceSlot) : Prop :=
  ∃ segments pages, Relation.ReflTransGen Step ⟨replicate segments .empty, replicate pages ⟨0⟩⟩ slot

/-- The records lie in the user half. -/
structure Bounded (slot : SpaceSlot) : Prop where
  mappings : ∀ mapping ∈ slot.mappings, pageSize ∣ mapping.virtualAddress ∧
    mapping.virtualAddress + mapping.memorySize ≤ userLimit ∧
    (mapping.heap → mapping.virtualAddress = linuxBrkBase)
  pages : ∀ page ∈ slot.pages, page.virtualAddress < userLimit

theorem brkPages_le {requested : ℕ} (h : requested - linuxBrkBase ≤ linuxBrkMaximumBytes) :
    linuxBrkBase + brkPages requested * pageSize ≤ userLimit := by
  simp only [brkPages, linuxBrkBase, linuxBrkMaximumBytes, pageSize, userLimit] at h ⊢
  omega

theorem Bounded.step {slot' : SpaceSlot} (h : slot.Bounded) (hstep : slot.Step slot') :
    slot'.Bounded where
  mappings mapping hmem := by
    rcases hstep.mappings mapping hmem with hold | hnew
    · exact h.mappings mapping hold
    cases hnew with
    | empty => decide
    | mapZeroed himage haligned hend => exact ⟨haligned, hend.trans himage, nofun⟩
    | linuxMmap hhint hbase =>
      obtain ⟨hdvd, hle⟩ := findFrom_eq_ok (searchStart_aligned hhint).2 hbase
      exact ⟨hdvd, hle, nofun⟩
    | linuxMprotect hold hheap haligned hlength hstart hend hpages hpiece =>
      -- all three ranges are made of whole pages of the mapping
      obtain ⟨hdvd, hle, -⟩ := h.mappings _ hold
      have hdvd' := Nat.dvd_add haligned hlength
      simp only [MappingRecord.pieces, mem_cons, not_mem_nil, or_false] at hpiece
      simp only [pageSize] at *
      rcases hpiece with rfl | rfl | rfl
      · exact ⟨haligned, hend.trans hle, by simp [hheap]⟩
      · exact ⟨hdvd, by simp only; omega, by simp [hheap]⟩
      · exact ⟨hdvd', by simp only; omega, by simp [hheap]⟩
    | linuxBrk hmax => exact ⟨(by decide : pageSize ∣ linuxBrkBase), brkPages_le hmax, fun _ => rfl⟩
    | resizeBrk hold hheap hmax =>
      obtain ⟨hdvd, -, hbase⟩ := h.mappings _ hold
      exact ⟨hdvd, by simpa only [hbase hheap] using brkPages_le hmax, hbase⟩
  pages page hmem := by
    rcases hstep.pages page hmem with hold | hnew
    · exact h.pages page hold
    generalize page.virtualAddress = address at hnew ⊢
    cases hnew with
    | linuxMmap hhint hbase hpage =>
      have := (findFrom_eq_ok (searchStart_aligned hhint).2 hbase).2
      simp only [pageSize] at *
      omega
    | linuxBrk hmax hpage =>
      have := brkPages_le hmax
      simp only [pageSize] at *
      omega
    | _ =>
      simp only [pageSize, userLimit, initialUserStackBase, cerebralIngressAddress] at *
      omega

theorem Reached.bounded (h : slot.Reached) : slot.Bounded := by
  obtain ⟨segments, pages, hrun⟩ := h
  induction hrun with
  | refl =>
    constructor
    · intro mapping hmem
      rw [eq_of_mem_replicate hmem]
      decide
    · intro page hmem
      rw [eq_of_mem_replicate hmem]
      decide
  | tail _ hstep ih => exact ih.step hstep

theorem Bounded.ranges_end (h : slot.Bounded) :
    ∀ range ∈ slot.ranges, range.1 + range.2 ≤ u64Max := by
  intro range hmem
  simp only [ranges, mem_append, mem_cons, mem_map, mem_filter] at hmem
  rcases hmem with (rfl | ⟨mapping, hmapping, rfl⟩) | ⟨page, hpage, rfl⟩
  · decide
  · exact (h.mappings mapping hmapping.1).2.1.trans (by decide)
  · have := h.pages page hpage.1
    simp only [pageSize, userLimit, u64Max] at *
    omega

/-- A mapping is placed at the lowest base that fits, and refused only if there is none. -/
theorem mmap_placement_lowest (slot : SpaceSlot) (hint length : ℕ) (hhint : hint ≤ u64Max)
    (hslot : slot.Reached) :
    pageSize ≤ searchStart hint ∧
      slot.Finds length (searchStart hint) (slot.findLinuxMmapBase hint length) :=
  have hstart := searchStart_aligned hhint
  ⟨hstart.1, findFrom_finds hslot.bounded.ranges_end hstart.2 le_rfl fun _ hle _ => hle⟩

/-- An image of one page stands where the search starts. -/
def imageAtBase : SpaceSlot :=
  ⟨[⟨true, false, linuxMmapBase, pageSize, 1⟩], [⟨linuxMmapBase⟩]⟩

theorem imageAtBase_reached : imageAtBase.Reached := by
  refine ⟨1, 1, .single ⟨?_, ?_⟩⟩
  · intro mapping hmem
    rw [mem_singleton.mp hmem]
    exact .inr (.mapZeroed (le_refl userLimit) (by decide) (by decide))
  · intro page hmem
    rw [mem_singleton.mp hmem]
    exact .inr (@WritesPage.mapZeroed _ userLimit linuxMmapBase pageSize 0 le_rfl (by decide)
      (by decide))

theorem mmap_placement_behind_image :
    imageAtBase.findLinuxMmapBase 0 pageSize = .ok (linuxMmapBase + pageSize) ∧
      imageAtBase.Finds pageSize linuxMmapBase (.ok (linuxMmapBase + pageSize)) := by
  have hfind : imageAtBase.findLinuxMmapBase 0 pageSize = .ok (linuxMmapBase + pageSize) := by
    rw [findLinuxMmapBase, findFrom]
    change imageAtBase.findFrom pageSize (linuxMmapBase + pageSize) = _
    rw [findFrom]
    rfl
  exact ⟨hfind, hfind ▸ (mmap_placement_lowest imageAtBase 0 pageSize (by decide)
    imageAtBase_reached).2⟩

end SpaceSlot

end ArachKernel.LinuxMmap
