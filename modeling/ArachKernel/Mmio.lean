import ArachKernel.Lib.Align
import ArachKernel.Lib.Bitmap
import ArachKernel.Lib.Handle
import ArachKernel.Lib.Table

/-!
The window through which the kernel reaches device memory (`src/mmio.rs`). A bitmap says
which slots of its page table are taken, and a table of records which run of slots each
mapping has. Over every sequence of calls the bitmap, the records and the page table agree,
and a handle is good for one mapping only.
-/

namespace ArachKernel.Mmio

open Bitmap Table Function

def mmioWindowBase : ℕ := 0xffff808000000000

def pageSize : ℕ := 4096

def mmioSlots : ℕ := 512

def maximumMappings : ℕ := 64

def pageAddressMask : ℕ := 0x000ffffffffff000

def ptePresent : ℕ := 1 <<< 0

def pteWritable : ℕ := 1 <<< 1

def pteWriteThrough : ℕ := 1 <<< 3

def pteCacheDisable : ℕ := 1 <<< 4

def mmioPageFlags : ℕ := ptePresent ||| pteWritable ||| pteWriteThrough ||| pteCacheDisable

inductive Status
  | ok
  | invalidArgument
  | unsupported
  | busy
  | notFound
  deriving DecidableEq

structure MappingRecord where
  generation : ℕ
  firstSlot : ℕ
  pageCount : ℕ
  active : Bool

def MappingRecord.empty : MappingRecord := ⟨0, 0, 0, false⟩

/-- The mapper, and the page table of the window, which it alone writes. -/
structure EarlyMmioMapper where
  occupied : Bitmap
  records : Fin maximumMappings → MappingRecord
  pageTable : ℕ → ℕ

structure MmioMapping where
  handle : ℕ
  pointer : ℕ

/-- The page table lies in zeroed memory. -/
def EarlyMmioMapper.new : EarlyMmioMapper := ⟨fun _ => 0, fun _ => .empty, fun _ => 0⟩

def handleOf (recordIndex : Fin maximumMappings) (generation : ℕ) : ℕ :=
  generation <<< 32 ||| (recordIndex.val + 1)

/-- The checks `map` makes of its arguments: the offset in the first page, the number of
pages and the first page. -/
def pagesOf (physicalAddress length flags : UInt64) : Except Status (ℕ × ℕ × ℕ) :=
  if length = 0 then .error .invalidArgument
  else if flags ≠ 0 then .error .unsupported
  else
    let pageOffset := physicalAddress.toNat &&& (pageSize - 1)
    match checkedAdd u64Max pageOffset length.toNat with
    | none => .error .invalidArgument
    | some span =>
      let pageCount := (span + (pageSize - 1)) / pageSize
      if pageCount = 0 ∨ pageCount > mmioSlots then .error .invalidArgument
      else
        let physicalBase := alignDown physicalAddress.toNat pageSize
        match checkedAdd u64Max physicalBase (pageCount * pageSize) with
        | none => .error .invalidArgument
        | some physicalEnd =>
          if physicalEnd - 1 > pageAddressMask then .error .invalidArgument
          else .ok (pageOffset, pageCount, physicalBase)

namespace EarlyMmioMapper

/-- The loops of `map` and `unmap` over the first slots of a run. -/
def setPages (firstSlot : ℕ) (occupied : Bool) (entry : ℕ → ℕ) (m : EarlyMmioMapper) :
    ℕ → EarlyMmioMapper
  | 0 => m
  | offset + 1 =>
    let m := setPages firstSlot occupied entry m offset
    { m with
      occupied := setBit m.occupied (firstSlot + offset) occupied
      pageTable := update m.pageTable (firstSlot + offset) (entry offset) }

def findSlots (m : EarlyMmioMapper) (pageCount : ℕ) : Option ℕ :=
  findRun m.occupied pageCount mmioSlots 0 0 0

/-- The slots of a run, and then the record of the run. -/
def rewrite (recordIndex : Fin maximumMappings) (record : MappingRecord) (firstSlot : ℕ)
    (occupied : Bool) (entry : ℕ → ℕ) (count : ℕ) (m : EarlyMmioMapper) : EarlyMmioMapper :=
  { m.setPages firstSlot occupied entry count with
    records := update m.records recordIndex record }

/-- The part of `map` that writes. -/
def install (recordIndex : Fin maximumMappings) (firstSlot pageCount physicalBase : ℕ)
    (m : EarlyMmioMapper) : EarlyMmioMapper :=
  let generation := (m.records recordIndex).generation + 1
  m.rewrite recordIndex ⟨generation, firstSlot, pageCount, true⟩ firstSlot true
    (fun offset => (physicalBase + offset * pageSize) ||| mmioPageFlags) pageCount

def map (physicalAddress length flags : UInt64) (m : EarlyMmioMapper) :
    Except Status MmioMapping × EarlyMmioMapper :=
  match pagesOf physicalAddress length flags with
  | .error e => (.error e, m)
  | .ok (pageOffset, pageCount, physicalBase) =>
    match position fun i => !(m.records i).active && (m.records i).generation != u32Max with
    | none => (.error .busy, m)
    | some recordIndex =>
      match m.findSlots pageCount with
      | none => (.error .busy, m)
      | some firstSlot =>
        -- the pointer is never null, since the window is not at address zero
        (.ok ⟨handleOf recordIndex ((m.records recordIndex).generation + 1),
            mmioWindowBase + firstSlot * pageSize + pageOffset⟩,
          m.install recordIndex firstSlot pageCount physicalBase)

/-- The part of `unmap` that writes. -/
def release (recordIndex : Fin maximumMappings) (m : EarlyMmioMapper) : EarlyMmioMapper :=
  let record := m.records recordIndex
  m.rewrite recordIndex { record with firstSlot := 0, pageCount := 0, active := false }
    record.firstSlot false (fun _ => 0) record.pageCount

def unmap (handle : ℕ) (m : EarlyMmioMapper) : Status × EarlyMmioMapper :=
  let recordNumber := handle &&& (2 ^ 32 - 1)
  let generation := handle >>> 32
  if h : recordNumber = 0 ∨ recordNumber > maximumMappings then (.notFound, m)
  else
    let recordIndex : Fin maximumMappings := ⟨recordNumber - 1, by omega⟩
    let record := m.records recordIndex
    if !record.active || record.generation != generation then (.notFound, m)
    else (.ok, m.release recordIndex)

variable {m : EarlyMmioMapper} {firstSlot count slot : ℕ} {occupied : Bool} {entry : ℕ → ℕ}

theorem setPages_occupied : bitIsSet (m.setPages firstSlot occupied entry count).occupied slot =
      if firstSlot ≤ slot ∧ slot < firstSlot + count then occupied
      else bitIsSet m.occupied slot := by
  induction count with
  | zero => rw [setPages, if_neg (by omega)]
  | succ offset ih =>
    rw [setPages, bitIsSet_setBit, ih]
    by_cases hslot : slot = firstSlot + offset
    · rw [if_pos hslot, if_pos (by omega)]
    · rw [if_neg hslot]
      exact if_congr (by omega) rfl rfl

theorem setPages_pageTable : (m.setPages firstSlot occupied entry count).pageTable slot =
      if firstSlot ≤ slot ∧ slot < firstSlot + count then entry (slot - firstSlot)
      else m.pageTable slot := by
  induction count with
  | zero => rw [setPages, if_neg (by omega)]
  | succ offset ih =>
    rw [setPages]
    dsimp only
    by_cases hslot : slot = firstSlot + offset
    · rw [hslot, update_self, if_pos (by omega), Nat.add_sub_cancel_left]
    · rw [update_of_ne hslot, ih]
      exact if_congr (by omega) rfl rfl

end EarlyMmioMapper

/-- A request for the memory from an address on. -/
structure Request where
  address : UInt64
  length : UInt64

namespace Request

def firstPage (q : Request) : ℕ := q.address.toNat / pageSize

def pageCount (q : Request) : ℕ :=
  (q.address.toNat % pageSize + q.length.toNat + (pageSize - 1)) / pageSize

/-- Where the memory is seen when its first page is mapped at a slot. -/
def pointerAt (q : Request) (firstSlot : ℕ) : ℕ :=
  mmioWindowBase + firstSlot * pageSize + q.address.toNat % pageSize

end Request

theorem handleOf_eq (recordIndex : Fin maximumMappings) (generation : ℕ) :
    handleOf recordIndex generation = generation * 2 ^ 32 + (recordIndex.val + 1) := by
  have hlt : recordIndex.val < 64 := recordIndex.isLt
  exact Handle.pack_eq (by omega)

theorem handleOf_inj {i j : Fin maximumMappings} {g k : ℕ} (h : handleOf i g = handleOf j k) :
    i = j ∧ g = k := by
  have hi : i.val < 64 := i.isLt
  have hj : j.val < 64 := j.isLt
  rw [handleOf_eq, handleOf_eq] at h
  exact ⟨Fin.ext (by omega), by omega⟩

variable {q : Request} {flags : UInt64}

/-- What the accepted arguments come to. -/
theorem pagesOf_ok {pageOffset pageCount physicalBase : ℕ}
    (h : pagesOf q.address q.length flags = .ok (pageOffset, pageCount, physicalBase)) :
    pageOffset = q.address.toNat % pageSize ∧ pageCount = q.pageCount ∧ 0 < pageCount ∧
      physicalBase = q.firstPage * pageSize ∧ q.firstPage + pageCount ≤ 2 ^ 40 := by
  have hword : q.address.toNat ≤ u64Max := Nat.le_sub_one_of_lt q.address.toNat_lt
  have hoffset : q.address.toNat &&& (pageSize - 1) = q.address.toNat % pageSize :=
    Nat.and_two_pow_sub_one_eq_mod _ 12
  have hbase : alignDown q.address.toNat pageSize = q.address.toNat / pageSize * pageSize :=
    (alignDown_eq (k := 12) hword (by decide)).trans (Nat.mul_comm _ _)
  rw [pagesOf] at h
  split at h
  · cases h
  split at h
  · cases h
  dsimp only at h
  split at h
  · cases h
  next span hspan =>
  obtain ⟨-, rfl⟩ := checkedAdd_eq_some.mp hspan
  split at h
  · cases h
  next hcnt =>
  split at h
  · cases h
  next physicalEnd hend =>
  obtain ⟨-, rfl⟩ := checkedAdd_eq_some.mp hend
  split at h
  · cases h
  next hlast =>
  rw [hoffset, hbase] at *
  cases h
  refine ⟨rfl, rfl, Nat.pos_of_ne_zero fun hzero => hcnt (.inl hzero), rfl, ?_⟩
  simp only [Request.firstPage, pageSize, pageAddressMask] at hlast ⊢
  omega

theorem pagesOf_ne_busy {address length : UInt64} :
    pagesOf address length flags ≠ .error .busy := by
  rw [pagesOf]
  dsimp only
  repeat (split; · simp)
  simp

/-- The entry of a page gives the page back, and is present. -/
theorem entry_page {page : ℕ} (h : page < 2 ^ 40) :
    (page * pageSize ||| mmioPageFlags) &&& pageAddressMask = page * pageSize ∧
      (page * pageSize ||| mmioPageFlags) &&& ptePresent ≠ 0 := by
  have hshift : page * pageSize = page <<< 12 := (Nat.shiftLeft_eq page 12).symm
  have hmask : pageAddressMask = (2 ^ 40 - 1) <<< 12 := rfl
  constructor
  · rw [Nat.and_or_distrib_right, hshift, hmask, ← Nat.shiftLeft_and_distrib,
      Nat.and_two_pow_sub_one_of_lt_two_pow h]
    exact Nat.or_zero _
  · rw [Nat.and_or_distrib_right]
    exact fun hzero => absurd (Nat.or_eq_zero_iff.mp hzero).2 (by decide)

namespace EarlyMmioMapper

variable {m : EarlyMmioMapper}

/-- A handle that is not refused is that of an active record. -/
theorem unmap_cases (handle : ℕ) (m : EarlyMmioMapper) : unmap handle m = (.notFound, m) ∨
    ∃ i, handle = handleOf i (m.records i).generation ∧ (m.records i).active ∧
      unmap handle m = (.ok, m.release i) := by
  rw [unmap]
  dsimp only
  split
  · exact .inl rfl
  next hnumber =>
  split
  · exact .inl rfl
  next hrecord =>
  simp only [Bool.or_eq_true, Bool.not_eq_true', bne_iff_ne, not_or, not_not,
    Bool.not_eq_false] at hrecord
  refine .inr ⟨_, ?_, hrecord.1, rfl⟩
  rw [handleOf_eq, hrecord.2]
  simp only [Nat.and_two_pow_sub_one_eq_mod] at hnumber ⊢
  omega

/-- A call that is not refused takes a record that is free and slots that are. -/
theorem map_cases (q : Request) (flags : UInt64) (m : EarlyMmioMapper) :
    (∃ e, m.map q.address q.length flags = (.error e, m)) ∨ ∃ i firstSlot,
      m.map q.address q.length flags =
        (.ok ⟨handleOf i ((m.records i).generation + 1), q.pointerAt firstSlot⟩,
          m.install i firstSlot q.pageCount (q.firstPage * pageSize)) ∧
      (m.records i).active = false ∧ (m.records i).generation ≠ u32Max ∧
      firstSlot + q.pageCount ≤ mmioSlots ∧
      (∀ slot, firstSlot ≤ slot → slot < firstSlot + q.pageCount →
        bitIsSet m.occupied slot = false) ∧
      q.firstPage + q.pageCount ≤ 2 ^ 40 := by
  rw [map]
  split
  · exact .inl ⟨_, rfl⟩
  next hpages =>
  obtain ⟨rfl, rfl, -, rfl, hbelow⟩ := pagesOf_ok hpages
  split
  · exact .inl ⟨_, rfl⟩
  next i hi =>
  split
  · exact .inl ⟨_, rfl⟩
  next firstSlot hslots =>
  have hfree := position_some hi
  simp only [Bool.and_eq_true, Bool.not_eq_true', bne_iff_ne] at hfree
  obtain ⟨hinside, hclr⟩ := findRun_some hslots (absurd rfl) (by omega)
  exact .inr ⟨i, firstSlot, rfl, hfree.1, hfree.2, by omega, hclr, hbelow⟩

/-- The mapper is busy if there is no record left or no run of free slots. -/
theorem map_busy (h : (m.map q.address q.length flags).1 = .error .busy) :
    (∀ i, (m.records i).active ∨ (m.records i).generation = u32Max) ∨
      ∀ firstSlot, firstSlot + q.pageCount ≤ mmioSlots → ∃ slot, firstSlot ≤ slot ∧
        slot < firstSlot + q.pageCount ∧ bitIsSet m.occupied slot := by
  rw [map] at h
  split at h
  next hpages =>
    cases h
    exact absurd hpages pagesOf_ne_busy
  next hpages =>
  obtain ⟨-, rfl, hpos, -, -⟩ := pagesOf_ok hpages
  split at h
  next hnone =>
    refine .inl fun i => ?_
    have hi := position_none.mp hnone i
    cases hact : (m.records i).active <;> simp_all
  next i hi =>
  split at h
  next hslots =>
    exact .inr fun firstSlot hinside =>
      findRun_none hslots hpos (fun first hlt => absurd hlt (Nat.not_lt_zero _)) (by omega)
  · cases h

end EarlyMmioMapper

/-- The record has the slot. -/
def MappingRecord.Covers (record : MappingRecord) (slot : ℕ) : Prop :=
  record.active ∧ record.firstSlot ≤ slot ∧ slot < record.firstSlot + record.pageCount

/-- The window as its callers know it: for each handle the request and the pointer it came
with, and the handles that have been unmapped. -/
structure Session where
  window : EarlyMmioMapper
  grants : ℕ → Option (Request × ℕ)
  removed : List ℕ

inductive Call
  | map (q : Request) (flags : UInt64)
  | unmap (handle : ℕ)

/-- The slots of the record map the pages of the request. -/
structure Serves (m : EarlyMmioMapper) (q : Request) (record : MappingRecord) : Prop where
  inside : record.firstSlot + record.pageCount ≤ mmioSlots
  pageCount_eq : record.pageCount = q.pageCount
  below : q.firstPage + record.pageCount ≤ 2 ^ 40
  entries : ∀ slot, record.firstSlot ≤ slot → slot < record.firstSlot + record.pageCount →
    bitIsSet m.occupied slot ∧
      m.pageTable slot = (q.firstPage + (slot - record.firstSlot)) * pageSize ||| mmioPageFlags

open EarlyMmioMapper

section

variable {record : MappingRecord} {firstSlot count : ℕ} {occupied : Bool} {entry : ℕ → ℕ}

theorem Serves.page {m : EarlyMmioMapper} {offset : ℕ} (h : Serves m q record)
    (hlt : offset < q.pageCount) :
    m.pageTable (record.firstSlot + offset) &&& pageAddressMask =
        (q.firstPage + offset) * pageSize ∧
      m.pageTable (record.firstSlot + offset) &&& ptePresent ≠ 0 := by
  have hbelow := h.below
  rw [← h.pageCount_eq] at hlt
  rw [(h.entries _ (Nat.le_add_right _ _) (by omega)).2, Nat.add_sub_cancel_left]
  exact entry_page (by omega)

/-- A loop over other slots leaves the record as it was. -/
theorem Serves.setPages {m : EarlyMmioMapper} {records : Fin maximumMappings → MappingRecord}
    (h : Serves m q record)
    (hoth : ∀ slot, record.firstSlot ≤ slot → slot < record.firstSlot + record.pageCount →
      ¬(firstSlot ≤ slot ∧ slot < firstSlot + count)) :
    Serves { m.setPages firstSlot occupied entry count with records } q record := by
  refine { h with entries := fun slot hle hlt => ?_ }
  rw [setPages_occupied, setPages_pageTable, if_neg (hoth slot hle hlt), if_neg (hoth slot hle hlt)]
  exact h.entries slot hle hlt

namespace Session

def new : Session := ⟨.new, fun _ => none, []⟩

def step (s : Session) : Call → Session
  | .map q flags =>
    match s.window.map q.address q.length flags with
    | (.ok mapping, window) =>
      { s with window, grants := update s.grants mapping.handle (some (q, mapping.pointer)) }
    | (.error _, window) => { s with window }
  | .unmap handle =>
    match s.window.unmap handle with
    | (.ok, window) => { s with window, removed := handle :: s.removed }
    | (_, window) => { s with window }

/-- The records, the bitmap and the page table agree, a handle that was handed out is that of an
active record until it is unmapped, and then it is older than what its record has now. -/
structure Exact (s : Session) : Prop where
  generation_le : ∀ i, (s.window.records i).generation ≤ u32Max
  serves : ∀ i, (s.window.records i).active → ∃ q : Request,
    s.grants (handleOf i (s.window.records i).generation) =
        some (q, q.pointerAt (s.window.records i).firstSlot) ∧
      Serves s.window q (s.window.records i)
  disjoint : ∀ i j slot, (s.window.records i).Covers slot → (s.window.records j).Covers slot → i = j
  free : ∀ slot, (∀ i, ¬(s.window.records i).Covers slot) →
    bitIsSet s.window.occupied slot = false ∧ s.window.pageTable slot = 0
  stale : ∀ handle ∈ s.removed, ∃ i generation, handle = handleOf i generation ∧
    generation ≤ (s.window.records i).generation ∧
      ((s.window.records i).active → generation < (s.window.records i).generation)
  granted : ∀ handle, s.grants handle ≠ none → handle ∉ s.removed →
    ∃ i, handle = handleOf i (s.window.records i).generation ∧ (s.window.records i).active

namespace Exact

variable {s : Session} {i : Fin maximumMappings} {slot : ℕ}

theorem new : Exact .new where
  generation_le := fun _ => Nat.zero_le _
  serves := fun _ h => Bool.noConfusion h
  disjoint := fun _ _ _ h => Bool.noConfusion h.1
  free := fun slot _ => ⟨by simp [Session.new, EarlyMmioMapper.new, bitIsSet], rfl⟩
  stale := fun _ h => absurd h List.not_mem_nil
  granted := fun _ h => absurd rfl h

theorem bitIsSet_of_covers (h : Exact s) (hslot : (s.window.records i).Covers slot) :
    bitIsSet s.window.occupied slot := by
  obtain ⟨q, -, hserves⟩ := h.serves i hslot.1
  exact (hserves.entries slot hslot.2.1 hslot.2.2).1

/-- A call rewrites one run of slots and the record of that run. -/
theorem rewrite {grants : ℕ → Option (Request × ℕ)} {removed : List ℕ} (h : Exact s)
    (hoth : ∀ j ≠ i, ∀ slot, (s.window.records j).Covers slot →
      ¬(firstSlot ≤ slot ∧ slot < firstSlot + count))
    (hbef : ∀ slot, (s.window.records i).Covers slot → firstSlot ≤ slot ∧ slot < firstSlot + count)
    (hafter : ∀ slot, record.Covers slot → firstSlot ≤ slot ∧ slot < firstSlot + count)
    (hfree : ∀ slot, firstSlot ≤ slot → slot < firstSlot + count → ¬record.Covers slot →
      occupied = false ∧ entry (slot - firstSlot) = 0)
    (hgen : (s.window.records i).generation ≤ record.generation ∧ record.generation ≤ u32Max)
    (hgr : ∀ handle, (∀ generation, handle ≠ handleOf i generation) →
      grants handle = s.grants handle)
    (hkept : s.removed ⊆ removed)
    (hremoved : ∀ handle ∈ removed, handle ∈ s.removed ∨
      handle = handleOf i record.generation ∧ record.active = false)
    (hgranted : ∀ generation, grants (handleOf i generation) ≠ none →
      handleOf i generation ∉ removed → generation = record.generation ∧ record.active)
    (hserves : record.active → (s.window.records i).generation < record.generation ∧ ∃ q : Request,
        grants (handleOf i record.generation) = some (q, q.pointerAt record.firstSlot) ∧
        Serves (s.window.rewrite i record firstSlot occupied entry count) q record) :
    Exact ⟨s.window.rewrite i record firstSlot occupied entry count, grants, removed⟩ := by
  refine ⟨fun j => ?_, fun j => ?_, fun j k slot => ?_, fun slot hslot => ?_, fun handle hhd => ?_,
    fun handle hsome hkeep => ?_⟩
  all_goals dsimp only [EarlyMmioMapper.rewrite] at *
  · exact update_cases hgen.2 (fun j _ => h.generation_le j) j
  · refine update_cases (fun hact => (hserves hact).2) (fun j hji hj => ?_) j
    obtain ⟨q, hq, hsv⟩ := h.serves j hj
    rw [hgr _ fun generation heq => hji (handleOf_inj heq).1]
    exact ⟨q, hq, hsv.setPages fun slot hle hlt => hoth j hji slot ⟨hj, hle, hlt⟩⟩
  · refine update_cases ?_ (fun j hji => ?_) j <;> refine update_cases ?_ (fun k hki => ?_) k
    · exact fun _ _ => rfl
    · exact fun hj hk => absurd (hafter slot hj) (hoth k hki slot hk)
    · exact fun hj hk => absurd (hafter slot hk) (hoth j hji slot hj)
    · exact h.disjoint j k slot
  · rw [setPages_occupied, setPages_pageTable]
    by_cases hrun : firstSlot ≤ slot ∧ slot < firstSlot + count
    · rw [if_pos hrun, if_pos hrun]
      have hslot := hslot i
      rw [update_self] at hslot
      exact hfree slot hrun.1 hrun.2 hslot
    · rw [if_neg hrun, if_neg hrun]
      refine h.free slot fun j hj => ?_
      by_cases hji : j = i
      · subst hji
        exact hrun (hbef slot hj)
      · exact hslot j (by rwa [update_of_ne hji])
  · rcases hremoved handle hhd with hhd | ⟨rfl, hact⟩
    · obtain ⟨j, generation, rfl, hle, hlt⟩ := h.stale handle hhd
      refine ⟨j, generation, rfl, ?_⟩
      by_cases hji : j = i
      · subst hji
        rw [update_self]
        exact ⟨hle.trans hgen.1, fun hact => hle.trans_lt (hserves hact).1⟩
      · rw [update_of_ne hji]
        exact ⟨hle, hlt⟩
    · refine ⟨i, _, rfl, ?_⟩
      rw [update_self]
      exact ⟨le_rfl, fun htrue => Bool.noConfusion (hact.symm.trans htrue)⟩
  · by_cases hform : ∃ generation, handle = handleOf i generation
    · obtain ⟨generation, rfl⟩ := hform
      obtain ⟨rfl, hact⟩ := hgranted generation hsome hkeep
      exact ⟨i, by rw [update_self], by rwa [update_self]⟩
    · rw [hgr handle (not_exists.mp hform)] at hsome
      obtain ⟨j, rfl, hact⟩ := h.granted handle hsome fun hmem => hkeep (hkept hmem)
      have hji : j ≠ i := fun hji => hform ⟨_, by rw [hji]⟩
      exact ⟨j, by rw [update_of_ne hji], by rwa [update_of_ne hji]⟩

theorem install (h : Exact s) (hidle : (s.window.records i).active = false)
    (hgen : (s.window.records i).generation ≠ u32Max)
    (hinside : firstSlot + q.pageCount ≤ mmioSlots)
    (hclr : ∀ slot, firstSlot ≤ slot → slot < firstSlot + q.pageCount →
      bitIsSet s.window.occupied slot = false)
    (hbelow : q.firstPage + q.pageCount ≤ 2 ^ 40) :
    Exact
      { s with
        window := s.window.install i firstSlot q.pageCount (q.firstPage * pageSize)
        grants := update s.grants (handleOf i ((s.window.records i).generation + 1))
          (some (q, q.pointerAt firstSlot)) } := by
  refine h.rewrite (fun j _ slot hslot hrun => ?_)
    (fun slot hslot => Bool.noConfusion (hidle.symm.trans hslot.1)) (fun slot hslot => hslot.2)
    (fun slot hle hlt hslot => absurd ⟨rfl, hle, hlt⟩ hslot)
    ⟨Nat.le_succ _, Nat.lt_of_le_of_ne (h.generation_le i) hgen⟩
    (fun handle hne => update_of_ne (hne _) _ _) (List.Subset.refl _) (fun _ => .inl)
    (fun generation hsome hkeep => ?_) fun _ =>
      ⟨Nat.lt_succ_self _, q, update_self _ _ _, hinside, rfl, hbelow, fun slot hle hlt => ?_⟩
  · exact Bool.noConfusion ((h.bitIsSet_of_covers hslot).symm.trans (hclr slot hrun.1 hrun.2))
  · by_contra hother
    rw [update_of_ne fun heq => hother ⟨(handleOf_inj heq).2, rfl⟩] at hsome
    obtain ⟨j, heq, hact⟩ := h.granted _ hsome hkeep
    obtain ⟨rfl, -⟩ := handleOf_inj heq
    exact Bool.noConfusion (hidle.symm.trans hact)
  · rw [EarlyMmioMapper.rewrite, setPages_occupied, setPages_pageTable, if_pos ⟨hle, hlt⟩,
      if_pos ⟨hle, hlt⟩, ← Nat.add_mul]
    exact ⟨rfl, rfl⟩

theorem release (h : Exact s) (hact : (s.window.records i).active) : Exact
      { s with
        window := s.window.release i
        removed := handleOf i (s.window.records i).generation :: s.removed } := by
  refine h.rewrite (fun j hji slot hj hrun => hji (h.disjoint j i slot hj ⟨hact, hrun⟩))
    (fun slot hslot => hslot.2) (fun slot hslot => Bool.noConfusion hslot.1)
    (fun _ _ _ _ => ⟨rfl, rfl⟩) ⟨le_rfl, h.generation_le i⟩ (fun _ _ => rfl)
    (List.subset_cons_self _ _) (fun handle hhd => ?_) (fun generation hsome hkeep => ?_)
    fun hact => Bool.noConfusion hact
  · exact (List.mem_cons.mp hhd).symm.imp_right fun heq => ⟨heq, rfl⟩
  · obtain ⟨j, heq, -⟩ := h.granted _ hsome fun hmem => hkeep (List.mem_cons_of_mem _ hmem)
    obtain ⟨rfl, rfl⟩ := handleOf_inj heq
    exact absurd List.mem_cons_self hkeep

theorem step (h : Exact s) (call : Call) : Exact (s.step call) := by
  cases call with
  | map q flags =>
    rw [Session.step]
    rcases map_cases q flags s.window with
      ⟨e, hmap⟩ | ⟨i, firstSlot, hmap, hidle, hgen, hinside, hclr, hbelow⟩
    · rw [hmap]
      exact h
    · rw [hmap]
      exact h.install hidle hgen hinside hclr hbelow
  | unmap handle =>
    rw [Session.step]
    rcases unmap_cases handle s.window with hunmap | ⟨i, rfl, hact, hunmap⟩
    · rw [hunmap]
      exact h
    · rw [hunmap]
      exact h.release hact

theorem run (h : Exact s) (calls : List Call) : Exact (calls.foldl Session.step s) := by
  induction calls generalizing s with
  | nil => exact h
  | cons call calls ih => exact ih (h.step call)

end Exact

end Session

end

open Session

/-- Over every sequence of calls the window maps what it has handed out: the runs of the active
records are disjoint and inside the window, a slot is present, and marked as taken, just when a
record has it, and then maps the page of the request; a handle that was handed out and not
unmapped is that of an active record, whose pages are present at its pointer, and one that was
unmapped is refused; and the slots are short only if every run of the needed length has a slot
that is mapped. -/
theorem window_maps_what_it_hands_out (calls : List Call) :
    let s := calls.foldl step new
    (∀ i, (s.window.records i).active →
      (s.window.records i).firstSlot + (s.window.records i).pageCount ≤ mmioSlots ∧
      ∃ q : Request, s.grants (handleOf i (s.window.records i).generation) =
          some (q, q.pointerAt (s.window.records i).firstSlot) ∧
        (s.window.records i).pageCount = q.pageCount ∧
        ∀ offset < q.pageCount,
          s.window.pageTable ((s.window.records i).firstSlot + offset) &&& pageAddressMask =
            (q.firstPage + offset) * pageSize) ∧
    (∀ i j slot, (s.window.records i).Covers slot → (s.window.records j).Covers slot → i = j) ∧
    (∀ slot, (s.window.pageTable slot &&& ptePresent ≠ 0 ↔ ∃ i, (s.window.records i).Covers slot) ∧
      (bitIsSet s.window.occupied slot ↔ ∃ i, (s.window.records i).Covers slot)) ∧
    (∀ handle q pointer, s.grants handle = some (q, pointer) → handle ∉ s.removed → ∃ i,
      handle = handleOf i (s.window.records i).generation ∧ (s.window.records i).active ∧
        pointer = q.pointerAt (s.window.records i).firstSlot ∧ ∀ offset < q.pageCount,
          s.window.pageTable ((s.window.records i).firstSlot + offset) &&& pageAddressMask =
              (q.firstPage + offset) * pageSize ∧
            s.window.pageTable ((s.window.records i).firstSlot + offset) &&& ptePresent ≠ 0) ∧
    (∀ handle ∈ s.removed, s.window.unmap handle = (.notFound, s.window)) ∧
    ∀ (q : Request) flags, (s.window.map q.address q.length flags).1 = .error .busy →
      (∀ i, (s.window.records i).active ∨ (s.window.records i).generation = u32Max) ∨
      ∀ firstSlot, firstSlot + q.pageCount ≤ mmioSlots → ∃ slot, firstSlot ≤ slot ∧
        slot < firstSlot + q.pageCount ∧ ∃ i, (s.window.records i).Covers slot := by
  intro s
  have h : Exact s := Exact.new.run calls
  have hset : ∀ slot, bitIsSet s.window.occupied slot ↔ ∃ i, (s.window.records i).Covers slot := by
    intro slot
    refine ⟨fun hslot => ?_, fun ⟨i, hi⟩ => h.bitIsSet_of_covers hi⟩
    by_contra hnone
    exact Bool.noConfusion (hslot.symm.trans (h.free slot (not_exists.mp hnone)).1)
  refine ⟨fun i hi => ?_, h.disjoint,
    fun slot => ⟨⟨fun hslot => ?_, fun ⟨i, hact, hle, hlt⟩ => ?_⟩, hset slot⟩,
    fun handle q pointer hgrant hkeep => ?_, fun handle hhd => ?_, fun q flags hbusy => ?_⟩
  · obtain ⟨q, hq, hserves⟩ := h.serves i hi
    exact ⟨hserves.inside, q, hq, hserves.pageCount_eq, fun offset hlt => (hserves.page hlt).1⟩
  · by_contra hnone
    exact hslot (by rw [(h.free slot (not_exists.mp hnone)).2]; rfl)
  · obtain ⟨q, -, hserves⟩ := h.serves i hact
    have hbelow := hserves.below
    rw [(hserves.entries slot hle hlt).2]
    exact (entry_page (by omega)).2
  · obtain ⟨i, rfl, hact⟩ := h.granted handle (hgrant ▸ Option.some_ne_none _) hkeep
    obtain ⟨q', hq, hserves⟩ := h.serves i hact
    obtain ⟨rfl, rfl⟩ := Prod.mk.inj (Option.some.inj (hq.symm.trans hgrant))
    exact ⟨i, rfl, hact, rfl, fun offset => hserves.page⟩
  · rcases unmap_cases handle s.window with hunmap | ⟨i, rfl, hact, -⟩
    · exact hunmap
    · obtain ⟨j, generation, heq, -, hlt⟩ := h.stale _ hhd
      obtain ⟨rfl, rfl⟩ := handleOf_inj heq
      exact absurd (hlt hact) (lt_irrefl _)
  · refine (map_busy hbusy).imp_right fun hruns firstSlot hinside => ?_
    obtain ⟨slot, hle, hlt, hslot⟩ := hruns firstSlot hinside
    exact ⟨slot, hle, hlt, (hset slot).mp hslot⟩

end ArachKernel.Mmio
