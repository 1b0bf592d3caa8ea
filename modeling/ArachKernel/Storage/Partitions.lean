import ArachKernel.Storage.Gpt

/-!
What an accepted partition table is worth: the views of its partitions (`PartitionView` in
`storage.rs`) open, and they keep apart.
-/

namespace ArachKernel.Storage

open Guarded List

variable {σ : Type} {d : BlockDevice σ} {s : Drive σ} {table : GptTable}
  {partition : GptPartition} {partitions : List GptPartition} {firstUsable lastUsable first : ℕ}

structure PartitionView where
  startLba : ℕ
  sectorCount : ℕ

/-- `PartitionView::new` on a device of so many sectors. -/
def PartitionView.new (deviceSectors startLba sectorCount : ℕ) : Except BlockError PartitionView :=
  if sectorCount = 0 ∨ (checkedAdd u64Max startLba sectorCount).all (deviceSectors < ·) then
    .error .invalidGeometry
  else .ok ⟨startLba, sectorCount⟩

/-- The sector of the device that a read or write of the view goes to. -/
def PartitionView.translate (view : PartitionView) (lba : ℕ) : Except BlockError ℕ :=
  if view.sectorCount ≤ lba then .error .invalidSector
  else (checkedAdd u64Max view.startLba lba).elim (.error .invalidSector) .ok

def GptPartition.sectorCount (partition : GptPartition) : ℕ :=
  partition.lastLba - partition.firstLba + 1

def GptPartition.open (partition : GptPartition) (deviceSectors : ℕ) :
    Except BlockError PartitionView :=
  PartitionView.new deviceSectors partition.firstLba partition.sectorCount

/-- A view of the partition gets at a sector of the device. -/
def GptPartition.Reaches (partition : GptPartition) (d : BlockDevice σ) (sector : ℕ) : Prop :=
  ∃ view lba, partition.open d.sectorCount = .ok view ∧ view.translate lba = .ok sector

theorem GptPartition.open_eq_ok (hle : partition.firstLba ≤ partition.lastLba)
    (hlt : partition.lastLba < d.sectorCount) :
    partition.open d.sectorCount = .ok ⟨partition.firstLba, partition.sectorCount⟩ := by
  have hmax := d.sectorCount_le
  refine if_neg ?_
  rw [checkedAdd, if_pos (by simp only [sectorCount]; omega), sectorCount]
  simp only [Option.all_some, decide_eq_true_eq]
  omega

theorem GptPartition.reaches_iff (hle : partition.firstLba ≤ partition.lastLba)
    (hlt : partition.lastLba < d.sectorCount) (sector : ℕ) :
    partition.Reaches d sector ↔ partition.firstLba ≤ sector ∧ sector ≤ partition.lastLba := by
  have hmax := d.sectorCount_le
  simp only [Reaches, open_eq_ok hle hlt, Except.ok.injEq, exists_and_left, exists_eq_left',
    sectorCount, PartitionView.translate, checkedAdd]
  constructor
  · rintro ⟨lba, h⟩
    split_ifs at h <;> cases h
    omega
  · intro h
    refine ⟨sector - partition.firstLba, ?_⟩
    rw [if_neg (by omega), if_pos (by omega), Option.elim_some, Nat.add_sub_cancel' h.1]

/-! ### What the parser lets through -/

/-- The partitions lie in the usable part of the disk. -/
def Within (first last : ℕ) (partitions : List GptPartition) : Prop :=
  ∀ p ∈ partitions, first ≤ p.firstLba ∧ p.firstLba ≤ p.lastLba ∧ p.lastLba ≤ last

theorem readWord_returns (width : ℕ) (bytes : List UInt8) (offset : ℕ) :
    Returns (readWord width bytes offset : Guarded σ BlockError ℕ)
      (· = word width bytes offset) := by
  rw [readWord]
  split
  · exact .pure rfl
  · exact fun _ _ h => by cases h

theorem validateHeader_returns (header : List UInt8) (sectorCount : ℕ) :
    Returns (validateHeader header sectorCount : Guarded σ BlockError Unit)
      fun _ => word 8 header 48 < sectorCount := by
  rw [validateHeader]
  iterate 11 refine .next fun _ => ?_
  refine .bind (readWord_returns 8 header 48) ?_
  rintro _ rfl
  refine .next fun _ => ?_
  exact fun s _ h => not_le.mp (Returns.refuse s () h)

theorem parseEntry_returns (index : ℕ) (raw : List UInt8)
    (h : Within firstUsable lastUsable partitions) :
    Returns (parseEntry firstUsable lastUsable index raw partitions :
      Guarded σ BlockError (List GptPartition)) (Within firstUsable lastUsable) := by
  rw [parseEntry]
  refine .next fun _ => ?_
  split
  · exact .pure h
  refine .next fun firstLba => .next fun lastLba => .bind .refuse fun _ hlba => ?_
  iterate 4 refine .next fun _ => ?_
  split
  · refine .pure (forall_mem_append.mpr ⟨h, forall_mem_singleton.mpr ?_⟩)
    dsimp only
    omega
  · exact fun _ _ h => by cases h

theorem parseEntries_returns (raws : List (List UInt8)) (offset : ℕ)
    (h : Within firstUsable lastUsable partitions) :
    Returns (parseEntries firstUsable lastUsable first offset raws partitions :
      Guarded σ BlockError (List GptPartition)) (Within firstUsable lastUsable) := by
  induction raws generalizing offset partitions with
  | nil => exact .pure h
  | cons raw rest ih =>
    rw [parseEntries]
    exact .next fun index => .bind (parseEntry_returns index raw h) fun _ => ih _

theorem parseSectors_returns {total : ℕ} (sectors : ℕ) (crc : BitVec 32) (entryBytes lba : ℕ)
    (h : Within firstUsable lastUsable partitions) :
    Returns (parseSectors d firstUsable lastUsable total sectors crc entryBytes lba partitions)
      fun result => Within firstUsable lastUsable result.2 := by
  induction sectors generalizing crc entryBytes lba partitions with
  | zero => exact .pure h
  | succ sectors ih =>
    rw [parseSectors]
    iterate 3 refine .next fun _ => ?_
    refine .bind (parseEntries_returns _ _ h) fun after hafter => ?_
    exact .next fun _ => .next fun _ => ih _ _ _ hafter

theorem pairwise_of_not_overlapping (h : ¬overlapping partitions) :
    partitions.Pairwise fun p q => p.lastLba < q.firstLba ∨ q.lastLba < p.firstLba := by
  induction partitions with
  | nil => exact .nil
  | cons p rest ih =>
    rw [overlapping, Bool.or_eq_true, not_or, any_eq_true] at h
    refine .cons (fun q hq => ?_) (ih h.2)
    by_contra hno
    exact h.1 ⟨q, hq, decide_eq_true (by omega)⟩

theorem parse_returns : Returns (GptTable.parse d) fun table =>
    Within table.firstUsableLba table.lastUsableLba table.partitions ∧
      table.lastUsableLba < d.sectorCount ∧ ¬overlapping table.partitions := by
  rw [GptTable.parse]
  refine .next fun _ => .next fun header => ?_
  refine .bind (validateHeader_returns header.1 d.sectorCount) fun _ hlast => ?_
  iterate 11 refine .next fun _ => ?_
  refine .bind (readWord_returns 8 header.1 48) ?_
  rintro _ rfl
  iterate 3 refine .next fun _ => ?_
  refine .bind (parseSectors_returns _ _ _ _ (forall_mem_nil _)) fun result hwithin => ?_
  exact .next fun _ => .bind .refuse fun _ hno => .next fun _ => .pure ⟨hwithin, hlast, hno⟩

/-- Whatever a device answers, the partitions of a table that is accepted can be opened. Each
reaches its own sectors and no others, all in the usable part of the disk, and no sector is
reached by two of them. -/
theorem partitions_kept_apart (h : (GptTable.parse d s).1 = .ok table) :
    (∀ p ∈ table.partitions, p.firstLba ≤ p.lastLba ∧
      (∃ view, p.open d.sectorCount = .ok view) ∧ ∀ sector,
        (p.Reaches d sector ↔ p.firstLba ≤ sector ∧ sector ≤ p.lastLba) ∧
        (p.Reaches d sector → table.firstUsableLba ≤ sector ∧ sector ≤ table.lastUsableLba ∧
          sector < d.sectorCount)) ∧
    table.partitions.Pairwise fun p q => ∀ sector, p.Reaches d sector → ¬q.Reaches d sector := by
  obtain ⟨hwithin, hlast, hno⟩ := parse_returns s table h
  have hlt (p) (hp : p ∈ table.partitions) := (hwithin p hp).2.2.trans_lt hlast
  have hreach (p) (hp : p ∈ table.partitions) := p.reaches_iff (hwithin p hp).2.1 (hlt p hp)
  refine ⟨fun p hp => ⟨(hwithin p hp).2.1, ⟨_, p.open_eq_ok (hwithin p hp).2.1 (hlt p hp)⟩,
      fun sector => ⟨hreach p hp sector, fun hsector => ?_⟩⟩,
    (pairwise_of_not_overlapping hno).imp_of_mem fun hp hq hpq sector hsector hsector' => ?_⟩
  · rw [hreach p hp] at hsector
    have hp' := hwithin p hp
    omega
  · rw [hreach _ hp] at hsector
    rw [hreach _ hq] at hsector'
    omega

def sampleWord (byte : UInt8) : List UInt8 := byte :: replicate 7 0

def sampleEntry (first last : UInt8) : List UInt8 :=
  replicate 16 1 ++ replicate 16 0 ++ sampleWord first ++ sampleWord last ++ replicate 80 0

/-- A disk of nine sectors with two partitions. -/
def sampleDisk : BlockDevice Unit where
  sectorCount := 9
  sectorCount_le := by decide
  readSector lba state :=
    let bytes := if lba = 1 then
        gptSignature ++ [0, 0, 1, 0, 92, 0, 0, 0, 175, 16, 62, 164, 0, 0, 0, 0] ++
          [1, 7, 3, 6, 0, 0, 2].flatMap sampleWord ++ [2, 0, 0, 0, 128, 0, 0, 0, 133, 65, 149, 139]
      else sampleEntry 3 4 ++ sampleEntry 5 6
    (.ok ⟨(bytes ++ replicate 512 0).take 512, by
      rw [length_take, length_append, length_replicate]
      exact Nat.min_eq_left (Nat.le_add_left ..)⟩, state)

theorem partitions_kept_apart_sample : ∃ table,
    (GptTable.parse sampleDisk ⟨(), []⟩).1 = .ok table ∧ table.partitions.length = 2 ∧
      table.partitions.Pairwise fun p q =>
        ∀ sector, p.Reaches sampleDisk sector → ¬q.Reaches sampleDisk sector := by
  have hlen : (GptTable.parse sampleDisk ⟨(), []⟩).1.toOption.map
      (·.partitions.length) = some 2 := by decide +kernel
  cases h : (GptTable.parse sampleDisk ⟨(), []⟩).1 with
  | error => simp [h, Except.toOption] at hlen
  | ok table =>
    rw [h] at hlen
    exact ⟨table, rfl, Option.some.inj hlen, (partitions_kept_apart h).2⟩

end ArachKernel.Storage
