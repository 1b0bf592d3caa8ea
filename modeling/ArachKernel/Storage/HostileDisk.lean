import ArachKernel.Storage.Ext4Safety
import ArachKernel.Storage.Gpt

/-!
Reading an arbitrary disk. The partition table and the ext4 reader are safe on
every device, with one exception: a superblock that announces 64-bit block numbers
passes the feature checks of `probe`, which then reads the high half of the block
count at offset `0x150` of a buffer of 256 bytes.
-/

namespace ArachKernel.Storage.Ext4ReadOnly

open Guarded

variable {σ ε : Type} {d : BlockDevice σ}

/-- The superblock passes the checks on the magic number, the block size and the
features. -/
def PassesFeatures (superblock : List UInt8) : Prop :=
  word 2 superblock 0x38 = ext4Magic ∧ word 4 superblock 0x18 ≤ 2 ∧
    BitVec.ofNat 32 (word 4 superblock 0x60) &&& ~~~ext4IncompatReserved = 0 ∧
    BitVec.ofNat 32 (word 4 superblock 0x64) &&& ext4RoCompatRefused = 0

/-- The superblock announces 64-bit block numbers. -/
def Announces64bit (superblock : List UInt8) : Prop :=
  BitVec.ofNat 32 (word 4 superblock 0x60) &&& ext4Incompat64bit ≠ 0

/-! ### Mounting -/

theorem blockSize_bounds {log : ℕ} (h : log ≤ 2) :
    1024 ≤ 1024 <<< log ∧ 1024 <<< log ≤ 4096 ∧ (1024 <<< log) % 512 = 0 := by
  obtain rfl | rfl | rfl : log = 0 ∨ log = 1 ∨ log = 2 := by omega
  all_goals decide

variable {superblock : List UInt8} {I : σ → Prop}

theorem probeFeatures_safe (h : superblock.length = 256) :
    Safe I (probeFeatures superblock) fun result =>
      PassesFeatures superblock ∧ (1024 ≤ result.1 ∧ result.1 ≤ 4096) ∧
        result.2 = BitVec.ofNat 32 (word 4 superblock 0x60) := by
  rw [probeFeatures]
  refine .value_then (readWord_safe (by omega)) ?_
  refine .refuse_then fun hmagic => ?_
  refine .value_then (readWord_safe (by omega)) ?_
  refine .refuse_then fun hlog => ?_
  refine .refuse_then fun _ => ?_
  refine .value_then (readWord_safe (by omega)) ?_
  refine .refuse_then fun hincompat => ?_
  refine .value_then (readWord_safe (by omega)) ?_
  refine .refuse_then fun hro => ?_
  obtain ⟨hge, hle, -⟩ := blockSize_bounds (not_lt.mp hlog)
  exact .pure ⟨⟨not_not.mp hmagic, not_lt.mp hlog, not_not.mp hincompat, not_not.mp hro⟩,
    ⟨hge, hle⟩, rfl⟩

/-- Without 64-bit block numbers the geometry is read inside the superblock, and what
is accepted has the bounds the reader relies on. -/
theorem probeGeometry_safe {sectorCount blockSize : ℕ}
    {featureIncompat : Flags} (h : superblock.length = 256) (hge : 1024 ≤ blockSize)
    (hle : blockSize ≤ 4096) (h64 : featureIncompat &&& ext4Incompat64bit = 0) :
    Safe I (probeGeometry sectorCount superblock blockSize featureIncompat) Admitted := by
  rw [probeGeometry]
  refine .bind (readWord_safe (by omega)) fun blocksLo _ => ?_
  refine .bind (optionalWord_safe fun hset => absurd h64 hset) fun blocksHi _ => ?_
  refine .bind (readWord_safe (by omega)) fun firstDataBlock _ => ?_
  refine .bind (readWord_safe (by omega)) fun blocksPerGroup _ => ?_
  refine .bind (readWord_safe (by omega)) fun inodesCount _ => ?_
  refine .bind (readWord_safe (by omega)) fun inodesPerGroup _ => ?_
  refine .bind (readWord_safe (by omega)) fun inodeSize _ => ?_
  refine .refuse_then fun hshape => ?_
  simp only [not_or, not_not] at hshape
  obtain ⟨-, -, hblocksPer, hinodesPer, -, hinode⟩ := hshape
  refine .bind (P := fun _ => True) (Safe.okOr fun _ _ => trivial) fun dataBlocks _ => ?_
  refine .bind (minus_safe (by omega)) fun round _ => ?_
  refine .bind checkedAdd_safe fun rounded _ => ?_
  refine .bind (divide_safe hblocksPer) fun groupCount _ => ?_
  refine .refuse_then fun _ => ?_
  refine .refuse_then fun _ => ?_
  refine .bind (readWord_safe (by omega)) fun descriptorSize _ => ?_
  refine .refuse_then fun hdesc => ?_
  refine .refuse_then fun _ => ?_
  refine .bind checkedMul_safe fun totalBytes _ => ?_
  refine .bind checkedMul_safe fun filesystemBytes _ => ?_
  refine .refuse_then fun _ => ?_
  apply Safe.pure
  refine ⟨hge, hle, hinodesPer, hinode.1, ?_⟩
  split
  · exact le_rfl
  next hne => exact (not_not.mp (not_and.mp hdesc hne)).1.1

theorem probeSuperblock_safe {superblock : Buffer ext4SuperblockBytes}
    (h : ¬ (PassesFeatures superblock.1 ∧ Announces64bit superblock.1)) :
    Safe (Served d) (probeSuperblock d superblock) Admitted := by
  rw [probeSuperblock]
  refine .bind (probeFeatures_safe superblock.2) ?_
  rintro ⟨blockSize, featureIncompat⟩ ⟨hpasses, ⟨hge, hle⟩, rfl⟩
  have h64 := not_not.mp (not_and.mp h hpasses)
  refine .bind (probeGeometry_safe superblock.2 hge hle h64) fun fs hfs => ?_
  refine .bind (readInode_safe hfs) fun root _ => ?_
  refine .refuse_then fun _ => ?_
  exact .pure hfs

/-! ### The superblock on the device -/

theorem overwrite_all {n : ℕ} (target source : Buffer n) (h : 0 + source.1.length ≤ n) :
    target.overwrite 0 source.1 h = source := by
  apply Subtype.ext
  simp only [Buffer.overwrite, List.take_zero, List.nil_append, Nat.zero_add, source.2]
  rw [List.drop_eq_nil_of_le target.2.le, List.append_nil]

variable {s : Drive σ}

theorem superblock_in_range (hcnt : 3 ≤ d.sectorCount) :
    ¬ (d.sectorCount * sectorBytes < ext4SuperblockOffset ∨
      d.sectorCount * sectorBytes - ext4SuperblockOffset < ext4SuperblockBytes) := by
  simp only [sectorBytes, ext4SuperblockOffset, ext4SuperblockBytes]
  omega

/-- The superblock is the first half of the third sector. -/
theorem readSuperblock_of_answer {sector : Buffer sectorBytes} {t : σ}
    (hcnt : 3 ≤ d.sectorCount) (hbytes : d.sectorCount * sectorBytes ≤ u64Max)
    (hread : d.readSector 2 s.device = (.ok sector, t)) :
    readSuperblock d s = (.ok (sector.front (by decide)), ⟨t, 2 :: s.requests⟩) := by
  have hreq : d.request 2 s = (.ok sector, ⟨t, 2 :: s.requests⟩) := by
    rw [BlockDevice.request, hread]
  apply withLocal_of_ok (a := ())
  rw [readBytes, checkedMul_ok hbytes, pure_then, refuse_of_not (superblock_in_range hcnt),
    pure_then, readBytesLoop_of_ok (by decide) (by decide) (by decide) hreq]
  have hfront : ∀ h, (Buffer.zero ext4SuperblockBytes).overwrite 0
      (sector.front (n := ext4SuperblockBytes) (by decide)).1 h = sector.front (by decide) :=
    overwrite_all _ _
  exact (congrArg (fun output => readBytesLoop d ext4SuperblockOffset ext4SuperblockBytes
    ext4SuperblockBytes (⟨t, 2 :: s.requests⟩, output)) (hfront _)).trans (readBytesLoop_done _)

theorem readSuperblock_of_refusal {e : BlockError} {t : σ}
    (hcnt : 3 ≤ d.sectorCount) (hbytes : d.sectorCount * sectorBytes ≤ u64Max)
    (hread : d.readSector 2 s.device = (.error e, t)) :
    readSuperblock d s = (.error (.error (.io e)), ⟨t, 2 :: s.requests⟩) := by
  have hreq : d.request 2 s = (.error (.error e), ⟨t, 2 :: s.requests⟩) := by
    rw [BlockDevice.request, hread]
  apply withLocal_of_error
  rw [readBytes, checkedMul_ok hbytes, pure_then, refuse_of_not (superblock_in_range hcnt),
    pure_then, readBytesLoop_of_error (by decide) (by decide) hreq]

/-- A superblock is only read off a device with room for it. -/
theorem answer_of_readSuperblock {superblock : Buffer ext4SuperblockBytes}
    {t : Drive σ} (h : readSuperblock d s = (.ok superblock, t)) :
    3 ≤ d.sectorCount ∧ d.sectorCount * sectorBytes ≤ u64Max ∧
      ∃ sector, (d.readSector 2 s.device).1 = .ok sector ∧
        superblock = sector.front (by decide) := by
  by_cases hbytes : d.sectorCount * sectorBytes ≤ u64Max
  · by_cases hcnt : 3 ≤ d.sectorCount
    · cases hread : d.readSector 2 s.device with
      | mk answer =>
        cases answer with
        | ok sector =>
          rw [readSuperblock_of_answer hcnt hbytes hread] at h
          cases h
          exact ⟨hcnt, hbytes, sector, rfl, rfl⟩
        | error =>
          simp [readSuperblock_of_refusal hcnt hbytes hread] at h
    · have hshort : d.sectorCount * sectorBytes < ext4SuperblockOffset ∨
          d.sectorCount * sectorBytes - ext4SuperblockOffset < ext4SuperblockBytes := by
        simp only [sectorBytes, ext4SuperblockOffset, ext4SuperblockBytes]
        omega
      rw [readSuperblock, readBytes, checkedMul_ok hbytes, pure_then, refuse_of hshort] at h
      cases h
  · rw [readSuperblock, readBytes, checkedMul, if_neg hbytes] at h
    cases h

/-! ### Every disk -/

/-- A computation that ended in this outcome and this drive did not panic and asked only
for sectors of the device. -/
def Contained (d : BlockDevice σ) {α : Type} (outcome : Except (Fault ε) α) (drive : Drive σ) :
    Prop :=
  outcome ≠ .error .panic ∧ d.InRange drive

/-- A device in the given state cannot make the readers panic or leave its bounds: not
the partition table, not `probe`, and not the operations on a filesystem that `probe`
accepts, at any later state of the device and of the scratch blocks. -/
structure Withstands (d : BlockDevice σ) (state : σ) (scratch : Ext4Scratch) : Prop where
  parse : Contained d (GptTable.parse d ⟨state, []⟩).1 (GptTable.parse d ⟨state, []⟩).2
  probe : Contained d (probe d (⟨state, []⟩, scratch)).1 (probe d (⟨state, []⟩, scratch)).2.1
  metadata : ∀ fs, (Ext4ReadOnly.probe d (⟨state, []⟩, scratch)).1 = .ok fs →
    ∀ (later : σ × Ext4Scratch) path, Contained d (metadata d fs path (⟨later.1, []⟩, later.2)).1
        (Ext4ReadOnly.metadata d fs path (⟨later.1, []⟩, later.2)).2.1
  readFile : ∀ fs, (Ext4ReadOnly.probe d (⟨state, []⟩, scratch)).1 = .ok fs →
    ∀ (later : σ × Ext4Scratch) path offset n (output : Buffer n), n ≤ u64Max →
      Contained d (readFile d fs path offset output (⟨later.1, []⟩, later.2)).1
        (Ext4ReadOnly.readFile d fs path offset output (⟨later.1, []⟩, later.2)).2.1

/-- The device has a readable superblock that passes the feature checks and announces
64-bit block numbers. -/
def Presents64bit (d : BlockDevice σ) (state : σ) : Prop :=
  3 ≤ d.sectorCount ∧ d.sectorCount * sectorBytes ≤ u64Max ∧
    ∃ sector, (d.readSector 2 state).1 = .ok sector ∧
      PassesFeatures (sector.1.take 256) ∧ Announces64bit (sector.1.take 256)

theorem inRange_nil (state : σ) : d.InRange ⟨state, []⟩ := by
  intro lba h
  cases h

theorem Contained.of_safe {α : Type} {m : Ext4 σ α} {Q : α → Prop} (h : Safe (Served d) m Q)
    (state : σ) (scratch : Ext4Scratch) :
    Contained d (m (⟨state, []⟩, scratch)).1 (m (⟨state, []⟩, scratch)).2.1 := by
  have hs : Served d (⟨state, []⟩, scratch) := inRange_nil state
  exact ⟨(h _ hs).2.1, (h _ hs).1⟩

theorem readSuperblock_safe : Safe d.InRange (readSuperblock d) fun _ => True :=
  Safe.withLocal (readBytes_safe (by decide)) (fun _ h => h) fun _ _ h => ⟨h, trivial⟩

/-- The features a superblock was admitted with are read back from it. -/
theorem probeFeatures_eq (hlen : superblock.length = 256) (h : PassesFeatures superblock) :
    (probeFeatures superblock : Guarded σ Ext4Error (ℕ × Flags)) =
      pure (1024 <<< word 4 superblock 0x18, BitVec.ofNat 32 (word 4 superblock 0x60)) := by
  obtain ⟨hmagic, hlog, hincompat, hro⟩ := h
  obtain ⟨hge, hle, hmod⟩ := blockSize_bounds hlog
  have hsize : ¬ (¬ (sectorBytes ≤ 1024 <<< word 4 superblock 0x18 ∧
      1024 <<< word 4 superblock 0x18 ≤ ext4MaximumBlockSize) ∨
      (1024 <<< word 4 superblock 0x18) % sectorBytes ≠ 0) := by
    simp only [sectorBytes, ext4MaximumBlockSize]
    omega
  rw [probeFeatures, readU16, readWord_eq (by omega), pure_then,
    refuse_of_not (not_not.mpr hmagic), pure_then, readU32, readWord_eq (by omega), pure_then,
    refuse_of_not (not_lt.mpr hlog), pure_then]
  dsimp only
  rw [refuse_of_not hsize, pure_then, readU32, readWord_eq (by omega), pure_then,
    refuse_of_not (not_not.mpr hincompat), pure_then, readU32, readWord_eq (by omega),
    pure_then, refuse_of_not (not_not.mpr hro), pure_then]

/-- A superblock that announces 64-bit block numbers makes `probe` panic. -/
theorem probe_panics {state : σ} {scratch : Ext4Scratch} (h : Presents64bit d state) :
    (probe d (⟨state, []⟩, scratch)).1 = .error .panic := by
  obtain ⟨hcnt, hbytes, sector, hread, hpasses, h64⟩ := h
  cases hans : d.readSector 2 state with
  | mk =>
    rw [hans] at hread
    cases hread
    have hlen : (sector.1.take 256).length = 256 := by
      rw [List.length_take, sector.2]
      decide
    have hsuper : readSuperblock d ⟨state, []⟩ = _ :=
      readSuperblock_of_answer hcnt hbytes hans
    rw [probe, bind_of_ok (onDrive_of_ok hsuper)]
    change (((probeFeatures (sector.1.take 256) : Ext4 σ _) >>= _) _).1 = _
    rw [probeFeatures_eq hlen hpasses, pure_then]
    have hgeometry : ∀ count size, (probeGeometry count (sector.1.take 256) size
        (BitVec.ofNat 32 (word 4 (sector.1.take 256) 0x60)) : Ext4 σ Ext4ReadOnly) = panic := by
      intro count size
      have hset : BitVec.ofNat 32 (word 4 (sector.1.take 256) 0x60) &&& ext4Incompat64bit ≠ 0 :=
        h64
      have hhigh : ¬ 0x150 + 4 ≤ (sector.1.take 256).length := by omega
      rw [probeGeometry, readU32, readWord_eq (by omega), pure_then, if_pos hset, readU32,
        readWord, if_neg hhigh, panic_then]
    exact congrArg (fun m : Ext4 σ Ext4ReadOnly => (m _).1)
      ((congrArg (· >>= _) (hgeometry _ _)).trans (panic_then _))

theorem probe_safe {state : σ} (scratch : Ext4Scratch) (h : ¬ Presents64bit d state) :
    Contained d (probe d (⟨state, []⟩, scratch)).1 (probe d (⟨state, []⟩, scratch)).2.1 ∧
      ∀ fs, (probe d (⟨state, []⟩, scratch)).1 = .ok fs → fs.Admitted := by
  have hsafe : Safe (Served d) (onDrive (readSuperblock d)) fun _ => True :=
    onDrive_safe readSuperblock_safe
  have hs : Served d (⟨state, []⟩, scratch) := inRange_nil state
  obtain ⟨hrng, hpanic, hadm⟩ := hsafe.bind_at hs fun superblock t hrun _ => by
    obtain ⟨u, hrun⟩ := ok_of_zoom hrun
    obtain ⟨hcnt, hbytes, sector, hread, rfl⟩ := answer_of_readSuperblock hrun
    exact probeSuperblock_safe fun hset => h ⟨hcnt, hbytes, sector, hread, hset⟩
  exact ⟨⟨hpanic, hrng⟩, hadm⟩

/-- The storage readers withstand every device, except one that presents a superblock
with 64-bit block numbers. -/
theorem storage_withstands (d : BlockDevice σ) (state : σ) (scratch : Ext4Scratch) :
    Withstands d state scratch ↔ ¬ Presents64bit d state := by
  constructor
  · intro h h64
    exact h.probe.1 (probe_panics h64)
  · intro h
    have hprobe := probe_safe scratch h
    have hparse := GptTable.parse_safe (d := d) ⟨state, []⟩ (inRange_nil state)
    refine ⟨⟨hparse.2.1, hparse.1⟩, hprobe.1, ?_, ?_⟩
    · intro fs hfs later path
      exact Contained.of_safe (metadata_safe (hprobe.2 fs hfs)) later.1 later.2
    · intro fs hfs later path offset n output hn
      exact Contained.of_safe (readFile_safe (hprobe.2 fs hfs) hn) later.1 later.2

/-- A sector that starts with a superblock of the given feature set, with a valid magic
number and blocks of 1024 bytes. -/
def superblockSector (featureIncompat : UInt8) : Buffer sectorBytes :=
  ⟨List.replicate 0x38 0 ++ [0x53, 0xef] ++ List.replicate 0x26 0 ++ [featureIncompat] ++
    List.replicate 415 0, by
      simp only [List.length_append, List.length_replicate, List.length_cons, List.length_nil]
      rfl⟩

/-- A disk of eight sectors with that superblock in each. -/
def superblockDisk (featureIncompat : UInt8) : BlockDevice Unit where
  sectorCount := 8
  sectorCount_le := by decide
  readSector _ s := (.ok (superblockSector featureIncompat), s)

/-- With extents and 64-bit block numbers, `probe` panics. -/
theorem probe_64bit_panics :
    (probe (superblockDisk 0xc0) (⟨(), []⟩, fun _ => Buffer.zero _)).1 = .error .panic := by
  apply probe_panics
  refine ⟨by decide, by decide, superblockSector 0xc0, rfl, ?_, ?_⟩
  · refine ⟨by decide +kernel, by decide +kernel, by decide +kernel, by decide +kernel⟩
  · unfold Announces64bit
    decide +kernel

end ArachKernel.Storage.Ext4ReadOnly
