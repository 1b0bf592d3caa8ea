import ArachKernel.Storage.Ext4Safety
import ArachKernel.Storage.ExtentFormat

/-!
`map_block` against the extent format. On a populated tree of depth at most one,
without an extent of the full length 32768, the reader returns exactly what the
format says. In every other well-formed tree there is a block on which it reports
corrupt metadata: a deeper tree fails the comparison of a node's depth with its
level, an empty node the check on the number of entries, and an initialized extent
of 32768 blocks the check on the length, because the length field is masked with
`0x7fff` first.
-/

namespace ArachKernel.Storage.Ext4ReadOnly

open Guarded List Function

variable {σ ε : Type} {d : BlockDevice σ} {fs : Ext4ReadOnly}
  {image : ℕ → Buffer sectorBytes}

/-! ### Nodes in scratch blocks -/

variable {offset width : ℕ}

theorem word_of_prefix {node bytes : List UInt8} (h : node <+: bytes)
    (hle : offset + width ≤ node.length) : word width bytes offset = word width node offset := by
  obtain ⟨rest, rfl⟩ := h
  rw [word, word, drop_append_of_le_length (by omega),
    take_append_of_le_length (by rw [length_drop]; omega)]

/-- The scratch block holds the node, with anything behind it. -/
def Loaded (s : Drive σ × Ext4Scratch) (slot : Fin ext4ScratchBlocks) (node : List UInt8) : Prop :=
  node <+: (s.2 slot).1

variable {node : List UInt8} {slot : Fin ext4ScratchBlocks} {s : Drive σ × Ext4Scratch}

theorem Loaded.length_le (h : Loaded s slot node) : node.length ≤ 4096 :=
  (List.IsPrefix.length_le h).trans (s.2 slot).2.le

theorem Loaded.readWord (h : Loaded s slot node) (hle : offset + width ≤ node.length) :
    (readWord width (s.2 slot).1 offset : Ext4 σ ℕ) = pure (word width node offset) := by
  have hlen := List.IsPrefix.length_le h
  rw [readWord_eq (by omega), word_of_prefix h hle]

theorem loaded_putFront {drive : Drive σ} {scratch : Ext4Scratch} {n : ℕ}
    (buffer : Buffer ext4MaximumBlockSize) (front : Buffer n) (h : n ≤ ext4MaximumBlockSize) :
    Loaded (drive, update scratch slot (buffer.putFront front h)) slot front.1 := by
  rw [Loaded]
  dsimp only
  rw [update_self]
  refine ⟨buffer.1.drop (0 + front.1.length), ?_⟩
  simp [Buffer.putFront, Buffer.overwrite]

theorem scratchSlot_eq {index : ℕ} (h : index < ext4ScratchBlocks) :
    (scratchSlot index : Ext4 σ _) = pure ⟨index, h⟩ :=
  dif_pos h

/-! ### The leaves -/

/-- The error a leaf is rejected with. -/
def corrupt {α : Type} : Except (Fault Ext4Error) α := .error (.error .corruptMetadata)

/-- What the body of the loop over the extents of a leaf computes. -/
def scanExtent (blocksCount logical : ℕ) (e : Extent) :
    Except (Fault Ext4Error) (Option (Option ℕ)) :=
  if e.rawLength % 32768 = 0 then corrupt
  else if e.first ≤ logical ∧ logical < e.first + e.rawLength % 32768 then
    if 32768 ≤ e.rawLength then .ok (some none)
    else if blocksCount ≤ e.physical + (logical - e.first) then corrupt
    else .ok (some (some (e.physical + (logical - e.first))))
  else .ok none

/-- What the loop over the extents of a leaf computes. -/
def scanExtents (blocksCount logical : ℕ) : List Extent → Except (Fault Ext4Error) (Option ℕ)
  | [] => .ok none
  | e :: rest =>
    match scanExtent blocksCount logical e with
    | .ok (some found) => .ok found
    | .ok none => scanExtents blocksCount logical rest
    | .error e => .error e

theorem extentAt_bounds (node : List UInt8) (i : ℕ) :
    (extentAt node i).first < 2 ^ 32 ∧ (extentAt node i).rawLength < 2 ^ 16 :=
  ⟨word_lt 4 node (12 + i * 12), word_lt 2 node (12 + i * 12 + 4)⟩

theorem unwritten_bit {raw : ℕ} (h : raw < 2 ^ 16) :
    raw &&& ext4ExtentUnwritten ≠ 0 ↔ 32768 ≤ raw := by
  have hbit : raw &&& ext4ExtentUnwritten = (raw.testBit 15).toNat * 2 ^ 15 :=
    Nat.and_two_pow raw 15
  rw [hbit, Nat.testBit_eq_decide_div_mod_eq]
  by_cases hge : 32768 ≤ raw
  · have hdiv : raw / 2 ^ 15 % 2 = 1 := by omega
    simp only [hdiv, hge, decide_true, Bool.toNat_true, ne_eq, iff_true]
    decide
  · have hdiv : raw / 2 ^ 15 % 2 = 0 := by omega
    simp only [hdiv, hge, Nat.zero_ne_one, decide_false, Bool.toNat_false, Nat.zero_mul, ne_eq,
      not_true_eq_false]

variable {high low slotIndex : ℕ}

theorem shift_or (h : low < 2 ^ 32) : (high <<< 32) ||| low = high * 2 ^ 32 + low := by
  rw [← Nat.shiftLeft_add_eq_or_of_lt h, Nat.shiftLeft_eq]

theorem mapExtent_eq {logical first rawLength physicalHigh physicalLow : ℕ}
    (hfst : first < 2 ^ 32) (hraw : rawLength < 2 ^ 16) (hhigh : physicalHigh < 2 ^ 16)
    (hlow : physicalLow < 2 ^ 32) (s : σ) :
    mapExtent fs logical first rawLength physicalHigh physicalLow s =
      (scanExtent fs.blocksCount logical
        ⟨first, rawLength, physicalHigh * 2 ^ 32 + physicalLow⟩, s) := by
  have hmask : rawLength &&& 0x7fff = rawLength % 32768 := Nat.and_two_pow_sub_one_eq_mod _ 15
  have hword : (2 ^ 50 : ℕ) ≤ u64Max := by decide
  rw [mapExtent, scanExtent, hmask, shift_or hlow]
  by_cases hzero : rawLength % 32768 = 0
  · rw [refuse_of hzero, if_pos hzero]
    rfl
  rw [refuse_of_not hzero, pure_then, checkedAdd_ok (by omega), pure_then, if_neg hzero]
  by_cases hcover : first ≤ logical ∧ logical < first + rawLength % 32768
  · rw [if_pos hcover, if_pos hcover]
    by_cases hunwr : 32768 ≤ rawLength
    · rw [if_pos ((unwritten_bit hraw).mpr hunwr), if_pos hunwr]
      rfl
    · rw [if_neg (mt (unwritten_bit hraw).mp hunwr), if_neg hunwr,
        minus_eq hcover.1, pure_then, checkedAdd_ok (by omega), pure_then]
      by_cases houts : fs.blocksCount ≤ physicalHigh * 2 ^ 32 + physicalLow + (logical - first)
      · rw [refuse_of houts, if_pos houts]
        rfl
      · rw [refuse_of_not houts, if_neg houts]
        rfl
  · rw [if_neg hcover, if_neg hcover]
    rfl

theorem mapExtents_eq {logical : ℕ}
    (hslot : slotIndex < ext4ScratchBlocks) (hloaded : Loaded s ⟨slotIndex, hslot⟩ node)
    (remaining index : ℕ) (hfits : 12 + (index + remaining) * 12 ≤ node.length) :
    mapExtents fs logical slotIndex remaining index s = (scanExtents fs.blocksCount logical
        ((range' index remaining).map (extentAt node)), s) := by
  induction remaining generalizing index with
  | zero => rfl
  | succ remaining ih =>
    have hlen := hloaded.length_le
    have hword : (4096 : ℕ) ≤ u64Max := by decide
    rw [mapExtents]
    simp only [ext4ExtentEntryBytes, readU16, readU32]
    rw [times_eq (by omega), pure_then, plus_eq (by omega), pure_then, scratchSlot_eq hslot,
      pure_then, scratchBytes, read_then, hloaded.readWord (by omega), pure_then,
      hloaded.readWord (by omega), pure_then, hloaded.readWord (by omega), pure_then,
      hloaded.readWord (by omega), pure_then, range'_succ, map_cons, scanExtents]
    have hextent : mapExtent fs logical (word 4 node (12 + index * 12))
        (word 2 node (12 + index * 12 + 4)) (word 2 node (12 + index * 12 + 6))
        (word 4 node (12 + index * 12 + 8)) s =
          (scanExtent fs.blocksCount logical (extentAt node index), s) :=
      mapExtent_eq (word_lt 4 _ _) (word_lt 2 _ _) (word_lt 2 _ _) (word_lt 4 _ _) s
    split
    next hscan =>
      rw [hscan] at hextent
      rw [bind_of_ok hextent]
      rfl
    next hscan =>
      rw [hscan] at hextent
      rw [bind_of_ok hextent]
      exact ih (index + 1) (by omega)
    next hscan =>
      rw [hscan] at hextent
      rw [bind_of_error hextent]

/-- An extent the reader understands: it lies in the filesystem and its masked length
field is its length. -/
structure Readable (blocksCount : ℕ) (e : Extent) : Prop where
  raw_lt : e.rawLength < 2 ^ 16
  length_pos : 0 < e.length
  inside : e.physical + e.length ≤ blocksCount
  raw_ne : e.rawLength ≠ 32768

variable {e : Extent}

theorem Readable.masked {blocksCount : ℕ} (h : Readable blocksCount e) :
    e.rawLength % 32768 = e.length ∧ (32768 ≤ e.rawLength ↔ ¬ e.Initialized) := by
  obtain ⟨hlt, hpos, -, hne⟩ := h
  simp only [Extent.length, Extent.Initialized] at hpos ⊢
  split at hpos
  next hle =>
    rw [if_pos hle]
    omega
  next hgt =>
    rw [if_neg hgt]
    omega

variable {blocksCount logical : ℕ}

theorem scanExtent_readable (h : Readable blocksCount e) : scanExtent blocksCount logical e =
      .ok (if e.Covers logical then some (e.target logical) else none) := by
  obtain ⟨hmasked, hunwr⟩ := h.masked
  have hpos := h.length_pos
  have hinside := h.inside
  rw [scanExtent, hmasked, if_neg (by omega)]
  by_cases hcover : e.Covers logical
  · have hcover' : e.first ≤ logical ∧ logical < e.first + e.length := hcover
    rw [if_pos hcover', if_pos hcover, Extent.target]
    by_cases hinit : e.Initialized
    · rw [if_neg (fun hge => hunwr.mp hge hinit), if_neg (by omega), if_pos hinit]
    · rw [if_pos (hunwr.mpr hinit), if_neg hinit]
  · have hcover' : ¬ (e.first ≤ logical ∧ logical < e.first + e.length) := hcover
    rw [if_neg hcover', if_neg hcover]

/-- On readable extents the loop computes what the format says. -/
theorem scanExtents_readable (extents : List Extent) (h : ∀ e ∈ extents, Readable blocksCount e) :
    scanExtents blocksCount logical extents = .ok (physicalOf extents logical) := by
  induction extents with
  | nil => rfl
  | cons e rest ih =>
    rw [scanExtents, scanExtent_readable (h e mem_cons_self), physicalOf]
    by_cases hcover : e.Covers logical
    · rw [if_pos hcover, find?_cons_of_pos (by simpa using hcover), Option.bind_some]
    · rw [if_neg hcover, find?_cons_of_neg (by simpa using hcover)]
      exact ih fun e he => h e (mem_cons_of_mem _ he)

/-- An extent of 32768 blocks makes the loop fail on every block it covers, because no
extent before it covers the block. -/
theorem scanExtents_full {post : List Extent} (hfull : e.rawLength = 32768) (pre : List Extent)
    (hpre : ∀ before ∈ pre, before.rawLength < 2 ^ 16 ∧ before.first + before.length ≤ logical) :
    scanExtents blocksCount logical (pre ++ e :: post) = corrupt := by
  induction pre with
  | nil =>
    rw [nil_append, scanExtents, scanExtent, hfull]
    rfl
  | cons before pre ih =>
    obtain ⟨hlt, hle⟩ := hpre before mem_cons_self
    rw [cons_append, scanExtents, scanExtent]
    by_cases hzero : before.rawLength % 32768 = 0
    · rw [if_pos hzero]
      rfl
    · have hlen : before.length = before.rawLength % 32768 := by
        rw [Extent.length]
        split <;> omega
      rw [if_neg hzero, if_neg (by omega)]
      exact ih fun e he => hpre e (mem_cons_of_mem _ he)

theorem leaf_readable (h : WellFormed image fs 0 low high node)
    (hfull : ∀ e ∈ leafExtents node, e.rawLength ≠ 32768)
    (he : e ∈ leafExtents node) : Readable fs.blocksCount e := by
  obtain ⟨i, hi, rfl⟩ := mem_leafExtents.mp he
  obtain ⟨-, hpos, -, hinside⟩ := h.2 i hi
  exact ⟨(extentAt_bounds node i).2, hpos, hinside, hfull _ he⟩

variable {j : ℕ}

/-- The leaves' loop fails at the first block of an extent of 32768 blocks. -/
theorem scan_leaf_full (h : WellFormed image fs 0 low high node) (hj : j < nodeEntries node)
    (hfull : (extentAt node j).rawLength = 32768) :
    scanExtents fs.blocksCount (extentAt node j).first (leafExtents node) = corrupt := by
  have hsplit : leafExtents node = (range' 0 j).map (extentAt node) ++ extentAt node j ::
      (range' (j + 1) (nodeEntries node - (j + 1))).map (extentAt node) := by
    rw [leafExtents, range_eq_range', ← map_cons, ← map_append, ← range'_succ]
    have hrng := @range'_append_1 0 j (nodeEntries node - (j + 1) + 1)
    rw [Nat.zero_add] at hrng
    rw [hrng]
    congr 2
    omega
  rw [hsplit]
  apply scanExtents_full hfull
  intro before hbef
  obtain ⟨i, hi, rfl⟩ := mem_map.mp hbef
  obtain ⟨k, hk, rfl⟩ := mem_range'.mp hi
  rw [Nat.zero_add, Nat.one_mul]
  refine ⟨(extentAt_bounds node k).2, ?_⟩
  obtain ⟨-, -, hlim, -⟩ := h.2 k (by omega)
  exact hlim.trans (entryLimit_le_first (fun i hi => (h.sorted i hi).2.le) hk hj)

/-! ### Nodes -/

/-- The filesystem lies on the device. -/
structure Fits (d : BlockDevice σ) (fs : Ext4ReadOnly) : Prop where
  blockSize_le : fs.blockSize ≤ ext4MaximumBlockSize
  bytes_le : fs.blocksCount * fs.blockSize ≤ d.sectorCount * sectorBytes
  device_le : d.sectorCount * sectorBytes ≤ u64Max

theorem readBlock_image (hd : d.Holds image) (hfits : Fits d fs) {block : ℕ}
    (hblock : block < fs.blocksCount) (slot : Fin ext4ScratchBlocks) (s : Drive σ × Ext4Scratch) :
    ∃ t, readBlock d fs block slot s = (.ok (), t) ∧ Loaded t slot (blockBytes image fs block) := by
  have hrng : block * fs.blockSize + fs.blockSize ≤ d.sectorCount * sectorBytes :=
    calc block * fs.blockSize + fs.blockSize
        = (block + 1) * fs.blockSize := by rw [Nat.add_mul, Nat.one_mul]
      _ ≤ fs.blocksCount * fs.blockSize := Nat.mul_le_mul_right _ hblock
      _ ≤ d.sectorCount * sectorBytes := hfits.bytes_le
  have hdevice := hfits.device_le
  rw [readBlock, refuse_of_not (not_le.mpr hblock), pure_then, checkedMul_ok (by omega), pure_then,
    fillZero, dif_pos hfits.blockSize_le, dif_pos hfits.blockSize_le]
  obtain ⟨t, hread⟩ := readBytes_image hd hdevice hrng s.1 _
  exact ⟨_, zoom_of_ok hread, loaded_putFront _ _ _⟩

/-- The entry the reader descends into: the last one that does not start above the
block. -/
theorem selectChild_eq {bytes : List UInt8} (hstart : node <+: bytes)
    (hlen : node.length ≤ 4096) (hfits : 12 + nodeEntries node * 12 ≤ node.length)
    (hj : j < nodeEntries node) (hle : ∀ k ≤ j, indexFirst node k ≤ logical)
    (hgt : j + 1 < nodeEntries node → logical < indexFirst node (j + 1)) (remaining index : ℕ)
    (selected : Option ℕ) (hcnt : index + remaining = nodeEntries node)
    (hidx : index ≤ j ∨ index = j + 1 ∧ selected = some (12 + j * 12)) :
    (selectChild bytes logical remaining index selected : Guarded σ ε (Option ℕ)) =
      pure (some (12 + j * 12)) := by
  have hbytes := hstart.length_le
  have hword : (4096 : ℕ) ≤ u64Max := by decide
  induction remaining generalizing index selected with
  | zero =>
    obtain hlt | ⟨-, rfl⟩ := hidx
    · omega
    · rfl
  | succ remaining ih =>
    rw [selectChild]
    simp only [ext4ExtentEntryBytes, readU32]
    rw [times_eq (by omega), pure_then, plus_eq (by omega), pure_then,
      readWord_eq (by omega), word_of_prefix hstart (by omega)]
    change (if indexFirst node index ≤ logical then _ else _) = _
    obtain hlt | ⟨rfl, rfl⟩ := hidx
    · rw [if_pos (hle index hlt)]
      apply ih (index + 1) _ (by omega)
      obtain rfl | hlt := Nat.eq_or_lt_of_le hlt
      · exact .inr ⟨rfl, rfl⟩
      · exact .inl hlt
    · rw [if_neg (not_le.mpr (hgt (by omega)))]

theorem selectChild_before {bytes : List UInt8} (hstart : node <+: bytes)
    (hfits : 12 + nodeEntries node * 12 ≤ node.length) (hne : nodeEntries node ≠ 0)
    (hlt : logical < indexFirst node 0) :
    (selectChild bytes logical (nodeEntries node) 0 none : Guarded σ ε (Option ℕ)) = pure none := by
  have hbytes := hstart.length_le
  obtain ⟨remaining, hremaining⟩ := Nat.exists_eq_succ_of_ne_zero hne
  rw [hremaining, selectChild]
  simp only [ext4ExtentEntryBytes, readU32]
  rw [times_eq (by omega), pure_then, plus_eq (by decide), pure_then, readWord_eq (by omega),
    word_of_prefix hstart (by omega)]
  change (if indexFirst node 0 ≤ logical then _ else _) = _
  rw [if_neg (not_le.mpr hlt)]

section Node

variable {depth logical fuel level slotIndex : ℕ} {node : List UInt8} {s : Drive σ × Ext4Scratch}
  (hslot : slotIndex < ext4ScratchBlocks) (hloaded : Loaded s ⟨slotIndex, hslot⟩ node)
include hloaded

section Level

variable (hlevel : level ≤ 5)
include hlevel

theorem extentHeader_read (hnode : NodeHeader depth node) : extentHeader level slotIndex s =
      if nodeEntries node = 0 then (corrupt, s)
      else (.ok (s.2 ⟨slotIndex, hslot⟩, nodeEntries node, depth), s) := by
  have hlen := hloaded.length_le
  obtain ⟨hmagic, hents, hroom, hdepth⟩ := hnode
  have hhead : ¬ (word 2 node 0 ≠ ext4ExtentHeaderMagic ∨ ext4MaximumExtentDepth < level) := by
    simp only [hmagic, ext4MaximumExtentDepth]
    omega
  simp only [extentHeader, readU16]
  rw [scratchSlot_eq hslot, pure_then, scratchBytes, read_then, hloaded.readWord (by omega),
    pure_then, refuse_of_not hhead, hloaded.readWord (by omega), pure_then,
    hloaded.readWord (by omega), pure_then, hloaded.readWord (by omega), pure_then, hdepth]
  by_cases hzero : nodeEntries node = 0
  · have hemp : word 2 node 2 = 0 := hzero
    rw [refuse_of (.inl hemp), if_pos hzero]
    rfl
  · have hcnt : ¬ (word 2 node 2 = 0 ∨ word 2 node 4 < word 2 node 2 ∨
        (ext4MaximumBlockSize - 12) / 12 < word 2 node 2) := by
      change ¬ word 2 node 2 = 0 at hzero
      simp only [ext4MaximumBlockSize]
      omega
    rw [refuse_of_not hcnt, if_neg hzero]
    rfl

theorem mapExtentNode_empty (hnode : NodeHeader depth node) (hemp : nodeEntries node = 0) :
    mapExtentNode d fs logical (fuel + 1) level slotIndex s = (corrupt, s) := by
  have hhdr := extentHeader_read hslot hloaded hlevel hnode
  rw [if_pos hemp] at hhdr
  rw [mapExtentNode, bind_of_error hhdr]
  rfl

theorem mapExtentNode_leaf (hnode : NodeHeader 0 node) (hne : nodeEntries node ≠ 0) :
    mapExtentNode d fs logical (fuel + 1) level slotIndex s =
      (scanExtents fs.blocksCount logical (leafExtents node), s) := by
  have hhdr := extentHeader_read hslot hloaded hlevel hnode
  rw [if_neg hne] at hhdr
  have hfits : 12 + (0 + nodeEntries node) * 12 ≤ node.length := by
    rw [Nat.zero_add]
    exact hnode.entries_fit
  rw [mapExtentNode, bind_of_ok hhdr]
  dsimp only
  rw [if_pos rfl, mapExtents_eq hslot hloaded _ _ hfits, leafExtents, range_eq_range']

/-- A node whose depth is not one more than its level is rejected. -/
theorem mapExtentNode_deep (hnode : NodeHeader depth node) (hne : nodeEntries node ≠ 0)
    (hzero : depth ≠ 0) (hdeep : depth ≠ level + 1) :
    mapExtentNode d fs logical (fuel + 1) level slotIndex s = (corrupt, s) := by
  have hhdr := extentHeader_read hslot hloaded hlevel hnode
  rw [if_neg hne] at hhdr
  rw [mapExtentNode, bind_of_ok hhdr]
  dsimp only
  rw [if_neg hzero, plus_eq (by simp only [u64Max]; omega), pure_then, refuse_of hdeep]
  rfl

theorem mapExtentNode_before (hnode : NodeHeader (level + 1) node) (hne : nodeEntries node ≠ 0)
    (hlt : logical < indexFirst node 0) :
    mapExtentNode d fs logical (fuel + 1) level slotIndex s = (.ok none, s) := by
  have hhdr := extentHeader_read hslot hloaded hlevel hnode
  rw [if_neg hne] at hhdr
  rw [mapExtentNode, bind_of_ok hhdr]
  dsimp only
  rw [plus_eq (by simp only [u64Max]; omega), pure_then,
    refuse_of_not (not_not.mpr rfl), selectChild_before hloaded hnode.entries_fit hne hlt]
  rfl

end Level

/-! ### Trees -/

variable (hd : d.Holds image) (hfs : Fits d fs) (hnext : slotIndex + 1 < ext4ScratchBlocks)
include hd hfs hnext

/-- The reader descends into the selected child. -/
theorem mapExtentNode_descend (hnode : NodeHeader (level + 1) node) (hlevel : level ≤ 5)
    (hj : j < nodeEntries node) (hch : indexChild node j < fs.blocksCount)
    (hle : ∀ k ≤ j, indexFirst node k ≤ logical)
    (hgt : j + 1 < nodeEntries node → logical < indexFirst node (j + 1)) (fuel : ℕ) :
    ∃ t, Loaded t ⟨slotIndex + 1, hnext⟩ (blockBytes image fs (indexChild node j)) ∧
      mapExtentNode d fs logical (fuel + 1) level slotIndex s =
        mapExtentNode d fs logical fuel (level + 1) (slotIndex + 1) t := by
  have hhdr := extentHeader_read hslot hloaded hlevel hnode
  rw [if_neg (by omega)] at hhdr
  have hfits := hnode.entries_fit
  have hlen := hloaded.length_le
  have hor : (word 2 node (12 + j * 12 + 8) <<< 32) ||| word 4 node (12 + j * 12 + 4) =
      indexChild node j :=
    shift_or (word_lt 4 node _)
  obtain ⟨t, hblock, hafter⟩ := readBlock_image hd hfs hch ⟨slotIndex + 1, hnext⟩ s
  refine ⟨t, hafter, ?_⟩
  rw [mapExtentNode, bind_of_ok hhdr]
  simp only [readU16, readU32]
  have hsmall : slotIndex + 1 ≤ u64Max := by
    simp only [ext4ScratchBlocks, ext4MaximumExtentDepth, u64Max] at hnext ⊢
    omega
  rw [if_neg (Nat.succ_ne_zero level), plus_eq (by simp only [u64Max]; omega), pure_then,
    refuse_of_not (not_not.mpr rfl), pure_then,
    selectChild_eq hloaded hlen hfits hj hle hgt _ _ _ (Nat.zero_add _) (.inl (Nat.zero_le j)),
    pure_then]
  dsimp only
  rw [checkedAdd_ok hsmall, pure_then, hloaded.readWord (by omega), pure_then,
    hloaded.readWord (by omega), pure_then, hor, scratchSlot_eq hnext, pure_then, bind_of_ok hblock]

/-- On a tree the reader understands it returns what the format says. -/
theorem mapExtentNode_exact (hdepth : depth ≤ 1)
    (hwf : WellFormed image fs depth low high node) (hpop : Populated image fs depth node)
    (hfull : ∀ e ∈ treeExtents image fs depth node, e.rawLength ≠ 32768) (logical fuel : ℕ) :
    (mapExtentNode d fs logical (fuel + 2) 0 slotIndex s).1 =
      .ok (physicalOf (treeExtents image fs depth node) logical) := by
  obtain rfl | rfl : depth = 0 ∨ depth = 1 := by omega
  · rw [mapExtentNode_leaf hslot hloaded (by omega) hwf.header hpop]
    exact scanExtents_readable _ fun e he => leaf_readable hwf hfull he
  · obtain ⟨hne, hchildren⟩ := hpop
    by_cases hbef : logical < indexFirst node 0
    · rw [mapExtentNode_before hslot hloaded (by omega) hwf.header hne hbef,
        physicalOf_before hwf hbef]
    obtain ⟨j, hj, hle, hgt⟩ := exists_entry hne (not_lt.mp hbef)
    obtain ⟨-, -, hch, hleaf⟩ := hwf.2 j hj
    obtain ⟨u, hafter, hrun⟩ := mapExtentNode_descend hslot hloaded hd hfs hnext hwf.header
      (by omega) hj hch hle hgt (fuel + 1)
    rw [hrun, mapExtentNode_leaf hnext hafter (by omega) hleaf.header (hchildren j hj),
      physicalOf_entry hwf hj (hle j le_rfl) hgt]
    apply scanExtents_readable
    intro e he
    refine leaf_readable hleaf (fun e he => hfull e ?_) he
    rw [treeExtents, mem_flatMap]
    exact ⟨j, mem_range.mpr hj, he⟩

/-- A block under an entry of the root is looked up in the entry's node. -/
theorem mapExtentNode_under (hwf : WellFormed image fs 1 low high node) (hj : j < nodeEntries node)
    (hle : indexFirst node j ≤ logical) (hlt : logical < entryLimit node high j) (fuel : ℕ) :
    ∃ u, Loaded u ⟨slotIndex + 1, hnext⟩ (blockBytes image fs (indexChild node j)) ∧
      mapExtentNode d fs logical (fuel + 2) 0 slotIndex s =
        mapExtentNode d fs logical (fuel + 1) 1 (slotIndex + 1) u := by
  have hsort : ∀ i < nodeEntries node, indexFirst node i ≤ entryLimit node high i :=
    fun i hi => (hwf.sorted i hi).2.le
  refine mapExtentNode_descend hslot hloaded hd hfs hnext hwf.header (by omega) hj
    (hwf.2 j hj).2.2.1 ?_ ?_ (fuel + 1)
  · intro k hk
    obtain rfl | hkj := Nat.eq_or_lt_of_le hk
    · exact hle
    · exact ((hsort k (by omega)).trans (entryLimit_le_first hsort hkj hj)).trans hle
  · intro hmore
    rw [entryLimit_succ hmore] at hlt
    exact hlt

/-- A tree on which the reader never fails is one it understands. -/
theorem understood_of_ok (hwf : WellFormed image fs depth 0 (2 ^ 32) node) (fuel : ℕ)
    (hok : ∀ logical ≤ u64Max, (mapExtentNode d fs logical (fuel + 2) 0 slotIndex s).1 ≠ corrupt) :
    depth ≤ 1 ∧ Populated image fs depth node ∧
      ∀ e ∈ treeExtents image fs depth node, e.rawLength ≠ 32768 := by
  have hword : (2 ^ 32 : ℕ) ≤ u64Max := by decide
  have hne : nodeEntries node ≠ 0 := by
    intro hemp
    apply hok 0 (Nat.zero_le _)
    rw [mapExtentNode_empty hslot hloaded (by omega) hwf.header hemp]
  have hdepth : depth ≤ 1 := by
    by_contra hdeep
    apply hok 0 (Nat.zero_le _)
    rw [mapExtentNode_deep hslot hloaded (by omega) hwf.header hne (by omega) (by omega)]
  refine ⟨hdepth, ?_⟩
  obtain rfl | rfl : depth = 0 ∨ depth = 1 := by omega
  · refine ⟨hne, ?_⟩
    intro e he hfull
    obtain ⟨j, hj, rfl⟩ := mem_leafExtents.mp he
    have hsmall := (extentAt_bounds node j).1
    apply hok (extentAt node j).first (by omega)
    rw [mapExtentNode_leaf hslot hloaded (by omega) hwf.header hne, scan_leaf_full hwf hj hfull]
  · have hsort : ∀ i < nodeEntries node, indexFirst node i ≤ entryLimit node (2 ^ 32) i :=
      fun i hi => (hwf.sorted i hi).2.le
    have hchildren : ∀ j < nodeEntries node,
        nodeEntries (blockBytes image fs (indexChild node j)) ≠ 0 := by
      intro j hj hemp
      have hfst := hwf.sorted j hj
      have hlim := entryLimit_le_high hsort hj
      obtain ⟨u, hafter, hrun⟩ :=
        mapExtentNode_under hslot hloaded hd hfs hnext hwf hj le_rfl hfst.2 fuel
      apply hok (indexFirst node j) (by omega)
      rw [hrun, mapExtentNode_empty hnext hafter (by omega) (hwf.2 j hj).2.2.2.header hemp]
    refine ⟨⟨hne, hchildren⟩, ?_⟩
    intro e he hfull
    rw [treeExtents, mem_flatMap] at he
    obtain ⟨j, hj, he⟩ := he
    have hj : j < nodeEntries node := mem_range.mp hj
    have hleaf := (hwf.2 j hj).2.2.2
    obtain ⟨hlow, hhigh⟩ := hleaf.extent_bounds he
    obtain ⟨k, hk, rfl⟩ := mem_leafExtents.mp he
    have hpos := (hleaf.2 k hk).2.1
    have hsmall := (extentAt_bounds (blockBytes image fs (indexChild node j)) k).1
    obtain ⟨u, hafter, hrun⟩ :=
      mapExtentNode_under hslot hloaded hd hfs hnext hwf hj hlow (by omega) fuel
    apply hok (extentAt (blockBytes image fs (indexChild node j)) k).first (by omega)
    rw [hrun, mapExtentNode_leaf hnext hafter (by omega) hleaf.header (hchildren j hj),
      scan_leaf_full hleaf hk hfull]

end Node

/-! ### Inodes -/

/-- For an inode with extents, `map_block` looks up the tree rooted in its block map. -/
theorem mapBlock_eq (d : BlockDevice σ) (fs : Ext4ReadOnly) {inode : Ext4Inode}
    (hflag : inode.flags &&& ext4ExtentsFlag ≠ 0) (hslot : slotIndex < ext4ScratchBlocks)
    (s : Drive σ × Ext4Scratch) :
    ∃ t, Loaded t ⟨slotIndex, hslot⟩ inode.blockMap.1 ∧ ∀ logical,
      mapBlock d fs inode logical slotIndex s = mapExtentNode d fs logical 7 0 slotIndex t := by
  refine ⟨(s.1, update s.2 ⟨slotIndex, hslot⟩
    ((s.2 ⟨slotIndex, hslot⟩).putFront inode.blockMap (by decide))),
    loaded_putFront _ _ _, ?_⟩
  intro logical
  rw [mapBlock, if_neg hflag, scratchSlot_eq hslot, pure_then, scratchBytes, read_then,
    copyFromSlice_eq (by decide) (by decide) inode.blockMap.2]
  rfl

/-- On a well-formed extent tree `map_block` is exact at every block if and only if the
tree has at most one index level, no empty node, and no initialized extent of the full
32768 blocks. -/
theorem mapBlock_exact {inode : Ext4Inode} {depth slotIndex : ℕ} (hd : d.Holds image)
    (hfs : Fits d fs) (hflag : inode.flags &&& ext4ExtentsFlag ≠ 0)
    (hwf : WellFormed image fs depth 0 (2 ^ 32) inode.blockMap.1)
    (hslot : slotIndex + 1 < ext4ScratchBlocks) (s : Drive σ × Ext4Scratch) :
    (∀ logical ≤ u64Max, (mapBlock d fs inode logical slotIndex s).1 =
      .ok (physicalOf (treeExtents image fs depth inode.blockMap.1) logical)) ↔
    depth ≤ 1 ∧ Populated image fs depth inode.blockMap.1 ∧
      ∀ e ∈ treeExtents image fs depth inode.blockMap.1, e.rawLength ≠ 32768 := by
  obtain ⟨t, hloaded, hrun⟩ := mapBlock_eq d fs hflag (Nat.lt_of_succ_lt hslot) s
  simp only [hrun]
  constructor
  · intro h
    refine understood_of_ok _ hloaded hd hfs hslot hwf 5 ?_
    intro logical hlogical hcorrupt
    rw [h logical hlogical] at hcorrupt
    cases hcorrupt
  · rintro ⟨hdepth, hpop, hfull⟩ logical -
    exact mapExtentNode_exact _ hloaded hd hfs hslot hdepth hwf hpop hfull logical 5

/-! ### Two volumes -/

/-- A node with one entry. -/
def sampleNode (depth : UInt8) (entry : List UInt8) : List UInt8 :=
  [0x0a, 0xf3, 1, 0, 4, 0, depth, 0, 0, 0, 0, 0] ++ entry

/-- An image whose sector 10, the start of block 5, holds a leaf with one extent of eight
blocks: logical block 16 is physical block 100. -/
def sampleImage (lba : ℕ) : Buffer sectorBytes :=
  if lba = 10 then (Buffer.zero sectorBytes).putFront
    ⟨sampleNode 0 [16, 0, 0, 0, 8, 0, 0, 0, 100, 0, 0, 0], by rfl⟩ (by decide)
  else Buffer.zero sectorBytes

/-- A device with that image. -/
def sampleDevice : BlockDevice Unit where
  sectorCount := 80000
  sectorCount_le := by decide
  readSector lba state := (.ok (sampleImage lba), state)

/-- A filesystem of 40000 blocks of 1024 bytes. -/
def sampleFilesystem : Ext4ReadOnly :=
  ⟨1024, 40000, 8192, 16, 16, 128, 5, 32, 2, 1, ext4IncompatExtents⟩

/-- A regular file with the given root node. -/
def sampleInode (entry : Buffer 12) (depth : UInt8) : Ext4Inode where
  number := 12
  mode := 0x8000
  flags := ext4ExtentsFlag
  sizeBytes := 32768
  blockMap := ⟨sampleNode depth entry.1 ++ List.replicate 36 0, by
    simp only [sampleNode, List.length_append, List.length_replicate, entry.2]
    rfl⟩

/-- An index entry for block 5. -/
def sampleIndex : Buffer 12 := ⟨[0, 0, 0, 0, 5, 0, 0, 0, 0, 0, 0, 0], rfl⟩

/-- An initialized extent of 32768 blocks from physical block 100 on. -/
def sampleFull : Buffer 12 := ⟨[0, 0, 0, 0, 0, 0x80, 0, 0, 100, 0, 0, 0], rfl⟩

theorem sampleDevice_holds : sampleDevice.Holds sampleImage := fun _ _ _ => rfl

theorem sampleFilesystem_fits : Fits sampleDevice sampleFilesystem :=
  ⟨by decide, by decide, by decide⟩

theorem sampleIndex_wellFormed :
    WellFormed sampleImage sampleFilesystem 1 0 (2 ^ 32)
      (sampleInode sampleIndex 1).blockMap.1 := by
  refine ⟨⟨by decide +kernel, by decide +kernel, by decide +kernel, by decide +kernel⟩, ?_⟩
  have hroot : nodeEntries (sampleInode sampleIndex 1).blockMap.1 = 1 := by decide +kernel
  intro i hi
  obtain rfl : i = 0 := by omega
  refine ⟨by decide +kernel, by decide +kernel, by decide +kernel,
    ⟨by decide +kernel, by decide +kernel, by decide +kernel, by decide +kernel⟩, ?_⟩
  have hleaf : nodeEntries (blockBytes sampleImage sampleFilesystem
      (indexChild (sampleInode sampleIndex 1).blockMap.1 0)) = 1 := by decide +kernel
  intro j hj
  obtain rfl : j = 0 := by omega
  exact ⟨by decide +kernel, by decide +kernel, by decide +kernel, by decide +kernel⟩

/-- Through one index level, block 19 of the file is block 103 of the volume. -/
theorem mapBlock_sample : (mapBlock sampleDevice sampleFilesystem (sampleInode sampleIndex 1) 19 1
      (⟨(), []⟩, fun _ => Buffer.zero _)).1 = .ok (some 103) := by
  have hslot : 1 + 1 < ext4ScratchBlocks := by decide
  have hexact := (mapBlock_exact sampleDevice_holds sampleFilesystem_fits (by decide)
    sampleIndex_wellFormed hslot (⟨(), []⟩, fun _ => Buffer.zero _)).mpr ?_
  · refine (hexact 19 (by decide)).trans ?_
    decide +kernel
  · refine ⟨by decide, ⟨by decide +kernel, ?_⟩, by decide +kernel⟩
    intro i hi
    have hroot : nodeEntries (sampleInode sampleIndex 1).blockMap.1 = 1 := by decide +kernel
    obtain rfl : i = 0 := by omega
    change nodeEntries _ ≠ 0
    decide +kernel

/-- A well-formed file of one initialized extent of 32768 blocks: block 0 of the file is
block 100 of the volume, and the reader reports corrupt metadata. -/
theorem mapBlock_full_extent_fails :
    WellFormed sampleImage sampleFilesystem 0 0 (2 ^ 32) (sampleInode sampleFull 0).blockMap.1 ∧
    physicalOf (treeExtents sampleImage sampleFilesystem 0 (sampleInode sampleFull 0).blockMap.1)
      0 = some 100 ∧
    (mapBlock sampleDevice sampleFilesystem (sampleInode sampleFull 0) 0 1
      (⟨(), []⟩, fun _ => Buffer.zero _)).1 = .error (.error .corruptMetadata) := by
  have hhdr : NodeHeader 0 (sampleInode sampleFull 0).blockMap.1 :=
    ⟨by decide +kernel, by decide +kernel, by decide +kernel, by decide +kernel⟩
  have hroot : nodeEntries (sampleInode sampleFull 0).blockMap.1 = 1 := by decide +kernel
  refine ⟨⟨hhdr, ?_⟩, by decide +kernel, ?_⟩
  · intro i hi
    obtain rfl : i = 0 := by omega
    exact ⟨by decide +kernel, by decide +kernel, by decide +kernel, by decide +kernel⟩
  · have hflag : (sampleInode sampleFull 0).flags &&& ext4ExtentsFlag ≠ 0 := by decide
    have hslot : 1 < ext4ScratchBlocks := by decide
    obtain ⟨t, hloaded, hrun⟩ := mapBlock_eq sampleDevice sampleFilesystem hflag hslot
      (⟨(), []⟩, fun _ => Buffer.zero _)
    have hscan : scanExtents 40000 0 (leafExtents (sampleInode sampleFull 0).blockMap.1) =
        corrupt := by
      decide +kernel
    rw [hrun, mapExtentNode_leaf hslot hloaded (by decide) hhdr (by rw [hroot]; decide)]
    exact hscan

end ArachKernel.Storage.Ext4ReadOnly
