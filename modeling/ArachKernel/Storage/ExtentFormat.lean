import ArachKernel.Storage.Ext4

/-!
The ext4 extent tree as the on-disk format describes it, and reading blocks off a
device that holds a fixed image.

A node is a header of twelve bytes (magic, number of entries, maximum, depth) and
twelve bytes for each entry. At depth zero the entries are extents, above it they
point to the nodes of the next lower depth. What a tree maps a logical block to is
said here without reference to how the reader walks it: the extents of all leaves
are listed, and the one that covers the block decides.
-/

namespace ArachKernel.Storage

open Guarded List

variable {σ : Type}

/-! ### Disk images -/

/-- The bytes of an image from `offset` on. -/
def imageBytes (image : ℕ → Buffer sectorBytes) (offset length : ℕ) : List UInt8 :=
  (List.range length).map fun i =>
    (image ((offset + i) / sectorBytes)).1.getD ((offset + i) % sectorBytes) 0

/-- The device answers each request for one of its sectors from the image. -/
def BlockDevice.Holds (d : BlockDevice σ) (image : ℕ → Buffer sectorBytes) : Prop :=
  ∀ lba < d.sectorCount, ∀ state, (d.readSector lba state).1 = .ok (image lba)

@[simp] theorem length_imageBytes (image : ℕ → Buffer sectorBytes) (offset length : ℕ) :
    (imageBytes image offset length).length = length := by
  rw [imageBytes, length_map, length_range]

theorem imageBytes_append (image : ℕ → Buffer sectorBytes) (offset m n : ℕ) :
    imageBytes image offset (m + n) =
      imageBytes image offset m ++ imageBytes image (offset + m) n := by
  simp [imageBytes, range_add, map_append, map_map, Function.comp_def, Nat.add_assoc]

/-- Inside one sector the image is the sector. -/
theorem imageBytes_sector {image : ℕ → Buffer sectorBytes} {offset length : ℕ}
    (h : offset % sectorBytes + length ≤ sectorBytes) :
    imageBytes image offset length =
      ((image (offset / sectorBytes)).1.drop (offset % sectorBytes)).take length := by
  have hsector : (image (offset / sectorBytes)).1.length = sectorBytes :=
    (image (offset / sectorBytes)).2
  apply ext_getElem
  · rw [length_imageBytes, length_take, length_drop]
    omega
  · intro i hi _
    rw [length_imageBytes] at hi
    simp only [sectorBytes] at h hsector
    have hdiv : (offset + i) / 512 = offset / 512 := by omega
    have hmod : (offset + i) % 512 = offset % 512 + i := by omega
    simp only [imageBytes, getElem_map, getElem_range, getElem_take,
      getElem_drop, sectorBytes, hdiv, hmod]
    rw [getD_eq_getElem?_getD, getElem?_eq_getElem (by omega), Option.getD_some]

variable {d : BlockDevice σ} {image : ℕ → Buffer sectorBytes} {j n : ℕ}

theorem request_of_holds (hd : d.Holds image) {lba : ℕ} (h : lba < d.sectorCount)
    (s : Drive σ) : ∃ t, d.request lba s = (.ok (image lba), t) := by
  have hread := hd lba h s.device
  rw [BlockDevice.request]
  split
  next hrun =>
    rw [hrun] at hread
    cases hread
    exact ⟨_, rfl⟩
  next hrun =>
    simp [hrun] at hread

/-- The loop completes the output with the bytes of the image. -/
theorem readBytesLoop_image (hd : d.Holds image) {offset : ℕ}
    (hbytes : d.sectorCount * sectorBytes ≤ u64Max)
    (hrng : offset + n ≤ d.sectorCount * sectorBytes) (fuel copied : ℕ) (hle : copied ≤ n)
    (hfuel : n < copied + fuel) (s : Drive σ) (output : Buffer n) :
    ∃ t result, readBytesLoop d offset fuel copied (s, output) = (.ok (), (t, result)) ∧
      result.1 = output.1.take copied ++ imageBytes image (offset + copied) (n - copied) := by
  induction fuel generalizing copied s output with
  | zero => omega
  | succ fuel ih =>
    obtain rfl | hlt := Nat.eq_or_lt_of_le hle
    · refine ⟨s, output, readBytesLoop_done _, ?_⟩
      rw [Nat.sub_self, take_of_length_le output.2.le]
      simp [imageBytes]
    · have hlba : (offset + copied) / sectorBytes < d.sectorCount := by
        apply Nat.div_lt_of_lt_mul
        rw [Nat.mul_comm]
        omega
      obtain ⟨t, hreq⟩ := request_of_holds hd hlba s
      have htake := readBytesTake_le n offset copied
      have hpos : 0 < readBytesTake n offset copied := by
        have hwithin : (offset + copied) % sectorBytes < sectorBytes :=
          Nat.mod_lt _ (by decide)
        simp only [readBytesTake]
        omega
      have hpiece := length_readBytesPiece n offset copied (image ((offset + copied) / sectorBytes))
      rw [readBytesLoop_of_ok hlt (by omega) (by omega) hreq]
      obtain ⟨u, result, hrun, hret⟩ := ih (copied + readBytesTake n offset copied)
        (by omega) (by omega) t _
      refine ⟨u, result, hrun, hret.trans ?_⟩
      -- the piece from this sector, then the rest of the image
      have hsplit : imageBytes image (offset + copied) (n - copied) =
          ((image ((offset + copied) / sectorBytes)).1.drop ((offset + copied) % sectorBytes)).take
            (readBytesTake n offset copied) ++
          imageBytes image (offset + copied + readBytesTake n offset copied)
            (n - (copied + readBytesTake n offset copied)) := by
        rw [← imageBytes_sector htake.2, ← imageBytes_append]
        congr 1
        omega
      have hstart : (output.1.take copied).length = copied := by
        rw [length_take, output.2]
        omega
      rw [hsplit, ← append_assoc, Nat.add_assoc]
      congr 1
      simp only [Buffer.overwrite]
      rw [take_append_of_le_length (by rw [length_append, hstart, hpiece])]
      apply take_of_length_le
      rw [length_append, hstart, hpiece]

theorem readBytes_image (hd : d.Holds image) {offset : ℕ}
    (hbytes : d.sectorCount * sectorBytes ≤ u64Max)
    (hrng : offset + n ≤ d.sectorCount * sectorBytes) (s : Drive σ) (output : Buffer n) :
    ∃ t, readBytes d offset (s, output) =
      (.ok (), (t, ⟨imageBytes image offset n, length_imageBytes _ _ _⟩)) := by
  have hfits : ¬ (d.sectorCount * sectorBytes < offset ∨
      d.sectorCount * sectorBytes - offset < n) := by
    omega
  rw [readBytes, checkedMul_ok hbytes, pure_then, refuse_of_not hfits]
  obtain ⟨t, result, hrun, hret⟩ :=
    readBytesLoop_image hd hbytes hrng (n + 1) 0 (by omega) (by omega) s output
  refine ⟨t, hrun.trans ?_⟩
  have heq : result = ⟨imageBytes image offset n, length_imageBytes _ _ _⟩ :=
    Subtype.ext (by simpa using hret)
  rw [heq]

/-! ### The format -/

/-- An extent: its first logical block, its length field, and its first physical
block. -/
structure Extent where
  first : ℕ
  rawLength : ℕ
  physical : ℕ
  deriving DecidableEq

namespace Extent

/-- A length field above 32768 marks an unwritten extent. -/
def Initialized (e : Extent) : Prop := e.rawLength ≤ 32768

instance (e : Extent) : Decidable e.Initialized := inferInstanceAs (Decidable (_ ≤ _))

def length (e : Extent) : ℕ := if e.rawLength ≤ 32768 then e.rawLength else e.rawLength - 32768

def Covers (e : Extent) (logical : ℕ) : Prop := e.first ≤ logical ∧ logical < e.first + e.length

instance (e : Extent) (logical : ℕ) : Decidable (e.Covers logical) :=
  inferInstanceAs (Decidable (_ ∧ _))

/-- What an extent that covers a block maps it to. -/
def target (e : Extent) (logical : ℕ) : Option ℕ :=
  if e.Initialized then some (e.physical + (logical - e.first)) else none

end Extent

/-- What a list of extents maps a block to. -/
def physicalOf (extents : List Extent) (logical : ℕ) : Option ℕ :=
  (extents.find? fun e => e.Covers logical).bind fun e => e.target logical

/-- The number of entries of a node. -/
def nodeEntries (node : List UInt8) : ℕ := word 2 node 2

/-- The extent in entry `i` of a leaf. -/
def extentAt (node : List UInt8) (i : ℕ) : Extent where
  first := word 4 node (12 + i * 12)
  rawLength := word 2 node (12 + i * 12 + 4)
  physical := word 2 node (12 + i * 12 + 6) * 2 ^ 32 + word 4 node (12 + i * 12 + 8)

/-- The first logical block under entry `i` of an index node. -/
def indexFirst (node : List UInt8) (i : ℕ) : ℕ := word 4 node (12 + i * 12)

/-- The block of the node under entry `i` of an index node. -/
def indexChild (node : List UInt8) (i : ℕ) : ℕ :=
  word 2 node (12 + i * 12 + 8) * 2 ^ 32 + word 4 node (12 + i * 12 + 4)

def leafExtents (node : List UInt8) : List Extent :=
  (List.range (nodeEntries node)).map (extentAt node)

/-- A node with its entries inside it, at the given depth. -/
structure NodeHeader (depth : ℕ) (node : List UInt8) : Prop where
  magic : word 2 node 0 = ext4ExtentHeaderMagic
  entries_le : word 2 node 2 ≤ word 2 node 4
  fits : 12 + word 2 node 4 * 12 ≤ node.length
  depth_eq : word 2 node 6 = depth

theorem NodeHeader.entries_fit {depth : ℕ} {node : List UInt8} (h : NodeHeader depth node) :
    12 + nodeEntries node * 12 ≤ node.length := by
  have hents : nodeEntries node ≤ word 2 node 4 := h.entries_le
  have hroom := h.fits
  omega

section Tree

variable (image : ℕ → Buffer sectorBytes) (fs : Ext4ReadOnly)

/-- The bytes of a block of the filesystem. -/
def blockBytes (block : ℕ) : List UInt8 := imageBytes image (block * fs.blockSize) fs.blockSize

/-- The extents in the leaves of a tree, in order. -/
def treeExtents : ℕ → List UInt8 → List Extent
  | 0, node => leafExtents node
  | depth + 1, node => (List.range (nodeEntries node)).flatMap fun i =>
    treeExtents depth (blockBytes image fs (indexChild node i))

/-- The keys of a node's entries end where the next entry starts. -/
def entryLimit (node : List UInt8) (high i : ℕ) : ℕ :=
  if i + 1 < nodeEntries node then word 4 node (12 + (i + 1) * 12) else high

/-- A tree of the given depth over the logical blocks from `low` to `high`: sorted,
without overlaps, and inside the filesystem. A node may have no entries. -/
def WellFormed : ℕ → ℕ → ℕ → List UInt8 → Prop
  | 0, low, high, node => NodeHeader 0 node ∧ ∀ i < nodeEntries node,
      low ≤ (extentAt node i).first ∧ 0 < (extentAt node i).length ∧
        (extentAt node i).first + (extentAt node i).length ≤ entryLimit node high i ∧
        (extentAt node i).physical + (extentAt node i).length ≤ fs.blocksCount
  | depth + 1, low, high, node => NodeHeader (depth + 1) node ∧ ∀ i < nodeEntries node,
      low ≤ indexFirst node i ∧ indexFirst node i < entryLimit node high i ∧
        indexChild node i < fs.blocksCount ∧
        WellFormed depth (indexFirst node i) (entryLimit node high i)
          (blockBytes image fs (indexChild node i))

/-- Every node of the tree has an entry. -/
def Populated : ℕ → List UInt8 → Prop
  | 0, node => nodeEntries node ≠ 0
  | depth + 1, node => nodeEntries node ≠ 0 ∧ ∀ i < nodeEntries node,
      Populated depth (blockBytes image fs (indexChild node i))

end Tree

/-! ### The entries of a well-formed node -/

section Entries

variable {node : List UInt8} {high i : ℕ}

theorem entryLimit_succ (h : i + 1 < nodeEntries node) :
    entryLimit node high i = indexFirst node (i + 1) :=
  if_pos h

theorem entryLimit_le_first (hsort : ∀ i < nodeEntries node,
    indexFirst node i ≤ entryLimit node high i) (hij : i < j)
    (hj : j < nodeEntries node) : entryLimit node high i ≤ indexFirst node j := by
  induction j with
  | zero => omega
  | succ j ih =>
    obtain rfl | hlt := Nat.eq_or_lt_of_le (Nat.lt_succ_iff.mp hij)
    · exact (entryLimit_succ hj).le
    · calc entryLimit node high i
          ≤ indexFirst node j := ih hlt (by omega)
        _ ≤ entryLimit node high j := hsort j (by omega)
        _ = indexFirst node (j + 1) := entryLimit_succ hj

theorem entryLimit_le_high (hsort : ∀ i < nodeEntries node,
    indexFirst node i ≤ entryLimit node high i) (hi : i < nodeEntries node) :
    entryLimit node high i ≤ high := by
  have hlast : entryLimit node high (nodeEntries node - 1) = high := if_neg (by omega)
  obtain rfl | hlt := Nat.eq_or_lt_of_le (Nat.le_sub_one_of_lt hi)
  · exact hlast.le
  · calc entryLimit node high i
        ≤ indexFirst node (nodeEntries node - 1) :=
          entryLimit_le_first hsort hlt (by omega)
      _ ≤ entryLimit node high (nodeEntries node - 1) := hsort _ (by omega)
      _ = high := hlast

end Entries

variable {fs : Ext4ReadOnly} {node : List UInt8} {depth low high logical : ℕ} {e : Extent}

theorem WellFormed.header
    (h : WellFormed image fs depth low high node) : NodeHeader depth node := by
  cases depth with
  | zero | succ => exact h.1

theorem WellFormed.sorted (h : WellFormed image fs depth low high node) :
    ∀ i < nodeEntries node, low ≤ indexFirst node i ∧
      indexFirst node i < entryLimit node high i := by
  intro i hi
  cases depth with
  | zero =>
    obtain ⟨hlow, hpos, hlim, -⟩ := h.2 i hi
    change low ≤ indexFirst node i at hlow
    change indexFirst node i + _ ≤ _ at hlim
    omega
  | succ =>
    obtain ⟨hlow, hlim, -⟩ := h.2 i hi
    exact ⟨hlow, hlim⟩

theorem mem_leafExtents : e ∈ leafExtents node ↔ ∃ i < nodeEntries node, extentAt node i = e := by
  rw [leafExtents, mem_map]
  simp

/-- The extents of a tree lie in its range of logical blocks. -/
theorem WellFormed.extent_bounds (h : WellFormed image fs depth low high node)
    (he : e ∈ treeExtents image fs depth node) : low ≤ e.first ∧ e.first + e.length ≤ high := by
  have hsort : ∀ i < nodeEntries node, indexFirst node i ≤ entryLimit node high i :=
    fun i hi => (h.sorted i hi).2.le
  induction depth generalizing low high node with
  | zero =>
    obtain ⟨i, hi, rfl⟩ := mem_leafExtents.mp he
    obtain ⟨hlow, -, hlim, -⟩ := h.2 i hi
    exact ⟨hlow, hlim.trans (entryLimit_le_high hsort hi)⟩
  | succ depth ih =>
    rw [treeExtents, mem_flatMap] at he
    obtain ⟨i, hi, he⟩ := he
    have hi : i < nodeEntries node := mem_range.mp hi
    obtain ⟨hlow, -, -, hch⟩ := h.2 i hi
    obtain ⟨hfst, hend⟩ := ih hch he fun j hj => (hch.sorted j hj).2.le
    exact ⟨hlow.trans hfst, hend.trans (entryLimit_le_high hsort hi)⟩

/-! ### The entry of a block -/

/-- A block not below the first entry belongs to one of them. -/
theorem exists_entry (hne : nodeEntries node ≠ 0) (hfst : indexFirst node 0 ≤ logical) :
    ∃ j < nodeEntries node, (∀ k ≤ j, indexFirst node k ≤ logical) ∧
      (j + 1 < nodeEntries node → logical < indexFirst node (j + 1)) := by
  -- the first entry with nothing or something greater behind it
  have hex : ∃ k, ¬ k + 1 < nodeEntries node ∨ logical < indexFirst node (k + 1) :=
    ⟨nodeEntries node, .inl (by omega)⟩
  have hmin : ∀ k < Nat.find hex, k + 1 < nodeEntries node ∧ indexFirst node (k + 1) ≤ logical := by
    intro k hk
    have hnot := Nat.find_min hex hk
    rw [not_or, not_not, not_lt] at hnot
    exact hnot
  refine ⟨Nat.find hex, ?_, ?_, ?_⟩
  · cases hfind : Nat.find hex with
    | zero => omega
    | succ k => exact (hmin k (by omega)).1
  · intro k hk
    cases k with
    | zero => exact hfst
    | succ k => exact (hmin k hk).2
  · intro hlt
    exact (Nat.find_spec hex).resolve_left (not_not.mpr hlt)

theorem findSome_range {α : Type} {g : ℕ → Option α} (hj : j < n)
    (h : ∀ i < n, i ≠ j → g i = none) : (range n).findSome? g = g j := by
  induction n with
  | zero => omega
  | succ n ih =>
    rw [range_succ, findSome?_append]
    obtain rfl | hlt := Nat.eq_or_lt_of_le (Nat.lt_succ_iff.mp hj)
    · have hnone : (range j).findSome? g = none := by
        rw [findSome?_eq_none_iff]
        intro i hi
        have hi := mem_range.mp hi
        exact h i (by omega) (by omega)
      rw [hnone, findSome?_singleton, Option.none_or]
    · rw [ih hlt fun i hi => h i (by omega), findSome?_singleton,
        h n (by omega) (by omega), Option.or_none]

/-- A tree maps a block to what the subtree of its entry maps it to. -/
theorem physicalOf_entry (h : WellFormed image fs (depth + 1) low high node)
    (hj : j < nodeEntries node) (hle : indexFirst node j ≤ logical)
    (hgt : j + 1 < nodeEntries node → logical < indexFirst node (j + 1)) :
    physicalOf (treeExtents image fs (depth + 1) node) logical =
      physicalOf (treeExtents image fs depth (blockBytes image fs (indexChild node j)))
        logical := by
  have hsort : ∀ i < nodeEntries node, indexFirst node i ≤ entryLimit node high i :=
    fun i hi => (h.sorted i hi).2.le
  rw [physicalOf, treeExtents, find?_flatMap]
  congr 1
  apply findSome_range hj
  intro i hi hne
  rw [find?_eq_none]
  intro e he hcover
  obtain ⟨hfst, hend⟩ := (h.2 i hi).2.2.2.extent_bounds he
  obtain ⟨hbelow, habove⟩ : e.Covers logical := by simpa using hcover
  obtain hlt | hlt := Nat.lt_or_gt_of_ne hne
  · have := entryLimit_le_first hsort hlt hj
    omega
  · have hlim := entryLimit_le_first hsort hlt hi
    rw [entryLimit_succ (by omega)] at hlim
    omega

theorem physicalOf_before
    (h : WellFormed image fs (depth + 1) low high node) (hlt : logical < indexFirst node 0) :
    physicalOf (treeExtents image fs (depth + 1) node) logical = none := by
  have hsort : ∀ i < nodeEntries node, indexFirst node i ≤ entryLimit node high i :=
    fun i hi => (h.sorted i hi).2.le
  have hnone :
      (treeExtents image fs (depth + 1) node).find? (fun e => e.Covers logical) = none := by
    rw [find?_eq_none]
    intro e he hcover
    rw [treeExtents, mem_flatMap] at he
    obtain ⟨i, hi, he⟩ := he
    have hi : i < nodeEntries node := mem_range.mp hi
    obtain ⟨hfst, -⟩ := (h.2 i hi).2.2.2.extent_bounds he
    obtain ⟨hbelow, -⟩ : e.Covers logical := by simpa using hcover
    have hmono : indexFirst node 0 ≤ indexFirst node i := by
      obtain rfl | hpos := Nat.eq_zero_or_pos i
      · exact le_rfl
      · exact (hsort 0 (by omega)).trans (entryLimit_le_first hsort hpos hi)
    omega
  rw [physicalOf, hnone, Option.bind_none]

end ArachKernel.Storage
