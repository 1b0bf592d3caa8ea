import ArachKernel.Storage.Ext4

/-!
The ext4 reader on an arbitrary device. Given the bounds that `probe` establishes,
no function of the reader panics, runs out of steps or asks for a sector outside
the device, whatever the device answers and whatever the scratch blocks hold.
-/

namespace ArachKernel.Storage.Ext4ReadOnly

open Guarded List

variable {σ ε : Type} {d : BlockDevice σ} {fs : Ext4ReadOnly}

/-- The bounds on the geometry that the reader relies on. -/
structure Admitted (fs : Ext4ReadOnly) : Prop where
  blockSize_ge : 1024 ≤ fs.blockSize
  blockSize_le : fs.blockSize ≤ 4096
  inodesPerGroup_ne : fs.inodesPerGroup ≠ 0
  inodeSize_ge : 128 ≤ fs.inodeSize
  groupDescriptorSize_ge : 32 ≤ fs.groupDescriptorSize

/-- The invariant of all computations of the reader. -/
def Served (d : BlockDevice σ) (s : Drive σ × Ext4Scratch) : Prop := d.InRange s.1

/-! ### Scratch blocks -/

variable {α : Type} {m : Guarded (Drive σ) Ext4Error α}

theorem onDrive_safe {Q : α → Prop} (h : Safe d.InRange m Q) : Safe (Served d) (onDrive m) Q :=
  Safe.zoom h (fun _ h => h) fun _ _ _ h => h

theorem onDrive_of_ok {drive t : Drive σ} {scratch : Ext4Scratch} {a : α}
    (h : m drive = (.ok a, t)) : onDrive m (drive, scratch) = (.ok a, (t, scratch)) := by
  rw [onDrive, zoom, h]

theorem scratchSlot_safe {index : ℕ} : Safe (Served d) (scratchSlot index) fun _ => True := by
  rw [scratchSlot]
  split
  · exact .pure trivial
  · exact .fail

variable {slot : Fin ext4ScratchBlocks}

theorem scratchBytes_safe :
    Safe (Served d) (scratchBytes slot) fun block => block.1.length = 4096 :=
  Safe.read fun s _ => (s.2 slot).2

theorem fillZero_safe {size : ℕ} (h : size ≤ ext4MaximumBlockSize) :
    Safe (Served d) (fillZero slot size) fun _ => True := by
  rw [fillZero, dif_pos h]
  exact .modify fun _ h => h

theorem readBlock_safe (hfs : fs.Admitted) {block : ℕ} :
    Safe (Served d) (readBlock d fs block slot) fun _ => True := by
  have hsize : fs.blockSize ≤ ext4MaximumBlockSize := hfs.blockSize_le
  rw [readBlock]
  refine .refuse_then fun _ => ?_
  refine .bind checkedMul_safe fun offset _ => ?_
  refine .bind (fillZero_safe hfs.blockSize_le) fun _ _ => ?_
  rw [dif_pos hsize]
  refine .zoom (readBytes_safe ?_) (fun _ h => h) fun _ _ _ h => h
  exact hsize.trans (by decide)

theorem loadBlock_safe (hfs : fs.Admitted) {physical : Option ℕ} :
    Safe (Served d) (loadBlock d fs physical slot) fun _ => True := by
  unfold loadBlock
  refine .bind (fillZero_safe hfs.blockSize_le) fun _ _ => ?_
  cases physical with
  | none => exact .pure trivial
  | some => exact readBlock_safe hfs

/-! ### Extents -/

variable {I : σ → Prop} {logical : ℕ}

theorem mapExtent_safe {first rawLength physicalHigh physicalLow : ℕ} :
    Safe I (mapExtent fs logical first rawLength physicalHigh physicalLow) fun _ => True := by
  rw [mapExtent]
  refine .refuse_then fun _ => ?_
  refine .bind checkedAdd_safe fun stop _ => ?_
  refine .ite (fun hcover => ?_) fun _ => Safe.pure trivial
  refine .ite (fun _ => Safe.pure trivial) fun _ => ?_
  refine .bind (minus_safe hcover.1) fun inside _ => ?_
  refine .bind checkedAdd_safe fun physical _ => ?_
  refine .refuse_then fun _ => ?_
  exact .pure trivial

variable {slotIndex : ℕ}

theorem mapExtents_safe (remaining index : ℕ) (hle : index + remaining ≤ 340) :
    Safe (Served d) (mapExtents fs logical slotIndex remaining index) fun _ => True := by
  induction remaining generalizing index with
  | zero => exact .pure trivial
  | succ remaining ih =>
    rw [mapExtents]
    have hstep : index * ext4ExtentEntryBytes ≤ 339 * 12 :=
      Nat.mul_le_mul_right 12 (by omega)
    have hword : (4096 : ℕ) ≤ u64Max := by decide
    refine .value_then (times_safe (by omega)) ?_
    refine .value_then (plus_safe (by omega)) ?_
    refine .bind scratchSlot_safe fun slot _ => ?_
    refine .bind scratchBytes_safe fun node hnode => ?_
    refine .bind (readWord_safe (by omega)) fun first _ => ?_
    refine .bind (readWord_safe (by omega)) fun rawLength _ => ?_
    refine .bind (readWord_safe (by omega)) fun physicalHigh _ => ?_
    refine .bind (readWord_safe (by omega)) fun physicalLow _ => ?_
    refine .bind mapExtent_safe fun found _ => ?_
    cases found with
    | some => exact .pure trivial
    | none => exact ih (index + 1) (by omega)

theorem selectChild_safe {node : List UInt8}
    (hnode : node.length = 4096) (remaining index : ℕ) (selected : Option ℕ)
    (hle : index + remaining ≤ 340) (hsel : ∀ offset ∈ selected, offset + 12 ≤ 4096) :
    Safe I (selectChild node logical remaining index selected : Guarded σ ε (Option ℕ))
      fun selected => ∀ offset ∈ selected, offset + 12 ≤ 4096 := by
  induction remaining generalizing index selected with
  | zero => exact .pure hsel
  | succ remaining ih =>
    rw [selectChild]
    have hstep : index * ext4ExtentEntryBytes ≤ 339 * 12 :=
      Nat.mul_le_mul_right 12 (by omega)
    have hword : (4096 : ℕ) ≤ u64Max := by decide
    refine .value_then (times_safe (by omega)) ?_
    refine .value_then (plus_safe (by omega)) ?_
    refine .bind (readWord_safe (by omega)) fun first _ => ?_
    refine .ite (fun _ => ?_) fun _ => Safe.pure hsel
    apply ih (index + 1) _ (by omega)
    intro offset hoff
    cases hoff
    omega

theorem extentHeader_safe {level : ℕ} : Safe (Served d) (extentHeader level slotIndex) fun result =>
      level ≤ 5 ∧ result.1.1.length = 4096 ∧ result.2.1 ≤ 340 := by
  rw [extentHeader]
  refine .bind scratchSlot_safe fun slot _ => ?_
  refine .bind scratchBytes_safe fun node hnode => ?_
  refine .bind (readWord_safe (by omega)) fun magic _ => ?_
  refine .refuse_then fun hhead => ?_
  refine .bind (readWord_safe (by omega)) fun entries _ => ?_
  refine .bind (readWord_safe (by omega)) fun maximum _ => ?_
  refine .bind (readWord_safe (by omega)) fun depth _ => ?_
  refine .refuse_then fun hents => ?_
  simp only [not_or, not_lt] at hhead hents
  exact .pure ⟨hhead.2, hnode, hents.2.2⟩

/-- The recursion ends because a node below the maximum depth is refused. -/
theorem mapExtentNode_safe (hfs : fs.Admitted) (fuel level slotIndex : ℕ)
    (hfuel : 7 ≤ level + fuel) (hlevel : level ≤ 6) :
    Safe (Served d) (mapExtentNode d fs logical fuel level slotIndex) fun _ => True := by
  induction fuel generalizing level slotIndex with
  | zero => omega
  | succ fuel ih =>
    rw [mapExtentNode]
    have hword : (4096 : ℕ) ≤ u64Max := by decide
    refine .bind extentHeader_safe ?_
    rintro ⟨node, entries, depth⟩ ⟨hshallow, hnode, hcnt⟩
    dsimp only at hnode hcnt ⊢
    refine .ite (fun _ => mapExtents_safe _ _ (by omega)) fun _ => ?_
    refine .value_then (plus_safe (by omega)) ?_
    refine .refuse_then fun _ => ?_
    refine .bind (selectChild_safe hnode _ _ _ (by omega) nofun) fun selected hsel => ?_
    cases selected with
    | none => exact .pure trivial
    | some offset =>
      have hoff : offset + 12 ≤ 4096 := hsel offset rfl
      refine .bind checkedAdd_safe fun childSlot _ => ?_
      refine .bind (readWord_safe (by omega)) fun high _ => ?_
      refine .bind (readWord_safe (by omega)) fun low _ => ?_
      refine .bind scratchSlot_safe fun target _ => ?_
      refine .bind (readBlock_safe hfs) fun _ _ => ?_
      exact ih (level + 1) childSlot (by omega) (by omega)

variable {inode : Ext4Inode}

theorem mapBlock_safe (hfs : fs.Admitted) :
    Safe (Served d) (mapBlock d fs inode logical slotIndex) fun _ => True := by
  have hmap : inode.blockMap.1.length = 60 := inode.blockMap.2
  rw [mapBlock]
  refine .ite (fun _ => ?_) fun _ => ?_
  · refine .ite (fun hdirect => ?_) fun _ => Safe.fail
    refine .value_then (times_safe (by simp only [u64Max]; omega)) ?_
    refine .bind (readWord_safe (by omega)) fun block _ => ?_
    exact .pure trivial
  · refine .bind scratchSlot_safe fun slot _ => ?_
    refine .bind scratchBytes_safe fun block _ => ?_
    refine .bind (copyFromSlice_safe (by decide) (by decide) hmap) fun block _ => ?_
    refine .bind (Safe.modify fun _ h => h) fun _ _ => ?_
    exact mapExtentNode_safe hfs _ _ _ (by decide) (by decide)

/-! ### Inodes -/

/-- The record an offset and a size select lies in the block. -/
theorem record_in_block {offset size limit : ℕ}
    (h : ¬ (checkedAdd u64Max offset size).all (limit < ·)) : offset + size ≤ limit := by
  cases hsum : checkedAdd u64Max offset size with
  | none => simp [hsum] at h
  | some =>
    rw [hsum] at h
    rw [← (checkedAdd_eq_some.mp hsum).2]
    simpa using h

variable {offset : ℕ}

theorem optionalWord_safe {p : Prop} [Decidable p] {bytes : List UInt8}
    (h : p → offset + 4 ≤ bytes.length) :
    Safe I (if p then readU32 bytes offset else pure 0 : Guarded σ ε ℕ) fun _ => True :=
  Safe.ite (fun hp => (readWord_safe (h hp)).trivial) fun _ => Safe.pure trivial

theorem groupDescriptor_safe (hfs : fs.Admitted) {group : ℕ} :
    Safe (Served d) (groupDescriptor d fs group) fun _ => True := by
  have hsize := hfs.groupDescriptorSize_ge
  have hge := hfs.blockSize_ge
  have hle := hfs.blockSize_le
  rw [groupDescriptor]
  refine .bind checkedMul_safe fun descriptorOffset _ => ?_
  refine .bind (divide_safe (by omega)) fun skipped _ => ?_
  refine .bind checkedAdd_safe fun block _ => ?_
  refine .bind (remainder_safe (by omega)) fun offset _ => ?_
  refine .bind scratchSlot_safe fun slot _ => ?_
  refine .bind (readBlock_safe hfs) fun _ _ => ?_
  refine .refuse_then fun hrec => ?_
  have hend := record_in_block hrec
  refine .bind scratchBytes_safe fun bytes hbytes => ?_
  refine .bind (slice_safe (by omega) (by omega)) fun raw hraw => ?_
  refine .bind (readWord_safe (by omega)) fun low _ => ?_
  refine .bind (optionalWord_safe fun _ => by omega) fun high _ => ?_
  refine .refuse_then fun _ => ?_
  exact .pure trivial

theorem readInode_safe (hfs : fs.Admitted) {inodeNumber : ℕ} :
    Safe (Served d) (readInode d fs inodeNumber) fun _ => True := by
  have hsize := hfs.inodeSize_ge
  have hge := hfs.blockSize_ge
  have hle := hfs.blockSize_le
  rw [readInode]
  refine .refuse_then fun hnumber => ?_
  refine .bind (minus_safe (by omega)) fun zeroBased _ => ?_
  refine .bind (divide_safe hfs.inodesPerGroup_ne) fun group _ => ?_
  refine .bind (remainder_safe hfs.inodesPerGroup_ne) fun index _ => ?_
  refine .refuse_then fun _ => ?_
  refine .bind (groupDescriptor_safe hfs) fun descriptor _ => ?_
  refine .bind checkedMul_safe fun byteOffset _ => ?_
  refine .bind (divide_safe (by omega)) fun skipped _ => ?_
  refine .bind checkedAdd_safe fun block _ => ?_
  refine .bind (remainder_safe (by omega)) fun offset _ => ?_
  refine .bind scratchSlot_safe fun slot _ => ?_
  refine .bind (readBlock_safe hfs) fun _ _ => ?_
  refine .refuse_then fun hrec => ?_
  have hend := record_in_block hrec
  refine .bind scratchBytes_safe fun bytes hbytes => ?_
  refine .bind (slice_safe (by omega) (by omega)) fun raw hraw => ?_
  refine .bind (slice_safe (by omega) (by omega)) fun map hmap => ?_
  refine .bind (copyFromSlice_safe (by decide) (by decide) hmap) fun blockMap _ => ?_
  refine .bind (readWord_safe (by omega)) fun sizeLo _ => ?_
  refine .bind (optionalWord_safe fun _ => by omega) fun sizeHi _ => ?_
  refine .bind (readWord_safe (by omega)) fun mode _ => ?_
  refine .bind (readWord_safe (by omega)) fun flags _ => ?_
  exact .pure trivial

/-! ### Directories -/

variable {wanted : List UInt8}

theorem scanRecords_safe (hfs : fs.Admitted) {block : List UInt8} (hblock : block.length = 4096)
    (fuel offset : ℕ) (hoff : offset ≤ fs.blockSize) (hfuel : fs.blockSize < offset + fuel) :
    Safe I (scanRecords fs block wanted fuel offset) fun _ => True := by
  have hle := hfs.blockSize_le
  induction fuel generalizing offset with
  | zero => omega
  | succ fuel ih =>
    rw [scanRecords]
    refine .ite (fun hlt => ?_) fun _ => Safe.pure trivial
    refine .value_then (minus_safe (by omega)) ?_
    refine .refuse_then fun hroom => ?_
    refine .bind (readWord_safe (by omega)) fun inode _ => ?_
    refine .bind (readWord_safe (by omega)) fun recordLength _ => ?_
    refine .bind (byteAt_safe (by omega)) fun nameByte _ => ?_
    refine .refuse_then fun hshort => ?_
    refine .refuse_then fun _ => ?_
    refine .refuse_then fun hlong => ?_
    refine .value_then (minus_safe (by omega)) ?_
    refine .refuse_then fun hname => ?_
    refine .bind (P := fun _ => True) (Safe.ite (fun _ => ?_)
      fun _ => Safe.pure trivial) fun found _ => ?_
    · refine .bind (slice_safe (by omega) (by omega)) fun name _ => ?_
      exact .pure trivial
    refine .ite (fun _ => Safe.pure trivial) fun _ => ?_
    refine .value_then (plus_safe (by simp only [u64Max]; omega)) ?_
    exact ih _ (by omega) (by omega)

theorem below_of_any {a b c : ℕ} (h : (checkedMul u64Max a b).any (· < c)) :
    a * b ≤ u64Max ∧ a * b < c := by
  cases hmul : checkedMul u64Max a b with
  | none => simp [hmul] at h
  | some =>
    rw [hmul] at h
    obtain ⟨hle, rfl⟩ := checkedMul_eq_some.mp hmul
    exact ⟨hle, by simpa using h⟩

variable {directory : Ext4Inode}

/-- The loop over the blocks ends because the blocks below the directory's size run out. -/
theorem findInBlocks_safe (hfs : fs.Admitted) (fuel blockNumber : ℕ)
    (hnumber : blockNumber ≤ directory.sizeBytes)
    (hfuel : directory.sizeBytes < blockNumber + fuel) :
    Safe (Served d) (findInBlocks d fs directory wanted fuel blockNumber) fun _ => True := by
  have hge := hfs.blockSize_ge
  induction fuel generalizing blockNumber with
  | zero => omega
  | succ fuel ih =>
    rw [findInBlocks]
    refine .ite (fun hmore => ?_) fun _ => Safe.fail
    obtain ⟨hmul, hlt⟩ := below_of_any hmore
    have hscaled : blockNumber * 1024 ≤ blockNumber * fs.blockSize :=
      Nat.mul_le_mul_left _ hge
    refine .bind (mapBlock_safe hfs) fun physical _ => ?_
    refine .bind scratchSlot_safe fun slot _ => ?_
    refine .bind (loadBlock_safe hfs) fun _ _ => ?_
    refine .bind scratchBytes_safe fun block hblock => ?_
    refine .bind (scanRecords_safe hfs hblock _ _ (by omega) (by omega)) fun found _ => ?_
    cases found with
    | some => exact .pure trivial
    | none =>
      refine .bind (plus_safe ?_) ?_
      · simp only [u64Max] at hmul ⊢
        omega
      rintro _ rfl
      exact ih _ (by omega) (by omega)

/-! ### Contents -/

variable {n : ℕ}

theorem readContentsLoop_safe (hfs : fs.Admitted)
    {requested : ℕ} (hn : n ≤ u64Max) (hrequested : requested ≤ n) (fuel copied : ℕ)
    (output : Buffer n) (hle : copied ≤ requested) (hfuel : requested < copied + fuel) :
    Safe (Served d) (readContentsLoop d fs inode offset requested fuel copied output)
      fun result => result.1 ≤ n := by
  have hge := hfs.blockSize_ge
  have hsize := hfs.blockSize_le
  induction fuel generalizing copied output with
  | zero => omega
  | succ fuel ih =>
    rw [readContentsLoop]
    refine .ite (fun hlt => ?_) fun _ => Safe.pure (hle.trans hrequested)
    refine .bind checkedAdd_safe fun absolute _ => ?_
    refine .bind (divide_safe (by omega)) fun logical _ => ?_
    refine .bind (remainder_safe (by omega)) fun within hwithin => ?_
    have hinside : within < fs.blockSize := by
      rw [hwithin]
      exact Nat.mod_lt _ (by omega)
    refine .value_then (minus_safe (by omega)) ?_
    refine .value_then (minus_safe hle) ?_
    refine .bind (mapBlock_safe hfs) fun physical _ => ?_
    refine .bind scratchSlot_safe fun slot _ => ?_
    refine .bind (loadBlock_safe hfs) fun _ _ => ?_
    refine .bind scratchBytes_safe fun block hblock => ?_
    refine .value_then (plus_safe (by omega)) ?_
    refine .bind (slice_safe (by omega) (by omega)) fun piece hpiece => ?_
    refine .bind (copyFromSlice_safe (by omega) (by omega) (by omega)) fun output _ => ?_
    exact ih _ _ (by omega) (by omega)

variable {output : Buffer n}

theorem readInodeContents_safe (hfs : fs.Admitted) (hn : n ≤ u64Max) :
    Safe (Served d) (readInodeContents d fs inode offset output) fun result => result.1 ≤ n := by
  rw [readInodeContents]
  refine .refuse_then fun _ => ?_
  refine .ite (fun _ => Safe.pure (Nat.zero_le n)) fun hsome => ?_
  refine .ite (fun hshort => ?_) fun _ => ?_
  · have hmap : inode.blockMap.1.length = 60 := inode.blockMap.2
    refine .value_then (minus_safe (by omega)) ?_
    refine .bind (slice_safe (by omega) (by omega)) fun piece hpiece => ?_
    refine .bind (copyFromSlice_safe (by omega) (by omega) (by omega)) fun output _ => ?_
    exact .pure (Nat.min_le_left _ _)
  · refine .value_then (minus_safe (by omega)) ?_
    exact readContentsLoop_safe hfs hn (Nat.min_le_left _ _) _ _ _ (by omega) (by omega)

/-! ### Paths -/

variable {path : List UInt8} {cursor : ℕ}

theorem takeWhile_drop_le (p : UInt8 → Bool)
    (h : cursor ≤ path.length) :
    cursor + ((path.drop cursor).takeWhile p).length ≤ path.length := by
  have hle : ((path.drop cursor).takeWhile p).length ≤ (path.drop cursor).length :=
    ( takeWhile_prefix p).length_le
  rw [length_drop] at hle
  omega

theorem nextComponent_safe (h : cursor ≤ path.length) :
    Safe I (nextComponent path cursor) fun result =>
      ∀ component ∈ result.1, skipSlashes path cursor < result.2 ∧ result.2 ≤ path.length := by
  have hstart : skipSlashes path cursor ≤ path.length := takeWhile_drop_le _ h
  rw [nextComponent]
  refine .ite (fun _ => Safe.pure nofun) fun _ => ?_
  have hstop := takeWhile_drop_le (· != slash) hstart
  refine .bind (slice_safe (by omega) hstop) fun component hlen => ?_
  refine .refuse_then fun hshape => ?_
  apply Safe.pure
  -- a component is not empty
  have hne : component.length ≠ 0 := fun h0 =>
    hshape (.inl (length_eq_zero_iff.mp h0))
  omega

theorem dropComponent_safe {output : List UInt8} (length : ℕ) (h : length ≤ output.length) :
    Safe I (dropComponent output length : Guarded σ ε ℕ)
      fun after => after ≤ length ∧ (1 ≤ length → 1 ≤ after) := by
  induction length with
  | zero => exact .pure ⟨le_rfl, id⟩
  | succ length ih =>
    rw [dropComponent]
    refine .ite (fun hlong => ?_) fun _ => Safe.pure ⟨le_rfl, id⟩
    refine .bind (byteAt_safe (by omega)) fun last _ => ?_
    refine .ite (fun _ => ?_) fun _ => Safe.pure ⟨le_rfl, id⟩
    refine (ih (by omega)).mono ?_
    rintro after ⟨hle, hpos⟩
    exact ⟨by omega, fun _ => hpos (by omega)⟩

theorem normalizeLoop_safe (fuel cursor : ℕ) (output : Buffer ext4MaximumPathBytes) (outputLen : ℕ)
    (hcurs : cursor ≤ path.length) (hfuel : path.length < cursor + fuel) (hlen : outputLen ≤ 4096) :
    Safe I (normalizeLoop path fuel cursor output outputLen) fun result => result.1 ≤ 4096 := by
  induction fuel generalizing cursor output outputLen with
  | zero => omega
  | succ fuel ih =>
    rw [normalizeLoop]
    refine .bind (nextComponent_safe hcurs) ?_
    rintro ⟨found, next⟩ hnext
    cases found with
    | none => exact .pure hlen
    | some component =>
      obtain ⟨hlt, hle⟩ := hnext component rfl
      have hskip : cursor ≤ skipSlashes path cursor := Nat.le_add_right _ _
      refine .ite (fun _ => ih _ _ _ hle (by omega) hlen) fun _ => ?_
      refine .ite (fun _ => ?_) fun _ => ?_
      · refine .ite (fun hlong => ?_) fun _ => ih _ _ _ hle (by omega) hlen
        refine .value_then (minus_safe (by omega)) ?_
        have hout : output.1.length = 4096 := output.2
        refine .bind (dropComponent_safe _ (by omega)) ?_
        rintro after ⟨hafter, -⟩
        exact ih _ _ _ hle (by omega) (by omega)
      · generalize hsep : (if 1 < outputLen then 1 else 0) = separator
        have hsmall : separator ≤ 1 := by
          rw [← hsep]
          split <;> omega
        refine .bind (P := fun stop => stop = outputLen + separator + component.length)
          (Safe.okOr ?_) ?_
        · intro stop hstop
          obtain ⟨value, hval, hstop⟩ := Option.bind_eq_some_iff.mp hstop
          obtain ⟨-, rfl⟩ := checkedAdd_eq_some.mp hval
          exact (checkedAdd_eq_some.mp hstop).2
        rintro _ rfl
        refine .refuse_then fun hfits => ?_
        simp only [ext4MaximumPathBytes, not_lt] at hfits
        refine .value_then (plus_safe (by simp only [u64Max]; omega)) ?_
        refine .bind (P := fun _ => True) (Safe.ite (fun hone => ?_)
          fun _ => Safe.pure trivial) fun output _ => ?_
        · have hone : separator = 1 := by omega
          subst hone
          exact copyFromSlice_safe (by omega) (by simp only [ext4MaximumPathBytes]; omega) (by simp)
        refine .bind (copyFromSlice_safe (by omega) hfits (by omega)) fun output _ => ?_
        exact ih _ _ _ hle (by omega) hfits

theorem normalizePath_safe {output : Buffer ext4MaximumPathBytes} :
    Safe I (normalizePath path output) fun result => result.1 ≤ 4096 := by
  rw [normalizePath]
  refine .refuse_then fun _ => ?_
  exact normalizeLoop_safe _ _ _ _ (by omega) (by omega) (by omega)

variable {active : Buffer ext4MaximumPathBytes}

theorem linkParent_safe {parentLen : ℕ} (h : parentLen < 4096) :
    Safe I (linkParent active parentLen) fun result => result.1 ≤ 4096 := by
  have hact : active.1.length = 4096 := active.2
  rw [linkParent]
  refine .bind (slice_safe (by omega) (by omega)) fun parent hpar => ?_
  refine .bind (copyFromSlice_safe (by omega) (by omega) hpar) fun combined _ => ?_
  refine .bind (P := fun _ => True) (Safe.ite (fun _ => ?_) fun _ => Safe.pure trivial)
    fun unclosed _ => ?_
  · refine .bind (byteAt_safe (by omega)) fun last _ => ?_
    exact .pure trivial
  refine .ite (fun _ => ?_) fun _ => Safe.pure (by omega)
  refine .value_then (plus_safe (by simp only [u64Max]; omega)) ?_
  refine .bind (copyFromSlice_safe (by omega) h (by simp)) fun combined _ => ?_
  exact .pure h

theorem substituteLink_safe {target : Buffer ext4MaximumPathBytes}
    {activeLen componentStart targetLen : ℕ} (hlen : activeLen ≤ 4096)
    (hstart : componentStart < cursor) (hcurs : cursor ≤ activeLen) (htgt : targetLen ≤ 4096) :
    Safe I (substituteLink active activeLen componentStart cursor target targetLen)
      fun result => result.1 ≤ 4096 := by
  have htext : target.1.length = 4096 := target.2
  rw [substituteLink]
  have hpar : (if componentStart ≤ 1 then 1 else componentStart - 1) < 4096 := by
    split <;> omega
  refine .bind (slice_safe hcurs (by omega)) fun suffix hsuf => ?_
  refine .bind (byteAt_safe (by omega)) fun first _ => ?_
  refine .bind (P := fun result => result.1 ≤ 4096)
    (Safe.ite (fun _ => linkParent_safe hpar) fun _ => Safe.pure (Nat.zero_le _)) ?_
  rintro ⟨combinedLen, combined⟩ hcombined
  refine .bind checkedAdd_safe ?_
  rintro _ ⟨-, rfl⟩
  refine .refuse_then fun hfits => ?_
  simp only [not_lt] at hfits
  refine .bind (slice_safe (by omega) (by omega)) fun text hlength => ?_
  refine .bind (copyFromSlice_safe (by omega) hfits (by omega)) fun combined _ => ?_
  refine .bind checkedAdd_safe ?_
  rintro _ ⟨-, rfl⟩
  refine .refuse_then fun hsuffixEnd => ?_
  simp only [not_lt] at hsuffixEnd
  refine .bind (copyFromSlice_safe (by omega) hsuffixEnd (by omega)) fun combined _ => ?_
  refine .bind (slice_safe (by omega) (by omega)) fun path _ => ?_
  exact normalizePath_safe

/-- A redirected walk continues with a path that fits its buffer. -/
def Walk.Fits : Walk → Prop
  | .arrived _ => True
  | .redirected activeLen _ => activeLen ≤ 4096

section

variable (hfs : fs.Admitted)
include hfs

theorem walk_safe {activeLen : ℕ} (hlen : activeLen ≤ 4096) (fuel before : ℕ) (inode : Ext4Inode)
    (hbef : before ≤ activeLen) (hfuel : activeLen < before + fuel) :
    Safe (Served d) (walk d fs active activeLen fuel before inode) Walk.Fits := by
  have hact : active.1.length = 4096 := active.2
  induction fuel generalizing before inode with
  | zero => omega
  | succ fuel ih =>
    rw [walk]
    refine .bind (slice_eq_safe (by omega) (by omega)) ?_
    rintro path hpath
    rw [drop_zero, Nat.sub_zero] at hpath
    have hlength : path.length = activeLen := by
      rw [hpath, length_take]
      omega
    refine .bind (nextComponent_safe (by omega)) ?_
    rintro ⟨found, cursor⟩ hnext
    cases found with
    | none => exact .pure trivial
    | some component =>
      obtain ⟨hlt, hle⟩ := hnext component rfl
      refine .bind (slice_eq_safe hbef (by omega)) ?_
      rintro rest hrest
      -- the component starts where the separators end
      have hstart : before + (rest.takeWhile (· == slash)).length = skipSlashes path before := by
        rw [skipSlashes, hpath, hrest, drop_take]
      refine .value_then (plus_safe (by simp only [u64Max]; omega)) ?_
      refine .ite (fun _ => ih _ _ (by omega) (by omega)) fun _ => ?_
      refine .refuse_then fun _ => ?_
      refine .bind (findInBlocks_safe hfs _ _ (by omega) (by omega)) fun child _ => ?_
      refine .bind (readInode_safe hfs) fun inode _ => ?_
      refine .ite (fun _ => ih _ _ (by omega) (by omega)) fun _ => ?_
      refine .bind (readInodeContents_safe hfs (by decide)) ?_
      rintro ⟨targetLen, target⟩ htgt
      refine .refuse_then fun _ => ?_
      refine .bind (substituteLink_safe hlen (by omega) (by omega) htgt) ?_
      rintro ⟨nextLen, next⟩ hfits
      exact .pure hfits

theorem lookupLoop_safe (rounds activeLen : ℕ)
    (active : Buffer ext4MaximumPathBytes) (hlen : activeLen ≤ 4096) :
    Safe (Served d) (lookupLoop d fs rounds activeLen active) fun _ => True := by
  induction rounds generalizing activeLen active with
  | zero => exact .fail
  | succ rounds ih =>
    rw [lookupLoop]
    refine .bind (readInode_safe hfs) fun root _ => ?_
    refine .bind (walk_safe hfs hlen _ _ _ (by omega) (by omega)) fun result hfits => ?_
    cases result with
    | arrived => exact .pure trivial
    | redirected => exact ih _ _ hfits

theorem lookup_safe : Safe (Served d) (lookup d fs path) fun _ => True := by
  rw [lookup]
  refine .refuse_then fun hpath => ?_
  simp only [not_or, not_lt] at hpath
  refine .bind (copyFromSlice_safe (Nat.zero_le _) hpath.2 (by simp)) fun active _ => ?_
  exact lookupLoop_safe hfs _ _ _ hpath.2

theorem metadata_safe : Safe (Served d) (metadata d fs path) fun _ => True :=
  Safe.bind (lookup_safe hfs) fun _ _ => Safe.pure trivial

theorem readFile_safe (hn : n ≤ u64Max) :
    Safe (Served d) (readFile d fs path offset output) fun _ => True :=
  Safe.bind (lookup_safe hfs) fun _ _ => (readInodeContents_safe hfs hn).trivial

end

end ArachKernel.Storage.Ext4ReadOnly
