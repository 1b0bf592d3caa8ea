import ArachKernel.Hw.VtdSlpt
import ArachKernel.Lib.RadixTree

/-!
What the second-level tables hold. The platform is described by the tables it has
given to the core and by their entries; the laws say what a successful call does to
them, and that a failed call does nothing. Tables the core does not own may change
at any time.

`Sound` ties the records of the ledger to the tables: the tables form a radix tree
whose leaves are the mapped records. A record that is being unmapped may refer to
tables that other records have already released; what is known of them is that a
table the record still counts as its own is either gone, or in its place with all
the tables above it.
-/

namespace ArachKernel.Vtd

open RadixTree Function List

variable {μ : Type} {n : ℕ}

/-! ### Entries -/

variable {address bits : ℕ}

theorem add_of_or (halign : address % 4096 = 0) (hbits : bits < 4096) :
    address ||| bits = address + bits := by
  have haddr : address = 2 ^ 12 * (address / 4096) := by omega
  rw [haddr, Nat.two_pow_add_eq_or_of_lt hbits]

theorem and_permissionMask (entry : ℕ) : entry &&& permissionMask = entry % 4 :=
  Nat.and_two_pow_sub_one_eq_mod entry 2

theorem and_physicalPageMask (halign : address % 4096 = 0) (haddr : address < 2 ^ 52)
    (hbits : bits < 4096) : (address + bits) &&& physicalPageMask = address := by
  have hmask : physicalPageMask = 2 ^ 12 * (2 ^ 40 - 1) := by decide
  have hsplit : address + bits = 2 ^ 12 * (address / 4096) + bits := by omega
  apply Nat.eq_of_testBit_eq
  intro j
  rw [Nat.testBit_and, hsplit, hmask, Nat.testBit_two_pow_mul, Nat.testBit_two_pow_sub_one,
    Nat.testBit_two_pow_mul_add _ (by omega)]
  have hback : address = 2 ^ 12 * (address / 4096) := by omega
  conv_rhs => rw [hback, Nat.testBit_two_pow_mul]
  by_cases hj : 12 ≤ j
  · simp only [hj, decide_true, Bool.true_and, not_lt.mpr hj, if_false]
    by_cases hj' : j - 12 < 40
    · rw [decide_eq_true hj', Bool.and_true]
    · rw [decide_eq_false hj', Bool.and_false]
      symm
      apply Nat.testBit_lt_two_pow
      calc address / 4096 < 2 ^ 40 := by omega
        _ ≤ 2 ^ (j - 12) := Nat.pow_le_pow_right (by decide) (by omega)
  · simp [hj]

theorem pointer_eq (child : SlptFrame) : pointer child = child.address + 3 :=
  add_of_or child.valid.2.1 (by decide)

/-- The entry of an inner table. -/
def link : Option SlptFrame → ℕ
  | none => 0
  | some child => pointer child

/-- The table an entry of an inner table leads a walk to. -/
def nextTable (entry : ℕ) : Option SlptFrame :=
  if entry &&& permissionMask = 0 then none
  else SlptFrame.fromPhysicalAddress (entry &&& physicalPageMask)

theorem pointer_and_mask (child : SlptFrame) :
    pointer child &&& physicalPageMask = child.address := by
  rw [pointer_eq]
  exact and_physicalPageMask child.valid.2.1 child.valid.2.2 (by decide)

theorem pointer_and_permissions (child : SlptFrame) :
    pointer child &&& permissionMask = permissionMask := by
  have halign := child.valid.2.1
  rw [and_permissionMask, pointer_eq, permissionMask]
  omega

theorem nextTable_link (x : Option SlptFrame) : nextTable (link x) = x := by
  cases x with
  | none => rfl
  | some =>
    rw [link, nextTable, pointer_and_permissions, if_neg (by decide), pointer_and_mask,
      SlptFrame.fromPhysicalAddress, dif_pos (SlptFrame.valid _)]

theorem link_injective : Function.Injective link := by
  intro x y h
  rw [← nextTable_link x, ← nextTable_link y, h]

theorem link_eq_zero {x : Option SlptFrame} : link x = 0 ↔ x = none :=
  ⟨fun h => link_injective h, fun h => by rw [h]; rfl⟩

/-- An entry the core accepts as a pointer leads to the table it names. -/
theorem nextTable_of_decode {entry : ℕ} {child : SlptFrame}
    (h : decodeTablePointer entry = .ok child) : nextTable entry = some child := by
  rw [decodeTablePointer] at h
  split at h
  · cases h
  next hval =>
  simp only [not_or, not_not] at hval
  rw [nextTable, hval.1]
  split at h
  next hfr =>
    cases h
    exact hfr
  · cases h

/-! ### Paths -/

theorem length_indices (levels iova : ℕ) : (indices levels iova).length = levels := by
  rw [indices, length_map, length_range]

theorem indexAt_eq (levels iova position : ℕ) :
    indexAt levels iova position = iova / 2 ^ (12 + (levels - 1 - position) * 9) % 512 := by
  rw [indexAt, Nat.shiftRight_eq_div_pow]
  exact Nat.and_two_pow_sub_one_eq_mod _ 9

theorem indexAt_lt (levels iova position : ℕ) : indexAt levels iova position < 512 := by
  rw [indexAt_eq]
  exact Nat.mod_lt _ (by decide)

variable {levels : ℕ}

theorem getElem_indices {position : ℕ} (iova : ℕ) (h : position < levels) :
    (indices levels iova)[position]? = some (indexAt levels iova position) := by
  rw [indices, getElem?_map, getElem?_range h, Option.map_some]

/-- The indices of a page determine it. -/
theorem indices_injective {a b : ℕ} (ha : a % 4096 = 0) (hb : b % 4096 = 0)
    (halt : a < 2 ^ (12 + 9 * levels)) (hblt : b < 2 ^ (12 + 9 * levels))
    (h : indices levels a = indices levels b) : a = b := by
  -- the leading digits agree, one position after the other
  have hdigits :
      ∀ k ≤ levels, a / 2 ^ (12 + (levels - k) * 9) = b / 2 ^ (12 + (levels - k) * 9) := by
    intro k
    induction k with
    | zero =>
      intro _
      rw [Nat.sub_zero, Nat.mul_comm levels 9, Nat.div_eq_of_lt halt, Nat.div_eq_of_lt hblt]
    | succ k ih =>
      intro hk
      have hstep : ∀ x, x / 2 ^ (12 + (levels - k) * 9) =
          x / 2 ^ (12 + (levels - (k + 1)) * 9) / 512 := by
        intro x
        rw [Nat.div_div_eq_div_mul]
        congr 1
        rw [show (512 : ℕ) = 2 ^ 9 by rfl, ← Nat.pow_add]
        congr 1
        omega
      have hdigit : indexAt levels a k = indexAt levels b k := by
        have hget := congrArg (·[k]?) h
        simp only [getElem_indices _ (show k < levels by omega), Option.some.injEq] at hget
        exact hget
      rw [indexAt_eq, indexAt_eq, Nat.sub_sub, Nat.add_comm 1 k] at hdigit
      have hprev := ih (by omega)
      rw [hstep a, hstep b] at hprev
      omega
  have hlast := hdigits levels le_rfl
  rw [Nat.sub_self] at hlast
  omega

/-! ### The platform -/

/-- How the state of a platform is seen: the tables the core owns, and their entries. -/
structure View (μ : Type) where
  owned : μ → SlptFrame → Prop
  entry : μ → SlptFrame → ℕ → ℕ

/-- The tables of the core and their contents are the same. -/
structure View.Unchanged (V : View μ) (m m' : μ) : Prop where
  owned : ∀ f, V.owned m' f ↔ V.owned m f
  entry : ∀ f, V.owned m f → ∀ i, V.entry m' f i = V.entry m f i

theorem View.Unchanged.refl (V : View μ) (m : μ) : V.Unchanged m m :=
  ⟨fun _ => Iff.rfl, fun _ _ _ => rfl⟩

variable {m₁ m₂ m₃ : μ}

theorem View.Unchanged.trans {V : View μ} (h : V.Unchanged m₁ m₂) (h' : V.Unchanged m₂ m₃) :
    V.Unchanged m₁ m₃ :=
  ⟨fun f => (h'.owned f).trans (h.owned f),
    fun f hf i => (h'.entry f ((h.owned f).mpr hf) i).trans (h.entry f hf i)⟩

/-- The memory is the same, but for one entry. -/
structure View.SameBut (V : View μ) (table : SlptFrame) (i : ℕ) (m m' : μ) : Prop where
  owned : ∀ g, V.owned m' g ↔ V.owned m g
  entry : ∀ g, V.owned m g → ∀ j, (g = table → j ≠ i) → V.entry m' g j = V.entry m g j

variable {table : SlptFrame}

theorem View.SameBut.unchanged {V : View μ} {i : ℕ}
    (h : V.SameBut table i m₁ m₂) (h' : V.Unchanged m₂ m₃) : V.SameBut table i m₁ m₃ :=
  ⟨fun g => (h'.owned g).trans (h.owned g), fun g hg j hj =>
    (h'.entry g ((h.owned g).mpr hg) j).trans (h.entry g hg j hj)⟩

/-- The contract of the platform. -/
structure Platform.Lawful (P : Platform μ) (V : View μ) : Prop where
  allocate_ok : ∀ {m m' f}, P.allocateTable m = (.ok f, m') →
    ¬ V.owned m f ∧ (∀ g, V.owned m' g ↔ V.owned m g ∨ g = f) ∧
      ∀ g, V.owned m g → ∀ i, V.entry m' g i = V.entry m g i
  allocate_error : ∀ {m m' e}, P.allocateTable m = (.error e, m') → V.Unchanged m m'
  zero_ok : ∀ {m m' f}, P.zeroTable f m = (.ok (), m') → (∀ g, V.owned m' g ↔ V.owned m g) ∧
    (V.owned m f → ∀ i < entriesPerTable, V.entry m' f i = 0) ∧
      ∀ g, g ≠ f → V.owned m g → ∀ i, V.entry m' g i = V.entry m g i
  zero_error : ∀ {m m' f e}, P.zeroTable f m = (.error e, m') → V.Unchanged m m'
  read_ok : ∀ {m m' f i v}, P.readEntry f i m = (.ok v, m') →
    V.Unchanged m m' ∧ (V.owned m f → i < entriesPerTable → v = V.entry m f i)
  read_error : ∀ {m m' f i e}, P.readEntry f i m = (.error e, m') → V.Unchanged m m'
  write_ok : ∀ {m m' f i v}, P.writeEntry f i v m = (.ok (), m') →
    (∀ g, V.owned m' g ↔ V.owned m g) ∧ (V.owned m f → V.entry m' f i = v) ∧
      ∀ g, V.owned m g → ∀ j, (g = f → j ≠ i) → V.entry m' g j = V.entry m g j
  write_error : ∀ {m m' f i v e}, P.writeEntry f i v m = (.error e, m') → V.Unchanged m m'
  release_ok : ∀ {m m' f}, P.releaseTable f m = (.ok (), m') →
    (∀ g, V.owned m' g ↔ V.owned m g ∧ g ≠ f) ∧
      ∀ g, g ≠ f → V.owned m g → ∀ i, V.entry m' g i = V.entry m g i
  release_error : ∀ {m m' f e}, P.releaseTable f m = (.error e, m') → V.Unchanged m m'
  invalidate : ∀ m iova, V.Unchanged m (P.invalidate iova m).2

/-! ### The invariant -/

/-- The leaf of the record is in the tables. -/
def MappingRecord.Mapped (r : MappingRecord) : Prop :=
  r.phase = .awaitingMapInvalidation ∨ r.phase = .active

instance (r : MappingRecord) : Decidable r.Mapped := inferInstanceAs (Decidable (_ ∨ _))

/-- A record as `map_page` makes it. -/
structure MappingRecord.Shape (levels : ℕ) (r : MappingRecord) : Prop where
  iova_aligned : r.iova % pageSize = 0
  iova_lt : r.iova < 2 ^ (pageShift + 9 * levels)
  physical_aligned : r.physicalAddress % pageSize = 0
  physical_lt : r.physicalAddress < 2 ^ 52
  leaf_eq : ∃ bits, 0 < bits ∧ bits < 4 ∧ r.leaf = r.physicalAddress ||| bits
  indices_eq : r.path.indices = indices levels r.iova
  depth_eq : r.path.depth = levels
  frames_length : r.path.frames.length = levels
  cleanup_of_mapped : r.Mapped → r.cleanupDepth = 0

theorem MappingRecord.Shape.length_init {r : MappingRecord} (h : r.Shape levels)
    {p : List ℕ} {i : ℕ} (hpath : r.path.indices = p ++ [i]) : p.length + 1 = levels := by
  have hlen := congrArg length hpath
  rw [h.indices_eq, length_indices] at hlen
  simpa using hlen.symm

theorem MappingRecord.Shape.iova_eq {r r' : MappingRecord} (h : r.Shape levels)
    (h' : r'.Shape levels) (heq : r.path.indices = r'.path.indices) : r.iova = r'.iova := by
  rw [h.indices_eq, h'.indices_eq] at heq
  exact indices_injective h.iova_aligned h'.iova_aligned h.iova_lt h'.iova_lt heq

/-- The record in a slot. -/
abbrev Slpt.At (slpt : Slpt n) (slot : Fin n) (r : MappingRecord) : Prop :=
  (slpt.slots slot).record = some r

/-- The tables are those of the layout `T` and hold the leaves of the mapped records. -/
structure Sound (V : View μ) (T : Layout SlptFrame) (leaves : List ℕ → ℕ) (slpt : Slpt n)
    (m : μ) : Prop where
  width_eq : slpt.adjustedWidth = pageShift + 9 * slpt.levels
  levels_ge : 2 ≤ slpt.levels
  levels_le : slpt.levels ≤ 5
  root : T [] = some slpt.root
  owned : ∀ {p f}, T p = some f → V.owned m f
  tree : Represents slpt.levels entriesPerTable link leaves (V.entry m) T
  shape : ∀ {slot r}, slpt.At slot r → r.Shape slpt.levels
  distinct : ∀ {slot slot' r r'}, slpt.At slot r → slpt.At slot' r' → r.iova = r'.iova →
    slot = slot'
  leaf_of_mapped : ∀ {slot r}, slpt.At slot r → r.Mapped → leaves r.path.indices = r.leaf
  leaf_of_unmapped : ∀ {path}, (∀ slot r, slpt.At slot r → r.Mapped → r.path.indices ≠ path) →
    leaves path = 0
  live : ∀ {slot r}, slpt.At slot r → r.Mapped → ∀ j < slpt.levels,
    T (r.path.indices.take j) = r.path.frames[j]?
  chain : ∀ {slot r}, slpt.At slot r → ∀ {j f p}, j < slpt.levels - r.cleanupDepth →
    r.path.frames[j]? = some f → T p = some f →
      ∀ i ≤ j, T (r.path.indices.take i) = r.path.frames[i]?

namespace Sound

variable {V : View μ} {T : Layout SlptFrame} {leaves : List ℕ → ℕ} {slpt : Slpt n} {m m' : μ}

/-! ### Changes of the memory -/

/-- The memory may change outside the tables of the tree. -/
theorem of_entry_eq (h : Sound V T leaves slpt m) (howned : ∀ {p f}, T p = some f → V.owned m' f)
    (hent : ∀ {p f}, T p = some f → ∀ i, V.entry m' f i = V.entry m f i) :
    Sound V T leaves slpt m' :=
  { h with
    owned := howned
    tree := h.tree.congr hent fun _ => rfl }

theorem unchanged (h : Sound V T leaves slpt m) (hm : V.Unchanged m m') :
    Sound V T leaves slpt m' :=
  h.of_entry_eq (fun hp => (hm.owned _).mpr (h.owned hp)) fun hp i => hm.entry _ (h.owned hp) i

/-- A link may be taken away and put back. -/
theorem relinked (h : Sound V T leaves slpt m) {parent : SlptFrame} {i value : ℕ}
    (hlink : V.owned m parent → V.entry m parent i = value) (hm : V.SameBut parent i m m')
    (hval : V.owned m parent → V.entry m' parent i = value) : Sound V T leaves slpt m' := by
  refine h.of_entry_eq (fun hp => (hm.owned _).mpr (h.owned hp)) ?_
  intro p f hp j
  by_cases hj : f = parent ∧ j = i
  · obtain ⟨rfl, rfl⟩ := hj
    rw [hval (h.owned hp), hlink (h.owned hp)]
  · exact hm.entry f (h.owned hp) j fun hf hji => hj ⟨hf, hji⟩

variable {parent child : SlptFrame} {q : List ℕ} {i : ℕ}

/-- The entry that leads to a table of the tree. -/
theorem link_eq (h : Sound V T leaves slpt m) (hpar : T q = some parent)
    (hch : T (q ++ [i]) = some child) : V.owned m parent → V.entry m parent i = pointer child := by
  intro _
  have hlen := h.tree.length_lt hch
  rw [length_append] at hlen
  rw [h.tree.node hpar hlen (h.tree.index_lt hch), hch]
  rfl

variable {r : MappingRecord} {slot : Fin n} {p : List ℕ}

/-- No mapped record lies under a path without a table. -/
theorem mapped_avoids (h : Sound V T leaves slpt m) (hp : T p = none) (hr : slpt.At slot r)
    (hmap : r.Mapped) (j : ℕ) (hj : j < slpt.levels) : r.path.indices.take j ≠ p := by
  rintro rfl
  have hlive := h.live hr hmap j hj
  rw [hp, eq_comm, getElem?_eq_none_iff, (h.shape hr).frames_length] at hlive
  omega

/-- Linking a fresh table that no record counts as its own. -/
theorem link_child (h : Sound V T leaves slpt m)
    (hpar : T q = some parent) (hfree : T (q ++ [i]) = none)
    (hlevel : q.length + 1 < slpt.levels) (hi : i < entriesPerTable)
    (hfresh : ∀ p, T p ≠ some child) (hunknown : ∀ slot r, slpt.At slot r →
      child ∉ r.path.frames.take (slpt.levels - r.cleanupDepth))
    (howned : ∀ {p f}, T p = some f → V.owned m' f) (hch : V.owned m' child)
    (hlink : V.entry m' parent i = pointer child)
    (hsame : ∀ {p f}, T p = some f → ∀ j, (f = parent → j ≠ i) → V.entry m' f j = V.entry m f j)
    (hzero : ∀ j < entriesPerTable, V.entry m' child j = 0) :
    Sound V (update T (q ++ [i]) (some child)) leaves slpt m' := by
  have hoth : ∀ {p}, p ≠ q ++ [i] → update T (q ++ [i]) (some child) p = T p :=
    fun hp => update_of_ne hp _ _
  refine { h with root := ?_, owned := ?_, tree := ?_, live := ?_, chain := ?_ }
  · rw [hoth (by simp)]
    exact h.root
  · intro p f hp
    by_cases hpe : p = q ++ [i]
    · subst hpe
      rw [update_self] at hp
      cases hp
      exact hch
    · rw [hoth hpe] at hp
      exact howned hp
  · refine h.tree.link_child hpar hfree hlevel hi hfresh hlink hsame hzero ?_
    intro hlast j hj
    rw [hzero j hj, eq_comm]
    apply h.leaf_of_unmapped
    intro slot r hr hmap heq
    apply h.mapped_avoids hfree hr hmap (slpt.levels - 1) (by omega)
    rw [heq, take_append_of_le_length (by simp; omega), take_of_length_le (by simp; omega)]
  · intro slot r hr hmap j hj
    rw [hoth (h.mapped_avoids hfree hr hmap j hj)]
    exact h.live hr hmap j hj
  · intro slot r hr j f p hj hf hp
    have hne : p ≠ q ++ [i] := by
      rintro rfl
      rw [update_self] at hp
      cases hp
      apply hunknown slot r hr
      rw [mem_iff_getElem?]
      refine ⟨j, ?_⟩
      rw [getElem?_take_of_lt hj]
      exact hf
    rw [hoth hne] at hp
    intro k hk
    have hchain := h.chain hr hj hf hp k hk
    rw [hoth ?_]
    · exact hchain
    · rintro heq
      rw [heq, hfree, eq_comm, getElem?_eq_none_iff, (h.shape hr).frames_length] at hchain
      omega

/-- Unlinking a table with nothing below it and no mapped record in it. -/
theorem unlink_child (h : Sound V T leaves slpt m) (hpar : T q = some parent)
    (hch : T (q ++ [i]) = some child) (hemp : ∀ j, T (q ++ [i] ++ [j]) = none)
    (havoid : ∀ slot r, slpt.At slot r → r.Mapped → ∀ j < slpt.levels,
      r.path.indices.take j ≠ q ++ [i])
    (howned : ∀ {p f}, T p = some f → f ≠ child → V.owned m' f) (hunlink : V.entry m' parent i = 0)
    (hsame : ∀ {p f}, T p = some f → f ≠ child → ∀ j, (f = parent → j ≠ i) →
      V.entry m' f j = V.entry m f j) :
    Sound V (update T (q ++ [i]) none) leaves slpt m' := by
  have hoth : ∀ {p}, p ≠ q ++ [i] → update T (q ++ [i]) none p = T p :=
    fun hp => update_of_ne hp _ _
  refine { h with root := ?_, owned := ?_, tree := ?_, live := ?_, chain := ?_ }
  · rw [hoth (by simp)]
    exact h.root
  · intro p f hpf
    obtain ⟨hpe, hp⟩ := Layout.of_taken hpf
    refine howned hp ?_
    rintro rfl
    exact hpe (h.tree.inj hp hch)
  · exact h.tree.unlink_child hpar hch hemp hunlink hsame
  · intro slot r hr hmap j hj
    rw [hoth (havoid slot r hr hmap j hj)]
    exact h.live hr hmap j hj
  · intro slot r hr j f p hj hf hpf k hk
    obtain ⟨hpe, hp⟩ := Layout.of_taken hpf
    have hchain := h.chain hr hj hf hp
    have hkj := hchain k hk
    rw [hoth ?_]
    · exact hkj
    · intro heq
      have hjj := hchain j le_rfl
      rw [hf] at hjj
      -- the unlinked table would be above one that is still there
      obtain rfl | hlt := Nat.eq_or_lt_of_le hk
      · exact hpe ((h.tree.inj hp hjj).trans heq)
      · have hlen : r.path.indices.length = slpt.levels := by
          rw [(h.shape hr).indices_eq, length_indices]
        have hsucc := hchain (k + 1) hlt
        have htake : r.path.indices.take (k + 1) = q ++ [i] ++ [r.path.indices.getD k 0] := by
          rw [← heq, take_succ_eq_append_getElem (by omega), getD_eq_getElem?_getD,
            getElem?_eq_getElem (by omega), Option.getD_some]
        rw [htake, hemp, eq_comm, getElem?_eq_none_iff, (h.shape hr).frames_length] at hsucc
        omega

/-! ### Changes of the ledger -/

variable {new : MappingSlot}

theorem at_setSlot {slot' : Fin n} : (slpt.setSlot slot new).At slot' r ↔
      slot' = slot ∧ new.record = some r ∨ slot' ≠ slot ∧ slpt.At slot' r := by
  rw [Slpt.At, Slpt.setSlot]
  by_cases h : slot' = slot
  · subst h
    simp
  · simp [h]

/-- A record that agrees with the tables and their leaves. -/
structure Fits (T : Layout SlptFrame) (leaves : List ℕ → ℕ) (levels : ℕ) (r : MappingRecord) :
    Prop where
  shape : r.Shape levels
  leaf : r.Mapped → leaves r.path.indices = r.leaf
  live : r.Mapped → ∀ j < levels, T (r.path.indices.take j) = r.path.frames[j]?
  chain : ∀ {j f p}, j < levels - r.cleanupDepth → r.path.frames[j]? = some f → T p = some f →
    ∀ i ≤ j, T (r.path.indices.take i) = r.path.frames[i]?

theorem fits (h : Sound V T leaves slpt m) (hr : slpt.At slot r) : Fits T leaves slpt.levels r :=
  ⟨h.shape hr, h.leaf_of_mapped hr, h.live hr, h.chain hr⟩

/-- The record of one slot changes, and with it perhaps its leaf. -/
theorem setSlot (h : Sound V T leaves slpt m) {leaves' : List ℕ → ℕ}
    (howned : ∀ {p f}, T p = some f → V.owned m' f)
    (htree : Represents slpt.levels entriesPerTable link leaves' (V.entry m') T)
    (hnew : ∀ s, new.record = some s → Fits T leaves' slpt.levels s)
    (hdist : ∀ s, new.record = some s → ∀ slot' r, slot' ≠ slot → slpt.At slot' r → r.iova ≠ s.iova)
    (hleaf : ∀ slot' r, slot' ≠ slot → slpt.At slot' r →
      leaves' r.path.indices = leaves r.path.indices)
    (hnone : ∀ path, (∀ s, new.record = some s → s.Mapped → s.path.indices ≠ path) →
      leaves' path = 0 ∨ leaves' path = leaves path ∧
        ∀ r, slpt.At slot r → r.Mapped → r.path.indices ≠ path) :
    Sound V T leaves' (slpt.setSlot slot new) m' := by
  have hfits {slot' : Fin n} {s : MappingRecord} (hat : (slpt.setSlot slot new).At slot' s) :
      Fits T leaves' slpt.levels s := by
    obtain ⟨-, hs⟩ | ⟨hne, hs⟩ := at_setSlot.mp hat
    · exact hnew s hs
    · have hold := h.fits hs
      exact { hold with leaf := fun hm => (hleaf slot' s hne hs).trans (hold.leaf hm) }
  refine ⟨h.width_eq, h.levels_ge, h.levels_le, h.root, howned, htree, fun hat => (hfits hat).shape,
    ?_, fun hat => (hfits hat).leaf, ?_, fun hat => (hfits hat).live, fun hat => (hfits hat).chain⟩
  · intro slot1 slot2 s1 s2 hat1 hat2 heq
    obtain ⟨rfl, hs1⟩ | ⟨hne1, hs1⟩ := at_setSlot.mp hat1 <;>
      obtain ⟨rfl, hs2⟩ | ⟨hne2, hs2⟩ := at_setSlot.mp hat2
    · rfl
    · exact absurd heq.symm (hdist s1 hs1 slot2 s2 hne2 hs2)
    · exact absurd heq (hdist s2 hs2 slot1 s1 hne1 hs1)
    · exact h.distinct hs1 hs2 heq
  · intro path hpath
    obtain hzero | ⟨hsame, hold⟩ :=
      hnone path fun s hs => hpath slot s (at_setSlot.mpr (.inl ⟨rfl, hs⟩))
    · exact hzero
    rw [hsame]
    refine h.leaf_of_unmapped fun slot' r hr => ?_
    by_cases hslot : slot' = slot
    · exact hold r (hslot ▸ hr)
    · exact hpath slot' r (at_setSlot.mpr (.inr ⟨hslot, hr⟩))

theorem at_inj {s : MappingRecord} (hr : slpt.At slot r) (hs : slpt.At slot s) : s = r :=
  Option.some.inj (hs.symm.trans hr)

section

variable (h : Sound V T leaves slpt m)
include h

/-- A record may move between the phases on one side, and give up tables. -/
theorem replace {r' : MappingRecord} (hr : slpt.At slot r) (hnew : new.record = some r')
    (hiova : r'.iova = r.iova) (hphys : r'.physicalAddress = r.physicalAddress)
    (hleaf : r'.leaf = r.leaf) (hpath : r'.path = r.path) (hmap : r'.Mapped ↔ r.Mapped)
    (hcleanup : r.cleanupDepth ≤ r'.cleanupDepth)
    (hzero : r'.Mapped → r'.cleanupDepth = r.cleanupDepth) :
    Sound V T leaves (slpt.setSlot slot new) m := by
  have hold := h.fits hr
  have hshape := hold.shape
  have hfits : Fits T leaves slpt.levels r' := by
    refine ⟨⟨?_, ?_, ?_, ?_, ?_, ?_, ?_, ?_, fun hm => ?_⟩, fun hm => ?_, fun hm => ?_,
      fun hj => ?_⟩
    · exact hiova ▸ hshape.iova_aligned
    · exact hiova ▸ hshape.iova_lt
    · exact hphys ▸ hshape.physical_aligned
    · exact hphys ▸ hshape.physical_lt
    · exact hphys ▸ hleaf ▸ hshape.leaf_eq
    · exact hiova ▸ hpath ▸ hshape.indices_eq
    · exact hpath ▸ hshape.depth_eq
    · exact hpath ▸ hshape.frames_length
    · rw [hzero hm]
      exact hshape.cleanup_of_mapped (hmap.mp hm)
    · rw [hpath, hleaf]
      exact hold.leaf (hmap.mp hm)
    · rw [hpath]
      exact hold.live (hmap.mp hm)
    · rw [hpath]
      exact hold.chain (hj.trans_le (Nat.sub_le_sub_left hcleanup _))
  refine h.setSlot h.owned h.tree (fun s hs => ?_) (fun s hs slot' r₂ hne hr₂ heq => ?_)
    (fun _ _ _ _ => rfl) fun path hpaths => .inr ⟨rfl, fun s hs hm => ?_⟩
  · rw [hnew] at hs
    cases hs
    exact hfits
  · rw [hnew] at hs
    cases hs
    exact hne (h.distinct hr₂ hr (heq.trans hiova))
  · obtain rfl := at_inj hr hs
    rw [← hpath]
    exact hpaths r' hnew (hmap.mpr hm)

/-- An unmapped record may be dropped. -/
theorem drop (hnew : new.record = none) (hunmap : ∀ r, slpt.At slot r → ¬ r.Mapped) :
    Sound V T leaves (slpt.setSlot slot new) m := by
  refine h.setSlot h.owned h.tree (fun s hs => ?_) (fun s hs => ?_) (fun _ _ _ _ => rfl)
    fun path _ => .inr ⟨rfl, fun r hr hm => absurd hm (hunmap r hr)⟩
  all_goals
    simp [hnew] at hs

/-- Taking the leaf of a record out of its table. -/
theorem unmap (hr : slpt.At slot r)
    (hnew : new.record = some { r with phase := .awaitingUnmapInvalidation })
    (htab : T p = some table) (hpath : r.path.indices = p ++ [i])
    (howned : ∀ {q f}, T q = some f → V.owned m' f) (hcleared : V.entry m' table i = 0)
    (hsame : ∀ {q f}, T q = some f → ∀ j, (f = table → j ≠ i) → V.entry m' f j = V.entry m f j) :
    Sound V T (update leaves (p ++ [i]) 0) (slpt.setSlot slot new) m' := by
  have hlen := (h.shape hr).length_init hpath
  have hnot : ¬ ({ r with phase := .awaitingUnmapInvalidation } : MappingRecord).Mapped := by
    intro hm
    obtain hm | hm := hm <;> cases hm
  refine h.setSlot howned ?_ (fun s hs => ?_) (fun s hs slot' r₂ hne hr₂ heq => ?_)
    (fun slot' r₂ hne hr₂ => update_of_ne (fun heq => ?_) _ _) fun path _ => ?_
  · exact h.tree.write_leaf htab hlen hcleared hsame (update_self ..)
      fun q hq => update_of_ne hq _ _
  · rw [hnew] at hs
    cases hs
    exact ⟨{ h.shape hr with cleanup_of_mapped := fun hm => absurd hm hnot },
      fun hm => absurd hm hnot, fun hm => absurd hm hnot, h.chain hr⟩
  · rw [hnew] at hs
    cases hs
    exact hne (h.distinct hr₂ hr heq)
  · exact hne (h.distinct hr₂ hr ((h.shape hr₂).iova_eq (h.shape hr) (heq.trans hpath.symm)))
  · by_cases hpe : path = p ++ [i]
    · exact .inl (hpe ▸ update_self ..)
    · refine .inr ⟨update_of_ne hpe _ _, fun s hs _ heq => hpe ?_⟩
      rw [← heq, at_inj hr hs, hpath]

/-- Writing the leaf of a new record. -/
theorem publish (hfree : (slpt.slots slot).record = none) (hnew : new.record = some r)
    (hmap : r.Mapped) (hshape : r.Shape slpt.levels)
    (hdist : ∀ slot' r', slpt.At slot' r' → r'.iova ≠ r.iova)
    (hlive : ∀ j < slpt.levels, T (r.path.indices.take j) = r.path.frames[j]?)
    (htab : T p = some table) (hpath : r.path.indices = p ++ [i])
    (howned : ∀ {q f}, T q = some f → V.owned m' f) (hval : V.entry m' table i = r.leaf)
    (hsame : ∀ {q f}, T q = some f → ∀ j, (f = table → j ≠ i) → V.entry m' f j = V.entry m f j) :
    Sound V T (update leaves (p ++ [i]) r.leaf) (slpt.setSlot slot new) m' := by
  refine h.setSlot howned ?_ (fun s hs => ?_) (fun s hs slot' r₂ _ hr₂ => ?_)
    (fun slot' r₂ _ hr₂ => update_of_ne (fun heq => ?_) _ _) fun path hpaths => .inr ⟨?_, ?_⟩
  · exact h.tree.write_leaf htab (hshape.length_init hpath) hval hsame (update_self ..)
      fun q hq => update_of_ne hq _ _
  · rw [hnew] at hs
    cases hs
    refine ⟨hshape, fun _ => by rw [hpath, update_self], fun _ => hlive, fun hj _ _ k hk => ?_⟩
    exact hlive k (by omega)
  · rw [hnew] at hs
    cases hs
    exact hdist slot' r₂ hr₂
  · exact hdist slot' r₂ hr₂ ((h.shape hr₂).iova_eq hshape (heq.trans hpath.symm))
  · refine update_of_ne ?_ _ _
    rintro rfl
    exact hpaths r hnew hmap hpath
  · intro s hs
    simp [Slpt.At, hfree] at hs

end

end Sound

/-! ### Translation -/

/-- The translation of an address by the tables, as the hardware walks them: a present
entry grants the permissions granted all the way to it. The result is the page and its
permissions. -/
def translateFrom (entry : SlptFrame → ℕ → ℕ) : List ℕ → SlptFrame → ℕ → Option (ℕ × ℕ)
  | [], _, _ => none
  | [i], f, granted =>
    let permissions := granted &&& (entry f i &&& permissionMask)
    if permissions = 0 then none else some (entry f i &&& physicalPageMask, permissions)
  | i :: j :: rest, f, granted =>
    (nextTable (entry f i)).bind fun next =>
      translateFrom entry (j :: rest) next (granted &&& (entry f i &&& permissionMask))

def translate (V : View μ) (slpt : Slpt n) (m : μ) (iova : ℕ) : Option (ℕ × ℕ) :=
  translateFrom (V.entry m) (indices slpt.levels iova) slpt.root permissionMask

/-- What the ledger says about an address: the page and permissions of the mapped record
for it. -/
def ledger (slpt : Slpt n) (iova : ℕ) : Option (ℕ × ℕ) :=
  ((List.finRange n).find? fun slot =>
    (slpt.slots slot).record.any fun r => r.Mapped ∧ r.iova = iova).bind fun slot =>
      (slpt.slots slot).record.map fun r => (r.physicalAddress, r.leaf &&& permissionMask)

/-- What a leaf entry translates to. -/
def leafTarget (entry : ℕ) : Option (ℕ × ℕ) :=
  if entry &&& permissionMask = 0 then none
  else some (entry &&& physicalPageMask, entry &&& permissionMask)

section Translation

variable {V : View μ} {T : Layout SlptFrame} {leaves : List ℕ → ℕ} {slpt : Slpt n} {m : μ}
  {r : MappingRecord} {iova : ℕ}

theorem and_granted (entry : ℕ) :
    permissionMask &&& (entry &&& permissionMask) = entry &&& permissionMask := by
  rw [Nat.and_comm entry, ← Nat.and_assoc, Nat.and_self]

/-- Inner entries grant everything, so the leaf decides. -/
theorem translateFrom_eq {entry : SlptFrame → ℕ → ℕ}
    (h : Represents levels entriesPerTable link leaves entry T) (rest pre : List ℕ)
    (f : SlptFrame) (hf : T pre = some f) (hlen : pre.length + rest.length = levels)
    (hlt : ∀ i ∈ rest, i < entriesPerTable) :
    translateFrom entry rest f permissionMask = (walk nextTable entry rest f).bind leafTarget := by
  induction rest generalizing pre f with
  | nil => rfl
  | cons i rest ih =>
    cases rest with
    | nil =>
      rw [translateFrom, walk, Option.bind_some, leafTarget, and_granted]
    | cons =>
      simp only [length_cons] at hlen
      have hent := h.node hf (by omega) (hlt i mem_cons_self)
      rw [translateFrom, walk, hent, nextTable_link]
      cases hch : T (pre ++ [i]) with
      | none => rfl
      | some child =>
        simp only [link, pointer_and_permissions]
        refine ih (pre ++ [i]) child hch ?_ fun k hk => hlt k (mem_cons_of_mem _ hk)
        simp only [length_append, length_cons, length_nil]
        omega

theorem MappingRecord.Shape.leaf_target (h : r.Shape levels) :
    leafTarget r.leaf = some (r.physicalAddress, r.leaf &&& permissionMask) := by
  obtain ⟨bits, hpos, hlt, hleaf⟩ := h.leaf_eq
  have halign : r.physicalAddress % 4096 = 0 := h.physical_aligned
  have hsum : r.leaf = r.physicalAddress + bits := by
    rw [hleaf, add_of_or halign (by omega)]
  have hbits : r.leaf &&& permissionMask ≠ 0 := by
    rw [and_permissionMask, hsum]
    omega
  rw [leafTarget, if_neg hbits]
  rw [hsum, and_physicalPageMask halign h.physical_lt (by omega)]

theorem ledger_of_mapped (h : Sound V T leaves slpt m) {slot : Fin n}
    (hr : slpt.At slot r) (hmap : r.Mapped) :
    ledger slpt r.iova = some (r.physicalAddress, r.leaf &&& permissionMask) := by
  have hfind : (finRange n).find? (fun slot =>
      (slpt.slots slot).record.any fun r' => r'.Mapped ∧ r'.iova = r.iova) = some slot := by
    have hsome : ((finRange n).find? (fun slot =>
        (slpt.slots slot).record.any fun r' => r'.Mapped ∧ r'.iova = r.iova)).isSome := by
      rw [find?_isSome]
      refine ⟨slot, mem_finRange slot, ?_⟩
      rw [hr]
      simpa using hmap
    obtain ⟨slot', hslot'⟩ := Option.isSome_iff_exists.mp hsome
    have hprop := find?_some hslot'
    rw [hslot']
    cases hrec : (slpt.slots slot').record with
    | none => simp [hrec] at hprop
    | some =>
      simp only [hrec, Option.any_some, decide_eq_true_eq] at hprop
      rw [h.distinct hrec hr hprop.2]
  rw [ledger, hfind, Option.bind_some, hr, Option.map_some]

theorem ledger_of_unmapped
    (h : ∀ slot r, slpt.At slot r → r.Mapped → r.iova ≠ iova) : ledger slpt iova = none := by
  have hfind : (finRange n).find? (fun slot =>
      (slpt.slots slot).record.any fun r => r.Mapped ∧ r.iova = iova) = none := by
    rw [find?_eq_none]
    intro slot _ hslot
    cases hrec : (slpt.slots slot).record with
    | none => simp [hrec] at hslot
    | some r =>
      simp only [hrec, Option.any_some, decide_eq_true_eq] at hslot
      exact h slot r hrec hslot.1 hslot.2
  rw [ledger, hfind, Option.bind_none]

/-- In a sound state the tables translate an address as the ledger says. -/
theorem Sound.translate_eq_ledger (h : Sound V T leaves slpt m) (halign : iova % pageSize = 0)
    (hlt : iova < 2 ^ slpt.adjustedWidth) : translate V slpt m iova = ledger slpt iova := by
  rw [h.width_eq] at hlt
  have hlen := length_indices slpt.levels iova
  have hge := h.levels_ge
  have hidx : ∀ i ∈ indices slpt.levels iova, i < entriesPerTable := by
    intro i hi
    rw [indices, mem_map] at hi
    obtain ⟨position, -, rfl⟩ := hi
    exact indexAt_lt _ _ _
  have hne : indices slpt.levels iova ≠ [] := by
    intro hnil
    rw [hnil] at hlen
    simp at hlen
    omega
  rw [translate, translateFrom_eq h.tree _ [] _ h.root (by simpa using hlen) hidx,
    h.tree.walk_root nextTable_link h.root hlen hne hidx]
  by_cases hex : ∃ slot r, slpt.At slot r ∧ r.Mapped ∧ r.iova = iova
  · obtain ⟨slot, r, hr, hmap, rfl⟩ := hex
    have hshape := h.shape hr
    have hlive := h.live hr hmap (slpt.levels - 1) (by omega)
    have hsome : (T (indices slpt.levels r.iova).dropLast).isSome := by
      rw [dropLast_eq_take, hlen, ← hshape.indices_eq, hlive,
        getElem?_eq_getElem (by rw [hshape.frames_length]; omega)]
      rfl
    rw [if_pos hsome, Option.bind_some, ← hshape.indices_eq, h.leaf_of_mapped hr hmap,
      hshape.leaf_target, ledger_of_mapped h hr hmap]
  · rw [ledger_of_unmapped fun slot r hr hmap heq => hex ⟨slot, r, hr, hmap, heq⟩]
    have hzero : leaves (indices slpt.levels iova) = 0 := by
      apply h.leaf_of_unmapped
      intro slot r hr hmap heq
      have hshape := h.shape hr
      rw [hshape.indices_eq] at heq
      exact hex ⟨slot, r, hr, hmap,
        indices_injective hshape.iova_aligned halign hshape.iova_lt hlt heq⟩
    split
    · rw [hzero]
      rfl
    · rfl

end Translation

end ArachKernel.Vtd
