import ArachKernel.Syscalls.UserCopy

/-!
What the page tables map. `Maps m root write address physical` is the hardware's reading
of the four levels: every entry is present and of the user, and writable where the access
writes. A successful walk of the kernel finds exactly such a mapping, and one mapping
serves the whole page.
-/

namespace ArachKernel.Syscalls

open Process List

/-- The entry of a table in memory. -/
def entryAt (m : Memory) (table : Word) (index : ℕ) : Word :=
  readVolatile m (table.toNat + index * 8)

def frameOf (entry : Word) : Word := entry &&& pageAddressMask

/-- The entry admits the access. -/
structure Grants (write : Bool) (entry : Word) : Prop where
  present : entry.getLsbD 0
  user : entry.getLsbD 2
  writable : write → entry.getLsbD 1

/-- The entry that a walk finds in a table: it lies within the direct map and admits the
access. -/
structure Level (m : Memory) (write : Bool) (table : Word) (index : ℕ) (entry : Word) : Prop where
  found : entryAt m table index = entry
  direct : table.toNat + index * 8 + 8 ≤ earlyMappedPhysicalLimit
  grants : Grants write entry

/-- The four levels map the address to the physical byte. -/
def Maps (m : Memory) (root : Word) (write : Bool) (address : Word) (physical : ℕ) : Prop :=
  ∃ pml4 pdpt pd pt, Level m write root (tableIndex address 39) pml4 ∧
    Level m write (frameOf pml4) (tableIndex address 30) pdpt ∧
    Level m write (frameOf pdpt) (tableIndex address 21) pd ∧
    Level m write (frameOf pd) (tableIndex address 12) pt ∧
    pml4.getLsbD 7 = false ∧ pdpt.getLsbD 7 = false ∧ pd.getLsbD 7 = false ∧
    physical = (frameOf pt).toNat + address.toNat % pageSize

variable {m : Memory} {write : Bool} {root table entry address other : Word} {index physical : ℕ}

/-! ### The checks of the kernel -/

theorem readActiveEntry_some (h : readActiveEntry m table index = some entry) :
    entryAt m table index = entry ∧ table.toNat + index * 8 + 8 ≤ earlyMappedPhysicalLimit := by
  unfold readActiveEntry at h
  split at h
  · cases h
  split at h
  · cases h
  next hbase =>
  split at h
  · cases h
  next htop =>
  split at h
  · cases h
  next hlim =>
  obtain ⟨_, _, heq⟩ := Option.map_eq_some_iff.mp h
  rw [(checkedAdd_eq_some.mp htop).2] at hlim
  rw [(checkedAdd_eq_some.mp hbase).2] at heq hlim
  exact ⟨heq, not_lt.mp hlim⟩

theorem and_twoPow_eq_zero (entry : Word) (i : ℕ) (hi : i < 64) :
    entry &&& BitVec.twoPow 64 i = 0 ↔ entry.getLsbD i = false := by
  rw [BitVec.and_twoPow]
  cases hbit : entry.getLsbD i with
  | false => simp
  | true =>
    simp only [if_true, Bool.true_eq_false, iff_false]
    intro hzero
    simpa [hi] using congrArg (fun word => BitVec.getLsbD word i) hzero

theorem checkEntry_ok (h : checkEntry write entry = .ok ()) : Grants write entry := by
  unfold checkEntry at h
  split at h
  · cases h
  next hmask =>
  split at h
  · cases h
  next hwrite =>
  rw [not_not] at hmask
  refine ⟨?_, ?_, fun hw => ?_⟩
  · have hbit := congrArg (fun word => BitVec.getLsbD word 0) hmask
    simpa [entryPresent, entryUser] using hbit
  · have hbit := congrArg (fun word => BitVec.getLsbD word 2) hmask
    simpa [entryPresent, entryUser] using hbit
  · by_contra hbit
    rw [Bool.not_eq_true, ← and_twoPow_eq_zero entry 1 (by decide)] at hbit
    exact hwrite ⟨hw, hbit⟩

theorem nextTable_ok {next : Word}
    (h : nextTable write (readActiveEntry m) table index = .ok next) :
    ∃ entry, Level m write table index entry ∧ entry.getLsbD 7 = false ∧ next = frameOf entry := by
  unfold nextTable at h
  split at h
  next entry hread =>
    obtain ⟨hfound, hdirect⟩ := readActiveEntry_some hread
    cases hcheck : checkEntry write entry with
    | error =>
      rw [hcheck] at h
      cases h
    | ok =>
      rw [hcheck] at h
      split at h
      · cases h
      next hhuge =>
        cases h
        rw [not_not] at hhuge
        exact ⟨entry, ⟨hfound, hdirect, checkEntry_ok hcheck⟩,
          (and_twoPow_eq_zero entry 7 (by decide)).mp hhuge, rfl⟩
  · cases h

/-! ### Pages -/

theorem tableIndex_eq (address : Word) (shift : ℕ) :
    tableIndex address shift = address.toNat / 2 ^ shift % 512 := by
  have hmask : (0x1ff : Word).toNat = 2 ^ 9 - 1 := rfl
  rw [tableIndex, BitVec.toNat_and, BitVec.toNat_ushiftRight, hmask, Nat.and_two_pow_sub_one_eq_mod,
    Nat.shiftRight_eq_div_pow]

/-- Addresses of one page have the same index at every level. -/
theorem tableIndex_congr (h : other.toNat / pageSize = address.toNat / pageSize)
    {shift : ℕ} (hshift : 12 ≤ shift) : tableIndex other shift = tableIndex address shift := by
  obtain ⟨k, rfl⟩ := Nat.exists_eq_add_of_le hshift
  rw [tableIndex_eq, tableIndex_eq, Nat.pow_add, ← Nat.div_div_eq_div_mul, ← Nat.div_div_eq_div_mul]
  have hpage : (2 : ℕ) ^ 12 = pageSize := rfl
  rw [hpage, h]

theorem frameOf_mod (entry : Word) : (frameOf entry).toNat % pageSize = 0 := by
  have hlow : frameOf entry &&& 0xfff = 0 := by
    rw [frameOf, BitVec.and_assoc]
    have hmask : pageAddressMask &&& 0xfff = 0#64 := by decide
    rw [hmask]
    exact BitVec.and_zero
  have hnat := congrArg BitVec.toNat hlow
  have hmask : (0xfff : Word).toNat = 2 ^ 12 - 1 := rfl
  rwa [BitVec.toNat_and, hmask, Nat.and_two_pow_sub_one_eq_mod] at hnat

/-- The frame and the offset share no bit. -/
theorem frameOf_or (entry address : Word) : (frameOf entry ||| address &&& 0xfff).toNat =
      (frameOf entry).toNat + address.toNat % pageSize := by
  have hmask : (0xfff : Word).toNat = 2 ^ 12 - 1 := rfl
  have hoff : (address &&& 0xfff).toNat = address.toNat % 2 ^ 12 := by
    rw [BitVec.toNat_and, hmask, Nat.and_two_pow_sub_one_eq_mod]
  obtain ⟨k, hk⟩ := Nat.dvd_of_mod_eq_zero (frameOf_mod entry)
  have hpage : pageSize = 2 ^ 12 := rfl
  rw [BitVec.toNat_or, hoff, hk, hpage, Nat.two_pow_add_eq_or_of_lt (Nat.mod_lt _ (by decide))]

theorem translate_ok {translated : Word}
    (h : translateUserAddressWithAccess root address write (readActiveEntry m) = .ok translated) :
    Maps m root write address translated.toNat := by
  unfold translateUserAddressWithAccess at h
  dsimp only [bind, Except.bind] at h
  split at h
  · cases h
  split at h
  · cases h
  split at h
  · cases h
  next h₃ =>
  split at h
  · cases h
  next h₂ =>
  split at h
  · cases h
  next h₁ =>
  split at h
  next leaf hleaf =>
    split at h
    · cases h
    next hcheck =>
    cases h
    obtain ⟨pml4, hpml4, hhuge4, rfl⟩ := nextTable_ok h₃
    obtain ⟨pdpt, hpdpt, hhuge3, rfl⟩ := nextTable_ok h₂
    obtain ⟨pd, hpd, hhuge2, rfl⟩ := nextTable_ok h₁
    obtain ⟨hfound, hdirect⟩ := readActiveEntry_some hleaf
    exact ⟨pml4, pdpt, pd, leaf, hpml4, hpdpt, hpd, ⟨hfound, hdirect, checkEntry_ok hcheck⟩,
      hhuge4, hhuge3, hhuge2, frameOf_or leaf address⟩
  · cases h

section

variable (h : Maps m root write address physical)
include h

/-- An address is mapped to one place. -/
theorem Maps.unique {other : ℕ} (hoth : Maps m root write address other) : physical = other := by
  obtain ⟨pml4, pdpt, pd, pt, h4, h3, h2, h1, _, _, _, rfl⟩ := h
  obtain ⟨pml4', pdpt', pd', pt', h4', h3', h2', h1', _, _, _, rfl⟩ := hoth
  obtain rfl := h4.found.symm.trans h4'.found
  obtain rfl := h3.found.symm.trans h3'.found
  obtain rfl := h2.found.symm.trans h2'.found
  obtain rfl := h1.found.symm.trans h1'.found
  rfl

/-- A mapping serves the whole page. -/
theorem Maps.page (hoth : other.toNat / pageSize = address.toNat / pageSize) :
    Maps m root write other (physical - address.toNat % pageSize + other.toNat % pageSize) := by
  obtain ⟨pml4, pdpt, pd, pt, h4, h3, h2, h1, hhuge4, hhuge3, hhuge2, rfl⟩ := h
  refine ⟨pml4, pdpt, pd, pt, ?_, ?_, ?_, ?_, hhuge4, hhuge3, hhuge2, ?_⟩
  · rwa [tableIndex_congr hoth (by decide)]
  · rwa [tableIndex_congr hoth (by decide)]
  · rwa [tableIndex_congr hoth (by decide)]
  · rwa [tableIndex_congr hoth (by decide)]
  · rw [Nat.add_sub_cancel]

theorem Maps.offset_le : address.toNat % pageSize ≤ physical := by
  obtain ⟨_, _, _, _, _, _, _, _, _, _, _, rfl⟩ := h
  exact Nat.le_add_left _ _

/-- The bytes of a page follow one another in memory. -/
theorem Maps.add {i : ℕ}
    (hpage : address.toNat % pageSize + i < pageSize) (hfits : address.toNat + i < 2 ^ 64) :
    Maps m root write (address + BitVec.ofNat 64 i) (physical + i) := by
  have hi : i < 2 ^ 64 := (Nat.le_add_left i address.toNat).trans_lt hfits
  have hnat : (address + BitVec.ofNat 64 i).toNat = address.toNat + i := by
    rw [BitVec.toNat_add, BitVec.toNat_ofNat, Nat.mod_eq_of_lt hi, Nat.mod_eq_of_lt hfits]
  have hsize : pageSize = 4096 := rfl
  have hdiv : (address + BitVec.ofNat 64 i).toNat / pageSize = address.toNat / pageSize := by
    rw [hsize] at hpage ⊢
    omega
  have hmod : (address + BitVec.ofNat 64 i).toNat % pageSize = address.toNat % pageSize + i := by
    rw [hsize] at hpage ⊢
    omega
  have hle := h.offset_le
  have hmaps := h.page hdiv
  rwa [hmod, ← Nat.add_assoc, Nat.sub_add_cancel hle] at hmaps

end

/-! ### The entries a walk depends on -/

/-- The places of the entries that a walk reads from a table on, down the given levels. -/
def entriesFrom (m : Memory) (write : Bool) (address : Word) : List ℕ → Word → List ℕ
  | [], _ => []
  | shift :: shifts, table =>
    (table.toNat + tableIndex address shift * 8) ::
      match nextTable write (readActiveEntry m) table (tableIndex address shift) with
      | .ok next => entriesFrom m write address shifts next
      | .error _ => []

/-- The places of the entries that the walk of an address reads. -/
def entriesWalked (m : Memory) (root : Word) (write : Bool) (address : Word) : List ℕ :=
  entriesFrom m write address [39, 30, 21, 12] root

/-- The bytes of the entry at `e` are the same in both memories. -/
def SameEntry (m m' : Memory) (e : ℕ) : Prop := ∀ k < 8, m' (e + k) = m (e + k)

variable {m' : Memory}

theorem readActiveEntry_congr (h : SameEntry m m' (table.toNat + index * 8)) :
    readActiveEntry m' table index = readActiveEntry m table index := by
  have hvolatile : readVolatile m' (table.toNat + index * 8) =
      readVolatile m (table.toNat + index * 8) :=
    foldr_ext _ _ _ fun i hi word => by rw [h i (mem_range.mp hi)]
  unfold readActiveEntry
  split
  · rfl
  split
  · rfl
  next hbase =>
  rw [(checkedAdd_eq_some.mp hbase).2, hvolatile]

/-- One level of a walk. -/
theorem nextTable_bind_congr {shift : ℕ} {shifts : List ℕ} {f f' : Word → Except UserCopyError Word}
    (h : ∀ e ∈ entriesFrom m write address (shift :: shifts) table, SameEntry m m' e)
    (hf : ∀ next, (∀ e ∈ entriesFrom m write address shifts next, SameEntry m m' e) →
      f' next = f next) :
    (nextTable write (readActiveEntry m') table (tableIndex address shift) >>= f') =
      (nextTable write (readActiveEntry m) table (tableIndex address shift) >>= f) := by
  rw [entriesFrom, forall_mem_cons] at h
  obtain ⟨hentry, hrest⟩ := h
  rw [nextTable, readActiveEntry_congr hentry, ← nextTable]
  cases hnext : nextTable write (readActiveEntry m) table (tableIndex address shift) with
  | error => rfl
  | ok next =>
    rw [hnext] at hrest
    exact hf next hrest

/-- A walk depends only on the entries it reads. -/
theorem translate_congr (h : ∀ e ∈ entriesWalked m root write address, SameEntry m m' e) :
    translateUserAddressWithAccess root address write (readActiveEntry m') =
      translateUserAddressWithAccess root address write (readActiveEntry m) := by
  unfold translateUserAddressWithAccess
  dsimp only
  split
  · show Except.error _ = .error _
    rfl
  split
  · show Except.error _ = .error _
    rfl
  refine nextTable_bind_congr h fun _ h => nextTable_bind_congr h fun _ h =>
    nextTable_bind_congr h fun _ h => ?_
  rw [readActiveEntry_congr (h _ mem_cons_self)]

end ArachKernel.Syscalls
