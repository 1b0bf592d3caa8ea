import Mathlib.Algebra.Ring.Nat
import Mathlib.Data.Nat.Bitwise
import Mathlib.Tactic.Ring

/-!
Machine words: natural numbers, with the overflow checks written out. Rounding to a multiple
of a power of two clears the low bits with a mask; here that is division and multiplication
again.
-/

namespace ArachKernel

def u16Max : ℕ := 2 ^ 16 - 1
def u32Max : ℕ := 2 ^ 32 - 1
def u64Max : ℕ := 2 ^ 64 - 1

/-- `checked_add` of an unsigned word with the given maximum. -/
def checkedAdd (maximum a b : ℕ) : Option ℕ := if a + b ≤ maximum then some (a + b) else none

theorem checkedAdd_eq_some {maximum a b c : ℕ} :
    checkedAdd maximum a b = some c ↔ a + b ≤ maximum ∧ c = a + b := by
  simp only [checkedAdd]
  split
  · simp only [Option.some.injEq]
    omega
  · simp only [reduceCtorEq, false_iff]
    omega

/-- `value & !(alignment - 1)` for 64-bit words. -/
def alignDown (value alignment : ℕ) : ℕ := value &&& (u64Max - (alignment - 1))

/-- The same after a checked addition. -/
def alignUp (value alignment : ℕ) : Option ℕ :=
  (checkedAdd u64Max value (alignment - 1)).map (alignDown · alignment)

/-- The mask keeps the bits from `k` on. -/
theorem testBit_mask {k i : ℕ} (hk : k ≤ 64) :
    (u64Max - (2 ^ k - 1)).testBit i = (decide (k ≤ i) && decide (i < 64)) := by
  have hmask : u64Max - (2 ^ k - 1) = 2 ^ k * (2 ^ (64 - k) - 1) := by
    have hsplit : 2 ^ k * 2 ^ (64 - k) = 2 ^ 64 := by
      rw [← Nat.pow_add, Nat.add_sub_cancel' hk]
    have hpos := Nat.two_pow_pos k
    rw [Nat.mul_sub, hsplit, Nat.mul_one, u64Max]
    omega
  rw [hmask, Nat.testBit_two_pow_mul]
  by_cases hi : k ≤ i
  · have hiff : i - k < 64 - k ↔ i < 64 := by omega
    simp [hiff]
  · simp [hi]

variable {value k : ℕ}

theorem alignDown_eq (hval : value ≤ u64Max) (hk : k ≤ 64) :
    alignDown value (2 ^ k) = 2 ^ k * (value / 2 ^ k) := by
  have hlt : value < 2 ^ 64 := by
    rw [u64Max] at hval
    omega
  refine Nat.eq_of_testBit_eq fun i => ?_
  rw [alignDown, Nat.testBit_and, testBit_mask hk, Nat.testBit_two_pow_mul, Nat.testBit_div_two_pow]
  by_cases hi : k ≤ i
  · have hsum : i - k + k = i := Nat.sub_add_cancel hi
    rw [hsum]
    by_cases h64 : i < 64
    · simp [hi, h64]
    · have hzero : value.testBit i = false :=
        Nat.testBit_lt_two_pow (hlt.trans_le (Nat.pow_le_pow_right (by decide) (not_lt.mp h64)))
      simp [hzero]
  · simp [hi]

theorem alignDown_le (hval : value ≤ u64Max) (hk : k ≤ 64) : alignDown value (2 ^ k) ≤ value := by
  rw [alignDown_eq hval hk]
  exact Nat.mul_div_le value (2 ^ k)

/-- What a successful rounding gives. -/
theorem alignUp_eq_some {rounded : ℕ} (hk : k ≤ 64) (h : alignUp value (2 ^ k) = some rounded) :
    value ≤ rounded ∧ rounded < value + 2 ^ k ∧ 2 ^ k ∣ rounded := by
  obtain ⟨sum, hsum, hrounded⟩ := Option.map_eq_some_iff.mp h
  obtain ⟨hle, rfl⟩ := checkedAdd_eq_some.mp hsum
  rw [alignDown_eq hle hk] at hrounded
  subst hrounded
  have hdiv := Nat.div_add_mod (value + (2 ^ k - 1)) (2 ^ k)
  exact ⟨by omega, by omega, Dvd.intro _ rfl⟩

theorem alignUp_eq_none (h : alignUp value (2 ^ k) = none) : u64Max < value + (2 ^ k - 1) := by
  by_contra hle
  simp [alignUp, checkedAdd, if_pos (not_lt.mp hle)] at h

/-- Rounding succeeds below a multiple that is a word, and does not pass it. -/
theorem exists_alignUp_le {other : ℕ} (hk : k ≤ 64) (hdvd : 2 ^ k ∣ other) (hle : value ≤ other)
    (hmax : other ≤ u64Max) :
    ∃ rounded, alignUp value (2 ^ k) = some rounded ∧ rounded ≤ other := by
  rw [u64Max] at hmax
  cases hup : alignUp value (2 ^ k) with
  | none =>
    have hlarge := alignUp_eq_none hup
    have hgap := Nat.le_of_dvd (by omega) (Nat.dvd_sub (Nat.pow_dvd_pow 2 hk) hdvd)
    rw [u64Max] at hlarge
    omega
  | some rounded =>
    obtain ⟨_, hlt, hdvd'⟩ := alignUp_eq_some hk hup
    refine ⟨rounded, rfl, not_lt.mp fun hpast => ?_⟩
    have hgap := Nat.le_of_dvd (by omega) (Nat.dvd_sub hdvd' hdvd)
    omega

end ArachKernel
