import Mathlib.Data.Finset.Card
import Mathlib.Data.Finset.Range
import Mathlib.Logic.Function.Basic

/-!
A bitmap in 64-bit words. A write to one bit is read back at that bit and at no other one,
so the clear bits lose or gain just that bit.
-/

namespace ArachKernel

open BitVec Function

/-- The words of a bitmap by their index. -/
abbrev Bitmap : Type := ℕ → BitVec 64

namespace Bitmap

variable {bitmap : Bitmap}

def bitIsSet (bitmap : Bitmap) (bit : ℕ) : Bool :=
  bitmap (bit / 64) &&& (1#64 <<< (bit % 64)) != 0#64

def setBit (bitmap : Bitmap) (bit : ℕ) (value : Bool) : Bitmap :=
  let word := bitmap (bit / 64)
  let mask := 1#64 <<< (bit % 64)
  update bitmap (bit / 64) (if value then word ||| mask else word &&& ~~~mask)

theorem getLsbD_mask {i j : ℕ} (hj : j < 64) : (1#64 <<< i).getLsbD j = decide (j = i) := by
  by_cases hji : j = i
  · subst hji
    simp [hj]
  · simp only [hji]
    by_cases hlt : j < i
    · simp [hlt]
    · have hpos : j - i ≠ 0 := by omega
      simp [hpos]

theorem bitIsSet_eq (bitmap : Bitmap) (bit : ℕ) :
    bitIsSet bitmap bit = (bitmap (bit / 64)).getLsbD (bit % 64) := by
  have hlt : bit % 64 < 64 := Nat.mod_lt _ (by decide)
  cases hbit : (bitmap (bit / 64)).getLsbD (bit % 64) with
  | false =>
    have hzero : bitmap (bit / 64) &&& (1#64 <<< (bit % 64)) = 0#64 := by
      apply eq_of_getLsbD_eq
      intro j hj
      rw [getLsbD_and, getLsbD_mask hj, getLsbD_zero]
      by_cases hji : j = bit % 64
      · rw [hji, hbit, Bool.false_and]
      · simp [hji]
    simp [bitIsSet, hzero]
  | true =>
    have hne : bitmap (bit / 64) &&& (1#64 <<< (bit % 64)) ≠ 0#64 := by
      intro hzero
      have hread := congrArg (fun word => word.getLsbD (bit % 64)) hzero
      simp only [getLsbD_and, getLsbD_mask hlt, hbit, getLsbD_zero] at hread
      simp at hread
    simp [bitIsSet, hne]

/-- A write is read back at its bit only. -/
@[simp] theorem bitIsSet_setBit (bit other : ℕ) (value : Bool) :
    bitIsSet (setBit bitmap bit value) other =
      if other = bit then value else bitIsSet bitmap other := by
  have hlt : other % 64 < 64 := Nat.mod_lt _ (by decide)
  rw [bitIsSet_eq, bitIsSet_eq, setBit]
  by_cases hword : other / 64 = bit / 64
  · rw [hword, update_self]
    have hiff : other % 64 = bit % 64 ↔ other = bit := by omega
    cases value with
    | true =>
      rw [if_pos rfl, getLsbD_or, getLsbD_mask hlt]
      by_cases hbit : other = bit
      · simp [hbit]
      · simp [hiff, hbit]
    | false =>
      rw [if_neg Bool.false_ne_true, getLsbD_and, getLsbD_not, getLsbD_mask hlt]
      by_cases hbit : other = bit
      · simp [hbit]
      · simp [hiff, hbit, hlt]
  · rw [update_of_ne hword, if_neg (fun h => hword (by rw [h]))]

theorem bitIsSet_foldl_setBit (bits : List ℕ) (other : ℕ) (value : Bool) :
    bitIsSet (bits.foldl (setBit · · value) bitmap) other =
      if other ∈ bits then value else bitIsSet bitmap other := by
  induction bits generalizing bitmap with
  | nil => simp
  | cons bit bits ih =>
    rw [List.foldl_cons, ih, bitIsSet_setBit]
    by_cases hbit : other = bit
    · simp [hbit]
    · simp [hbit]

/-- The clear bits below a bound. -/
def clear (bitmap : Bitmap) (bound : ℕ) : Finset ℕ :=
  (Finset.range bound).filter fun bit => bitIsSet bitmap bit = false

@[simp] theorem mem_clear {bound bit : ℕ} :
    bit ∈ clear bitmap bound ↔ bit < bound ∧ bitIsSet bitmap bit = false := by
  simp [clear]

theorem clear_setBit_true (bound bit : ℕ) :
    clear (setBit bitmap bit true) bound = (clear bitmap bound).erase bit := by
  ext other
  by_cases hoth : other = bit
  · simp [hoth]
  · simp [hoth]

theorem clear_setBit_false {bound bit : ℕ} (hbit : bit < bound) :
    clear (setBit bitmap bit false) bound = insert bit (clear bitmap bound) := by
  ext other
  by_cases hoth : other = bit
  · simp [hoth, hbit]
  · simp [hoth]

/-- The first `length` clear bits in a row, sought among the next `count` bits from `bit` on.
The last `run` bits before `bit` are clear, from `start` on. -/
def findRun (bitmap : Bitmap) (length : ℕ) : ℕ → ℕ → ℕ → ℕ → Option ℕ
  | 0, _, _, _ => none
  | count + 1, bit, start, run =>
    if bitIsSet bitmap bit then findRun bitmap length count (bit + 1) start 0
    else
      let start := if run = 0 then bit else start
      if run + 1 = length then some start
      else findRun bitmap length count (bit + 1) start (run + 1)

variable {length count bit start run first : ℕ}

theorem findRun_some (h : findRun bitmap length count bit start run = some first)
    (hstart : run ≠ 0 → start + run = bit)
    (hrun : ∀ other, bit ≤ other + run → other < bit → bitIsSet bitmap other = false) :
    first + length ≤ bit + count ∧
      ∀ other, first ≤ other → other < first + length → bitIsSet bitmap other = false := by
  induction count generalizing bit start run with
  | zero => cases h
  | succ count ih =>
    rw [findRun] at h
    split at h
    · obtain ⟨hle, hclr⟩ := ih h (absurd rfl) (by omega)
      exact ⟨by omega, hclr⟩
    next hbit =>
    have hnext : (if run = 0 then bit else start) + (run + 1) = bit + 1 := by
      split <;> omega
    have hclr : ∀ other, bit ≤ other + run → other < bit + 1 → bitIsSet bitmap other = false := by
      intro other hoth hlt
      rcases Nat.lt_succ_iff_lt_or_eq.mp hlt with hlt | rfl
      · exact hrun other hoth hlt
      · exact Bool.not_eq_true _ ▸ hbit
    dsimp only at h
    split at h
    · cases h
      exact ⟨by omega, fun other hoth hlt => hclr other (by omega) (by omega)⟩
    · obtain ⟨hle, hclr⟩ := ih h (fun _ => hnext) fun other hoth => hclr other (by omega)
      exact ⟨by omega, hclr⟩

/-- A search fails only if every run has a bit that is set. -/
theorem findRun_none (h : findRun bitmap length count bit start run = none) (hrun : run < length)
    (hset : ∀ first, first + run < bit →
      ∃ other, first ≤ other ∧ other < first + length ∧ bitIsSet bitmap other)
    (hfst : first + length ≤ bit + count) :
    ∃ other, first ≤ other ∧ other < first + length ∧ bitIsSet bitmap other := by
  induction count generalizing bit start run with
  | zero => exact hset first (by omega)
  | succ count ih =>
    rw [findRun] at h
    split at h
    next hbit =>
      refine ih h (by omega) (fun first hlt => ?_) (by omega)
      by_cases hfst : first + run < bit
      · exact hset first hfst
      · exact ⟨bit, by omega, by omega, hbit⟩
    · dsimp only at h
      split at h
      · cases h
      · exact ih h (by omega) (fun first hlt => hset first (by omega)) (by omega)

end Bitmap

end ArachKernel
