import Mathlib.Algebra.BigOperators.Group.Finset.Piecewise
import Mathlib.Algebra.BigOperators.Fin
import Mathlib.Algebra.Order.BigOperators.Group.Finset
import Mathlib.Tactic.Abel
import Mathlib.Data.Fintype.BigOperators
import Mathlib.Data.Multiset.Count

/-!
Fixed-size tables of slots. A table is a function on `Fin n`; a slot is replaced
with `Function.update`. This file has the first-fit search that every table of
this kind allocates with, and the total of a quantity over all slots together
with the way one replacement changes it.
-/

namespace ArachKernel.Table

open Function Finset

/-- The first index at which `p` holds. -/
def position : {n : ℕ} → (Fin n → Bool) → Option (Fin n)
  | 0, _ => none
  | _ + 1, p => if p 0 then some 0 else (position fun i => p i.succ).map Fin.succ

variable {n : ℕ} {p : Fin n → Bool} {i : Fin n}

theorem position_some (h : position p = some i) : p i := by
  induction n with
  | zero => exact i.elim0
  | succ n ih =>
    rw [position] at h
    split at h
    next h0 =>
      cases h
      exact h0
    · obtain ⟨j, hj, rfl⟩ := Option.map_eq_some_iff.mp h
      exact ih hj

theorem position_none : position p = none ↔ ∀ i, p i = false := by
  induction n with
  | zero => simp [position]
  | succ n ih =>
    rw [position, Fin.forall_fin_succ]
    cases h0 : p 0 <;> simp [ih]

theorem position_isSome (h : p i) : ∃ j, position p = some j := by
  cases hp : position p with
  | none => simp [position_none.mp hp i] at h
  | some j => exact ⟨j, rfl⟩

/-- The first index is the least one. -/
theorem position_le {j : Fin n} (h : position p = some i) (hj : p j) : i ≤ j := by
  induction n with
  | zero => exact i.elim0
  | succ n ih =>
    rw [position] at h
    split at h
    · cases h
      exact Fin.zero_le j
    next h0 =>
    obtain ⟨i, hi, rfl⟩ := Option.map_eq_some_iff.mp h
    have hne : j ≠ 0 := by
      rintro rfl
      exact h0 hj
    obtain ⟨k, rfl⟩ := Fin.exists_succ_eq.mpr hne
    exact Fin.succ_le_succ_iff.mpr (ih hi hj)

theorem position_eq_some (hi : p i) (hmin : ∀ j < i, p j = false) : position p = some i := by
  obtain ⟨j, hj⟩ := position_isSome hi
  rcases eq_or_lt_of_le (position_le hj hi) with rfl | hlt
  · exact hj
  · exact absurd (position_some hj) (by simp [hmin j hlt])

/-- A predicate that only one index can satisfy is found at that index. -/
theorem position_unique (h : p i) (hunique : ∀ j, p j → j = i) : position p = some i := by
  obtain ⟨j, hj⟩ := position_isSome h
  rw [hj, hunique j (position_some hj)]

/-- A replacement keeps what it does not change of the slot. -/
theorem apply_update_of_eq {ι α β : Type*} [DecidableEq ι] {f : α → β} {t : ι → α} {i : ι} {a : α}
    (h : f a = f (t i)) (j : ι) : f (update t i a j) = f (t j) := by
  rw [apply_update (fun _ => f) t i a j, h, update_eq_self_iff.mpr rfl]

/-- The slot that was replaced, and each other one. -/
@[elab_as_elim]
theorem update_cases {ι α : Type*} [DecidableEq ι] {t : ι → α} {i : ι} {a : α}
    {motive : ι → α → Prop} (self : motive i a) (other : ∀ j, j ≠ i → motive j (t j)) (j : ι) :
    motive j (update t i a j) := by
  by_cases hj : j = i
  · rw [hj, update_self]
    exact self
  · rw [update_of_ne hj]
    exact other j hj

/-- The total of `f` over the slots of a table. -/
def total {α M : Type*} [AddCommMonoid M] (f : α → M) (t : Fin n → α) : M := ∑ i, f (t i)

section Total

variable {α M : Type*} [AddCommMonoid M] (f : α → M) (t : Fin n → α)

/-- Replacing one slot moves its contribution from the old value to the new one. -/
theorem total_update (i : Fin n) (a : α) : total f (update t i a) + f (t i) = total f t + f a := by
  have hcomp : (fun j => f (update t i a j)) = update (fun j => f (t j)) i (f a) := by
    funext j
    exact apply_update (fun _ => f) t i a j
  have hsplit : total f t = ∑ j ∈ univ \ {i}, f (t j) + f (t i) :=
    sum_eq_sum_sdiff_singleton_add (mem_univ i) _
  rw [total, hcomp, sum_update_of_mem (mem_univ i), hsplit]
  abel

theorem total_update_of_eq {a : α} (h : f a = f (t i)) : total f (update t i a) = total f t := by
  have hcomp : (fun j => f (update t i a j)) = fun j => f (t j) := funext (apply_update_of_eq h)
  rw [total, hcomp, total]

theorem total_congr {u : Fin n → α} (h : ∀ i, f (t i) = f (u i)) : total f t = total f u :=
  sum_congr rfl fun i _ => h i

theorem total_zero (h : ∀ i, f (t i) = 0) : total f t = 0 := sum_eq_zero fun i _ => h i

end Total

variable {α : Type*}

theorem le_total (f : α → ℕ) (t : Fin n → α) (i : Fin n) : f (t i) ≤ total f t :=
  single_le_sum (fun j _ => Nat.zero_le (f (t j))) (mem_univ i)

theorem total_eq_zero {f : α → ℕ} {t : Fin n → α} : total f t = 0 ↔ ∀ i, f (t i) = 0 := by
  simp [total]

/-- A slot contributes at most once, and only while the quantity is in the table. -/
theorem total_pos {f : α → ℕ} {t : Fin n → α} : 0 < total f t ↔ ∃ i, 0 < f (t i) := by
  rw [Nat.pos_iff_ne_zero, Ne, total_eq_zero]
  simp [Nat.pos_iff_ne_zero]

end ArachKernel.Table
