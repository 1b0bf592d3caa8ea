import Mathlib.Data.List.Basic
import Mathlib.Data.Nat.ModEq
import Mathlib.Logic.Function.Basic

/-!
Ring buffers over an array of `n` cells: a head, a length, and the cells that are
read and written modulo `n`. The contents of a ring are the cells from the head
on, in order; appending and consuming are then list operations on the contents.
-/

namespace ArachKernel

open Function List

/-- A ring buffer. The capacity is a parameter of the operations. -/
structure Ring (α : Type*) where
  head : ℕ
  length : ℕ
  cells : ℕ → α

namespace Ring

variable {α : Type*} (n : ℕ)

/-- A ring with every cell holding `a` and no contents. -/
def empty (a : α) : Ring α := { head := 0, length := 0, cells := fun _ => a }

/-- The contents, oldest first. -/
def toList (r : Ring α) : List α :=
  (List.range r.length).map fun offset => r.cells ((r.head + offset) % n)

/-- The indices are in range for an array of `n` cells. -/
structure Bounded (r : Ring α) : Prop where
  head_lt : r.head < n
  length_le : r.length ≤ n

/-- Store one element behind the contents. -/
def push (x : α) (r : Ring α) : Ring α :=
  { r with
    cells := Function.update r.cells ((r.head + r.length) % n) x
    length := r.length + 1 }

/-- Store the elements of a list one after the other. -/
def pushAll (xs : List α) (r : Ring α) : Ring α := xs.foldl (fun r x => push n x r) r

/-- Move the head over `k` cells and collect what they hold; the length is left
to the caller. -/
def advance : ℕ → Ring α → List α × Ring α
  | 0, r => ([], r)
  | k + 1, r =>
    let rest := advance k { r with head := (r.head + 1) % n }
    (r.cells r.head :: rest.1, rest.2)

variable (k : ℕ)

/-- Consume `k` elements. -/
def popMany (r : Ring α) : List α × Ring α :=
  let moved := advance n k r
  (moved.1, { moved.2 with length := moved.2.length - k })

/-- Consume the oldest element and blank its cell. -/
def pop (a : α) (r : Ring α) : Ring α where
  cells := Function.update r.cells r.head a
  head := (r.head + 1) % n
  length := r.length - 1

variable {n}

@[simp] theorem toList_empty (a : α) : toList n (empty a) = [] := rfl

@[simp] theorem length_toList (r : Ring α) : (toList n r).length = r.length := by
  simp [toList]

theorem bounded_empty (hn : 0 < n) (a : α) : Bounded n (empty a) := ⟨hn, Nat.zero_le n⟩

variable {r : Ring α}

theorem getElem?_toList {i : ℕ} (hi : i < r.length) :
    (toList n r)[i]? = some (r.cells ((r.head + i) % n)) := by
  simp [toList, hi]

/-! ### Appending -/

/-- Two live offsets name different cells. -/
theorem offset_ne {head i j : ℕ} (hij : i < j) (hj : j < n) : (head + i) % n ≠ (head + j) % n := by
  intro h
  have hmod : i ≡ j [MOD n] := Nat.ModEq.add_left_cancel' head h
  exact absurd (Nat.ModEq.eq_of_lt_of_lt hmod (hij.trans hj) hj) (Nat.ne_of_lt hij)

theorem toList_push (x : α) (h : r.length < n) : toList n (push n x r) = toList n r ++ [x] := by
  simp only [toList, push, range_succ, map_append, map_singleton, update_self]
  congr 1
  refine map_congr_left fun i hi => ?_
  exact update_of_ne (offset_ne (mem_range.mp hi) h) _ _

theorem Bounded.push (hr : Bounded n r) (x : α) (h : r.length < n) :
    Bounded n (push n x r) := ⟨hr.head_lt, h⟩

@[simp] theorem pushAll_nil (r : Ring α) : pushAll n [] r = r := rfl

@[simp] theorem pushAll_cons (x : α) (xs : List α) (r : Ring α) :
    pushAll n (x :: xs) r = pushAll n xs (push n x r) := rfl

theorem toList_pushAll (xs : List α) (h : r.length + xs.length ≤ n) :
    toList n (pushAll n xs r) = toList n r ++ xs := by
  induction xs generalizing r with
  | nil => simp
  | cons x xs ih =>
    rw [length_cons] at h
    have hnext : (push n x r).length + xs.length ≤ n := by
      simp only [push]
      omega
    rw [pushAll_cons, ih hnext, toList_push x (by omega), append_assoc, singleton_append]

theorem Bounded.pushAll (xs : List α) (hr : Bounded n r)
    (h : r.length + xs.length ≤ n) : Bounded n (pushAll n xs r) := by
  induction xs generalizing r with
  | nil => exact hr
  | cons x xs ih =>
    rw [length_cons] at h
    refine ih (hr.push x (by omega)) ?_
    simp only [Ring.push]
    omega

/-! ### Consuming -/

@[simp] theorem advance_length (r : Ring α) : (advance n k r).2.length = r.length := by
  induction k generalizing r with
  | zero => rfl
  | succ k ih => simp [advance, ih]

@[simp] theorem advance_cells (r : Ring α) : (advance n k r).2.cells = r.cells := by
  induction k generalizing r with
  | zero => rfl
  | succ k ih => simp [advance, ih]

theorem advance_head (h : r.head < n) : (advance n k r).2.head = (r.head + k) % n := by
  induction k generalizing r with
  | zero => simp [advance, Nat.mod_eq_of_lt h]
  | succ k ih =>
    have hlt : (r.head + 1) % n < n := Nat.mod_lt _ (by omega)
    simp only [advance]
    rw [ih hlt, Nat.mod_add_mod, Nat.add_assoc, Nat.add_comm 1 k]

theorem advance_fst (h : r.head < n) :
    (advance n k r).1 = (range k).map fun offset => r.cells ((r.head + offset) % n) := by
  induction k generalizing r with
  | zero => rfl
  | succ k ih =>
    have hlt : (r.head + 1) % n < n := Nat.mod_lt _ (by omega)
    simp only [advance, range_succ_eq_map, map_cons, map_map,
      Nat.add_zero, Nat.mod_eq_of_lt h, cons.injEq, true_and]
    rw [ih hlt]
    refine map_congr_left fun i _ => ?_
    simp only [Nat.mod_add_mod]
    congr 2
    omega

theorem popMany_fst {k : ℕ} (h : r.head < n) (hk : k ≤ r.length) :
    (popMany n k r).1 = (toList n r).take k := by
  rw [popMany, advance_fst k h, toList, ← map_take, take_range, Nat.min_eq_left hk]

@[simp] theorem popMany_length (r : Ring α) : (popMany n k r).2.length = r.length - k := by
  simp [popMany]

theorem popMany_toList {k : ℕ} (h : r.head < n) (hk : k ≤ r.length) :
    toList n (popMany n k r).2 = (toList n r).drop k := by
  refine ext_getElem? fun i => ?_
  rw [getElem?_drop]
  by_cases hi : i < r.length - k
  · rw [getElem?_toList (by simpa using hi), getElem?_toList (by omega)]
    simp [popMany, advance_cells, advance_head k h, Nat.mod_add_mod, Nat.add_assoc]
  · rw [getElem?_eq_none (by simpa using hi), getElem?_eq_none (by simp; omega)]

theorem Bounded.popMany (hr : Bounded n r) (k : ℕ) : Bounded n (popMany n k r).2 where
  head_lt := by
    simp only [Ring.popMany, advance_head k hr.head_lt]
    exact Nat.mod_lt _ (Nat.zero_lt_of_lt hr.head_lt)
  length_le := by
    rw [popMany_length]
    exact le_trans (Nat.sub_le _ _) hr.length_le

theorem toList_pop (hr : Bounded n r) (h : r.length ≠ 0) (a : α) :
    toList n r = r.cells r.head :: toList n (pop n a r) := by
  obtain ⟨k, hk⟩ := Nat.exists_eq_succ_of_ne_zero h
  have hle := hr.length_le
  simp only [toList, pop, hk, range_succ_eq_map,
    map_cons, map_map, Nat.add_zero, Nat.mod_eq_of_lt hr.head_lt]
  congr 1
  refine map_congr_left fun i hi => ?_
  have hi' := mem_range.mp hi
  have hne : (r.head + 1 + i) % n ≠ r.head := by
    have hoff : (r.head + 0) % n ≠ (r.head + (i + 1)) % n :=
      offset_ne (Nat.succ_pos i) (by omega)
    rw [Nat.add_zero, Nat.mod_eq_of_lt hr.head_lt] at hoff
    rw [Nat.add_assoc, Nat.add_comm 1 i]
    exact hoff.symm
  rw [comp_apply, Nat.mod_add_mod, update_of_ne hne, Nat.add_assoc, Nat.add_comm 1 i]

theorem Bounded.pop (hr : Bounded n r) (a : α) : Bounded n (pop n a r) where
  head_lt := Nat.mod_lt _ (Nat.zero_lt_of_lt hr.head_lt)
  length_le := (Nat.sub_le _ _).trans hr.length_le

end Ring

end ArachKernel
