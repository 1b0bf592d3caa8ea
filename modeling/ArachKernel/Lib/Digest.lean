import Mathlib.Data.BitVec
import Mathlib.Logic.Function.Basic

/-!
Checksums folded over words. A round mixes one word into the state by an addition, an
exclusive or, a rotation, a product with an odd number and a shift of the upper bits onto
the lower ones. It is injective in the state and in the word, so the fold tells two lists
apart that differ in one place.
-/

namespace ArachKernel

open Function

/-- The lists differ in one place. -/
def DifferOnce {α : Type*} (l l' : List α) : Prop :=
  ∃ before a a' after, a ≠ a' ∧ l = before ++ a :: after ∧ l' = before ++ a' :: after

/-- The constants of a round. -/
structure Round (w : ℕ) where
  addend : BitVec w
  rotation : ℕ
  multiplier : BitVec w
  shift : ℕ
  inverse : BitVec w
  multiplier_mul_inverse : multiplier * inverse = 1
  shift_pos : 0 < shift

namespace Round

variable {w : ℕ}

def mix (r : Round w) (state value : BitVec w) : BitVec w :=
  let state := state ^^^ (value + r.addend)
  let state := state.rotateLeft r.rotation
  let state := state * r.multiplier
  state ^^^ state >>> r.shift

theorem rotateLeft_injective (k : ℕ) : Injective fun x : BitVec w => x.rotateLeft k := by
  intro x y h
  refine BitVec.eq_of_getElem_eq fun i hi => ?_
  have hk : k % w < w := Nat.mod_lt _ (by omega)
  have hbit (j : ℕ) (hj : j < w) : (x.rotateLeft k)[j] = (y.rotateLeft k)[j] := by
    rw [show x.rotateLeft k = y.rotateLeft k from h]
  simp only [BitVec.getElem_rotateLeft] at hbit
  -- the bit has moved up by the rotation, or round to the low end
  by_cases hup : i + k % w < w
  · have hge : ¬ i + k % w < k % w := by omega
    simpa only [hge, dite_false, Nat.add_sub_cancel] using hbit (i + k % w) hup
  · have hround : w - k % w + (i + k % w - w) = i := by omega
    have hlow : i + k % w - w < k % w := by omega
    simpa only [hlow, dite_true, hround] using hbit (i + k % w - w) (by omega)

theorem xorShift_injective {k : ℕ} (hk : 0 < k) : Injective fun x : BitVec w => x ^^^ x >>> k := by
  intro x y h
  -- from the top bit down: bit `i` of the image is bit `i` of the word and a higher one
  have hbits (d : ℕ) : ∀ i, w ≤ i + d → x.getLsbD i = y.getLsbD i := by
    induction d with
    | zero =>
      intro i hi
      rw [BitVec.getLsbD_of_ge x i hi, BitVec.getLsbD_of_ge y i hi]
    | succ d ih =>
      intro i hi
      have hbit := congrArg (BitVec.getLsbD · i) h
      simpa [ih (k + i) (by omega)] using hbit
  exact BitVec.eq_of_getLsbD_eq fun i _ => hbits w i (Nat.le_add_left _ _)

variable (r : Round w)

theorem mul_multiplier_injective : Injective fun x : BitVec w => x * r.multiplier := by
  refine LeftInverse.injective (g := fun x => x * r.inverse) fun x => ?_
  simp only [BitVec.mul_assoc, r.multiplier_mul_inverse]
  exact BitVec.mul_one x

/-- What a round does to the state with the word mixed in. -/
theorem mix_injective : Injective fun x : BitVec w =>
    x.rotateLeft r.rotation * r.multiplier ^^^
      (x.rotateLeft r.rotation * r.multiplier) >>> r.shift :=
  (xorShift_injective r.shift_pos).comp (r.mul_multiplier_injective.comp (rotateLeft_injective _))

theorem mix_state_injective (value : BitVec w) : Injective fun state => r.mix state value := by
  intro s t h
  exact (BitVec.xor_left_inj _).mp (r.mix_injective h)

theorem mix_value_injective (state : BitVec w) : Injective (r.mix state) := by
  intro v u h
  exact (BitVec.add_left_inj _).mp ((BitVec.xor_right_inj _).mp (r.mix_injective h))

theorem foldl_mix_injective (l : List (BitVec w)) : Injective fun state => l.foldl r.mix state := by
  induction l with
  | nil => exact injective_id
  | cons value l ih => exact ih.comp (r.mix_state_injective value)

variable {r} {l l' : List (BitVec w)} {state checksum checksum' : BitVec w}

theorem foldl_mix_ne (h : DifferOnce l l') : l.foldl r.mix state ≠ l'.foldl r.mix state := by
  obtain ⟨before, a, a', after, hne, rfl, rfl⟩ := h
  intro heq
  rw [List.foldl_append, List.foldl_append] at heq
  exact hne (r.mix_value_injective _ (r.foldl_mix_injective after heq))

/-- A list with its checksum behind it. -/
theorem checksum_ne (h : DifferOnce (l ++ [checksum]) (l' ++ [checksum']))
    (hchecksum : checksum = l.foldl r.mix state) : checksum' ≠ l'.foldl r.mix state := by
  obtain ⟨before, a, a', after, hne, hl, hl'⟩ := h
  rcases List.eq_nil_or_concat' after with rfl | ⟨rest, last, rfl⟩
  · obtain ⟨rfl, hlast⟩ := List.append_inj' hl rfl
    obtain ⟨rfl, hlast'⟩ := List.append_inj' hl' rfl
    cases hlast
    cases hlast'
    exact fun heq => hne (hchecksum.trans heq.symm)
  · rw [← List.cons_append, ← List.append_assoc] at hl hl'
    obtain ⟨rfl, hlast⟩ := List.append_inj' hl rfl
    obtain ⟨rfl, hlast'⟩ := List.append_inj' hl' rfl
    cases hlast
    cases hlast'
    rw [hchecksum]
    exact foldl_mix_ne ⟨before, a, a', rest, hne, rfl, rfl⟩

end Round

end ArachKernel
