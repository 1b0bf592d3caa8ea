import Mathlib.Data.Nat.Bitwise
import Mathlib.Tactic.Common

/-!
Handles to table slots. A plain handle is the slot index above a fixed base. A
generation-tagged handle packs a slot index and the generation of the slot's
occupant into one machine word: the index plus one in the low `bits` bits, the
generation above it. Handle `0` and handles without a generation name nothing.
-/

namespace ArachKernel.Handle

variable (bits limit : ℕ)

/-- The slot a plain handle names, in a table of `limit` slots. -/
def indexFrom (base handle : ℕ) : Option (Fin limit) :=
  if handle < base then none
  else if h : handle - base < limit then some ⟨handle - base, h⟩ else none

/-- The handle of slot `index` at `generation`, in a table of `limit` slots whose
generations stop at `maximum`. -/
def encode (maximum index generation : ℕ) : Option ℕ :=
  if limit ≤ index ∨ generation = 0 ∨ maximum < generation then none
  else some ((generation <<< bits) ||| (index + 1))

/-- The slot index and the generation a handle names. -/
def decode (handle : ℕ) : Option (Fin limit × ℕ) :=
  let encodedIndex := handle &&& (2 ^ bits - 1)
  let generation := handle >>> bits
  if encodedIndex = 0 ∨ generation = 0 then none
  else if h : encodedIndex - 1 < limit then some (⟨encodedIndex - 1, h⟩, generation) else none

variable {bits limit}

/-- A packed handle has the index in its low bits and the generation above. -/
theorem pack_eq {index generation : ℕ} (h : index + 1 < 2 ^ bits) :
    (generation <<< bits) ||| (index + 1) = generation * 2 ^ bits + (index + 1) := by
  rw [← Nat.shiftLeft_add_eq_or_of_lt h, Nat.shiftLeft_eq]

/-- Decoding inverts encoding, provided every index fits in the index bits. -/
theorem decode_encode {maximum index generation handle : ℕ} (hbits : limit < 2 ^ bits)
    (h : encode bits limit maximum index generation = some handle) :
    ∃ hlt : index < limit, decode bits limit handle = some (⟨index, hlt⟩, generation) := by
  rw [encode] at h
  split at h
  · cases h
  cases h
  have hlt : index < limit := by omega
  have hsmall : index + 1 < 2 ^ bits := by omega
  have hlow : ((generation <<< bits) ||| (index + 1)) &&& (2 ^ bits - 1) = index + 1 := by
    rw [pack_eq hsmall, Nat.and_two_pow_sub_one_eq_mod, Nat.mul_comm, Nat.mul_add_mod,
      Nat.mod_eq_of_lt hsmall]
  have hhigh : ((generation <<< bits) ||| (index + 1)) >>> bits = generation := by
    rw [pack_eq hsmall, Nat.shiftRight_eq_div_pow, Nat.mul_comm, Nat.mul_add_div
      (Nat.two_pow_pos bits), Nat.div_eq_of_lt hsmall, Nat.add_zero]
  simp only [decode, hlow, hhigh]
  rw [if_neg (by omega)]
  simp [hlt]

/-- A handle that decodes at all is determined by what it decodes to. -/
theorem decode_inj {first second : ℕ} {named : Fin limit × ℕ}
    (hfst : decode bits limit first = some named)
    (hsnd : decode bits limit second = some named) : first = second := by
  have recover {handle : ℕ} (h : decode bits limit handle = some named) :
      handle % 2 ^ bits = named.1.val + 1 ∧ handle / 2 ^ bits = named.2 := by
    simp only [decode, Nat.and_two_pow_sub_one_eq_mod, Nat.shiftRight_eq_div_pow] at h
    split at h
    · cases h
    · split at h
      · cases h
        exact ⟨by simp only; omega, rfl⟩
      · cases h
  obtain ⟨hlow, hhigh⟩ := recover hfst
  obtain ⟨hlow', hhigh'⟩ := recover hsnd
  rw [← Nat.div_add_mod first (2 ^ bits), ← Nat.div_add_mod second (2 ^ bits), hlow, hhigh,
    hlow', hhigh']

theorem encode_isSome {maximum index generation : ℕ} (hidx : index < limit)
    (hpos : 0 < generation) (hmax : generation ≤ maximum) :
    ∃ handle, encode bits limit maximum index generation = some handle := by
  rw [encode, if_neg (by omega)]
  exact ⟨_, rfl⟩

end ArachKernel.Handle
