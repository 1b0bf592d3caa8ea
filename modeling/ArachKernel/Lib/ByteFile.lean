import Mathlib.Data.List.Basic

/-!
A file as a sequence of bytes. A read takes what there is from a cursor on; a write of some
bytes replaces what is there, fills a gap before it and extends the end; a write of nothing
changes nothing.
-/

namespace ArachKernel.ByteFile

open List

variable {α : Type*}

def readAt (bytes : List α) (cursor size : ℕ) : List α := (bytes.drop cursor).take size

def writeAt (blank : α) (bytes : List α) (offset : ℕ) (input : List α) : List α :=
  if input = [] then bytes
  else
    bytes.take offset ++ List.replicate (offset - bytes.length) blank ++ input ++
      bytes.drop (offset + input.length)

/-- The bytes that a buffer holds up to a length. -/
def bufferBytes (buffer : ℕ → α) (length : ℕ) : List α := (List.range length).map buffer

@[simp] theorem length_bufferBytes (buffer : ℕ → α) (length : ℕ) :
    (bufferBytes buffer length).length = length := by
  simp [bufferBytes]

theorem getElem?_bufferBytes (buffer : ℕ → α) (length i : ℕ) :
    (bufferBytes buffer length)[i]? = if i < length then some (buffer i) else none := by
  rw [bufferBytes, getElem?_map]
  split
  next hi => rw [getElem?_range hi, Option.map_some]
  next hi => rw [getElem?_eq_none (by simpa using hi), Option.map_none]

/-- A read from a buffer copies up to its length. -/
theorem readAt_bufferBytes {buffer : ℕ → α} {length cursor : ℕ} (hcurs : cursor ≤ length)
    (size : ℕ) :
    readAt (bufferBytes buffer length) cursor size =
      (range (min size (length - cursor))).map fun i => buffer (cursor + i) := by
  apply ext_getElem?
  intro i
  rw [readAt, getElem?_take, getElem?_drop, getElem?_bufferBytes, getElem?_map]
  by_cases hi : i < min size (length - cursor)
  · rw [getElem?_range hi, if_pos (by omega), if_pos (by omega), Option.map_some]
  · have hnone : (range (min size (length - cursor)))[i]? = none :=
      getElem?_eq_none (by rw [length_range]; exact Nat.le_of_not_lt hi)
    rw [hnone]
    split
    · exact if_neg (by omega)
    · rfl

theorem getElem?_writeAt (blank : α) (bytes : List α) (offset : ℕ) {input : List α} (h : input ≠ [])
    (i : ℕ) :
    (writeAt blank bytes offset input)[i]? =
      if i < offset then if i < bytes.length then bytes[i]? else some blank
      else if i < offset + input.length then input[i - offset]?
      else bytes[i]? := by
  have hfront : (bytes.take offset ++ replicate (offset - bytes.length) blank).length = offset := by
    rw [length_append, length_take, length_replicate]
    omega
  rw [writeAt, if_neg h, append_assoc]
  split
  next hi =>
    rw [getElem?_append_left (by omega)]
    split
    · rw [getElem?_append_left (by rw [length_take]; omega), getElem?_take, if_pos hi]
    · rw [getElem?_append_right (by rw [length_take]; omega), length_take,
        getElem?_replicate, if_pos (by omega)]
  rw [getElem?_append_right (by omega), hfront]
  split
  · rw [getElem?_append_left (by omega)]
  · rw [getElem?_append_right (by omega), getElem?_drop]
    congr 1
    omega

/-- A write into a buffer that clears the gap before it. -/
theorem writeAt_bufferBytes (blank : α) {buffer : ℕ → α} {length offset : ℕ} {input : List α}
    (h : input ≠ [] ∨ offset ≤ length) :
    writeAt blank (bufferBytes buffer length) offset input =
      bufferBytes (fun i =>
          if offset ≤ i ∧ i < offset + input.length then input.getD (i - offset) blank
          else if length ≤ i ∧ i < offset then blank else buffer i)
        (max length (offset + input.length)) := by
  apply ext_getElem?
  intro i
  rw [getElem?_bufferBytes]
  by_cases hinput : input = []
  · subst hinput
    have hoff := h.resolve_left (fun hne => hne rfl)
    rw [writeAt, if_pos rfl, getElem?_bufferBytes, length_nil, Nat.add_zero, Nat.max_eq_left hoff]
    split
    · rw [if_neg (by omega), if_neg (by omega)]
    · rfl
  · rw [getElem?_writeAt blank _ offset hinput, length_bufferBytes, getElem?_bufferBytes]
    by_cases hbef : i < offset
    · have hmax : i < max length (offset + input.length) := by omega
      have hout : ¬(offset ≤ i ∧ i < offset + input.length) := by omega
      rw [if_pos hbef, if_pos hmax, if_neg hout]
      by_cases hin : i < length
      · rw [if_pos hin, if_pos hin, if_neg (by omega)]
      · rw [if_neg hin, if_pos ⟨by omega, hbef⟩]
    · rw [if_neg hbef]
      split
      · rw [if_pos (by omega), if_pos (by omega), getD_eq_getElem?_getD,
          getElem?_eq_getElem (by omega), Option.getD_some]
      have hiff : i < max length (offset + input.length) ↔ i < length := by omega
      simp only [hiff]
      split
      · rw [if_neg (by omega), if_neg (by omega)]
      · rfl

end ArachKernel.ByteFile
