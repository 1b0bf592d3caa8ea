import ArachKernel.Lib.Guarded
import ArachKernel.Process.Lifecycle

/-!
Block devices and checked access to the bytes they return (`storage.rs`).

A device has a fixed number of sectors and an arbitrary behaviour: what it answers
may depend on everything it was asked before. Each request is put on record, so
that the sectors a reader asks for can be talked about. Buffers have the length of
the array they stand for; an index outside a buffer and an arithmetic operation
outside a machine word are panics.
-/

namespace ArachKernel.Storage

open Guarded List

variable {σ ε : Type}

def sectorBytes : ℕ := 512

inductive BlockError
  | invalidSector
  | invalidGeometry
  | readFailure
  | writeFailure
  | flushFailure
  | corruptMetadata
  | unsupportedMetadata
  | capacity
  deriving DecidableEq

inductive Ext4Error
  | io (error : BlockError)
  | invalidGeometry
  | corruptMetadata
  | unsupportedFeature
  | invalidPath
  | notFound
  | notDirectory
  | notFile
  | capacity
  deriving DecidableEq

/-! ### Machine arithmetic -/

def checkedMul (maximum a b : ℕ) : Option ℕ := if a * b ≤ maximum then some (a * b) else none

def checkedSub (a b : ℕ) : Option ℕ := if b ≤ a then some (a - b) else none

/-- `a + b` on 64-bit words. -/
def plus (a b : ℕ) : Guarded σ ε ℕ := if a + b ≤ u64Max then pure (a + b) else panic

/-- `a - b` on unsigned words. -/
def minus (a b : ℕ) : Guarded σ ε ℕ := if b ≤ a then pure (a - b) else panic

/-- `a * b` on 64-bit words. -/
def times (a b : ℕ) : Guarded σ ε ℕ := if a * b ≤ u64Max then pure (a * b) else panic

/-- `a / b`, which panics on a zero divisor. -/
def divide (a b : ℕ) : Guarded σ ε ℕ := if b = 0 then panic else pure (a / b)

/-- `a % b`, which panics on a zero divisor. -/
def remainder (a b : ℕ) : Guarded σ ε ℕ := if b = 0 then panic else pure (a % b)

theorem checkedMul_eq_some {maximum a b c : ℕ} :
    checkedMul maximum a b = some c ↔ a * b ≤ maximum ∧ c = a * b := by
  simp only [checkedMul]
  split
  next h => simp only [Option.some.injEq, h, true_and, eq_comm]
  next h => simp only [reduceCtorEq, h, false_and]

theorem checkedSub_eq_some {a b c : ℕ} : checkedSub a b = some c ↔ b ≤ a ∧ c = a - b := by
  simp only [checkedSub]
  split
  next h => simp only [Option.some.injEq, h, true_and, eq_comm]
  next h => simp only [reduceCtorEq, h, false_and]

theorem plus_eq {a b : ℕ} (h : a + b ≤ u64Max) : (plus a b : Guarded σ ε ℕ) = pure (a + b) :=
  if_pos h

theorem minus_eq {a b : ℕ} (h : b ≤ a) : (minus a b : Guarded σ ε ℕ) = pure (a - b) :=
  if_pos h

theorem times_eq {a b : ℕ} (h : a * b ≤ u64Max) : (times a b : Guarded σ ε ℕ) = pure (a * b) :=
  if_pos h

theorem checkedAdd_ok {e : ε} {a b : ℕ} (h : a + b ≤ u64Max) :
    (okOr e (checkedAdd u64Max a b) : Guarded σ ε ℕ) = pure (a + b) := by
  rw [checkedAdd, if_pos h, okOr_some]

theorem checkedMul_ok {e : ε} {a b : ℕ} (h : a * b ≤ u64Max) :
    (okOr e (checkedMul u64Max a b) : Guarded σ ε ℕ) = pure (a * b) := by
  rw [checkedMul, if_pos h, okOr_some]

section Safety

variable {I : σ → Prop} {a b : ℕ}

theorem plus_safe (h : a + b ≤ u64Max) : Safe I (plus a b : Guarded σ ε ℕ) (· = a + b) := by
  rw [plus_eq h]
  exact .pure rfl

theorem minus_safe (h : b ≤ a) : Safe I (minus a b : Guarded σ ε ℕ) (· = a - b) := by
  rw [minus_eq h]
  exact .pure rfl

theorem times_safe (h : a * b ≤ u64Max) : Safe I (times a b : Guarded σ ε ℕ) (· = a * b) := by
  rw [times_eq h]
  exact .pure rfl

theorem divide_safe (h : b ≠ 0) : Safe I (divide a b : Guarded σ ε ℕ) (· = a / b) := by
  rw [divide, if_neg h]
  exact .pure rfl

theorem remainder_safe (h : b ≠ 0) : Safe I (remainder a b : Guarded σ ε ℕ) (· = a % b) := by
  rw [remainder, if_neg h]
  exact .pure rfl

theorem checkedAdd_safe {e : ε} :
    Safe I (okOr e (checkedAdd u64Max a b) : Guarded σ ε ℕ) fun c => a + b ≤ u64Max ∧ c = a + b :=
  Safe.okOr fun _ => checkedAdd_eq_some.mp

theorem checkedMul_safe {e : ε} :
    Safe I (okOr e (checkedMul u64Max a b) : Guarded σ ε ℕ) fun c => a * b ≤ u64Max ∧ c = a * b :=
  Safe.okOr fun _ => checkedMul_eq_some.mp

end Safety

/-! ### Bytes -/

/-- An array of bytes of a fixed length. -/
abbrev Buffer (n : ℕ) := {bytes : List UInt8 // bytes.length = n}

def Buffer.zero (n : ℕ) : Buffer n := ⟨List.replicate n 0, List.length_replicate⟩

/-- `bytes[start..stop]`. -/
def slice (bytes : List UInt8) (start stop : ℕ) : Guarded σ ε (List UInt8) :=
  if start ≤ stop ∧ stop ≤ bytes.length then pure ((bytes.drop start).take (stop - start))
  else panic

/-- `bytes[index]`. -/
def byteAt (bytes : List UInt8) (index : ℕ) : Guarded σ ε UInt8 :=
  match bytes[index]? with
  | some byte => pure byte
  | none => panic

/-- Replace the bytes from `start` on by those of `source`. -/
def Buffer.overwrite {n : ℕ} (target : Buffer n) (start : ℕ) (source : List UInt8)
    (h : start + source.length ≤ n) : Buffer n :=
  ⟨target.1.take start ++ source ++ target.1.drop (start + source.length), by
    simp only [List.length_append, List.length_take, List.length_drop]
    omega⟩

/-- `target[start..stop].copy_from_slice(source)`. -/
def copyFromSlice {n : ℕ} (target : Buffer n) (start stop : ℕ) (source : List UInt8) :
    Guarded σ ε (Buffer n) :=
  if h : start ≤ stop ∧ stop ≤ n ∧ source.length = stop - start then
    pure (target.overwrite start source (by omega))
  else panic

/-- The number with the given little-endian digits. -/
def fromLeBytes : List UInt8 → ℕ
  | [] => 0
  | byte :: bytes => byte.toNat + 256 * fromLeBytes bytes

/-- The little-endian number in the given bytes of a buffer. -/
def word (width : ℕ) (bytes : List UInt8) (offset : ℕ) : ℕ :=
  fromLeBytes ((bytes.drop offset).take width)

def readWord (width : ℕ) (bytes : List UInt8) (offset : ℕ) : Guarded σ ε ℕ :=
  if offset + width ≤ bytes.length then pure (word width bytes offset) else panic

def readU16 (bytes : List UInt8) (offset : ℕ) : Guarded σ ε ℕ := readWord 2 bytes offset
def readU32 (bytes : List UInt8) (offset : ℕ) : Guarded σ ε ℕ := readWord 4 bytes offset
def readU64 (bytes : List UInt8) (offset : ℕ) : Guarded σ ε ℕ := readWord 8 bytes offset

theorem fromLeBytes_lt (bytes : List UInt8) : fromLeBytes bytes < 256 ^ bytes.length := by
  induction bytes with
  | nil => simp only [fromLeBytes, length_nil, Nat.pow_zero, Nat.zero_lt_one]
  | cons byte =>
    have hbyte : byte.toNat < 256 := byte.toNat_lt
    rw [fromLeBytes, length_cons]
    omega

theorem word_lt (width : ℕ) (bytes : List UInt8) (offset : ℕ) :
    word width bytes offset < 256 ^ width :=
  calc word width bytes offset
      < 256 ^ ((bytes.drop offset).take width).length := fromLeBytes_lt _
    _ ≤ 256 ^ width :=
      Nat.pow_le_pow_right (by decide) (length_take_le width (bytes.drop offset))

theorem slice_eq {bytes : List UInt8} {start stop : ℕ} (hle : start ≤ stop)
    (hstop : stop ≤ bytes.length) :
    (slice bytes start stop : Guarded σ ε (List UInt8)) =
      pure ((bytes.drop start).take (stop - start)) :=
  if_pos ⟨hle, hstop⟩

theorem copyFromSlice_eq {n : ℕ} {target : Buffer n} {start stop : ℕ} {source : List UInt8}
    (hle : start ≤ stop) (hstop : stop ≤ n) (hsrc : source.length = stop - start) :
    (copyFromSlice target start stop source : Guarded σ ε (Buffer n)) =
      pure (target.overwrite start source (by omega)) :=
  dif_pos ⟨hle, hstop, hsrc⟩

theorem readWord_eq {width offset : ℕ} {bytes : List UInt8} (h : offset + width ≤ bytes.length) :
    (readWord width bytes offset : Guarded σ ε ℕ) = pure (word width bytes offset) :=
  if_pos h

section Safety

variable {I : σ → Prop} {bytes : List UInt8} {start stop : ℕ}

theorem slice_eq_safe (hle : start ≤ stop) (hstop : stop ≤ bytes.length) :
    Safe I (slice bytes start stop : Guarded σ ε (List UInt8))
      (· = (bytes.drop start).take (stop - start)) := by
  rw [slice_eq hle hstop]
  exact .pure rfl

theorem slice_safe (hle : start ≤ stop) (hstop : stop ≤ bytes.length) :
    Safe I (slice bytes start stop : Guarded σ ε (List UInt8))
      fun piece => piece.length = stop - start := by
  refine (slice_eq_safe hle hstop).mono ?_
  rintro _ rfl
  rw [length_take, length_drop]
  omega

theorem byteAt_safe {index : ℕ} (h : index < bytes.length) :
    Safe I (byteAt bytes index : Guarded σ ε UInt8) fun _ => True := by
  rw [byteAt, getElem?_eq_getElem h]
  exact .pure trivial

theorem copyFromSlice_safe {n : ℕ} {target : Buffer n} {source : List UInt8}
    (hle : start ≤ stop) (hstop : stop ≤ n) (hsrc : source.length = stop - start) :
    Safe I (copyFromSlice target start stop source : Guarded σ ε (Buffer n)) fun _ => True := by
  rw [copyFromSlice_eq hle hstop hsrc]
  exact .pure trivial

theorem readWord_safe {width offset : ℕ} (h : offset + width ≤ bytes.length) :
    Safe I (readWord width bytes offset : Guarded σ ε ℕ) (· = word width bytes offset) := by
  rw [readWord_eq h]
  exact .pure rfl

end Safety

/-! ### Devices -/

/-- A device with a number of sectors and a state of its own. -/
structure BlockDevice (σ : Type) where
  sectorCount : ℕ
  sectorCount_le : sectorCount ≤ u64Max
  readSector : ℕ → σ → Except BlockError (Buffer sectorBytes) × σ

/-- The state of a device together with the sectors it was asked for. -/
structure Drive (σ : Type) where
  device : σ
  requests : List ℕ

namespace BlockDevice

variable (d : BlockDevice σ)

/-- Ask the device for a sector. -/
def request (lba : ℕ) : Guarded (Drive σ) BlockError (Buffer sectorBytes) := fun s =>
  match d.readSector lba s.device with
  | (.ok sector, t) => (.ok sector, ⟨t, lba :: s.requests⟩)
  | (.error e, t) => (.error (.error e), ⟨t, lba :: s.requests⟩)

/-- No sector outside the device was asked for. -/
def InRange (s : Drive σ) : Prop := ∀ lba ∈ s.requests, lba < d.sectorCount

variable {d}

theorem request_safe {lba : ℕ} (h : lba < d.sectorCount) :
    Safe d.InRange (d.request lba) fun _ => True := by
  intro s hs
  have hcons : ∀ t, d.InRange ⟨t, lba :: s.requests⟩ := by
    intro t x hx
    rcases mem_cons.mp hx with rfl | hx
    · exact h
    · exact hs x hx
  rw [request]
  split
  · exact ⟨hcons _, nofun, fun _ _ => trivial⟩
  · exact ⟨hcons _, nofun, fun _ _ => trivial⟩

end BlockDevice

/-! ### Reading a range of bytes -/

section ReadBytes

variable (d : BlockDevice σ)

/-- The loop of `read_bytes` over the sectors of the range; `n` is the length of the
output. Running out of fuel counts as a panic. -/
def readBytesLoop {n : ℕ} (offset : ℕ) : ℕ → ℕ → Guarded (Drive σ × Buffer n) Ext4Error Unit
  | 0, _ => panic
  | fuel + 1, copied =>
    if copied < n then do
      let absolute ← okOr .capacity (checkedAdd u64Max offset copied)
      let lba := absolute / sectorBytes
      let within := absolute % sectorBytes
      let sector ← zoom Prod.fst (fun drive s => (drive, s.2)) .io (d.request lba)
      let rest ← minus n copied
      let take := min (sectorBytes - within) rest
      let stop ← plus copied take
      let piece ← slice sector.1 within (within + take)
      let output ← read Prod.snd
      let output ← copyFromSlice output copied stop piece
      modify fun s => (s.1, output)
      readBytesLoop offset fuel stop
    else pure ()

/-- `read_bytes(device, offset, output)`. -/
def readBytes {n : ℕ} (offset : ℕ) : Guarded (Drive σ × Buffer n) Ext4Error Unit := do
  let deviceBytes ← okOr .capacity (checkedMul u64Max d.sectorCount sectorBytes)
  refuse (deviceBytes < offset ∨ deviceBytes - offset < n) .invalidGeometry
  readBytesLoop d offset (n + 1) 0

variable {d}

theorem readBytesLoop_safe {n offset : ℕ} (hn : n ≤ u64Max)
    (hrng : offset + n ≤ d.sectorCount * sectorBytes) (fuel copied : ℕ) (hle : copied ≤ n)
    (hfuel : n < copied + fuel) :
    Safe (fun s => d.InRange s.1) (readBytesLoop (n := n) d offset fuel copied) fun _ => True := by
  induction fuel generalizing copied with
  | zero => omega
  | succ fuel ih =>
    rw [readBytesLoop]
    refine .ite (fun hlt => ?_) fun _ => Safe.pure trivial
    refine .bind checkedAdd_safe ?_
    rintro _ ⟨-, rfl⟩
    -- the sector lies on the device because the byte does
    have hlba : (offset + copied) / sectorBytes < d.sectorCount := by
      apply Nat.div_lt_of_lt_mul
      rw [Nat.mul_comm]
      omega
    refine .bind (Safe.zoom (BlockDevice.request_safe hlba) (fun _ h => h) fun _ _ _ h => h) ?_
    intro sector _
    refine .value_then (minus_safe hle) ?_
    have hwithin : (offset + copied) % sectorBytes < 512 := Nat.mod_lt _ (by decide)
    have htake : 0 < min (sectorBytes - (offset + copied) % sectorBytes) (n - copied) := by
      simp only [sectorBytes] at hwithin ⊢
      omega
    refine .value_then (plus_safe (by omega)) ?_
    refine .bind (slice_safe (by omega) (by omega)) ?_
    intro piece hpiece
    refine .bind (P := fun _ => True) (Safe.read fun _ _ => trivial) ?_
    intro output _
    refine .bind (copyFromSlice_safe (by omega) (by omega) (by omega)) ?_
    intro output _
    refine .bind (Safe.modify fun _ h => h) ?_
    intro _ _
    exact ih _ (by omega) (by omega)

theorem readBytes_safe {n offset : ℕ} (hn : n ≤ u64Max) :
    Safe (fun s => d.InRange s.1) (readBytes (n := n) d offset) fun _ => True := by
  rw [readBytes]
  refine .bind checkedMul_safe ?_
  rintro _ ⟨-, rfl⟩
  refine .refuse_then fun hrng => ?_
  exact readBytesLoop_safe hn (by omega) _ _ (by omega) (by omega)

/-! ### Evaluation of the loop -/

/-- The number of bytes the loop takes from the next sector. -/
def readBytesTake (n offset copied : ℕ) : ℕ :=
  min (sectorBytes - (offset + copied) % sectorBytes) (n - copied)

theorem readBytesTake_le (n offset copied : ℕ) : readBytesTake n offset copied ≤ n - copied ∧
      (offset + copied) % sectorBytes + readBytesTake n offset copied ≤ sectorBytes := by
  have hwithin : (offset + copied) % sectorBytes < sectorBytes := Nat.mod_lt _ (by decide)
  simp only [readBytesTake]
  omega

theorem length_readBytesPiece (n offset copied : ℕ) (sector : Buffer sectorBytes) :
    ((sector.1.drop ((offset + copied) % sectorBytes)).take
      (readBytesTake n offset copied)).length = readBytesTake n offset copied := by
  have hle := (readBytesTake_le n offset copied).2
  rw [length_take, length_drop]
  omega

theorem readBytesLoop_of_ok {n offset copied fuel : ℕ} {s t : Drive σ} {output : Buffer n}
    {sector : Buffer sectorBytes} (hlt : copied < n) (hn : n ≤ u64Max)
    (hword : offset + copied ≤ u64Max)
    (hreq : d.request ((offset + copied) / sectorBytes) s = (.ok sector, t)) :
    readBytesLoop d offset (fuel + 1) copied (s, output) =
      readBytesLoop d offset fuel (copied + readBytesTake n offset copied)
        (t, output.overwrite copied ((sector.1.drop ((offset + copied) % sectorBytes)).take
          (readBytesTake n offset copied)) (by
            rw [length_readBytesPiece]
            have := (readBytesTake_le n offset copied).1
            omega)) := by
  have hle := readBytesTake_le n offset copied
  have hpiece := length_readBytesPiece n offset copied sector
  rw [readBytesLoop, if_pos hlt, checkedAdd_ok hword, pure_then]
  rw [bind_of_ok (zoom_of_ok hreq), minus_eq hlt.le]
  change (plus copied (readBytesTake n offset copied) >>= _) _ = _
  rw [plus_eq (by omega)]
  change (slice sector.1 _ (_ + readBytesTake n offset copied) >>= _) _ = _
  rw [slice_eq (by omega) (by rw [sector.2]; exact hle.2), pure_then, read_then,
    Nat.add_sub_cancel_left,
    copyFromSlice_eq (by omega) (by omega) (by rw [hpiece, Nat.add_sub_cancel_left]), pure_then,
    modify_then]

theorem readBytesLoop_of_error {n offset copied fuel : ℕ} {s t : Drive σ} {output : Buffer n}
    {e : BlockError} (hlt : copied < n) (hword : offset + copied ≤ u64Max)
    (hreq : d.request ((offset + copied) / sectorBytes) s = (.error (.error e), t)) :
    readBytesLoop d offset (fuel + 1) copied (s, output) =
      (.error (.error (.io e)), (t, output)) := by
  rw [readBytesLoop, if_pos hlt, checkedAdd_ok hword, pure_then]
  rw [bind_of_error (zoom_of_error hreq)]

theorem readBytesLoop_done {n offset fuel : ℕ} (s : Drive σ × Buffer n) :
    readBytesLoop d offset (fuel + 1) n s = (.ok (), s) := by
  rw [readBytesLoop, if_neg (lt_irrefl n)]
  rfl

end ReadBytes

end ArachKernel.Storage
