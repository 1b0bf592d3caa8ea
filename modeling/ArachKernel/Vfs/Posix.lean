import ArachKernel.Lib.ByteFile
import ArachKernel.Vfs.VfsRuns

/-!
Files as an application sees them: names for files, a sequence of bytes for each file, and
open handles that each have their own cursor. This is what `open`, `read`, `write`, `seek` and
`close` are meant to do; tables, buffers and capabilities are left out.
-/

namespace ArachKernel.AkashicVfs

open ByteFile Function

/-- What an open handle stands for. -/
structure Description (ι : Type) where
  owner : ProcessHandle
  file : ι
  cursor : ℕ
  openFlags : Flags

/-- A directory has a name but no bytes. -/
@[ext] structure Posix (ι : Type) where
  names : List UInt8 → Option ι
  files : ι → Option (List UInt8)
  handles : Token → Option (Description ι)

namespace Posix

variable {ι : Type} (p : Posix ι) (owner : ProcessHandle) (token : Token)

def handle : Option (Description ι) :=
  if owner.pid = 0 ∨ owner.generation = 0 then none
  else (p.handles token).filter fun d => d.owner == owner

def setHandle (d : Option (Description ι)) : Posix ι :=
  { p with handles := update p.handles token d }

theorem setHandle_apply (token other : Token) (d : Option (Description ι)) :
    (p.setHandle token d).handles other = if other = token then d else p.handles other :=
  update_apply ..

theorem setHandle_self {p : Posix ι} {token : Token} {d : Option (Description ι)}
    (h : p.handles token = d) : p.setHandle token d = p := by
  subst h
  exact Posix.ext rfl rfl (update_eq_self ..)

variable [DecidableEq ι]

def setFile (i : ι) (bytes : List UInt8) : Posix ι :=
  { p with files := update p.files i (some bytes) }

theorem setFile_self {p : Posix ι} {i : ι} {bytes : List UInt8} (h : p.files i = some bytes) :
    p.setFile i bytes = p := by
  refine Posix.ext rfl ?_ rfl
  rw [setFile, ← h]
  exact update_eq_self ..

/-- A read takes what there is at the cursor, and nothing at or past the end. -/
def read (size : ℕ) (p : Posix ι) : Option (List UInt8 × Posix ι) :=
  match p.handle owner token with
  | none => none
  | some d =>
    if d.openFlags &&& readIntent = 0 then none
    else
      match p.files d.file with
      | none => none
      | some bytes =>
        let answer := readAt bytes d.cursor size
        some (answer, p.setHandle token (some { d with cursor := d.cursor + answer.length }))

/-- A write goes to the cursor, or to the end for an append handle; a gap reads as zeros and
a write of nothing changes nothing. Files have at most `capacity` bytes. -/
def write (capacity : ℕ) (owner : ProcessHandle) (token : Token) (input : List UInt8)
    (p : Posix ι) : Option (ℕ × Posix ι) :=
  match p.handle owner token with
  | none => none
  | some d =>
    if d.openFlags &&& writeIntent = 0 then none
    else
      match p.files d.file with
      | none => none
      | some bytes =>
        let offset := if d.openFlags &&& appendOnly ≠ 0 then bytes.length else d.cursor
        if capacity < offset + input.length then none
        else if input = [] then some (0, p)
        else
          some (input.length, (p.setFile d.file (writeAt 0 bytes offset input)).setHandle token
            (some { d with cursor := offset + input.length }))

def seek (capacity : ℕ) (owner : ProcessHandle) (token : Token) (offset : ℤ) (whence : ℕ)
    (p : Posix ι) : Option (ℕ × Posix ι) :=
  match p.handle owner token with
  | none => none
  | some d =>
    match p.files d.file with
    | none => none
    | some bytes =>
      match seekBase whence d.cursor bytes.length with
      | none => none
      | some base =>
        if base + offset < 0 ∨ (capacity : ℤ) < base + offset then none
        else
          some ((base + offset).toNat,
            p.setHandle token (some { d with cursor := (base + offset).toNat }))

def close (p : Posix ι) : Option (Unit × Posix ι) :=
  match p.handle owner token with
  | none => none
  | some _ => some ((), p.setHandle token none)

/-- The file that an open finds or makes, with the names and bytes after it. -/
inductive Finds (path : List UInt8) (openFlags : Flags) (p : Posix ι) : ι → Posix ι → Prop
  | found {i : ι} (h : p.names path = some i) :
      Finds path openFlags p i (if openFlags &&& truncate = 0 then p else p.setFile i [])
  | made {i : ι} (h : p.names path = none) (hcreate : openFlags &&& createIntent ≠ 0)
      (hnew : ∀ other, p.names other ≠ some i) :
      Finds path openFlags p i { p.setFile i [] with names := update p.names path (some i) }

/-- A successful open: a new capability, with the cursor at the start, or at the end for an
append handle. -/
def Opens (path : List UInt8) (openFlags : Flags) (token : Token) (p p' : Posix ι) : Prop :=
  p.handles token = none ∧ ∃ i q, Finds path openFlags p i q ∧ p' = q.setHandle token (some
      { owner, file := i, openFlags
        cursor := if openFlags &&& appendOnly ≠ 0 then ((q.files i).getD []).length else 0 })

end Posix

inductive FileCall : Type → Type
  | openPath (owner : ProcessHandle) (path : List UInt8) (openFlags : Flags) (now : ℕ) :
      FileCall (Except VfsError Token)
  | read (owner : ProcessHandle) (token : Token) (size : ℕ) :
      FileCall (Except VfsError (List UInt8))
  | write (owner : ProcessHandle) (token : Token) (input : List UInt8) (now : ℕ) :
      FileCall (Except VfsError ℕ)
  | seek (owner : ProcessHandle) (token : Token) (offset : ℤ) (whence : ℕ) :
      FileCall (Except VfsError ℕ)
  | close (owner : ProcessHandle) (token : Token) : FileCall (Except VfsError Unit)

/-- A call answers as specified: with the result and the new state, or it fails and changes
nothing. -/
def Answers {ι β : Type} (p : Posix ι) (result : Option (β × Posix ι)) (answer : Except VfsError β)
    (p' : Posix ι) : Prop :=
  match answer with
  | .ok b => result = some (b, p')
  | .error _ => result = none ∧ p' = p

/-- A call with its answer, as the specification has it. An open may fail for any reason. -/
def Posix.Step {ι : Type} [DecidableEq ι] (capacity : ℕ) (p : Posix ι) {α : Type} :
    FileCall α → α → Posix ι → Prop
  | .openPath owner path openFlags _ => fun answer p' =>
    match answer with
    | .ok token => Posix.Opens owner path openFlags token p p'
    | .error _ => p' = p
  | .read owner token size => Answers p (p.read owner token size)
  | .write owner token input _ => Answers p (p.write capacity owner token input)
  | .seek owner token offset whence => Answers p (p.seek capacity owner token offset whence)
  | .close owner token => Answers p (p.close owner token)

/-- A call together with its answer. -/
abbrev Exchange : Type 1 := Σ α : Type, FileCall α × α

inductive Posix.Run {ι : Type} [DecidableEq ι] (capacity : ℕ) :
    Posix ι → List Exchange → Posix ι → Prop
  | nil (p : Posix ι) : Run capacity p [] p
  | cons {p q r : Posix ι} {α : Type} {c : FileCall α} {answer : α} {exchanges : List Exchange}
      (hstep : p.Step capacity c answer q) (hrest : Run capacity q exchanges r) :
      Run capacity p (⟨α, c, answer⟩ :: exchanges) r

end ArachKernel.AkashicVfs
