import ArachKernel.Lib.Handle
import ArachKernel.Lib.Prog
import ArachKernel.Lib.Table
import ArachKernel.Process.Lifecycle

/-!
Event counters (`linux_eventfd.rs`). A slot belongs to a process number; its
handle is the slot index above a fixed base.
-/

namespace ArachKernel.LinuxEventfd

open Table Function

def efdSemaphore : Flags := 0x1
def efdNonblock : Flags := 0x800
def efdCloexec : Flags := 0x80000
def eventfdAllowedFlags : Flags := efdSemaphore ||| efdNonblock ||| efdCloexec

abbrev maximumEventfds : ℕ := 64
def eventfdBase : ℕ := 0x100

inductive EventFdError
  | invalidArgument
  | badFileDescriptor
  | wouldBlock
  | overflow
  | capacity
  | permissionDenied
  deriving DecidableEq

/-- An event counter. `readinessAdvances` counts the advances of the 64-bit
readiness generation, which is read out modulo its width. -/
structure EventFdSlot where
  owner : ℕ
  counter : ℕ
  flags : Flags
  readinessAdvances : ℕ

def EventFdSlot.empty : EventFdSlot where
  owner := 0
  counter := 0
  flags := 0
  readinessAdvances := 0

def EventFdSlot.occupied (slot : EventFdSlot) : Bool := slot.owner != 0

abbrev EventFdTable := Fin maximumEventfds → EventFdSlot

def indexForFd (fd : ℕ) : Option (Fin maximumEventfds) :=
  Handle.indexFrom maximumEventfds eventfdBase fd

def fdForIndex (index : Fin maximumEventfds) : ℕ := eventfdBase + index

/-- The slot that `fd` names for `owner`. -/
def resolved (owner fd : ℕ) (t : EventFdTable) : Option (Fin maximumEventfds) :=
  (indexForFd fd).filter fun index => (t index).occupied && (t index).owner == owner

def create (owner initial : ℕ) (flags : Flags) (t : EventFdTable) :
    Except EventFdError ℕ × EventFdTable :=
  if owner = 0 ∨ flags &&& ~~~eventfdAllowedFlags ≠ 0 then (.error .invalidArgument, t)
  else
    match position fun i => !(t i).occupied with
    | none => (.error .capacity, t)
    | some index =>
      (.ok (fdForIndex index), update t index
        { owner, counter := initial, flags, readinessAdvances := if initial ≠ 0 then 1 else 0 })

/-- Take one unit from a semaphore, or the whole counter. -/
def read (owner fd : ℕ) (t : EventFdTable) : Except EventFdError ℕ × EventFdTable :=
  match resolved owner fd t with
  | none => (.error .badFileDescriptor, t)
  | some index =>
    let slot := t index
    if slot.counter = 0 then (.error .wouldBlock, t)
    else if slot.flags &&& efdSemaphore ≠ 0 then
      let counter := slot.counter - 1
      (.ok 1, update t index
        { slot with
          counter
          readinessAdvances :=
            if counter = 0 then slot.readinessAdvances + 1 else slot.readinessAdvances })
    else
      (.ok slot.counter, update t index
        { slot with counter := 0, readinessAdvances := slot.readinessAdvances + 1 })

def write (owner fd value : ℕ) (t : EventFdTable) : Except EventFdError Unit × EventFdTable :=
  match indexForFd fd with
  | none => (.error .badFileDescriptor, t)
  | some _ =>
    if value = u64Max then (.error .invalidArgument, t)
    else
      match resolved owner fd t with
      | none => (.error .badFileDescriptor, t)
      | some index =>
        let slot := t index
        match checkedAdd u64Max slot.counter value with
        | none => (.error .overflow, t)
        | some counter =>
          (.ok (), update t index
            { slot with
              counter
              readinessAdvances :=
                if slot.counter = 0 ∧ counter ≠ 0 then slot.readinessAdvances + 1
                else slot.readinessAdvances })

/-- Readable while the counter is not zero, writable until it is full. -/
def slotReadiness (slot : EventFdSlot) : Flags :=
  let ready := readyOut
  let ready := if slot.counter ≠ 0 then ready ||| readyIn else ready
  if slot.counter = u64Max then ready &&& ~~~readyOut else ready

def readiness (owner fd : ℕ) (t : EventFdTable) : Except EventFdError Flags :=
  match resolved owner fd t with
  | none => .error .badFileDescriptor
  | some index => .ok (slotReadiness (t index))

def readinessGeneration (owner fd : ℕ) (t : EventFdTable) : Except EventFdError ℕ :=
  match resolved owner fd t with
  | none => .error .badFileDescriptor
  | some index => .ok ((t index).readinessAdvances % 2 ^ 64)

def close (owner fd : ℕ) (t : EventFdTable) : Except EventFdError Unit × EventFdTable :=
  match resolved owner fd t with
  | none => (.error .badFileDescriptor, t)
  | some index => (.ok (), update t index .empty)

inductive EventfdCall : Type → Type
  | create (owner initial : ℕ) (flags : Flags) : EventfdCall (Except EventFdError ℕ)
  | read (owner fd : ℕ) : EventfdCall (Except EventFdError ℕ)
  | write (owner fd value : ℕ) : EventfdCall (Except EventFdError Unit)
  | readiness (owner fd : ℕ) : EventfdCall (Except EventFdError Flags)
  | readinessGeneration (owner fd : ℕ) : EventfdCall (Except EventFdError ℕ)
  | close (owner fd : ℕ) : EventfdCall (Except EventFdError Unit)

def exec : Handler EventfdCall EventFdTable
  | _, .create owner initial flags, t => create owner initial flags t
  | _, .read owner fd, t => read owner fd t
  | _, .write owner fd value, t => write owner fd value t
  | _, .readiness owner fd, t => (readiness owner fd t, t)
  | _, .readinessGeneration owner fd, t => (readinessGeneration owner fd t, t)
  | _, .close owner fd, t => close owner fd t

/-! ### Accounts -/

variable {α β : Type} {owner fd : ℕ} {t : EventFdTable} {i : Fin maximumEventfds}

theorem resolved_eq_some (h : resolved owner fd t = some i) : fd = fdForIndex i := by
  grind [resolved, indexForFd, fdForIndex, Handle.indexFrom]

/-- What the answer to a call says about the counter of `fd`. -/
def account (fd : ℕ) (counter : ℤ) : EventfdCall β → β → ℤ
  | .create _ initial _, .ok fd' => if fd' = fd then initial else counter
  | .read _ fd', .ok taken => if fd' = fd then counter - taken else counter
  | .write _ fd' value, .ok () => if fd' = fd then counter + value else counter
  | .close _ fd', .ok () => if fd' = fd then 0 else counter
  | .create .., .error _ | .read .., .error _ | .write .., .error _ | .close .., .error _
  | .readiness .., _ | .readinessGeneration .., _ => counter

/-- The calls, with an account of their answers kept beside the table. -/
def accounted : Handler EventfdCall (EventFdTable × (ℕ → ℤ)) := fun β call (t, accounts) =>
  let (answer, t) := exec β call t
  (answer, t, fun fd => account fd (accounts fd) call answer)

/-- Every slot holds what its answers add up to, and has an odd generation while it holds
something. -/
def Accounted (s : EventFdTable × (ℕ → ℤ)) : Prop :=
  ∀ i, (s.1 i).counter = s.2 (fdForIndex i) ∧
    ((s.1 i).readinessAdvances % 2 = 1 ↔ (s.1 i).counter ≠ 0)

theorem Accounted.update {accounts value : ℕ → ℤ} {slot : EventFdSlot}
    (h : Accounted (t, accounts)) (hslot : slot.counter = value (fdForIndex i) ∧
      (slot.readinessAdvances % 2 = 1 ↔ slot.counter ≠ 0)) :
    Accounted (update t i slot, fun fd => if fdForIndex i = fd then value fd else accounts fd) := by
  intro j
  by_cases hj : i = j
  · subst hj
    simpa using hslot
  · have hfd : fdForIndex i ≠ fdForIndex j := by simpa [fdForIndex, Fin.ext_iff] using hj
    simpa [Ne.symm hj, hfd] using h j

theorem Accounted.exec {s : EventFdTable × (ℕ → ℤ)} (h : Accounted s) (call : EventfdCall β) :
    Accounted (accounted β call s).2 := by
  cases call with
  | create owner initial flags =>
    simp only [accounted, exec, create]
    split
    · exact h
    split
    · exact h
    · exact h.update (by dsimp only; split <;> omega)
  | read owner fd =>
    simp only [accounted, exec, read]
    split
    · exact h
    next i hi =>
    have hslot := h i
    obtain rfl := resolved_eq_some hi
    split
    · exact h
    split
    · exact h.update (by dsimp only; split <;> omega)
    · exact h.update (by dsimp only; omega)
  | write owner fd value =>
    simp only [accounted, exec, write]
    split
    · exact h
    split
    · exact h
    split
    · exact h
    next i hi =>
    have hslot := h i
    obtain rfl := resolved_eq_some hi
    split
    · exact h
    next hadd =>
    obtain ⟨-, rfl⟩ := checkedAdd_eq_some.mp hadd
    exact h.update (by dsimp only; split <;> omega)
  | close owner fd =>
    simp only [accounted, exec, close]
    split
    · exact h
    next i hi =>
    obtain rfl := resolved_eq_some hi
    exact h.update ⟨rfl, by simp [EventFdSlot.empty]⟩
  | readiness | readinessGeneration => exact h

/-- In every order of calls, what can be read of a descriptor is what was put in and not yet
taken. It is readable, and its generation odd, while something is left: equal generations
mean equal readiness. -/
theorem counters_accounted (p : Prog EventfdCall α) (owner fd : ℕ) :
    let s := (p.run accounted (fun _ => .empty, 0)).2
    (∀ taken, (read owner fd s.1).1 = .ok taken → 0 < taken ∧ taken ≤ s.2 fd) ∧
    ((read owner fd s.1).1 = .error .wouldBlock → s.2 fd = 0) ∧
    (∀ ready, readiness owner fd s.1 = .ok ready → (ready &&& readyIn ≠ 0 ↔ s.2 fd ≠ 0)) ∧
    ∀ generation, readinessGeneration owner fd s.1 = .ok generation →
      (generation % 2 = 1 ↔ s.2 fd ≠ 0) := by
  intro s
  have hs : Accounted s := (Reachable.start.run p).invariant
    (fun _ => ⟨rfl, by simp [EventFdSlot.empty]⟩) fun call _ h => h.exec call
  clear_value s
  cases hi : resolved owner fd s.1 with
  | none => simp [read, readiness, readinessGeneration, hi]
  | some i =>
    obtain ⟨hcounter, hgen⟩ := hs i
    obtain rfl := resolved_eq_some hi
    simp only [read, readiness, readinessGeneration, hi, ← hcounter]
    clear hcounter
    refine ⟨fun taken => ?_, ?_, ?_, ?_⟩
    · split_ifs <;> rintro ⟨⟩ <;> omega
    · split_ifs <;> simp [*]
    · rintro _ ⟨⟩
      unfold slotReadiness
      split_ifs <;> simp_all [readyIn, readyOut]
    · rintro _ ⟨⟩
      omega

end ArachKernel.LinuxEventfd
