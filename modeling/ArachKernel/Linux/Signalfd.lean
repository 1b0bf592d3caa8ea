import ArachKernel.Lib.Handle
import ArachKernel.Linux.Signal

/-!
Signal descriptors (`linux_signalfd.rs`). A slot selects, by its mask, which of
its owner's pending signals it shows. Its readiness and its readiness generation
are computed from the pending set; the slot itself keeps no generation.
-/

namespace ArachKernel.LinuxSignalfd

open Table LinuxSignal

def sfdNonblock : Flags := 0x800
def sfdCloexec : Flags := 0x80000
def signalfdAllowedFlags : Flags := sfdNonblock ||| sfdCloexec
def signalfdInfoBytes : ℕ := 128

abbrev maximumSignalfds : ℕ := 32
def signalfdBase : ℕ := 0x4000

inductive SignalFdError
  | invalidArgument
  | badFileDescriptor
  | wouldBlock
  | capacity
  deriving DecidableEq

structure SignalFdSlot where
  owner : ProcessHandle
  mask : SignalSet
  flags : Flags

def SignalFdSlot.empty : SignalFdSlot := { owner := .empty, mask := 0, flags := 0 }

def SignalFdSlot.occupied (slot : SignalFdSlot) : Bool := slot.owner.valid

abbrev SignalFdTable := Fin maximumSignalfds → SignalFdSlot

variable (owner : ProcessHandle) (fd : ℕ) (t : SignalFdTable)

def indexForFd : Option (Fin maximumSignalfds) :=
  Handle.indexFrom maximumSignalfds signalfdBase fd

def fdForIndex (index : Fin maximumSignalfds) : ℕ := signalfdBase + index

/-- The slot that `fd` names for `owner`. -/
def resolved : Option (Fin maximumSignalfds) :=
  (indexForFd fd).filter fun index => (t index).occupied && (t index).owner == owner

def create (mask : SignalSet) (flags : Flags) (t : SignalFdTable) :
    Except SignalFdError ℕ × SignalFdTable :=
  if !owner.valid ∨ flags &&& ~~~signalfdAllowedFlags ≠ 0 then (.error .invalidArgument, t)
  else
    match position fun i => !(t i).occupied with
    | none => (.error .capacity, t)
    | some index => (.ok (fdForIndex index), Function.update t index { owner, mask, flags })

def update (mask : SignalSet) (t : SignalFdTable) : Except SignalFdError Unit × SignalFdTable :=
  match resolved owner fd t with
  | none => (.error .badFileDescriptor, t)
  | some index => (.ok (), Function.update t index { t index with mask })

/-- The first section of `read`: check the buffer and fetch the mask. -/
def readMask (fd size : ℕ) (t : SignalFdTable) : Except SignalFdError (SignalSet × ProcessHandle) :=
  if size < signalfdInfoBytes ∨ size % signalfdInfoBytes ≠ 0 then .error .invalidArgument
  else
    match resolved owner fd t with
    | none => .error .badFileDescriptor
    | some index => .ok ((t index).mask, (t index).owner)

def readiness (signals : SignalTable) : Except SignalFdError Flags :=
  match resolved owner fd t with
  | none => .error .badFileDescriptor
  | some index =>
    .ok (if pendingForSignalfd owner (t index).mask signals then readyIn else 0)

def readinessGeneration (signals : SignalTable) : Except SignalFdError ℕ :=
  match resolved owner fd t with
  | none => .error .badFileDescriptor
  | some index => .ok (pendingMask owner signals &&& (t index).mask).toNat

def close : Except SignalFdError Unit × SignalFdTable :=
  match resolved owner fd t with
  | none => (.error .badFileDescriptor, t)
  | some index => (.ok (), Function.update t index .empty)

/-- The sections of the module. `readiness` and `readinessGeneration` read the
signal table while they hold the signalfd table. -/
inductive SignalfdCall : Type → Type
  | create (owner : ProcessHandle) (mask : SignalSet) (flags : Flags) :
      SignalfdCall (Except SignalFdError ℕ)
  | update (owner : ProcessHandle) (fd : ℕ) (mask : SignalSet) :
      SignalfdCall (Except SignalFdError Unit)
  | readMask (owner : ProcessHandle) (fd size : ℕ) :
      SignalfdCall (Except SignalFdError (SignalSet × ProcessHandle))
  | readiness (owner : ProcessHandle) (fd : ℕ) : SignalfdCall (Except SignalFdError Flags)
  | readinessGeneration (owner : ProcessHandle) (fd : ℕ) : SignalfdCall (Except SignalFdError ℕ)
  | close (owner : ProcessHandle) (fd : ℕ) : SignalfdCall (Except SignalFdError Unit)

def exec (signals : SignalTable) : Handler SignalfdCall SignalFdTable
  | _, .create owner mask flags, t => create owner mask flags t
  | _, .update owner fd mask, t => update owner fd mask t
  | _, .readMask owner fd size, t => (readMask owner fd size t, t)
  | _, .readiness owner fd, t => (readiness owner fd t signals, t)
  | _, .readinessGeneration owner fd, t => (readinessGeneration owner fd t signals, t)
  | _, .close owner fd, t => close owner fd t

end ArachKernel.LinuxSignalfd
