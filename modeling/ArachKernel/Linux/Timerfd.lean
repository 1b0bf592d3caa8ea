import ArachKernel.Lib.Handle
import ArachKernel.Lib.Prog
import ArachKernel.Lib.Table
import ArachKernel.Process.Lifecycle

/-!
Timers (`linux_timerfd.rs`). Expiry is evaluated lazily: every function first
advances the timer to the time it is given.
-/

namespace ArachKernel.LinuxTimerfd

open Table Function

def clockMonotonic : ℕ := 1
def tfdTimerAbstime : Flags := 1
def tfdNonblock : Flags := 0x800
def tfdCloexec : Flags := 0x80000
def timerfdCreateAllowedFlags : Flags := tfdNonblock ||| tfdCloexec
def timerfdSettimeAllowedFlags : Flags := tfdTimerAbstime

abbrev maximumTimerfds : ℕ := 64
def timerfdBase : ℕ := 0x2000

structure TimerSpec where
  valueNs : ℕ
  intervalNs : ℕ
  deriving DecidableEq

inductive TimerFdError
  | invalidArgument
  | badFileDescriptor
  | wouldBlock
  | capacity
  deriving DecidableEq

/-- A timer. `readinessAdvances` counts the advances of the 64-bit readiness
generation, which is read out modulo its width. -/
structure TimerFdSlot where
  owner : ℕ
  flags : Flags
  intervalNs : ℕ
  nextExpirationNs : ℕ
  expirations : ℕ
  readinessAdvances : ℕ

def TimerFdSlot.empty : TimerFdSlot where
  owner := 0
  flags := 0
  intervalNs := 0
  nextExpirationNs := 0
  expirations := 0
  readinessAdvances := 0

variable (slot : TimerFdSlot) (owner fd nowNs : ℕ) (t : TimerFdTable)

def TimerFdSlot.occupied : Bool := slot.owner != 0

abbrev TimerFdTable := Fin maximumTimerfds → TimerFdSlot

def indexForFd (fd : ℕ) : Option (Fin maximumTimerfds) :=
  Handle.indexFrom maximumTimerfds timerfdBase fd

def fdForIndex (index : Fin maximumTimerfds) : ℕ := timerfdBase + index

def checkedDeadline (nowNs valueNs : ℕ) : Option ℕ := checkedAdd u64Max nowNs valueNs

/-- The slot that `fd` names for `owner`. -/
def resolved (owner fd : ℕ) (t : TimerFdTable) : Option (Fin maximumTimerfds) :=
  (indexForFd fd).filter fun index => (t index).occupied && (t index).owner == owner

/-- Record every interval that has elapsed by `nowNs`. -/
def refresh (nowNs : ℕ) : TimerFdSlot :=
  if slot.nextExpirationNs = 0 ∨ nowNs < slot.nextExpirationNs then slot
  else
    let elapsed := nowNs - slot.nextExpirationNs
    let count := if slot.intervalNs = 0 then 1 else min u64Max (elapsed / slot.intervalNs + 1)
    { slot with
      expirations := min u64Max (slot.expirations + count)
      readinessAdvances :=
        if slot.expirations = 0 then slot.readinessAdvances + 1 else slot.readinessAdvances
      nextExpirationNs :=
        if slot.intervalNs = 0 then 0
        else min u64Max (slot.nextExpirationNs + min u64Max (slot.intervalNs * count)) }

def create (owner clockid : ℕ) (flags : Flags) (t : TimerFdTable) :
    Except TimerFdError ℕ × TimerFdTable :=
  if owner = 0 ∨ clockid ≠ clockMonotonic ∨ flags &&& ~~~timerfdCreateAllowedFlags ≠ 0 then
    (.error .invalidArgument, t)
  else
    match position fun i => !(t i).occupied with
    | none => (.error .capacity, t)
    | some index =>
      (.ok (fdForIndex index), update t index { TimerFdSlot.empty with owner, flags })

def remaining (nowNs : ℕ) : TimerSpec :=
  { valueNs := slot.nextExpirationNs - nowNs, intervalNs := slot.intervalNs }

def settime (owner fd : ℕ) (flags : Flags) (newValue : TimerSpec) (nowNs : ℕ) (t : TimerFdTable) :
    Except TimerFdError TimerSpec × TimerFdTable :=
  if flags &&& ~~~timerfdSettimeAllowedFlags ≠ 0 then (.error .invalidArgument, t)
  else
    match resolved owner fd t with
    | none => (.error .badFileDescriptor, t)
    | some index =>
      let slot := refresh (t index) nowNs
      let old := remaining slot nowNs
      if newValue.valueNs = 0 then
        (.ok old, update t index
          { slot with intervalNs := 0, nextExpirationNs := 0, expirations := 0 })
      else
        let deadline :=
          if flags &&& tfdTimerAbstime ≠ 0 then some newValue.valueNs
          else checkedDeadline nowNs newValue.valueNs
        match deadline.filter (· ≠ 0) with
        | none => (.error .invalidArgument, update t index slot)
        | some deadline =>
          (.ok old, update t index
            { slot with
              intervalNs := newValue.intervalNs
              nextExpirationNs := deadline
              expirations := 0 })

def gettime : Except TimerFdError TimerSpec × TimerFdTable :=
  match resolved owner fd t with
  | none => (.error .badFileDescriptor, t)
  | some index =>
    let slot := refresh (t index) nowNs
    (.ok (remaining slot nowNs), update t index slot)

/-- Read and consume the accumulated expirations. -/
def read : Except TimerFdError ℕ × TimerFdTable :=
  match resolved owner fd t with
  | none => (.error .badFileDescriptor, t)
  | some index =>
    let slot := refresh (t index) nowNs
    if slot.expirations = 0 then (.error .wouldBlock, update t index slot)
    else
      (.ok slot.expirations, update t index
        { slot with expirations := 0, readinessAdvances := slot.readinessAdvances + 1 })

def slotReadiness : Flags := if slot.expirations ≠ 0 then readyIn else 0

def readiness : Except TimerFdError Flags × TimerFdTable :=
  match resolved owner fd t with
  | none => (.error .badFileDescriptor, t)
  | some index =>
    let slot := refresh (t index) nowNs
    (.ok (slotReadiness slot), update t index slot)

def readinessGeneration : Except TimerFdError ℕ × TimerFdTable :=
  match resolved owner fd t with
  | none => (.error .badFileDescriptor, t)
  | some index =>
    let slot := refresh (t index) nowNs
    (.ok (slot.readinessAdvances % 2 ^ 64), update t index slot)

def close (owner fd : ℕ) (t : TimerFdTable) : Except TimerFdError Unit × TimerFdTable :=
  match resolved owner fd t with
  | none => (.error .badFileDescriptor, t)
  | some index => (.ok (), update t index .empty)

inductive TimerfdCall : Type → Type
  | create (owner clockid : ℕ) (flags : Flags) : TimerfdCall (Except TimerFdError ℕ)
  | settime (owner fd : ℕ) (flags : Flags) (newValue : TimerSpec) (nowNs : ℕ) :
      TimerfdCall (Except TimerFdError TimerSpec)
  | gettime (owner fd nowNs : ℕ) : TimerfdCall (Except TimerFdError TimerSpec)
  | read (owner fd nowNs : ℕ) : TimerfdCall (Except TimerFdError ℕ)
  | readiness (owner fd nowNs : ℕ) : TimerfdCall (Except TimerFdError Flags)
  | readinessGeneration (owner fd nowNs : ℕ) : TimerfdCall (Except TimerFdError ℕ)
  | close (owner fd : ℕ) : TimerfdCall (Except TimerFdError Unit)

def exec : Handler TimerfdCall TimerFdTable
  | _, .create owner clockid flags, t => create owner clockid flags t
  | _, .settime owner fd flags newValue nowNs, t => settime owner fd flags newValue nowNs t
  | _, .gettime owner fd nowNs, t => gettime owner fd nowNs t
  | _, .read owner fd nowNs, t => read owner fd nowNs t
  | _, .readiness owner fd nowNs, t => readiness owner fd nowNs t
  | _, .readinessGeneration owner fd nowNs, t => readinessGeneration owner fd nowNs t
  | _, .close owner fd, t => close owner fd t

end ArachKernel.LinuxTimerfd
