import ArachKernel.Lib.Prog
import ArachKernel.Lib.Table
import ArachKernel.Process.Lifecycle

/-!
Signal dispositions, masks and pending sets (`linux_signal.rs`). Dispositions
belong to a thread group, masks and pending sets to one thread. A pending signal
is one bit, however often it is queued.
-/

namespace ArachKernel.LinuxSignal

open Table Function

def maximumSignal : ℕ := 64
def sigkill : ℕ := 9
def sigstop : ℕ := 19

/-- Sets of signals; signal `n` is bit `n - 1`. -/
abbrev SignalSet := BitVec 64

def saSiginfo : SignalSet := 0x00000004
def saRestorer : SignalSet := 0x04000000
def saRestart : SignalSet := 0x10000000
def saNodefer : SignalSet := 0x40000000
def saResethand : SignalSet := 0x80000000
def supportedActionFlags : SignalSet :=
  saSiginfo ||| saRestorer ||| saRestart ||| saNodefer ||| saResethand

def userAddressMinimum : ℕ := 0x1000
def userAddressLimit : ℕ := 0x0000800000000000

abbrev maximumEntries : ℕ := 64
abbrev signalCount : ℕ := 64

structure SignalAction where
  handler : ℕ
  flags : SignalSet
  restorer : ℕ
  mask : SignalSet
  deriving DecidableEq

def SignalAction.default : SignalAction := { handler := 0, flags := 0, restorer := 0, mask := 0 }

inductive SignalError
  | invalidOwner
  | invalidSignal
  | invalidAction
  | invalidMaskOperation
  | invalidFrame
  | unsupported
  | capacity
  deriving DecidableEq

inductive Delivery
  | none
  | terminate (signal : ℕ)
  | handler (signal : ℕ) (action : SignalAction) (previousMask : SignalSet)
  deriving DecidableEq

structure GroupSlot where
  owner : ProcessHandle
  actions : Fin signalCount → SignalAction

def GroupSlot.empty : GroupSlot := { owner := .empty, actions := fun _ => .default }

def GroupSlot.occupied (slot : GroupSlot) : Bool := slot.owner.valid

structure ThreadSlot where
  owner : ProcessHandle
  blocked : SignalSet
  pending : SignalSet
  activeFrame : ℕ

def ThreadSlot.empty : ThreadSlot :=
  { owner := .empty, blocked := 0, pending := 0, activeFrame := 0 }

def ThreadSlot.occupied (slot : ThreadSlot) : Bool := slot.owner.valid

structure SignalTable where
  groups : Fin maximumEntries → GroupSlot
  threads : Fin maximumEntries → ThreadSlot

def SignalTable.new : SignalTable := { groups := fun _ => .empty, threads := fun _ => .empty }

namespace SignalTable

variable (t : SignalTable)

def setThread (i : Fin maximumEntries) (slot : ThreadSlot) : SignalTable :=
  { t with threads := update t.threads i slot }

def setGroup (i : Fin maximumEntries) (slot : GroupSlot) : SignalTable :=
  { t with groups := update t.groups i slot }

def setAction (i : Fin maximumEntries) (signal : Fin signalCount)
    (action : SignalAction) : SignalTable :=
  t.setGroup i { t.groups i with actions := update (t.groups i).actions signal action }

def findThread (owner : ProcessHandle) : Option (Fin maximumEntries) :=
  position fun i => (t.threads i).occupied && (t.threads i).owner == owner

def findGroup (owner : ProcessHandle) : Option (Fin maximumEntries) :=
  position fun i => (t.groups i).occupied && (t.groups i).owner == owner

/-- The slot of a thread, created when there is room and it has none. -/
def threadMut (owner : ProcessHandle) : Except SignalError (Fin maximumEntries) × SignalTable :=
  match t.findThread owner with
  | some i => (.ok i, t)
  | none =>
    match position fun i => !(t.threads i).occupied with
    | none => (.error .capacity, t)
    | some i => (.ok i, t.setThread i { ThreadSlot.empty with owner })

def action (group : ProcessHandle) (signal : Fin signalCount) : SignalAction :=
  match t.findGroup group with
  | none => .default
  | some i => (t.groups i).actions signal

end SignalTable

variable (owner : ProcessHandle) (signal : ℕ) (t : SignalTable)

/-- The bit of a signal number, as its position in a signal set. -/
def signalBit : Except SignalError (Fin signalCount) :=
  if h : 1 ≤ signal ∧ signal ≤ maximumSignal then
    .ok ⟨signal - 1, by
      simp only [maximumSignal, signalCount] at h ⊢
      omega⟩
  else .error .invalidSignal

def bit (signal : Fin signalCount) : SignalSet := 1#64 <<< signal.val

/-- The signal number of a bit. -/
def signalNumber (signal : Fin signalCount) : ℕ := signal + 1

def unmaskableBits : SignalSet := (1#64 <<< (sigkill - 1)) ||| (1#64 <<< (sigstop - 1))

def sanitizeMask (mask : SignalSet) : SignalSet := mask &&& ~~~unmaskableBits

/-- The lowest signal of a set. -/
def lowest (set : SignalSet) : Option (Fin signalCount) := position fun i => set.getLsbD i

def validUserCode (address : ℕ) : Bool :=
  decide (userAddressMinimum ≤ address) && decide (address < userAddressLimit)

def validateAction (action : SignalAction) : Except SignalError Unit :=
  match signalBit signal with
  | .error e => .error e
  | .ok _ =>
    if action.flags &&& ~~~supportedActionFlags ≠ 0 then .error .invalidAction
    else if 1 < action.handler ∧ (!validUserCode action.handler ∨
        action.flags &&& saRestorer = 0 ∨ !validUserCode action.restorer) then
      .error .invalidAction
    else .ok ()

/-- Read, and with a replacement also set, the disposition of a signal. -/
def setAction (group : ProcessHandle) (signal : ℕ) (replacement : Option SignalAction)
    (t : SignalTable) : Except SignalError SignalAction × SignalTable :=
  if !group.valid then (.error .invalidOwner, t)
  else
    match signalBit signal with
    | .error e => (.error e, t)
    | .ok position =>
      match replacement with
      | none =>
        match t.findGroup group with
        | none => (.ok .default, t)
        | some i => (.ok ((t.groups i).actions position), t)
      | some replacement =>
        if signal = sigkill ∨ signal = sigstop then (.error .invalidAction, t)
        else
          match validateAction signal replacement with
          | .error e => (.error e, t)
          | .ok () =>
            let stored := { replacement with mask := sanitizeMask replacement.mask }
            match t.findGroup group with
            | some i => (.ok ((t.groups i).actions position), t.setAction i position stored)
            | none =>
              match Table.position fun i => !(t.groups i).occupied with
              | none => (.error .capacity, t)
              | some i =>
                let t := t.setGroup i { GroupSlot.empty with owner := group }
                (.ok .default, t.setAction i position stored)

def updateMask (operation : ℕ) (replacement : Option SignalSet)
    (t : SignalTable) : Except SignalError SignalSet × SignalTable :=
  if !owner.valid then (.error .invalidOwner, t)
  else if replacement.isSome ∧ 2 < operation then (.error .invalidMaskOperation, t)
  else
    match t.threadMut owner with
    | (.error e, t) => (.error e, t)
    | (.ok i, t) =>
      let previous := (t.threads i).blocked
      match replacement with
      | none => (.ok previous, t)
      | some mask =>
        let mask := sanitizeMask mask
        let blocked := match operation with
          | 0 => previous ||| mask
          | 1 => previous &&& ~~~mask
          | _ => mask
        (.ok previous, t.setThread i { t.threads i with blocked })

def inheritMask (parent child : ProcessHandle) (t : SignalTable) :
    Except SignalError Unit × SignalTable :=
  if !parent.valid || !child.valid then (.error .invalidOwner, t)
  else
    let parentMask := ((t.findThread parent).map fun i => (t.threads i).blocked).getD 0
    match t.threadMut child with
    | (.error e, t) => (.error e, t)
    | (.ok i, t) => (.ok (), t.setThread i { t.threads i with blocked := parentMask })

def queue : Except SignalError Unit × SignalTable :=
  if !owner.valid then (.error .invalidOwner, t)
  else
    match signalBit signal with
    | .error e => (.error e, t)
    | .ok position =>
      if signal = sigstop then (.error .unsupported, t)
      else
        match t.threadMut owner with
        | (.error e, t) => (.error e, t)
        | (.ok i, t) =>
          let thread := t.threads i
          (.ok (), t.setThread i { thread with pending := thread.pending ||| bit position })

def pendingMask : SignalSet :=
  match t.findThread owner with
  | none => 0
  | some i => (t.threads i).pending

def pendingForSignalfd (mask : SignalSet) (t : SignalTable) : Bool :=
  pendingMask owner t &&& mask != 0

/-- Remove the lowest pending signal that `mask` selects. -/
def dequeueForSignalfd (mask : SignalSet) (t : SignalTable) : Option ℕ × SignalTable :=
  match t.findThread owner with
  | none => (none, t)
  | some i =>
    let thread := t.threads i
    match lowest (thread.pending &&& mask) with
    | none => (none, t)
    | some signal =>
      (some (signalNumber signal),
        t.setThread i { thread with pending := thread.pending &&& ~~~bit signal })

def deliveryPending : Bool :=
  match t.findThread owner with
  | none => false
  | some i =>
    let thread := t.threads i
    thread.activeFrame == 0 && thread.pending &&& (~~~thread.blocked ||| unmaskableBits) != 0

def defaultIgnored : Bool := signal == 17 || signal == 18 || signal == 23 || signal == 28

/-- Take pending signals, lowest first, until one is not ignored. Each round
clears one bit, so `signalCount + 1` rounds are enough. -/
def deliver (group : ProcessHandle) (frame : ℕ) (i : Fin maximumEntries) :
    ℕ → SignalTable → Delivery × SignalTable
  | 0, t => (.none, t)
  | fuel + 1, t =>
    let thread := t.threads i
    let deliverable := thread.pending &&& ~~~thread.blocked &&& ~~~unmaskableBits
    let forced := thread.pending &&& unmaskableBits
    match lowest (deliverable ||| forced) with
    | none => (.none, t)
    | some position =>
      let signal := signalNumber position
      let action := t.action group position
      let thread := { thread with pending := thread.pending &&& ~~~bit position }
      let t := t.setThread i thread
      if action.handler = 1 ∨ action.handler = 0 ∧ defaultIgnored signal then
        deliver group frame i fuel t
      else if action.handler = 0 ∨ signal = sigkill ∨ signal = sigstop then
        (.terminate signal, t)
      else
        let previousMask := thread.blocked
        let selfMask := if action.flags &&& saNodefer = 0 then bit position else 0
        let t := t.setThread i
          { thread with
            blocked := sanitizeMask (previousMask ||| action.mask ||| selfMask)
            activeFrame := frame }
        let t :=
          if action.flags &&& saResethand ≠ 0 then
            match t.findGroup group with
            | none => t
            | some g => t.setAction g position .default
          else t
        (.handler signal action previousMask, t)

def beginDelivery (owner group : ProcessHandle) (frame : ℕ) (t : SignalTable) :
    Except SignalError Delivery × SignalTable :=
  if !owner.valid || !group.valid || !validUserCode frame then (.error .invalidOwner, t)
  else
    match t.findThread owner with
    | none => (.error .invalidOwner, t)
    | some i =>
      if (t.threads i).activeFrame ≠ 0 then (.ok .none, t)
      else
        let delivered := deliver group frame i (signalCount + 1) t
        (.ok delivered.1, delivered.2)

def finishSigreturn (frame : ℕ) (restoredMask : SignalSet)
    (t : SignalTable) : Except SignalError Unit × SignalTable :=
  match t.findThread owner with
  | none => (.error .invalidOwner, t)
  | some i =>
    if frame = 0 ∨ (t.threads i).activeFrame ≠ frame then (.error .invalidFrame, t)
    else
      (.ok (), t.setThread i
        { t.threads i with blocked := sanitizeMask restoredMask, activeFrame := 0 })

def clearThread (clearGroup : Option ProcessHandle) (t : SignalTable) : SignalTable :=
  let t := match t.findThread owner with
    | none => t
    | some i => t.setThread i .empty
  match clearGroup.bind t.findGroup with
  | none => t
  | some g => t.setGroup g .empty

/-- The transition of a successful `exec`: caught signals return to default. -/
def resetForExec : SignalTable :=
  let t := match t.findGroup owner with
    | none => t
    | some g => t.setGroup g
        { t.groups g with
          actions := fun signal =>
            let action := (t.groups g).actions signal
            if action.handler ≠ 1 then .default else action }
  match t.findThread owner with
  | none => t
  | some i => t.setThread i { t.threads i with pending := 0, activeFrame := 0 }

inductive SignalCall : Type → Type
  | setAction (group : ProcessHandle) (signal : ℕ) (replacement : Option SignalAction) :
      SignalCall (Except SignalError SignalAction)
  | updateMask (owner : ProcessHandle) (operation : ℕ) (replacement : Option SignalSet) :
      SignalCall (Except SignalError SignalSet)
  | inheritMask (parent child : ProcessHandle) : SignalCall (Except SignalError Unit)
  | queue (owner : ProcessHandle) (signal : ℕ) : SignalCall (Except SignalError Unit)
  | dequeueForSignalfd (owner : ProcessHandle) (mask : SignalSet) : SignalCall (Option ℕ)
  | beginDelivery (owner group : ProcessHandle) (frame : ℕ) :
      SignalCall (Except SignalError Delivery)
  | finishSigreturn (owner : ProcessHandle) (frame : ℕ) (restoredMask : SignalSet) :
      SignalCall (Except SignalError Unit)
  | clearThread (owner : ProcessHandle) (clearGroup : Option ProcessHandle) : SignalCall Unit
  | resetForExec (owner : ProcessHandle) : SignalCall Unit

def exec : Handler SignalCall SignalTable
  | _, .setAction group signal replacement, t => setAction group signal replacement t
  | _, .updateMask owner operation replacement, t => updateMask owner operation replacement t
  | _, .inheritMask parent child, t => inheritMask parent child t
  | _, .queue owner signal, t => queue owner signal t
  | _, .dequeueForSignalfd owner mask, t => dequeueForSignalfd owner mask t
  | _, .beginDelivery owner group frame, t => beginDelivery owner group frame t
  | _, .finishSigreturn owner frame restoredMask, t => finishSigreturn owner frame restoredMask t
  | _, .clearThread owner clearGroup, t => ((), clearThread owner clearGroup t)
  | _, .resetForExec owner, t => ((), resetForExec owner t)

end ArachKernel.LinuxSignal
