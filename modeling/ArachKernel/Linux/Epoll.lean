import ArachKernel.Lib.Handle
import ArachKernel.Lib.Prog
import ArachKernel.Lib.Table
import ArachKernel.Process.Lifecycle

/-!
The epoll table (`linux_epoll.rs`): epoll objects and their watches. A watch holds
the key of its target. The functions here are the sections under the table lock;
the scan of the targets, which goes through the descriptor table, is in
`ArachKernel.Linux.Fd`.
-/

namespace ArachKernel.LinuxEpoll

open Table Function

def epollCloexec : Flags := 0x80000
def epollAllowedFlags : Flags := epollCloexec

/-- The operations of `epoll_ctl`, by their numbers. -/
def epollCtlAdd : ℕ := 1
def epollCtlDel : ℕ := 2
def epollCtlMod : ℕ := 3

def epollIn : Flags := readyIn
def epollOut : Flags := readyOut
def epollErr : Flags := readyErr
def epollHup : Flags := readyHup
def epollEt : Flags := 1 <<< 31
def epollInterestMask : Flags := epollIn ||| epollOut ||| epollErr ||| epollHup ||| epollEt

abbrev maximumEpollObjects : ℕ := 16
abbrev maximumEpollWatches : ℕ := 64
def epollBase : ℕ := 0x1000

inductive EpollError
  | invalidArgument
  | badFileDescriptor
  | alreadyExists
  | notFound
  | capacity
  deriving DecidableEq

structure ReadyEvent where
  events : Flags
  data : ℕ
  deriving DecidableEq

structure Watch where
  target : ObjectKey
  registration : ℕ
  events : Flags
  data : ℕ
  lastReady : Flags
  lastGeneration : ℕ
  edgeSeen : Bool

def Watch.empty : Watch where
  target := .empty
  registration := 0
  events := 0
  data := 0
  lastReady := 0
  lastGeneration := 0
  edgeSeen := false

variable (watch : Watch) (target : ObjectKey) (slot : EpollSlot) (owner : ProcessHandle)

def Watch.occupied : Bool := !watch.target.isEmpty

structure EpollSlot where
  owner : ProcessHandle
  flags : Flags
  nextRegistration : ℕ
  watches : Fin maximumEpollWatches → Watch

def EpollSlot.empty : EpollSlot where
  owner := .empty
  flags := 0
  nextRegistration := 0
  watches := fun _ => .empty

def EpollSlot.occupied : Bool := slot.owner.valid

def EpollSlot.setWatch (i : Fin maximumEpollWatches) (watch : Watch) : EpollSlot :=
  { slot with watches := update slot.watches i watch }

abbrev EpollTable := Fin maximumEpollObjects → EpollSlot

def EpollTable.new : EpollTable := fun _ => .empty

def indexForFd (fd : ℕ) : Option (Fin maximumEpollObjects) :=
  Handle.indexFrom maximumEpollObjects epollBase fd

def fdForIndex (index : Fin maximumEpollObjects) : ℕ := epollBase + index

/-- The slot that `epfd` names for `owner`. -/
def resolved (epfd : ℕ) (t : EpollTable) : Option (Fin maximumEpollObjects) :=
  (indexForFd epfd).filter fun index => (t index).occupied && (t index).owner == owner

def create (flags : Flags) (t : EpollTable) : Except EpollError ℕ × EpollTable :=
  if owner.pid = 0 ∨ owner.generation = 0 ∨ flags &&& ~~~epollAllowedFlags ≠ 0 then
    (.error .invalidArgument, t)
  else
    match position fun i => !(t i).occupied with
    | none => (.error .capacity, t)
    | some index =>
      (.ok (fdForIndex index), update t index { EpollSlot.empty with owner, flags })

/-- A new registration of `target`, armed. -/
def newWatch (registration : ℕ) (events : Flags) (data : ℕ) : Watch where
  target := target
  registration := registration
  events := events
  data := data
  lastReady := 0
  lastGeneration := 0
  edgeSeen := false

/-- Register `target` in a slot's watch `i` under the next registration number. -/
def register (i : Fin maximumEpollWatches) (target : ObjectKey)
    (events : Flags) (data : ℕ) : Option EpollSlot :=
  match (checkedAdd u64Max slot.nextRegistration 1).filter (· ≠ 0) with
  | none => none
  | some registration =>
    some ({ slot with nextRegistration := registration }.setWatch i
      (newWatch target registration events data))

/-- The locked part of `ctl`: add, modify or remove the watch of a target. -/
def ctlLocked (epfd operation : ℕ) (target : ObjectKey) (events : Flags)
    (data : ℕ) (t : EpollTable) : Except EpollError Unit × EpollTable :=
  match resolved owner epfd t with
  | none => (.error .badFileDescriptor, t)
  | some index =>
    let slot := t index
    let existing := position fun i => (slot.watches i).target == target
    if operation = epollCtlAdd then
      match existing with
      | some _ => (.error .alreadyExists, t)
      | none =>
        match position fun i => !(slot.watches i).occupied with
        | none => (.error .capacity, t)
        | some i =>
          match register slot i target events data with
          | none => (.error .capacity, t)
          | some slot => (.ok (), update t index slot)
    else if operation = epollCtlMod then
      match existing with
      | none => (.error .notFound, t)
      | some i =>
        match register slot i target events data with
        | none => (.error .capacity, t)
        | some slot => (.ok (), update t index slot)
    else if operation = epollCtlDel then
      match existing with
      | none => (.error .notFound, t)
      | some i => (.ok (), update t index (slot.setWatch i .empty))
    else (.error .invalidArgument, t)

/-- The first section of `wait` and of `readiness`: copy the watches. -/
def watchesOf (epfd : ℕ) (t : EpollTable) : Except EpollError (Fin maximumEpollWatches → Watch) :=
  match resolved owner epfd t with
  | none => .error .badFileDescriptor
  | some index => .ok (t index).watches

/-- What a scan sees of a target: its readiness and readiness generation, or
`none` when the target no longer answers. -/
abbrev Observation := Option (Flags × ℕ)

/-- The events of a watch that an observation shows. -/
def interested (observed : Observation) : Flags :=
  ((observed.map Prod.fst).getD (epollErr ||| epollHup)) &&&
    ((watch.events &&& ~~~epollEt) ||| epollErr ||| epollHup)

def isEdge : Bool := watch.events &&& epollEt != 0

def shouldReport (observed : Observation) : Bool :=
  match observed with
  | none => true
  | some (_, generation) =>
    if isEdge watch then
      interested watch observed != 0 && (!watch.edgeSeen || watch.lastGeneration != generation)
    else interested watch observed != 0

/-- One step of the scan of `wait`: the watch afterwards, and the event it
reports when there is room for one. -/
def scanWatch (observed : Observation) (hasRoom : Bool) : Watch × Option ReadyEvent :=
  let generation := (observed.map Prod.snd).getD 0
  let interested := interested watch observed
  let emitted := shouldReport watch observed && hasRoom
  let event : ReadyEvent :=
    { events := if observed.isNone then interested ||| (epollErr ||| epollHup) else interested
      data := watch.data }
  let watch := { watch with lastReady := interested }
  let watch :=
    if isEdge watch && emitted then { watch with edgeSeen := true, lastGeneration := generation }
    else if isEdge watch && interested == 0 then
      { watch with edgeSeen := false, lastGeneration := generation }
    else watch
  (watch, if emitted then some event else none)

/-- Store the scan state of one scanned watch, if its registration is still there. -/
def storeScanned (scanned : Watch) : EpollSlot :=
  match position fun i => (slot.watches i).target == scanned.target &&
      (slot.watches i).registration == scanned.registration with
  | none => slot
  | some i => slot.setWatch i
      { slot.watches i with
        lastReady := scanned.lastReady
        lastGeneration := scanned.lastGeneration
        edgeSeen := scanned.edgeSeen }

/-- The last section of `wait`: store the scanned watches. -/
def storeWatches (epfd : ℕ) (scanned : List Watch) (t : EpollTable) :
    Except EpollError Unit × EpollTable :=
  match resolved owner epfd t with
  | none => (.error .badFileDescriptor, t)
  | some index => (.ok (), update t index (scanned.foldl storeScanned (t index)))

/-- The targets of the watches of a slot, in order. -/
def targets : List ObjectKey :=
  ((List.finRange maximumEpollWatches).map slot.watches).filterMap fun watch =>
    if watch.occupied then some watch.target else none

/-- Close an epoll object; the targets it watched are the answer. -/
def close (epfd room : ℕ) (t : EpollTable) : Except EpollError (List ObjectKey) × EpollTable :=
  match resolved owner epfd t with
  | none => (.error .badFileDescriptor, t)
  | some index =>
    let watched := targets (t index)
    if room < watched.length then (.error .capacity, t)
    else (.ok watched, update t index .empty)

/-- Clear the watches of a target in one slot. -/
def clearTarget : EpollSlot :=
  if slot.occupied then
    { slot with watches := fun i =>
        if (slot.watches i).target = target then .empty else slot.watches i }
  else slot

/-- The number of watches of a target in one slot. -/
def watchCount : ℕ :=
  total (fun watch => if watch.target = target then 1 else 0) slot.watches

/-- Remove every watch of a target; the answer counts them. -/
def removeTarget (t : EpollTable) : ℕ × EpollTable :=
  (total (fun slot => if slot.occupied then watchCount target slot else 0) t,
    fun i => clearTarget target (t i))

inductive EpollCall : Type → Type
  | create (owner : ProcessHandle) (flags : Flags) : EpollCall (Except EpollError ℕ)
  | ctlLocked (owner : ProcessHandle) (epfd operation : ℕ) (target : ObjectKey) (events : Flags)
      (data : ℕ) : EpollCall (Except EpollError Unit)
  | watchesOf (owner : ProcessHandle) (epfd : ℕ) :
      EpollCall (Except EpollError (Fin maximumEpollWatches → Watch))
  | storeWatches (owner : ProcessHandle) (epfd : ℕ) (scanned : List Watch) :
      EpollCall (Except EpollError Unit)
  | close (owner : ProcessHandle) (epfd room : ℕ) : EpollCall (Except EpollError (List ObjectKey))
  | removeTarget (target : ObjectKey) : EpollCall ℕ

def exec : Handler EpollCall EpollTable
  | _, .create owner flags, t => create owner flags t
  | _, .ctlLocked owner epfd operation target events data, t =>
    ctlLocked owner epfd operation target events data t
  | _, .watchesOf owner epfd, t => (watchesOf owner epfd t, t)
  | _, .storeWatches owner epfd scanned, t => storeWatches owner epfd scanned t
  | _, .close owner epfd room, t => close owner epfd room t
  | _, .removeTarget target, t => removeTarget target t

end ArachKernel.LinuxEpoll
