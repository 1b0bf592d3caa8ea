import ArachKernel.Process.Sleepers
import ArachKernel.Lib.Serial
import Mathlib.Data.List.MinMax

/-!
The futex wait queue (`linux_futex.rs`). A waiter is known by the exact task and by the
address space and the address it waits on. The queue lock is held over the comparison of
the user word, the insertion and the block of the task, and over the whole of a wake; so
a wait and a wake are one step each. The task that makes a call is the running one, and
it runs until the call has ended: system calls are not preempted.
-/

namespace ArachKernel.LinuxFutex

open Process List

def futexWordBytes : Word := 4

structure FutexKey where
  addressSpaceRoot : Word
  address : Word
  deriving DecidableEq

structure FutexWaiter where
  owner : ProcessHandle
  key : FutexKey
  sequence : ℕ
  deriving DecidableEq

namespace FutexWaiter

def empty : FutexWaiter where
  owner := { pid := 0, generation := 0 }
  key := { addressSpaceRoot := 0, address := 0 }
  sequence := 0

def occupied (waiter : FutexWaiter) : Bool :=
  waiter.owner.pid != 0 && waiter.owner.generation != 0 && waiter.sequence != 0

def waitsOn (waiter : FutexWaiter) (key : FutexKey) : Bool := waiter.occupied && waiter.key == key

def ownedBy (waiter : FutexWaiter) (owner : ProcessHandle) : Bool :=
  waiter.occupied && waiter.owner == owner

end FutexWaiter

inductive FutexQueueError
  | invalidOwner
  | invalidAddress
  | alreadyWaiting
  | capacity
  deriving DecidableEq

inductive FutexWaitError (E : Type)
  | queue (error : FutexQueueError)
  | userMemory (error : E)
  | valueChanged
  | lifecycle (error : LifecycleError)
  deriving DecidableEq

structure FutexTable where
  waiters : TaskIndex → FutexWaiter
  nextSequence : ℕ

namespace FutexTable

def new : FutexTable where
  waiters _ := .empty
  nextSequence := 1

def containsOwner (f : FutexTable) (owner : ProcessHandle) : Bool :=
  (Table.position fun a => (f.waiters a).ownedBy owner).isSome

def setWaiter (f : FutexTable) (a : TaskIndex) (waiter : FutexWaiter) : FutexTable :=
  { f with waiters := Function.update f.waiters a waiter }

def enqueue (owner : ProcessHandle) (key : FutexKey) (f : FutexTable) :
    Except FutexQueueError FutexTable :=
  if f.containsOwner owner then .error .alreadyWaiting
  else
    match checkedAdd u64Max f.nextSequence 1 with
    | none => .error .capacity
    | some nextSequence =>
      match Table.position fun a => !(f.waiters a).occupied with
      | none => .error .capacity
      | some a =>
        .ok { f.setWaiter a { owner, key, sequence := f.nextSequence } with nextSequence }

/-- The waiter on the key with the least sequence number. -/
def oldest (key : FutexKey) (f : FutexTable) : Option TaskIndex :=
  ((List.finRange maximumProcesses).filter fun a => (f.waiters a).waitsOn key).argmin
    fun a => (f.waiters a).sequence

def takeOldest (key : FutexKey) (f : FutexTable) : Option (ProcessHandle × FutexTable) :=
  (f.oldest key).map fun a => ((f.waiters a).owner, f.setWaiter a .empty)

def cancel (owner : ProcessHandle) (f : FutexTable) : Bool × FutexTable :=
  match Table.position fun a => (f.waiters a).ownedBy owner with
  | none => (false, f)
  | some a => (true, f.setWaiter a .empty)

/-- The number of waiters in the table. -/
def occupancy (f : FutexTable) : ℕ := Table.total (fun waiter => waiter.occupied.toNat) f.waiters

end FutexTable

/-- The process table and the wait queue. -/
structure State where
  table : Lifecycle
  futexes : FutexTable

def State.new : State where
  table := .new
  futexes := .new

variable (address : Word)

def validAddress : Bool :=
  decide (userAddressMinimum ≤ address) && address % futexWordBytes == 0 &&
    decide (address.toNat + futexWordBytes.toNat ≤ userAddressLimit.toNat)

def currentOwnerAndKey (s : Lifecycle) : Except FutexQueueError (ProcessHandle × FutexKey) :=
  if !validAddress address then .error .invalidAddress
  else
    match currentHandle s with
    | none => .error .invalidOwner
    | some owner =>
      match snapshotExact owner s with
      | none => .error .invalidOwner
      | some snapshot =>
        .ok (owner, { addressSpaceRoot := snapshot.launch.addressSpaceRoot, address })

/-- Compare the user word, queue the running task and block it. `word` is what reading the
user word gives. -/
def waitCurrent {E : Type} (expected : BitVec 32) (saved : SavedUserContext)
    (word : Except E (BitVec 32)) (s : State) :
    Except (FutexWaitError E) ScheduleDecision × State :=
  match currentOwnerAndKey address s.table with
  | .error error => (.error (.queue error), s)
  | .ok (owner, key) =>
    if s.futexes.containsOwner owner then (.error (.queue .alreadyWaiting), s)
    else
      match word with
      | .error error => (.error (.userMemory error), s)
      | .ok observed =>
        if observed ≠ expected then (.error .valueChanged, s)
        else
          match s.futexes.enqueue owner key with
          | .error error => (.error (.queue error), s)
          | .ok futexes =>
            match (LifecycleCall.scheduleBlock saved).exec s.table with
            | (.ok decision, table) => (.ok decision, { table, futexes })
            | (.error error, table) =>
              (.error (.lifecycle error), { table, futexes := (futexes.cancel owner).2 })

/-! ### Wake-ups -/

namespace FutexTable

variable {f g : FutexTable} {key : FutexKey} {owner : ProcessHandle}

/-- The oldest waiter waits on the key, and no waiter on the key is older. -/
theorem oldest_some {a : TaskIndex} (h : f.oldest key = some a) : (f.waiters a).waitsOn key ∧
      ∀ b, (f.waiters b).waitsOn key → (f.waiters a).sequence ≤ (f.waiters b).sequence := by
  refine ⟨?_, fun b hb => ?_⟩
  · exact (mem_filter.mp (argmin_mem h)).2
  · exact le_of_mem_argmin (f := fun a => (f.waiters a).sequence)
      (mem_filter.mpr ⟨mem_finRange b, hb⟩) h

theorem oldest_none : f.oldest key = none ↔ ∀ a, (f.waiters a).waitsOn key = false := by
  simp [oldest]

theorem occupancy_takeOldest (h : f.takeOldest key = some (owner, g)) :
    g.occupancy < f.occupancy := by
  obtain ⟨a, ha, heq⟩ := Option.map_eq_some_iff.mp h
  cases heq
  have hocc : (f.waiters a).occupied := by
    have hwaits := (oldest_some ha).1
    rw [FutexWaiter.waitsOn, Bool.and_eq_true] at hwaits
    exact hwaits.1
  have hupdate := Table.total_update (fun waiter => waiter.occupied.toNat) f.waiters a .empty
  simp only [hocc, Bool.toNat_true, show FutexWaiter.empty.occupied = false from rfl,
    Bool.toNat_false] at hupdate
  have hafter : (f.setWaiter a .empty).occupancy =
      Table.total (fun waiter => waiter.occupied.toNat) (Function.update f.waiters a .empty) := rfl
  have hbef : f.occupancy = Table.total (fun waiter => waiter.occupied.toNat) f.waiters := rfl
  omega

end FutexTable

/-- The loop of a wake: a stale waiter is dropped and not counted. -/
def wakeLoop (key : FutexKey) (maximum woken : ℕ) (s : State) : ℕ × State :=
  if woken < maximum then
    match _h : s.futexes.takeOldest key with
    | none => (woken, s)
    | some (owner, futexes) =>
      match (LifecycleCall.markRunnable owner).exec s.table with
      | (.ok _, table) => wakeLoop key maximum (woken + 1) { table, futexes }
      | (.error _, table) => wakeLoop key maximum woken { table, futexes }
  else (woken, s)
termination_by s.futexes.occupancy
decreasing_by all_goals exact FutexTable.occupancy_takeOldest _h

def wakeCurrent (maximum : ℕ) (s : State) : Except FutexQueueError ℕ × State :=
  match currentOwnerAndKey address s.table with
  | .error error => (.error error, s)
  | .ok (_, key) =>
    let (woken, s) := wakeLoop key maximum 0 s
    (.ok woken, s)

def cancelWait (owner : ProcessHandle) (s : State) : Bool × State :=
  let (cancelled, futexes) := s.futexes.cancel owner
  (cancelled, { s with futexes })

/-! ### System calls -/

/-- The sections of the two tables, and reads of the process table. -/
inductive FutexCall (E : Type) : Type → Type 1
  | wait (address : Word) (expected : BitVec 32) (saved : SavedUserContext)
      (word : Except E (BitVec 32)) : FutexCall E (Except (FutexWaitError E) ScheduleDecision)
  | wake (address : Word) (maximum : ℕ) : FutexCall E (Except FutexQueueError ℕ)
  | cancel (owner : ProcessHandle) : FutexCall E Bool
  | read {β : Type} (view : Lifecycle → β) : FutexCall E β
  | lifecycle {α : Type} (c : LifecycleCall α) : FutexCall E (Except LifecycleError α)

def exec {E : Type} : Handler (FutexCall E) State
  | _, .wait address expected saved word, s => waitCurrent address expected saved word s
  | _, .wake address maximum, s => wakeCurrent address maximum s
  | _, .cancel owner, s => cancelWait owner s
  | _, .read view, s => (view s.table, s)
  | _, .lifecycle c, s => ((c.exec s.table).1, { s with table := (c.exec s.table).2 })

section SystemCalls

variable {E : Type}

/-- What an ending task leaves behind. `released` are the words on which the robust list
and the cleared thread id wake a waiter: the memory of the task decides which. -/
def cleanupLinuxThreadExit (exiting : ProcessHandle) (released : List Word) :
    Prog (FutexCall E) Unit := do
  let _ ← .perform (.cancel exiting)
  Prog.each (fun address => do
    let _ ← .perform (.wake address 1)) released

/-- The end of a thread, or of the leader. The kernel halts when it fails. -/
def scheduleExitReturn (exitCode : ℤ) (released : List Word) : Prog (FutexCall E) Bool := do
  let some exiting ← .perform (.read currentHandle) | pure false
  cleanupLinuxThreadExit exiting released
  if !(← .perform (.read currentIsThreadGroupLeader)) then
    let decision ← .perform (.lifecycle .scheduleThreadExit)
    pure decision.isOk
  else
    let decision ← .perform (.lifecycle (.scheduleExit exitCode))
    pure decision.isOk

def scheduleLinuxExitGroupReturn (exitCode : ℤ) (released : ProcessHandle → List Word) :
    Prog (FutexCall E) Bool := do
  let .ok (_, handles) ← .perform (.read currentThreadGroupHandles) | pure false
  Prog.each (fun owner => cleanupLinuxThreadExit owner (released owner)) handles
  let decision ← .perform (.lifecycle (.scheduleExitGroup exitCode))
  pure decision.isOk

/-- The end of `execve`: the new image is in place, and a wait of the task is cancelled. -/
def scheduleLinuxExecve (addressSpaceRoot entryPoint userStackPointer imageMeasurementRoot : Word) :
    Prog (FutexCall E) Bool := do
  let some current ← .perform (.read currentHandle) | pure true
  let replaced ← .perform (.lifecycle
    (.replaceCurrentImage addressSpaceRoot entryPoint userStackPointer imageMeasurementRoot))
  if replaced.isOk then
    let _ ← .perform (.cancel current)
  pure true

end SystemCalls

/-- The programs that use the two tables. The operations that put a task to sleep or wake
it, and the exit of a group, are called only by those above. -/
inductive SystemCall {E : Type} : Prog (FutexCall E) Bool → Prop
  | wait (address : Word) (expected : BitVec 32) (saved : SavedUserContext)
      (word : Except E (BitVec 32)) :
      SystemCall (do let _ ← .perform (.wait address expected saved word); pure true)
  | wake (address : Word) (maximum : ℕ) :
      SystemCall (do let _ ← .perform (.wake address maximum); pure true)
  | exit (exitCode : ℤ) (released : List Word) : SystemCall (scheduleExitReturn exitCode released)
  | exitGroup (exitCode : ℤ) (released : ProcessHandle → List Word) :
      SystemCall (scheduleLinuxExitGroupReturn exitCode released)
  | execve (addressSpaceRoot entryPoint userStackPointer imageMeasurementRoot : Word) :
      SystemCall (scheduleLinuxExecve addressSpaceRoot entryPoint userStackPointer
        imageMeasurementRoot)
  | lifecycle {α : Type} (c : LifecycleCall α) (hc : stirs c = false) :
      SystemCall (do let _ ← .perform (.lifecycle c); pure true)

end ArachKernel.LinuxFutex
