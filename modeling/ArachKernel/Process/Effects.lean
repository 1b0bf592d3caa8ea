import ArachKernel.Process.Operations

/-!
What a successful operation of the process table does. `Effect s c a t` says that the
call `c` finds in `s` what it needs, answers `a` and leaves `t`. A call that fails
leaves all but the counter of process numbers as it was.
-/

namespace ArachKernel.Process

open Table Lifecycle Locked ProcessSlot Spec

namespace ProcessSlot

/-- The slot of a task that waits. -/
def asleep (slot : ProcessSlot) (saved : SavedUserContext) (epoch : ℕ) : ProcessSlot :=
  { slot with context := saved, phase := .blocked, waitSequence := epoch }

/-- The slot of a task that has ended and was not reaped. -/
def exited (slot : ProcessSlot) (exitCode : ℤ) (epoch : ℕ) : ProcessSlot :=
  { slot with phase := .zombie, exitCode, waitSequence := epoch }

end ProcessSlot

namespace Lifecycle

/-- The processor goes to the target, or to the idle execution. -/
def switchTo (s : Lifecycle) (target : Option TaskIndex) (epoch : ℕ) : Lifecycle :=
  match target with
  | some j =>
    { s.setPhase j .running with
      currentExecution := (s.slots j).handle
      schedulerEpoch := epoch
      currentSchedulerEpoch := epoch }
  | none =>
    { s with
      currentExecution := pid0Identity
      schedulerEpoch := epoch
      currentSchedulerEpoch := epoch }

/-- What a task is resumed with. -/
def handOut (s : Lifecycle) (i : TaskIndex) (epoch : ℕ) : ScheduledProcess :=
  s.scheduled i (s.slots i).context epoch

/-- The decision that goes with a switch. -/
def decision (s : Lifecycle) (target : Option TaskIndex) (epoch : ℕ) : ScheduleDecision :=
  match target with
  | some j => .user (s.handOut j epoch)
  | none => .pid0 (pid0Authority epoch)

/-- The counter of process numbers after `allocate_pid`. -/
def pidTaken (s : Lifecycle) : Lifecycle := s.allocatePid.2

/-- The task whose turn is next: the running one when no other is runnable. -/
def nextTurn (s : Lifecycle) (i : TaskIndex) : TaskIndex :=
  (s.nextRunnableIndex i).getD i

/-- The task in slot `i` saves its registers and becomes runnable. -/
def preempted (s : Lifecycle) (i : TaskIndex) (saved : SavedUserContext) : Lifecycle :=
  s.setSlot i { s.slots i with context := saved, phase := .runnable }

end Lifecycle

/-- The running task by the published identity. -/
structure RunningAt (s : Lifecycle) (i : TaskIndex) : Prop where
  occupied : (s.slots i).occupied
  phase : (s.slots i).phase = .running
  current : s.currentExecution = (s.slots i).handle

/-- A slot of a new thread. -/
def threadSlot (parent : ProcessSlot) (generation pid : ℕ) (context : SavedUserContext)
    (fsBase : Word) (epoch : ℕ) : ProcessSlot where
  occupied := true
  generation
  pid
  threadGroup := parent.threadGroup
  parent := parent.parent
  phase := .runnable
  launch := parent.launch
  context
  fsBase
  exitCode := 0
  waitSequence := epoch

/-- The table with a new thread of the task in `current` in the slot `child`. -/
def withThread (s : Lifecycle) (current child : TaskIndex) (pid : ℕ)
    (context : SavedUserContext) (stackPointer fsBase : Word) : Lifecycle :=
  s.pidTaken.setSlot child (threadSlot (s.slots current) ((s.slots child).generation + 1) pid
    { context.setSyscallResult 0 with stackPointer } fsBase (s.schedulerEpoch + 1))

/-- The table after a clone: the parent's registers hold the answer. -/
def cloned (s : Lifecycle) (current child : TaskIndex) (pid : ℕ)
    (context : SavedUserContext) (stackPointer fsBase : Word) : Lifecycle :=
  let t := withThread s current child pid context stackPointer fsBase
  (t.setSlot current { t.slots current with context := context.setSyscallResult pid }).publishEpoch
    (s.schedulerEpoch + 1)

/-- What a call finds, answers and leaves when it succeeds. -/
inductive Effect (s : Lifecycle) : {α : Type} → LifecycleCall α → α → Lifecycle → Prop
  | publishCurrent {handle : ProcessHandle} {i : TaskIndex}
      (hi : (s.slots i).holds handle) (hphase : (s.slots i).phase = .running) :
      Effect s (.publishCurrent handle) () { s with currentExecution := handle }
  | registerInit {launch : ProcessLaunch} {i : TaskIndex} (hlaunch : launch.validate)
      (hnew : s.slotByPid initPid = none) (hi : s.vacantIndex = some i) :
      Effect s (.registerInit launch) { pid := initPid, generation := (s.slots i).generation }
        (s.setSlot i (installed (s.slots i).generation initPid noPid launch 0))
  | commitChild {parent pid : ℕ} {launch : ProcessLaunch} {p i : TaskIndex}
      (hparent : parent ≠ noPid) (hlaunch : launch.validate)
      (hp : s.slotByPid parent = some p) (hzombie : (s.slots p).phase ≠ .zombie)
      (hpid : s.allocatePid.1 = some pid) (hi : s.vacantIndex = some i) :
      Effect s (.commitChild parent launch) { pid, generation := (s.slots i).generation + 1 }
        (s.pidTaken.setSlot i
          (installed ((s.slots i).generation + 1) pid parent launch s.schedulerEpoch))
  | cloneCurrentThread {context : SavedUserContext} {stackPointer fsBase : Word} {pid : ℕ}
      {current child : TaskIndex} (hcurrent : RunningAt s current)
      (hlinux : (s.slots current).launch.abi.isLinux)
      (hpid : s.allocatePid.1 = some pid) (hchild : s.vacantIndex = some child) :
      Effect s (.cloneCurrentThread context stackPointer fsBase)
        ({ pid, generation := (s.slots child).generation + 1 },
          s.scheduled current (context.setSyscallResult pid) (s.schedulerEpoch + 1))
        (cloned s current child pid context stackPointer fsBase)
  | discardRunnableThread {handle : ProcessHandle} {i j : TaskIndex}
      (hi : (s.slots i).holds s.currentExecution) (hj : (s.slots j).holds handle)
      (hphase : (s.slots j).phase = .runnable)
      (hgroup : (s.slots j).threadGroup = (s.slots i).threadGroup)
      (hleader : (s.slots j).pid ≠ (s.slots j).threadGroup) :
      Effect s (.discardRunnableThread handle) () (s.setSlot j (s.slots j).retired)
  | markRunning {handle : ProcessHandle} {i : TaskIndex}
      (hidle : s.currentExecution = pid0Identity)
      (hnone : ∀ j, (s.slots j).inPhase .running = false)
      (hi : (s.slots i).holds handle) (hphase : (s.slots i).phase = .runnable) :
      Effect s (.markRunning handle) { (s.slots i).snapshot with phase := .running }
        (s.switchTo (some i) (s.schedulerEpoch + 1))
  | resumeCurrent {saved : SavedUserContext} {i : TaskIndex} (hi : RunningAt s i) :
      Effect s (.resumeCurrent saved) (s.scheduled i saved (s.schedulerEpoch + 1))
        ((s.setSlot i { s.slots i with context := saved }).publishEpoch (s.schedulerEpoch + 1))
  | replaceCurrentImage {root entry stack measurement : Word} {i : TaskIndex}
      (hi : RunningAt s i) (hleader : (s.slots i).pid = (s.slots i).threadGroup)
      (hcount : s.groupCount (s.slots i).threadGroup = 1) :
      Effect s (.replaceCurrentImage root entry stack measurement)
        { handle := (s.slots i).handle
          context :=
            { user := .initial entry stack
              addressSpaceRoot := root
              kernelStackPointer := (s.slots i).launch.kernelStackPointer
              fsBase := 0 }
          schedulerEpoch := s.schedulerEpoch + 1 }
        ((s.setSlot i
          { s.slots i with
            launch :=
              { (s.slots i).launch with
                addressSpaceRoot := root
                entryPoint := entry
                userStackPointer := stack
                imageMeasurementRoot := measurement }
            context := .initial entry stack
            fsBase := 0 }).publishEpoch (s.schedulerEpoch + 1))
  | setCurrentFsBase {fsBase : Word} {i : TaskIndex} (hi : RunningAt s i) :
      Effect s (.setCurrentFsBase fsBase) () (s.setSlot i { s.slots i with fsBase })
  | scheduleYield {saved : SavedUserContext} {i : TaskIndex} (hi : RunningAt s i) :
      Effect s (.scheduleYield saved)
        ((s.preempted i (saved.setSyscallResult 0)).handOut (s.nextTurn i) (s.schedulerEpoch + 1))
        ((s.preempted i (saved.setSyscallResult 0)).switchTo (some (s.nextTurn i))
          (s.schedulerEpoch + 1))
  | schedulePreempt {saved : SavedUserContext} {authority : ExecutionAuthority}
      {i : TaskIndex} (hi : RunningAt s i)
      (hhandle : authority.handle = s.currentExecution)
      (hepoch : authority.schedulerEpoch = s.schedulerEpoch) :
      Effect s (.schedulePreempt saved authority)
        ((s.preempted i saved).handOut (s.nextTurn i) (s.schedulerEpoch + 1))
        ((s.preempted i saved).switchTo (some (s.nextTurn i)) (s.schedulerEpoch + 1))
  | scheduleBlock {saved : SavedUserContext} {i : TaskIndex} (hi : RunningAt s i) :
      Effect s (.scheduleBlock saved) (s.decision (s.nextRunnableIndex i) (s.schedulerEpoch + 1))
        ((s.setSlot i ((s.slots i).asleep saved (s.schedulerEpoch + 1))).switchTo
          (s.nextRunnableIndex i) (s.schedulerEpoch + 1))
  | scheduleExit {exitCode : ℤ} {i : TaskIndex} (hi : RunningAt s i) :
      Effect s (.scheduleExit exitCode) (s.decision (s.nextRunnableIndex i) (s.schedulerEpoch + 1))
        ((s.setSlot i ((s.slots i).exited exitCode (s.schedulerEpoch + 1))).switchTo
          (s.nextRunnableIndex i) (s.schedulerEpoch + 1))
  | scheduleExitGroup {exitCode : ℤ} {i leader : TaskIndex}
      {target : Option TaskIndex} (hi : RunningAt s i)
      (hleader : (s.slots leader).leads (s.slots i).threadGroup)
      (htarget : target = rotating i fun j =>
        (s.slots j).inPhase .runnable && (s.slots j).threadGroup != (s.slots i).threadGroup) :
      Effect s (.scheduleExitGroup exitCode) (s.decision target (s.schedulerEpoch + 1))
        ((disband leader (s.slots i).threadGroup exitCode (s.schedulerEpoch + 1) s).switchTo target
          (s.schedulerEpoch + 1))
  | scheduleThreadExit {i : TaskIndex} (hi : RunningAt s i)
      (hleader : (s.slots i).pid ≠ (s.slots i).threadGroup) :
      Effect s .scheduleThreadExit (s.decision (s.nextRunnableIndex i) (s.schedulerEpoch + 1))
        ((s.setSlot i (s.slots i).retired).switchTo (s.nextRunnableIndex i) (s.schedulerEpoch + 1))
  | scheduleFromPid0 {authority : Pid0Authority} (hidle : s.currentExecution = pid0Identity)
      (hnone : ∀ j, (s.slots j).inPhase .running = false)
      (hepoch : authority.schedulerEpoch = s.schedulerEpoch) :
      Effect s (.scheduleFromPid0 authority)
        (s.decision (position fun j => (s.slots j).inPhase .runnable) (s.schedulerEpoch + 1))
        (s.switchTo (position fun j => (s.slots j).inPhase .runnable) (s.schedulerEpoch + 1))
  | markRunnable {handle : ProcessHandle} {i : TaskIndex}
      (hi : (s.slots i).holds handle)
      (hphase : (s.slots i).phase = .running ∨ (s.slots i).phase = .blocked) :
      Effect s (.markRunnable handle) () (s.setPhase i .runnable)
  | markBlocked {handle : ProcessHandle} {i : TaskIndex}
      (hi : (s.slots i).holds handle) (hphase : (s.slots i).phase = .running) :
      Effect s (.markBlocked handle) () (s.setPhase i .blocked)
  | reapChild {parent : ℕ} {handle : ProcessHandle} {i : TaskIndex}
      (hi : (s.slots i).holds handle) (hparent : (s.slots i).parent = parent)
      (hphase : (s.slots i).phase = .zombie) :
      Effect s (.reapChild parent handle) (s.slots i).exitCode (s.setSlot i (s.slots i).retired)

/-- A failed call leaves the table as it was, but for the counter of process numbers. -/
def Outcome (s : Lifecycle) {α : Type} (c : LifecycleCall α) :
    Except LifecycleError α → Lifecycle → Prop
  | .error _, t => t = s ∨ c.allocates ∧ t = s.pidTaken
  | .ok a, t => Effect s c a t

/-! ### Every call has one of these outcomes -/

theorem nextSchedulerEpoch_ok {epoch next : ℕ} (h : nextSchedulerEpoch epoch = .ok next) :
    next = epoch + 1 := by
  unfold nextSchedulerEpoch at h
  split at h
  next hadd =>
    cases h
    exact (checkedAdd_eq_some.mp hadd).2
  · cases h

variable {s : Lifecycle} {i : TaskIndex} {handle : ProcessHandle}

theorem slotByHandle_holds (h : s.slotByHandle handle = some i) : (s.slots i).holds handle :=
  position_some h

theorem handle_of_holds {slot : ProcessSlot}
    (h : slot.holds handle) : slot.occupied ∧ slot.handle = handle := by
  simp only [ProcessSlot.holds, Bool.and_eq_true, beq_iff_eq] at h
  obtain ⟨⟨hocc, hpid⟩, hgen⟩ := h
  refine ⟨hocc, ?_⟩
  rw [ProcessSlot.handle, hpid, hgen]

theorem currentUserHandle_ok
    (h : currentUserHandle s = .ok handle) : s.currentExecution = handle := by
  unfold currentUserHandle currentHandle at h
  split at h
  · cases h
  split at h
  next hcur =>
    split at hcur
    · cases hcur
      cases h
      rfl
    · cases hcur
  · cases h

theorem runningAt_of_runningIndex (h : runningIndex s = .ok i) : RunningAt s i := by
  unfold runningIndex at h
  split at h
  · cases h
  next hcur =>
  split at h
  · cases h
  next hj =>
  split at h
  · cases h
  next hph =>
  cases h
  have hholds := handle_of_holds (slotByHandle_holds hj)
  refine ⟨hholds.1, not_not.mp hph, ?_⟩
  rw [currentUserHandle_ok hcur, hholds.2]

theorem anyRunning_eq_false : s.anyRunning = false ↔ ∀ j, (s.slots j).inPhase .running = false := by
  rw [anyRunning, Option.isSome_eq_false_iff, Option.isNone_iff_eq_none, position_none]

theorem allocatePidLoop_snd (tries : ℕ) (s : Lifecycle) :
    ∃ n, (allocatePidLoop tries s).2 = { s with nextPid := n } := by
  induction tries generalizing s with
  | zero => exact ⟨s.nextPid, rfl⟩
  | succ tries ih =>
    rw [allocatePidLoop]
    split
    · obtain ⟨n, hn⟩ := ih { s with nextPid := max ((max s.nextPid 2 + 1) % 2 ^ 32) 2 }
      exact ⟨n, hn⟩
    · exact ⟨_, rfl⟩

theorem pidTaken_eq (s : Lifecycle) : ∃ n, s.pidTaken = { s with nextPid := n } :=
  allocatePidLoop_snd _ s

@[simp] theorem pidTaken_slots (s : Lifecycle) : s.pidTaken.slots = s.slots := by
  obtain ⟨n, hn⟩ := pidTaken_eq s
  rw [hn]

@[simp] theorem pidTaken_currentExecution (s : Lifecycle) :
    s.pidTaken.currentExecution = s.currentExecution := by
  obtain ⟨n, hn⟩ := pidTaken_eq s
  rw [hn]

@[simp] theorem pidTaken_schedulerEpoch (s : Lifecycle) :
    s.pidTaken.schedulerEpoch = s.schedulerEpoch := by
  obtain ⟨n, hn⟩ := pidTaken_eq s
  rw [hn]

@[simp] theorem pidTaken_currentSchedulerEpoch (s : Lifecycle) :
    s.pidTaken.currentSchedulerEpoch = s.currentSchedulerEpoch := by
  obtain ⟨n, hn⟩ := pidTaken_eq s
  rw [hn]

variable {β : Type} {Q : Except LifecycleError β → Lifecycle → Prop}

theorem takePid_spec {f : ℕ → Op β} (herr : Q (.error .capacity) s.pidTaken)
    (hok : ∀ pid, s.allocatePid.1 = some pid → Spec (f pid) s.pidTaken Q) :
    Spec (takePid >>= f) s Q := by
  apply Spec.bind
  unfold takePid
  refine Spec.get (Spec.write ?_)
  cases hpid : s.allocatePid.1 with
  | none =>
    refine ⟨fun e he => ?_, fun a ha => ?_⟩
    · cases he
      exact herr
    · cases ha
  | some pid =>
    refine ⟨fun e he => ?_, fun a ha => ?_⟩
    · cases he
    · cases ha
      exact hok pid hpid

theorem checkContext_spec {result : Except ContextError Unit} {f : Unit → Op β}
    (herr : Q (.error .invalidContext) s) (hok : Spec (f ()) s Q) :
    Spec (checkContext result >>= f) s Q :=
  ensure herr fun _ => hok

variable {s : Lifecycle} {j : TaskIndex}

theorem publishCurrent_outcome (handle : ProcessHandle) :
    Spec (publishCurrent handle) s (Outcome s (.publishCurrent handle)) := by
  unfold publishCurrent
  refine ensure (.inl rfl) fun _ => get ?_
  refine expect (.inl rfl) fun i hi => ?_
  refine ensure (.inl rfl) fun hph => ?_
  exact Effect.publishCurrent (slotByHandle_holds hi) (beq_iff_eq.mp hph)

theorem registerInit_outcome (launch : ProcessLaunch) :
    Spec (registerInit launch) s (Outcome s (.registerInit launch)) := by
  unfold registerInit
  refine ensure (.inl rfl) fun hlau => get ?_
  refine ensure (.inl rfl) fun hnew => ?_
  refine expect (.inl rfl) fun i hi => write (pure ?_)
  exact Effect.registerInit hlau (Option.isNone_iff_eq_none.mp hnew) hi

theorem commitChild_outcome (parent : ℕ) (launch : ProcessLaunch) :
    Spec (commitChild parent launch) s (Outcome s (.commitChild parent launch)) := by
  unfold commitChild
  refine ensure (.inl rfl) fun hval => get ?_
  refine expect (.inl rfl) fun p hp => ?_
  refine ensure (.inl rfl) fun hph => ?_
  refine takePid_spec (.inr ⟨rfl, rfl⟩) fun pid hpid => ?_
  refine expect (.inr ⟨rfl, rfl⟩) fun i hi => write (pure ?_)
  rw [Bool.and_eq_true, bne_iff_ne] at hval
  rw [Bool.and_eq_true, bne_iff_ne, bne_iff_ne] at hph
  exact Effect.commitChild hval.1 hval.2 hp hph.2 hpid hi

theorem cloneCurrentThread_outcome (context : SavedUserContext) (stackPointer fsBase : Word) :
    Spec (cloneCurrentThread context stackPointer fsBase) s
      (Outcome s (.cloneCurrentThread context stackPointer fsBase)) := by
  unfold cloneCurrentThread
  refine ensure (.inl rfl) fun _ => checkContext_spec (.inl rfl) (get ?_)
  refine check (fun _ _ => .inl rfl) fun current hcur => ?_
  refine ensure (.inl rfl) fun hlinux => ?_
  refine takePid_spec (.inr ⟨rfl, rfl⟩) fun pid hpid => ?_
  refine expect (.inr ⟨rfl, rfl⟩) fun child hch => ?_
  refine check (fun _ _ => .inr ⟨rfl, rfl⟩) fun epoch hep => ?_
  obtain rfl := nextSchedulerEpoch_ok hep
  refine checkContext_spec (.inr ⟨rfl, rfl⟩) (checkContext_spec (.inr ⟨rfl, rfl⟩) ?_)
  exact Effect.cloneCurrentThread (runningAt_of_runningIndex hcur) hlinux hpid hch

theorem discardRunnableThread_outcome (handle : ProcessHandle) :
    Spec (discardRunnableThread handle) s (Outcome s (.discardRunnableThread handle)) := by
  unfold discardRunnableThread
  refine get (check (fun _ _ => .inl rfl) fun current hcur => ?_)
  refine expect (.inl rfl) fun i hi => expect (.inl rfl) fun j hj => ?_
  refine ensure (.inl rfl) fun hslot => wrote ?_
  simp only [Bool.and_eq_true, beq_iff_eq, bne_iff_ne] at hslot
  obtain ⟨⟨hph, hgrp⟩, hlead⟩ := hslot
  rw [← currentUserHandle_ok hcur] at hi
  exact Effect.discardRunnableThread (slotByHandle_holds hi) (slotByHandle_holds hj) hph hgrp hlead

theorem markRunning_outcome (handle : ProcessHandle) :
    Spec (markRunning handle) s (Outcome s (.markRunning handle)) := by
  unfold markRunning
  refine ensure (.inl rfl) fun _ => get (ensure (.inl rfl) fun hidle => ?_)
  refine expect (.inl rfl) fun i hi => ensure (.inl rfl) fun hph => ?_
  refine check (fun _ _ => .inl rfl) fun epoch hep => ?_
  obtain rfl := nextSchedulerEpoch_ok hep
  refine write (write (write (pure ?_)))
  rw [Bool.and_eq_true, beq_iff_eq, Bool.not_eq_true', anyRunning_eq_false] at hidle
  have heff := Effect.markRunning hidle.1 hidle.2 (slotByHandle_holds hi) (beq_iff_eq.mp hph)
  have hhd : ((s.setPhase i .running).slots i).handle = (s.slots i).handle := by
    simp [setPhase, setSlot, ProcessSlot.handle]
  simpa only [Outcome, switchTo, publishEpoch, hhd] using heff

variable (saved : SavedUserContext)

theorem resumeCurrent_outcome :
    Spec (resumeCurrent saved) s (Outcome s (.resumeCurrent saved)) := by
  unfold resumeCurrent
  refine checkContext_spec (.inl rfl) (get ?_)
  refine check (fun _ _ => .inl rfl) fun i hi => ?_
  refine check (fun _ _ => .inl rfl) fun epoch hep => ?_
  obtain rfl := nextSchedulerEpoch_ok hep
  refine checkContext_spec (.inl rfl) (write (write (pure ?_)))
  exact Effect.resumeCurrent (runningAt_of_runningIndex hi)

theorem currentReplacementIndex_ok (h : currentReplacementIndex s = .ok i) :
    RunningAt s i ∧ (s.slots i).pid = (s.slots i).threadGroup ∧
      s.groupCount (s.slots i).threadGroup = 1 := by
  unfold currentReplacementIndex at h
  split at h
  · cases h
  next hj =>
  dsimp only at h
  split at h
  · cases h
  next hslot =>
  cases h
  push Not at hslot
  exact ⟨runningAt_of_runningIndex hj, hslot.2⟩

theorem replaceCurrentImage_outcome (root entry stack measurement : Word) :
    Spec (replaceCurrentImage root entry stack measurement) s
      (Outcome s (.replaceCurrentImage root entry stack measurement)) := by
  unfold replaceCurrentImage
  refine get (check (fun _ _ => .inl rfl) fun i hi => ?_)
  refine ensure (.inl rfl) fun _ => ?_
  refine check (fun _ _ => .inl rfl) fun epoch hep => ?_
  obtain rfl := nextSchedulerEpoch_ok hep
  refine checkContext_spec (.inl rfl) (write (write (pure ?_)))
  obtain ⟨hrun, hlead, hcnt⟩ := currentReplacementIndex_ok hi
  exact Effect.replaceCurrentImage hrun hlead hcnt

theorem setCurrentFsBase_outcome (fsBase : Word) :
    Spec (setCurrentFsBase fsBase) s (Outcome s (.setCurrentFsBase fsBase)) := by
  unfold setCurrentFsBase
  refine ensure (.inl rfl) fun _ => get ?_
  refine check (fun _ _ => .inl rfl) fun i hi => wrote ?_
  exact Effect.setCurrentFsBase (runningAt_of_runningIndex hi)

/-- A section that ends with the answer `a` and the state `t`, or changes nothing. -/
def AllOrNothing {α : Type} (s : Lifecycle) (a : α) (t : Lifecycle) :
    Except LifecycleError α → Lifecycle → Prop
  | .error _, t' => t' = s
  | .ok a', t' => a' = a ∧ t' = t

theorem outcome_of_allOrNothing {α : Type} {c : LifecycleCall α} {a : α} {t : Lifecycle} {x : Op α}
    (h : Spec x s (AllOrNothing s a t)) (heff : Effect s c a t) : Spec x s (Outcome s c) := by
  refine h.mono fun r t' hr => ?_
  cases r with
  | error => exact .inl hr
  | ok =>
    obtain ⟨rfl, rfl⟩ := hr
    exact heff

theorem rotate_spec (i : TaskIndex) (saved : SavedUserContext) :
    Spec (rotate i saved) s (AllOrNothing s
      ((s.preempted i saved).handOut (s.nextTurn i) (s.schedulerEpoch + 1))
      ((s.preempted i saved).switchTo (some (s.nextTurn i)) (s.schedulerEpoch + 1))) := by
  unfold rotate
  refine get (check (fun _ _ => rfl) fun epoch hep => ?_)
  obtain rfl := nextSchedulerEpoch_ok hep
  refine checkContext_spec rfl (write ?_)
  unfold dispatch
  refine write (write (write (pure ?_)))
  by_cases htgt : (s.nextRunnableIndex i).getD i = i
  · simp [AllOrNothing, nextTurn, handOut, preempted, htgt, scheduled, switchTo, setSlot,
      publishEpoch, handle]
  · simp [AllOrNothing, nextTurn, handOut, preempted, htgt, scheduled, switchTo, setSlot,
      publishEpoch]

theorem scheduleYield_outcome :
    Spec (scheduleYield saved) s (Outcome s (.scheduleYield saved)) := by
  unfold scheduleYield
  refine checkContext_spec (.inl rfl) (get ?_)
  refine check (fun _ _ => .inl rfl) fun i hi => ?_
  exact outcome_of_allOrNothing (rotate_spec i _) (.scheduleYield (runningAt_of_runningIndex hi))

theorem schedulePreempt_outcome (authority : ExecutionAuthority) :
    Spec (schedulePreempt saved authority) s (Outcome s (.schedulePreempt saved authority)) := by
  unfold schedulePreempt
  refine checkContext_spec (.inl rfl) (get (ensure (.inl rfl) fun hfresh => ?_))
  refine expect (.inl rfl) fun i hi => ensure (.inl rfl) fun hph => ?_
  rw [Bool.and_eq_true, beq_iff_eq, beq_iff_eq] at hfresh
  obtain ⟨hocc, hhd⟩ := handle_of_holds (slotByHandle_holds hi)
  have hrun : RunningAt s i := ⟨hocc, beq_iff_eq.mp hph, by rw [hfresh.1, hhd]⟩
  exact outcome_of_allOrNothing (rotate_spec i saved)
    (.schedulePreempt hrun hfresh.1.symm hfresh.2.symm)

theorem depart_spec (target : Option TaskIndex) (leave : ℕ → Lifecycle → Lifecycle)
    (hkeep : ∀ j, target = some j →
      ((leave (s.schedulerEpoch + 1) s).slots j).handle = (s.slots j).handle) :
    Spec (depart target leave) s (AllOrNothing s (s.decision target (s.schedulerEpoch + 1))
      ((leave (s.schedulerEpoch + 1) s).switchTo target (s.schedulerEpoch + 1))) := by
  unfold depart
  refine get (check (fun _ _ => rfl) fun epoch hep => ?_)
  obtain rfl := nextSchedulerEpoch_ok hep
  cases target with
  | none => exact write (write (write (pure ⟨rfl, rfl⟩)))
  | some j =>
    refine checkContext_spec rfl (write (bind ?_))
    unfold dispatch
    refine write (write (write (pure ⟨?_, ?_⟩)))
    · intro e he
      cases he
    · intro a ha
      cases ha
      refine pure ⟨rfl, ?_⟩
      simp only [switchTo, hkeep j rfl]
      rfl

theorem rotating_some {after : TaskIndex} {p : TaskIndex → Bool}
    (h : rotating after p = some i) : p i := by
  obtain ⟨offset, hoff, rfl⟩ := Option.map_eq_some_iff.mp h
  exact position_some (p := fun offset => p (after + (offset + 1))) hoff

theorem inPhase_iff {slot : ProcessSlot} {phase : ProcessPhase} :
    slot.inPhase phase ↔ slot.occupied ∧ slot.phase = phase := by
  simp [inPhase]

/-- The task that takes over from a group is of another one. -/
theorem outside_some {group : ℕ} (h : rotating i (fun j =>
      (s.slots j).inPhase .runnable && (s.slots j).threadGroup != group) = some j) :
    (s.slots j).inPhase .runnable ∧ (s.slots j).threadGroup ≠ group ∧
      (s.slots j).inGroup group = false := by
  have hfound := rotating_some h
  rw [Bool.and_eq_true, bne_iff_ne] at hfound
  exact ⟨hfound.1, hfound.2, by simp [inGroup, hfound.2]⟩

section

variable {i j : TaskIndex} (slot : ProcessSlot)

theorem setSlot_self (s : Lifecycle) (i : TaskIndex) : (s.setSlot i slot).slots i = slot := by
  simp [setSlot]

theorem setSlot_other (hji : j ≠ i) : (s.setSlot i slot).slots j = s.slots j := by
  simp [setSlot, hji]

variable {slot} in
@[elab_as_elim] theorem setSlot_cases {motive : TaskIndex → ProcessSlot → Prop}
    (self : motive i slot) (other : ∀ j, j ≠ i → motive j (s.slots j))
    (j : TaskIndex) : motive j ((s.setSlot i slot).slots j) :=
  update_cases (motive := motive) self other j

theorem switchTo_other {target : Option TaskIndex} (epoch : ℕ)
    (hj : ∀ i, target = some i → j ≠ i) : (s.switchTo target epoch).slots j = s.slots j := by
  cases target with
  | none => rfl
  | some i => exact setSlot_other _ (hj i rfl)

end

/-- The running task is not a runnable one. -/
theorem RunningAt.ne_of_runnable (hi : RunningAt s i)
    (hj : (s.slots j).inPhase .runnable) : j ≠ i := by
  rintro rfl
  simp [inPhase, hi.phase] at hj

/-- The task whose turn is next is runnable once the running one has made way. -/
theorem RunningAt.nextTurn (hi : RunningAt s i) (saved : SavedUserContext) :
    ((s.preempted i saved).slots (s.nextTurn i)).inPhase .runnable := by
  by_cases hturn : s.nextTurn i = i
  · rw [hturn, preempted, setSlot_self, inPhase_iff]
    exact ⟨hi.occupied, rfl⟩
  · rw [preempted, setSlot_other _ hturn]
    unfold Lifecycle.nextTurn at hturn ⊢
    cases hnext : s.nextRunnableIndex i with
    | none => simp [hnext] at hturn
    | some => exact rotating_some hnext

theorem setSlot_handle (i j : TaskIndex) {slot : ProcessSlot}
    (h : slot.handle = (s.slots i).handle) :
    ((s.setSlot i slot).slots j).handle = (s.slots j).handle :=
  apply_update_of_eq h j

theorem scheduleBlock_outcome :
    Spec (scheduleBlock saved) s (Outcome s (.scheduleBlock saved)) := by
  unfold scheduleBlock
  refine checkContext_spec (.inl rfl) (get ?_)
  refine check (fun _ _ => .inl rfl) fun i hi => ?_
  refine outcome_of_allOrNothing (depart_spec _ _ fun j _ => setSlot_handle i j rfl) ?_
  exact .scheduleBlock (runningAt_of_runningIndex hi)

theorem scheduleExit_outcome (exitCode : ℤ) :
    Spec (scheduleExit exitCode) s (Outcome s (.scheduleExit exitCode)) := by
  unfold scheduleExit
  refine get (check (fun _ _ => .inl rfl) fun i hi => ?_)
  refine outcome_of_allOrNothing (depart_spec _ _ fun j _ => setSlot_handle i j rfl) ?_
  exact .scheduleExit (runningAt_of_runningIndex hi)

variable {exitCode : ℤ} {group : ℕ} {epoch : ℕ} {leader : TaskIndex}

theorem disband_of_not_inGroup (h : (s.slots j).inGroup group = false) :
    (disband leader group exitCode epoch s).slots j = s.slots j := by
  simp [disband, h]

theorem disband_leader (h : (s.slots leader).inGroup group) :
    (disband leader group exitCode epoch s).slots leader =
      (s.slots leader).exited exitCode epoch := by
  simp [disband, h, exited]

theorem disband_member (h : (s.slots j).inGroup group) (hj : j ≠ leader) :
    (disband leader group exitCode epoch s).slots j = (s.slots j).retired := by
  simp [disband, h, hj]

/-- The leader ends, the other members leave. -/
@[elab_as_elim]
theorem disband_cases {motive : TaskIndex → ProcessSlot → Prop}
    (ends : (s.slots leader).inGroup group → motive leader ((s.slots leader).exited exitCode epoch))
    (leaves : ∀ j, j ≠ leader → (s.slots j).inGroup group → motive j (s.slots j).retired)
    (stays : ∀ j, (s.slots j).inGroup group = false → motive j (s.slots j))
    (j : TaskIndex) : motive j ((disband leader group exitCode epoch s).slots j) := by
  cases hj : (s.slots j).inGroup group with
  | false =>
    rw [disband_of_not_inGroup hj]
    exact stays j hj
  | true =>
    by_cases hjl : j = leader
    · subst hjl
      rw [disband_leader hj]
      exact ends hj
    · rw [disband_member hj hjl]
      exact leaves j hjl hj

theorem scheduleExitGroup_outcome (exitCode : ℤ) :
    Spec (scheduleExitGroup exitCode) s (Outcome s (.scheduleExitGroup exitCode)) := by
  unfold scheduleExitGroup
  refine get (check (fun _ _ => .inl rfl) fun i hi => ?_)
  refine expect (.inl rfl) fun leader hlead => ?_
  refine outcome_of_allOrNothing (depart_spec _ _ fun j hj => ?_) ?_
  · rw [disband_of_not_inGroup (outside_some hj).2.2]
  · exact .scheduleExitGroup (runningAt_of_runningIndex hi) (position_some hlead) rfl

theorem scheduleThreadExit_outcome : Spec scheduleThreadExit s (Outcome s .scheduleThreadExit) := by
  unfold scheduleThreadExit
  refine get (check (fun _ _ => .inl rfl) fun i hi => ?_)
  refine ensure (.inl rfl) fun hlead => ?_
  have hrun := runningAt_of_runningIndex hi
  refine outcome_of_allOrNothing (depart_spec _ _ fun j hj => ?_) ?_
  · have hne := hrun.ne_of_runnable (rotating_some hj)
    simp [setSlot, hne]
  · exact .scheduleThreadExit hrun (bne_iff_ne.mp hlead)

theorem scheduleFromPid0_outcome (authority : Pid0Authority) :
    Spec (scheduleFromPid0 authority) s (Outcome s (.scheduleFromPid0 authority)) := by
  unfold scheduleFromPid0
  refine get (check (fun _ _ => .inl rfl) fun _ hfresh => ?_)
  refine ensure (.inl rfl) fun hnone => ?_
  refine outcome_of_allOrNothing (depart_spec _ _ fun _ _ => rfl) ?_
  unfold validatePid0Authority at hfresh
  split at hfresh
  · cases hfresh
  next hval =>
  push Not at hval
  rw [Bool.not_eq_true', anyRunning_eq_false] at hnone
  exact .scheduleFromPid0 hval.1 hnone hval.2.2

theorem markRunnable_outcome (handle : ProcessHandle) :
    Spec (markRunnable handle) s (Outcome s (.markRunnable handle)) := by
  unfold markRunnable
  refine ensure (.inl rfl) fun _ => get ?_
  refine expect (.inl rfl) fun i hi => ensure (.inl rfl) fun hph => wrote ?_
  rw [Bool.or_eq_true, beq_iff_eq, beq_iff_eq] at hph
  exact Effect.markRunnable (slotByHandle_holds hi) hph

theorem markBlocked_outcome (handle : ProcessHandle) :
    Spec (markBlocked handle) s (Outcome s (.markBlocked handle)) := by
  unfold markBlocked
  refine ensure (.inl rfl) fun _ => get ?_
  refine expect (.inl rfl) fun i hi => ensure (.inl rfl) fun hph => wrote ?_
  exact Effect.markBlocked (slotByHandle_holds hi) (beq_iff_eq.mp hph)

theorem reapChild_outcome (parent : ℕ) (handle : ProcessHandle) :
    Spec (reapChild parent handle) s (Outcome s (.reapChild parent handle)) := by
  unfold reapChild
  refine ensure (.inl rfl) fun _ => get (expect (.inl rfl) fun i hi => ?_)
  refine ensure (.inl rfl) fun hpar => ensure (.inl rfl) fun hph => ?_
  exact Effect.reapChild (slotByHandle_holds hi) (beq_iff_eq.mp hpar) (beq_iff_eq.mp hph)

/-- Every call has its effect, or fails and leaves all slots, the running task and the
epoch as they were. -/
theorem exec_outcome {α : Type} (c : LifecycleCall α) (s : Lifecycle) :
    Outcome s c (c.exec s).1 (c.exec s).2 := by
  cases c with
  | publishCurrent handle => exact publishCurrent_outcome handle
  | registerInit launch => exact registerInit_outcome launch
  | commitChild parent launch => exact commitChild_outcome parent launch
  | cloneCurrentThread context stack fsBase => exact cloneCurrentThread_outcome context stack fsBase
  | discardRunnableThread handle => exact discardRunnableThread_outcome handle
  | markRunning handle => exact markRunning_outcome handle
  | resumeCurrent saved => exact resumeCurrent_outcome saved
  | replaceCurrentImage root entry stack measurement =>
    exact replaceCurrentImage_outcome root entry stack measurement
  | setCurrentFsBase fsBase => exact setCurrentFsBase_outcome fsBase
  | scheduleYield saved => exact scheduleYield_outcome saved
  | schedulePreempt saved authority => exact schedulePreempt_outcome saved authority
  | scheduleBlock saved => exact scheduleBlock_outcome saved
  | scheduleExit exitCode => exact scheduleExit_outcome exitCode
  | scheduleExitGroup exitCode => exact scheduleExitGroup_outcome exitCode
  | scheduleThreadExit => exact scheduleThreadExit_outcome
  | scheduleFromPid0 authority => exact scheduleFromPid0_outcome authority
  | markRunnable handle => exact markRunnable_outcome handle
  | markBlocked handle => exact markBlocked_outcome handle
  | reapChild parent handle => exact reapChild_outcome parent handle

end ArachKernel.Process
