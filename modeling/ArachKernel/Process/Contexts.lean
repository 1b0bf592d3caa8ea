import ArachKernel.Process.Groups

/-!
Registers across the processor. An observer writes down the registers and the FS base
with which each task leaves the processor, or is made. Whenever the scheduler hands a
task out again, it is with exactly what the observer has written down.
-/

namespace ArachKernel.Process

open Table Lifecycle Function ProcessSlot

variable {s t : Lifecycle} {α : Type}

/-- The table, and for each task the registers and the FS base it left with. -/
structure Observed where
  table : Lifecycle
  left : ProcessHandle → SavedUserContext × Word

/-- The FS base of the running task. -/
def runningFsBase (s : Lifecycle) : Word :=
  match currentFsBase s with
  | .ok fsBase => fsBase
  | .error _ => 0

/-- The task that a call takes off the processor, or makes, and what it has then. A
yielding task finds zero in `rax`, like a new thread. -/
def leaving (s : Lifecycle) : LifecycleCall α → α → Option (ProcessHandle × SavedUserContext × Word)
  | .registerInit launch, handle | .commitChild _ launch, handle =>
    some (handle, .initial launch.entryPoint launch.userStackPointer, 0)
  | .cloneCurrentThread context stackPointer fsBase, answer =>
    some (answer.1, { context.setSyscallResult 0 with stackPointer }, fsBase)
  | .scheduleYield saved, _ => some (s.currentExecution, saved.setSyscallResult 0, runningFsBase s)
  | .schedulePreempt saved _, _ | .scheduleBlock saved, _ =>
    some (s.currentExecution, saved, runningFsBase s)
  | _, _ => none

def ScheduleDecision.task : ScheduleDecision → Option ScheduledProcess
  | user scheduled => some scheduled
  | pid0 _ => none

/-- The task that a call puts on the processor, as it is handed out. -/
def entering : LifecycleCall α → α → Option ScheduledProcess
  | .scheduleYield .., scheduled | .schedulePreempt .., scheduled => some scheduled
  | .scheduleBlock .., decision | .scheduleExit .., decision | .scheduleExitGroup .., decision
  | .scheduleThreadExit, decision | .scheduleFromPid0 .., decision => decision.task
  | _, _ => none

namespace Observed

def new (left : ProcessHandle → SavedUserContext × Word) : Observed := { table := .new, left }

/-- The observer's notes after a successful call. -/
def noted (o : Observed) (c : LifecycleCall α) (a : α) : ProcessHandle → SavedUserContext × Word :=
  match leaving o.table c a with
  | some (handle, had) => Function.update o.left handle had
  | none => o.left

def exec (o : Observed) (c : LifecycleCall α) : Observed where
  table := (c.exec o.table).2
  left :=
    match (c.exec o.table).1 with
    | .ok a => o.noted c a
    | .error _ => o.left

def Runs (allowed : {α : Type} → LifecycleCall α → Lifecycle → Prop) : Observed → Observed → Prop :=
  Relation.ReflTransGen fun o o' =>
    ∃ (α : Type) (c : LifecycleCall α), allowed c o.table ∧ o' = o.exec c

end Observed

/-! ### Tasks off the processor -/

/-- The task in the slot waits for the processor or for a wake-up. -/
def Waiting (slot : ProcessSlot) : Prop :=
  slot.occupied ∧ (slot.phase = .runnable ∨ slot.phase = .blocked)

/-- The slot of a waiting task is as it was, but for the phase. -/
structure StillWaiting (old new : ProcessSlot) : Prop where
  waiting : Waiting old
  handle : new.handle = old.handle := by rfl
  context : new.context = old.context := by rfl
  fsBase : new.fsBase = old.fsBase := by rfl

/-- The slot of every waiting task holds what the observer has written down. -/
def Logged (o : Observed) : Prop :=
  ∀ i, Waiting (o.table.slots i) →
    o.left (o.table.slots i).handle = ((o.table.slots i).context, (o.table.slots i).fsBase)

/-- Whatever waits was waiting before. -/
def Calm (s t : Lifecycle) : Prop :=
  ∀ j, Waiting (t.slots j) → StillWaiting (s.slots j) (t.slots j)

namespace Calm

theorem of_slots (h : t.slots = s.slots) : Calm s t := by
  intro j hj
  rw [h] at hj ⊢
  exact ⟨hj, rfl, rfl, rfl⟩

theorem trans {u : Lifecycle} (h : Calm s t) (h' : Calm t u) : Calm s u := by
  intro j hj
  have hlater := h' j hj
  have hearlier := h j hlater.waiting
  exact ⟨hearlier.waiting, hlater.handle.trans hearlier.handle,
    hlater.context.trans hearlier.context, hlater.fsBase.trans hearlier.fsBase⟩

variable {slot : ProcessSlot}

theorem setSlot (s : Lifecycle) {i : TaskIndex}
    (h : Waiting slot → StillWaiting (s.slots i) slot) : Calm s (s.setSlot i slot) :=
  setSlot_cases h fun _ _ hj => ⟨hj, rfl, rfl, rfl⟩

theorem not_waiting_running (h : slot.phase = .running) : ¬ Waiting slot := by
  rintro ⟨_, hph⟩
  simp [h] at hph

/-- The slot of the running task can change. -/
theorem running {i : TaskIndex} (hi : RunningAt s i)
    (hph : slot.phase = (s.slots i).phase) : Calm s (s.setSlot i slot) :=
  setSlot s fun hwait => absurd hwait (not_waiting_running (hph.trans hi.phase))

theorem retired (s : Lifecycle) (i : TaskIndex) : Calm s (s.setSlot i (s.slots i).retired) :=
  setSlot s fun hwait => by cases hwait.1

theorem switchTo (s : Lifecycle) (target : Option TaskIndex) (epoch : ℕ) :
    Calm s (s.switchTo target epoch) := by
  cases target with
  | none => exact of_slots rfl
  | some j =>
    have hph : Calm s (s.setPhase j .running) :=
      setSlot s fun hwait => absurd hwait (not_waiting_running rfl)
    exact hph

theorem disband (s : Lifecycle) (leader : TaskIndex) (group : ℕ) (exitCode : ℤ)
    (epoch : ℕ) : Calm s (disband leader group exitCode epoch s) := by
  refine disband_cases (fun _ hwait => ?_) (fun _ _ _ hwait => nomatch hwait.1)
    fun _ _ hwait => ⟨hwait, rfl, rfl, rfl⟩
  rcases hwait.2 with hph | hph <;> cases hph

end Calm

variable {o : Observed}

theorem Logged.calm (h : Logged o) (hcalm : Calm o.table t) : Logged { o with table := t } := by
  intro j hj
  have hstill := hcalm j hj
  rw [hstill.handle, hstill.context, hstill.fsBase]
  exact h j hstill.waiting

theorem Logged.note (h : Logged o) {handle : ProcessHandle} {had : SavedUserContext × Word}
    (hslots : ∀ j, Waiting (t.slots j) →
      (t.slots j).handle = handle ∧ had = ((t.slots j).context, (t.slots j).fsBase) ∨
        (t.slots j).handle ≠ handle ∧ StillWaiting (o.table.slots j) (t.slots j)) :
    Logged { table := t, left := update o.left handle had } := by
  intro j hj
  dsimp only
  rcases hslots j hj with ⟨hhd, hhad⟩ | ⟨hhd, hstill⟩
  · rw [hhd, update_self, hhad]
  · rw [update_of_ne hhd, hstill.handle, hstill.context, hstill.fsBase]
    exact h j hstill.waiting

/-! ### What the observer finds -/

variable {i j : TaskIndex}

theorem runningFsBase_eq (hnum : Numbered s) (hi : RunningAt s i) :
    runningFsBase s = (s.slots i).fsBase := by
  have hholds : (s.slots i).holds s.currentExecution := by
    rw [hi.current]
    simp [holds, handle, hi.occupied]
  have hval : s.currentExecution.valid := by
    have hpid := hnum.pid_ne i hi.occupied
    have hgen := hnum.generation_pos i
    rw [hi.current]
    simp only [ProcessHandle.valid, handle, Bool.and_eq_true, bne_iff_ne]
    exact ⟨hpid, by omega⟩
  have huser : currentUserHandle s = .ok s.currentExecution := by
    have hne : s.currentExecution ≠ pid0Identity := hi.current ▸ handle_ne_pid0 hnum hi.occupied
    simp [currentUserHandle, currentHandle, hval, hne]
  rw [runningFsBase, currentFsBase, huser]
  simp [slotByHandle_eq hnum hholds]

/-- Tasks in different slots have different handles. -/
theorem handle_ne (hnum : Numbered s) (hi : (s.slots i).occupied) (hj : (s.slots j).occupied)
    (hij : j ≠ i) : (s.slots j).handle ≠ (s.slots i).handle := fun heq =>
  hij (hnum.pid_inj j i hj hi (congrArg (·.pid) heq))

section

variable (h : Logged o)
include h

/-- The running task leaves its slot with what the observer sees. -/
theorem Logged.leave (hnum : Numbered o.table) (hi : RunningAt o.table i) {slot : ProcessSlot}
    (hhd : slot.handle = (o.table.slots i).handle)
    (hfsBase : slot.fsBase = (o.table.slots i).fsBase) :
    Logged
      { table := o.table.setSlot i slot
        left := update o.left o.table.currentExecution (slot.context, runningFsBase o.table) } := by
  refine h.note fun j hj => ?_
  by_cases hji : j = i
  · subst hji
    simp [setSlot, hhd, hi.current, runningFsBase_eq hnum hi, hfsBase]
  · right
    simp only [setSlot, update_of_ne hji] at hj ⊢
    rw [hi.current]
    exact ⟨handle_ne hnum hi.occupied hj.1 hji, hj, rfl, rfl, rfl⟩

theorem Logged.preempted (hnum : Numbered o.table) (hi : RunningAt o.table i)
    (saved : SavedUserContext) :
    Logged
      { table := o.table.preempted i saved
        left := update o.left o.table.currentExecution (saved, runningFsBase o.table) } :=
  h.leave hnum hi rfl rfl

theorem Logged.asleep (hnum : Numbered o.table) (hi : RunningAt o.table i)
    (saved : SavedUserContext) (epoch : ℕ) :
    Logged
      { table := o.table.setSlot i ((o.table.slots i).asleep saved epoch)
        left := update o.left o.table.currentExecution (saved, runningFsBase o.table) } :=
  h.leave hnum hi rfl rfl

/-- A new task waits with what it is made with. -/
theorem Logged.install (i : TaskIndex) (slot : ProcessSlot)
    (hfresh : ∀ j, (o.table.slots j).occupied → (o.table.slots j).pid ≠ slot.pid)
    (hslots : t.slots = update o.table.slots i slot) :
    Logged { table := t, left := update o.left slot.handle (slot.context, slot.fsBase) } := by
  refine h.note fun j hj => ?_
  by_cases hji : j = i
  · subst hji
    simp [hslots]
  · right
    rw [hslots, update_of_ne hji] at hj ⊢
    exact ⟨fun heq => hfresh j hj.1 (congrArg (·.pid) heq), hj, rfl, rfl, rfl⟩

theorem Logged.effect {c : LifecycleCall α} {a : α}
    (hnum : Numbered o.table) (heff : Effect o.table c a t) (hc : ¬ disturbs c o.table) :
    Logged { table := t, left := o.noted c a } := by
  cases heff with
  | publishCurrent => exact h.calm (.of_slots rfl)
  | @registerInit launch i hlau hnew =>
    exact h.install i (installed _ initPid noPid launch 0) (slotByPid_none.mp hnew) rfl
  | @commitChild parent pid launch p i hpar hlau hp hzomb hpid =>
    refine h.install i (installed _ pid parent launch o.table.schedulerEpoch)
      (allocatePid_fresh hpid).2 ?_
    rw [← pidTaken_slots o.table]
    rfl
  | @cloneCurrentThread context stackPointer fsBase pid current child hcur hlinux hpid hch =>
    have hthr : Logged
        { table := withThread o.table current child pid context stackPointer fsBase
          left := update o.left { pid, generation := (o.table.slots child).generation + 1 }
            ({ context.setSyscallResult 0 with stackPointer }, fsBase) } := by
      refine h.install child
        (threadSlot (o.table.slots current) _ pid _ _ (o.table.schedulerEpoch + 1))
        (allocatePid_fresh hpid).2 ?_
      simp [withThread, setSlot]
    have hne : current ≠ child := by
      rintro rfl
      simpa [hcur.occupied] using vacantIndex_some hch
    have hrun : RunningAt (withThread o.table current child pid context stackPointer fsBase)
        current := by
      refine ⟨?_, ?_, ?_⟩ <;> simp only [withThread, setSlot, update_of_ne hne, pidTaken_slots]
      · exact hcur.occupied
      · exact hcur.phase
      · exact (pidTaken_currentExecution _).trans hcur.current
    refine hthr.calm (Calm.trans (Calm.running hrun ?_) (.of_slots rfl))
    rfl
  | discardRunnableThread | reapChild => exact h.calm (.retired _ _)
  | markRunning | scheduleFromPid0 => exact h.calm (.switchTo _ _ _)
  | resumeCurrent hi | replaceCurrentImage hi =>
    refine h.calm (Calm.trans (Calm.running hi ?_) (.of_slots rfl))
    rfl
  | setCurrentFsBase hi => exact h.calm (.running hi rfl)
  | scheduleYield hi | schedulePreempt hi hhd hep =>
    exact (h.preempted hnum hi _).calm (.switchTo _ _ _)
  | scheduleBlock hi => exact (h.asleep hnum hi _ _).calm (.switchTo _ _ _)
  | scheduleExit =>
    refine h.calm (Calm.trans (Calm.setSlot _ fun hwait => ?_) (.switchTo _ _ _))
    rcases hwait.2 with hph | hph <;> cases hph
  | scheduleExitGroup =>
    exact h.calm ((Calm.disband _ _ _ _ _).trans (.switchTo _ _ _))
  | scheduleThreadExit => exact h.calm ((Calm.retired _ _).trans (.switchTo _ _ _))
  | markRunnable hi hph =>
    -- the task is a blocked one
    have hblocked := hph.resolve_left fun hrun => hc ⟨_, hi, hrun⟩
    refine h.calm (Calm.setSlot _ fun hwait => ?_)
    exact ⟨⟨hwait.1, .inr hblocked⟩, rfl, rfl, rfl⟩
  | markBlocked hi hph => exact absurd ⟨_, hi, hph⟩ hc

/-! ### What the scheduler hands out -/

theorem Logged.handOut (epoch : ℕ) (hj : Waiting (o.table.slots j)) :
    ((o.table.handOut j epoch).context.user, (o.table.handOut j epoch).context.fsBase) =
      o.left (o.table.handOut j epoch).handle :=
  (h j hj).symm

end

theorem waiting_of_runnable {slot : ProcessSlot} (h : slot.inPhase .runnable) : Waiting slot := by
  obtain ⟨hocc, hph⟩ := inPhase_iff.mp h
  exact ⟨hocc, .inl hph⟩

variable {scheduled : ScheduledProcess}

/-- The task in a decision waited in the table. -/
theorem Logged.decision (h : Logged o) {target : Option TaskIndex} {epoch : ℕ}
    (hsched : (o.table.decision target epoch).task = some scheduled)
    (htgt : ∀ j, target = some j → (o.table.slots j).inPhase .runnable) :
    (scheduled.context.user, scheduled.context.fsBase) = o.left scheduled.handle := by
  cases target with
  | none => cases hsched
  | some j =>
    cases hsched
    exact h.handOut epoch (waiting_of_runnable (htgt j rfl))

/-- Whoever enters the processor has what the observer has written down. -/
theorem Logged.entering {c : LifecycleCall α} {a : α} (h : Logged o) (hnum : Numbered o.table)
    (heff : Effect o.table c a t) (hsched : entering c a = some scheduled) :
    (scheduled.context.user, scheduled.context.fsBase) = o.noted c a scheduled.handle := by
  cases heff with
  | scheduleYield hi | schedulePreempt hi hhd hep =>
    cases hsched
    exact (h.preempted hnum hi _).handOut _ (waiting_of_runnable (hi.nextTurn _))
  | @scheduleBlock saved i hi =>
    -- the chosen task is another one, so the note about the running task is not its
    have hchosen := h.decision hsched fun j hj => rotating_some hj
    have hne : scheduled.handle ≠ o.table.currentExecution := by
      cases hnext : o.table.nextRunnableIndex i with
      | none =>
        rw [hnext] at hsched
        cases hsched
      | some j =>
        rw [hnext] at hsched
        cases hsched
        have hrnbl : (o.table.slots j).inPhase .runnable := rotating_some hnext
        rw [hi.current]
        exact handle_ne hnum hi.occupied (waiting_of_runnable hrnbl).1 (hi.ne_of_runnable hrnbl)
    rw [hchosen]
    exact (update_of_ne hne _ _).symm
  | scheduleExit | scheduleThreadExit => exact h.decision hsched fun j hj => rotating_some hj
  | scheduleExitGroup hi hlead htgt =>
    exact h.decision hsched fun j hj => (outside_some (htgt ▸ hj)).1
  | scheduleFromPid0 => exact h.decision hsched fun j hj => position_some hj
  | _ => cases hsched

/-! ### The running task set aside -/

/-- No task runs but one is published: nothing is scheduled any more. -/
structure Stuck (s : Lifecycle) : Prop where
  published : s.currentExecution ≠ pid0Identity
  none_running : ∀ i, (s.slots i).inPhase .running = false

theorem Stuck.not_runningAt (h : Stuck s) (hi : RunningAt s i) : False :=
  Bool.noConfusion ((h.none_running i).symm.trans hi.inPhase)

theorem Stuck.setSlot (h : Stuck s) {slot : ProcessSlot}
    (hslot : slot.inPhase .running = false) : Stuck (s.setSlot i slot) where
  published := h.published
  none_running := setSlot_cases hslot fun j _ => h.none_running j

theorem Stuck.pidTaken (h : Stuck s) : Stuck s.pidTaken := by
  obtain ⟨n, hn⟩ := pidTaken_eq s
  rw [hn]
  exact ⟨h.published, h.none_running⟩

/-- Only calls that hand nothing out succeed then, and the table stays so. -/
theorem Stuck.effect {c : LifecycleCall α} {a : α} (h : Stuck s) (heff : Effect s c a t) :
    Stuck t ∧ entering c a = none := by
  have hrun {i : TaskIndex} {handle : ProcessHandle}
      (hi : (s.slots i).holds handle) (hph : (s.slots i).phase = .running) : False := by
    simpa [inPhase, (handle_of_holds hi).1, hph] using h.none_running i
  cases heff with
  | publishCurrent hi hph | markBlocked hi hph => exact (hrun hi hph).elim
  | registerInit => exact ⟨h.setSlot (inPhase_of_ne (by simp [installed])), rfl⟩
  | commitChild =>
    exact ⟨h.pidTaken.setSlot (inPhase_of_ne (by simp [installed])), rfl⟩
  | cloneCurrentThread hcur => exact (h.not_runningAt hcur).elim
  | discardRunnableThread | reapChild => exact ⟨h.setSlot (inPhase_of_free rfl), rfl⟩
  | markRunning hidle | scheduleFromPid0 hidle => exact absurd hidle h.published
  | resumeCurrent hi | replaceCurrentImage hi hlead hcnt | setCurrentFsBase hi
  | scheduleYield hi | schedulePreempt hi hhd hep | scheduleBlock hi | scheduleExit hi
  | scheduleExitGroup hi hlead htgt | scheduleThreadExit hi hlead =>
    exact (h.not_runningAt hi).elim
  | markRunnable => exact ⟨h.setSlot (inPhase_of_ne (by simp)), rfl⟩

theorem Single.stuck {c : LifecycleCall α} (h : Single s) (hc : disturbs c s) :
    Stuck (c.exec s).2 := by
  obtain ⟨i, phase, hi, hph, heq⟩ := exec_of_disturbs h hc
  rw [heq]
  have hcur : (s.setPhase i phase).currentExecution = (s.slots i).handle := hi.current
  exact ⟨hcur ▸ handle_ne_pid0 h.toNumbered hi.occupied, h.left hi (inPhase_of_ne hph)⟩

/-- The notes are right, or nothing is scheduled any more. -/
def Faithful (o : Observed) : Prop := Single o.table ∧ Logged o ∨ Numbered o.table ∧ Stuck o.table

theorem Faithful.new (left : ProcessHandle → SavedUserContext × Word) : Faithful (.new left) :=
  .inl ⟨.new, fun _ h => by cases h.1⟩

theorem Faithful.numbered (h : Faithful o) : Numbered o.table :=
  h.elim (fun h => h.1.toNumbered) fun h => h.1

theorem Logged.pidTaken (h : Logged o) : Logged { o with table := o.table.pidTaken } :=
  h.calm (.of_slots (pidTaken_slots _))

theorem Faithful.exec (h : Faithful o) (c : LifecycleCall α) : Faithful (o.exec c) := by
  have hout := exec_outcome c o.table
  rcases h with ⟨hsing, hlogged⟩ | ⟨hnum, hstuck⟩
  · by_cases hc : disturbs c o.table
    · exact .inr ⟨hsing.toNumbered.exec c, hsing.stuck hc⟩
    refine .inl ⟨hsing.exec c hc, ?_⟩
    unfold Observed.exec
    cases hr : (c.exec o.table).1 with
    | ok =>
      rw [hr] at hout
      exact hlogged.effect hsing.toNumbered hout hc
    | error =>
      rw [hr] at hout
      rcases hout with heq | ⟨_, heq⟩ <;> rw [heq]
      · exact hlogged
      · exact hlogged.pidTaken
  · exact .inr ⟨hnum.exec c,
      exec_induction c hstuck hstuck.pidTaken fun _ _ heff => (hstuck.effect heff).1⟩

theorem Faithful.entering (h : Faithful o) {c : LifecycleCall α} {a : α}
    (hok : (c.exec o.table).1 = .ok a) (hsched : entering c a = some scheduled) :
    (scheduled.context.user, scheduled.context.fsBase) = (o.exec c).left scheduled.handle := by
  have heff := effect_of_ok hok
  have hleft : (o.exec c).left = o.noted c a := by
    unfold Observed.exec
    simp [hok]
  rw [hleft]
  rcases h with ⟨hsing, hlogged⟩ | ⟨_, hstuck⟩
  · exact hlogged.entering hsing.toNumbered heff hsched
  · simpa [hsched] using (hstuck.effect heff).2

/-! ### The whole -/

/-- The exit code of a group exit. -/
def exitGroupCode : LifecycleCall α → Option ℤ
  | .scheduleExitGroup exitCode => some exitCode
  | _ => none

/-- A group exit ends the leader, takes the other members out of the table, and chooses a
task of another group. -/
theorem Effect.groupExit {c : LifecycleCall α} {a : α} {exitCode : ℤ} (h : Effect s c a t)
    (hc : exitGroupCode c = some exitCode) :
    ∃ i leader, RunningAt s i ∧ (s.slots leader).leads (s.slots i).threadGroup ∧
      t.slots leader = (s.slots leader).exited exitCode (s.schedulerEpoch + 1) ∧
      (∀ j, (s.slots j).inGroup (s.slots i).threadGroup → j ≠ leader →
        (t.slots j).occupied = false) ∧
      ∀ scheduled, entering c a = some scheduled → ∃ k, (s.slots k).occupied ∧
        (s.slots k).handle = scheduled.handle ∧
        (s.slots k).threadGroup ≠ (s.slots i).threadGroup := by
  cases h with
  | @scheduleExitGroup _ i leader target hi hlead htgt =>
    cases hc
    obtain ⟨hocc, _, hgrp⟩ := leads_iff.mp hlead
    have hin := inGroup_iff.mpr ⟨hocc, hgrp⟩
    refine ⟨i, leader, hi, hlead, ?_, fun j hj hjl => ?_, fun scheduled hsched => ?_⟩
    · rw [switchTo_other _ (ne_outside htgt hin), disband_leader hin]
    · rw [switchTo_other _ (ne_outside htgt hj), disband_member hj hjl, retired_occupied]
    · cases target with
      | none => cases hsched
      | some k =>
        cases hsched
        obtain ⟨hrnbl, hgrp', _⟩ := outside_some htgt.symm
        exact ⟨k, (inPhase_iff.mp hrnbl).1, rfl, hgrp'⟩
  | _ => cases hc

/-- An ended leader that is not reaped stays as it is, and alone. -/
theorem ended_alone {leader : TaskIndex} (hnum : Numbered s) (hgrp : Grouped s)
    (hleads : (s.slots leader).leads (s.slots leader).pid) (hph : (s.slots leader).phase = .zombie)
    (h : Runs (fun c s => endsWhole c s ∧ ¬ frees c s leader) s t) :
    t.slots leader = s.slots leader ∧
      ∀ j, (t.slots j).inGroup (s.slots leader).pid → j = leader := by
  have hkept : Numbered t ∧ Grouped t ∧ t.slots leader = s.slots leader := by
    induction h with
    | refl => exact ⟨hnum, hgrp, rfl⟩
    | tail _ hstep ih =>
      obtain ⟨_, c, ⟨hc, hstays⟩, rfl⟩ := hstep
      obtain ⟨hnum', hgrp', hslot⟩ := ih
      refine ⟨hnum'.exec c, hgrp'.exec hnum' c hc, ?_⟩
      rw [ended_stays_exec hnum' hgrp' c (by rwa [hslot]) (by rwa [hslot]) hstays, hslot]
  obtain ⟨_, hgrp', hslot⟩ := hkept
  refine ⟨hslot, fun j hj => ?_⟩
  exact hgrp'.zombie leader (by rwa [hslot]) (by rwa [hslot]) j (by rwa [hslot])

/-- In every run in which no leader ends with `schedule_exit` while it has threads: a task
is handed out with the registers and the FS base it last left with; the members of a
group share an address space and have their leader in the table; and after a group exit
the leader is there as a zombie, alone in its group until it is reaped, and the task
chosen is of another group. -/
theorem contexts_and_groups {left : ProcessHandle → SavedUserContext × Word} {o : Observed}
    (h : Observed.Runs endsWhole (.new left) o) :
    (∀ {α : Type} (c : LifecycleCall α) (a : α) (scheduled : ScheduledProcess),
      (c.exec o.table).1 = .ok a → entering c a = some scheduled →
      (scheduled.context.user, scheduled.context.fsBase) = (o.exec c).left scheduled.handle) ∧
    (∀ i j, (o.table.slots i).occupied → (o.table.slots j).occupied →
      (o.table.slots i).threadGroup = (o.table.slots j).threadGroup →
      (o.table.slots i).launch.addressSpaceRoot = (o.table.slots j).launch.addressSpaceRoot) ∧
    (∀ i, (o.table.slots i).occupied →
      ∃ leader, (o.table.slots leader).leads (o.table.slots i).threadGroup) ∧
    ∀ exitCode decision,
      ((LifecycleCall.scheduleExitGroup exitCode).exec o.table).1 = .ok decision →
      let t := ((LifecycleCall.scheduleExitGroup exitCode).exec o.table).2
      ∃ i leader, RunningAt o.table i ∧ (o.table.slots leader).leads (o.table.slots i).threadGroup ∧
        (t.slots leader).phase = .zombie ∧ (t.slots leader).exitCode = exitCode ∧
        (∀ j, (o.table.slots j).inGroup (o.table.slots i).threadGroup → j ≠ leader →
          (t.slots j).occupied = false) ∧
        (∀ scheduled, decision = .user scheduled → ∃ k, (o.table.slots k).occupied ∧
          (o.table.slots k).handle = scheduled.handle ∧
          (o.table.slots k).threadGroup ≠ (o.table.slots i).threadGroup) ∧
        ∀ u, Runs (fun c s => endsWhole c s ∧ ¬ frees c s leader) t u →
          u.slots leader = t.slots leader ∧
          ∀ j, (u.slots j).inGroup (o.table.slots i).threadGroup → j = leader := by
  have hboth : Faithful o ∧ Grouped o.table := by
    induction h with
    | refl => exact ⟨.new left, .new⟩
    | tail _ hstep ih =>
      obtain ⟨_, c, hc, rfl⟩ := hstep
      exact ⟨ih.1.exec c, ih.2.exec ih.1.numbered c hc⟩
  obtain ⟨hfaithful, hgrouped⟩ := hboth
  refine ⟨fun c a scheduled hok => hfaithful.entering hok, hgrouped.root, hgrouped.leader, ?_⟩
  intro exitCode decision hok t
  have hcode : exitGroupCode (.scheduleExitGroup exitCode) = some exitCode := rfl
  obtain ⟨i, leader, hi, hleads, hslot, hgone, hchosen⟩ := (effect_of_ok hok).groupExit hcode
  obtain ⟨hocc, hpid, hgrp⟩ := leads_iff.mp hleads
  refine ⟨i, leader, hi, hleads, ?_, ?_, hgone, fun scheduled heq => hchosen scheduled ?_, ?_⟩
  · rw [hslot]
    rfl
  · rw [hslot]
    rfl
  · rw [heq]
    rfl
  · intro u hu
    have hpid' : (t.slots leader).pid = (o.table.slots i).threadGroup := by
      rw [hslot]
      exact hpid
    rw [← hpid']
    refine ended_alone (hfaithful.numbered.exec _)
      (hgrouped.exec hfaithful.numbered _ trivial) ?_ ?_ hu
    · rw [hslot, leads_iff]
      exact ⟨hocc, rfl, hgrp.trans hpid.symm⟩
    · rw [hslot]
      rfl

/-- A process with a second thread. -/
def twoThreads : Observed :=
  (((Observed.new fun _ => (.empty, 0)).exec (.registerInit sampleLaunch)).exec
    (.markRunning { pid := initPid, generation := 1 })).exec
    (.cloneCurrentThread (.initial 0x2000 0x8000) 0x9000 0)

theorem contexts_and_groups_twoThreads :
    Observed.Runs endsWhole (.new fun _ => (.empty, 0)) twoThreads ∧
    ∃ leader, ∀ u, Runs (fun c s => endsWhole c s ∧ ¬ frees c s leader)
      ((LifecycleCall.scheduleExitGroup 7).exec twoThreads.table).2 u →
      (u.slots leader).phase = .zombie ∧ (u.slots leader).exitCode = 7 := by
  have hruns : Observed.Runs endsWhole (.new fun _ => (.empty, 0)) twoThreads :=
    ((Relation.ReflTransGen.refl.tail ⟨_, .registerInit sampleLaunch, trivial, rfl⟩).tail
      ⟨_, .markRunning { pid := initPid, generation := 1 }, trivial, rfl⟩).tail
      ⟨_, .cloneCurrentThread (.initial 0x2000 0x8000) 0x9000 0, trivial, rfl⟩
  refine ⟨hruns, ?_⟩
  have hok : ((LifecycleCall.scheduleExitGroup 7).exec twoThreads.table).1 =
      .ok (.pid0 { generation := 1, schedulerEpoch := 3 }) := by
    decide +kernel
  obtain ⟨_, leader, _, _, hzomb, hcode, _, _, hstays⟩ :=
    (contexts_and_groups hruns).2.2.2 7 _ hok
  refine ⟨leader, fun u hu => ?_⟩
  rw [(hstays u hu).1]
  exact ⟨hzomb, hcode⟩

end ArachKernel.Process
