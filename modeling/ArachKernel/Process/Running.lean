import ArachKernel.Process.Effects

/-!
One task runs at a time. Occupied slots have distinct process numbers; at most one
slot is in the running phase, and the published identity is that of its task, or of
the idle execution when there is none. The two operations that set the phase of a
task from outside do not look at the published identity, so this fails for a call of
`mark_runnable` or `mark_blocked` on the running task, and for no other.
-/

namespace ArachKernel.Process

open Table Lifecycle Function ProcessSlot

variable {s t : Lifecycle}

/-! ### Process numbers -/

/-- Occupied slots have distinct process numbers, none of them that of the idle execution. -/
structure Numbered (s : Lifecycle) : Prop where
  pid_ne : ∀ i, (s.slots i).occupied → (s.slots i).pid ≠ noPid
  pid_inj : ∀ i j, (s.slots i).occupied → (s.slots j).occupied →
    (s.slots i).pid = (s.slots j).pid → i = j
  generation_pos : ∀ i, 0 < (s.slots i).generation

/-- Every slot holds the same task as before. -/
def SameTasks (s t : Lifecycle) : Prop :=
  ∀ i, (t.slots i).occupied = (s.slots i).occupied ∧ (t.slots i).handle = (s.slots i).handle

namespace SameTasks

theorem pid (h : SameTasks s t) (i : TaskIndex) : (t.slots i).pid = (s.slots i).pid :=
  congrArg (·.pid) (h i).2

theorem generation (h : SameTasks s t) (i : TaskIndex) :
    (t.slots i).generation = (s.slots i).generation :=
  congrArg (·.generation) (h i).2

theorem setSlot (s : Lifecycle) {i : TaskIndex} {slot : ProcessSlot}
    (hocc : slot.occupied = (s.slots i).occupied) (hhd : slot.handle = (s.slots i).handle) :
    SameTasks s (s.setSlot i slot) := fun j =>
  ⟨apply_update_of_eq hocc j, apply_update_of_eq hhd j⟩

theorem switchTo (s : Lifecycle) (target : Option TaskIndex) (epoch : ℕ) :
    SameTasks s (s.switchTo target epoch) := by
  cases target with
  | none => exact fun _ => ⟨rfl, rfl⟩
  | some j =>
    have hph : SameTasks s (s.setPhase j .running) := setSlot s rfl rfl
    exact hph

end SameTasks

variable {pid : ℕ}

theorem slotByPid_none :
    s.slotByPid pid = none ↔ ∀ i, (s.slots i).occupied → (s.slots i).pid ≠ pid := by
  simp [slotByPid, position_none]

variable {i : TaskIndex}

theorem vacantIndex_some (h : s.vacantIndex = some i) : (s.slots i).occupied = false := by
  have hvac := position_some h
  simp [vacant] at hvac
  exact hvac.1

theorem allocatePidLoop_fresh (tries : ℕ)
    (h : (allocatePidLoop tries s).1 = some pid) : 2 ≤ pid ∧ s.slotByPid pid = none := by
  induction tries generalizing s with
  | zero => cases h
  | succ tries ih =>
    rw [allocatePidLoop] at h
    split at h
    · have hlater := ih h
      exact hlater
    next hfree =>
      cases h
      exact ⟨le_max_right _ _, Option.not_isSome_iff_eq_none.mp hfree⟩

theorem allocatePid_fresh (h : s.allocatePid.1 = some pid) :
    2 ≤ pid ∧ ∀ i, (s.slots i).occupied → (s.slots i).pid ≠ pid := by
  obtain ⟨hpid, hfree⟩ := allocatePidLoop_fresh _ h
  exact ⟨hpid, slotByPid_none.mp hfree⟩

@[simp] theorem retired_occupied (slot : ProcessSlot) : slot.retired.occupied = false := rfl

theorem retired_generation_pos (slot : ProcessSlot) : 0 < slot.retired.generation := by
  rw [retired]
  cases h : checkedAdd u32Max slot.generation 1 with
  | none => decide
  | some =>
    rw [(checkedAdd_eq_some.mp h).2]
    exact Nat.succ_pos _

namespace Numbered

theorem congr (h : Numbered s) (hsame : SameTasks s t) : Numbered t where
  pid_ne i hi := by
    rw [(hsame i).1] at hi
    rw [hsame.pid i]
    exact h.pid_ne i hi
  pid_inj i j hi hj heq := by
    rw [(hsame i).1] at hi
    rw [(hsame j).1] at hj
    rw [hsame.pid i, hsame.pid j] at heq
    exact h.pid_inj i j hi hj heq
  generation_pos i := by
    rw [hsame.generation i]
    exact h.generation_pos i

variable {slot : ProcessSlot}

/-- A slot is given to a task with a new number. -/
theorem install (h : Numbered s) (hpid : slot.pid ≠ noPid)
    (hfresh : ∀ j, (s.slots j).occupied → (s.slots j).pid ≠ slot.pid)
    (hgen : 0 < slot.generation) : Numbered (s.setSlot i slot) where
  pid_ne := setSlot_cases (fun _ => hpid) fun j _ => h.pid_ne j
  pid_inj j k := by
    refine setSlot_cases ?_ (fun j _ => ?_) j <;> refine setSlot_cases ?_ (fun k _ => ?_) k
    · exact fun _ _ _ => rfl
    · exact fun _ hk heq => absurd heq.symm (hfresh k hk)
    · exact fun hj _ heq => absurd heq (hfresh j hj)
    · exact h.pid_inj j k
  generation_pos := setSlot_cases hgen fun j _ => h.generation_pos j

/-- Some tasks are gone, and the others are where they were. -/
theorem retire (h : Numbered s)
    (hslots : ∀ j, (t.slots j).occupied → (s.slots j).occupied ∧ (t.slots j).pid = (s.slots j).pid)
    (hgen : ∀ j, 0 < (t.slots j).generation) : Numbered t where
  pid_ne j hj := (hslots j hj).2 ▸ h.pid_ne j (hslots j hj).1
  pid_inj j k hj hk heq := by
    refine h.pid_inj j k (hslots j hj).1 (hslots k hk).1 ?_
    rw [← (hslots j hj).2, ← (hslots k hk).2, heq]
  generation_pos := hgen

theorem retireSlot (h : Numbered s) (i : TaskIndex) : Numbered (s.setSlot i (s.slots i).retired) :=
  h.retire (setSlot_cases nofun fun _ _ hj => ⟨hj, rfl⟩)
    (setSlot_cases (retired_generation_pos _) fun j _ => h.generation_pos j)

theorem disband (h : Numbered s) (leader : TaskIndex) (group : ℕ) (exitCode : ℤ)
    (epoch : ℕ) : Numbered (disband leader group exitCode epoch s) :=
  h.retire (disband_cases (fun _ hj => ⟨hj, rfl⟩) (fun _ _ _ => nofun) fun _ _ hj => ⟨hj, rfl⟩)
    (disband_cases (fun _ => h.generation_pos _) (fun _ _ _ => retired_generation_pos _)
      fun j _ => h.generation_pos j)

theorem new : Numbered .new where
  pid_ne _ h := by cases h
  pid_inj _ _ h := by cases h
  generation_pos _ := Nat.one_pos

section

variable (h : Numbered s)
include h

theorem pidTaken : Numbered s.pidTaken := by
  obtain ⟨n, hn⟩ := pidTaken_eq s
  rw [hn]
  exact h.congr fun _ => ⟨rfl, rfl⟩

theorem switchTo (target : Option TaskIndex) (epoch : ℕ) : Numbered (s.switchTo target epoch) :=
  h.congr (SameTasks.switchTo s target epoch)

/-- A slot keeps its task, whatever else it changes. -/
theorem setSlot (hocc : slot.occupied = (s.slots i).occupied)
    (hhd : slot.handle = (s.slots i).handle) : Numbered (s.setSlot i slot) :=
  h.congr (SameTasks.setSlot s hocc hhd)

theorem publishEpoch (epoch : ℕ) : Numbered (s.publishEpoch epoch) :=
  h.congr fun _ => ⟨rfl, rfl⟩

/-- A new task with a number from the counter. -/
theorem installPid (hpid : s.allocatePid.1 = some pid) (hslot : slot.pid = pid)
    (hgen : 0 < slot.generation) : Numbered (s.pidTaken.setSlot i slot) := by
  obtain ⟨htwo, hfresh⟩ := allocatePid_fresh hpid
  apply h.pidTaken.install
  · rw [noPid]
    omega
  · intro j hj
    rw [pidTaken_slots] at hj ⊢
    rw [hslot]
    exact hfresh j hj
  · exact hgen

theorem cloned {current child : TaskIndex}
    {context : SavedUserContext} {stackPointer fsBase : Word} (hpid : s.allocatePid.1 = some pid) :
    Numbered (cloned s current child pid context stackPointer fsBase) := by
  unfold Process.cloned
  apply publishEpoch
  refine setSlot (s := withThread s current child pid context stackPointer fsBase) ?_ rfl rfl
  exact h.installPid hpid rfl (Nat.succ_pos _)

theorem asleep (i : TaskIndex) (saved : SavedUserContext) (epoch : ℕ) :
    Numbered (s.setSlot i ((s.slots i).asleep saved epoch)) :=
  h.setSlot rfl rfl

theorem exited (i : TaskIndex) (exitCode : ℤ) (epoch : ℕ) :
    Numbered (s.setSlot i ((s.slots i).exited exitCode epoch)) :=
  h.setSlot rfl rfl

theorem preempted (i : TaskIndex) (saved : SavedUserContext) : Numbered (s.preempted i saved) :=
  h.setSlot rfl rfl

theorem effect {α : Type} {c : LifecycleCall α} {a : α} (heff : Effect s c a t) : Numbered t := by
  cases heff with
  | publishCurrent => exact h.congr fun _ => ⟨rfl, rfl⟩
  | registerInit hlau hnew =>
    exact h.install Nat.one_ne_zero (slotByPid_none.mp hnew) (h.generation_pos _)
  | commitChild hpar hlau hp hzomb hpid =>
    exact h.installPid hpid rfl (Nat.succ_pos _)
  | cloneCurrentThread hcur hlinux hpid =>
    exact h.cloned hpid
  | discardRunnableThread | reapChild => exact h.retireSlot _
  | markRunning | scheduleFromPid0 => exact h.switchTo _ _
  | resumeCurrent | replaceCurrentImage =>
    apply publishEpoch
    exact h.setSlot rfl rfl
  | setCurrentFsBase | markRunnable | markBlocked => exact h.setSlot rfl rfl
  | scheduleYield | schedulePreempt => exact (h.preempted _ _).switchTo _ _
  | scheduleBlock => exact (h.asleep _ _ _).switchTo _ _
  | scheduleExit => exact (h.exited _ _ _).switchTo _ _
  | scheduleExitGroup => exact (h.disband _ _ _ _).switchTo _ _
  | scheduleThreadExit => exact (h.retireSlot _).switchTo _ _

end

end Numbered

variable {α : Type} {phase : ProcessPhase}

/-- What every successful call keeps, and what does not look at the counter of process
numbers, every call keeps. -/
theorem exec_induction (c : LifecycleCall α) {P : Lifecycle → Prop} (h : P s)
    (hcounter : P s.pidTaken) (heff : ∀ a t, Effect s c a t → P t) : P (c.exec s).2 := by
  have hout := exec_outcome c s
  cases hr : (c.exec s).1 with
  | error =>
    rw [hr] at hout
    rcases hout with heq | ⟨_, heq⟩
    · rwa [heq]
    · rwa [heq]
  | ok a =>
    rw [hr] at hout
    exact heff a _ hout

theorem Numbered.exec (c : LifecycleCall α) (h : Numbered s) : Numbered (c.exec s).2 :=
  exec_induction c h h.pidTaken fun _ _ heff => h.effect heff

/-! ### The running task -/

/-- The task in the running phase is the published one. -/
structure Single (s : Lifecycle) : Prop extends Numbered s where
  published : ∀ i, (s.slots i).inPhase .running → s.currentExecution = (s.slots i).handle
  current : s.currentExecution = pid0Identity ∨ ∃ i, RunningAt s i

theorem RunningAt.inPhase (h : RunningAt s i) : (s.slots i).inPhase .running := by
  simp [ProcessSlot.inPhase, h.occupied, h.phase]

namespace Single

theorem only (h : Single s) {j : TaskIndex} (hi : RunningAt s i)
    (hj : (s.slots j).inPhase .running) : j = i := by
  have hhd : (s.slots j).handle = (s.slots i).handle := by
    rw [← h.published j hj, hi.current]
  exact h.pid_inj j i (inPhase_iff.mp hj).1 hi.occupied (congrArg (·.pid) hhd)

theorem new : Single .new where
  toNumbered := .new
  published _ h := by cases h
  current := .inl rfl

/-- Registers, launch data and epochs do not matter. -/
theorem congr (h : Single s) (htasks : SameTasks s t)
    (hph : ∀ i, (t.slots i).phase = (s.slots i).phase)
    (hcur : t.currentExecution = s.currentExecution) : Single t where
  toNumbered := h.toNumbered.congr htasks
  published i hi := by
    rw [hcur, (htasks i).2]
    apply h.published i
    rwa [inPhase, (htasks i).1, hph i] at hi
  current := by
    rw [hcur]
    refine h.current.imp_right ?_
    rintro ⟨i, hi⟩
    refine ⟨i, ?_, ?_, ?_⟩
    · rw [(htasks i).1, hi.occupied]
    · rw [hph i, hi.phase]
    · rw [hcur, (htasks i).2, hi.current]

theorem pidTaken (h : Single s) : Single s.pidTaken := by
  obtain ⟨n, hn⟩ := pidTaken_eq s
  rw [hn]
  exact h.congr (fun _ => ⟨rfl, rfl⟩) (fun _ => rfl) rfl

theorem publishEpoch (h : Single s) (epoch : ℕ) : Single (s.publishEpoch epoch) :=
  h.congr (fun _ => ⟨rfl, rfl⟩) (fun _ => rfl) rfl

variable {i : TaskIndex} {slot : ProcessSlot}

/-- A slot keeps its task and its phase. -/
theorem setSlot (h : Single s)
    (hocc : slot.occupied = (s.slots i).occupied) (hhd : slot.handle = (s.slots i).handle)
    (hph : slot.phase = (s.slots i).phase) : Single (s.setSlot i slot) :=
  h.congr (SameTasks.setSlot s hocc hhd) (apply_update_of_eq hph) rfl

/-- A slot that is not in the running phase changes and stays out of it. -/
theorem elsewhere (h : Single s)
    (hnum : Numbered (s.setSlot i slot)) (hold : (s.slots i).inPhase .running = false)
    (hnew : slot.inPhase .running = false) : Single (s.setSlot i slot) where
  toNumbered := hnum
  published := setSlot_cases (fun hi => absurd hi (by simp [hnew])) fun j _ => h.published j
  current := by
    refine h.current.imp_right ?_
    rintro ⟨j, hj⟩
    refine ⟨j, ?_⟩
    have hji : j ≠ i := by
      rintro rfl
      simp [hj.inPhase] at hold
    refine ⟨?_, ?_, ?_⟩ <;> simp only [Lifecycle.setSlot, update_of_ne hji]
    · exact hj.occupied
    · exact hj.phase
    · exact hj.current

/-- A switch while no slot is in the running phase. -/
theorem switchTo (hnum : Numbered s) (hnone : ∀ j, (s.slots j).inPhase .running = false)
    {target : Option TaskIndex} (epoch : ℕ)
    (htgt : ∀ j, target = some j → (s.slots j).occupied) : Single (s.switchTo target epoch) where
  toNumbered := hnum.switchTo target epoch
  published i hi := by
    cases target with
    | none => simp [Lifecycle.switchTo, hnone i] at hi
    | some j =>
      have hij : i = j := by
        by_contra hij
        simp [Lifecycle.switchTo, setPhase, Lifecycle.setSlot, hij, hnone i] at hi
      subst hij
      simp [Lifecycle.switchTo, setPhase, Lifecycle.setSlot, handle]
  current := by
    cases target with
    | none => exact .inl rfl
    | some j =>
      refine .inr ⟨j, ?_, ?_, ?_⟩ <;>
        simp [Lifecycle.switchTo, setPhase, Lifecycle.setSlot, handle, htgt j rfl]

/-- Once the running task has left its slot no slot is in the running phase. -/
theorem left (h : Single s) (hi : RunningAt s i) (hslot : slot.inPhase .running = false)
    (j : TaskIndex) : ((s.setSlot i slot).slots j).inPhase .running = false := by
  by_cases hj : j = i
  · subst hj
    simpa [Lifecycle.setSlot] using hslot
  · simp only [Lifecycle.setSlot, update_of_ne hj]
    by_contra hrun
    exact hj (h.only hi (Bool.not_eq_false _ ▸ hrun))

/-- The running task leaves its slot, and a runnable one takes over. -/
theorem depart (h : Single s) (hi : RunningAt s i) (hnum : Numbered (s.setSlot i slot))
    (hslot : slot.inPhase .running = false) {target : Option TaskIndex} (epoch : ℕ)
    (htgt : ∀ j, target = some j → (s.slots j).inPhase .runnable) :
    Single ((s.setSlot i slot).switchTo target epoch) := by
  refine switchTo hnum (h.left hi hslot) epoch fun j hj => ?_
  rw [setSlot_other _ (hi.ne_of_runnable (htgt j hj))]
  exact (inPhase_iff.mp (htgt j hj)).1

theorem turn (h : Single s) (hi : RunningAt s i) (saved : SavedUserContext)
    (epoch : ℕ) : Single ((s.preempted i saved).switchTo (some (s.nextTurn i)) epoch) := by
  refine switchTo (h.preempted i saved) (h.left hi ?_) epoch fun j hj => ?_
  · simp [inPhase]
  · cases hj
    exact (inPhase_iff.mp (hi.nextTurn saved)).1

theorem disband (h : Single s) (hi : RunningAt s i)
    (leader : TaskIndex) (exitCode : ℤ) (epoch : ℕ) (j : TaskIndex) :
    ((disband leader (s.slots i).threadGroup exitCode epoch s).slots j).inPhase
      .running = false := by
  refine disband_cases (fun _ => ?_) (fun _ _ _ => rfl) (fun j hout => ?_) j
  · simp [exited, inPhase]
  · by_contra hrun
    have hji := h.only hi (Bool.not_eq_false _ ▸ hrun)
    simp [hji, inGroup, hi.occupied] at hout

end Single

/-- The call sets the phase of the running task from outside. -/
def disturbs {α : Type} : LifecycleCall α → Lifecycle → Prop
  | .markRunnable handle, s | .markBlocked handle, s =>
    ∃ i, (s.slots i).holds handle ∧ (s.slots i).phase = .running
  | _, _ => False

theorem inPhase_of_ne {slot : ProcessSlot} (h : slot.phase ≠ phase) :
    slot.inPhase phase = false := by
  simp [inPhase, h]

theorem inPhase_of_free {slot : ProcessSlot} (h : slot.occupied = false) :
    slot.inPhase phase = false := by
  simp [inPhase, h]

variable {c : LifecycleCall α}

theorem Single.effect {a : α} (h : Single s)
    (heff : Effect s c a t) (hc : ¬ disturbs c s) : Single t := by
  have hnum : Numbered t := h.toNumbered.effect heff
  cases heff with
  | publishCurrent hi hph =>
    obtain ⟨hocc, hhd⟩ := handle_of_holds hi
    refine h.congr (fun _ => ⟨rfl, rfl⟩) (fun _ => rfl) ?_
    rw [← hhd, h.published]
    simp [inPhase, hocc, hph]
  | registerInit hlau hnew hi =>
    exact h.elsewhere hnum (inPhase_of_free (vacantIndex_some hi))
      (inPhase_of_ne (by simp [installed]))
  | commitChild hpar hlau hp hzomb hpid hi =>
    refine h.pidTaken.elsewhere hnum (inPhase_of_free ?_) (inPhase_of_ne (by simp [installed]))
    rw [pidTaken_slots]
    exact vacantIndex_some hi
  | @cloneCurrentThread context stackPointer fsBase pid current child hcur hlinux hpid hch =>
    unfold cloned
    apply publishEpoch
    refine setSlot (s := withThread s current child pid context stackPointer fsBase) ?_ rfl rfl rfl
    refine h.pidTaken.elsewhere (h.installPid hpid rfl (Nat.succ_pos _)) (inPhase_of_free ?_)
      (inPhase_of_ne (by simp [threadSlot]))
    rw [pidTaken_slots]
    exact vacantIndex_some hch
  | discardRunnableThread hi hj hph =>
    exact h.elsewhere hnum (inPhase_of_ne (by simp [hph])) (inPhase_of_free rfl)
  | markRunning hidle hnone hi =>
    refine switchTo h.toNumbered hnone _ fun j hj => ?_
    cases hj
    exact (handle_of_holds hi).1
  | resumeCurrent | replaceCurrentImage =>
    apply publishEpoch
    exact h.setSlot rfl rfl rfl
  | setCurrentFsBase => exact h.setSlot rfl rfl rfl
  | scheduleYield hi | schedulePreempt hi => exact h.turn hi _ _
  | scheduleBlock hi =>
    exact h.depart hi (h.asleep _ _ _) (inPhase_of_ne (by simp [asleep])) _
      fun j hj => rotating_some hj
  | scheduleExit hi =>
    exact h.depart hi (h.exited _ _ _) (inPhase_of_ne (by simp [exited])) _
      fun j hj => rotating_some hj
  | scheduleExitGroup hi hlead htgt =>
    refine switchTo (h.toNumbered.disband _ _ _ _) (h.disband hi _ _ _) _ fun j hj => ?_
    obtain ⟨hrnbl, _, hout⟩ := outside_some (htgt ▸ hj)
    rw [disband_of_not_inGroup hout]
    exact (inPhase_iff.mp hrnbl).1
  | scheduleThreadExit hi =>
    exact h.depart hi (h.retireSlot _) (inPhase_of_free rfl) _ fun j hj => rotating_some hj
  | scheduleFromPid0 hidle hnone =>
    exact switchTo h.toNumbered hnone _ fun j hj => (inPhase_iff.mp (position_some hj)).1
  | markRunnable hi hph =>
    -- the task is a blocked one
    have hblocked := hph.resolve_left fun hrun => hc ⟨_, hi, hrun⟩
    exact h.elsewhere hnum (inPhase_of_ne (by simp [hblocked])) (inPhase_of_ne (by simp))
  | markBlocked hi hph => exact absurd ⟨_, hi, hph⟩ hc
  | reapChild hi hpar hph =>
    exact h.elsewhere hnum (inPhase_of_ne (by simp [hph])) (inPhase_of_free rfl)

theorem Single.exec (c : LifecycleCall α) (h : Single s) (hc : ¬ disturbs c s) :
    Single (c.exec s).2 :=
  exec_induction c h h.pidTaken fun _ _ heff => h.effect heff hc

/-- At most one slot is in the running phase; its task is the published one, and the
idle execution is published exactly when there is none. -/
def OneRunning (s : Lifecycle) : Prop :=
  (∀ i j, (s.slots i).inPhase .running → (s.slots j).inPhase .running → i = j) ∧
  (∀ i, (s.slots i).inPhase .running → s.currentExecution = (s.slots i).handle) ∧
  (s.currentExecution = pid0Identity ↔ ∀ i, (s.slots i).inPhase .running = false)

theorem handle_ne_pid0 (h : Numbered s)
    (hi : (s.slots i).occupied) : (s.slots i).handle ≠ pid0Identity := fun heq =>
  h.pid_ne i hi (congrArg (·.pid) heq)

theorem Single.oneRunning (h : Single s) : OneRunning s := by
  refine ⟨fun i j hi hj => ?_, h.published, fun hidle i => ?_, fun hnone => ?_⟩
  · have hrun : RunningAt s j := by
      obtain ⟨hocc, hph⟩ := inPhase_iff.mp hj
      exact ⟨hocc, hph, h.published j hj⟩
    exact h.only hrun hi
  · by_contra hi
    rw [Bool.not_eq_false] at hi
    exact handle_ne_pid0 h.toNumbered (inPhase_iff.mp hi).1 ((h.published i hi).symm.trans hidle)
  · refine h.current.resolve_right ?_
    rintro ⟨i, hi⟩
    exact Bool.noConfusion ((hnone i).symm.trans hi.inPhase)

theorem slotByHandle_eq (h : Numbered s) {handle : ProcessHandle}
    (hi : (s.slots i).holds handle) : s.slotByHandle handle = some i := by
  refine position_unique hi fun j hj => ?_
  obtain ⟨hocc, hhd⟩ := handle_of_holds hi
  obtain ⟨hocc', hhd'⟩ := handle_of_holds hj
  exact h.pid_inj j i hocc' hocc (congrArg (·.pid) (hhd'.trans hhd.symm))

/-- The call on the running task sets its phase and leaves it published. -/
theorem exec_of_disturbs (h : Single s) (hc : disturbs c s) :
    ∃ i phase, RunningAt s i ∧ phase ≠ .running ∧ (c.exec s).2 = s.setPhase i phase := by
  have hrun {handle : ProcessHandle} {i : TaskIndex}
      (hi : (s.slots i).holds handle) (hph : (s.slots i).phase = .running) :
      RunningAt s i ∧ (handle.pid != noPid) := by
    obtain ⟨hocc, hhd⟩ := handle_of_holds hi
    refine ⟨⟨hocc, hph, h.published i ?_⟩, ?_⟩
    · simp [inPhase, hocc, hph]
    · rw [← hhd, bne_iff_ne]
      exact h.pid_ne i hocc
  cases c with
  | markRunnable =>
    obtain ⟨i, hi, hph⟩ := hc
    obtain ⟨hat, hpid⟩ := hrun hi hph
    refine ⟨i, .runnable, hat, by decide, ?_⟩
    simp [LifecycleCall.exec, LifecycleCall.op, markRunnable, hpid, hph,
      slotByHandle_eq h.toNumbered hi]
  | markBlocked =>
    obtain ⟨i, hi, hph⟩ := hc
    obtain ⟨hat, hpid⟩ := hrun hi hph
    refine ⟨i, .blocked, hat, by decide, ?_⟩
    simp [LifecycleCall.exec, LifecycleCall.op, markBlocked, hpid, hph,
      slotByHandle_eq h.toNumbered hi]
  | _ => exact absurd hc not_false

theorem not_oneRunning_of_disturbs (h : Single s)
    (hc : disturbs c s) : ¬ OneRunning (c.exec s).2 := by
  obtain ⟨i, phase, hi, hph, heq⟩ := exec_of_disturbs h hc
  rw [heq]
  rintro ⟨_, _, hidle⟩
  have hcur : (s.setPhase i phase).currentExecution = (s.slots i).handle := hi.current
  refine handle_ne_pid0 h.toNumbered hi.occupied (hcur.symm.trans (hidle.mpr ?_))
  exact h.left hi (inPhase_of_ne hph)

/-- In every run that leaves the running task to the scheduler, one task runs at a time
and it is the published one. From each state of such a run, a call breaks this exactly
when it sets the phase of the running task from outside. -/
theorem running_task_published (h : Runs (fun c s => ¬ disturbs c s) .new s) :
    OneRunning s ∧ ∀ {α : Type} (c : LifecycleCall α), OneRunning (c.exec s).2 ↔
      ¬ disturbs c s := by
  have hsing : Single s := by
    induction h with
    | refl => exact .new
    | tail _ hstep ih =>
      obtain ⟨_, c, hc, rfl⟩ := hstep
      exact ih.exec c hc
  refine ⟨hsing.oneRunning, fun c => ⟨fun hone hc => ?_, fun hc => ?_⟩⟩
  · exact not_oneRunning_of_disturbs hsing hc hone
  · exact (hsing.exec c hc).oneRunning

theorem running_task_published_started : OneRunning started := by
  exact (running_task_published (runs_started not_false not_false)).1

/-- Blocking the first process from outside leaves it published, with no task running. -/
theorem running_task_blocked_outside :
    let s := ((LifecycleCall.markBlocked { pid := initPid, generation := 1 }).exec started).2
    Runs anyCall .new s ∧ s.currentExecution = { pid := initPid, generation := 1 } ∧
      (∀ i, (s.slots i).inPhase .running = false) ∧ ¬ OneRunning s := by
  intro s
  have hcur : s.currentExecution = { pid := initPid, generation := 1 } := by decide +kernel
  have hnone : ∀ i, (s.slots i).inPhase .running = false := by decide +kernel
  refine ⟨(runs_started trivial trivial).exec _ trivial, hcur, hnone, fun hone => ?_⟩
  have hidle := hone.2.2.mpr hnone
  rw [hcur] at hidle
  exact absurd hidle (by decide)

end ArachKernel.Process
