import ArachKernel.Process.Contexts

/-!
Blocked tasks. Apart from the operations that put a task to sleep or wake it, and from the
exit of a whole group, no operation touches the slot of a blocked task or makes one.
-/

namespace ArachKernel.Process

open Table Lifecycle ProcessSlot

variable {s t : Lifecycle} {α : Type} {i : TaskIndex}

/-- The task in the slot is blocked. -/
abbrev Asleep (slot : ProcessSlot) : Prop := slot.inPhase .blocked

/-- The operations that can end or begin a sleep. -/
def stirs : LifecycleCall α → Bool
  | .scheduleBlock _ | .markRunnable _ | .markBlocked _ | .scheduleExitGroup _ => true
  | _ => false

/-- Whoever is asleep before or after has the same slot before and after. -/
def Quiet (s t : Lifecycle) : Prop :=
  ∀ j, Asleep (s.slots j) ∨ Asleep (t.slots j) → t.slots j = s.slots j

theorem asleep_iff {slot : ProcessSlot} : Asleep slot ↔ slot.occupied ∧ slot.phase = .blocked := by
  simp [Asleep, inPhase]

theorem not_asleep {slot : ProcessSlot} (h : slot.occupied = false ∨ slot.phase ≠ .blocked) :
    ¬ Asleep slot := by
  rw [asleep_iff]
  rintro ⟨hocc, hph⟩
  rcases h with h | h
  · simp [hocc] at h
  · exact h hph

theorem RunningAt.not_asleep (h : RunningAt s i) : ¬ Asleep (s.slots i) :=
  Process.not_asleep (.inr (by simp [h.phase]))

theorem vacant_not_asleep (h : s.vacantIndex = some i) : ¬ Asleep (s.slots i) := by
  have hvac : (s.slots i).vacant := position_some h
  simp only [vacant, Bool.and_eq_true, Bool.not_eq_true'] at hvac
  exact not_asleep (.inl hvac.1)

theorem not_asleep_of_runnable {slot : ProcessSlot} (h : slot.inPhase .runnable) : ¬ Asleep slot :=
  not_asleep (.inr (by simp [(inPhase_iff.mp h).2]))

namespace Quiet

theorem of_slots (h : t.slots = s.slots) : Quiet s t := by
  intro j _
  rw [h]

theorem trans {u : Lifecycle} (h : Quiet s t) (h' : Quiet t u) : Quiet s u := by
  rintro j (hj | hj)
  · have hst := h j (.inl hj)
    rw [h' j (.inl (by rwa [hst])), hst]
  · have htu := h' j (.inr hj)
    rw [htu, h j (.inr (by rwa [← htu]))]

variable {i : TaskIndex} {slot : ProcessSlot}

theorem setSlot (s : Lifecycle)
    (hold : ¬ Asleep (s.slots i)) (hnew : ¬ Asleep slot) : Quiet s (s.setSlot i slot) := by
  exact setSlot_cases (fun hi => (hi.elim hold hnew).elim) fun _ _ _ => rfl

theorem switchTo (s : Lifecycle) {target : Option TaskIndex} (epoch : ℕ)
    (htgt : ∀ j, target = some j → ¬ Asleep (s.slots j)) : Quiet s (s.switchTo target epoch) := by
  cases target with
  | none => exact of_slots rfl
  | some j =>
    have hph : Quiet s (s.setPhase j .running) :=
      setSlot s (htgt j rfl) (not_asleep (.inr (by simp)))
    exact hph

theorem publishEpoch (h : Quiet s t) (epoch : ℕ) : Quiet s (t.publishEpoch epoch) :=
  h.trans (of_slots rfl)

/-- The running task changes something of its own. -/
theorem running (hi : RunningAt s i)
    (hslot : slot.phase ≠ .blocked ∨ slot.occupied = false) : Quiet s (s.setSlot i slot) :=
  setSlot s hi.not_asleep (not_asleep hslot.symm)

/-- The running task leaves the processor to another. -/
theorem depart (hi : RunningAt s i) (hslot : slot.phase ≠ .blocked ∨ slot.occupied = false)
    (epoch : ℕ) : Quiet s ((s.setSlot i slot).switchTo (s.nextRunnableIndex i) epoch) := by
  refine (running hi hslot).trans (switchTo _ epoch fun j hj => ?_)
  rw [setSlot_other _ (hi.ne_of_runnable (rotating_some hj))]
  exact not_asleep_of_runnable (rotating_some hj)

theorem turn (hi : RunningAt s i) (saved : SavedUserContext) (epoch : ℕ) :
    Quiet s ((s.preempted i saved).switchTo (some (s.nextTurn i)) epoch) := by
  refine (running hi (.inl (by simp))).trans (switchTo _ epoch fun j hj => ?_)
  cases hj
  exact not_asleep_of_runnable (hi.nextTurn saved)

end Quiet

theorem Effect.quiet {c : LifecycleCall α} {a : α} (h : Effect s c a t) (hc : stirs c = false) :
    Quiet s t := by
  cases h with
  | publishCurrent => exact .of_slots rfl
  | registerInit _ _ hi =>
    exact .setSlot s (vacant_not_asleep hi) (not_asleep (.inr (by simp [installed])))
  | commitChild _ _ _ _ _ hi =>
    refine Quiet.trans (.of_slots (pidTaken_slots s)) (.setSlot _ ?_ ?_)
    · rw [pidTaken_slots]
      exact vacant_not_asleep hi
    · exact not_asleep (.inr (by simp [installed]))
  | @cloneCurrentThread _ _ _ _ current child hcur _ _ hch =>
    have hthr (pid : ℕ) (context : SavedUserContext) (stack fsBase : Word) :
        Quiet s (withThread s current child pid context stack fsBase) := by
      refine Quiet.trans (.of_slots (pidTaken_slots s)) (.setSlot _ ?_ ?_)
      · rw [pidTaken_slots]
        exact vacant_not_asleep hch
      · exact not_asleep (.inr (by simp [threadSlot]))
    refine ((hthr _ _ _ _).trans (.setSlot _ ?_ ?_)).publishEpoch _
    all_goals
      refine not_asleep (.inr ?_)
      by_cases heq : current = child
      · subst heq
        simp [withThread, setSlot_self, threadSlot]
      · simp [withThread, setSlot_other _ heq, hcur.phase]
  | discardRunnableThread _ _ hph | reapChild _ _ hph =>
    exact .setSlot s (not_asleep (.inr (by simp [hph]))) (not_asleep (.inl (retired_occupied _)))
  | @markRunning _ i _ _ _ hph =>
    refine .switchTo s _ fun j hj => ?_
    cases hj
    exact not_asleep (.inr (by simp [hph]))
  | resumeCurrent hi => exact (Quiet.running hi (.inl (by simp [hi.phase]))).publishEpoch _
  | replaceCurrentImage hi => exact (Quiet.running hi (.inl (by simp [hi.phase]))).publishEpoch _
  | setCurrentFsBase hi => exact .running hi (.inl (by simp [hi.phase]))
  | scheduleYield hi | schedulePreempt hi => exact .turn hi _ _
  | scheduleExit hi => exact .depart hi (.inl (by simp [exited])) _
  | scheduleThreadExit hi => exact .depart hi (.inr (retired_occupied _)) _
  | scheduleFromPid0 =>
    exact .switchTo s _ fun j hj => not_asleep_of_runnable (position_some hj)
  | _ => cases hc

theorem quiet_exec (c : LifecycleCall α) (hc : stirs c = false) : Quiet s (c.exec s).2 :=
  exec_induction c (.of_slots rfl) (.of_slots (pidTaken_slots s)) fun _ _ heff => heff.quiet hc

/-! ### The operations that stir -/

/-- The call puts the running task to sleep. -/
def blocks : LifecycleCall α → Bool
  | .scheduleBlock _ => true
  | _ => false

theorem Effect.blocked {c : LifecycleCall α} {a : α} (h : Effect s c a t) (hc : blocks c) :
    ∃ i, RunningAt s i ∧ Asleep (t.slots i) ∧ (t.slots i).handle = (s.slots i).handle ∧
      (t.slots i).launch = (s.slots i).launch ∧
      ∀ j, j ≠ i → Asleep (s.slots j) ∨ Asleep (t.slots j) → t.slots j = s.slots j := by
  cases h with
  | @scheduleBlock saved i hi =>
    have hself : ∀ j, s.nextRunnableIndex i = some j → i ≠ j := fun j hj =>
      (hi.ne_of_runnable (rotating_some hj)).symm
    refine ⟨i, hi, ?_, ?_, ?_, fun j hji hj => ?_⟩
    · rw [switchTo_other _ hself, setSlot_self, asleep_iff]
      exact ⟨hi.occupied, rfl⟩
    · rw [switchTo_other _ hself, setSlot_self]
      rfl
    · rw [switchTo_other _ hself, setSlot_self]
      rfl
    · have hslot := setSlot_other (s := s) ((s.slots i).asleep saved (s.schedulerEpoch + 1)) hji
      rw [← hslot] at hj ⊢
      refine Quiet.switchTo _ _ (fun k hk => ?_) j hj
      rw [setSlot_other _ (hself k hk).symm]
      exact not_asleep_of_runnable (rotating_some hk)
  | _ => cases hc

/-- The task that the call wakes. -/
def wakes : LifecycleCall α → Option ProcessHandle
  | .markRunnable handle => some handle
  | _ => none

theorem Effect.woken {c : LifecycleCall α} {a : α} {handle : ProcessHandle} (h : Effect s c a t)
    (hc : wakes c = some handle) : ∃ i, (s.slots i).holds handle ∧ t = s.setPhase i .runnable := by
  cases h with
  | @markRunnable _ i hi =>
    cases hc
    exact ⟨i, hi, rfl⟩
  | _ => cases hc

/-- The exit of a group ends the sleep of its members, and of nobody else. -/
theorem Effect.groupQuiet {c : LifecycleCall α} {a : α} {exitCode : ℤ} (h : Effect s c a t)
    (hc : exitGroupCode c = some exitCode) :
    ∃ i, RunningAt s i ∧ ∀ j, ((s.slots j).inGroup (s.slots i).threadGroup → ¬ Asleep (t.slots j)) ∧
      ((s.slots j).inGroup (s.slots i).threadGroup = false →
        Asleep (s.slots j) ∨ Asleep (t.slots j) → t.slots j = s.slots j) := by
  cases h with
  | @scheduleExitGroup _ i leader target hi hlead htgt =>
    refine ⟨i, hi, fun j => ⟨fun hj => ?_, fun hj hasleep => ?_⟩⟩
    · rw [switchTo_other _ (ne_outside htgt hj)]
      by_cases hjl : j = leader
      · subst hjl
        rw [disband_leader hj]
        exact not_asleep (.inr (by simp [exited]))
      · rw [disband_member hj hjl]
        exact not_asleep (.inl (retired_occupied _))
    · cases hc
      have hslot :
          (disband leader (s.slots i).threadGroup exitCode (s.schedulerEpoch + 1) s).slots j =
          s.slots j := disband_of_not_inGroup hj
      rw [← hslot] at hasleep ⊢
      refine Quiet.switchTo _ _ (fun k hk => ?_) j hasleep
      obtain ⟨hrnbl, _, hout⟩ := outside_some (htgt ▸ hk)
      rw [disband_of_not_inGroup hout]
      exact not_asleep_of_runnable hrnbl
  | _ => cases hc

end ArachKernel.Process
