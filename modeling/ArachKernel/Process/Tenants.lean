import ArachKernel.Process.Contexts

/-!
Who lives in which address space. Apart from the creation and the end of a process and
from the replacement of an image, no operation of the process table brings a live task
into an address space that its group did not have before, or takes the leader of a group
away.
-/

namespace ArachKernel.Process

open Table Lifecycle ProcessSlot

variable {s t u : Lifecycle} {α : Type}

/-- The task is in the table and has not ended. -/
def Live (slot : ProcessSlot) : Prop := slot.occupied ∧ slot.phase ≠ .zombie

/-- The slot holds the same task with the same image, and the task has ended or not as
before. -/
structure Stays (old new : ProcessSlot) : Prop extends Kept old new where
  launch : new.launch = old.launch := by rfl
  ended : new.phase = .zombie ↔ old.phase = .zombie := by rfl

theorem Stays.live {old new : ProcessSlot} (h : Stays old new) : Live new ↔ Live old := by
  rw [Live, Live, h.occupied, ne_eq, h.ended]

/-- Every live task comes from one of its group with the same address space, and every
leader but the one that ends is still there. -/
structure Tenants (s t : Lifecycle) (ended : Option TaskIndex) : Prop where
  source : ∀ i, Live (t.slots i) → ∃ j, Live (s.slots j) ∧
    (t.slots i).threadGroup = (s.slots j).threadGroup ∧
    (t.slots i).launch.addressSpaceRoot = (s.slots j).launch.addressSpaceRoot
  leader : ∀ j, Live (s.slots j) → (s.slots j).pid = (s.slots j).threadGroup → ended ≠ some j →
    Stays (s.slots j) (t.slots j)

/-- The process led by the task in `j` ends. -/
structure Ends (s t : Lifecycle) (j : TaskIndex) : Prop where
  leads : (s.slots j).pid = (s.slots j).threadGroup
  kept : Kept (s.slots j) (t.slots j)
  launch : (t.slots j).launch = (s.slots j).launch
  alone : ∀ i, Live (t.slots i) → (t.slots i).threadGroup ≠ (s.slots j).threadGroup

variable {target : Option TaskIndex} {slot : ProcessSlot} {i : TaskIndex}

namespace Tenants

variable {ended : Option TaskIndex}

theorem stays (h : ∀ i, Stays (s.slots i) (t.slots i)) : Tenants s t none where
  source i hi := ⟨i, (h i).live.mp hi, (h i).threadGroup, by rw [(h i).launch]⟩
  leader j _ _ _ := h j

theorem of_slots (h : t.slots = s.slots) : Tenants s t none := stays fun i => by
  rw [h]
  exact {}

theorem trans (h : Tenants s t ended) (h' : Tenants t u none) : Tenants s u ended where
  source i hi := by
    obtain ⟨j, hj, hgrp, hroot⟩ := h'.source i hi
    obtain ⟨k, hk, hgrp', hroot'⟩ := h.source j hj
    exact ⟨k, hk, hgrp.trans hgrp', hroot.trans hroot'⟩
  leader j hj hleads hne := by
    have hst := h.leader j hj hleads hne
    have hpid : (t.slots j).pid = (s.slots j).pid := congrArg (·.pid) hst.handle
    have htu := h'.leader j (hst.live.mpr hj) (by rw [hpid, hst.threadGroup, hleads]) (by simp)
    exact
      { occupied := htu.occupied.trans hst.occupied
        handle := htu.handle.trans hst.handle
        threadGroup := htu.threadGroup.trans hst.threadGroup
        parent := htu.parent.trans hst.parent
        launch := htu.launch.trans hst.launch
        ended := htu.ended.trans hst.ended }

theorem setSlot (s : Lifecycle) (h : Stays (s.slots i) slot) : Tenants s (s.setSlot i slot) none :=
  stays (setSlot_cases h fun _ _ => {})

theorem switchTo (s : Lifecycle) (epoch : ℕ)
    (htgt : ∀ j, target = some j → (s.slots j).phase ≠ .zombie) :
    Tenants s (s.switchTo target epoch) none := by
  cases target with
  | none => exact of_slots rfl
  | some j =>
    have hph : Stays (s.slots j) { s.slots j with phase := .running } :=
      { ended := by simp [htgt j rfl] }
    exact (setSlot s hph).trans (of_slots rfl)

/-- Someone leaves who is not the live leader of a group. -/
theorem retire (s : Lifecycle) (hi : Live (s.slots i) → (s.slots i).pid ≠ (s.slots i).threadGroup) :
    Tenants s (s.setSlot i (s.slots i).retired) none where
  source := setSlot_cases (fun hi => nomatch hi.1) fun j _ hj => ⟨j, hj, rfl, rfl⟩
  leader j hj hleads _ := by
    have hji : j ≠ i := by
      rintro rfl
      exact hi hj hleads
    rw [setSlot_other _ hji]
    exact {}

theorem publishEpoch (h : Tenants s t ended) (epoch : ℕ) : Tenants s (t.publishEpoch epoch) ended :=
  h.trans (of_slots rfl)

/-- A thread comes to the group of a live task. -/
theorem thread (s : Lifecycle) {k : TaskIndex} (hfree : (s.slots i).occupied = false)
    (hk : Live (s.slots k)) (hgrp : slot.threadGroup = (s.slots k).threadGroup)
    (hlau : slot.launch = (s.slots k).launch) : Tenants s (s.setSlot i slot) none where
  source := setSlot_cases (fun _ => ⟨k, hk, hgrp, by rw [hlau]⟩) fun j _ hj => ⟨j, hj, rfl, rfl⟩
  leader j hj _ _ := by
    have hji : j ≠ i := by
      rintro rfl
      exact Bool.noConfusion (hfree.symm.trans hj.1)
    rw [setSlot_other _ hji]
    exact {}

end Tenants

theorem RunningAt.live (h : RunningAt s i) : Live (s.slots i) :=
  ⟨h.occupied, by simp [h.phase]⟩

theorem not_zombie_of_runnable (h : slot.inPhase .runnable) : slot.phase ≠ .zombie := by
  simp [(inPhase_iff.mp h).2]

namespace Tenants

variable {i : TaskIndex}

/-- The running task leaves the processor with its slot kept. -/
theorem depart (hi : RunningAt s i) (h : Stays (s.slots i) slot) (epoch : ℕ) :
    Tenants s ((s.setSlot i slot).switchTo (s.nextRunnableIndex i) epoch) none := by
  refine (setSlot s h).trans (switchTo _ epoch fun j hj => ?_)
  rw [setSlot_other _ (hi.ne_of_runnable (rotating_some hj))]
  exact not_zombie_of_runnable (rotating_some hj)

theorem turn (hi : RunningAt s i) (saved : SavedUserContext) (epoch : ℕ) :
    Tenants s ((s.preempted i saved).switchTo (some (s.nextTurn i)) epoch) none := by
  have hslot : Stays (s.slots i) { s.slots i with context := saved, phase := .runnable } :=
    { ended := by simp [hi.phase] }
  refine (setSlot s hslot).trans (switchTo _ epoch fun j hj => ?_)
  cases hj
  exact not_zombie_of_runnable (hi.nextTurn saved)

end Tenants

/-- The operations that neither create or end a process nor replace its image. -/
def ordinary : LifecycleCall α → Bool
  | .registerInit _ | .commitChild _ _ | .replaceCurrentImage .. | .scheduleExit _
  | .scheduleExitGroup _ => false
  | _ => true

theorem Effect.tenants {c : LifecycleCall α} {a : α} (h : Effect s c a t) (hc : ordinary c) :
    Tenants s t none := by
  cases h with
  | publishCurrent => exact .of_slots rfl
  | @cloneCurrentThread _ _ _ _ current child hcur _ _ hch =>
    refine Tenants.publishEpoch ?_ _
    have hfree := vacantIndex_some hch
    have htaken : Tenants s s.pidTaken none := .of_slots (pidTaken_slots s)
    refine (htaken.trans (.thread _ (k := current) ?_ ?_ ?_ ?_)).trans (.setSlot _ {})
    · rwa [pidTaken_slots]
    · rw [pidTaken_slots]
      exact hcur.live
    · rw [pidTaken_slots]
      rfl
    · rw [pidTaken_slots]
      rfl
  | discardRunnableThread _ _ _ _ hlead => exact .retire s fun _ => hlead
  | @markRunning _ i _ _ _ hph =>
    refine .switchTo s _ fun j hj => ?_
    cases hj
    simp [hph]
  | resumeCurrent => exact (Tenants.setSlot s {}).publishEpoch _
  | setCurrentFsBase => exact .setSlot s {}
  | scheduleYield hi | schedulePreempt hi => exact .turn hi _ _
  | scheduleBlock hi => exact .depart hi { ended := by simp [asleep, hi.phase] } _
  | @scheduleThreadExit i hi hlead =>
    refine (Tenants.retire s fun _ => hlead).trans (.switchTo _ _ fun j hj => ?_)
    rw [setSlot_other _ (hi.ne_of_runnable (rotating_some hj))]
    exact not_zombie_of_runnable (rotating_some hj)
  | scheduleFromPid0 => exact .switchTo s _ fun j hj => not_zombie_of_runnable (position_some hj)
  | markRunnable _ hph =>
    exact .setSlot s { ended := by rcases hph with hph | hph <;> simp [hph] }
  | markBlocked _ hph => exact .setSlot s { ended := by simp [hph] }
  | reapChild _ _ hph => exact .retire s fun hlive => absurd hph hlive.2
  | _ => cases hc

theorem tenants_exec (c : LifecycleCall α) (hc : ordinary c) : Tenants s (c.exec s).2 none :=
  exec_induction c (.of_slots rfl) (.of_slots (pidTaken_slots s)) fun _ _ heff => heff.tenants hc

/-! ### Ends of processes -/

/-- The task in `i` has become a zombie, and the processor goes to a runnable task. -/
theorem switchTo_exited (epoch : ℕ) (hzomb : (s.slots i).phase = .zombie)
    (htgt : ∀ j, target = some j → (s.slots j).phase ≠ .zombie) :
    (s.switchTo target epoch).slots i = s.slots i := by
  refine switchTo_other _ fun j hj => ?_
  rintro rfl
  exact htgt i hj hzomb

variable {exitCode : ℤ}

/-- The leader of a group has ended, perhaps with all of it, and the processor goes to another. -/
theorem Tenants.ends
    {epoch : ℕ} (hexit : Tenants s t (some i)) (hleads : (s.slots i).pid = (s.slots i).threadGroup)
    (hslot : t.slots i = (s.slots i).exited exitCode epoch)
    (htgt : ∀ j, target = some j → (t.slots j).phase ≠ .zombie) :
    Tenants s (t.switchTo target epoch) (some i) ∧
      ((∀ k, Live (t.slots k) → (t.slots k).threadGroup ≠ (s.slots i).threadGroup) →
        Ends s (t.switchTo target epoch) i) := by
  have hself := switchTo_exited epoch (by rw [hslot, exited]) htgt
  have hswitch := Tenants.switchTo _ epoch htgt
  refine ⟨hexit.trans hswitch, fun halone => ⟨hleads, ?_, ?_, fun j hj hgrp => ?_⟩⟩
  · rw [hself, hslot]
    exact {}
  · rw [hself, hslot]
    rfl
  · obtain ⟨k, hk, hgrp', _⟩ := hswitch.source j hj
    exact halone k hk (hgrp'.symm.trans hgrp)

/-- The exit code of the call that ends the running task. -/
def leaderExitCode : LifecycleCall α → Option ℤ
  | .scheduleExit exitCode => some exitCode
  | _ => none

theorem Effect.leaderExit {c : LifecycleCall α} {a : α} (h : Effect s c a t)
    (hc : leaderExitCode c = some exitCode) :
    ∃ i, RunningAt s i ∧ ((s.slots i).pid = (s.slots i).threadGroup →
      Tenants s t (some i) ∧ (endsWhole c s → Ends s t i)) := by
  cases h with
  | @scheduleExit code i hi =>
    refine ⟨i, hi, fun hleads => ?_⟩
    have hslot := setSlot_self ((s.slots i).exited code (s.schedulerEpoch + 1)) s i
    refine (Tenants.ends ⟨?_, fun j _ _ hne => ?_⟩ hleads hslot fun j hj => ?_).imp_right
      fun hends hwhole => hends ?_
    · exact setSlot_cases (fun hj => absurd rfl hj.2) fun j _ hj => ⟨j, hj, rfl, rfl⟩
    · rw [setSlot_other _ fun hji => hne (congrArg some hji.symm)]
      exact {}
    · rw [setSlot_other _ (hi.ne_of_runnable (rotating_some hj))]
      exact not_zombie_of_runnable (rotating_some hj)
    · refine setSlot_cases (fun hk _ => hk.2 rfl) fun k hki hk hgrp => ?_
      exact hki (hwhole i hi hleads k (inGroup_iff.mpr ⟨hk.1, hgrp⟩))
  | _ => cases hc

/-- The members of the group but the leader are gone, and the others are as they were. -/
theorem Tenants.disband (hnum : Numbered s) {leader : TaskIndex} {group : ℕ}
    (hleads : (s.slots leader).leads group) (exitCode : ℤ) (epoch : ℕ) :
    Tenants s (disband leader group exitCode epoch s) (some leader) := by
  obtain ⟨hocc, hpid, hgrp⟩ := leads_iff.mp hleads
  refine ⟨?_, fun j hj hjleads hne => ?_⟩
  · exact disband_cases (fun _ hj => absurd rfl hj.2) (fun _ _ _ hj => nomatch hj.1)
      fun j _ hj => ⟨j, hj, rfl, rfl⟩
  · have hout : (s.slots j).inGroup group = false := by
      by_contra hmem
      rw [Bool.not_eq_false] at hmem
      have hjgroup := (inGroup_iff.mp hmem).2
      have heq := hnum.pid_inj j leader hj.1 hocc (by rw [hjleads, hjgroup, hpid])
      exact hne (congrArg some heq.symm)
    rw [disband_of_not_inGroup hout]
    exact {}

theorem Effect.groupEnd {c : LifecycleCall α} {a : α} (h : Effect s c a t)
    (hc : exitGroupCode c = some exitCode) (hnum : Numbered s) :
    ∃ i leader, RunningAt s i ∧ (s.slots leader).leads (s.slots i).threadGroup ∧
      Tenants s t (some leader) ∧ Ends s t leader := by
  cases h with
  | @scheduleExitGroup code i leader target hi hleads htgt =>
    obtain ⟨hocc, hpid, hgrp⟩ := leads_iff.mp hleads
    have hin := inGroup_iff.mpr ⟨hocc, hgrp⟩
    refine ⟨i, leader, hi, hleads, ((Tenants.disband hnum hleads code _).ends
      (hpid.trans hgrp.symm) (disband_leader hin) fun j hj => ?_).imp_right fun hends => hends ?_⟩
    · obtain ⟨hrnbl, _, hout⟩ := outside_some (htgt ▸ hj)
      rw [disband_of_not_inGroup hout]
      exact not_zombie_of_runnable hrnbl
    · rw [hgrp]
      refine disband_cases (fun _ hk _ => hk.2 rfl) (fun _ _ _ hk _ => nomatch hk.1)
        fun k hout hk hkgroup => ?_
      simp [inGroup, hk.1, hkgroup] at hout
  | _ => cases hc

/-! ### New processes and new images -/

/-- The launch data of the process that a call creates. -/
def committedLaunch : LifecycleCall α → Option ProcessLaunch
  | .commitChild _ launch => some launch
  | _ => none

/-- A new process takes a free slot, and leads a group of its own. -/
theorem Effect.committed {c : LifecycleCall α} {a : α} {launch : ProcessLaunch} (h : Effect s c a t)
    (hc : committedLaunch c = some launch) :
    ∃ i, (s.slots i).occupied = false ∧ newHandle c a = some (t.slots i).handle ∧
      (t.slots i).leads (t.slots i).threadGroup ∧ (t.slots i).phase = .runnable ∧
      (t.slots i).launch = launch ∧ ∀ j, j ≠ i → t.slots j = s.slots j := by
  cases h with
  | @commitChild _ _ _ _ i _ _ _ _ _ hi =>
    cases hc
    refine ⟨i, vacantIndex_some hi, ?_, ?_, ?_, ?_, fun j hj => ?_⟩
    · rw [setSlot_self]
      rfl
    · rw [setSlot_self, leads_iff]
      exact ⟨rfl, rfl, rfl⟩
    · rw [setSlot_self]
      rfl
    · rw [setSlot_self]
      rfl
    · rw [setSlot_other _ hj, pidTaken_slots]
  | _ => cases hc

/-- The address space that a call gives to the running task. -/
def newRoot : LifecycleCall α → Option Word
  | .replaceCurrentImage root .. => some root
  | _ => none

/-- Only a leader without threads gets a new image. -/
theorem Effect.reimaged {c : LifecycleCall α} {a : α} {root : Word} (h : Effect s c a t)
    (hc : newRoot c = some root) :
    ∃ i, RunningAt s i ∧ Kept (s.slots i) (t.slots i) ∧ (t.slots i).phase = .running ∧
      (t.slots i).launch.addressSpaceRoot = root ∧
      (t.slots i).launch.serviceClass = (s.slots i).launch.serviceClass ∧
      ∀ j, j ≠ i → t.slots j = s.slots j := by
  cases h with
  | @replaceCurrentImage _ _ _ _ i hi =>
    cases hc
    refine ⟨i, hi, ?_, ?_, ?_, ?_, fun j hj => setSlot_other _ hj⟩
    all_goals simp only [Lifecycle.publishEpoch, setSlot, Function.update_self]
    · exact {}
    · exact hi.phase
  | _ => cases hc

end ArachKernel.Process
