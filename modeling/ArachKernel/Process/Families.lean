import ArachKernel.Process.Handles

/-!
Parents. A task keeps the process number of its parent for life, and there is no
reparenting. A parent that exits stays in the table as a zombie, so its children still
have a parent; a task that leaves the table while it has children does not, and nobody
can wait for these any more.
-/

namespace ArachKernel.Process

open Table Lifecycle Function

variable {s t : Lifecycle} {α : Type}

/-- Some task of the table has the number. -/
def Names (s : Lifecycle) (pid : ℕ) : Prop :=
  ∃ j, (s.slots j).occupied ∧ (s.slots j).pid = pid

instance (s : Lifecycle) (pid : ℕ) : Decidable (Names s pid) := by
  unfold Names
  infer_instance

/-- Every task outside the thread group of the first process has a parent in the table. -/
def Parented (s : Lifecycle) : Prop :=
  ∀ i, (s.slots i).occupied → (s.slots i).threadGroup ≠ initPid → Names s (s.slots i).parent

/-- The tasks that a call is to take out of the table: the one it names, the running one, or
the members of its group other than the leader. -/
def removes : LifecycleCall α → Lifecycle → TaskIndex → Prop
  | .discardRunnableThread handle, s, j | .reapChild _ handle, s, j => (s.slots j).holds handle
  | .scheduleThreadExit, s, j => RunningAt s j
  | .scheduleExitGroup _, s, j => ∃ i, RunningAt s i ∧
      (s.slots j).inGroup (s.slots i).threadGroup ∧ (s.slots j).pid ≠ (s.slots i).threadGroup
  | _, _, _ => False

/-- The call succeeds and takes the task in slot `j` out of the table. -/
def frees (c : LifecycleCall α) (s : Lifecycle) (j : TaskIndex) : Prop :=
  (∃ a, (c.exec s).1 = .ok a) ∧ removes c s j

/-- The call takes no task out of the table that is the parent of a task it leaves there. -/
def orderly (c : LifecycleCall α) (s : Lifecycle) : Prop :=
  ∀ i j, frees c s j → (s.slots i).occupied → ¬ frees c s i →
    (s.slots i).threadGroup ≠ initPid → (s.slots i).parent ≠ (s.slots j).pid

variable {c : LifecycleCall α} {a : α}

theorem orderly_of_not_removes (h : ∀ j, ¬ removes c s j) : orderly c s :=
  fun _ j hfreed => absurd hfreed.2 (h j)

/-! ### New tasks -/

/-- A call that makes a task takes no other out of the table. -/
theorem Effect.keeps_of_made (h : Effect s c a t) (hmade : (newHandle c a).isSome) (j : TaskIndex)
    (hj : (s.slots j).occupied) : Kept (s.slots j) (t.slots j) := by
  have hvac {i : TaskIndex} (hi : s.vacantIndex = some i) : j ≠ i := by
    rintro rfl
    simp [vacantIndex_some hi] at hj
  cases h with
  | registerInit hlau hnew hi =>
    simp only [setSlot, update_of_ne (hvac hi)]
    exact .refl _
  | commitChild hpar hlau hp hzomb hpid hi =>
    simp only [setSlot, update_of_ne (hvac hi), pidTaken_slots]
    exact .refl _
  | @cloneCurrentThread context stackPointer fsBase pid current child hcur hlinux hpid hch =>
    have hthr : Kept (s.slots j)
        ((withThread s current child pid context stackPointer fsBase).slots j) := by
      simp only [withThread, setSlot, update_of_ne (hvac hch), pidTaken_slots]
      exact .refl _
    exact hthr.trans (kept_setSlot _ {} j)
  | _ => cases hmade

theorem retires_iff {i j : TaskIndex} (hi : (s.slots i).occupied) :
    (s.slots j).occupied ∧ ((s.setSlot i (s.slots i).retired).slots j).occupied = false ↔
      j = i := by
  by_cases hij : j = i
  · simp [hij, setSlot, hi]
  · simp [hij, setSlot]

theorem Effect.removes_iff (hnum : Numbered s) (h : Effect s c a t) (j : TaskIndex) :
    removes c s j ↔ (s.slots j).occupied ∧ (t.slots j).occupied = false := by
  have hone {i : TaskIndex} (hi : (s.slots i).occupied) (hj : (s.slots j).occupied)
      (heq : (s.slots j).handle = (s.slots i).handle) : j = i :=
    hnum.pid_inj j i hj hi (congrArg (·.pid) heq)
  have hheld {i : TaskIndex} {handle : ProcessHandle} (hi : (s.slots i).holds handle) :
      (s.slots j).holds handle ↔ j = i := by
    obtain ⟨hocc, rfl⟩ := handle_of_holds hi
    refine ⟨fun hj => hone hocc (handle_of_holds hj).1 (handle_of_holds hj).2, ?_⟩
    rintro rfl
    exact hi
  have hstays (hkept : (s.slots j).occupied → Kept (s.slots j) (t.slots j)) :
      False ↔ (s.slots j).occupied ∧ (t.slots j).occupied = false := by
    refine ⟨False.elim, fun ⟨hj, hgone⟩ => ?_⟩
    exact Bool.noConfusion (hgone.symm.trans ((hkept hj).occupied.trans hj))
  cases h with
  | discardRunnableThread hi hj => exact (hheld hj).trans (retires_iff (handle_of_holds hj).1).symm
  | reapChild hi => exact (hheld hi).trans (retires_iff (handle_of_holds hi).1).symm
  | scheduleThreadExit hi =>
    rw [(kept_switchTo _ _ _ j).occupied, retires_iff hi.occupied]
    refine ⟨fun hj => hone hi.occupied hj.occupied (hj.current.symm.trans hi.current), ?_⟩
    rintro rfl
    exact hi
  | @scheduleExitGroup exitCode i leader target hi hlead =>
    have hremoves : removes (.scheduleExitGroup exitCode) s j ↔
        (s.slots j).inGroup (s.slots i).threadGroup ∧
          (s.slots j).pid ≠ (s.slots i).threadGroup := by
      refine ⟨fun ⟨k, hk, hmember⟩ => ?_, fun hmember => ⟨i, hi, hmember⟩⟩
      have hki := hnum.pid_inj k i hk.occupied hi.occupied
        (congrArg (·.pid) (hk.current.symm.trans hi.current))
      exact hki ▸ hmember
    simp only [ProcessSlot.leads, Bool.and_eq_true, beq_iff_eq] at hlead
    rw [(kept_switchTo _ _ _ j).occupied, hremoves]
    by_cases hin : (s.slots j).inGroup (s.slots i).threadGroup
    · have hocc := Bool.and_elim_left hin
      by_cases hj : j = leader
      · subst hj
        simp [disband, hin, hlead]
      · have hpid : (s.slots j).pid ≠ (s.slots i).threadGroup := fun heq =>
          hj (hnum.pid_inj j leader hocc hlead.1.1 (heq.trans hlead.1.2.symm))
        simp [disband, hin, hj, hocc, hpid]
    · simp [disband, hin]
  | registerInit hlau hnew hi =>
    exact hstays ((Effect.registerInit hlau hnew hi).keeps_of_made rfl j)
  | commitChild hpar hlau hp hzomb hpid hi =>
    exact hstays ((Effect.commitChild hpar hlau hp hzomb hpid hi).keeps_of_made rfl j)
  | cloneCurrentThread hcur hlinux hpid hch =>
    exact hstays ((Effect.cloneCurrentThread hcur hlinux hpid hch).keeps_of_made rfl j)
  | publishCurrent => exact hstays fun _ => .refl _
  | markRunning | scheduleFromPid0 => exact hstays fun _ => kept_switchTo _ _ _ j
  | scheduleYield hi | schedulePreempt hi hhd hep | scheduleBlock hi | scheduleExit hi =>
    exact hstays fun _ => (kept_setSlot s {} j).trans (kept_switchTo _ _ _ j)
  | resumeCurrent hi | replaceCurrentImage hi hlead hcnt | setCurrentFsBase hi
  | markRunnable hi hph | markBlocked hi hph => exact hstays fun _ => kept_setSlot s {} j

theorem frees_iff (hnum : Numbered s) {j : TaskIndex} :
    frees c s j ↔ (s.slots j).occupied ∧ ((c.exec s).2.slots j).occupied = false := by
  cases hr : (c.exec s).1 with
  | error => simp [frees, hr, (unchanged_of_error hr).1]
  | ok a => simp [frees, hr, (effect_of_ok hr).removes_iff hnum]

/-- The family of a new task: it is the first process, or its parent is in the table, or
it is a thread and has the family of the running task. -/
theorem Effect.family (h : Effect s c a t) {i : TaskIndex}
    (hold : (s.slots i).occupied = false) (hnew : (t.slots i).occupied) :
    (newHandle c a).isSome ∧ ((t.slots i).threadGroup = initPid ∨ Names s (t.slots i).parent ∨
        ∃ k, (s.slots k).occupied ∧ (t.slots i).parent = (s.slots k).parent ∧
          (t.slots i).threadGroup = (s.slots k).threadGroup) := by
  have hborn : (newHandle c a).isSome := by
    cases h.fate i with
    | kept hkept => simp [hkept.occupied, hold] at hnew
    | freed hold' => simp [hold] at hold'
    | born _ _ hmade => simp [hmade]
  refine ⟨hborn, ?_⟩
  -- an occupied slot in another place was occupied before
  have hplace {j : TaskIndex} {slot : ProcessSlot}
      (hslot : ((s.setSlot j slot).slots i).occupied) : i = j := by
    by_contra hij
    simp [setSlot, hij, hold] at hslot
  cases h with
  | registerInit =>
    obtain rfl := hplace hnew
    simp [setSlot, installed]
  | @commitChild parent pid launch p j hpar hlau hp =>
    have hij : i = j := by
      by_contra hij
      simp [setSlot, hij, hold] at hnew
    subst hij
    right
    left
    have hnamed := position_some hp
    rw [Bool.and_eq_true, beq_iff_eq] at hnamed
    refine ⟨p, hnamed.1, ?_⟩
    simp [setSlot, installed, hnamed.2]
  | @cloneCurrentThread context stackPointer fsBase pid current child hcur =>
    have hne : i ≠ current := by
      rintro rfl
      simp [hcur.occupied] at hold
    have hch' : i = child := by
      by_contra hij
      simp [cloned, withThread, publishEpoch, setSlot, hij, hne, hold] at hnew
    subst hch'
    right
    right
    refine ⟨current, hcur.occupied, ?_, ?_⟩ <;>
      simp [cloned, withThread, publishEpoch, setSlot, threadSlot, hne]
  | _ => cases hborn

/-! ### Parents leave the table last -/

theorem Names.of_kept {pid : ℕ} (h : Names s pid)
    (hkept : ∀ j, (s.slots j).occupied → (s.slots j).pid = pid → Kept (s.slots j) (t.slots j)) :
    Names t pid := by
  obtain ⟨j, hj, hpid⟩ := h
  have hslot := hkept j hj hpid
  refine ⟨j, hslot.occupied.trans hj, ?_⟩
  rw [← hpid]
  exact congrArg (·.pid) hslot.handle

theorem Parented.new : Parented .new := nofun

theorem Parented.effect (hnum : Numbered s) (h : Parented s)
    (heff : Effect s c a (c.exec s).2) (hc : orderly c s) : Parented (c.exec s).2 := by
  intro i hi hgrp
  cases heff.fate i with
  | kept hkept =>
    rw [hkept.threadGroup] at hgrp
    have hold : (s.slots i).occupied := hkept.occupied ▸ hi
    rw [hkept.parent]
    refine (h i hold hgrp).of_kept fun j hj hpid => ?_
    cases heff.fate j with
    | kept hkept => exact hkept
    | freed _ hnew =>
      -- the parent cannot be the one that leaves
      refine absurd hpid.symm
        (hc i j ((frees_iff hnum).mpr ⟨hj, hnew⟩) hold (fun hfreed => ?_) hgrp)
      simp [((frees_iff hnum).mp hfreed).2] at hi
    | born hfree => simp [hfree] at hj
  | freed hold hnew => simp [hnew] at hi
  | born hold =>
    obtain ⟨hsome, hfamily⟩ := heff.family hold hi
    have hkept (j : TaskIndex) (hj : (s.slots j).occupied) :=
      heff.keeps_of_made hsome j hj
    rcases hfamily with hinit | hnamed | ⟨k, hk, hpar, hthr⟩
    · exact absurd hinit hgrp
    · exact hnamed.of_kept fun j hj _ => hkept j hj
    · rw [hpar]
      rw [hthr] at hgrp
      exact (h k hk hgrp).of_kept fun j hj _ => hkept j hj

theorem Parented.exec (hnum : Numbered s) (h : Parented s) (c : LifecycleCall α)
    (hc : orderly c s) : Parented (c.exec s).2 := by
  cases hr : (c.exec s).1 with
  | ok => exact h.effect hnum (effect_of_ok hr) hc
  | error =>
    obtain ⟨hslots, _⟩ := unchanged_of_error hr
    unfold Parented Names
    rw [hslots]
    exact h

/-- The children that a task leaves behind have no parent in the table. -/
theorem not_parented_of_not_orderly (hnum : Numbered s) (c : LifecycleCall α)
    (hc : ¬ orderly c s) : ¬ Parented (c.exec s).2 := by
  unfold orderly at hc
  push Not at hc
  obtain ⟨i, j, hfreed, hi, hstays, hgrp, hpar⟩ := hc
  rw [frees_iff hnum] at hfreed hstays
  intro hparented
  cases hr : (c.exec s).1 with
  | error =>
    obtain ⟨hslots, _⟩ := unchanged_of_error hr
    simp [hslots] at hfreed
  | ok =>
    have heff := effect_of_ok hr
    have hi' : ((c.exec s).2.slots i).occupied := by
      by_contra hfree
      exact hstays ⟨hi, Bool.not_eq_true _ ▸ hfree⟩
    have hkept : Kept (s.slots i) ((c.exec s).2.slots i) := by
      cases heff.fate i with
      | kept hkept => exact hkept
      | freed _ hnew => simp [hnew] at hi'
      | born hfree => simp [hfree] at hi
    obtain ⟨k, hk, hpid⟩ := hparented i hi' (hkept.threadGroup ▸ hgrp)
    rw [hkept.parent, hpar] at hpid
    cases heff.fate k with
    | kept hkept' =>
      have hpid' : (s.slots k).pid = (s.slots j).pid :=
        (congrArg (·.pid) hkept'.handle).symm.trans hpid
      obtain rfl := hnum.pid_inj k j (hkept'.occupied ▸ hk) hfreed.1 hpid'
      exact Bool.noConfusion (hfreed.2.symm.trans hk)
    | freed _ hnew => simp [hnew] at hk
    | born hfree =>
      have hsame := heff.keeps_of_made (heff.family hfree hk).1 j hfreed.1
      exact Bool.noConfusion (hfreed.2.symm.trans (hsame.occupied.trans hfreed.1))

/-- In every run in which no task leaves the table before its children, every task
outside the thread group of the first process has a parent in the table. From each
state of such a run, a call breaks this exactly when it takes a task out of the table
that is still a parent. The exit of a parent does not. -/
theorem parents_in_table (h : Runs orderly .new s) :
    Parented s ∧ (∀ {α : Type} (c : LifecycleCall α), Parented (c.exec s).2 ↔ orderly c s) ∧
      ∀ exitCode, orderly (.scheduleExit exitCode) s := by
  have hboth : Numbered s ∧ Parented s := by
    induction h with
    | refl => exact ⟨.new, .new⟩
    | tail _ hstep ih =>
      obtain ⟨_, c, hc, rfl⟩ := hstep
      exact ⟨ih.1.exec c, ih.2.exec ih.1 c hc⟩
  refine ⟨hboth.2, fun c => ⟨fun hparented => ?_, hboth.2.exec hboth.1 c⟩, fun _ => ?_⟩
  · by_contra hc
    exact not_parented_of_not_orderly hboth.1 c hc hparented
  · exact orderly_of_not_removes fun _ => id

theorem parents_in_table_child :
    Parented ((LifecycleCall.commitChild initPid sampleLaunch).exec started).2 := by
  have hstart : Runs orderly .new started :=
    runs_started (orderly_of_not_removes fun _ => id) (orderly_of_not_removes fun _ => id)
  exact ((parents_in_table hstart).2.1 _).mpr (orderly_of_not_removes fun _ => id)

/-- The first process has a child, the child has a child, and both of them are committed. -/
def threeGenerations : Lifecycle :=
  ((LifecycleCall.commitChild 2 sampleLaunch).exec
    ((LifecycleCall.commitChild initPid sampleLaunch).exec started).2).2

/-- The middle process runs, exits and is reaped. -/
def middleReaped : Lifecycle :=
  let context := SavedUserContext.initial 0x2000 0x8000
  let running := ((LifecycleCall.scheduleYield context).exec threeGenerations).2
  let exited := ((LifecycleCall.scheduleExit 0).exec running).2
  ((LifecycleCall.reapChild initPid { pid := 2, generation := 2 }).exec exited).2

/-- The first process has a second thread. -/
def initCloned : Lifecycle :=
  ((LifecycleCall.cloneCurrentThread (.initial 0x2000 0x8000) 0x8000 0).exec started).2

/-- A grandchild is left without a parent in the table, and a thread of the first process
never has one. -/
theorem grandchild_without_parent :
    (Runs anyCall .new middleReaped ∧ (middleReaped.slots 2).occupied ∧
      (middleReaped.slots 2).pid = 3 ∧ ¬ Names middleReaped (middleReaped.slots 2).parent) ∧
    (Runs anyCall .new initCloned ∧ (initCloned.slots 1).occupied ∧
      (initCloned.slots 1).pid = 2 ∧ ¬ Names initCloned (initCloned.slots 1).parent) := by
  have hstart : Runs anyCall .new started := runs_started trivial trivial
  refine ⟨⟨?_, ?_⟩, hstart.exec _ trivial, ?_⟩
  · have hthree : Runs anyCall .new threeGenerations :=
      (hstart.exec _ trivial).exec _ trivial
    exact ((hthree.exec _ trivial).exec _ trivial).exec _ trivial
  · decide +kernel
  · decide +kernel

end ArachKernel.Process
