import ArachKernel.Process.Families

/-!
Thread groups. The members of a group share one address space, and their leader is in
the table as long as any of them is. A leader that has ended is alone in its group, so
that nothing of a dying group can run. This holds in every run in which a leader does
not leave its threads behind with `schedule_exit`.
-/

namespace ArachKernel.Process

open Table Lifecycle ProcessSlot

variable {s t : Lifecycle} {α : Type}

/-- A leader does not end alone while it has threads. -/
def endsWhole : LifecycleCall α → Lifecycle → Prop
  | .scheduleExit _, s => ∀ i, RunningAt s i → (s.slots i).pid = (s.slots i).threadGroup →
      ∀ j, (s.slots j).inGroup (s.slots i).threadGroup → j = i
  | _, _ => True

structure Grouped (s : Lifecycle) : Prop where
  leader : ∀ i, (s.slots i).occupied → ∃ j, (s.slots j).leads (s.slots i).threadGroup
  root : ∀ i j, (s.slots i).occupied → (s.slots j).occupied →
    (s.slots i).threadGroup = (s.slots j).threadGroup →
    (s.slots i).launch.addressSpaceRoot = (s.slots j).launch.addressSpaceRoot
  zombie : ∀ j, (s.slots j).leads (s.slots j).pid → (s.slots j).phase = .zombie →
    ∀ i, (s.slots i).inGroup (s.slots j).pid → i = j

variable {group : ℕ} {i : TaskIndex}

theorem leads_iff {slot : ProcessSlot} :
    slot.leads group ↔ slot.occupied ∧ slot.pid = group ∧ slot.threadGroup = group := by
  simp [leads, and_assoc]

theorem inGroup_iff {slot : ProcessSlot} :
    slot.inGroup group ↔ slot.occupied ∧ slot.threadGroup = group := by
  simp [inGroup]

/-- The slot holds the same task, with the same address space. -/
structure SameImage (old new : ProcessSlot) : Prop extends Kept old new where
  root : new.launch.addressSpaceRoot = old.launch.addressSpaceRoot := by rfl

theorem SameImage.refl (slot : ProcessSlot) : SameImage slot slot := {}

theorem SameImage.pid {old new : ProcessSlot} (h : SameImage old new) : new.pid = old.pid :=
  congrArg (·.pid) h.handle

namespace Grouped

theorem new : Grouped .new where
  leader _ h := by cases h
  root _ _ h := by cases h
  zombie _ h := by cases h

/-- Some tasks leave, the others stay with their leaders, and a leader that has ended is
alone. -/
theorem shrink (h : Grouped s)
    (hstay : ∀ j, (t.slots j).occupied → SameImage (s.slots j) (t.slots j))
    (hlead : ∀ i j, (t.slots i).occupied →
      (s.slots j).leads (s.slots i).threadGroup → (t.slots j).occupied)
    (hzomb : ∀ j, (t.slots j).leads (t.slots j).pid → (t.slots j).phase = .zombie →
      (s.slots j).phase = .zombie ∨ ∀ i, (t.slots i).inGroup (t.slots j).pid → i = j) :
    Grouped t where
  leader i hi := by
    have hsame := hstay i hi
    obtain ⟨j, hj⟩ := h.leader i (hsame.occupied ▸ hi)
    have hj' := hlead i j hi hj
    have hsame' := hstay j hj'
    refine ⟨j, ?_⟩
    rw [leads_iff] at hj ⊢
    rw [hsame'.pid, hsame'.threadGroup, hsame.threadGroup]
    exact ⟨hj', hj.2⟩
  root i j hi hj hgroup := by
    have hsame := hstay i hi
    have hsame' := hstay j hj
    rw [hsame.root, hsame'.root]
    rw [hsame.threadGroup, hsame'.threadGroup] at hgroup
    exact h.root i j (hsame.occupied ▸ hi) (hsame'.occupied ▸ hj) hgroup
  zombie j hj hph i hi := by
    rcases hzomb j hj hph with hold | halone
    · have hsame := hstay j (leads_iff.mp hj).1
      have hsame' := hstay i (inGroup_iff.mp hi).1
      refine h.zombie j ?_ hold i ?_
      · rw [leads_iff] at hj ⊢
        rw [hsame.pid, hsame.threadGroup, hsame.occupied] at hj
        exact hj
      · rw [inGroup_iff] at hi ⊢
        rwa [hsame.pid, hsame'.threadGroup, hsame'.occupied] at hi
    · exact halone i hi

/-- Every task stays, and none of them ends. -/
theorem steady (h : Grouped s) (hsame : ∀ j, SameImage (s.slots j) (t.slots j))
    (hzomb : ∀ j, (t.slots j).phase = .zombie → (s.slots j).phase = .zombie) : Grouped t := by
  refine h.shrink (fun j _ => hsame j) (fun i j _ hj => ?_) fun j _ hph => .inl (hzomb j hph)
  rw [(hsame j).occupied]
  exact (leads_iff.mp hj).1

variable {i : TaskIndex}

/-- A task that is not a leader with members leaves. -/
theorem retire (h : Grouped s) (halone : (s.slots i).pid = (s.slots i).threadGroup →
      ∀ j, (s.slots j).inGroup (s.slots i).threadGroup → j = i) :
    Grouped (s.setSlot i (s.slots i).retired) := by
  have hoth (j : TaskIndex) (hj : ((s.setSlot i (s.slots i).retired).slots j).occupied) :
      j ≠ i ∧ (s.setSlot i (s.slots i).retired).slots j = s.slots j := by
    have hji : j ≠ i := by
      rintro rfl
      simp [setSlot] at hj
    exact ⟨hji, by simp [setSlot, hji]⟩
  refine h.shrink (fun j hj => ?_) (fun j k hj hk => ?_) fun j hj hph => ?_
  · rw [(hoth j hj).2]
    exact .refl _
  · obtain ⟨hji, hslot⟩ := hoth j hj
    rw [hslot] at hj
    have hki : k ≠ i := by
      rintro rfl
      obtain ⟨_, hpid, hgrp⟩ := leads_iff.mp hk
      exact hji (halone (hpid.trans hgrp.symm) j (inGroup_iff.mpr ⟨hj, hgrp.symm⟩))
    simpa [setSlot, hki] using (leads_iff.mp hk).1
  · left
    rw [(hoth j (leads_iff.mp hj).1).2] at hph
    exact hph

theorem of_slots (h : Grouped s) (hslots : t.slots = s.slots) : Grouped t :=
  h.steady (fun _ => hslots ▸ .refl _) fun _ hph => hslots ▸ hph

variable {slot : ProcessSlot}

section

variable (h : Grouped s)
include h

theorem setSlot (hsame : SameImage (s.slots i) slot)
    (hzomb : slot.phase = .zombie → (s.slots i).phase = .zombie) : Grouped (s.setSlot i slot) := by
  refine h.steady (setSlot_cases hsame fun _ _ => .refl _) ?_
  exact setSlot_cases hzomb fun _ _ => id

theorem publishEpoch (epoch : ℕ) : Grouped (s.publishEpoch epoch) := h.of_slots rfl

theorem switchTo (target : Option TaskIndex) (epoch : ℕ) : Grouped (s.switchTo target epoch) := by
  cases target with
  | none => exact h.of_slots rfl
  | some j =>
    have hph : Grouped (s.setPhase j .running) := h.setSlot {} nofun
    exact hph.of_slots rfl

theorem preempted (i : TaskIndex) (saved : SavedUserContext) : Grouped (s.preempted i saved) :=
  h.setSlot {} nofun

theorem asleep (i : TaskIndex) (saved : SavedUserContext) (epoch : ℕ) :
    Grouped (s.setSlot i ((s.slots i).asleep saved epoch)) :=
  h.setSlot {} nofun

/-- A task that has not ended joins the table. -/
theorem install
    (hi : (s.slots i).occupied = false) (hslot : slot.occupied) (hph : slot.phase ≠ .zombie)
    (hlead : slot.pid = slot.threadGroup ∨ ∃ k, (s.slots k).leads slot.threadGroup)
    (hroot : ∀ j, (s.slots j).occupied → (s.slots j).threadGroup = slot.threadGroup →
      slot.launch.addressSpaceRoot = (s.slots j).launch.addressSpaceRoot)
    (hzomb : ∀ j, (s.slots j).leads (s.slots j).pid → (s.slots j).phase = .zombie →
      (s.slots j).pid ≠ slot.threadGroup) : Grouped (s.setSlot i slot) := by
  have hne {j : TaskIndex} (hj : (s.slots j).occupied) : j ≠ i := by
    rintro rfl
    simp [hi] at hj
  have hkept {k : TaskIndex} {group : ℕ} (hk : (s.slots k).leads group) :
      ((s.setSlot i slot).slots k).leads group := by
    rwa [setSlot_other _ (hne (leads_iff.mp hk).1)]
  refine ⟨?_, fun j k => ?_, ?_⟩
  · refine setSlot_cases (fun _ => ?_) fun j _ hj => ?_
    · rcases hlead with hown | ⟨k, hk⟩
      · exact ⟨i, by rw [setSlot_self, leads_iff]; exact ⟨hslot, hown, rfl⟩⟩
      · exact ⟨k, hkept hk⟩
    · obtain ⟨k, hk⟩ := h.leader j hj
      exact ⟨k, hkept hk⟩
  · refine setSlot_cases ?_ (fun j _ => ?_) j <;> refine setSlot_cases ?_ (fun k _ => ?_) k
    · exact fun _ _ _ => rfl
    · exact fun _ hk hgrp => hroot k hk hgrp.symm
    · exact fun hj _ hgrp => (hroot j hj hgrp).symm
    · exact h.root j k
  · refine setSlot_cases (fun _ hended => absurd hended hph) fun j _ hj hended k => ?_
    refine setSlot_cases (fun hi => ?_) (fun k _ => h.zombie j hj hended k) k
    exact absurd (inGroup_iff.mp hi).2.symm (hzomb j hj hended)

/-- A new process leads a group of its own. -/
theorem installLeader (hi : (s.slots i).occupied = false) (hslot : slot.occupied)
    (hph : slot.phase ≠ .zombie) (hgrp : slot.pid = slot.threadGroup)
    (hfresh : ∀ j, (s.slots j).occupied → (s.slots j).pid ≠ slot.pid) :
    Grouped (s.setSlot i slot) := by
  refine h.install hi hslot hph (.inl hgrp) (fun j hj heq => ?_) fun j hj _ => ?_
  · -- the leader of such a task would have the new number
    obtain ⟨k, hk⟩ := h.leader j hj
    obtain ⟨hocc, hpid, _⟩ := leads_iff.mp hk
    exact absurd (hpid.trans (heq.trans hgrp.symm)) (hfresh k hocc)
  · rw [← hgrp]
    exact hfresh j (leads_iff.mp hj).1

/-- A new thread of a task that has not ended. -/
theorem installThread {k : TaskIndex} (hi : (s.slots i).occupied = false)
    (hslot : slot.occupied) (hph : slot.phase ≠ .zombie) (hk : (s.slots k).occupied)
    (hliving : (s.slots k).phase ≠ .zombie) (hgrp : slot.threadGroup = (s.slots k).threadGroup)
    (hroot : slot.launch.addressSpaceRoot = (s.slots k).launch.addressSpaceRoot) :
    Grouped (s.setSlot i slot) := by
  refine h.install hi hslot hph (.inr ?_) (fun j hj heq => ?_) fun j hj hended heq => ?_
  · rw [hgrp]
    exact h.leader k hk
  · rw [hroot]
    exact h.root k j hk hj (hgrp.symm.trans heq.symm)
  · have hkj : k = j := h.zombie j hj hended k (inGroup_iff.mpr ⟨hk, by rw [heq, hgrp]⟩)
    exact hliving (hkj ▸ hended)

/-- A task ends; if it is a leader it is alone. -/
theorem exited (exitCode : ℤ) (epoch : ℕ) (halone : (s.slots i).pid = (s.slots i).threadGroup →
      ∀ j, (s.slots j).inGroup (s.slots i).threadGroup → j = i) :
    Grouped (s.setSlot i ((s.slots i).exited exitCode epoch)) := by
  have hsame (j : TaskIndex) :
      SameImage (s.slots j) ((s.setSlot i ((s.slots i).exited exitCode epoch)).slots j) :=
    setSlot_cases {} (fun _ _ => .refl _) j
  refine h.shrink (fun j _ => hsame j) (fun j k _ hk => ?_) fun j hj hph => ?_
  · rw [(hsame k).occupied]
    exact (leads_iff.mp hk).1
  · by_cases hji : j = i
    · subst hji
      right
      intro k hk
      obtain ⟨_, _, hgrp⟩ := leads_iff.mp hj
      rw [(hsame j).threadGroup, (hsame j).pid] at hgrp
      rw [inGroup_iff, (hsame k).occupied, (hsame k).threadGroup, (hsame j).pid, ← hgrp] at hk
      exact halone hgrp.symm k (inGroup_iff.mpr hk)
    · left
      simpa [Lifecycle.setSlot, hji] using hph

/-- A group exit leaves the leader, alone. -/
theorem disband (hnum : Numbered s) {leader : TaskIndex} (hleads : (s.slots leader).leads group)
    (exitCode : ℤ) (epoch : ℕ) : Grouped (disband leader group exitCode epoch s) := by
  obtain ⟨hocc, hpid, hgrp⟩ := leads_iff.mp hleads
  have hin : (s.slots leader).inGroup group := inGroup_iff.mpr ⟨hocc, hgrp⟩
  have hstay (j : TaskIndex) : ((Process.disband leader group exitCode epoch s).slots j).occupied →
      SameImage (s.slots j) ((Process.disband leader group exitCode epoch s).slots j) ∧
        ((s.slots j).inGroup group → j = leader) :=
    disband_cases (fun _ _ => ⟨{}, fun _ => rfl⟩) (fun _ _ _ => nofun)
      (fun _ hout _ => ⟨.refl _, fun hmem => nomatch hout.symm.trans hmem⟩) j
  refine h.shrink (fun j hj => (hstay j hj).1) (fun i j hi hj => ?_) fun j hj hph => ?_
  · -- the leader of a task that stays is not a member that leaves
    obtain ⟨hj', hjpid, hjgroup⟩ := leads_iff.mp hj
    by_cases hmem : (s.slots j).inGroup group
    · have hjl : j = leader := by
        refine hnum.pid_inj j leader hj' hocc ?_
        rw [hjpid, hpid, ← hjgroup, (inGroup_iff.mp hmem).2]
      rw [hjl, disband_leader hin]
      exact hocc
    · rw [disband_of_not_inGroup (Bool.not_eq_true _ ▸ hmem)]
      exact hj'
  · by_cases hjl : j = leader
    · subst hjl
      right
      intro i hi
      obtain ⟨hi', higroup⟩ := inGroup_iff.mp hi
      obtain ⟨hsame, honly⟩ := hstay i hi'
      rw [(hstay j (leads_iff.mp hj).1).1.pid, hpid, hsame.threadGroup] at higroup
      exact honly (inGroup_iff.mpr ⟨hsame.occupied ▸ hi', higroup⟩)
    · left
      obtain ⟨_, honly⟩ := hstay j (leads_iff.mp hj).1
      have hmem : (s.slots j).inGroup group = false :=
        Bool.not_eq_true _ ▸ fun hyes => hjl (honly hyes)
      rwa [disband_of_not_inGroup hmem] at hph

/-- A task that is alone in its group gets another address space. -/
theorem reimage (hi : (s.slots i).occupied) (hkept : Kept (s.slots i) slot)
    (hph : slot.phase = (s.slots i).phase)
    (halone : ∀ j, (s.slots j).inGroup (s.slots i).threadGroup → j = i) :
    Grouped (s.setSlot i slot) := by
  have hall := kept_setSlot s hkept
  have hpid (j : TaskIndex) : ((s.setSlot i slot).slots j).pid = (s.slots j).pid :=
    congrArg (·.pid) (hall j).handle
  have hleads (j : TaskIndex) (group : ℕ) :
      ((s.setSlot i slot).slots j).leads group = (s.slots j).leads group := by
    rw [leads, leads, (hall j).occupied, (hall j).threadGroup, hpid j]
  have hphases (j : TaskIndex) : ((s.setSlot i slot).slots j).phase = (s.slots j).phase :=
    setSlot_cases hph (fun _ _ => rfl) j
  refine ⟨fun j hj => ?_, fun j k hj hk hgrp => ?_, fun j hj hended k hk => ?_⟩
  · rw [(hall j).occupied] at hj
    obtain ⟨k, hk⟩ := h.leader j hj
    exact ⟨k, by rwa [hleads, (hall j).threadGroup]⟩
  · rw [(hall j).occupied] at hj
    rw [(hall k).occupied] at hk
    rw [(hall j).threadGroup, (hall k).threadGroup] at hgrp
    by_cases hji : j = i
    · have hki : k = i := halone k (inGroup_iff.mpr ⟨hk, by rw [← hgrp, hji]⟩)
      rw [hji, hki]
    · have hki : k ≠ i := by
        rintro rfl
        exact hji (halone j (inGroup_iff.mpr ⟨hj, hgrp⟩))
      simp only [Lifecycle.setSlot, Function.update_of_ne hji, Function.update_of_ne hki]
      exact h.root j k hj hk hgrp
  · rw [hpid, hleads] at hj
    rw [hphases] at hended
    rw [inGroup_iff, (hall k).occupied, (hall k).threadGroup, hpid] at hk
    exact h.zombie j hj hended k (inGroup_iff.mpr hk)

end

end Grouped

/-- A group of one has one member. -/
theorem alone_of_groupCount (hcnt : s.groupCount group = 1) (hi : (s.slots i).inGroup group)
    (j : TaskIndex) (hj : (s.slots j).inGroup group) : j = i := by
  obtain ⟨k, hk⟩ := List.length_eq_one_iff.mp hcnt
  have hmem (j : TaskIndex) (hj : (s.slots j).inGroup group) : j = k := by
    have hmember : j ∈ (List.finRange maximumProcesses).filter fun i => (s.slots i).inGroup group :=
      List.mem_filter.mpr ⟨List.mem_finRange j, hj⟩
    rw [hk] at hmember
    exact List.mem_singleton.mp hmember
  rw [hmem j hj, hmem i hi]

theorem Grouped.effect {c : LifecycleCall α} {a : α} (h : Grouped s) (hnum : Numbered s)
    (heff : Effect s c a t) (hc : endsWhole c s) : Grouped t := by
  cases heff with
  | publishCurrent => exact h.of_slots rfl
  | registerInit hlau hnew hi =>
    exact h.installLeader (vacantIndex_some hi) rfl (by simp [installed]) rfl
      (slotByPid_none.mp hnew)
  | commitChild hpar hlau hp hzomb hpid hi =>
    have htaken : Grouped s.pidTaken := h.of_slots (pidTaken_slots s)
    refine htaken.installLeader ?_ rfl (by simp [installed]) rfl ?_
    · rw [pidTaken_slots]
      exact vacantIndex_some hi
    · rw [pidTaken_slots]
      exact (allocatePid_fresh hpid).2
  | @cloneCurrentThread context stackPointer fsBase pid current child hcur hlinux hpid hch =>
    have htaken : Grouped s.pidTaken := h.of_slots (pidTaken_slots s)
    have hthr : Grouped (withThread s current child pid context stackPointer fsBase) := by
      refine htaken.installThread (k := current) ?_ rfl (by simp [threadSlot]) ?_ ?_ ?_ ?_ <;>
        rw [pidTaken_slots]
      · exact vacantIndex_some hch
      · exact hcur.occupied
      · simp [hcur.phase]
      · rfl
      · rfl
    unfold cloned
    apply publishEpoch
    exact hthr.setSlot {} id
  | discardRunnableThread hi hj hph hgrp hlead => exact h.retire fun heq => absurd heq hlead
  | markRunning | scheduleFromPid0 => exact h.switchTo _ _
  | resumeCurrent =>
    apply publishEpoch
    exact h.setSlot {} id
  | replaceCurrentImage hi hlead hcnt =>
    apply publishEpoch
    refine h.reimage hi.occupied {} rfl ?_
    exact alone_of_groupCount hcnt (inGroup_iff.mpr ⟨hi.occupied, rfl⟩)
  | setCurrentFsBase => exact h.setSlot {} id
  | scheduleYield hi | schedulePreempt hi hhd hep =>
    exact (h.preempted _ _).switchTo _ _
  | scheduleBlock => exact (h.asleep _ _ _).switchTo _ _
  | scheduleExit hi => exact (h.exited _ _ (hc _ hi)).switchTo _ _
  | scheduleExitGroup hi hlead => exact (h.disband hnum hlead _ _).switchTo _ _
  | scheduleThreadExit hi hlead => exact (h.retire fun heq => absurd heq hlead).switchTo _ _
  | markRunnable | markBlocked => exact h.setSlot {} fun hzomb => by cases hzomb
  | reapChild hi hpar hph =>
    refine h.retire fun hleads j hj => ?_
    have hocc := (handle_of_holds hi).1
    exact h.zombie _ (leads_iff.mpr ⟨hocc, rfl, hleads.symm⟩) hph j (hleads ▸ hj)

theorem Grouped.exec (h : Grouped s) (hnum : Numbered s) (c : LifecycleCall α)
    (hc : endsWhole c s) : Grouped (c.exec s).2 :=
  exec_induction c h (h.of_slots (pidTaken_slots s)) fun _ _ heff => h.effect hnum heff hc

/-! ### Ended leaders -/

variable {j : TaskIndex}

/-- Who goes with the group is not the one that takes over. -/
theorem ne_outside {target : Option TaskIndex} (htgt : target = rotating i fun j =>
      (s.slots j).inPhase .runnable && (s.slots j).threadGroup != group)
    (hj : (s.slots j).inGroup group) (k : TaskIndex) (hk : target = some k) : j ≠ k := by
  rintro rfl
  exact Bool.noConfusion ((outside_some (htgt ▸ hk)).2.2.symm.trans hj)

/-- An ended leader keeps its slot as it is until it is reaped. -/
theorem Effect.ended_stays {c : LifecycleCall α} {a : α} (heff : Effect s c a t)
    (hgrouped : Grouped s) (hleads : (s.slots j).leads (s.slots j).pid)
    (hph : (s.slots j).phase = .zombie) (hj : (t.slots j).occupied) : t.slots j = s.slots j := by
  have hocc := (leads_iff.mp hleads).1
  -- the call works on slots of tasks that have not ended
  have hne {i : TaskIndex} {phase : ProcessPhase} (hi : (s.slots i).phase = phase)
      (hph' : phase ≠ .zombie) : j ≠ i := by
    rintro rfl
    exact hph' (hi.symm.trans hph)
  have hfree {i : TaskIndex} (hi : s.vacantIndex = some i) : j ≠ i := by
    rintro rfl
    simp [vacantIndex_some hi] at hocc
  have hrnbl {i : TaskIndex} (hi : (s.slots i).inPhase .runnable) : j ≠ i := by
    exact hne (inPhase_iff.mp hi).2 (by decide)
  have hchosen {i : TaskIndex} (k : TaskIndex) (hk : s.nextRunnableIndex i = some k) : j ≠ k :=
    hrnbl (rotating_some hk)
  cases heff with
  | publishCurrent => rfl
  | registerInit hlau hnew hi => exact setSlot_other _ (hfree hi)
  | commitChild hpar hlau hp hzomb hpid hi =>
    rw [setSlot_other _ (hfree hi), pidTaken_slots]
  | @cloneCurrentThread context stackPointer fsBase pid current child hcur hlinux hpid hch =>
    have hcur' := hne hcur.phase (by decide)
    simp [cloned, withThread, publishEpoch, setSlot, hcur', hfree hch]
  | discardRunnableThread hi hj hph' =>
    exact setSlot_other _ (hne hph' (by decide))
  | markRunning hidle hnone hi hph' =>
    refine switchTo_other _ fun k hk => ?_
    cases hk
    exact hne hph' (by decide)
  | resumeCurrent hi | replaceCurrentImage hi hlead hcnt | setCurrentFsBase hi =>
    exact setSlot_other _ (hne hi.phase (by decide))
  | scheduleYield hi | schedulePreempt hi hhd hep =>
    have hself := hne hi.phase (by decide)
    rw [switchTo_other, preempted, setSlot_other _ hself]
    intro k hk
    cases hk
    unfold nextTurn
    cases hnext : s.nextRunnableIndex _ with
    | none => exact hself
    | some k => exact hchosen k hnext
  | scheduleBlock hi | scheduleExit hi =>
    rw [switchTo_other _ hchosen, setSlot_other _ (hne hi.phase (by decide))]
  | @scheduleExitGroup exitCode i leader target hi hlead htgt =>
    have hout : (s.slots j).inGroup (s.slots i).threadGroup = false := by
      by_contra hin
      obtain ⟨_, hgrp⟩ := inGroup_iff.mp (Bool.not_eq_false _ ▸ hin)
      have hij := hgrouped.zombie j hleads hph i
        (inGroup_iff.mpr ⟨hi.occupied, by rw [← hgrp, (leads_iff.mp hleads).2.2]⟩)
      exact hne hi.phase (by decide) hij.symm
    rw [switchTo_other, disband_of_not_inGroup hout]
    exact fun k hk => hrnbl (outside_some (htgt ▸ hk)).1
  | scheduleThreadExit hi =>
    rw [switchTo_other _ hchosen, setSlot_other _ (hne hi.phase (by decide))]
  | scheduleFromPid0 =>
    exact switchTo_other _ fun k hk => hrnbl (position_some hk)
  | markRunnable hi hph' =>
    rcases hph' with hph' | hph' <;> exact setSlot_other _ (hne hph' (by decide))
  | markBlocked hi hph' => exact setSlot_other _ (hne hph' (by decide))
  | reapChild =>
    refine setSlot_other _ ?_
    rintro rfl
    simp [setSlot] at hj

theorem ended_stays_exec (hnum : Numbered s) (hgrp : Grouped s) (c : LifecycleCall α)
    (hleads : (s.slots j).leads (s.slots j).pid) (hph : (s.slots j).phase = .zombie)
    (hstays : ¬ frees c s j) : (c.exec s).2.slots j = s.slots j := by
  have hj : ((c.exec s).2.slots j).occupied := by
    by_contra hgone
    exact hstays ((frees_iff hnum).mpr ⟨(leads_iff.mp hleads).1, Bool.not_eq_true _ ▸ hgone⟩)
  cases hr : (c.exec s).1 with
  | ok => exact (effect_of_ok hr).ended_stays hgrp hleads hph hj
  | error => exact congrFun (unchanged_of_error hr).1 j

end ArachKernel.Process
