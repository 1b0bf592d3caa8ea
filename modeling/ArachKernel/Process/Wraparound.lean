import ArachKernel.Process.Handles

/-!
A handle given out twice. The running task clones a thread and discards it, again and
again. Each round takes the next process number and two generations of the first slot
that has any left. When the counter of process numbers comes round, two slots are used
up, and the third starts over with the handles of the first.
-/

namespace ArachKernel.Process

open Table Lifecycle Locked ProcessSlot

variable {s : Lifecycle}

/-! ### One round -/

theorem exec_takePid {β : Type} {f : ℕ → Op β} {pid : ℕ} (h : s.allocatePid.1 = some pid) :
    exec (takePid >>= f) s = exec (f pid) s.pidTaken := by
  have heq : exec (takePid >>= f) s =
      exec (expect s.allocatePid.1 .capacity >>= f) s.pidTaken := rfl
  rw [heq, h, exec_expect_some]

/-- The registers of the running task at each clone. -/
def roundContext : SavedUserContext := .initial 0x2000 0x8000

def roundClone : LifecycleCall (ProcessHandle × ScheduledProcess) :=
  .cloneCurrentThread roundContext 0x8000 0

/-- After some rounds: the first process runs alone, the slots up to `used` have no
generation left, and `rounds` rounds were made with the slot after them. -/
structure Churned (used rounds nextPid epoch : ℕ) (s : Lifecycle) : Prop where
  numbered : Numbered s
  running : RunningAt s 0
  launch : (s.slots 0).launch = sampleLaunch
  fsBase : (s.slots 0).fsBase = 0
  handle : (s.slots 0).handle = { pid := initPid, generation := 1 }
  group : (s.slots 0).threadGroup = initPid
  free : ∀ i : TaskIndex, i ≠ 0 → (s.slots i).occupied = false
  spent : ∀ i : TaskIndex, i ≠ 0 → i.val ≤ used → (s.slots i).generation = u32Max
  turning : ∀ i : TaskIndex, i.val = used + 1 → (s.slots i).generation = 1 + 2 * rounds
  fresh : ∀ i : TaskIndex, used + 1 < i.val → (s.slots i).generation = 1
  counter : s.nextPid = nextPid
  epoch : s.schedulerEpoch = epoch

/-- The rounds that use up a slot. -/
def roundsPerSlot : ℕ := 2 ^ 31 - 1

theorem churned_started : Churned 0 0 2 1 started where
  numbered := Numbered.new.exec (.registerInit sampleLaunch) |>.exec _
  running := ⟨by decide +kernel, by decide +kernel, by decide +kernel⟩
  launch := by decide +kernel
  fsBase := by decide +kernel
  handle := by decide +kernel
  group := by decide +kernel
  free := by decide +kernel
  spent := by decide +kernel
  turning := by decide +kernel
  fresh := by decide +kernel
  counter := by decide +kernel
  epoch := by decide +kernel

namespace Churned

variable {used rounds nextPid epoch : ℕ}

section

variable (h : Churned used rounds nextPid epoch s) {i : TaskIndex}
include h

theorem runningIndex : runningIndex s = .ok 0 := by
  have hcur : s.currentExecution = { pid := initPid, generation := 1 } :=
    h.running.current.trans h.handle
  have hslot : s.slotByHandle { pid := initPid, generation := 1 } = some 0 := by
    apply slotByHandle_eq h.numbered
    rw [← h.handle]
    simp [ProcessSlot.holds, ProcessSlot.handle, h.running.occupied]
  have huser : currentUserHandle s = .ok { pid := initPid, generation := 1 } := by
    rw [currentUserHandle, currentHandle, hcur]
    decide
  simp [Process.runningIndex, huser, hslot, h.running.phase]

/-- The slot whose turn it is. -/
theorem vacantIndex (hrounds : rounds < roundsPerSlot)
    (hi : i.val = used + 1) : s.vacantIndex = some i := by
  have hne : i ≠ 0 := by
    rintro rfl
    simp at hi
  apply position_eq_some
  · simp only [vacant, h.free i hne, h.turning i hi, u32Max]
    simp only [roundsPerSlot] at hrounds
    simp only [Bool.not_false, Bool.true_and, decide_eq_true_eq]
    omega
  · intro j hj
    by_cases hzero : j = 0
    · simp [hzero, vacant, h.running.occupied]
    · have hle : j.val ≤ used := by
        omega
      simp [vacant, h.spent j hzero hle]

theorem slotByPid {pid : ℕ} (hpid : 2 ≤ pid) : s.slotByPid pid = none := by
  refine slotByPid_none.mpr fun i hi => ?_
  by_cases hzero : i = 0
  · have hinit : (s.slots 0).pid = initPid := congrArg (·.pid) h.handle
    rw [hzero, hinit, initPid]
    omega
  · simp [h.free i hzero] at hi

theorem allocatePid (hpid : 2 ≤ nextPid) :
    s.allocatePid = (some nextPid, { s with nextPid := max ((nextPid + 1) % 2 ^ 32) 2 }) := by
  have hmax : max s.nextPid 2 = nextPid := by
    rw [h.counter]
    exact max_eq_left hpid
  have hfree :
      ({ s with nextPid := max ((nextPid + 1) % 2 ^ 32) 2 } : Lifecycle).slotByPid nextPid =
      none := h.slotByPid hpid
  rw [Lifecycle.allocatePid, allocatePidLoop, hmax]
  exact if_neg (by rw [hfree]; decide)

theorem pidTaken (hpid : 2 ≤ nextPid) :
    s.pidTaken = { s with nextPid := max ((nextPid + 1) % 2 ^ 32) 2 } := by
  rw [Lifecycle.pidTaken, h.allocatePid hpid]

/-- The clone of a round. -/
theorem clone (hpid : 2 ≤ nextPid) (hrounds : rounds < roundsPerSlot) (hep : epoch < u64Max)
    (hi : i.val = used + 1) :
    roundClone.exec s = (.ok ({ pid := nextPid, generation := 2 + 2 * rounds },
        s.scheduled 0 (roundContext.setSyscallResult nextPid) (epoch + 1)),
        cloned s 0 i nextPid roundContext 0x8000 0) := by
  have htaken : s.allocatePid.1 = some nextPid := by rw [h.allocatePid hpid]
  have hnext : nextSchedulerEpoch s.schedulerEpoch = .ok (epoch + 1) := by
    have hadd : checkedAdd u64Max epoch 1 = some (epoch + 1) :=
      checkedAdd_eq_some.mpr ⟨hep, rfl⟩
    rw [nextSchedulerEpoch, h.epoch, hadd]
  have hcontext : (s.scheduled 0 (roundContext.setSyscallResult nextPid)
      (epoch + 1)).context.validate.isOk := by
    have huser : (roundContext.setSyscallResult nextPid).validate = .ok () :=
      (by decide : roundContext.validate = .ok ())
    simp only [scheduled, h.launch, h.fsBase, DispatchContext.validate, huser]
    decide
  have hgen : (s.slots i).generation + 1 = 2 + 2 * rounds := by
    rw [h.turning i hi]
    omega
  have hlinux : (s.slots 0).launch.abi.isLinux := by
    rw [h.launch]
    rfl
  have hargs : (validUserAddress 0x8000 && validUserTlsBase 0) := by decide
  have hval : roundContext.validate.isOk := by decide
  have hch : ({ roundContext.setSyscallResult 0 with stackPointer := 0x8000 } :
      SavedUserContext).validate.isOk := by decide
  simp only [roundClone, LifecycleCall.exec, LifecycleCall.op, cloneCurrentThread, checkContext,
    hargs, hval, h.runningIndex, hlinux, exec_takePid htaken, h.vacantIndex hrounds hi, hnext,
    hch, hcontext, exec_ensure_true, exec_get, exec_check_ok, exec_expect_some,
    exec_modify_bind, exec_pure]
  simp [cloned, withThread, threadSlot, h.epoch, hgen]

end

end Churned

/-- Between the clone and the discard of a round: the thread is in slot `i`. -/
structure Forked (used rounds pid nextPid epoch : ℕ) (i : TaskIndex) (s : Lifecycle) :
    Prop where
  numbered : Numbered s
  running : RunningAt s 0
  launch : (s.slots 0).launch = sampleLaunch
  fsBase : (s.slots 0).fsBase = 0
  handle : (s.slots 0).handle = { pid := initPid, generation := 1 }
  group : (s.slots 0).threadGroup = initPid
  thread : (s.slots i).holds { pid, generation := 2 + 2 * rounds }
  threadPhase : (s.slots i).phase = .runnable
  threadGroup : (s.slots i).threadGroup = initPid
  free : ∀ j : TaskIndex, j ≠ 0 → j ≠ i → (s.slots j).occupied = false
  spent : ∀ j : TaskIndex, j ≠ 0 → j.val ≤ used → (s.slots j).generation = u32Max
  fresh : ∀ j : TaskIndex, used + 1 < j.val → (s.slots j).generation = 1
  counter : s.nextPid = nextPid
  epoch : s.schedulerEpoch = epoch

section Round

variable {used rounds nextPid epoch : ℕ} {i : TaskIndex}

theorem Churned.forked (h : Churned used rounds nextPid epoch s) (hpid : 2 ≤ nextPid)
    (hrounds : rounds < roundsPerSlot) (hep : epoch < u64Max) (hi : i.val = used + 1) :
    Forked used rounds nextPid (max ((nextPid + 1) % 2 ^ 32) 2)
      (epoch + 1) i (roundClone.exec s).2 := by
  have hne : i ≠ 0 := by
    rintro rfl
    simp at hi
  have hgen : (s.slots i).generation + 1 = 2 + 2 * rounds := by
    rw [h.turning i hi]
    omega
  have hnum : Numbered (roundClone.exec s).2 := h.numbered.exec roundClone
  rw [h.clone hpid hrounds hep hi] at hnum ⊢
  generalize hu : cloned s 0 i nextPid roundContext 0x8000 0 = u at hnum ⊢
  have hpar : u.slots 0 = { s.slots 0 with context := roundContext.setSyscallResult nextPid } := by
    simp [← hu, cloned, withThread, publishEpoch, setSlot, hne.symm]
  have hoth (j : TaskIndex) (hj : j ≠ 0) (hji : j ≠ i) : u.slots j = s.slots j := by
    simp [← hu, cloned, withThread, publishEpoch, setSlot, hj, hji]
  have hcur : u.currentExecution = s.currentExecution := by
    rw [← pidTaken_currentExecution s, ← hu]
    rfl
  refine ⟨hnum, ⟨?_, ?_, ?_⟩, ?_, ?_, ?_, ?_, ?_, ?_, ?_, ?_, ?_, ?_, ?_, ?_⟩
  · rw [hpar, h.running.occupied]
  · rw [hpar, h.running.phase]
  · rw [hcur, h.running.current, hpar]
    rfl
  · rw [hpar, h.launch]
  · rw [hpar, h.fsBase]
  · rw [hpar, ← h.handle]
    rfl
  · rw [hpar, h.group]
  · simp [← hu, cloned, withThread, threadSlot, publishEpoch, setSlot, hne, holds, hgen]
  · simp [← hu, cloned, withThread, threadSlot, publishEpoch, setSlot, hne]
  · simp [← hu, cloned, withThread, threadSlot, publishEpoch, setSlot, hne, h.group]
  · intro j hj hji
    rw [hoth j hj hji, h.free j hj]
  · intro j hj hused
    have hji : j ≠ i := fun heq => by simp [heq, hi] at hused
    rw [hoth j hj hji, h.spent j hj hused]
  · intro j hused
    have hji : j ≠ i := fun heq => by simp [heq, hi] at hused
    have hj : j ≠ 0 := fun heq => by simp [heq] at hused
    rw [hoth j hj hji, h.fresh j hused]
  · have heq : u.nextPid = s.pidTaken.nextPid := by
      rw [← hu]
      rfl
    rw [heq, h.pidTaken hpid]
  · rw [← hu, ← h.epoch]
    rfl

/-- The discard finds the thread and gives its slot back. -/
theorem Forked.discard {pid : ℕ} (h : Forked used rounds pid nextPid epoch i s) (hpid : 2 ≤ pid) :
    ((LifecycleCall.discardRunnableThread { pid, generation := 2 + 2 * rounds }).exec s).2 =
      s.setSlot i (s.slots i).retired := by
  have hzero : (s.slots 0).holds { pid := initPid, generation := 1 } := by
    rw [← h.handle]
    simp [ProcessSlot.holds, ProcessSlot.handle, h.running.occupied]
  have huser : currentUserHandle s = .ok { pid := initPid, generation := 1 } := by
    rw [currentUserHandle, currentHandle, h.running.current, h.handle]
    decide
  have hensure : ((s.slots i).phase == .runnable &&
      (s.slots i).threadGroup == (s.slots 0).threadGroup &&
      (s.slots i).pid != (s.slots i).threadGroup) := by
    have hthr : (s.slots i).pid = pid := congrArg (·.pid) (handle_of_holds h.thread).2
    simp only [h.threadPhase, h.threadGroup, h.group, hthr, initPid, beq_self_eq_true,
      Bool.true_and, bne_iff_ne]
    omega
  simp only [LifecycleCall.exec, LifecycleCall.op, discardRunnableThread, exec_get, huser,
    exec_check_ok, slotByHandle_eq h.numbered hzero, slotByHandle_eq h.numbered h.thread,
    exec_expect_some, hensure, exec_ensure_true, exec_modify]

theorem Forked.churned {pid : ℕ} (h : Forked used rounds pid nextPid epoch i s)
    (hrounds : rounds < roundsPerSlot) (hi : i.val = used + 1) :
    Churned used (rounds + 1) nextPid epoch (s.setSlot i (s.slots i).retired) := by
  have hne : (0 : TaskIndex) ≠ i := by
    rintro rfl
    simp at hi
  have hoth (j : TaskIndex) (hji : j ≠ i) :
      (s.setSlot i (s.slots i).retired).slots j = s.slots j := by
    simp [setSlot, hji]
  have hretired : (s.setSlot i (s.slots i).retired).slots i = (s.slots i).retired := by
    simp [setSlot]
  have hgen : (s.slots i).retired.generation = 3 + 2 * rounds := by
    have hthr : (s.slots i).generation = 2 + 2 * rounds :=
      congrArg (·.generation) (handle_of_holds h.thread).2
    have hnext : checkedAdd u32Max (2 + 2 * rounds) 1 = some (3 + 2 * rounds) := by
      refine checkedAdd_eq_some.mpr ⟨?_, by omega⟩
      simp only [u32Max, roundsPerSlot] at hrounds ⊢
      omega
    simp [retired, hthr, hnext]
  refine ⟨h.numbered.retireSlot i, ⟨?_, ?_, ?_⟩, ?_, ?_, ?_, ?_, ?_, ?_, ?_, ?_, h.counter, h.epoch⟩
  · rw [hoth 0 hne, h.running.occupied]
  · rw [hoth 0 hne, h.running.phase]
  · rw [hoth 0 hne]
    exact h.running.current
  · rw [hoth 0 hne, h.launch]
  · rw [hoth 0 hne, h.fsBase]
  · rw [hoth 0 hne, h.handle]
  · rw [hoth 0 hne, h.group]
  · intro j hj
    by_cases hji : j = i
    · rw [hji, hretired, retired_occupied]
    · rw [hoth j hji, h.free j hj hji]
  · intro j hj hused
    have hji : j ≠ i := fun heq => by simp [heq, hi] at hused
    rw [hoth j hji, h.spent j hj hused]
  · intro j hj
    have hji : j = i := Fin.ext (hj.trans hi.symm)
    rw [hji, hretired]
    omega
  · intro j hused
    have hji : j ≠ i := fun heq => by simp [heq, hi] at hused
    rw [hoth j hji, h.fresh j hused]

/-- The clone and the discard of a round. -/
theorem Churned.round (h : Churned used rounds nextPid epoch s) (hpid : 2 ≤ nextPid)
    (hrounds : rounds < roundsPerSlot) (hep : epoch < u64Max)
    (hused : used + 1 < maximumProcesses) :
    ∃ t, Runs anyCall (roundClone.exec s).2 t ∧
      Churned used (rounds + 1) (max ((nextPid + 1) % 2 ^ 32) 2) (epoch + 1) t := by
  obtain ⟨i, hi⟩ : ∃ i : TaskIndex, i.val = used + 1 := ⟨⟨used + 1, hused⟩, rfl⟩
  have hforked := h.forked hpid hrounds hep hi
  refine ⟨_, ?_, hforked.churned hrounds hi⟩
  rw [← hforked.discard hpid]
  exact Runs.exec .refl _ trivial

/-- Several rounds with one slot, while the counter does not wrap. -/
theorem Churned.rounds_add (h : Churned used rounds nextPid epoch s) (k : ℕ)
    (hrounds : rounds + k ≤ roundsPerSlot) (hpid : 2 ≤ nextPid) (hwrap : nextPid + k < 2 ^ 32)
    (hep : epoch + k ≤ u64Max) (hused : used + 1 < maximumProcesses) :
    ∃ t, Runs anyCall s t ∧ Churned used (rounds + k) (nextPid + k) (epoch + k) t := by
  induction k with
  | zero => exact ⟨s, .refl, h⟩
  | succ k ih =>
    obtain ⟨t, hrun, ht⟩ := ih (by omega) (by omega) (by omega)
    obtain ⟨u, hround, hu⟩ := ht.round (by omega) (by omega) (by omega) hused
    refine ⟨u, (hrun.exec roundClone trivial).trans hround, ?_⟩
    have hnext : max ((nextPid + k + 1) % 2 ^ 32) 2 = nextPid + (k + 1) := by omega
    rwa [hnext] at hu

/-- A slot that is used up makes room for the next. -/
theorem Churned.next_slot (h : Churned used roundsPerSlot nextPid epoch s) :
    Churned (used + 1) 0 nextPid epoch s where
  numbered := h.numbered
  running := h.running
  launch := h.launch
  fsBase := h.fsBase
  handle := h.handle
  group := h.group
  free := h.free
  spent j hj hused := by
    rcases Nat.lt_or_eq_of_le hused with hlt | heq
    · exact h.spent j hj (Nat.lt_succ_iff.mp hlt)
    · rw [h.turning j heq]
      decide
  turning j hj := by
    rw [h.fresh j (by omega)]
  fresh j hj := h.fresh j (by omega)
  counter := h.counter
  epoch := h.epoch

theorem Churned.slotByHandle (h : Churned used rounds nextPid epoch s) {handle : ProcessHandle}
    (hpid : 2 ≤ handle.pid) : s.slotByHandle handle = none := by
  refine position_none.mpr fun j => ?_
  by_contra hj
  obtain ⟨hocc, hhd⟩ := handle_of_holds (Bool.not_eq_false _ ▸ hj)
  exact slotByPid_none.mp (h.slotByPid hpid) j hocc (congrArg (·.pid) hhd)

end Round

/-- The handle of the first clone is given out again after the counter of process
numbers has come round, though its thread is long gone. -/
theorem handle_reissued :
    ∃ s t first second, Runs anyCall .new s ∧ (roundClone.exec s).1 = .ok first ∧
      Runs anyCall (roundClone.exec s).2 t ∧ t.slotByHandle first.1 = none ∧
      (roundClone.exec t).1 = .ok second ∧ second.1 = first.1 := by
  have hstart : Runs anyCall .new started := runs_started trivial trivial
  -- the first slot, from its first clone to its last
  obtain ⟨t₁, hrun₁, h₁⟩ := churned_started.round le_rfl (by decide) (by decide) (by decide)
  obtain ⟨t₂, hrun₂, h₂⟩ := h₁.rounds_add (roundsPerSlot - 1) (by decide) (by decide) (by decide)
    (by decide) (by decide)
  -- the second slot, whose last clone brings the counter round
  obtain ⟨t₃, hrun₃, h₃⟩ := Churned.rounds_add (Churned.next_slot h₂)
    (roundsPerSlot - 1) (by decide) (by decide) (by decide) (by decide) (by decide)
  obtain ⟨t₄, hrun₄, h₄⟩ := h₃.round (by decide) (by decide) (by decide) (by decide)
  have hlast : Churned 2 0 2 (2 * roundsPerSlot + 1) t₄ := Churned.next_slot h₄
  have hrun : Runs anyCall (roundClone.exec started).2 t₄ :=
    ((hrun₁.trans hrun₂).trans (hrun₃.exec roundClone trivial)).trans hrun₄
  have hfst := churned_started.clone (i := 1) le_rfl (by decide) (by decide) rfl
  have hsnd := hlast.clone (i := 3) le_rfl (by decide) (by decide) rfl
  exact ⟨started, t₄, _, _, hstart, congrArg Prod.fst hfst, hrun, hlast.slotByHandle le_rfl,
    congrArg Prod.fst hsnd, rfl⟩

end ArachKernel.Process
