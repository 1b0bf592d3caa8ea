import ArachKernel.Linux.FutexQueue

/-!
Waits and wakes over whole runs. Between two system calls a task is blocked exactly when
it has an entry in the queue. Only the exit of a group parts the two: it takes the
entries of the members out before it takes the members out of the process table.
-/

namespace ArachKernel.LinuxFutex

open Process List

variable {s t : State} {i j : TaskIndex} {E : Type}

/-! ### Waits -/

variable {key : FutexKey} {table : Lifecycle} {owner : ProcessHandle}

/-- The caller of a futex call is the running task. -/
theorem currentOwnerAndKey_ok {address : Word} (h : Single table)
    (hok : currentOwnerAndKey address table = .ok (owner, key)) :
    owner.valid ∧ ∃ i, RunningAt table i ∧ (table.slots i).handle = owner ∧
      key = { addressSpaceRoot := (table.slots i).launch.addressSpaceRoot, address } := by
  unfold currentOwnerAndKey at hok
  split at hok
  · cases hok
  split at hok
  · cases hok
  next hcur =>
  split at hok
  · cases hok
  next hsnap =>
  cases hok
  unfold currentHandle at hcur
  split at hcur
  next hval =>
    cases hcur
    refine ⟨hval, ?_⟩
    rcases h.current with hidle | ⟨i, hi⟩
    · rw [hidle] at hval
      cases hval
    · refine ⟨i, hi, hi.current.symm, ?_⟩
      have hslot := slotByHandle_eq h.toNumbered (holds_iff.mpr ⟨hi.occupied, hi.current.symm⟩)
      rw [snapshotExact, hslot] at hsnap
      cases hsnap
      rfl
  · cases hcur

/-- The table and the entries are as before. -/
structure Unmoved (s t : State) : Prop where
  table : t.table = s.table
  waiters : t.futexes.waiters = s.futexes.waiters
  sequence : s.futexes.nextSequence ≤ t.futexes.nextSequence

/-- The running task is blocked and has the newest entry. -/
structure Waits (key : FutexKey) (i : TaskIndex) (s t : State) : Prop where
  running : RunningAt s.table i
  root : key.addressSpaceRoot = (s.table.slots i).launch.addressSpaceRoot
  single : Single t.table
  asleep : Asleep (t.table.slots i)
  handle : (t.table.slots i).handle = (s.table.slots i).handle
  launch : (t.table.slots i).launch = (s.table.slots i).launch
  others : ∀ j, j ≠ i → Asleep (s.table.slots j) ∨ Asleep (t.table.slots j) →
    t.table.slots j = s.table.slots j
  entry : ∃ a, (s.futexes.waiters a).occupied = false ∧
    (∀ b, (s.futexes.waiters b).ownedBy (s.table.slots i).handle = false) ∧
    t.futexes = s.futexes.enqueued a (s.table.slots i).handle key

/-- A wait that fails leaves no entry behind, one that succeeds leaves one. -/
theorem wait_outcome (h : Queued s) (address : Word) (expected : BitVec 32)
    (saved : SavedUserContext) (word : Except E (BitVec 32)) :
    (∃ error, (waitCurrent address expected saved word s).1 = .error error) ∧
        Unmoved s (waitCurrent address expected saved word s).2 ∨
      (∃ decision, (waitCurrent address expected saved word s).1 = .ok decision) ∧
        ∃ key i, key.address = address ∧
          Waits key i s (waitCurrent address expected saved word s).2 := by
  have hsame : Unmoved s s := ⟨rfl, rfl, le_rfl⟩
  unfold waitCurrent
  split
  · exact .inl ⟨⟨_, rfl⟩, hsame⟩
  next hkey =>
  obtain ⟨hval, i, hi, rfl, rfl⟩ := currentOwnerAndKey_ok h.single hkey
  split
  · exact .inl ⟨⟨_, rfl⟩, hsame⟩
  split
  · exact .inl ⟨⟨_, rfl⟩, hsame⟩
  split
  · exact .inl ⟨⟨_, rfl⟩, hsame⟩
  split
  · exact .inl ⟨⟨_, rfl⟩, hsame⟩
  next henqueue =>
  obtain ⟨hnew, a, hfree, rfl⟩ := enqueue_ok henqueue
  have hsing := h.single.exec (.scheduleBlock saved) not_false
  split
  next decision table hexec =>
    refine .inr ⟨⟨_, rfl⟩,
      { addressSpaceRoot := (s.table.slots i).launch.addressSpaceRoot, address }, i, rfl, ?_⟩
    have hok : ((LifecycleCall.scheduleBlock saved).exec s.table).1 = .ok decision := by
      rw [hexec]
    obtain ⟨k, hk, hasleep, hhd, hlau, hoths⟩ := (effect_of_ok hok).blocked rfl
    have hki := h.slot_eq hk.occupied hi.occupied (hk.current.symm.trans hi.current)
    subst hki
    rw [hexec] at hsing hasleep hhd hlau hoths
    exact ⟨hi, rfl, hsing, hasleep, hhd, hlau, hoths, a, hfree, hnew, rfl⟩
  next table hexec =>
    refine .inl ⟨⟨_, rfl⟩, ?_⟩
    have hout := exec_outcome (.scheduleBlock saved) s.table
    rw [hexec] at hout
    have htab : table = s.table := hout.resolve_right fun h => by cases h.1
    rw [cancel_enqueued h.ordered hval hnew hfree]
    exact ⟨htab, rfl, Nat.le_succ _⟩

theorem Queued.unmoved (h : Queued s) (hsame : Unmoved s t) : Queued t where
  single := by
    rw [hsame.table]
    exact h.single
  ordered := by
    refine ⟨h.ordered.positive.trans_le hsame.sequence, ?_, ?_, ?_, fun a ha => ?_⟩
    · rw [hsame.waiters]
      exact h.ordered.free
    · rw [hsame.waiters]
      exact h.ordered.owners
    · rw [hsame.waiters]
      exact h.ordered.sequences
    · rw [hsame.waiters] at ha ⊢
      exact (h.ordered.earlier a ha).trans_le hsame.sequence
  blocked := by
    rw [hsame.waiters, hsame.table]
    exact h.blocked

theorem RunningAt.handle_valid (h : Single table) (hi : RunningAt table i) :
    (table.slots i).handle.valid := by
  have hpid := h.pid_ne i hi.occupied
  have hgen := h.generation_pos i
  rw [ProcessHandle.valid, Bool.and_eq_true, bne_iff_ne, bne_iff_ne]
  exact ⟨hpid, hgen.ne'⟩

theorem Queued.waits (h : Queued s) (hwaits : Waits key i s t) : Queued t := by
  obtain ⟨a, hfree, hnew, hfut⟩ := hwaits.entry
  refine ⟨hwaits.single, ?_, fun b hb => ?_⟩
  · rw [hfut]
    exact h.ordered.enqueue (RunningAt.handle_valid h.single hwaits.running) hnew
  · rw [hfut] at hb ⊢
    by_cases hba : b = a
    · subst hba
      rw [enqueued_self]
      exact ⟨i, hwaits.handle, hwaits.asleep, by rw [hwaits.launch, hwaits.root]⟩
    · rw [enqueued_other _ _ _ hba] at hb ⊢
      obtain ⟨j, hj, hasleep, hroot⟩ := h.blocked b hb
      have hji : j ≠ i := by
        rintro rfl
        exact hwaits.running.not_asleep hasleep
      refine ⟨j, ?_⟩
      rw [hwaits.others j hji (.inl hasleep)]
      exact ⟨hj, hasleep, hroot⟩

/-! ### What holds between system calls, and within them -/

/-- Between system calls: who is blocked has an entry, and who has an entry is blocked. -/
structure Settled (s : State) : Prop extends Queued s where
  entry : ∀ i, Asleep (s.table.slots i) → HasEntry s i

variable {ending : Prop}

/-- Within a system call: a blocked task without an entry is of the running task's group, and
the call is one that ends the group. -/
structure Steady (ending : Prop) (s : State) : Prop extends Queued s where
  entry : ∀ i, Asleep (s.table.slots i) → HasEntry s i ∨ ending ∧
    ∃ r, RunningAt s.table r ∧ (s.table.slots i).threadGroup = (s.table.slots r).threadGroup

theorem Settled.steady (h : Settled s) : Steady ending s where
  toQueued := h.toQueued
  entry i hi := .inl (h.entry i hi)

theorem HasEntry.unmoved (h : HasEntry s i) (hsame : Unmoved s t) : HasEntry t i := by
  obtain ⟨a, ha, hown⟩ := h
  exact ⟨a, by rwa [hsame.waiters], by rwa [hsame.waiters, hsame.table]⟩

theorem Settled.unmoved (h : Settled s) (hsame : Unmoved s t) : Settled t where
  toQueued := h.toQueued.unmoved hsame
  entry i hi := by
    rw [hsame.table] at hi
    exact (h.entry i hi).unmoved hsame

theorem Settled.waits (h : Settled s) (hwaits : Waits key i s t) : Settled t where
  toQueued := h.toQueued.waits hwaits
  entry j hj := by
    obtain ⟨a, hfree, hnew, hfut⟩ := hwaits.entry
    by_cases hji : j = i
    · subst hji
      have hown : (t.futexes.waiters a).ownedBy (s.table.slots j).handle := by
        rw [hfut]
        exact enqueued_ownedBy h.ordered (RunningAt.handle_valid h.single hwaits.running) a
      rw [ownedBy_iff] at hown
      exact ⟨a, hown.1, by rw [hown.2, hwaits.handle]⟩
    · have heq := hwaits.others j hji (.inr hj)
      rw [heq] at hj
      obtain ⟨b, hb, hown⟩ := h.entry j hj
      have hba : b ≠ a := by
        rintro rfl
        simp [hfree] at hb
      have hwaiter : t.futexes.waiters b = s.futexes.waiters b := by
        rw [hfut, enqueued_other _ _ _ hba]
      exact ⟨b, by rwa [hwaiter], by rw [hwaiter, heq, hown]⟩

theorem Settled.quiet (h : Settled s) (hsing : Single table)
    (hquiet : Quiet s.table table) : Settled { s with table } where
  toQueued := h.toQueued.quiet hsing hquiet
  entry i hi := by
    have heq : table.slots i = s.table.slots i := hquiet i (.inr hi)
    obtain ⟨a, ha, hown⟩ := h.entry i (by rwa [← heq])
    exact ⟨a, ha, by rw [hown, ← heq]⟩

variable {W : Finset TaskIndex}

theorem Settled.awake (h : Settled s)
    (hW : ∀ a ∈ W, (s.futexes.waiters a).occupied) : Settled (s.awake W) where
  toQueued := h.toQueued.awake hW
  entry i hi := (h.entry i (by rwa [← (asleep_of_awake hi).1])).awake hi

/-- A wake without an owner or an address does nothing. -/
theorem wake_error {error : FutexQueueError} {address : Word}
    (hkey : currentOwnerAndKey address s.table = .error error) (maximum : ℕ) :
    wakeCurrent address maximum s = (.error error, s) := by
  rw [wakeCurrent, hkey]

/-- Any other wakes the longest-waiting entries of its key. -/
theorem wake_ok (h : Queued s) {address : Word}
    (hkey : currentOwnerAndKey address s.table = .ok (owner, key)) (maximum : ℕ) :
    ∃ W, Longest s.futexes key W ∧ W.card = min maximum (waiting s.futexes key).card ∧
      wakeCurrent address maximum s = (.ok W.card, s.awake W) := by
  obtain ⟨W, hlongest, hcard, hloop⟩ := h.wakeLoop key maximum 0
  refine ⟨W, hlongest, hcard, ?_⟩
  rw [wakeCurrent, hkey]
  simp [hloop]

theorem Longest.occupied {f : FutexTable}
    (h : Longest f key W) (a : TaskIndex) (ha : a ∈ W) : (f.waiters a).occupied :=
  (mem_waiting.mp (h.1 ha)).1

variable {P : State → Prop}

/-- What every wake keeps. -/
theorem wake_induction (h : Queued s) (hs : P s)
    (hawake : ∀ W, (∀ a ∈ W, (s.futexes.waiters a).occupied) → P (s.awake W))
    (address : Word) (maximum : ℕ) : P (wakeCurrent address maximum s).2 := by
  cases hkey : currentOwnerAndKey address s.table with
  | error => rwa [wake_error hkey]
  | ok =>
    obtain ⟨W, hlongest, _, heq⟩ := wake_ok h hkey maximum
    rw [heq]
    exact hawake W hlongest.occupied

theorem cancelWait_snd (owner : ProcessHandle) :
    (cancelWait owner s).2 = { s with futexes := (s.futexes.cancel owner).2 } := rfl

/-- A cancel for a task without an entry does nothing. -/
theorem cancelWait_eq_self (h : Queued s)
    (hnone : ∀ a, (s.futexes.waiters a).ownedBy owner = false) : (cancelWait owner s).2 = s := by
  have hemp : (Finset.univ.filter fun a => (s.futexes.waiters a).ownedBy owner) = ∅ := by
    simp [hnone]
  have hcancel : (s.futexes.cancel owner).2 = s.futexes := by
    rw [cancel_eq h.ordered, hemp]
    simp [FutexTable.without]
  rw [cancelWait_snd, hcancel]

theorem Queued.running_not_owner (h : Queued s) (hi : RunningAt s.table i) (a : TaskIndex) :
    (s.futexes.waiters a).ownedBy (s.table.slots i).handle = false := by
  by_contra hown
  rw [Bool.not_eq_false, ownedBy_iff] at hown
  exact h.running_no_entry hi ⟨a, hown.1, hown.2⟩

/-! ### The exit of a group -/

/-- The exit of a group is under way: the members are listed in `rest` or have no entry. -/
structure Ending (i : TaskIndex) (group : ℕ) (rest : List ProcessHandle) (s : State) :
    Prop extends Queued s where
  running : RunningAt s.table i
  ends : (s.table.slots i).threadGroup = group
  entry : ∀ j, Asleep (s.table.slots j) → HasEntry s j ∨ (s.table.slots j).threadGroup = group
  members : ∀ j, (s.table.slots j).inGroup group → (s.table.slots j).handle ∈ rest ∨ ¬ HasEntry s j
  listed : ∀ owner ∈ rest, ∃ j, (s.table.slots j).inGroup group ∧ (s.table.slots j).handle = owner

namespace Ending

variable {group : ℕ} {rest : List ProcessHandle}

theorem steady (hend : ending) (h : Ending i group rest s) : Steady ending s where
  toQueued := h.toQueued
  entry j hj := (h.entry j hj).imp_right fun hgrp =>
    ⟨hend, i, h.running, hgrp.trans h.ends.symm⟩

theorem awake (h : Ending i group rest s)
    (hW : ∀ a ∈ W, (s.futexes.waiters a).occupied) : Ending i group rest (s.awake W) where
  toQueued := h.toQueued.awake hW
  running := h.awake_running hW h.running
  ends := (awake_sameImage W i).threadGroup.trans h.ends
  entry j hj := by
    have heq := (asleep_of_awake hj).1
    rw [heq]
    exact (h.entry j (by rwa [← heq])).imp_left fun hent => hent.awake hj
  members j hj := by
    have hsame := awake_sameImage (s := s) W j
    rw [inGroup_iff, hsame.occupied, hsame.threadGroup, ← inGroup_iff] at hj
    rw [hsame.handle]
    refine (h.members j hj).imp_right fun hnone hent => hnone ?_
    obtain ⟨a, ha, hown⟩ := hent
    have hwaiter : (s.awake W).futexes.waiters a = s.futexes.waiters a := (without_occupied ha).2
    rw [hwaiter] at ha hown
    exact ⟨a, ha, hown.trans hsame.handle⟩
  listed owner howner := by
    obtain ⟨j, hj, hhd⟩ := h.listed owner howner
    have hsame := awake_sameImage (s := s) W j
    refine ⟨j, ?_, hsame.handle.trans hhd⟩
    rw [inGroup_iff, hsame.occupied, hsame.threadGroup, ← inGroup_iff]
    exact hj

theorem cancel (h : Ending i group (owner :: rest) s) :
    Ending i group rest (cancelWait owner s).2 := by
  rw [cancelWait_snd, cancel_eq h.ordered]
  refine ⟨h.toQueued.without _, h.running, h.ends, fun j hj => ?_, fun j hj => ?_,
    fun other hoth => h.listed other (mem_cons_of_mem owner hoth)⟩
  · obtain ⟨k, hk, rfl⟩ := h.listed owner mem_cons_self
    rcases h.entry j hj with ⟨a, ha, hown⟩ | hgrp
    · by_cases hcancelled : (s.futexes.waiters a).ownedBy (s.table.slots k).handle
      · have hhd := hown.symm.trans (ownedBy_iff.mp hcancelled).2
        have hjk := h.slot_eq (Asleep.occupied hj) (inGroup_iff.mp hk).1 hhd
        subst hjk
        exact .inr (inGroup_iff.mp hk).2
      · have hwaiter : (s.futexes.without (Finset.univ.filter fun a =>
            (s.futexes.waiters a).ownedBy (s.table.slots k).handle)).waiters a =
            s.futexes.waiters a := if_neg (by simpa using hcancelled)
        exact .inl ⟨a, by rwa [hwaiter], by rwa [hwaiter]⟩
    · exact .inr hgrp
  · by_cases howned : (s.table.slots j).handle = owner
    · refine .inr fun ⟨a, ha, hown⟩ => ?_
      obtain ⟨hleft, hwaiter⟩ := without_occupied ha
      rw [hwaiter] at ha hown
      exact hleft (by simpa using ownedBy_iff.mpr ⟨ha, hown.trans howned⟩)
    · refine (h.members j hj).imp (fun hmem => (mem_cons.mp hmem).resolve_left howned) ?_
      intro hnone ⟨a, ha, hown⟩
      have hwaiter := (without_occupied ha).2
      rw [hwaiter] at ha hown
      exact hnone ⟨a, ha, hown⟩

/-- When all members are without entries the group can go. -/
theorem exitGroup (h : Ending i group [] s) {exitCode : ℤ} {decision : ScheduleDecision}
    (hok : ((LifecycleCall.scheduleExitGroup exitCode).exec s.table).1 = .ok decision) :
    Settled { s with table := ((LifecycleCall.scheduleExitGroup exitCode).exec s.table).2 } := by
  have hcode : exitGroupCode (.scheduleExitGroup exitCode) = some exitCode := rfl
  obtain ⟨k, hk, hslots⟩ := (effect_of_ok hok).groupQuiet hcode
  have hki := h.slot_eq hk.occupied h.running.occupied (hk.current.symm.trans h.running.current)
  subst hki
  have hmem {j : TaskIndex} (hj : (s.table.slots j).inGroup group) :
      ¬ HasEntry s j := (h.members j hj).resolve_left (not_mem_nil)
  refine ⟨⟨h.single.exec _ not_false, h.ordered, fun a ha => ?_⟩, fun j hj => ?_⟩
  · obtain ⟨j, hj, hasleep, hroot⟩ := h.blocked a ha
    have houts : (s.table.slots j).inGroup (s.table.slots k).threadGroup = false := by
      by_contra hin
      rw [Bool.not_eq_false, h.ends] at hin
      exact hmem hin ⟨a, ha, hj.symm⟩
    refine ⟨j, ?_⟩
    rw [(hslots j).2 houts (.inl hasleep)]
    exact ⟨hj, hasleep, hroot⟩
  · have houts : (s.table.slots j).inGroup (s.table.slots k).threadGroup = false := by
      by_contra hin
      rw [Bool.not_eq_false] at hin
      exact (hslots j).1 hin hj
    have heq := (hslots j).2 houts (.inr hj)
    rw [heq] at hj
    rcases h.entry j hj with ⟨a, ha, hown⟩ | hgrp
    · refine ⟨a, ha, ?_⟩
      rw [heq, hown]
    · simpa [houts] using inGroup_iff.mpr ⟨Asleep.occupied hj, hgrp.trans h.ends.symm⟩

/-- A group exit begins with the members that the process table lists. -/
theorem begin (h : Settled s) {leader : ProcessHandle} {handles : List ProcessHandle}
    (hread : currentThreadGroupHandles s.table = .ok (leader, handles)) :
    ∃ i group, Ending i group handles s := by
  unfold currentThreadGroupHandles at hread
  cases hcur : currentUserHandle s.table with
  | error =>
    rw [hcur] at hread
    cases hread
  | ok =>
  rw [hcur] at hread
  dsimp only [bind, Except.bind] at hread
  split at hread
  next i hi =>
    split at hread
    · cases hread
      obtain ⟨hocc, hhd⟩ := holds_iff.mp (slotByHandle_holds hi)
      have hrun : RunningAt s.table i := by
        rcases h.single.current with hidle | ⟨r, hr⟩
        · simp [currentUserHandle, if_pos hidle] at hcur
        · have hir := h.slot_eq hocc hr.occupied
            (hhd.trans ((currentUserHandle_ok hcur).symm.trans hr.current))
          rwa [hir]
      refine ⟨i, (s.table.slots i).threadGroup, h.toQueued, hrun, rfl,
        fun j hj => .inl (h.entry j hj), fun j hj => .inl ?_, fun owner hown => ?_⟩
      · exact mem_map_of_mem (mem_filter.mpr ⟨mem_finRange j, hj⟩)
      · obtain ⟨j, hj, rfl⟩ := mem_map.mp hown
        exact ⟨j, (mem_filter.mp hj).2, rfl⟩
    · cases hread
  · cases hread

end Ending

/-! ### The system calls -/

/-- The wakes of an ending task keep what every wake keeps. -/
theorem wakes_along (hsteady : ∀ s, P s → Steady ending s)
    (hawake : ∀ s W, P s → (∀ a ∈ W, (s.futexes.waiters a).occupied) → P (s.awake W))
    (released : List Word) (hs : P s) :
    Prog.Along (exec (E := E)) (Steady ending) (Prog.each (fun address => do
      let _ ← .perform (.wake address 1)) released) s fun _ t => P t := by
  refine .each (J := fun _ => P) (fun address _ s hs => ?_) hs
  have hwoken : P (wakeCurrent address 1 s).2 :=
    wake_induction (hsteady s hs).toQueued hs (fun W => hawake s W hs) address 1
  exact .call_bind (hsteady _ hwoken) (Prog.Along.pure hwoken)

theorem scheduleLinuxExitGroupReturn_along (hend : ending) (h : Settled s) (exitCode : ℤ)
    (released : ProcessHandle → List Word) :
    (scheduleLinuxExitGroupReturn exitCode released).Along (exec (E := E)) (Steady ending) s
      fun going t => going → Settled t := by
  unfold scheduleLinuxExitGroupReturn
  refine .call_bind h.steady ?_
  split
  next hread =>
    obtain ⟨i, group, hending⟩ := Ending.begin h hread
    refine .bind ((Prog.Along.each (J := Ending i group) ?_ hending).mono ?_)
    · intro owner rest s hs
      refine .call_bind (hs.cancel.steady hend) ?_
      exact wakes_along (fun _ => Ending.steady hend) (fun _ _ hs hW => hs.awake hW) _ hs.cancel
    · intro _ s hs
      have hout := exec_outcome (.scheduleExitGroup exitCode) s.table
      cases hans : ((LifecycleCall.scheduleExitGroup exitCode).exec s.table).1 with
      | ok =>
        have hsettled := hs.exitGroup hans
        exact .call_bind hsettled.steady (Prog.Along.pure fun _ => hsettled)
      | error =>
        rw [hans] at hout
        have htab := hout.resolve_right fun h => by cases h.1
        refine .call_bind ?_ (Prog.Along.pure fun hgoing => ?_)
        · dsimp only [exec]
          rw [htab]
          exact hs.steady hend
        · dsimp only [exec] at hgoing
          rw [hans] at hgoing
          cases hgoing
  · exact .pure nofun

variable {α : Type}

theorem not_disturbs {c : LifecycleCall α} (hc : stirs c = false) (table : Lifecycle) :
    ¬ disturbs c table := by
  cases c with
  | markRunnable | markBlocked => cases hc
  | _ => exact not_false

section

variable (h : Settled s)
include h

theorem Settled.lifecycle (c : LifecycleCall α) (hc : stirs c = false) :
    Settled { s with table := (c.exec s.table).2 } :=
  h.quiet (h.single.exec c (not_disturbs hc _)) (quiet_exec c hc)

/-- An operation of the process table that leaves the sleepers alone, and what follows. -/
theorem lifecycle_along (c : LifecycleCall α) (hc : stirs c = false)
    {f : Except LifecycleError α → Prog (FutexCall E) Bool}
    (hf : ∀ answer t,
      Settled t → (f answer).Along exec (Steady ending) t fun going t => going → Settled t) :
    (Prog.perform (.lifecycle c) >>= f).Along exec (Steady ending) s fun going t =>
      going → Settled t :=
  Prog.Along.call_bind (h.lifecycle c hc).steady (hf _ _ (h.lifecycle c hc))

/-- The published task is the running one. -/
theorem Settled.running {handle : ProcessHandle} (hcur : currentHandle s.table = some handle) :
    ∃ i, RunningAt s.table i ∧ (s.table.slots i).handle = handle := by
  unfold currentHandle at hcur
  split at hcur
  next hval =>
    cases hcur
    rcases h.single.current with hidle | ⟨i, hi⟩
    · rw [hidle] at hval
      cases hval
    · exact ⟨i, hi, hi.current.symm⟩
  · cases hcur

theorem scheduleExitReturn_along (exitCode : ℤ) (released : List Word) :
    (scheduleExitReturn exitCode released).Along (exec (E := E)) (Steady ending) s
      fun going t => going → Settled t := by
  unfold scheduleExitReturn
  refine .call_bind h.steady ?_
  split
  next hcur =>
    obtain ⟨i, hi, rfl⟩ := h.running hcur
    have hcancel : Settled (cancelWait (s.table.slots i).handle s).2 := by
      rw [cancelWait_eq_self h.toQueued (h.running_not_owner hi)]
      exact h
    refine .bind (Prog.Along.call_bind hcancel.steady ?_)
    refine (wakes_along (fun _ => Settled.steady) (fun _ _ hs hW => hs.awake hW) _ hcancel).mono ?_
    intro _ t ht
    refine .call_bind ht.steady ?_
    split
    · exact lifecycle_along ht _ rfl fun _ _ ht => Prog.Along.pure fun _ => ht
    · exact lifecycle_along ht _ rfl fun _ _ ht => Prog.Along.pure fun _ => ht
  · exact .pure nofun

theorem scheduleLinuxExecve_along (root entry stack measurement : Word) :
    (scheduleLinuxExecve root entry stack measurement).Along (exec (E := E)) (Steady ending) s
      fun going t => going → Settled t := by
  unfold scheduleLinuxExecve
  refine .call_bind h.steady ?_
  split
  next hcur =>
    obtain ⟨i, hi, rfl⟩ := h.running hcur
    have hrepl := h.lifecycle (.replaceCurrentImage root entry stack measurement) rfl
    refine .call_bind hrepl.steady ?_
    split
    · -- the entries are those of before, when the task was running
      have hcancel := cancelWait_eq_self hrepl.toQueued (h.running_not_owner hi)
      have hsettled := hrepl
      rw [← hcancel] at hsettled
      exact .call_bind hsettled.steady (Prog.Along.pure fun _ => hsettled)
    · exact .pure fun _ => hrepl
  · exact .pure fun _ => h

end

/-- The program is the exit of a group. -/
def EndsGroup (p : Prog (FutexCall E) Bool) : Prop :=
  ∃ exitCode released, p = scheduleLinuxExitGroupReturn exitCode released

theorem systemCall_along {p : Prog (FutexCall E) Bool} (hp : SystemCall p) (h : Settled s) :
    p.Along exec (Steady (EndsGroup p)) s fun going t => going → Settled t := by
  cases hp with
  | wait address expected saved word =>
    have hsettled : Settled (waitCurrent address expected saved word s).2 := by
      rcases wait_outcome h.toQueued address expected saved word with
        ⟨_, hsame⟩ | ⟨_, _, _, _, hwaits⟩
      · exact h.unmoved hsame
      · exact h.waits hwaits
    exact .call_bind hsettled.steady (Prog.Along.pure fun _ => hsettled)
  | wake address maximum =>
    have hsettled : Settled (wakeCurrent address maximum s).2 :=
      wake_induction h.toQueued h (fun _ => h.awake) address maximum
    exact .call_bind hsettled.steady (Prog.Along.pure fun _ => hsettled)
  | exit exitCode released => exact scheduleExitReturn_along h exitCode released
  | exitGroup exitCode released =>
    exact scheduleLinuxExitGroupReturn_along ⟨exitCode, released, rfl⟩ h exitCode released
  | execve root entry stack measurement =>
    exact scheduleLinuxExecve_along h root entry stack measurement
  | lifecycle c hc => exact lifecycle_along h c hc fun _ _ ht => Prog.Along.pure fun _ => ht

theorem settled_new : Settled .new where
  toQueued := .new
  entry i hi := by cases hi

/-- In every state of every run of system calls, where `p` is what is left of the current
one: no task has two entries; the task of an entry is blocked, in the entry's address
space; a blocked task has an entry, unless the current call is the exit of its group, begun
when no call was under way, and has not ended well. A wait that fails leaves the entries
and the process table as they were; one that succeeds adds an entry that is younger than
all others. A wake takes exactly as many entries of its key as it asks for, or all when
there are fewer, the longest-waiting ones, makes their tasks runnable, and changes nothing
else. -/
theorem futex_wait_wake {p : Prog (FutexCall E) Bool} (h : Serial exec SystemCall .new p s) :
    (∀ a b, (s.futexes.waiters a).occupied → (s.futexes.waiters b).occupied →
      (s.futexes.waiters a).owner = (s.futexes.waiters b).owner → a = b) ∧
    (∀ a, (s.futexes.waiters a).occupied → ∃ i,
      (s.table.slots i).handle = (s.futexes.waiters a).owner ∧ Asleep (s.table.slots i) ∧
      (s.table.slots i).launch.addressSpaceRoot = (s.futexes.waiters a).key.addressSpaceRoot) ∧
    (∀ i, Asleep (s.table.slots i) → HasEntry s i ∨ p ≠ .done true ∧
      (∃ exitCode released t, Serial (exec (E := E)) SystemCall .new (.done true) t ∧
        Partway exec (scheduleLinuxExitGroupReturn exitCode released) t p s) ∧
      ∃ r, RunningAt s.table r ∧ (s.table.slots i).threadGroup = (s.table.slots r).threadGroup) ∧
    (∀ address expected saved (word : Except E (BitVec 32)),
      let after := waitCurrent address expected saved word s
      (∃ error, after.1 = .error error) ∧ after.2.table = s.table ∧
          after.2.futexes.waiters = s.futexes.waiters ∨
        (∃ decision, after.1 = .ok decision) ∧ ∃ key i a,
          RunningAt s.table i ∧ Asleep (after.2.table.slots i) ∧ key.address = address ∧
          key.addressSpaceRoot = (s.table.slots i).launch.addressSpaceRoot ∧
          (s.futexes.waiters a).occupied = false ∧
          after.2.futexes = s.futexes.enqueued a (s.table.slots i).handle key ∧
          ∀ b, (s.futexes.waiters b).occupied →
            (s.futexes.waiters b).sequence < (after.2.futexes.waiters a).sequence) ∧
    ∀ address maximum, (∀ error, currentOwnerAndKey address s.table = .error error →
        wakeCurrent address maximum s = (.error error, s)) ∧
      ∀ owner key, currentOwnerAndKey address s.table = .ok (owner, key) →
        ∃ W, Longest s.futexes key W ∧ W.card = min maximum (waiting s.futexes key).card ∧
          wakeCurrent address maximum s = (.ok W.card, s.awake W) := by
  have hruns := h.invariant settled_new (fun _ _ => Settled.steady) fun p s => systemCall_along
  have hqueued : Queued s := by
    rcases hruns with ⟨-, hs⟩ | ⟨_, _, _, _, _, hs, _⟩
    · exact hs.toQueued
    · exact hs.toQueued
  refine ⟨hqueued.ordered.owners, hqueued.blocked, fun i hi => ?_,
    fun address expected saved word => ?_, fun address maximum =>
      ⟨fun _ hkey => wake_error hkey maximum, fun _ _ hkey => wake_ok hqueued hkey maximum⟩⟩
  · rcases hruns with ⟨-, hs⟩ | ⟨q, t, ht, -, hpart, hs, halong⟩
    · exact .inl (hs.entry i hi)
    by_cases hidle : p = .done true
    · subst hidle
      exact .inl ((halong rfl).entry i hi)
    · refine (hs.entry i hi).imp_right fun ⟨⟨exitCode, released, hq⟩, hgrp⟩ => ?_
      exact ⟨hidle, ⟨exitCode, released, t, ht, hq ▸ hpart⟩, hgrp⟩
  · rcases wait_outcome hqueued address expected saved word with
      ⟨herr, hsame⟩ | ⟨hok, key, i, haddr, hwaits⟩
    · exact .inl ⟨herr, hsame.table, hsame.waiters⟩
    · obtain ⟨a, hfree, _, hfut⟩ := hwaits.entry
      refine .inr ⟨hok, key, i, a, hwaits.running, hwaits.asleep, haddr, hwaits.root, hfree,
        hfut, fun b hb => ?_⟩
      rw [hfut, enqueued_self]
      exact hqueued.ordered.earlier b hb

/-! ### A group exit under way -/

/-- A call that is a system call of its own. -/
theorem Serial.single (c : FutexCall E α)
    (h : Serial (exec (E := E)) SystemCall .new (.done true) s)
    (hc : SystemCall (do let _ ← .perform c; pure true)) :
    Serial (exec (E := E)) SystemCall .new (.done true) (exec _ c s).2 :=
  Serial.call (Serial.start h hc)

/-- A process of two threads. -/
def twoTasks : State :=
  (exec (E := Unit) _ (.lifecycle (.cloneCurrentThread (.initial 0x2000 0x8000) 0x9000 0))
    (exec (E := Unit) _ (.lifecycle (.markRunning { pid := initPid, generation := 1 }))
      (exec (E := Unit) _ (.lifecycle (.registerInit sampleLaunch)) .new).2).2).2

/-- The first thread waits on a futex. -/
def oneWaits : State :=
  (exec (E := Unit) _ (.wait 0x4000 0 (.initial 0x2000 0x8000) (.ok 0)) twoTasks).2

theorem serial_oneWaits : Serial (exec (E := Unit)) SystemCall .new (.done true) oneWaits := by
  have hinit := Serial.single (E := Unit) (.lifecycle (.registerInit sampleLaunch)) .boot
    (.lifecycle _ rfl)
  have hmark := Serial.single (.lifecycle (.markRunning { pid := initPid, generation := 1 })) hinit
    (.lifecycle _ rfl)
  have hclone := Serial.single
    (.lifecycle (.cloneCurrentThread (.initial 0x2000 0x8000) 0x9000 0)) hmark (.lifecycle _ rfl)
  exact Serial.single (.wait 0x4000 0 (.initial 0x2000 0x8000) (.ok 0)) hclone (.wait ..)

theorem futex_wait_wake_oneWaits : Asleep (oneWaits.table.slots 0) ∧ HasEntry oneWaits 0 := by
  have hasleep : Asleep (oneWaits.table.slots 0) := by decide +kernel
  refine ⟨hasleep, ?_⟩
  exact ((futex_wait_wake serial_oneWaits).2.2.1 0 hasleep).resolve_right fun h => h.1 rfl

/-- In the middle of a group exit a task is blocked and has no entry. -/
theorem blocked_without_entry :
    ∃ (p : Prog (FutexCall Unit) Bool) (s : State), Serial exec SystemCall .new p s ∧
      ∃ i, Asleep (s.table.slots i) ∧ ¬ HasEntry s i := by
  have hread : currentThreadGroupHandles oneWaits.table =
      .ok ({ pid := 1, generation := 1 },
        [{ pid := 1, generation := 1 }, { pid := 2, generation := 2 }]) := by
    decide +kernel
  have hexit := Serial.call (Serial.start serial_oneWaits (.exitGroup 0 fun _ => []))
  dsimp only [exec] at hexit
  rw [hread] at hexit
  refine ⟨_, _, Serial.call hexit, 0, ?_, ?_⟩
  · decide +kernel
  · unfold HasEntry
    decide +kernel

end ArachKernel.LinuxFutex
