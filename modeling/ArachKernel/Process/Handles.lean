import ArachKernel.Process.Epochs

/-!
Handles of tasks. A handle is a process number together with a generation. Numbers
come from one counter that wraps, generations are counted for each slot. As long as
the counter has not wrapped, and the first process is registered once, no handle is
given out twice; after a wrap a slot that has been used less than another repeats the
other's handles.
-/

namespace ArachKernel.Process

open Table Lifecycle ProcessSlot List

variable {s t : Lifecycle} {α : Type}

/-! ### Handles given out -/

/-- The handle of the task that a call has made. -/
def newHandle : LifecycleCall α → α → Option ProcessHandle
  | .registerInit .., handle | .commitChild .., handle => some handle
  | .cloneCurrentThread .., answer => some answer.1
  | _, _ => none

/-- The table together with the handles given out so far, the latest first. -/
structure Recorded where
  table : Lifecycle
  issued : List ProcessHandle

namespace Recorded

def new : Recorded := { table := .new, issued := [] }

def exec (c : LifecycleCall α) (s : Recorded) : Recorded where
  table := (c.exec s.table).2
  issued :=
    match (c.exec s.table).1 with
    | .ok a => (newHandle c a).toList ++ s.issued
    | .error _ => s.issued

/-- The states that runs of allowed calls lead to, with the handles given out. -/
def Runs (allowed : {α : Type} → LifecycleCall α → Lifecycle → Prop) : Recorded → Recorded → Prop :=
  Relation.ReflTransGen fun s t =>
    ∃ (α : Type) (c : LifecycleCall α), allowed c s.table ∧ t = s.exec c

end Recorded

/-! ### What becomes of a slot -/

/-- The slot holds the same task, in the same family. -/
structure Kept (old new : ProcessSlot) : Prop where
  occupied : new.occupied = old.occupied := by rfl
  handle : new.handle = old.handle := by rfl
  threadGroup : new.threadGroup = old.threadGroup := by rfl
  parent : new.parent = old.parent := by rfl

/-- A slot keeps its task, loses it, or gets the new one. -/
inductive Fate (made : Option ProcessHandle) (old new : ProcessSlot) : Prop
  | kept (h : Kept old new)
  | freed (hold : old.occupied) (hnew : new.occupied = false)
      (hgeneration : new.generation = old.retired.generation)
  | born (hold : old.occupied = false) (hnew : new.occupied) (hmade : made = some new.handle)
      (hgeneration : old.generation ≤ new.generation)

theorem Kept.refl (slot : ProcessSlot) : Kept slot slot := ⟨rfl, rfl, rfl, rfl⟩

theorem Kept.trans {a b c : ProcessSlot} (h : Kept a b) (h' : Kept b c) : Kept a c where
  occupied := h'.occupied.trans h.occupied
  handle := h'.handle.trans h.handle
  threadGroup := h'.threadGroup.trans h.threadGroup
  parent := h'.parent.trans h.parent

theorem Fate.andKept {made : Option ProcessHandle} {a b c : ProcessSlot} (h : Fate made a b)
    (h' : Kept b c) : Fate made a c := by
  cases h with
  | kept h => exact .kept (h.trans h')
  | freed hold hnew hgen =>
    exact .freed hold (h'.occupied.trans hnew) ((congrArg (·.generation) h'.handle).trans hgen)
  | born hold hnew hmade hgen =>
    have hgen' : c.generation = b.generation := congrArg (·.generation) h'.handle
    exact .born hold (h'.occupied.trans hnew) (h'.handle ▸ hmade) (hgen' ▸ hgen)

variable {i : TaskIndex} {slot : ProcessSlot}

theorem kept_setSlot (s : Lifecycle) (h : Kept (s.slots i) slot) (j : TaskIndex) :
    Kept (s.slots j) ((s.setSlot i slot).slots j) :=
  setSlot_cases h (fun _ _ => .refl _) j

theorem kept_switchTo (s : Lifecycle) (target : Option TaskIndex) (epoch : ℕ)
    (j : TaskIndex) : Kept (s.slots j) ((s.switchTo target epoch).slots j) := by
  cases target with
  | none => exact .refl _
  | some i =>
    have hph : Kept (s.slots j) ((s.setPhase i .running).slots j) := kept_setSlot s {} j
    exact hph

theorem fate_retired (s : Lifecycle) {made : Option ProcessHandle} (hi : (s.slots i).occupied)
    (j : TaskIndex) : Fate made (s.slots j) ((s.setSlot i (s.slots i).retired).slots j) :=
  setSlot_cases (.freed hi rfl rfl) (fun _ _ => .kept (.refl _)) j

theorem fate_disband (s : Lifecycle) {made : Option ProcessHandle} (leader : TaskIndex)
    (group : ℕ) (exitCode : ℤ) (epoch : ℕ) (j : TaskIndex) :
    Fate made (s.slots j) ((disband leader group exitCode epoch s).slots j) :=
  disband_cases (fun _ => .kept {}) (fun _ _ hin => .freed (Bool.and_elim_left hin) rfl rfl)
    (fun _ _ => .kept (.refl _)) j

theorem fate_born (s : Lifecycle) {made : Option ProcessHandle} (hi : s.vacantIndex = some i)
    (hslot : slot.occupied) (hmade : made = some slot.handle)
    (hgen : (s.slots i).generation ≤ slot.generation) (j : TaskIndex) :
    Fate made (s.slots j) ((s.pidTaken.setSlot i slot).slots j) := by
  refine setSlot_cases ?_ ?_ j
  · exact .born (vacantIndex_some hi) hslot hmade hgen
  · intro j _
    rw [pidTaken_slots]
    exact .kept (.refl _)

/-- What a successful call makes of each slot. -/
theorem Effect.fate {c : LifecycleCall α} {a : α} (h : Effect s c a t) (j : TaskIndex) :
    Fate (newHandle c a) (s.slots j) (t.slots j) := by
  cases h with
  | publishCurrent => exact .kept (.refl _)
  | registerInit hlau hnew hi =>
    refine setSlot_cases ?_ (fun _ _ => .kept (.refl _)) j
    exact .born (vacantIndex_some hi) rfl rfl le_rfl
  | commitChild hpar hlau hp hzomb hpid hi =>
    refine fate_born s hi ?_ ?_ ?_ j
    exacts [rfl, rfl, Nat.le_succ _]
  | @cloneCurrentThread context stackPointer fsBase pid current child hcur hlinux hpid hch =>
    refine Fate.andKept (b := (withThread s current child pid context stackPointer fsBase).slots j)
      ?_ (kept_setSlot _ {} j)
    refine fate_born s hch ?_ ?_ ?_ j
    exacts [rfl, rfl, Nat.le_succ _]
  | discardRunnableThread hi hj => exact fate_retired s (handle_of_holds hj).1 j
  | markRunning | scheduleFromPid0 => exact .kept (kept_switchTo _ _ _ j)
  | resumeCurrent => exact .kept (kept_setSlot s {} j)
  | replaceCurrentImage | setCurrentFsBase | markRunnable | markBlocked =>
    exact .kept (kept_setSlot s {} j)
  | scheduleYield | schedulePreempt | scheduleBlock | scheduleExit =>
    exact .kept ((kept_setSlot s {} j).trans (kept_switchTo _ _ _ j))
  | scheduleExitGroup =>
    exact (fate_disband s _ _ _ _ j).andKept (kept_switchTo _ _ _ j)
  | scheduleThreadExit hi =>
    exact (fate_retired s hi.occupied j).andKept (kept_switchTo _ _ _ j)
  | reapChild hi => exact fate_retired s (handle_of_holds hi).1 j

/-! ### The counter -/

/-- A number from the counter up to the wrap is free. -/
def NumbersLeft (s : Lifecycle) : Prop :=
  ∃ pid, s.nextPid ≤ pid ∧ pid < u32Max ∧ s.slotByPid pid = none

theorem allocatePidLoop_le (tries : ℕ) {pid : ℕ} (hmin : 2 ≤ s.nextPid) (hle : s.nextPid ≤ pid)
    (hpid : pid < u32Max) (hfree : s.slotByPid pid = none) :
    s.nextPid ≤ (allocatePidLoop tries s).2.nextPid ∧ (allocatePidLoop tries s).2.nextPid ≤ u32Max ∧
      ∀ taken, (allocatePidLoop tries s).1 = some taken →
        s.nextPid ≤ taken ∧ taken < (allocatePidLoop tries s).2.nextPid := by
  induction tries generalizing s with
  | zero =>
    refine ⟨le_rfl, by exact hle.trans hpid.le, fun taken h => ?_⟩
    cases h
  | succ tries ih =>
    have hnext : max ((max s.nextPid 2 + 1) % 2 ^ 32) 2 = s.nextPid + 1 := by
      simp only [u32Max] at hpid
      omega
    have hcand : max s.nextPid 2 = s.nextPid := max_eq_left hmin
    rw [allocatePidLoop, hnext, hcand]
    split
    next htaken =>
      -- the candidate is in use, so it is below the free number
      have hne : s.nextPid ≠ pid := by
        rintro rfl
        have hnone : ({ s with nextPid := s.nextPid + 1 } : Lifecycle).slotByPid s.nextPid = none :=
          hfree
        simp [hnone] at htaken
      have hlater := ih (s := { s with nextPid := s.nextPid + 1 }) (by simp only; omega)
        (by simp only; omega) hfree
      dsimp only at hlater
      refine ⟨by omega, hlater.2.1, fun taken h => ?_⟩
      have := hlater.2.2 taken h
      omega
    · refine ⟨Nat.le_succ _, by simp only; omega, fun taken h => ?_⟩
      cases h
      exact ⟨le_rfl, Nat.lt_succ_self _⟩

theorem NumbersLeft.taken (h : NumbersLeft s) (hmin : 2 ≤ s.nextPid) :
    s.nextPid ≤ s.pidTaken.nextPid ∧ s.pidTaken.nextPid ≤ u32Max ∧
      ∀ pid, s.allocatePid.1 = some pid → s.nextPid ≤ pid ∧ pid < s.pidTaken.nextPid := by
  obtain ⟨pid, hle, hpid, hfree⟩ := h
  exact allocatePidLoop_le _ hmin hle hpid hfree

/-- The call does not bring the counter round, and registers a first process only in a
table that was never used; it may try to in any other. -/
def numbersLast : LifecycleCall α → Lifecycle → Prop
  | .registerInit launch, s =>
    launch.validate → s.slotByPid initPid = none → s.vacantIndex ≠ none →
      ∀ i, (s.slots i).occupied = false ∧ (s.slots i).generation = 1
  | .commitChild .., s | .cloneCurrentThread .., s => NumbersLeft s
  | _, _ => True

theorem numbersLeft_of_allocates {c : LifecycleCall α} (hc : numbersLast c s)
    (h : c.allocates) : NumbersLeft s := by
  cases c <;> first | exact hc | cases h

@[simp] theorem switchTo_nextPid (target : Option TaskIndex) (epoch : ℕ) :
    (s.switchTo target epoch).nextPid = s.nextPid := by
  cases target <;> rfl

/-- Where the number of a new task comes from. -/
theorem Effect.number {c : LifecycleCall α} {a : α} (h : Effect s c a t) (hc : numbersLast c s) :
    (newHandle c a = none ∧ t.nextPid = s.nextPid) ∨
    (∃ handle, newHandle c a = some handle ∧ handle.pid = initPid ∧ t.nextPid = s.nextPid ∧
      ∀ i, (s.slots i).occupied = false ∧ (s.slots i).generation = 1) ∨
    ∃ handle, newHandle c a = some handle ∧ s.allocatePid.1 = some handle.pid ∧
      t.nextPid = s.pidTaken.nextPid ∧ NumbersLeft s := by
  cases h with
  | registerInit hlau hnew hi => exact .inr (.inl ⟨_, rfl, rfl, rfl, hc hlau hnew (by simp [hi])⟩)
  | commitChild hpar hlau hp hzomb hpid => exact .inr (.inr ⟨_, rfl, hpid, rfl, hc⟩)
  | cloneCurrentThread hcur hlinux hpid => exact .inr (.inr ⟨_, rfl, hpid, rfl, hc⟩)
  | _ => exact .inl ⟨rfl, by first | rfl | exact switchTo_nextPid _ _⟩

/-! ### No handle twice -/

/-- The slot has been used. -/
def Touched (slot : ProcessSlot) : Prop := slot.occupied ∨ slot.generation ≠ 1

theorem Fate.touched {made : Option ProcessHandle} {old new : ProcessSlot} (h : Fate made old new)
    (hpos : 0 < old.generation) (hold : Touched old) : Touched new := by
  cases h with
  | kept h =>
    have hgen : new.generation = old.generation := congrArg (·.generation) h.handle
    rw [Touched, h.occupied, hgen]
    exact hold
  | freed hold hnew hgen =>
    right
    rw [hgen, retired]
    cases hnext : checkedAdd u32Max old.generation 1 with
    | none => decide
    | some =>
      have heq := (checkedAdd_eq_some.mp hnext).2
      simp only [Option.getD_some]
      omega
  | born hold hnew => exact .inl hnew

/-- The handles given out have distinct numbers, all behind the counter. -/
structure Distinct (r : Recorded) : Prop where
  numbered : Numbered r.table
  counter_ge : 2 ≤ r.table.nextPid
  counter_le : r.table.nextPid ≤ u32Max
  behind : ∀ handle ∈ r.issued, handle.pid = initPid ∨ 2 ≤ handle.pid ∧ handle.pid < r.table.nextPid
  nodup : (r.issued.map (·.pid)).Nodup
  live : ∀ i, (r.table.slots i).occupied → (r.table.slots i).handle ∈ r.issued
  touched : (∃ handle ∈ r.issued, handle.pid = initPid) → ∃ i, Touched (r.table.slots i)

theorem Distinct.new : Distinct .new where
  numbered := .new
  counter_ge := le_rfl
  counter_le := by decide
  behind _ h := by cases h
  nodup := nodup_nil
  live _ h := by cases h
  touched := by
    rintro ⟨_, h, _⟩
    cases h

variable {r : Recorded}

/-- A call that fails moves at most the counter. -/
theorem Distinct.counter (h : Distinct r) {n : ℕ} (hge : r.table.nextPid ≤ n)
    (hle : n ≤ u32Max) : Distinct { r with table := { r.table with nextPid := n } } where
  numbered := h.numbered.congr fun _ => ⟨rfl, rfl⟩
  counter_ge := h.counter_ge.trans hge
  counter_le := hle
  behind handle hmem := (h.behind handle hmem).imp_right fun ⟨htwo, hlt⟩ => ⟨htwo, hlt.trans_le hge⟩
  nodup := h.nodup
  live := h.live
  touched := h.touched

variable {handle : ProcessHandle}

/-- A new number is not among those given out. -/
theorem Effect.unused (h : Distinct r) {c : LifecycleCall α} {a : α}
    (heff : Effect r.table c a t) (hc : numbersLast c r.table)
    (hmade : newHandle c a = some handle) : handle.pid ∉ r.issued.map (·.pid) := by
  rw [mem_map]
  rintro ⟨old, hold, heq⟩
  rcases heff.number hc with ⟨hnone, _⟩ | ⟨_, hsome, hpid, _, hfresh⟩ | ⟨_, hsome, hpid, _, hleft⟩
  · simp [hmade] at hnone
  · -- the table was never used, so no first process has been registered
    obtain rfl := Option.some.inj (hmade.symm.trans hsome)
    obtain ⟨i, hi⟩ := h.touched ⟨old, hold, heq.trans hpid⟩
    simp [Touched, hfresh i] at hi
  obtain rfl := Option.some.inj (hmade.symm.trans hsome)
  have hge := (hleft.taken h.counter_ge).2.2 _ hpid
  have hcounter := h.counter_ge
  rcases h.behind old hold with hinit | ⟨_, hlt⟩
  · simp only [initPid] at hinit
    omega
  · omega

/-- The new task is in a slot. -/
theorem Effect.made {c : LifecycleCall α} {a : α} (h : Effect s c a t)
    (hmade : newHandle c a = some handle) : ∃ i, (t.slots i).occupied := by
  cases h with
  | @registerInit launch i => exact ⟨i, by simp [setSlot, installed]⟩
  | @commitChild parent pid launch p i => exact ⟨i, by simp [setSlot, installed]⟩
  | @cloneCurrentThread context stackPointer fsBase pid current child hcur hlinux hpid hch =>
    have hne : child ≠ current := by
      rintro rfl
      simpa [hcur.occupied] using vacantIndex_some hch
    exact ⟨child, by simp [cloned, withThread, publishEpoch, setSlot, threadSlot, hne]⟩
  | _ => cases hmade

theorem Distinct.effect (h : Distinct r) {c : LifecycleCall α} {a : α}
    (heff : Effect r.table c a t) (hc : numbersLast c r.table) :
    Distinct { table := t, issued := (newHandle c a).toList ++ r.issued } where
  numbered := h.numbered.effect heff
  counter_ge := by
    have hge := h.counter_ge
    rcases heff.number hc with ⟨_, hnext⟩ | ⟨_, _, _, hnext, _⟩ | ⟨_, _, _, hnext, hleft⟩
    · exact hnext ▸ hge
    · exact hnext ▸ hge
    · exact hnext ▸ hge.trans (hleft.taken hge).1
  counter_le := by
    have hle := h.counter_le
    rcases heff.number hc with ⟨_, hnext⟩ | ⟨_, _, _, hnext, _⟩ | ⟨_, _, _, hnext, hleft⟩
    · exact hnext ▸ hle
    · exact hnext ▸ hle
    · exact hnext ▸ (hleft.taken h.counter_ge).2.1
  behind handle hmem := by
    have hge := h.counter_ge
    rw [mem_append, Option.mem_toList] at hmem
    rcases heff.number hc with ⟨hnone, hnext⟩ | ⟨made, hmade, hpid, hnext, _⟩ |
      ⟨made, hmade, hpid, hnext, hleft⟩
    · rw [hnone] at hmem
      exact hnext ▸ h.behind handle (hmem.resolve_left (by simp))
    · rcases hmem with hnew | hold
      · rw [hmade, Option.some.injEq] at hnew
        exact .inl (hnew ▸ hpid)
      · exact hnext ▸ h.behind handle hold
    obtain ⟨hmono, _, hbetween⟩ := hleft.taken hge
    rw [hnext]
    rcases hmem with hnew | hold
    · rw [hmade, Option.some.injEq] at hnew
      obtain ⟨hlow, hhigh⟩ := hbetween _ hpid
      exact .inr ⟨hnew ▸ hge.trans hlow, hnew ▸ hhigh⟩
    · exact (h.behind handle hold).imp_right fun ⟨htwo, hlt⟩ => ⟨htwo, hlt.trans_le hmono⟩
  nodup := by
    cases hmade : newHandle c a with
    | none => exact h.nodup
    | some =>
      simp only [Option.toList_some, singleton_append, map_cons, nodup_cons]
      exact ⟨heff.unused h hc hmade, h.nodup⟩
  live i hi := by
    rw [mem_append, Option.mem_toList]
    cases heff.fate i with
    | kept hkept =>
      refine .inr ?_
      rw [hkept.handle]
      exact h.live i (hkept.occupied ▸ hi)
    | freed hold hnew => simp [hnew] at hi
    | born hold hnew hmade => exact .inl hmade
  touched := by
    rintro ⟨handle, hmem, hpid⟩
    rw [mem_append, Option.mem_toList] at hmem
    rcases hmem with hnew | hold
    · obtain ⟨i, hi⟩ := heff.made hnew
      exact ⟨i, .inl hi⟩
    · obtain ⟨i, hi⟩ := h.touched ⟨handle, hold, hpid⟩
      exact ⟨i, (heff.fate i).touched (h.numbered.generation_pos i) hi⟩

theorem Distinct.exec (h : Distinct r) (c : LifecycleCall α)
    (hc : numbersLast c r.table) : Distinct (r.exec c) := by
  have hout := exec_outcome c r.table
  unfold Recorded.exec
  cases hr : (c.exec r.table).1 with
  | ok =>
    rw [hr] at hout
    exact h.effect hout hc
  | error =>
    rw [hr] at hout
    rcases hout with heq | ⟨hallocates, heq⟩
    · rw [heq]
      exact h
    · obtain ⟨hge, hle, _⟩ := (numbersLeft_of_allocates hc hallocates).taken h.counter_ge
      obtain ⟨n, hn⟩ := pidTaken_eq r.table
      rw [heq]
      rw [hn] at hge hle ⊢
      exact h.counter hge hle

theorem Recorded.Runs.distinct (h : Recorded.Runs numbersLast .new r) : Distinct r := by
  induction h with
  | refl => exact .new
  | tail _ hstep ih =>
    obtain ⟨_, c, hc, rfl⟩ := hstep
    exact ih.exec c hc

/-- A handle that has been given out and is not in the table does not come back. -/
theorem Distinct.stays_gone (h : Distinct r)
    (hiss : handle ∈ r.issued) (hgone : r.table.slotByHandle handle = none)
    (c : LifecycleCall α) (hc : numbersLast c r.table) :
    handle ∈ (r.exec c).issued ∧ (r.exec c).table.slotByHandle handle = none := by
  have hkeep : handle ∈ (r.exec c).issued := by
    unfold Recorded.exec
    split
    · exact mem_append_right _ hiss
    · exact hiss
  refine ⟨hkeep, position_none.mpr fun i => ?_⟩
  by_contra hi
  obtain ⟨hocc, hhd⟩ := handle_of_holds (Bool.not_eq_false _ ▸ hi)
  have hold : (r.table.slots i).holds handle = false := position_none.mp hgone i
  have hnot (hocc' : (r.table.slots i).occupied)
      (hhd' : (r.table.slots i).handle = handle) : False := by
    rw [← hhd'] at hold
    simp [ProcessSlot.holds, hocc', ProcessSlot.handle] at hold
  cases hr : (c.exec r.table).1 with
  | error =>
    obtain ⟨hslots, _⟩ := unchanged_of_error hr
    have hslot : (r.exec c).table.slots i = r.table.slots i := congrFun hslots i
    rw [hslot] at hocc hhd
    exact hnot hocc hhd
  | ok a =>
    have heff := effect_of_ok hr
    cases heff.fate i with
    | kept hkept => exact hnot (hkept.occupied ▸ hocc) (hkept.handle ▸ hhd)
    | freed _ hnew =>
      have hnew : ((r.exec c).table.slots i).occupied = false := hnew
      simp [hnew] at hocc
    | born _ _ hmade =>
      have hmade : newHandle c a = some handle := hhd ▸ hmade
      exact heff.unused h hc hmade (mem_map_of_mem hiss)

/-- In every run in which the counter of process numbers does not wrap and the first
process is registered once, no handle is given out twice, and a handle whose task is
gone never names a task again. -/
theorem handles_not_reissued {r : Recorded} (h : Recorded.Runs numbersLast .new r) :
    r.issued.Nodup ∧ ∀ handle ∈ r.issued, r.table.slotByHandle handle = none →
      ∀ r', Recorded.Runs numbersLast r r' → r'.table.slotByHandle handle = none := by
  have hdist := h.distinct
  refine ⟨hdist.nodup.of_map _, fun handle hiss hgone r' hr' => ?_⟩
  have hlater : Distinct r' ∧ handle ∈ r'.issued ∧ r'.table.slotByHandle handle = none := by
    induction hr' with
    | refl => exact ⟨hdist, hiss, hgone⟩
    | tail _ hstep ih =>
      obtain ⟨_, c, hc, rfl⟩ := hstep
      obtain ⟨hdist', hiss', hgone'⟩ := ih
      exact ⟨hdist'.exec c hc, hdist'.stays_gone hiss' hgone' c hc⟩
  exact hlater.2.2

theorem handles_not_reissued_two :
    let r :=
      (Recorded.new.exec (.registerInit sampleLaunch)).exec (.commitChild initPid sampleLaunch)
    r.issued = [{ pid := 2, generation := 2 }, { pid := initPid, generation := 1 }] ∧
      r.issued.Nodup := by
  refine ⟨by decide +kernel, (handles_not_reissued ?_).1⟩
  refine .tail (.single ⟨_, .registerInit sampleLaunch, fun _ _ _ _ => ⟨rfl, rfl⟩, rfl⟩) ?_
  refine ⟨_, .commitChild initPid sampleLaunch, ⟨2, ?_, ?_, ?_⟩, rfl⟩ <;> decide +kernel

end ArachKernel.Process
