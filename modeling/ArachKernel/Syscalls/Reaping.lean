import ArachKernel.Process.Sleepers
import ArachKernel.Syscalls.Moving

/-!
The page tables of an image are released only when no live task is left in it and another
root is loaded, in every run in which no service ends with `schedule_exit` while it has
threads. `exit` checks for threads; the ways in which a signal ends a task do not, and then
the page tables are released under the threads that are left. The first process may end in
any way, as its image is never released.
-/

namespace ArachKernel.Syscalls

open Process Process.Lifecycle Table ProcessRuntime ServiceImageRegistry

/-! ### Releases -/

/-- The root of the page tables that a call is about to release. -/
def releasing {β : Type} : MachineCall β → Machine → Option Word
  | .discardExecImage image _, m =>
    if m.runtime.holds image then some (m.runtime.rootOf image) else none
  | .reapAfterRootSwitch _, m | .enterKernelIdleAndReap _, m =>
    m.runtime.pendingReap.bind fun image =>
      if m.runtime.holds image then some (m.runtime.rootOf image) else none
  | .installExecImage (.discarded root _), m =>
    if m.runtime.pendingReap.isNone ∧ m.runtime.freeSpace.isSome then some root else none
  | _, _ => none

/-- A reap that is put off or carried out has failed, and the kernel halts. -/
def reapFails {β : Type} : MachineCall β → β → Bool
  | .deferReap _, .error _ | .reapAfterRootSwitch _, .error _ | .enterKernelIdleAndReap _,
      .error _ =>
    true
  | _, _ => false

/-- Nobody lives where a call releases the page tables, the loaded root is another one, and
a deferred reap does not fail. -/
def SafeRelease (β : Type) (c : MachineCall β) (m : Machine) : Prop :=
  (∀ root, releasing c m = some root →
    (∀ i, Live (m.table.slots i) → (m.table.slots i).launch.addressSpaceRoot ≠ root) ∧
      (exec _ c m).2.activeRoot ≠ root) ∧
  reapFails c (exec _ c m).1 = false

/-- The frame allocator gives out frames that are not in use, and takes back those that it
has given out; no release ends with frames kept (`sharedKept`). -/
def allocatorSound (β : Type) : MachineCall β → Machine → Prop
  | .installExecImage (.discarded root frames), m => Unused m root ∧ frames = .freed
  | .installExecImage (.installed root _ _ _), m => Unused m root
  | .discardExecImage _ frames, _ | .reapAfterRootSwitch frames, _
  | .enterKernelIdleAndReap frames, _ => frames = .freed
  | _, _ => True

/-- No leader of a service ends alone while it has threads. When nothing is launched, as under
a first process of Linux, this asks for nothing. -/
def leadersEndWhole (β : Type) : MachineCall β → Machine → Prop
  | .lifecycle c, m => (∃ i k, RunningAt m.table i ∧
      m.registry.handles k = some (m.table.slots i).handle) → endsWhole c m.table
  | _, _ => True

/-- What the calls of a run have to find. -/
def orderly (β : Type) (c : MachineCall β) (m : Machine) : Prop :=
  allocatorSound β c m ∧ leadersEndWhole β c m

variable {init : ProcessImageHandle} {m : Machine} {α : Type}

/-- Between system calls no image waits to be reaped. -/
structure AtRest (init : ProcessImageHandle) (m : Machine) :
    Prop extends Housed init .nothing m where
  pending : m.runtime.pendingReap = none

/-- The program keeps its calls safe, when the run is orderly. -/
abbrev Secures (p : Prog MachineCall α) (m : Machine) (Q : α → Machine → Prop) : Prop :=
  p.Secures exec orderly SafeRelease m Q

variable {β : Type} {c : MachineCall β}

theorem safe_of_not_releasing (hc : releasing c m = none)
    (hfails : reapFails c (exec _ c m).1 = false) : SafeRelease β c m :=
  ⟨fun root hroot => by simp [hc] at hroot, hfails⟩

/-! ### Ordinary calls -/

theorem housed_lifecycle (h : Housed init .nothing m) {c : LifecycleCall α} (hc : ordinary c) :
    Housed init .nothing { m with table := (c.exec m.table).2 } :=
  h.step (tenants_exec c hc) (fun _ _ _ => id) (h.numbered.exec c) nofun

theorem ordinary_keeps (hc : Ordinary β c) {J : Machine → Prop}
    (hJ : J m) (hstep : ∀ {α : Type} (c : LifecycleCall α), ordinary c →
      J { m with table := (c.exec m.table).2 }) :
    SafeRelease β c m ∧ J (exec _ c m).2 := by
  cases hc with
  | read => exact ⟨safe_of_not_releasing rfl rfl, hJ⟩
  | lifecycle hc => exact ⟨safe_of_not_releasing rfl rfl, hstep _ hc⟩

theorem secures_ordinary {p : Prog MachineCall α} (hp : p.Uses Ordinary)
    (h : Housed init .nothing m) : Secures p m fun _ t => Housed init .nothing t :=
  .of_uses hp (fun hc hs _ => ordinary_keeps hc hs fun _ hc => housed_lifecycle hs hc) h

theorem secures_ordinary_atRest {p : Prog MachineCall α} (hp : p.Uses Ordinary)
    (h : AtRest init m) : Secures p m fun _ t => AtRest init t :=
  .of_uses hp (fun hc hs _ => ordinary_keeps hc hs fun _ hc =>
    ⟨housed_lifecycle hs.toHoused hc, hs.pending⟩) h

variable (saved : SavedUserContext)

theorem uses_resumeCurrent : (resumeCurrent saved).Uses Ordinary := by
  refine .bind (Prog.uses_perform.mpr (.lifecycle rfl)) fun answer => ?_
  cases answer with
  | ok | error => exact Prog.uses_pure _

/-- A request that does not halt the kernel leaves nothing undone. -/
def Settles (init : ProcessImageHandle) (decision : Option ScheduleDecision) (m : Machine) : Prop :=
  decision ≠ none → Housed init .nothing m

variable {p : Request}

theorem secures_request (hp : p.Uses Ordinary) (h : Housed init .nothing m) :
    Secures p m (Settles init) :=
  (secures_ordinary hp h).mono fun _ _ ht _ => ht

theorem secures_halt : Secures halt m (Settles init) := fun h => absurd rfl h

theorem secures_resumeCurrent (h : Housed init .nothing m) :
    Secures (resumeCurrent saved) m (Settles init) :=
  secures_request (uses_resumeCurrent saved) h

variable {Q : α → Machine → Prop}

/-- A read tells something about the table. -/
theorem secures_read {view : Lifecycle → β} {next : β → Prog MachineCall α}
    (h : Secures (next (view m.table)) m Q) : Secures (.perform (.read view) >>= next) m Q :=
  .call_bind (fun _ => safe_of_not_releasing rfl rfl) fun _ => h

theorem secures_lifecycle {c : LifecycleCall β} {next : _ → Prog MachineCall α}
    (h : leadersEndWhole _ (.lifecycle c) m →
      Secures (next (c.exec m.table).1) { m with table := (c.exec m.table).2 } Q) :
    Secures (.perform (.lifecycle c) >>= next) m Q :=
  .call_bind (fun _ => safe_of_not_releasing rfl rfl) fun hc => h hc.2

variable {image : ProcessImageHandle} {caller : ProcessHandle}

theorem secures_exchangeRunningImage {next : _ → Prog MachineCall α}
    (h : ∀ answer registry, m.registry.exchangeRunningImage caller image m.table =
      (answer, registry) → Secures (next answer) { m with registry } Q) :
    Secures (.perform (.exchangeRunningImage caller image) >>= next) m Q :=
  .call_bind (fun _ => safe_of_not_releasing rfl rfl) fun _ => h _ _ rfl

theorem uses_scheduleLinuxCloneReturn (saved failed : SavedUserContext)
    (childStack childFsBase : Word) (published : Bool) :
    (scheduleLinuxCloneReturn saved failed childStack childFsBase published).Uses Ordinary := by
  refine .bind (Prog.uses_perform.mpr (.lifecycle rfl)) fun answer => ?_
  cases answer with
  | error => exact uses_resumeCurrent failed
  | ok =>
    dsimp only
    split
    · exact Prog.uses_pure _
    · refine .bind (Prog.uses_perform.mpr (.lifecycle rfl)) fun discarded => ?_
      cases discarded with
      | ok => exact uses_resumeCurrent failed
      | error => exact Prog.uses_pure _

/-! ### Ends of processes -/

/-- The same tasks, and the same one running. -/
structure SameRunning (s t : Lifecycle) : Prop where
  kept : ∀ j, Kept (s.slots j) (t.slots j)
  current : t.currentExecution = s.currentExecution

theorem SameRunning.refl (s : Lifecycle) : SameRunning s s := ⟨fun _ => .refl _, rfl⟩

variable {s t : Lifecycle}

theorem sameRunning_wake (owner : ProcessHandle) :
    SameRunning s ((LifecycleCall.markRunnable owner).exec s).2 := by
  refine exec_induction _ (SameRunning.refl s) ⟨fun j => ?_, pidTaken_currentExecution s⟩
    fun a t heff => ?_
  · rw [pidTaken_slots]
    exact .refl _
  · obtain ⟨i, _, rfl⟩ := heff.woken rfl
    rw [setPhase]
    exact ⟨setSlot_cases {} fun _ _ => .refl _, rfl⟩

theorem SameRunning.trans {u : Lifecycle} (h : SameRunning s t) (h' : SameRunning t u) :
    SameRunning s u :=
  ⟨fun j => (h.kept j).trans (h'.kept j), h'.current.trans h.current⟩

theorem secures_wakeReleased (released : List ProcessHandle) (h : AtRest init m) :
    Secures (wakeReleased released) m fun _ t => AtRest init t ∧ SameRunning m.table t.table := by
  let wake (β : Type) (c : MachineCall β) : Prop :=
    ∃ owner, (⟨β, c⟩ : Σ β, MachineCall β) = ⟨_, .lifecycle (.markRunnable owner)⟩
  have huses : (wakeReleased released).Uses wake :=
    Prog.Uses.each (fun owner => Prog.Uses.bind (Prog.uses_perform.mpr ⟨owner, rfl⟩) fun _ =>
      Prog.uses_pure _) released
  refine .of_uses (J := fun t => AtRest init t ∧ SameRunning m.table t.table) huses
    (fun {β c s} hc hs _ => ?_) ⟨h, .refl _⟩
  obtain ⟨owner, heq⟩ := hc
  cases heq
  refine ⟨safe_of_not_releasing rfl rfl, ⟨housed_lifecycle hs.1.toHoused rfl, hs.1.pending⟩, ?_⟩
  exact hs.2.trans (sameRunning_wake owner)

variable {f : Flight}

theorem secures_deferReap (decision : ScheduleDecision)
    (h : Housed init f m) (hf : f = .taken image) (hpend : m.runtime.pendingReap = none) :
    Secures (do
      match ← .perform (.deferReap image) with
      | .ok () => pure (some decision)
      | .error _ => halt) m (Settles init) := by
  have hdefer :
      m.runtime.deferReap image = (.ok (), { m.runtime with pendingReap := some image }) := by
    rw [deferReap, hpend]
    rfl
  have hexec : exec _ (.deferReap image) m =
      (.ok (), { m with runtime := { m.runtime with pendingReap := some image } }) := by
    rw [exec, hdefer]
  refine .call_bind (fun _ => safe_of_not_releasing rfl ?_) fun _ => ?_
  · rw [hexec]
    rfl
  · rw [hexec]
    exact fun _ => h.defer hf

/-- A process that is not registered has no image to give up. -/
theorem secures_retireUnregistered {ended : ProcessHandle} (decision : ScheduleDecision)
    (h : Housed init .nothing m) (hnone : ∀ c, m.registry.handles c ≠ some ended) :
    Secures (retireService ended decision) m (Settles init) := by
  refine .call_bind (fun _ => safe_of_not_releasing rfl rfl) fun _ => ?_
  rw [exec]
  cases htake : m.registry.takeExited ended m.table with
  | mk answer registry =>
  cases answer with
  | error => exact secures_halt
  | ok =>
    obtain ⟨i, hi, ⟨rfl, rfl, _⟩ | ⟨c, image, rfl, rfl, hhd, _⟩⟩ := takeExited_ok htake
    · exact fun _ => h
    · exact absurd hhd (hnone c)

/-- The image of the process that has ended goes to the reaper. -/
theorem secures_retireService {ended : ProcessHandle} (decision : ScheduleDecision)
    (h : Housed init f m) (hf : f = .leaving ended) (hpend : m.runtime.pendingReap = none) :
    Secures (retireService ended decision) m (Settles init) := by
  refine .call_bind (fun _ => safe_of_not_releasing rfl rfl) fun _ => ?_
  cases htake : m.registry.takeExited ended m.table with
  | mk answer registry =>
  have hexec : exec _ (.takeExitedService ended) m = (answer, { m with registry }) := by
    rw [exec, htake]
  rw [hexec]
  cases answer with
  | error => exact secures_halt
  | ok =>
    obtain ⟨i, hi, ⟨rfl, rfl, hnone⟩ | ⟨c, image, rfl, rfl, hhd, himg⟩⟩ :=
      takeExited_ok htake
    · refine fun _ => h.left hf fun c hc => ?_
      obtain ⟨_, hreg⟩ := h.registered_of_holds hi hc
      exact hnone c hreg.serviceClass hc
    · exact secures_deferReap decision (h.take hf hhd himg) rfl hpend

theorem currentHandle_eq_some {handle : ProcessHandle}
    (h : currentHandle s = some handle) : s.currentExecution = handle := by
  unfold currentHandle at h
  split at h
  · exact Option.some.inj h
  · cases h

variable {i : TaskIndex}

theorem leads_of_currentIsThreadGroupLeader (hnum : Numbered s) (hi : RunningAt s i)
    (h : currentIsThreadGroupLeader s) : (s.slots i).pid = (s.slots i).threadGroup := by
  unfold currentIsThreadGroupLeader at h
  cases hcur : currentHandle s with
  | none => simp [hcur] at h
  | some handle =>
    rw [hcur, Option.bind_some] at h
    cases hsnap : snapshotExact handle s with
    | none => simp [hsnap] at h
    | some =>
      rw [hsnap, Option.any_some, beq_iff_eq] at h
      obtain ⟨j, hj, rfl⟩ := snapshotExact_eq_some hsnap
      obtain ⟨hocc, hhd⟩ := handle_of_holds hj
      have heq : (s.slots j).handle = (s.slots i).handle := by
        rw [hhd, ← currentHandle_eq_some hcur, hi.current]
      obtain rfl := hnum.pid_inj j i hocc hi.occupied (congrArg (·.pid) heq)
      exact h

theorem secures_scheduleExitReturn (exitCode : ℤ) (released : List ProcessHandle)
    (h : AtRest init m) : Secures (scheduleExitReturn exitCode released) m (Settles init) := by
  refine secures_read ?_
  cases hcur : currentHandle m.table with
  | none => exact secures_halt
  | some exiting =>
  refine .bind ((secures_wakeReleased released h).mono fun _ t ht => ?_)
  obtain ⟨hrest, hsame⟩ := ht
  refine secures_read ?_
  split
  next hlead =>
    refine secures_lifecycle fun hc => ?_
    cases hans : ((LifecycleCall.scheduleExit exitCode).exec t.table).1 with
    | error => exact secures_halt
    | ok decision =>
      obtain ⟨i, hi, hends⟩ := (effect_of_ok hans).leaderExit rfl
      obtain ⟨htenants, hend⟩ :=
        hends (leads_of_currentIsThreadGroupLeader hrest.numbered hi hlead)
      have hexiting : exiting = (t.table.slots i).handle := by
        rw [← hi.current, hsame.current, currentHandle_eq_some hcur]
      rw [hexiting]
      by_cases hreg : ∃ k, t.registry.handles k = some (t.table.slots i).handle
      · obtain ⟨k, hhd⟩ := hreg
        have hhoused := hrest.step htenants (fun _ _ _ => id) (hrest.numbered.exec _) fun j hj => by
          cases hj
          exact hend (hc ⟨i, k, hi, hhd⟩)
        exact secures_retireService decision hhoused rfl hrest.pending
      · have hnone := not_exists.mp hreg
        have hhoused := hrest.step htenants (fun c j hhd hj => by
          cases hj
          exact absurd hhd (hnone c))
            (hrest.numbered.exec _) fun _ (hj : none = some _) => nomatch hj
        exact secures_retireUnregistered decision hhoused hnone
  · refine secures_request
      (Prog.Uses.bind (Prog.uses_perform.mpr (.lifecycle rfl)) fun answer => ?_) hrest.toHoused
    cases answer with
    | ok | error => exact Prog.uses_pure _

theorem currentThreadGroupHandles_ok {leader : ProcessHandle}
    {handles : List ProcessHandle} (h : currentThreadGroupHandles s = .ok (leader, handles)) :
    ∃ i j, (s.slots i).holds s.currentExecution ∧
      (s.slots j).leads (s.slots i).threadGroup ∧ (s.slots j).handle = leader := by
  unfold currentThreadGroupHandles at h
  cases hcur : currentUserHandle s with
  | error => simp [hcur, bind, Except.bind] at h
  | ok =>
    rw [hcur] at h
    dsimp only [bind, Except.bind] at h
    split at h
    next i hi =>
      split at h
      next j hj =>
        cases h
        refine ⟨i, j, ?_, position_some hj, rfl⟩
        rw [currentUserHandle_ok hcur]
        exact slotByHandle_holds hi
      · cases h
    · cases h

/-- The leader of the running task is the same. -/
theorem SameRunning.leader (h : SameRunning s t) (hnum : Numbered t) {j k l : TaskIndex}
    (hi : (s.slots i).holds s.currentExecution) (hj : (s.slots j).leads (s.slots i).threadGroup)
    (hk : RunningAt t k) (hl : (t.slots l).leads (t.slots k).threadGroup) :
    (s.slots j).handle = (t.slots l).handle := by
  obtain ⟨hocc, hhd⟩ := handle_of_holds hi
  have hki : (t.slots k).handle = (t.slots i).handle := by
    rw [← hk.current, h.current, (h.kept i).handle, hhd]
  obtain rfl := hnum.pid_inj k i hk.occupied (by rw [(h.kept i).occupied, hocc])
    (congrArg (·.pid) hki)
  obtain ⟨hjoccupied, hjpid, _⟩ := leads_iff.mp hj
  obtain ⟨hloccupied, hlpid, _⟩ := leads_iff.mp hl
  have hpid : (t.slots l).pid = (t.slots j).pid := by
    rw [hlpid, (h.kept k).threadGroup, ← hjpid]
    exact (congrArg (·.pid) (h.kept j).handle).symm
  obtain rfl := hnum.pid_inj l j hloccupied (by rw [(h.kept j).occupied, hjoccupied]) hpid
  exact (h.kept l).handle.symm

theorem secures_scheduleLinuxExitGroupReturn (exitCode : ℤ) (released : List ProcessHandle)
    (h : AtRest init m) :
    Secures (scheduleLinuxExitGroupReturn exitCode released) m (Settles init) := by
  refine secures_read ?_
  cases hgrp : currentThreadGroupHandles m.table with
  | error => exact secures_halt
  | ok group =>
  obtain ⟨leader, handles⟩ := group
  obtain ⟨i, j, hi, hj, rfl⟩ := currentThreadGroupHandles_ok hgrp
  refine .bind ((secures_wakeReleased released h).mono fun _ t ht => ?_)
  obtain ⟨hrest, hsame⟩ := ht
  refine secures_lifecycle fun _ => ?_
  cases hans : ((LifecycleCall.scheduleExitGroup exitCode).exec t.table).1 with
  | error => exact secures_halt
  | ok decision =>
    obtain ⟨k, l, hk, hl, htenants, hend⟩ := (effect_of_ok hans).groupEnd rfl hrest.numbered
    have hhoused := hrest.step htenants (fun _ _ _ => id) (hrest.numbered.exec _) fun j hj => by
      cases hj
      exact hend
    -- the leader that was read is the one that has ended
    have hlead := hsame.leader hrest.numbered hi hj hk hl
    rw [hlead]
    exact secures_retireService decision hhoused rfl hrest.pending

theorem secures_scheduleLinuxExitReturn (exitCode : ℤ)
    (released : List ProcessHandle) (h : AtRest init m) :
    Secures (scheduleLinuxExitReturn saved exitCode released) m (Settles init) := by
  refine secures_read (secures_read ?_)
  split
  · exact secures_resumeCurrent saved h.toHoused
  · exact secures_scheduleExitReturn exitCode released h

theorem secures_resumeLinuxWithPendingSignal (delivery : Delivery)
    (released : List ProcessHandle) (h : AtRest init m) :
    Secures (resumeLinuxWithPendingSignal saved delivery released) m (Settles init) := by
  refine secures_read (secures_read ?_)
  cases currentHandle m.table with
  | none => exact secures_halt
  | some =>
  cases currentThreadGroupHandle m.table with
  | none => exact secures_halt
  | some =>
  cases delivery with
  | notPending | nothing => exact secures_resumeCurrent saved h.toHoused
  | noFrame | failed | terminate => exact secures_scheduleExitReturn _ released h
  | handler context copied =>
    cases copied with
    | true => exact secures_resumeCurrent context h.toHoused
    | false => exact secures_scheduleExitReturn _ released h

theorem secures_scheduleLinuxSigreturn (restored : Option SavedUserContext) (delivery : Delivery)
    (released : List ProcessHandle) (h : AtRest init m) :
    Secures (scheduleLinuxSigreturn restored delivery released) m (Settles init) := by
  refine secures_read ?_
  cases currentHandle m.table with
  | none => exact secures_halt
  | some =>
  cases restored with
  | none => exact secures_scheduleExitReturn _ released h
  | some saved => exact secures_resumeLinuxWithPendingSignal saved delivery released h

/-! ### New processes and new images -/

theorem secures_spawnMeasuredService (serviceClass : ℕ) (h : Housed init .nothing m) :
    Secures (spawnMeasuredService saved serviceClass) m (Settles init) := by
  refine secures_read ?_
  refine .call_bind (fun _ => safe_of_not_releasing rfl rfl) fun _ => ?_
  refine secures_resumeCurrent saved ?_
  rcases launch_cases (currentPid m.table) serviceClass m.registry m.table with
    ⟨error, heq⟩ | ⟨c, launch, image, hlaunched, hlaunches, himg, hcommit⟩
  · rw [exec, heq]
    exact h
  rcases hcommit with ⟨error, hans, heq⟩ | ⟨handle, hans, heq⟩
  · rw [exec, heq]
    exact h.step (.of_slots (unchanged_of_error hans).1) (fun _ _ _ => id) (h.numbered.exec _) nofun
  · rw [exec, heq]
    obtain ⟨i, hfree, hnew, hleads, hph, hlau, hoths⟩ :=
      (effect_of_ok hans).committed rfl
    obtain rfl := Option.some.inj hnew
    exact h.launch (h.numbered.exec _) hlaunched hlaunches himg hfree hleads hph hlau hoths

/-- An image without a task is released. -/
theorem secures_discardImage (failed : SavedUserContext) (frames : FrameRelease)
    (h : Housed init f m) (hf : f = .taken image) (hact : m.activeRoot ≠ m.runtime.rootOf image) :
    Secures (discardImage failed image frames) m (Settles init) := by
  have hfreed (hc : orderly _ (.discardExecImage image frames) m) : frames = .freed := hc.1
  obtain ⟨r, hdiscard, hhoused⟩ := h.discard hf hact
  have hexec : exec _ (.discardExecImage image .freed) m = (.ok (), { m with runtime := r }) := by
    rw [exec, hdiscard]
  refine .call_bind (fun hc => ?_) fun hc => ?_
  · obtain rfl := hfreed hc
    refine ⟨fun root hroot => ?_, rfl⟩
    subst hf
    simp only [releasing] at hroot
    rw [if_pos (h.owned.holds .held image rfl)] at hroot
    obtain rfl := Option.some.inj hroot
    refine ⟨h.vacant (o := .held) rfl (.inr rfl) (by simp), ?_⟩
    exact hact
  · obtain rfl := hfreed hc
    rw [hexec]
    exact secures_resumeCurrent failed hhoused

theorem preflight_ok {current : ProcessHandle}
    (h : preflightCurrentImageReplacement s = .ok current) :
    ∃ i, RunningAt s i ∧ (s.slots i).handle = current ∧
      (s.slots i).pid = (s.slots i).threadGroup ∧ s.groupCount (s.slots i).threadGroup = 1 := by
  unfold preflightCurrentImageReplacement at h
  split at h
  · cases h
  · cases h
  · cases h
  next i _ hcur hi _ =>
  cases h
  obtain ⟨hrun, hleads, hcnt⟩ := currentReplacementIndex_ok hi
  exact ⟨i, hrun, by rw [← hrun.current, currentUserHandle_ok hcur], hleads, hcnt⟩

/-- A process without threads is the only one that its leader leads. -/
theorem alone_of_count (hnum : Numbered s)
    (hi : RunningAt s i) (hleads : (s.slots i).pid = (s.slots i).threadGroup)
    (hcnt : s.groupCount (s.slots i).threadGroup = 1) : Housed.Alone s (s.slots i).handle := by
  intro k j hk hj hjleads
  obtain ⟨hocc, hpid, _⟩ := leads_iff.mp hjleads
  obtain rfl := hnum.pid_inj j i hocc hi.occupied (congrArg (·.pid) hj)
  have hgrp : (s.slots k).threadGroup = (s.slots j).threadGroup := hpid.symm.trans hleads
  rw [alone_of_groupCount hcnt (inGroup_iff.mpr ⟨hi.occupied, rfl⟩) k
    (inGroup_iff.mpr ⟨hk.1, hgrp⟩)]

variable {installation : Installation}

/-- An image that fails to be installed is released before anybody lives in it. -/
theorem safe_installExecImage (h : Housed init .nothing m)
    (hsound : allocatorSound _ (.installExecImage installation) m) :
    SafeRelease _ (.installExecImage installation) m := by
  cases installation with
  | discarded root frames =>
    refine ⟨fun released hreld => ?_, rfl⟩
    simp only [releasing] at hreld
    split at hreld
    · obtain rfl := Option.some.inj hreld
      exact ⟨h.unused hsound.1, hsound.1.active h.toDistinct⟩
    · cases hreld
  | _ => exact safe_of_not_releasing rfl rfl

theorem clean_of_allocatorSound (h : Distinct m)
    (hsound : allocatorSound _ (.installExecImage installation) m) :
    installation.clean m.activeRoot := by
  cases installation with
  | discarded => exact ⟨hsound.1.active h, hsound.2⟩
  | _ => trivial

/-- The old image of the process goes to the reaper once the table has the new root. -/
theorem secures_replaceCurrentImage {c : ServiceIndex} {previous : ProcessImageHandle}
    (replacement : RuntimeReplacement) (failed : SavedUserContext) (frames : FrameRelease)
    (h : Housed init (.moving caller previous) m) (hpend : m.runtime.pendingReap = none)
    (hhd : m.registry.handles c = some caller)
    (himg : m.registry.images c = some replacement.process)
    (hroot : m.runtime.rootOf replacement.process = replacement.addressSpaceRoot)
    (hact : m.activeRoot ≠ replacement.addressSpaceRoot) (hi : RunningAt m.table i)
    (hcaller : (m.table.slots i).handle = caller) (halone : Housed.Alone m.table caller) :
    Secures (do
      match ← .perform (.lifecycle (.replaceCurrentImage replacement.addressSpaceRoot
        replacement.entryPoint replacement.userStackPointer replacement.imageMeasurementRoot)) with
      | .ok scheduled =>
        match ← .perform (.deferReap previous) with
        | .ok () => pure (some (.user scheduled))
        | .error _ => halt
      | .error _ =>
        match ← .perform (.exchangeRunningImage caller previous) with
        | .ok rejected => discardImage failed rejected frames
        | .error _ => halt) m (Settles init) := by
  refine secures_lifecycle fun _ => ?_
  set call := LifecycleCall.replaceCurrentImage replacement.addressSpaceRoot replacement.entryPoint
    replacement.userStackPointer replacement.imageMeasurementRoot with hcall
  cases hans : (call.exec m.table).1 with
  | ok scheduled =>
    obtain ⟨j, hj, hkept, hph, hnew, hclass, hoths⟩ :=
      (effect_of_ok hans).reimaged rfl
    have hhandles : (m.table.slots j).handle = (m.table.slots i).handle := by
      rw [← hj.current, hi.current]
    obtain rfl := h.numbered.pid_inj j i hj.occupied hi.occupied (congrArg (·.pid) hhandles)
    have hholds : (m.table.slots j).holds caller := by
      rw [← hcaller]
      simp [ProcessSlot.holds, ProcessSlot.handle, hj.occupied]
    have hhoused := h.reimage hhd rfl (h.numbered.exec call) himg hholds hkept
      (by simp [hph]) (hnew.trans hroot.symm) hclass hoths
    exact secures_deferReap (.user scheduled) hhoused rfl hpend
  | error e =>
    have htab : (call.exec m.table).2 = m.table := by
      have hout := exec_outcome call m.table
      rw [hans] at hout
      rcases hout with heq | ⟨hallocates, _⟩
      · exact heq
      · cases hallocates
    rw [htab]
    refine secures_exchangeRunningImage fun answer registry hexch => ?_
    cases answer with
    | error => exact secures_halt
    | ok =>
      obtain ⟨c', hhd', himg', rfl⟩ := exchangeRunningImage_ok hexch
      obtain rfl := h.class_unique hhd hhd'
      obtain rfl := Option.some.inj (himg'.symm.trans himg)
      refine secures_discardImage failed frames (h.exchangeBack hhd rfl himg halone) rfl ?_
      rwa [← hroot] at hact

theorem secures_scheduleLinuxExecveReturn (failed : SavedUserContext) (prepared : Bool)
    (installation : Installation) (frames : FrameRelease) (h : AtRest init m) :
    Secures (scheduleLinuxExecveReturn failed prepared installation frames) m (Settles init) := by
  refine secures_read ?_
  cases hpreflight : preflightCurrentImageReplacement m.table with
  | error => exact secures_resumeCurrent failed h.toHoused
  | ok current =>
  obtain ⟨i, hi, hcall, hleads, hcnt⟩ := preflight_ok hpreflight
  have halone := alone_of_count h.numbered hi hleads hcnt
  rw [hcall] at halone
  cases prepared with
  | false => exact secures_resumeCurrent failed h.toHoused
  | true =>
  refine .call_bind (fun hc => safe_installExecImage h.toHoused hc.1) fun hc => ?_
  simp only [exec]
  rcases installExecImage_cases m.runtime h.pending (clean_of_allocatorSound h.toDistinct hc.1) with
    ⟨e, heq⟩ | ⟨k, space, hsp, hfree, heq⟩ | ⟨k, root, entry, stack, measurement, hsp, rfl, heq⟩
  · rw [heq]
    exact secures_resumeCurrent failed h.toHoused
  · rw [heq]
    exact secures_resumeCurrent failed (h.toHoused.abort (freeSpace_free hsp) hfree)
  rw [heq]
  have hunused : Unused m root := hc.1
  have hinstalled := h.toHoused.install (freeSpace_free hsp) hunused
  have hroot : (m.runtime.committed k root).rootOf (m.runtime.newImage k) = root := by
    simp [rootOf, newImage, ProcessRuntime.committed, setSpace]
  have hact := hunused.active h.toDistinct
  refine secures_exchangeRunningImage fun answer registry hexch => ?_
  cases answer with
  | error e =>
    obtain ⟨error, rejected⟩ := e
    obtain ⟨rfl, rfl⟩ := exchangeRunningImage_error hexch
    exact secures_discardImage failed frames hinstalled rfl (by rwa [hroot])
  | ok =>
    obtain ⟨c, hhd, himg, rfl⟩ := exchangeRunningImage_ok hexch
    let replacement : RuntimeReplacement :=
      { process := m.runtime.newImage k
        entryPoint := entry
        userStackPointer := stack
        addressSpaceRoot := root
        imageMeasurementRoot := measurement }
    have hmov := hinstalled.exchange hhd rfl himg halone
    exact secures_replaceCurrentImage replacement failed frames hmov h.pending hhd
      Housed.images_withImage_self hroot hact hi hcall halone

/-! ### The return to user mode -/

theorem authorizeUserReturn_ok {authority : AuthorizedUserReturn}
    {scheduled : ScheduledProcess} (h : authorizeUserReturn authority s = .ok scheduled) :
    ∃ i, RunningAt s i ∧ (s.slots i).launch.addressSpaceRoot =
      authority.dispatch.addressSpaceRoot := by
  unfold authorizeUserReturn at h
  split at h
  · cases h
  dsimp only at h
  split at h
  · cases h
  next hcur =>
  split at h
  · cases h
  next i hi =>
  split at h
  · cases h
  next hph =>
  split at h
  · cases h
  next hsame =>
  rw [not_or, not_not] at hcur
  obtain ⟨hocc, hhd⟩ := handle_of_holds (slotByHandle_holds hi)
  refine ⟨i, ⟨hocc, not_not.mp hph, ?_⟩, ?_⟩
  · rw [currentHandle_eq_some hcur.1, hhd]
  · rw [← not_not.mp hsame]
    rfl

/-- The root of a live task may be loaded. -/
theorem Housed.load (h : Housed init .nothing m) {root : Word} (hroot : root = m.kernelRoot ∨
    ∃ i, Live (m.table.slots i) ∧ (m.table.slots i).launch.addressSpaceRoot = root) :
    Housed init .nothing { m with activeRoot := root } := by
  refine h.withRuntime rfl rfl ⟨h.roots, h.kernel, ?_⟩
    ⟨fun o => h.owned.holds o, fun o o' => h.owned.apart o o'⟩ rfl fun _ _ _ => rfl
  rcases hroot with rfl | ⟨i, hi, rfl⟩
  · exact .inl rfl
  refine .inr ?_
  cases h.home i hi with
  | init hhome => exact ⟨_, committed_of_holds (h.owned.holds .init init rfl), hhome.symm⟩
  | @service c image _ himg hhome =>
    exact ⟨_, committed_of_holds (h.owned.holds (.service c) image himg), hhome.symm⟩
  | moving hf => cases hf

/-- The image that waits is reaped, when the loaded root is that of the kernel or of a live
task. -/
theorem reap_atRest (h : Housed init .nothing m)
    (hact : ∀ image, m.runtime.pendingReap = some image → m.activeRoot ≠ m.runtime.rootOf image) :
    ∃ reaped r, m.runtime.reap .freed m.activeRoot = (.ok reaped, r) ∧
      AtRest init { m with runtime := r } := by
  cases hpend : m.runtime.pendingReap with
  | none =>
    refine ⟨false, m.runtime, ?_, h, hpend⟩
    rw [reap, hpend]
  | some image =>
    obtain ⟨r, hreap, hnone, hhoused⟩ := h.reap hpend (hact image hpend)
    exact ⟨true, r, hreap, hhoused, hnone⟩

/-- Where a reap finds an image, nobody lives in it. -/
theorem safe_reap (h : Housed init .nothing m) {answer : β} {t : Machine}
    (hrel : releasing c m = m.runtime.pendingReap.bind fun image =>
      if m.runtime.holds image then some (m.runtime.rootOf image) else none)
    (hexec : exec _ c m = (answer, t)) (hans : reapFails c answer = false)
    (hact : ∀ image, m.runtime.pendingReap = some image → t.activeRoot ≠ m.runtime.rootOf image) :
    SafeRelease β c m := by
  refine ⟨fun root hroot => ?_, by rw [hexec, hans]⟩
  rw [hrel] at hroot
  obtain ⟨image, hpend, himg⟩ := Option.bind_eq_some_iff.mp hroot
  rw [if_pos (h.owned.holds .pending image hpend)] at himg
  obtain rfl := Option.some.inj himg
  refine ⟨h.vacant (o := .pending) hpend (.inl rfl) (by simp), ?_⟩
  rw [hexec]
  exact hact image hpend

theorem secures_reapAfterRootSwitch (frames : FrameRelease) (h : Housed init .nothing m)
    (hact : ∀ image, m.runtime.pendingReap = some image → m.activeRoot ≠ m.runtime.rootOf image) :
    Secures (do
      match ← .perform (.reapAfterRootSwitch frames) with
      | .ok _ => pure true
      | .error _ => pure false) m fun going t => going → AtRest init t := by
  have hfreed (hc : orderly _ (.reapAfterRootSwitch frames) m) : frames = .freed := hc.1
  obtain ⟨reaped, r, hreap, hrest⟩ := reap_atRest h hact
  have hexec : exec _ (.reapAfterRootSwitch .freed) m = (.ok reaped, { m with runtime := r }) := by
    rw [exec, hreap]
  refine .call_bind (fun hc => ?_) fun hc => ?_
  · obtain rfl := hfreed hc
    exact safe_reap h rfl hexec rfl hact
  · obtain rfl := hfreed hc
    rw [hexec]
    exact fun _ => hrest

theorem secures_arachSyscallActivate (authority : AuthorizedUserReturn) (dispatched : Bool)
    (frames : FrameRelease) (h : Housed init .nothing m) :
    Secures (arachSyscallActivate authority dispatched frames) m fun going t =>
      going → AtRest init t := by
  refine secures_read ?_
  cases hauthorized : authorizeUserReturn authority m.table with
  | error => exact nofun
  | ok =>
  obtain ⟨i, hi, hroot⟩ := authorizeUserReturn_ok hauthorized
  dsimp only
  split
  · exact nofun
  refine .call_bind (fun _ => safe_of_not_releasing rfl rfl) fun _ => ?_
  have hload := h.load (.inr ⟨i, hi.live, hroot⟩)
  have hact (image : ProcessImageHandle) (hpend : m.runtime.pendingReap = some image) :
      authority.dispatch.addressSpaceRoot ≠ m.runtime.rootOf image := by
    rw [← hroot]
    exact h.vacant (o := .pending) hpend (.inl rfl) (by simp) i hi.live
  exact secures_reapAfterRootSwitch frames hload hact

theorem secures_enterKernelIdleAndReap (frames : FrameRelease) (h : Housed init .nothing m) :
    Secures (do
      match ← .perform (.enterKernelIdleAndReap frames) with
      | .ok _ => pure true
      | .error _ => pure false) m fun going t => going → AtRest init t := by
  have hfreed (hc : orderly _ (.enterKernelIdleAndReap frames) m) : frames = .freed := hc.1
  have hact (image : ProcessImageHandle) (hpend : m.runtime.pendingReap = some image) :
      m.kernelRoot ≠ m.runtime.rootOf image :=
    (h.kernel _ (committed_of_holds (h.owned.holds .pending image hpend))).symm
  obtain ⟨reaped, r, hreap, hrest⟩ := reap_atRest (h.load (.inl rfl)) hact
  have hexec : exec _ (.enterKernelIdleAndReap .freed) m =
      (.ok reaped, { m with runtime := r, activeRoot := m.kernelRoot }) := by
    rw [exec, hreap]
  refine .call_bind (fun hc => ?_) fun hc => ?_
  · obtain rfl := hfreed hc
    exact safe_reap h rfl hexec rfl hact
  · obtain rfl := hfreed hc
    rw [hexec]
    exact fun _ => hrest

theorem secures_completeScheduleDecision (dispatched : Bool) (frames : FrameRelease)
    {decision : Option ScheduleDecision} (h : Settles init decision m) :
    Secures (completeScheduleDecision dispatched frames decision) m fun going t =>
      going → AtRest init t := by
  cases decision with
  | none => exact nofun
  | some decision =>
  have hhoused := h (by simp)
  cases decision with
  | pid0 => exact secures_enterKernelIdleAndReap frames hhoused
  | user =>
    rw [completeScheduleDecision]
    split
    · exact nofun
    · exact secures_arachSyscallActivate _ dispatched frames hhoused

/-! ### Runs -/

theorem secures_linuxRequest (hp : LinuxRequest p) (h : AtRest init m) :
    Secures p m (Settles init) := by
  cases hp with
  | exit saved exitCode released => exact secures_scheduleLinuxExitReturn saved exitCode released h
  | exitGroup exitCode released => exact secures_scheduleLinuxExitGroupReturn exitCode released h
  | clone =>
    exact secures_request (uses_scheduleLinuxCloneReturn _ _ _ _ _) h.toHoused
  | futex hp => exact secures_request hp h.toHoused
  | sigreturn restored delivery released =>
    exact secures_scheduleLinuxSigreturn restored delivery released h
  | execve failed prepared installation frames =>
    exact secures_scheduleLinuxExecveReturn failed prepared installation frames h
  | other hp delivery released =>
    exact .bind ((secures_ordinary_atRest hp h).mono fun saved t ht =>
      secures_resumeLinuxWithPendingSignal saved delivery released ht)

theorem secures_nativeRequest (hp : NativeRequest p) (h : AtRest init m) :
    Secures p m (Settles init) := by
  cases hp with
  | exit exitCode released => exact secures_scheduleExitReturn exitCode released h
  | spawn saved serviceClass => exact secures_spawnMeasuredService saved serviceClass h.toHoused
  | other hp => exact secures_request hp h.toHoused

theorem secures_systemCall {p : Prog MachineCall Bool} (hp : SystemCall p) (h : AtRest init m) :
    Secures p m fun going t => going → AtRest init t := by
  cases hp with
  | @syscall linux native hlinux hnative dispatched frames =>
    refine .bind (Prog.Secures.mono ?_ fun decision t ht =>
      secures_completeScheduleDecision dispatched frames ht)
    refine secures_read ?_
    split
    · exact secures_linuxRequest hlinux h
    · exact secures_nativeRequest hnative h
  | idle authority dispatched frames =>
    refine secures_lifecycle fun _ => ?_
    have hhoused := housed_lifecycle (c := .scheduleFromPid0 authority) h.toHoused rfl
    cases ((LifecycleCall.scheduleFromPid0 authority).exec m.table).1 with
    | ok => exact secures_completeScheduleDecision dispatched frames fun _ => hhoused
    | error => exact nofun

end ArachKernel.Syscalls
