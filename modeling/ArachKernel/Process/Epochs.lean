import ArachKernel.Process.Running

/-!
The scheduler epoch. Every successful scheduling decision takes the next epoch, and
every authority carries the epoch it was issued at and is compared with the current
one. So an authority is good for nothing once another decision has been made.
-/

namespace ArachKernel.Process

open Table Lifecycle

variable {s t u : Lifecycle} {α : Type}

/-- The authorities that the scheduler hands out. -/
inductive Authority
  | execution (authority : ExecutionAuthority)
  | pid0 (authority : Pid0Authority)
  | userReturn (authority : AuthorizedUserReturn)

def Authority.epoch : Authority → ℕ
  | execution authority => authority.schedulerEpoch
  | pid0 authority => authority.schedulerEpoch
  | userReturn authority => authority.schedulerEpoch

/-- Some operation that consumes the authority succeeds. -/
def Accepts (s : Lifecycle) : Authority → Prop
  | .execution authority =>
    ∃ saved scheduled, ((LifecycleCall.schedulePreempt saved authority).exec s).1 = .ok scheduled
  | .pid0 authority =>
    authorizePid0 authority s = .ok () ∨
      ∃ decision, ((LifecycleCall.scheduleFromPid0 authority).exec s).1 = .ok decision
  | .userReturn authority => ∃ scheduled, authorizeUserReturn authority s = .ok scheduled

def ScheduledProcess.authority (scheduled : ScheduledProcess) : Authority :=
  .userReturn scheduled.authorizedReturn

def ScheduleDecision.authority : ScheduleDecision → Authority
  | user scheduled => scheduled.authority
  | pid0 authority => .pid0 authority

/-- The authority in the answer of a call. -/
def issues : LifecycleCall α → α → Option Authority
  | .cloneCurrentThread .., answer => some answer.2.authority
  | .resumeCurrent .., scheduled | .replaceCurrentImage .., scheduled
  | .scheduleYield .., scheduled | .schedulePreempt .., scheduled => some scheduled.authority
  | .scheduleBlock .., decision | .scheduleExit .., decision | .scheduleExitGroup .., decision
  | .scheduleThreadExit, decision | .scheduleFromPid0 .., decision => some decision.authority
  | .publishCurrent .., _ | .registerInit .., _ | .commitChild .., _
  | .discardRunnableThread .., _ | .markRunning .., _ | .setCurrentFsBase .., _
  | .markRunnable .., _ | .markBlocked .., _ | .reapChild .., _ => none

/-- The ways to obtain an authority: from the published words, or from the answer of the
call that led to the state. -/
inductive Issued : Lifecycle → Authority → Prop
  | irq {s : Lifecycle} {authority : ExecutionAuthority}
      (h : currentExecutionAuthorityFromIrq s = some authority) : Issued s (.execution authority)
  | idle {s : Lifecycle} {authority : Pid0Authority} (h : currentPid0Authority s = .ok authority) :
      Issued s (.pid0 authority)
  | answer {s : Lifecycle} {α : Type} {c : LifecycleCall α} {a : α} {authority : Authority}
      (h : (c.exec s).1 = .ok a) (hissued : issues c a = some authority) :
      Issued (c.exec s).2 authority

/-! ### Epochs only grow -/

theorem switchTo_epoch (target : Option TaskIndex) (epoch : ℕ) :
    (s.switchTo target epoch).schedulerEpoch = epoch ∧
      (s.switchTo target epoch).currentSchedulerEpoch = epoch := by
  cases target <;> exact ⟨rfl, rfl⟩

/-- A successful decision publishes the next epoch; no other call touches it. -/
theorem Effect.epoch {c : LifecycleCall α} {a : α} (h : Effect s c a t) :
    (c.decides ∧ t.schedulerEpoch = s.schedulerEpoch + 1 ∧
        t.currentSchedulerEpoch = s.schedulerEpoch + 1) ∨
      (c.decides = false ∧ t.schedulerEpoch = s.schedulerEpoch ∧
        t.currentSchedulerEpoch = s.currentSchedulerEpoch) := by
  cases h with
  | publishCurrent => exact .inr ⟨rfl, rfl, rfl⟩
  | registerInit => exact .inr ⟨rfl, rfl, rfl⟩
  | commitChild =>
    exact .inr ⟨rfl, pidTaken_schedulerEpoch s, pidTaken_currentSchedulerEpoch s⟩
  | cloneCurrentThread | resumeCurrent | replaceCurrentImage => exact .inl ⟨rfl, rfl, rfl⟩
  | discardRunnableThread => exact .inr ⟨rfl, rfl, rfl⟩
  | markRunning => exact .inl ⟨rfl, switchTo_epoch _ _⟩
  | setCurrentFsBase | markRunnable | markBlocked | reapChild => exact .inr ⟨rfl, rfl, rfl⟩
  | scheduleYield => exact .inl ⟨rfl, switchTo_epoch _ _⟩
  | schedulePreempt => exact .inl ⟨rfl, switchTo_epoch _ _⟩
  | scheduleBlock => exact .inl ⟨rfl, switchTo_epoch _ _⟩
  | scheduleExit => exact .inl ⟨rfl, switchTo_epoch _ _⟩
  | scheduleExitGroup | scheduleThreadExit | scheduleFromPid0 =>
    exact .inl ⟨rfl, switchTo_epoch _ _⟩

theorem effect_of_ok {c : LifecycleCall α} {a : α} (h : (c.exec s).1 = .ok a) :
    Effect s c a (c.exec s).2 := by
  have hout := exec_outcome c s
  rwa [h] at hout

theorem exec_epoch_of_ok {c : LifecycleCall α} {a : α} (h : (c.exec s).1 = .ok a)
    (hc : c.decides) : (c.exec s).2.schedulerEpoch = s.schedulerEpoch + 1 := by
  rcases (effect_of_ok h).epoch with ⟨_, hep, _⟩ | ⟨hno, _⟩
  · exact hep
  · simp [hc] at hno

/-- What a failed call leaves as it was. -/
theorem unchanged_of_error {c : LifecycleCall α} {e : LifecycleError}
    (h : (c.exec s).1 = .error e) :
    (c.exec s).2.slots = s.slots ∧ (c.exec s).2.currentExecution = s.currentExecution ∧
      (c.exec s).2.schedulerEpoch = s.schedulerEpoch ∧
      (c.exec s).2.currentSchedulerEpoch = s.currentSchedulerEpoch := by
  have hout := exec_outcome c s
  rw [h] at hout
  rcases hout with heq | ⟨_, heq⟩
  · simp [heq]
  · simp [heq]

theorem le_exec_epoch (c : LifecycleCall α) : s.schedulerEpoch ≤ (c.exec s).2.schedulerEpoch := by
  refine exec_induction c (P := fun t => s.schedulerEpoch ≤ t.schedulerEpoch) le_rfl ?_ ?_
  · rw [pidTaken_schedulerEpoch]
  · intro a t heff
    rcases heff.epoch with ⟨_, hep, _⟩ | ⟨_, hep, _⟩ <;> omega

theorem Runs.epoch_le (h : Runs anyCall s t) : s.schedulerEpoch ≤ t.schedulerEpoch := by
  induction h with
  | refl => exact le_rfl
  | tail _ hstep ih =>
    obtain ⟨_, c, _, rfl⟩ := hstep
    exact ih.trans (le_exec_epoch c)

/-- The published epoch is the one under the lock. -/
theorem Runs.mirror (h : Runs anyCall .new s) : s.currentSchedulerEpoch = s.schedulerEpoch := by
  induction h with
  | refl => rfl
  | tail _ hstep ih =>
    obtain ⟨_, c, _, rfl⟩ := hstep
    refine exec_induction c (P := fun t => t.currentSchedulerEpoch = t.schedulerEpoch) ih ?_ ?_
    · rw [pidTaken_currentSchedulerEpoch, pidTaken_schedulerEpoch, ih]
    · intro a t heff
      rcases heff.epoch with ⟨_, hep, hmirror⟩ | ⟨_, hep, hmirror⟩ <;> omega

/-! ### Authorities carry their epoch -/

theorem decision_epoch (target : Option TaskIndex) (epoch : ℕ) :
    (s.decision target epoch).authority.epoch = epoch := by
  cases target <;> rfl

variable {authority : Authority}

theorem Effect.issued_epoch {c : LifecycleCall α} {a : α} (h : Effect s c a t)
    (hiss : issues c a = some authority) : authority.epoch = t.schedulerEpoch := by
  have hep := h.epoch
  have hdecides : c.decides := by
    cases c <;> first | rfl | cases hiss
  obtain ⟨_, hep, _⟩ := hep.resolve_right fun hno => by simp [hdecides] at hno
  rw [hep]
  cases h <;> cases hiss
  all_goals first | rfl | exact decision_epoch _ _

theorem Issued.epoch (h : Issued s authority)
    (hmirror : s.currentSchedulerEpoch = s.schedulerEpoch) :
    authority.epoch = s.schedulerEpoch := by
  cases h with
  | irq h =>
    unfold currentExecutionAuthorityFromIrq at h
    split at h
    · cases h
    split at h
    · cases h
    · cases h
      exact hmirror
  | idle h =>
    unfold currentPid0Authority at h
    dsimp only at h
    split at h
    · cases h
    · cases h
      rfl
  | answer h hiss => exact (effect_of_ok h).issued_epoch hiss

theorem validatePid0Authority_epoch {authority : Pid0Authority}
    (h : validatePid0Authority authority s = .ok ()) :
    authority.schedulerEpoch = s.schedulerEpoch := by
  unfold validatePid0Authority at h
  split at h
  · cases h
  next hval =>
    push Not at hval
    exact hval.2.2

/-- The epoch of the authority that a call presents. -/
def presented : LifecycleCall α → Option ℕ
  | .schedulePreempt _ authority => some authority.schedulerEpoch
  | .scheduleFromPid0 authority => some authority.schedulerEpoch
  | _ => none

theorem Effect.consumed {c : LifecycleCall α} {a : α} {epoch : ℕ} (h : Effect s c a t)
    (hc : presented c = some epoch) : epoch = s.schedulerEpoch := by
  cases h with
  | schedulePreempt hi hhd hep =>
    cases hc
    exact hep
  | scheduleFromPid0 hidle hnone hep =>
    cases hc
    exact hep
  | _ => cases hc

theorem Accepts.epoch (h : Accepts s authority) : authority.epoch = s.schedulerEpoch := by
  cases authority with
  | execution =>
    obtain ⟨saved, scheduled, hok⟩ := h
    exact (effect_of_ok hok).consumed rfl
  | pid0 =>
    rcases h with hok | ⟨decision, hok⟩
    · exact validatePid0Authority_epoch hok
    · exact (effect_of_ok hok).consumed rfl
  | userReturn =>
    obtain ⟨scheduled, hok⟩ := h
    unfold authorizeUserReturn at hok
    split at hok
    · cases hok
    dsimp only at hok
    split at hok
    · cases hok
    next hfresh =>
      push Not at hfresh
      exact hfresh.2.symm

/-- A decision takes the next epoch; a call that fails changes no slot, not the running
task and no epoch; and an authority that was issued or accepted in a state is not
accepted in any state after a later decision. -/
theorem authority_expires (h : Runs anyCall .new s) :
    (∀ {α : Type} (c : LifecycleCall α) (a : α), (c.exec s).1 = .ok a → c.decides →
      s.schedulerEpoch < (c.exec s).2.schedulerEpoch) ∧
    (∀ {α : Type} (c : LifecycleCall α) (e : LifecycleError), (c.exec s).1 = .error e →
      (c.exec s).2.slots = s.slots ∧ (c.exec s).2.currentExecution = s.currentExecution ∧
        (c.exec s).2.schedulerEpoch = s.schedulerEpoch ∧
        (c.exec s).2.currentSchedulerEpoch = s.currentSchedulerEpoch) ∧
    ∀ authority, Issued s authority ∨ Accepts s authority → ∀ u, Runs anyCall s u →
      ∀ {α : Type} (c : LifecycleCall α) (a : α), (c.exec u).1 = .ok a → c.decides →
      ∀ t, Runs anyCall (c.exec u).2 t → ¬ Accepts t authority := by
  refine ⟨fun c a hok hc => ?_, fun c e => unchanged_of_error, ?_⟩
  · rw [exec_epoch_of_ok hok hc]
    exact Nat.lt_succ_self _
  · intro authority hauth u hu α c a hok hc t ht haccepted
    have hep : authority.epoch = s.schedulerEpoch :=
      hauth.elim (fun hiss => hiss.epoch h.mirror) Accepts.epoch
    have hbef := Runs.epoch_le hu
    have hafter := Runs.epoch_le ht
    rw [exec_epoch_of_ok hok hc, ← haccepted.epoch] at hafter
    omega

/-- The idle authority of the fresh table is gone once the first process has started. -/
theorem authority_expires_started : ¬ Accepts started (.pid0 (pid0Authority 0)) := by
  have hstart :
      ((LifecycleCall.markRunning { pid := initPid, generation := 1 }).exec registered).1 =
      .ok { (registered.slots 0).snapshot with phase := .running } := by
    decide +kernel
  exact (authority_expires .refl).2.2 _ (.inl (.idle rfl)) registered
    (Runs.exec .refl (.registerInit sampleLaunch) trivial) _ _ hstart rfl started .refl

end ArachKernel.Process
