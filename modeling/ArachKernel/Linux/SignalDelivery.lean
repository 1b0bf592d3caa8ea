import ArachKernel.Linux.Signal

/-!
`SIGKILL` and `SIGSTOP` in the signal table. No path can block them, put them into
the mask of a handler or give them a disposition. Whether a pending `SIGKILL` is what
the next delivery acts on depends on what else the thread has: delivery goes by
signal number, and waits while a handler frame is active.
-/

namespace ArachKernel.LinuxSignal

open Table Function

/-- The signals that cannot be blocked, ignored or caught. -/
def uncatchable (s : Fin signalCount) : Prop := signalNumber s = sigkill ∨ signalNumber s = sigstop

/-- A mask that lets the uncatchable signals through. -/
def Open (mask : SignalSet) : Prop := ∀ s : Fin signalCount, uncatchable s → mask.getLsbD s = false

/-- The uncatchable signals are in no mask, and have the default disposition. -/
structure Unmasked (t : SignalTable) : Prop where
  blocked : ∀ i, Open (t.threads i).blocked
  masks : ∀ g s, Open ((t.groups g).actions s).mask
  dispositions : ∀ g s, uncatchable s → (t.groups g).actions s = .default

/-- The table after the delivery loop has taken one signal. -/
def SignalTable.taken (t : SignalTable) (i : Fin maximumEntries) (s : Fin signalCount) :
    SignalTable :=
  t.setThread i { t.threads i with pending := (t.threads i).pending &&& ~~~bit s }

/-! ### Masks -/

theorem unmaskableBits_getLsbD (s : Fin signalCount) :
    unmaskableBits.getLsbD s = decide (s.val = 8 ∨ s.val = 18) := by
  revert s
  decide

variable {s : Fin signalCount}

theorem unmaskableBits_of_uncatchable (h : uncatchable s) : unmaskableBits.getLsbD s := by
  rw [unmaskableBits_getLsbD, decide_eq_true_eq]
  simp only [uncatchable, signalNumber, sigkill, sigstop] at h
  omega

theorem bit_getLsbD (s j : Fin signalCount) : (bit s).getLsbD j = decide (j = s) := by
  simp only [bit]
  rcases lt_trichotomy j.val s.val with h | h | h
  · have hne : j ≠ s := fun heq => by simp [heq] at h
    simp [h, hne]
  · have heq : j = s := Fin.ext h
    simp [heq]
  · have hne : j ≠ s := fun heq => by simp [heq] at h
    have hsub : j.val - s.val ≠ 0 := by omega
    simp [hne, hsub]

theorem open_zero : Open 0 := fun _ _ => BitVec.getLsbD_zero

theorem open_sanitizeMask (mask : SignalSet) : Open (sanitizeMask mask) := by
  intro s hs
  simp [sanitizeMask, unmaskableBits_of_uncatchable hs]

theorem Open.or {a b : SignalSet} (ha : Open a) (hb : Open b) : Open (a ||| b) := by
  intro s hs
  rw [BitVec.getLsbD_or, ha s hs, hb s hs, Bool.or_false]

theorem Open.and {a : SignalSet} (ha : Open a) (b : SignalSet) : Open (a &&& b) := by
  intro s hs
  rw [BitVec.getLsbD_and, ha s hs, Bool.false_and]

/-! ### What each operation keeps -/

namespace Unmasked

variable {t : SignalTable}

theorem new : Unmasked .new where
  blocked _ := open_zero
  masks _ _ := open_zero
  dispositions _ _ _ := rfl

section

variable (h : Unmasked t)
include h

theorem setThread (i : Fin maximumEntries) {slot : ThreadSlot}
    (hslot : Open slot.blocked) : Unmasked (t.setThread i slot) where
  blocked := by
    dsimp only [SignalTable.setThread]
    exact update_cases hslot fun j _ => h.blocked j
  masks := h.masks
  dispositions := h.dispositions

theorem setGroup (i : Fin maximumEntries) {slot : GroupSlot}
    (hmasks : ∀ s, Open (slot.actions s).mask)
    (hdefault : ∀ s, uncatchable s → slot.actions s = .default) : Unmasked (t.setGroup i slot) where
  blocked := h.blocked
  masks := by
    dsimp only [SignalTable.setGroup]
    exact update_cases hmasks fun j _ => h.masks j
  dispositions := by
    dsimp only [SignalTable.setGroup]
    exact update_cases hdefault fun j _ => h.dispositions j

theorem emptyGroup (i : Fin maximumEntries) (owner : ProcessHandle) :
    Unmasked (t.setGroup i { GroupSlot.empty with owner }) :=
  h.setGroup i (fun _ => open_zero) fun _ _ => rfl

theorem setAction (i : Fin maximumEntries) (s : Fin signalCount)
    {action : SignalAction} (hmask : Open action.mask) (hs : uncatchable s → action = .default) :
    Unmasked (t.setAction i s action) := by
  apply h.setGroup i <;> dsimp only
  · exact update_cases hmask fun r _ => h.masks i r
  · exact update_cases hs fun r _ => h.dispositions i r

theorem taken (i : Fin maximumEntries) (s : Fin signalCount) : Unmasked (t.taken i s) :=
  h.setThread i (h.blocked i)

theorem threadMut (owner : ProcessHandle) : Unmasked (t.threadMut owner).2 := by
  unfold SignalTable.threadMut
  split
  · exact h
  · split
    · exact h
    · exact h.setThread _ open_zero

end

end Unmasked

variable {t : SignalTable}

section

variable (h : Unmasked t)
include h

theorem setAction_unmasked (group : ProcessHandle) (signal : ℕ)
    (replacement : Option SignalAction) : Unmasked (setAction group signal replacement t).2 := by
  unfold setAction
  split
  · exact h
  split
  · exact h
  next s hs =>
  -- the stored disposition is of a signal that can be caught
  have hnumber : signalNumber s = signal := by
    unfold signalBit at hs
    split at hs
    next hrng =>
      cases hs
      exact Nat.sub_add_cancel hrng.1
    · cases hs
  split
  · split <;> exact h
  split
  · exact h
  have hs : ¬ uncatchable s := by rwa [uncatchable, hnumber]
  split
  · exact h
  split
  · exact h.setAction _ _ (open_sanitizeMask _) fun hu => absurd hu hs
  split
  · exact h
  · exact (h.emptyGroup _ _).setAction _ _ (open_sanitizeMask _) fun hu => absurd hu hs

theorem updateMask_unmasked (owner : ProcessHandle) (operation : ℕ)
    (replacement : Option SignalSet) : Unmasked (updateMask owner operation replacement t).2 := by
  have hslot := h.threadMut owner
  unfold updateMask
  split
  · exact h
  split
  · exact h
  split
  · next heq => rwa [heq] at hslot
  next heq =>
  rw [heq] at hslot
  split
  · exact hslot
  · apply hslot.setThread
    split
    · exact (hslot.blocked _).or (open_sanitizeMask _)
    · exact (hslot.blocked _).and _
    · exact open_sanitizeMask _

theorem inheritMask_unmasked (parent child : ProcessHandle) :
    Unmasked (inheritMask parent child t).2 := by
  have hslot := h.threadMut child
  have hpar : Open (((t.findThread parent).map fun i => (t.threads i).blocked).getD 0) := by
    cases t.findThread parent with
    | none => exact open_zero
    | some i => exact h.blocked i
  unfold inheritMask
  split
  · exact h
  split
  · next heq => rwa [heq] at hslot
  next heq =>
    rw [heq] at hslot
    exact hslot.setThread _ hpar

theorem queue_unmasked (owner : ProcessHandle) (signal : ℕ) :
    Unmasked (queue owner signal t).2 := by
  have hslot := h.threadMut owner
  unfold queue
  split
  · exact h
  split
  · exact h
  split
  · exact h
  split
  · next heq => rwa [heq] at hslot
  next heq =>
    rw [heq] at hslot
    exact hslot.setThread _ (hslot.blocked _)

theorem dequeueForSignalfd_unmasked (owner : ProcessHandle)
    (mask : SignalSet) : Unmasked (dequeueForSignalfd owner mask t).2 := by
  unfold dequeueForSignalfd
  split
  · exact h
  dsimp only
  split
  · exact h
  · exact h.setThread _ (h.blocked _)

end

theorem deliver_unmasked (group : ProcessHandle) (frame : ℕ) (i : Fin maximumEntries) (fuel : ℕ)
    (h : Unmasked t) : Unmasked (deliver group frame i fuel t).2 := by
  induction fuel generalizing t with
  | zero => exact h
  | succ fuel ih =>
    rw [deliver]
    dsimp only
    split
    · exact h
    next s hs =>
    have htaken := h.taken i s
    split
    · exact ih htaken
    split
    · exact htaken
    have hent : Unmasked ((t.taken i s).setThread i
        { t.threads i with
          pending := (t.threads i).pending &&& ~~~bit s
          blocked := sanitizeMask ((t.threads i).blocked ||| (t.action group s).mask |||
            if (t.action group s).flags &&& saNodefer = 0 then bit s else 0)
          activeFrame := frame }) := htaken.setThread i (open_sanitizeMask _)
    split
    · split
      · exact hent
      · exact hent.setAction _ _ open_zero fun _ => rfl
    · exact hent

section

variable (h : Unmasked t)
include h

theorem beginDelivery_unmasked (owner group : ProcessHandle)
    (frame : ℕ) : Unmasked (beginDelivery owner group frame t).2 := by
  unfold beginDelivery
  split
  · exact h
  split
  · exact h
  split
  · exact h
  · exact deliver_unmasked _ _ _ _ h

theorem finishSigreturn_unmasked (owner : ProcessHandle) (frame : ℕ) (restoredMask : SignalSet) :
    Unmasked (finishSigreturn owner frame restoredMask t).2 := by
  unfold finishSigreturn
  split
  · exact h
  split
  · exact h
  · exact h.setThread _ (open_sanitizeMask _)

theorem clearThread_unmasked (owner : ProcessHandle)
    (clearGroup : Option ProcessHandle) : Unmasked (clearThread owner clearGroup t) := by
  unfold clearThread
  cases t.findThread owner with
  | none =>
    dsimp only
    split
    · exact h
    · exact h.emptyGroup _ .empty
  | some i =>
    have hthr : Unmasked (t.setThread i .empty) := h.setThread i open_zero
    dsimp only
    split
    · exact hthr
    · exact hthr.emptyGroup _ .empty

/-- The actions of a group that are caught return to default. -/
theorem Unmasked.resetActions (g : Fin maximumEntries) : Unmasked (t.setGroup g { t.groups g with
      actions := fun signal =>
        let action := (t.groups g).actions signal
        if action.handler ≠ 1 then .default else action }) := by
  apply h.setGroup
  · intro s
    dsimp only
    split
    · exact open_zero
    · exact h.masks g s
  · intro s hs
    simp [h.dispositions g s hs]

theorem resetForExec_unmasked (owner : ProcessHandle) : Unmasked (resetForExec owner t) := by
  unfold resetForExec
  cases t.findGroup owner with
  | none =>
    dsimp only
    split
    · exact h
    · exact h.setThread _ (h.blocked _)
  | some g =>
    have hgrp := h.resetActions g
    dsimp only at hgrp ⊢
    split
    · exact hgrp
    · exact hgrp.setThread _ (hgrp.blocked _)

end

theorem exec_unmasked {β : Type} (c : SignalCall β) (t : SignalTable) (h : Unmasked t) :
    Unmasked (exec β c t).2 := by
  cases c with
  | setAction group signal replacement => exact setAction_unmasked h group signal replacement
  | updateMask owner operation replacement =>
    exact updateMask_unmasked h owner operation replacement
  | inheritMask parent child => exact inheritMask_unmasked h parent child
  | queue owner signal => exact queue_unmasked h owner signal
  | dequeueForSignalfd owner mask => exact dequeueForSignalfd_unmasked h owner mask
  | beginDelivery owner group frame => exact beginDelivery_unmasked h owner group frame
  | finishSigreturn owner frame mask => exact finishSigreturn_unmasked h owner frame mask
  | clearThread owner clearGroup => exact clearThread_unmasked h owner clearGroup
  | resetForExec owner => exact resetForExec_unmasked h owner

theorem Unmasked.action (h : Unmasked t) (group : ProcessHandle) (hs : uncatchable s) :
    t.action group s = .default := by
  unfold SignalTable.action
  split
  · rfl
  · exact h.dispositions _ s hs

/-! ### The order of delivery -/

variable {set : SignalSet}

theorem lowest_isSome (hs : set.getLsbD s) : ∃ r, lowest set = some r :=
  position_isSome (p := fun i : Fin signalCount => set.getLsbD i) hs

theorem lowest_mem (h : lowest set = some s) : set.getLsbD s :=
  position_some h

theorem lowest_le {r : Fin signalCount} (h : lowest set = some s) (hr : set.getLsbD r) : s ≤ r :=
  position_le h hr

/-- The signals a delivery chooses from. -/
def candidates (thread : ThreadSlot) : SignalSet :=
  thread.pending &&& ~~~thread.blocked &&& ~~~unmaskableBits ||| thread.pending &&& unmaskableBits

theorem candidates_getLsbD (thread : ThreadSlot) (s : Fin signalCount) :
    (candidates thread).getLsbD s =
      (thread.pending.getLsbD s && (!thread.blocked.getLsbD s || unmaskableBits.getLsbD s)) := by
  have hs := s.isLt
  simp only [candidates, BitVec.getLsbD_or, BitVec.getLsbD_and, BitVec.getLsbD_not]
  cases thread.pending.getLsbD s <;> cases thread.blocked.getLsbD s <;>
    cases unmaskableBits.getLsbD s <;> simp [hs]

/-- Taking a signal removes that one from the choice. -/
theorem candidates_taken (t : SignalTable) (i : Fin maximumEntries) (s j : Fin signalCount) :
    (candidates ((t.taken i s).threads i)).getLsbD j =
      ((candidates (t.threads i)).getLsbD j && decide (j ≠ s)) := by
  have hj := j.isLt
  simp only [candidates_getLsbD, SignalTable.taken, SignalTable.setThread, update_self,
    BitVec.getLsbD_and, BitVec.getLsbD_not, bit_getLsbD]
  by_cases h : j = s <;> simp [h, hj]

/-- The bit of `SIGKILL`. -/
def killBit : Fin signalCount := ⟨sigkill - 1, by decide⟩

theorem uncatchable_killBit : uncatchable killBit := .inl rfl

/-- A signal that is pending, not blocked and not ignored. -/
def Due (t : SignalTable) (i : Fin maximumEntries) (group : ProcessHandle) (s : Fin signalCount) :
    Prop :=
  (t.threads i).pending.getLsbD s ∧ (t.threads i).blocked.getLsbD s = false ∧
    (t.action group s).handler ≠ 1

theorem candidates_of_lt {thread : ThreadSlot} (hs : s < killBit) : (candidates thread).getLsbD s ↔
      thread.pending.getLsbD s ∧ thread.blocked.getLsbD s = false := by
  have hlt : s.val < 8 := hs
  have hmaskable : unmaskableBits.getLsbD s = false := by
    rw [unmaskableBits_getLsbD, decide_eq_false_iff_not]
    omega
  rw [candidates_getLsbD, hmaskable]
  simp

theorem candidates_killBit {thread : ThreadSlot} (h : thread.pending.getLsbD killBit) :
    (candidates thread).getLsbD killBit := by
  rw [candidates_getLsbD, h, unmaskableBits_of_uncatchable uncatchable_killBit]
  simp

theorem lt_killBit_number (hs : s < killBit) :
    defaultIgnored (signalNumber s) = false ∧ signalNumber s ≠ sigkill ∧
      signalNumber s ≠ sigstop := by
  have hlt : s.val < 8 := hs
  simp only [defaultIgnored, signalNumber, sigkill, sigstop, Bool.or_eq_false_iff,
    beq_eq_false_iff_ne]
  omega

variable {i : Fin maximumEntries} {group owner : ProcessHandle} {frame fuel : ℕ}

/-- One round of the delivery loop. -/
theorem deliver_round (hs : lowest (candidates (t.threads i)) = some s) :
    ((t.action group s).handler = 1 ∨
        (t.action group s).handler = 0 ∧ defaultIgnored (signalNumber s) →
      deliver group frame i (fuel + 1) t = deliver group frame i fuel (t.taken i s)) ∧
    (¬ ((t.action group s).handler = 1 ∨
        (t.action group s).handler = 0 ∧ defaultIgnored (signalNumber s)) →
      (deliver group frame i (fuel + 1) t).1 =
        if (t.action group s).handler = 0 ∨ signalNumber s = sigkill ∨ signalNumber s = sigstop then
          .terminate (signalNumber s)
        else .handler (signalNumber s) (t.action group s) (t.threads i).blocked) := by
  rw [candidates] at hs
  rw [deliver]
  rw [hs]
  dsimp only
  constructor
  · intro hign
    rw [if_pos hign]
    rfl
  · intro hacted
    rw [if_neg hacted]
    split <;> rfl

theorem deliver_killBit (hopen : Unmasked t)
    (hs : lowest (candidates (t.threads i)) = some killBit) :
    (deliver group frame i (fuel + 1) t).1 = .terminate sigkill := by
  have haction : t.action group killBit = .default := hopen.action group uncatchable_killBit
  rw [(deliver_round hs).2 (by rw [haction]; decide), haction]
  rfl

/-- With only ignored signals ahead of it, a pending `SIGKILL` is delivered. The
signals ahead are at most `k`, and each takes one round. -/
theorem deliver_kill (k fuel : ℕ) (hfuel : k < fuel) (hopen : Unmasked t)
    (hkill : (candidates (t.threads i)).getLsbD killBit)
    (hahead : ∀ s : Fin signalCount, (candidates (t.threads i)).getLsbD s → killBit.val ≤ s + k)
    (hign : ∀ s < killBit, (candidates (t.threads i)).getLsbD s → (t.action group s).handler = 1) :
    (deliver group frame i fuel t).1 = .terminate sigkill := by
  induction k generalizing fuel t with
  | zero =>
    obtain ⟨fuel, rfl⟩ : ∃ n, fuel = n + 1 := ⟨fuel - 1, by omega⟩
    obtain ⟨s, hs⟩ := lowest_isSome hkill
    obtain rfl : s = killBit := le_antisymm (lowest_le hs hkill) (hahead s (lowest_mem hs))
    exact deliver_killBit hopen hs
  | succ k ih =>
    obtain ⟨fuel, rfl⟩ : ∃ n, fuel = n + 1 := ⟨fuel - 1, by omega⟩
    obtain ⟨s, hs⟩ := lowest_isSome hkill
    rcases eq_or_lt_of_le (lowest_le hs hkill) with rfl | hlt
    · exact deliver_killBit hopen hs
    have hhandler := hign s hlt (lowest_mem hs)
    rw [(deliver_round hs).1 (.inl hhandler)]
    have hkept {j : Fin signalCount} (hj : (candidates ((t.taken i s).threads i)).getLsbD j) :
        (candidates (t.threads i)).getLsbD j ∧ j ≠ s := by
      rwa [candidates_taken, Bool.and_eq_true, decide_eq_true_eq] at hj
    apply ih fuel (by omega) (hopen.taken i s)
    · rw [candidates_taken, hkill, Bool.true_and, decide_eq_true_eq]
      exact hlt.ne'
    · intro j hj
      have hsj : s ≤ j := lowest_le hs (hkept hj).1
      have hne : s.val ≠ j.val := fun h => (hkept hj).2 (Fin.ext h.symm)
      have hbd := hahead s (lowest_mem hs)
      omega
    · intro j hj hcand
      exact hign j hj (hkept hcand).1

/-- A lower signal that is due is acted on before a `SIGKILL`. -/
theorem deliver_due (fuel : ℕ) (hs : s < killBit) (hdue : Due t i group s) :
    (deliver group frame i fuel t).1 ≠ .terminate sigkill := by
  induction fuel generalizing t with
  | zero => exact Delivery.noConfusion
  | succ fuel ih =>
    have hcand := (candidates_of_lt hs).mpr ⟨hdue.1, hdue.2.1⟩
    obtain ⟨r, hr⟩ := lowest_isSome hcand
    have hrs : r ≤ s := lowest_le hr hcand
    have hnumber := lt_killBit_number (lt_of_le_of_lt hrs hs)
    by_cases hign : (t.action group r).handler = 1 ∨
        (t.action group r).handler = 0 ∧ defaultIgnored (signalNumber r)
    · -- the signal taken is an ignored one, so `s` is still there
      rw [(deliver_round hr).1 hign]
      have hone : (t.action group r).handler = 1 := by
        rcases hign with h | ⟨_, h⟩
        · exact h
        · simp [hnumber.1] at h
      have hne : s ≠ r := by
        rintro rfl
        exact hdue.2.2 hone
      have hstill := candidates_taken t i r s
      rw [hcand, Bool.true_and, decide_eq_true hne, candidates_of_lt hs] at hstill
      exact ih ⟨hstill.1, hstill.2, hdue.2.2⟩
    · rw [(deliver_round hr).2 hign]
      split
      · intro h
        exact hnumber.2.1 (Delivery.terminate.inj h)
      · exact Delivery.noConfusion

theorem deliveryPending_iff
    (hi : t.findThread owner = some i) (hkill : (t.threads i).pending.getLsbD killBit) :
    deliveryPending owner t ↔ (t.threads i).activeFrame = 0 := by
  have hforced : (t.threads i).pending &&& (~~~(t.threads i).blocked ||| unmaskableBits) ≠ 0 := by
    intro h
    have hbit := congrArg (fun set : SignalSet => set.getLsbD killBit) h
    rw [BitVec.getLsbD_and, BitVec.getLsbD_or, hkill,
      unmaskableBits_of_uncatchable uncatchable_killBit, Bool.or_true] at hbit
    exact Bool.noConfusion hbit
  rw [deliveryPending, hi, Bool.and_eq_true, beq_iff_eq, bne_iff_ne]
  exact and_iff_left hforced

theorem owner_valid (hi : t.findThread owner = some i) : owner.valid := by
  have h := position_some hi
  rw [Bool.and_eq_true, beq_iff_eq] at h
  exact h.2 ▸ h.1

/-- In every reachable table the uncatchable signals are unmasked and have the
default disposition. A pending `SIGKILL` is announced exactly when no handler frame is
active, and then the next delivery terminates the thread with it exactly when no lower
signal is due. -/
theorem sigkill_delivered_iff {t : SignalTable} (ht : Reachable exec .new t) :
    Unmasked t ∧ ∀ (owner group : ProcessHandle) (frame : ℕ) (i : Fin maximumEntries),
      t.findThread owner = some i → (t.threads i).pending.getLsbD killBit →
      group.valid → validUserCode frame →
      (deliveryPending owner t ↔ (t.threads i).activeFrame = 0) ∧
      ((beginDelivery owner group frame t).1 = .ok (.terminate sigkill) ↔
        (t.threads i).activeFrame = 0 ∧ ∀ s < killBit, ¬ Due t i group s) := by
  have hopen : Unmasked t := ht.invariant .new exec_unmasked
  refine ⟨hopen, fun owner group frame i hi hkill hgrp hfr => ?_⟩
  refine ⟨deliveryPending_iff hi hkill, ?_⟩
  by_cases hidle : (t.threads i).activeFrame = 0
  · have hbegin : (beginDelivery owner group frame t).1 =
        .ok (deliver group frame i (signalCount + 1) t).1 := by
      simp [beginDelivery, hi, hidle, hgrp, hfr, owner_valid hi]
    rw [hbegin, Except.ok.injEq]
    constructor
    · intro hdeliv
      exact ⟨hidle, fun s hs hdue => deliver_due _ hs hdue hdeliv⟩
    · rintro ⟨_, hnone⟩
      apply deliver_kill killBit.val _ (by decide) hopen (candidates_killBit hkill)
      · intro s _
        exact Nat.le_add_left _ _
      · intro s hs hcand
        obtain ⟨hpend, hblocked⟩ := (candidates_of_lt hs).mp hcand
        by_contra hhandler
        exact hnone s hs ⟨hpend, hblocked, hhandler⟩
  · -- the frame is still active
    have hbegin : (beginDelivery owner group frame t).1 = .ok .none := by
      simp [beginDelivery, hi, hidle, hgrp, hfr, owner_valid hi]
    simp [hbegin, hidle]

/-- A thread catches `SIGUSR1` and is sent `SIGKILL` while the handler runs. -/
def killedInHandler (thread : ProcessHandle) : Prog SignalCall Unit := do
  let action := { handler := 0x4000, flags := saRestorer, restorer := 0x5000, mask := 0 }
  let _ ← .perform (.setAction thread 10 (some action))
  let _ ← .perform (.queue thread 10)
  let _ ← .perform (.beginDelivery thread thread 0x8000)
  let _ ← .perform (.queue thread sigkill)

/-- A thread is sent `SIGINT` and `SIGKILL`. -/
def killedAfterInterrupt (thread : ProcessHandle) : Prog SignalCall Unit := do
  let _ ← .perform (.queue thread 2)
  let _ ← .perform (.queue thread sigkill)

/-- A pending `SIGKILL` waits for an active handler, and a lower signal goes before it. -/
theorem sigkill_not_first :
    let thread : ProcessHandle := { pid := 2, generation := 2 }
    let caught := ((killedInHandler thread).run exec .new).2
    let interrupted := ((killedAfterInterrupt thread).run exec .new).2
    (Reachable exec .new caught ∧ caught.findThread thread = some 0 ∧
      (caught.threads 0).pending.getLsbD killBit ∧ deliveryPending thread caught = false ∧
      (beginDelivery thread thread 0x8000 caught).1 = .ok .none) ∧
    (Reachable exec .new interrupted ∧ interrupted.findThread thread = some 0 ∧
      (interrupted.threads 0).pending.getLsbD killBit ∧
      (beginDelivery thread thread 0x8000 interrupted).1 = .ok (.terminate 2)) := by
  refine ⟨⟨Reachable.start.run _, ?_⟩, Reachable.start.run _, ?_⟩ <;> decide +kernel

/-- With nothing else pending a `SIGKILL` terminates at once. -/
theorem sigkill_delivered_alone :
    let thread : ProcessHandle := { pid := 2, generation := 2 }
    let t := (exec _ (.queue thread sigkill) .new).2
    deliveryPending thread t ∧
      (beginDelivery thread thread 0x8000 t).1 = .ok (.terminate sigkill) := by
  intro thread t
  have hidle : (t.threads 0).activeFrame = 0 ∧ ∀ s < killBit, ¬ Due t 0 thread s := by
    refine ⟨by decide, fun s hs hdue => ?_⟩
    have hpend : ∀ s < killBit, (t.threads 0).pending.getLsbD s = false := by decide +kernel
    exact Bool.noConfusion ((hpend s hs).symm.trans hdue.1)
  obtain ⟨hannounced, hterminated⟩ :=
    (sigkill_delivered_iff (Reachable.start.step (.queue thread sigkill))).2 thread thread
      0x8000 0 (by decide +kernel) (by decide +kernel) (by decide) (by decide)
  exact ⟨hannounced.mpr hidle.1, hterminated.mpr hidle⟩

end ArachKernel.LinuxSignal
