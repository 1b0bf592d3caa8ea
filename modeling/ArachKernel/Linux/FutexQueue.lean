import ArachKernel.Linux.Futex

/-!
The wait queue against the process table. Every entry belongs to a blocked task of the
entry's address space; entries have distinct tasks and distinct sequence numbers, in the
order of the waits. On such a queue a wake finds exactly the oldest entries of its key.
-/

namespace ArachKernel.LinuxFutex

open Process ProcessSlot FutexTable Finset Function Table

/-! ### The queue -/

/-- Entries are told apart by their tasks and by their sequence numbers. -/
structure Ordered (f : FutexTable) : Prop where
  positive : 0 < f.nextSequence
  free : ∀ a, (f.waiters a).occupied = false → f.waiters a = .empty
  owners : ∀ a b, (f.waiters a).occupied → (f.waiters b).occupied →
    (f.waiters a).owner = (f.waiters b).owner → a = b
  sequences : ∀ a b, (f.waiters a).occupied → (f.waiters b).occupied →
    (f.waiters a).sequence = (f.waiters b).sequence → a = b
  earlier : ∀ a, (f.waiters a).occupied → (f.waiters a).sequence < f.nextSequence

/-- The entries of a set are taken out. -/
def FutexTable.without (f : FutexTable) (W : Finset TaskIndex) : FutexTable :=
  { f with waiters := fun a => if a ∈ W then .empty else f.waiters a }

/-- The table with a new entry in a free place. -/
def FutexTable.enqueued (f : FutexTable) (a : TaskIndex) (owner : ProcessHandle)
    (key : FutexKey) : FutexTable :=
  { f.setWaiter a { owner, key, sequence := f.nextSequence } with
    nextSequence := f.nextSequence + 1 }

section Queue

variable {f g : FutexTable} {key : FutexKey} {owner : ProcessHandle}
  {W : Finset TaskIndex} {a : TaskIndex} {waiter : FutexWaiter}

@[simp] theorem empty_occupied : FutexWaiter.empty.occupied = false := rfl

theorem ownedBy_iff : waiter.ownedBy owner ↔ waiter.occupied ∧ waiter.owner = owner := by
  simp [FutexWaiter.ownedBy]

theorem waitsOn_iff : waiter.waitsOn key ↔ waiter.occupied ∧ waiter.key = key := by
  simp [FutexWaiter.waitsOn]

theorem containsOwner_eq_false :
    f.containsOwner owner = false ↔ ∀ a, (f.waiters a).ownedBy owner = false := by
  rw [containsOwner, Option.isSome_eq_false_iff, Option.isNone_iff_eq_none, Table.position_none]

/-- What is left was there before. -/
theorem without_occupied
    (h : ((f.without W).waiters a).occupied) : a ∉ W ∧ (f.without W).waiters a = f.waiters a := by
  by_cases ha : a ∈ W
  · simp [without, ha] at h
  · exact ⟨ha, if_neg ha⟩

theorem setWaiter_empty (a : TaskIndex) : f.setWaiter a .empty = f.without {a} := by
  have hwaiters : update f.waiters a .empty =
      fun b => if b ∈ ({a} : Finset _) then FutexWaiter.empty else f.waiters b := by
    funext b
    by_cases hb : b = a
    · simp [hb]
    · simp [hb]
  rw [setWaiter, without, hwaiters]

theorem without_without (V : Finset TaskIndex) : (f.without V).without W = f.without (V ∪ W) := by
  have hwaiters : (fun a => if a ∈ W then FutexWaiter.empty
        else if a ∈ V then FutexWaiter.empty else f.waiters a) =
      fun a => if a ∈ V ∪ W then .empty else f.waiters a := by
    funext a
    by_cases hV : a ∈ V <;> by_cases hW : a ∈ W <;> simp [hV, hW]
  simp [without, hwaiters]

theorem Ordered.without (h : Ordered f) (W : Finset TaskIndex) : Ordered (f.without W) where
  positive := h.positive
  free a ha := by
    by_cases haW : a ∈ W
    · exact if_pos haW
    · have heq : (f.without W).waiters a = f.waiters a := if_neg haW
      rw [heq] at ha ⊢
      exact h.free a ha
  owners a b ha hb heq := by
    have hwa := (without_occupied ha).2
    have hwb := (without_occupied hb).2
    rw [hwa] at ha heq
    rw [hwb] at hb heq
    exact h.owners a b ha hb heq
  sequences a b ha hb heq := by
    have hwa := (without_occupied ha).2
    have hwb := (without_occupied hb).2
    rw [hwa] at ha heq
    rw [hwb] at hb heq
    exact h.sequences a b ha hb heq
  earlier a ha := by
    have hwa := (without_occupied ha).2
    rw [hwa] at ha ⊢
    exact h.earlier a ha

/-- A cancel takes out the entry of the task, if it has one. -/
theorem cancel_eq (h : Ordered f) (owner : ProcessHandle) :
    (f.cancel owner).2 = f.without (univ.filter fun a => (f.waiters a).ownedBy owner) := by
  unfold cancel
  split
  next hnone =>
    have hemp : (univ.filter fun a => (f.waiters a).ownedBy owner) = ∅ := by
      simp [Table.position_none.mp hnone]
    simp [hemp, without]
  next a ha =>
  have hown := ownedBy_iff.mp (Table.position_some ha)
  have hset : (univ.filter fun b => (f.waiters b).ownedBy owner) = {a} := by
    ext b
    rw [mem_filter_univ, mem_singleton, ownedBy_iff]
    refine ⟨fun hb => h.owners b a hb.1 hown.1 (hb.2.trans hown.2.symm), ?_⟩
    rintro rfl
    exact hown
  rw [hset]
  exact setWaiter_empty a

/-- A new entry goes to a free place and gets the next sequence number. -/
theorem enqueue_ok (h : f.enqueue owner key = .ok g) :
    (∀ a, (f.waiters a).ownedBy owner = false) ∧ ∃ a, (f.waiters a).occupied = false ∧
      g = f.enqueued a owner key := by
  unfold enqueue at h
  split at h
  · cases h
  next hown =>
  split at h
  · cases h
  next next hnext =>
  split at h
  · cases h
  next a ha =>
  cases h
  refine ⟨containsOwner_eq_false.mp (by simpa using hown), a, by simpa using Table.position_some ha,
    ?_⟩
  rw [(checkedAdd_eq_some.mp hnext).2, enqueued]

theorem enqueued_self (f : FutexTable) (a : TaskIndex) (owner : ProcessHandle) (key : FutexKey) :
    (f.enqueued a owner key).waiters a = { owner, key, sequence := f.nextSequence } :=
  update_self ..

theorem enqueued_other (f : FutexTable) (owner : ProcessHandle) (key : FutexKey)
    {b : TaskIndex} (hb : b ≠ a) : (f.enqueued a owner key).waiters b = f.waiters b :=
  update_of_ne hb ..

theorem enqueued_ownedBy (h : Ordered f) (hval : owner.valid) (a : TaskIndex) :
    ((f.enqueued a owner key).waiters a).ownedBy owner := by
  rw [ProcessHandle.valid, Bool.and_eq_true] at hval
  simp [enqueued_self, FutexWaiter.ownedBy, FutexWaiter.occupied, hval.1, hval.2, h.positive.ne']

/-- A new entry keeps the order, and a task that had none has one now. -/
theorem Ordered.enqueue (h : Ordered f) (hval : owner.valid)
    (hnew : ∀ b, (f.waiters b).ownedBy owner = false) : Ordered (f.enqueued a owner key) := by
  have hnever {b : TaskIndex} (hb : (f.waiters b).occupied) :
      (f.waiters b).owner ≠ owner := fun heq => by
    simpa [hnew b] using ownedBy_iff.mpr ⟨hb, heq⟩
  have hocc : ((f.enqueued a owner key).waiters a).occupied :=
    (ownedBy_iff.mp (enqueued_ownedBy h hval a)).1
  rw [enqueued_self] at hocc
  refine ⟨Nat.succ_pos _, ?_, fun b c => ?_, fun b c => ?_, ?_⟩ <;>
    dsimp only [enqueued, setWaiter]
  · refine update_cases (fun hb => ?_) fun b _ => h.free b
    simp [hocc] at hb
  · refine update_cases ?_ (fun b _ => ?_) b <;> refine update_cases ?_ (fun c _ => ?_) c
    · exact fun _ _ _ => rfl
    · exact fun _ hc heq => absurd heq.symm (hnever hc)
    · exact fun hb _ heq => absurd heq (hnever hb)
    · exact h.owners b c
  · refine update_cases ?_ (fun b _ => ?_) b <;> refine update_cases ?_ (fun c _ => ?_) c
    · exact fun _ _ _ => rfl
    · exact fun _ hc heq => absurd heq (h.earlier c hc).ne'
    · exact fun hb _ heq => absurd heq (h.earlier b hb).ne
    · exact h.sequences b c
  · exact update_cases (fun _ => Nat.lt_succ_self _)
      fun b _ hb => (h.earlier b hb).trans (Nat.lt_succ_self _)

/-- Cancelling a new entry gives the old ones back. -/
theorem cancel_enqueued (h : Ordered f) (hval : owner.valid)
    (hnew : ∀ b, (f.waiters b).ownedBy owner = false) (hfree : (f.waiters a).occupied = false) :
    (cancel owner (f.enqueued a owner key)).2 = { f with nextSequence := f.nextSequence + 1 } := by
  rw [cancel_eq (h.enqueue hval hnew)]
  refine congrArg (fun waiters => { f with waiters, nextSequence := f.nextSequence + 1 }) ?_
  funext b
  by_cases hba : b = a
  · subst hba
    rw [if_pos, h.free b hfree]
    rw [mem_filter_univ]
    exact enqueued_ownedBy h hval b
  · rw [if_neg, enqueued_other f owner key hba]
    rw [mem_filter_univ, enqueued_other f owner key hba, hnew b]
    exact Bool.false_ne_true

end Queue

/-! ### Entries and blocked tasks -/

/-- Every entry belongs to a blocked task of the entry's address space. -/
structure Queued (s : State) : Prop where
  single : Single s.table
  ordered : Ordered s.futexes
  blocked : ∀ a, (s.futexes.waiters a).occupied → ∃ i,
    (s.table.slots i).handle = (s.futexes.waiters a).owner ∧ Asleep (s.table.slots i) ∧
    (s.table.slots i).launch.addressSpaceRoot = (s.futexes.waiters a).key.addressSpaceRoot

/-- The task in the slot has an entry. -/
def HasEntry (s : State) (i : TaskIndex) : Prop :=
  ∃ a, (s.futexes.waiters a).occupied ∧ (s.futexes.waiters a).owner = (s.table.slots i).handle

variable {s : State} {i j : TaskIndex}

theorem Queued.new : Queued .new where
  single := .new
  ordered :=
    { positive := Nat.one_pos
      free := fun _ _ => rfl
      owners := nofun
      sequences := nofun
      earlier := nofun }
  blocked _ ha := by cases ha

/-- Two occupied slots with one handle are one. -/
theorem Queued.slot_eq (h : Queued s) (hi : (s.table.slots i).occupied)
    (hj : (s.table.slots j).occupied)
    (heq : (s.table.slots i).handle = (s.table.slots j).handle) : i = j :=
  h.single.pid_inj i j hi hj (congrArg (·.pid) heq)

theorem Asleep.occupied {slot : ProcessSlot} (h : Asleep slot) : slot.occupied :=
  (asleep_iff.mp h).1

/-- The running task has no entry. -/
theorem Queued.running_no_entry (h : Queued s) (hi : RunningAt s.table i) : ¬ HasEntry s i := by
  rintro ⟨a, ha, hown⟩
  obtain ⟨j, hj, hasleep, _⟩ := h.blocked a ha
  have heq := h.slot_eq (Asleep.occupied hasleep) hi.occupied (hj.trans hown)
  subst heq
  exact hi.not_asleep hasleep

/-- A table in which the same tasks are asleep fits the same queue. -/
theorem Queued.quiet (h : Queued s) {t : Lifecycle} (hsing : Single t)
    (hquiet : Quiet s.table t) : Queued { s with table := t } where
  single := hsing
  ordered := h.ordered
  blocked a ha := by
    obtain ⟨i, hi, hasleep, hroot⟩ := h.blocked a ha
    have heq : t.slots i = s.table.slots i := hquiet i (.inl hasleep)
    refine ⟨i, ?_⟩
    rw [heq]
    exact ⟨hi, hasleep, hroot⟩

/-- Entries can be taken out. -/
theorem Queued.without (h : Queued s) (W : Finset TaskIndex) :
    Queued { s with futexes := s.futexes.without W } where
  single := h.single
  ordered := h.ordered.without W
  blocked a ha := by
    have hwa := (without_occupied ha).2
    rw [hwa] at ha ⊢
    exact h.blocked a ha

/-! ### Wake-ups -/

/-- The entries of a set are taken out and their tasks are runnable. -/
def State.awake (s : State) (W : Finset TaskIndex) : State where
  table :=
    { s.table with
      slots := fun i =>
        if ∃ a ∈ W, (s.table.slots i).holds (s.futexes.waiters a).owner = true then
          { s.table.slots i with phase := .runnable }
        else s.table.slots i }
  futexes := s.futexes.without W

theorem awake_slot_of_holds {W : Finset TaskIndex} {a : TaskIndex} (ha : a ∈ W)
    (hi : (s.table.slots i).holds (s.futexes.waiters a).owner) :
    (s.awake W).table.slots i = { s.table.slots i with phase := .runnable } :=
  if_pos ⟨a, ha, hi⟩

theorem awake_slot_of_not_holds {W : Finset TaskIndex}
    (hi : ∀ a ∈ W, (s.table.slots i).holds (s.futexes.waiters a).owner = false) :
    (s.awake W).table.slots i = s.table.slots i :=
  if_neg fun ⟨a, ha, hholds⟩ => by simp [hi a ha] at hholds

/-- A task is woken by the entry it owns. -/
theorem awake_slot (W : Finset TaskIndex) (i : TaskIndex) :
    (s.awake W).table.slots i = s.table.slots i ∧
        (∀ a ∈ W, (s.table.slots i).holds (s.futexes.waiters a).owner = false) ∨
      (s.awake W).table.slots i = { s.table.slots i with phase := .runnable } ∧
        ∃ a ∈ W, (s.table.slots i).holds (s.futexes.waiters a).owner := by
  by_cases hwoken : ∃ a ∈ W, (s.table.slots i).holds (s.futexes.waiters a).owner
  · exact .inr ⟨if_pos hwoken, hwoken⟩
  · have hnone : ∀ a ∈ W, (s.table.slots i).holds (s.futexes.waiters a).owner = false := by
      intro a ha
      by_contra hholds
      exact hwoken ⟨a, ha, by simpa using hholds⟩
    exact .inl ⟨awake_slot_of_not_holds hnone, hnone⟩

theorem holds_iff {slot : ProcessSlot} {handle : ProcessHandle} :
    slot.holds handle ↔ slot.occupied ∧ slot.handle = handle := by
  constructor
  · exact handle_of_holds
  · rintro ⟨hocc, rfl⟩
    simp [holds, handle, hocc]

/-- A task with an entry is asleep. -/
theorem Queued.asleep_of_holds (h : Queued s) {a : TaskIndex} (ha : (s.futexes.waiters a).occupied)
    (hi : (s.table.slots i).holds (s.futexes.waiters a).owner) : Asleep (s.table.slots i) := by
  obtain ⟨j, hj, hasleep, _⟩ := h.blocked a ha
  obtain ⟨hocc, hhd⟩ := holds_iff.mp hi
  have heq := h.slot_eq hocc (Asleep.occupied hasleep) (hhd.trans hj.symm)
  rwa [heq]

section Awake

variable {W : Finset TaskIndex}

/-- A wake changes nothing of a task but the phase. -/
theorem awake_sameImage (W : Finset TaskIndex) (i : TaskIndex) :
    SameImage (s.table.slots i) ((s.awake W).table.slots i) := by
  rcases awake_slot (s := s) W i with ⟨heq, _⟩ | ⟨heq, _⟩
  · rw [heq]
    exact .refl _
  · rw [heq]
    exact {}

/-- Who is still asleep after a wake was not woken. -/
theorem asleep_of_awake (h : Asleep ((s.awake W).table.slots i)) :
    (s.awake W).table.slots i = s.table.slots i ∧
      ∀ a ∈ W, (s.table.slots i).holds (s.futexes.waiters a).owner = false := by
  rcases awake_slot (s := s) W i with hslot | ⟨heq, _⟩
  · exact hslot
  · rw [heq, asleep_iff] at h
    cases h.2

/-- Only sleeping tasks are woken. -/
theorem Queued.awake_of_not_asleep (h : Queued s) (hW : ∀ a ∈ W, (s.futexes.waiters a).occupied)
    (hi : ¬ Asleep (s.table.slots i)) : (s.awake W).table.slots i = s.table.slots i := by
  rcases awake_slot (s := s) W i with ⟨heq, _⟩ | ⟨_, a, ha, hholds⟩
  · exact heq
  · exact absurd (h.asleep_of_holds (hW a ha) hholds) hi

theorem Queued.awake_running (h : Queued s) (hW : ∀ a ∈ W, (s.futexes.waiters a).occupied)
    (hi : RunningAt s.table i) : RunningAt (s.awake W).table i := by
  have heq := h.awake_of_not_asleep hW hi.not_asleep
  refine ⟨?_, ?_, ?_⟩
  · rw [heq, hi.occupied]
  · rw [heq, hi.phase]
  · rw [heq]
    exact hi.current

theorem Queued.awake_single (h : Queued s)
    (hW : ∀ a ∈ W, (s.futexes.waiters a).occupied) : Single (s.awake W).table where
  toNumbered := h.single.toNumbered.congr fun i =>
    ⟨(awake_sameImage W i).occupied, (awake_sameImage W i).handle⟩
  published i hi := by
    rcases awake_slot (s := s) W i with ⟨heq, _⟩ | ⟨heq, _⟩
    · rw [heq] at hi ⊢
      exact h.single.published i hi
    · simp [heq, inPhase] at hi
  current := h.single.current.imp_right fun ⟨i, hi⟩ => ⟨i, h.awake_running hW hi⟩

theorem Queued.awake (h : Queued s) (hW : ∀ a ∈ W, (s.futexes.waiters a).occupied) :
    Queued (s.awake W) where
  single := h.awake_single hW
  ordered := h.ordered.without W
  blocked a ha := by
    have hleft : a ∉ W ∧ (s.awake W).futexes.waiters a = s.futexes.waiters a := without_occupied ha
    rw [hleft.2] at ha ⊢
    obtain ⟨i, hi, hasleep, hroot⟩ := h.blocked a ha
    refine ⟨i, ?_⟩
    rcases awake_slot (s := s) W i with ⟨heq, _⟩ | ⟨_, b, hb, hholds⟩
    · rw [heq]
      exact ⟨hi, hasleep, hroot⟩
    · have hab := h.ordered.owners a b ha (hW b hb) (hi.symm.trans (holds_iff.mp hholds).2)
      exact absurd (hab ▸ hb) hleft.1

/-- A task that sleeps on keeps its entry. -/
theorem HasEntry.awake (h : HasEntry s i) (hasleep : Asleep ((s.awake W).table.slots i)) :
    HasEntry (s.awake W) i := by
  obtain ⟨a, ha, hown⟩ := h
  obtain ⟨heq, hnot⟩ := asleep_of_awake hasleep
  have haW : a ∉ W := by
    intro haW
    have hno := hnot a haW
    rw [heq] at hasleep
    simp [hown, holds_iff.mpr ⟨Asleep.occupied hasleep, rfl⟩] at hno
  have hwaiter : (s.awake W).futexes.waiters a = s.futexes.waiters a := if_neg haW
  exact ⟨a, by rwa [hwaiter], by rw [hwaiter, heq, hown]⟩

/-- Waking two sets, one after the other. -/
theorem awake_awake {V : Finset TaskIndex} (hVW : Disjoint V W) :
    (s.awake V).awake W = s.awake (V ∪ W) := by
  have hwaiters (a : TaskIndex) (ha : a ∈ W) :
      (s.futexes.without V).waiters a = s.futexes.waiters a :=
    if_neg (disjoint_right.mp hVW ha)
  have hslots : ((s.awake V).awake W).table.slots = (s.awake (V ∪ W)).table.slots := by
    funext i
    have hholds (handle : ProcessHandle) : ((s.awake V).table.slots i).holds handle =
        (s.table.slots i).holds handle := by
      rcases awake_slot (s := s) V i with ⟨heq, _⟩ | ⟨heq, _⟩ <;> rw [heq]
      rfl
    have hsnd (a : TaskIndex) (ha : a ∈ W) :
        ((s.awake V).table.slots i).holds ((s.awake V).futexes.waiters a).owner =
          (s.table.slots i).holds (s.futexes.waiters a).owner := by
      rw [hholds]
      exact congrArg (fun w => (s.table.slots i).holds w.owner) (hwaiters a ha)
    rcases awake_slot (s := s) (V ∪ W) i with ⟨heq, hnone⟩ | ⟨heq, a, ha, hyes⟩
    · rw [heq, awake_slot_of_not_holds, awake_slot_of_not_holds]
      · exact fun a ha => hnone a (mem_union_left W ha)
      · exact fun a ha => (hsnd a ha).trans (hnone a (mem_union_right V ha))
    rw [heq]
    by_cases haW : a ∈ W
    · rw [awake_slot_of_holds haW ((hsnd a haW).trans hyes)]
      rcases awake_slot (s := s) V i with ⟨heq, _⟩ | ⟨heq, _⟩ <;> rw [heq]
    · have hV := awake_slot_of_holds ((mem_union.mp ha).resolve_right haW) hyes
      rcases awake_slot (s := s.awake V) W i with ⟨heq', _⟩ | ⟨heq', _⟩ <;> rw [heq', hV]
  have htab : ((s.awake V).awake W).table = (s.awake (V ∪ W)).table :=
    congrArg (fun slots => { s.table with slots }) hslots
  have hfut : ((s.awake V).awake W).futexes = (s.awake (V ∪ W)).futexes := without_without V
  exact congrArg₂ State.mk htab hfut

/-! ### The loop -/

/-- The entries that wait on a key. -/
def waiting (f : FutexTable) (key : FutexKey) : Finset TaskIndex :=
  Finset.univ.filter fun a => (f.waiters a).waitsOn key

/-- Entries of a key that have waited longer than all its other entries. -/
def Longest (f : FutexTable) (key : FutexKey) (W : Finset TaskIndex) : Prop :=
  W ⊆ waiting f key ∧ ∀ a ∈ W, ∀ b ∈ waiting f key, b ∉ W →
    (f.waiters a).sequence < (f.waiters b).sequence

variable {a : TaskIndex} {key : FutexKey} {f : FutexTable}

theorem mem_waiting : a ∈ waiting f key ↔ (f.waiters a).occupied ∧ (f.waiters a).key = key := by
  rw [waiting, mem_filter_univ, waitsOn_iff]

/-- Waking the task of an entry. -/
theorem Queued.markRunnable (h : Queued s) (ha : (s.futexes.waiters a).occupied) :
    (LifecycleCall.markRunnable (s.futexes.waiters a).owner).exec s.table =
      (.ok (), (s.awake {a}).table) := by
  obtain ⟨i, hi, hasleep, _⟩ := h.blocked a ha
  obtain ⟨hocc, hph⟩ := asleep_iff.mp hasleep
  have hholds := holds_iff.mpr ⟨hocc, hi⟩
  have hpid : ((s.futexes.waiters a).owner.pid != noPid) := by
    rw [← hi, bne_iff_ne]
    exact h.single.pid_ne i hocc
  have htab : s.table.setPhase i .runnable = (s.awake {a}).table := by
    refine congrArg (fun slots => { s.table with slots }) (funext fun j => ?_)
    by_cases hj : j = i
    · subst hj
      simp [hholds]
    · have hnot : (s.table.slots j).holds (s.futexes.waiters a).owner = false := by
        by_contra hholds'
        rw [Bool.not_eq_false, holds_iff] at hholds'
        exact hj (h.slot_eq hholds'.1 hocc (hholds'.2.trans hi.symm))
      simp [hj, hnot]
  rw [← htab]
  simp [LifecycleCall.exec, LifecycleCall.op, Process.markRunnable, hpid, hph,
    slotByHandle_eq h.single.toNumbered hholds]

theorem awake_empty : s.awake ∅ = s := by
  simp [State.awake, without]

theorem takeOldest_eq (ha : s.futexes.oldest key = some a) :
    s.futexes.takeOldest key = some ((s.futexes.waiters a).owner, (s.awake {a}).futexes) := by
  rw [takeOldest, ha, Option.map_some, setWaiter_empty]
  rfl

/-- One turn of the loop wakes the oldest entry of the key. -/
theorem Queued.wakeLoop_step (h : Queued s) {maximum woken : ℕ} (hlt : woken < maximum)
    (ha : s.futexes.oldest key = some a) :
    wakeLoop key maximum woken s = wakeLoop key maximum (woken + 1) (s.awake {a}) := by
  have hocc := (waitsOn_iff.mp (oldest_some ha).1).1
  rw [wakeLoop, if_pos hlt]
  split
  next hnone =>
    simp [takeOldest_eq ha] at hnone
  next hsome =>
  rw [takeOldest_eq ha] at hsome
  cases hsome
  rw [h.markRunnable hocc]

theorem Longest.insert (h : Ordered f)
    (ha : f.oldest key = some a) (hW : Longest (f.without {a}) key W) :
    a ∉ W ∧ Longest f key (insert a W) ∧ waiting (f.without {a}) key = (waiting f key).erase a := by
  obtain ⟨hfst, hmin⟩ := oldest_some ha
  have hwait : waiting (f.without {a}) key = (waiting f key).erase a := by
    ext b
    by_cases hb : b = a
    · simp [mem_waiting, without, hb]
    · simp [mem_waiting, without, hb]
  obtain ⟨hsub, hlonger⟩ := hW
  rw [hwait] at hsub hlonger
  have hleft {b : TaskIndex} (hb : b ≠ a) : (f.without {a}).waiters b = f.waiters b :=
    if_neg (by simpa using hb)
  refine ⟨fun haW => notMem_erase a _ (hsub haW), ⟨?_, ?_⟩, hwait⟩
  · intro b hb
    rcases mem_insert.mp hb with rfl | hb
    · exact mem_waiting.mpr (waitsOn_iff.mp hfst)
    · exact mem_of_mem_erase (hsub hb)
  · intro b hb c hc hcW
    rw [mem_insert, not_or] at hcW
    have hcwaits := mem_waiting.mp hc
    rcases mem_insert.mp hb with rfl | hb
    · refine lt_of_le_of_ne (hmin c (waitsOn_iff.mpr hcwaits)) fun heq => hcW.1 ?_
      exact (h.sequences b c (waitsOn_iff.mp hfst).1 hcwaits.1 heq).symm
    · have hlt := hlonger b hb c (mem_erase.mpr ⟨hcW.1, hc⟩) hcW.2
      rwa [hleft (ne_of_mem_erase (hsub hb)), hleft hcW.1] at hlt

/-- A wake takes the longest-waiting entries of its key: as many as it asks for, or all. -/
theorem Queued.wakeLoop (h : Queued s) (key : FutexKey) (maximum woken : ℕ) :
    ∃ W, Longest s.futexes key W ∧ W.card = min (maximum - woken) (waiting s.futexes key).card ∧
      LinuxFutex.wakeLoop key maximum woken s = (woken + W.card, s.awake W) := by
  -- each turn takes one entry out of the table
  induction hn : s.futexes.occupancy using Nat.strong_induction_on generalizing s woken with
  | _ n ih =>
    have hstop : LinuxFutex.wakeLoop key maximum woken s = (woken, s) →
        min (maximum - woken) (waiting s.futexes key).card = 0 → ∃ W, Longest s.futexes key W ∧
          W.card = min (maximum - woken) (waiting s.futexes key).card ∧
          LinuxFutex.wakeLoop key maximum woken s = (woken + W.card, s.awake W) := by
      intro hloop hzero
      refine ⟨∅, ⟨empty_subset _, fun a ha => absurd ha (notMem_empty a)⟩, ?_, ?_⟩
      · rw [hzero, card_empty]
      · rw [hloop, awake_empty, card_empty, Nat.add_zero]
    by_cases hlt : woken < maximum
    · cases ha : s.futexes.oldest key with
      | none =>
        apply hstop
        · rw [LinuxFutex.wakeLoop, if_pos hlt]
          split
          · rfl
          · next hsome => simp [takeOldest, ha] at hsome
        · have hnone := oldest_none.mp ha
          simp [waiting, hnone]
      | some a =>
        have hocc := (waitsOn_iff.mp (oldest_some ha).1).1
        have hfewer : (s.awake {a}).futexes.occupancy < n := by
          rw [← hn]
          exact occupancy_takeOldest (takeOldest_eq ha)
        have hnext : Queued (s.awake {a}) := h.awake (by simpa using hocc)
        obtain ⟨W, hlongest, hcard, hloop⟩ := ih _ hfewer hnext (woken + 1) rfl
        obtain ⟨haW, hlongest', hwait⟩ := hlongest.insert h.ordered ha
        have hmem : a ∈ waiting s.futexes key :=
          mem_waiting.mpr (waitsOn_iff.mp (oldest_some ha).1)
        have hcards : (waiting (s.awake {a}).futexes key).card + 1 =
            (waiting s.futexes key).card := by
          have herase : waiting (s.awake {a}).futexes key = (waiting s.futexes key).erase a :=
            hwait
          rw [herase, card_erase_add_one hmem]
        refine ⟨insert a W, hlongest', ?_, ?_⟩
        · rw [card_insert_of_notMem haW]
          omega
        · rw [h.wakeLoop_step hlt ha, hloop, card_insert_of_notMem haW,
            awake_awake (disjoint_singleton_left.mpr haW), singleton_union]
          rw [Nat.add_assoc, Nat.add_comm 1]
    · apply hstop
      · rw [LinuxFutex.wakeLoop, if_neg hlt]
      · omega

end Awake

end ArachKernel.LinuxFutex
