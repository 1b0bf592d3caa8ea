import ArachKernel.Linux.SectionSpecs
import ArachKernel.Linux.Watches

/-!
Keys of objects that are gone. A slot of the object table only grows older: it ages when it
becomes vacant, and when it gets an object under the next generation. So a key whose object
is gone reaches none ever after, whoever holds it. A watch holds the key that `epoll_ctl`
found under its descriptor, and `epoll_wait` asks for nothing but that key.
-/

namespace ArachKernel.LinuxFd

open Registry Kernel
open LinuxEpoll (ReadyEvent Watching epollIn epollErr epollHup epollCtlAdd)
open Relation (ReflTransGen)

/-- Under a generation a slot is first occupied and then vacant. -/
def OpenObject.age (o : OpenObject) : ℕ := 2 * o.generation + if o.kind.occupied then 0 else 1

structure Ages (r r' : Registry) : Prop where
  age_le : ∀ i, (r.objects i).age ≤ (r'.objects i).age

variable {r r' r'' : Registry} {i : ObjectIndex} {object : OpenObject} {α β : Type}
  {owner : ProcessHandle} {key : ObjectKey}

theorem live_iff : r.live key ↔ (r.objects key.index).age = 2 * key.generation := by
  rw [live, OpenObject.age, Bool.and_eq_true, beq_iff_eq]
  split <;> simp_all
  omega

namespace Ages

variable {sp : SpaceIndex} {fd : FdIndex}

theorem refl : Ages r r := ⟨fun _ => le_rfl⟩

theorem trans (h : Ages r r') (h' : Ages r' r'') : Ages r r'' :=
  ⟨fun i => (h.age_le i).trans (h'.age_le i)⟩

theorem setSpace {space : DescriptorSpace} : Ages r (r.setSpace sp space) := ⟨fun _ => le_rfl⟩

theorem setObject (h : (r.objects i).age ≤ object.age) : Ages r (r.setObject i object) :=
  ⟨setObject_cases h fun _ _ => le_rfl⟩

theorem fresh (heq : object.generation = (r.objects i).generation + 1) :
    Ages r (r.setObject i object) := by
  apply setObject
  rw [OpenObject.age, OpenObject.age]
  split <;> omega

theorem take : Ages r (r.take i) := by
  apply setObject
  rw [OpenObject.age]
  split <;> simp [OpenObject.age, OpenObject.empty, OpenObjectKind.occupied]

theorem settle (h : (r.objects i).age ≤ object.age) :
    Ages r ((r.setObject i object).maybeTakeClosing i).2 := by
  rw [maybeTakeClosing]
  split
  · exact (setObject h).trans take
  · exact setObject h

theorem unshareObject : Ages r (r.unshareObject i).2 := settle le_rfl

theorem reserve (r : Registry) (key : ObjectKey) : Ages r (r.reserve key) := setObject le_rfl

theorem shareObject (h : r.shareObject i = some r') : Ages r r' := by
  obtain rfl := shareObject_eq_some h
  exact reserve ..

theorem attach {closeOnExec : Bool} : Ages r (r.attach sp fd i closeOnExec) := by
  refine .trans ?_ setSpace
  exact setObject le_rfl

theorem acquireObject : Ages r (r.acquireObject i).2 := by
  rcases acquireObject_cases (r := r) i with heq | heq <;> rw [heq]
  · exact refl
  · exact setObject le_rfl

theorem foldl {σ ι : Type} (registry : σ → Registry) {f : σ → ι → σ}
    (hf : ∀ s x, Ages (registry s) (registry (f s x))) (xs : List ι) (s : σ) :
    Ages (registry s) (registry (xs.foldl f s)) := by
  induction xs generalizing s with
  | nil => exact refl
  | cons x xs ih => exact (hf s x).trans (ih (f s x))

/-- A section that may be refused. -/
theorem guard {p : Prop} [Decidable p] {answer : α} {result : α × Registry}
    (h : Ages r result.2) : Ages r (if p then (answer, r) else result).2 := by
  split
  · exact refl
  · exact h

theorem initializeStandardDescriptors (sp : SpaceIndex)
    (attached : List FdIndex)
    (standard : List (FdIndex × OpenObjectKind × Flags)) (r : Registry) :
    Ages r (initializeStandardDescriptors sp attached standard r).2 := by
  induction standard generalizing attached r with
  | nil => exact refl
  | cons entry standard ih =>
    rw [Registry.initializeStandardDescriptors]
    split
    · refine foldl id (fun r fd => ?_) attached r
      rw [detachStandard]
      split
      · exact refl
      · exact .trans setSpace take
    next hnew =>
      obtain ⟨_, rfl⟩ := allocateObject_eq_some hnew
      exact .trans (fresh rfl) (attach.trans (ih ..))

theorem ensureSpace (owner : ProcessHandle) (r : Registry) : Ages r (r.ensureSpace owner).2 := by
  refine guard ?_
  split
  · exact refl
  split
  · exact refl
  next sp _ =>
  have hages := initializeStandardDescriptors sp [] standardDescriptors (r.setOwner sp owner)
  split <;> rename_i heq <;> rw [heq] at hages
  · exact setSpace.trans hages
  · exact setSpace.trans (hages.trans setSpace)

theorem inSpace {body : SpaceIndex → Registry → Answer α × Registry}
    (hbody : ∀ sp r, Ages r (body sp r).2) : Ages r (inSpace owner body r).2 := by
  have hages := ensureSpace owner r
  rw [Registry.inSpace]
  split <;> rename_i heq <;> rw [heq] at hages
  · exact hages
  · exact hages.trans (hbody ..)

theorem onDescriptor {fd : ℕ} {body : SpaceIndex → FdIndex →
      ObjectIndex → Registry → Answer α × Registry}
    (hbody : ∀ sp fd i r, Ages r (body sp fd i r).2) : Ages r (onDescriptor owner fd body r).2 := by
  refine inSpace fun sp r => ?_
  split
  · exact refl
  · exact hbody ..

theorem sweepDescriptor {onlyCloseOnExec : Bool} (state : Sweep × Registry)
    (fd : FdIndex) :
    Ages state.2 (sweepDescriptor sp onlyCloseOnExec state fd).2 := by
  rw [Registry.sweepDescriptor]
  split
  · exact refl
  · exact guard (.trans setSpace unshareObject)

theorem execRegistry (c : RegistryCall β) : Ages r (execRegistry β c r).2 := by
  cases c with
  | installBackendObject =>
    refine inSpace fun _ r => ?_
    split
    · exact refl
    split
    · exact refl
    next hnew =>
      obtain ⟨_, rfl⟩ := allocateObject_eq_some hnew
      exact .trans (fresh rfl) attach
  | installObjectPair =>
    refine inSpace fun _ r => ?_
    dsimp only
    split
    next hfirst hsecond =>
      rw [hfirst] at hsecond
      split
      next hg hg' =>
        obtain rfl := nextGeneration_eq_some hg
        obtain rfl := nextGeneration_eq_some hg'
        refine .trans (fresh rfl) (.trans (fresh ?_) (attach.trans attach))
        rw [setObject_objects_ne (positionAfter_some hsecond).1.ne']
      · exact refl
    · exact refl
  | acquireDescriptor => exact onDescriptor fun _ _ _ _ => guard acquireObject
  | acquireKey => exact guard acquireObject
  | releaseLease | dropKeyReference => exact guard (settle le_rfl)
  | retainKey =>
    refine guard ?_
    split
    · exact refl
    · exact setObject le_rfl
  | close => exact onDescriptor fun _ _ _ _ => guard (.trans setSpace unshareObject)
  | duplicate =>
    refine guard (onDescriptor fun _ _ _ r => ?_)
    split
    · exact refl
    refine guard ?_
    split
    · exact refl
    next hshare => exact (shareObject hshare).trans setSpace
  | duplicateTo =>
    refine onDescriptor fun _ _ _ r => guard ?_
    split
    · split
      · exact refl
      next hshare => exact (shareObject hshare).trans setSpace
    split
    · exact setSpace
    refine guard ?_
    split
    · exact refl
    next hshare => exact (shareObject hshare).trans (.trans setSpace unshareObject)
  | descriptorFlags => exact onDescriptor fun _ _ _ _ => refl
  | setDescriptorFlags => exact guard (onDescriptor fun _ _ _ _ => setSpace)
  | setStatusFlags =>
    refine onDescriptor fun _ _ _ r => ?_
    exact setObject (r := r) le_rfl
  | captureTransfers =>
    refine guard (inSpace fun _ r => ?_)
    split
    · exact refl
    · exact foldl id reserve _ r
  | installTransfers =>
    refine guard (inSpace fun _ r => guard (guard ?_))
    exact foldl id (fun _ _ => setSpace) _ r
  | releaseTransfer => exact guard unshareObject
  | closeMatching =>
    rw [LinuxFd.execRegistry, closeMatchingLocked]
    split
    · exact refl
    dsimp only
    split
    · exact foldl Prod.snd sweepDescriptor _ (_, r)
    · exact (foldl Prod.snd sweepDescriptor _ (_, r)).trans setSpace

theorem exec (c : KernelCall β) (s : Kernel) : Ages s.registry (exec β c s).2.registry := by
  cases c with
  | registry c => exact execRegistry c
  | environment c => cases c <;> exact refl
  | _ => exact refl

theorem of_reachable {s s' : Kernel} (h : Reachable Kernel.exec s s') :
    Ages s.registry s'.registry :=
  h.invariant (P := fun s' => Ages s.registry s'.registry) refl fun c s' hs => hs.trans (exec c s')

/-- A key that was live and is not will not be. -/
theorem not_live (h : Ages r r') (hpast : 2 * key.generation ≤ (r.objects key.index).age)
    (hgone : r.live key = false) : r'.live key = false := by
  have hle := h.age_le key.index
  rw [Bool.eq_false_iff, Ne, live_iff] at *
  omega

end Ages

theorem acquireKey_of_not_live (h : r.live key = false) :
    r.acquireKey key = (.error .badFileDescriptor, r) := by
  simp [acquireKey, h]

theorem targetReadiness_of_not_live {s : Kernel} (h : s.registry.live key = false) :
    (targetReadiness key).run exec s = (none, s) := by
  rw [targetReadiness, Prog.run_bind, readinessByKey, Prog.run_bind, run_registry, execRegistry,
    acquireKey_of_not_live h]
  rfl

/-- Once the object of a key is gone, the key is refused wherever it is looked up, and a
watch of it observes nothing. An event of `epoll_wait` is that of a watch of the epoll object. It
is what the object for which this watch was added answers when it is asked during the scan, or
an error when that object is gone. And `epoll_ctl` adds watches of no other object than the one
that its descriptor names. -/
theorem stale_key_never_resolves :
    (∀ {key : ObjectKey} {s₀ s₁ s₂ : Kernel}, Reachable exec s₀ s₁ → Reachable exec s₁ s₂ →
      s₀.registry.live key → s₁.registry.live key = false →
      s₂.registry.acquireKey key = (.error .badFileDescriptor, s₂.registry) ∧
        s₂.registry.retainKey key = (.error .badFileDescriptor, s₂.registry) ∧
        s₂.registry.installable key = false ∧
        (targetReadiness key).run exec s₂ = (none, s₂)) ∧
    (∀ {s : Kernel} {owner : ProcessHandle} {epfd room : ℕ} {events : List ReadyEvent}
      {event : ReadyEvent}, Reached s →
      ((epollWait owner epfd room).run exec s).1 = .ok events → event ∈ events →
      ∃ w t, WatchedBy owner epfd s w t ∧ event.data = w.data ∧ Reports t w event ∧
        Added s w.target w.events w.data ∧
        ∀ s₀, Reachable exec s₀ s → s₀.registry.live w.target →
          s.registry.live w.target = false → event.events = epollErr ||| epollHup) ∧
    ∀ (s : Kernel) (owner : ProcessHandle) (epfd operation fd data : ℕ) (events : Flags),
      Watching (fun target _ _ => (∃ index i, ((s.epolls index).watches i).target = target) ∨
        ∃ epoll r lease r', s.registry.acquireDescriptor owner epfd = (.ok epoll, r) ∧
          r.acquireDescriptor owner fd = (.ok lease, r') ∧ lease.key = target)
        ((epollCtl owner epfd operation fd events data).run exec s).2.epolls := by
  refine ⟨fun h₁ h₂ hlive hgone => ?_, fun hs hwait hevent => ?_,
    fun s owner epfd operation fd data events => ?_⟩
  · have hpast := (live_iff.1 hlive).ge.trans ((Ages.of_reachable h₁).age_le _)
    have hdead := (Ages.of_reachable h₂).not_live hpast hgone
    exact ⟨acquireKey_of_not_live hdead, by simp [retainKey, hdead], by simp [installable, hdead],
      targetReadiness_of_not_live hdead⟩
  · obtain ⟨w, t, hw, hreports⟩ := epollWait_events hwait hevent
    refine ⟨w, t, hw, hreports.data_eq, hreports, hw.meets (watching_added hs),
      fun s₀ h₀ hlive hgone => ?_⟩
    have hpast := (live_iff.1 hlive).ge.trans ((Ages.of_reachable h₀).age_le _)
    exact hreports.events_eq
      (by rw [targetReadiness_of_not_live ((Ages.of_reachable hw.reachable).not_live hpast hgone)])
  · exact watching_epollCtl (fun index i _ => .inl ⟨index, i, rfl⟩)
      fun epoll r lease r' hepoll hlease => .inr ⟨epoll, r, lease, r', hepoll, hlease, rfl⟩

/-- An epoll object at descriptor 3 watches an event counter at descriptor 4. -/
def watching : Kernel :=
  ((epollCtl caller 3 epollCtlAdd 4 epollIn 77).run exec
    ((eventfdCreate caller 1 0).run exec ((epollCreate caller 0).run exec idle).2).2).2

theorem reached_watching : Reached watching :=
  ((reached_idle.run _).run _).run _

/-- The counter reports. It is closed, and the next one takes its descriptor and its slot: the
old key is dead, and nothing is reported for the new one. -/
theorem stale_key_counter :
    let reused := ((eventfdCreate caller 1 0).run exec ((close caller 4).run exec watching).2).2
    ((epollWait caller 3 8).run exec watching).1 = .ok [⟨epollIn, 77⟩] ∧
      (∃ w t, WatchedBy caller 3 watching w t ∧ 77 = w.data ∧ Reports t w ⟨epollIn, 77⟩ ∧
        Added watching w.target w.events w.data) ∧
      reused.registry.live ⟨4, 2⟩ ∧ (targetReadiness ⟨4, 1⟩).run exec reused = (none, reused) ∧
      ((epollWait caller 3 8).run exec reused).1 = .ok [] := by
  have hwait : ((epollWait caller 3 8).run exec watching).1 = .ok [⟨epollIn, 77⟩] := by
    decide +kernel
  obtain ⟨w, t, hw, hdata, hreports, hadded, -⟩ :=
    stale_key_never_resolves.2.1 reached_watching hwait (List.mem_singleton_self _)
  refine ⟨hwait, ⟨w, t, hw, hdata, hreports, hadded⟩, by decide +kernel, ?_, by decide +kernel⟩
  have hlive : watching.registry.live ⟨4, 1⟩ := by decide +kernel
  exact (stale_key_never_resolves.1 (Reachable.start.run (close caller 4))
    (Reachable.start.run (eventfdCreate caller 1 0)) hlive (by decide +kernel)).2.2.2

end ArachKernel.LinuxFd
