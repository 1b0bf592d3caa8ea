import ArachKernel.Linux.Finalization

/-!
Where the watches of epoll objects come from and what they report. Every watch was made by a
section of `epoll_ctl`, for the object that the call found under its descriptor, and an event of
`epoll_wait` is what the object of its watch answered.
-/

namespace ArachKernel.LinuxEpoll

open Table Function

variable {Q : ObjectKey → Flags → ℕ → Prop} {w : Watch} {t : EpollTable} {slot : EpollSlot}

/-- What a watch is for satisfies `Q`, unless it is empty. -/
def Watch.Meets (Q : ObjectKey → Flags → ℕ → Prop) (w : Watch) : Prop :=
  w.occupied → Q w.target w.events w.data

theorem Watch.Meets.empty : Watch.empty.Meets Q := nofun

def Watching (Q : ObjectKey → Flags → ℕ → Prop) (t : EpollTable) : Prop :=
  ∀ index i, ((t index).watches i).Meets Q

theorem Watching.update {index : Fin maximumEpollObjects} (h : Watching Q t)
    (hslot : ∀ i, (slot.watches i).Meets Q) : Watching Q (update t index slot) :=
  (forall_update_iff t fun _ slot => ∀ i, (slot.watches i).Meets Q).2
    ⟨hslot, fun index _ => h index⟩

theorem meets_setWatch {i : Fin maximumEpollWatches} (h : ∀ i, (slot.watches i).Meets Q)
    (hw : w.Meets Q) : ∀ j, ((slot.setWatch i w).watches j).Meets Q :=
  (forall_update_iff slot.watches fun _ w => w.Meets Q).2 ⟨hw, fun j _ => h j⟩

/-- The section that makes watches. -/
theorem Watching.ctlLocked {owner : ProcessHandle} {epfd operation data : ℕ} {target : ObjectKey}
    {events : Flags} (h : Watching Q t) (hQ : operation ≠ epollCtlDel →
      (ctlLocked owner epfd operation target events data t).1 = .ok () → Q target events data) :
    Watching Q (ctlLocked owner epfd operation target events data t).2 := by
  have hregister {index : Fin maximumEpollObjects} {i : Fin maximumEpollWatches} {slot : EpollSlot}
      (heq : register (t index) i target events data = some slot) (hQ : Q target events data) :
      Watching Q (Function.update t index slot) := by
    rw [register] at heq
    split at heq
    · cases heq
    · cases heq
      exact h.update (meets_setWatch (h index) fun _ => hQ)
  revert hQ
  rw [LinuxEpoll.ctlLocked]
  dsimp only
  split
  · exact fun _ => h
  split
  next hop =>
    split
    · exact fun _ => h
    split
    · exact fun _ => h
    split
    · exact fun _ => h
    next hnew => exact fun hQ => hregister hnew (hQ (by rw [hop]; decide) rfl)
  split
  next hop =>
    split
    · exact fun _ => h
    split
    · exact fun _ => h
    next hnew => exact fun hQ => hregister hnew (hQ (by rw [hop]; decide) rfl)
  split
  · split
    · exact fun _ => h
    · exact fun _ => h.update (meets_setWatch (h _) .empty)
  · exact fun _ => h

/-- A scan stores nothing of what a watch is for. -/
theorem meets_storeScanned (scanned : List Watch) (h : ∀ i, (slot.watches i).Meets Q) :
    ∀ i, ((scanned.foldl storeScanned slot).watches i).Meets Q := by
  induction scanned generalizing slot with
  | nil => exact h
  | cons watch scanned ih =>
    refine ih ?_
    rw [storeScanned]
    split
    · exact h
    next j _ => exact meets_setWatch h (h j)

/-- The watch that a section may make satisfies `Q`. -/
def EpollCall.Meets (Q : ObjectKey → Flags → ℕ → Prop) (t : EpollTable) :
    {β : Type} → EpollCall β → Prop
  | _, .ctlLocked owner epfd operation target events data => operation ≠ epollCtlDel →
    (LinuxEpoll.ctlLocked owner epfd operation target events data t).1 = .ok () →
      Q target events data
  | _, _ => True

theorem Watching.exec {β : Type} {c : EpollCall β} (h : Watching Q t) (hc : c.Meets Q t) :
    Watching Q (exec β c t).2 := by
  cases c with
  | create =>
    simp only [LinuxEpoll.exec, create]
    split
    · exact h
    split
    · exact h
    · exact h.update fun _ => .empty
  | ctlLocked => exact h.ctlLocked hc
  | watchesOf => exact h
  | storeWatches owner epfd scanned =>
    simp only [LinuxEpoll.exec, storeWatches]
    split
    · exact h
    · exact h.update (meets_storeScanned scanned (h _))
  | close =>
    simp only [LinuxEpoll.exec, close]
    split
    · exact h
    split
    · exact h
    · exact h.update fun _ => .empty
  | removeTarget =>
    intro index i
    simp only [LinuxEpoll.exec, removeTarget, clearTarget]
    split
    · dsimp only
      split
      · exact .empty
      · exact h index i
    · exact h index i

end ArachKernel.LinuxEpoll

namespace ArachKernel.LinuxFd

open Kernel
open LinuxEpoll hiding exec
open Relation (ReflTransGen)

variable {s : Kernel} {P : Kernel → Prop} {w : Watch} {owner : ProcessHandle} {fd epfd room : ℕ}
  {α β : Type}

/-- A section of `epoll_ctl` with these arguments succeeded before the state `s`. -/
def Added (s : Kernel) (target : ObjectKey) (events : Flags) (data : ℕ) : Prop :=
  ∃ t owner epfd operation, Reached t ∧ operation ≠ epollCtlDel ∧
    let added := (KernelProg.epoll (.ctlLocked owner epfd operation target events data)).run exec t
    added.1 = .ok () ∧ Reachable exec added.2 s

theorem watching_added (h : Reached s) : Watching (Added s) s.epolls := by
  obtain ⟨now, files, memfds, h⟩ := h
  induction h with
  | start => exact fun _ _ hocc => nomatch hocc
  | @step β s c hs ih =>
    have hbefore : Watching (Added (exec β c s).2) s.epolls := fun index i hocc => by
      obtain ⟨t, owner, epfd, operation, ht, hop, hok, hs⟩ := ih index i hocc
      exact ⟨t, owner, epfd, operation, ht, hop, hok, hs.step c⟩
    cases c with
    | epoll c | rollback c =>
      refine hbefore.exec ?_
      cases c with
      | ctlLocked owner epfd operation =>
        exact fun hop hok => ⟨s, owner, epfd, operation, ⟨_, _, _, hs⟩, hop, hok, .start⟩
      | _ => trivial
    | environment c => cases c <;> exact hbefore
    | _ => exact hbefore

/-! ### `epoll_ctl` -/

/-- All sections but those of `epoll_ctl`, and the end of the bound on nested finalizations. -/
def Plain : {β : Type} → KernelCall β → Prop
  | _, .epoll (.ctlLocked ..) | _, .rollback _ | _, .environment .exhaust => False
  | _, _ => True

theorem Releasing.plain {c : KernelCall β} (h : Releasing c) : Plain c := by
  unfold Plain
  split <;> simp_all [Releasing]

section Plain

variable (hP : ∀ {β : Type} (c : KernelCall β) (s : Kernel), Plain c → P s → P (exec β c s).2)
include hP

theorem releasing {β : Type} (c : KernelCall β) (s : Kernel) (hc : Releasing c) :
    P s → P (exec β c s).2 := hP c s hc.plain

theorem keeps_call {c : KernelCall β} (hc : Plain c) : (Prog.perform c).Keeps exec P :=
  fun s => hP c s hc

theorem keeps_releaseLease (lease : ObjectLease) : (releaseLease lease).Keeps exec P :=
  .bind (keeps_call hP (by trivial)) fun _ => .each (keeps_finalizing (releasing hP)) _

/-- Under the lease that the registry grants. -/
theorem keeps_leased {s : Kernel} {body : ObjectLease → KernelProg (Answer α)} (hs : P s)
    (hbody : ∀ lease r, s.registry.acquireDescriptor owner fd = (.ok lease, r) →
      P ((body lease).run exec { s with registry := r }).2) :
    P ((withDescriptor owner fd body).run exec s).2 := by
  have hacquire := hP (.registry (.acquireDescriptor owner fd)) s trivial hs
  rw [withDescriptor, Prog.run_bind, run_registry, execRegistry]
  rw [Kernel.exec, execRegistry] at hacquire
  cases heq : s.registry.acquireDescriptor owner fd with
  | mk answer r =>
    rw [heq] at hacquire
    cases answer with
    | error e => exact hacquire
    | ok lease =>
      simp only [Prog.run_bind]
      exact keeps_releaseLease hP lease _ (hbody lease r heq)

theorem keeps_readinessOf (lease : ObjectLease) (nowNs : ℕ) :
    (readinessOf lease nowNs).Keeps exec P := by
  have call {β : Type} {c : KernelCall β} (hc : Plain c) := keeps_call hP hc
  unfold readinessOf
  split
  case h_1 | h_2 | h_3 | h_13 | h_14 => exact .pure
  case h_4 | h_5 => exact .bind (call (by trivial)) fun _ => .pure
  all_goals
    exact .except (call (by trivial)) (fun _ => .pure) fun _ =>
      .except (call (by trivial)) (fun _ => .pure) fun _ => .pure

theorem keeps_targetReadiness (target : ObjectKey) : (targetReadiness target).Keeps exec P := by
  refine .bind (.except (keeps_call hP (by trivial)) (fun _ => .pure) fun lease => ?_)
    fun _ => .pure
  exact .bind (keeps_call hP (by trivial)) fun _ => (keeps_readinessOf hP lease _).bind fun _ =>
    (keeps_releaseLease hP lease).bind fun _ => .pure

theorem keeps_epollCtlLeased {lease target : ObjectLease} {operation data : ℕ} {events : Flags}
    (hctl : ∀ owner epfd, (KernelProg.epoll
      (.ctlLocked owner epfd operation target.key events data)).Keeps exec P)
    (hdel : ∀ owner epfd, (Prog.perform (KernelCall.rollback
      (.ctlLocked owner epfd epollCtlDel target.key 0 0))).Keeps exec P) :
    (epollCtlLeased lease target operation events data).Keeps exec P := by
  have htable (owner epfd) :
      (epollTableCtl owner epfd operation target.key events data).Keeps exec P := by
    rw [epollTableCtl]
    split_ifs
    · exact .pure
    · exact hctl owner epfd
    · refine (keeps_targetReadiness hP _).bind fun observed => ?_
      cases observed with
      | none => exact .pure
      | some _ => exact hctl owner epfd
  have hreference (owner epfd) :
      (epollCtlReference owner epfd operation target.key).Keeps exec P := by
    rw [epollCtlReference]
    split_ifs
    · exact .except (keeps_call hP (by trivial)) (fun _ => (hdel owner epfd).bind fun _ => .pure)
        fun _ => .pure
    · exact (keeps_dropKeyReference (releasing hP) _).bind fun _ => .pure
    · exact .pure
  unfold epollCtlLeased
  repeat' split
  all_goals
    first
    | exact .pure
    | exact (htable _ _).except (fun _ => .pure) fun _ => hreference _ _

end Plain

variable {Q : ObjectKey → Flags → ℕ → Prop} {event : ReadyEvent} {t : Kernel}

theorem watching_section {β : Type} (c : KernelCall β)
    (s : Kernel) (hc : Plain c) (h : Watching Q s.epolls) : Watching Q (exec β c s).2.epolls := by
  cases c with
  | epoll c => exact h.exec (by cases c <;> trivial)
  | rollback => exact hc.elim
  | environment c => cases c <;> exact h
  | _ => exact h

theorem watching_epollCtl {operation fd data : ℕ}
    {events : Flags} (h : Watching Q s.epolls)
    (hQ : ∀ epoll r target r', s.registry.acquireDescriptor owner epfd = (.ok epoll, r) →
      r.acquireDescriptor owner fd = (.ok target, r') → Q target.key events data) :
    Watching Q ((epollCtl owner epfd operation fd events data).run exec s).2.epolls := by
  refine keeps_leased watching_section h fun lease r hr =>
    keeps_leased (s := { s with registry := r }) watching_section h fun target r' hr' => ?_
  have hctl (owner : ProcessHandle) (epfd : ℕ) : (KernelProg.epoll
      (.ctlLocked owner epfd operation target.key events data)).Keeps exec
      fun s => Watching Q s.epolls :=
    fun _ hs => Watching.ctlLocked hs fun _ _ => hQ lease r target r' hr hr'
  have hdel (owner : ProcessHandle) (epfd : ℕ) : (Prog.perform (KernelCall.rollback
      (.ctlLocked owner epfd epollCtlDel target.key 0 0))).Keeps exec
      fun s => Watching Q s.epolls :=
    fun _ hs => Watching.ctlLocked hs fun hne _ => absurd rfl hne
  exact keeps_epollCtlLeased watching_section hctl hdel _ h

/-! ### Events -/

/-- The event that a watch reports when its target is asked in the state `t`. -/
def Reports (t : Kernel) (w : Watch) (event : ReadyEvent) : Prop :=
  (scanWatch w ((targetReadiness w.target).run exec t).1 true).2 = some event

theorem Reports.data_eq (h : Reports t w event) : event.data = w.data := by
  simp only [Reports, scanWatch] at h
  split at h
  · cases h
    rfl
  · cases h

/-- A watch whose object does not answer reports an error, whatever it is for. -/
theorem Reports.events_eq (h : Reports t w event)
    (hnone : ((targetReadiness w.target).run exec t).1 = none) :
    event.events = epollErr ||| epollHup := by
  simp only [Reports, hnone, scanWatch] at h
  split at h
  · cases h
    simp only [interested, Option.isNone_none, if_true, Option.map_none, Option.getD_none]
    grind
  · cases h

/-- A scan of the watches from a state asks the target of a watch in a later one. -/
inductive Asks : List Watch → Kernel → Watch → Kernel → Prop
  | first {w : Watch} {watches : List Watch} {t : Kernel} (hocc : w.occupied) :
      Asks (w :: watches) t w t
  | asked {v w : Watch} {watches : List Watch} {t t' : Kernel} (hocc : v.occupied)
      (h : Asks watches ((targetReadiness v.target).run exec t).2 w t') : Asks (v :: watches) t w t'
  | skipped {v w : Watch} {watches : List Watch} {t t' : Kernel} (hocc : ¬v.occupied)
      (h : Asks watches t w t') : Asks (v :: watches) t w t'

namespace Asks

variable {watches : List Watch} {t' : Kernel}

theorem mem (h : Asks watches t w t') : w ∈ watches ∧ w.occupied := by
  induction h with
  | first hocc => exact ⟨List.mem_cons_self, hocc⟩
  | asked _ _ ih | skipped _ _ ih => exact ih.imp_left (List.mem_cons_of_mem _)

theorem reachable (h : Asks watches t w t') (ht : Reachable exec s t) : Reachable exec s t' := by
  induction h with
  | first => exact ht
  | asked _ _ ih => exact ih (ht.run _)
  | skipped _ _ ih => exact ih ht

end Asks

/-- The events of a scan come from its watches. -/
theorem scanWatches_events {watches : List Watch} {output : List ReadyEvent}
    (hevent : event ∈ ((scanWatches room watches output).run exec t).1.2) :
    event ∈ output ∨ ∃ w t', Asks watches t w t' ∧ Reports t' w event := by
  induction watches generalizing output t with
  | nil => exact .inl hevent
  | cons w watches ih =>
    rw [scanWatches] at hevent
    split at hevent
    next hocc =>
      simp only [Prog.run_bind] at hevent
      rcases ih hevent with hmem | ⟨w', t', hasks, hreports⟩
      · rw [List.mem_append, Option.mem_toList] at hmem
        refine hmem.imp_right fun hscan => ⟨w, t, .first hocc, ?_⟩
        simp only [scanWatch, Bool.and_eq_true, decide_eq_true_eq, Reports] at hscan ⊢
        split at hscan
        next hemit => rw [if_pos ⟨hemit.1, trivial⟩]; exact hscan
        · cases hscan
      · exact .inr ⟨w', t', .asked hocc hasks, hreports⟩
    next hocc =>
      rw [Prog.run_bind] at hevent
      refine (ih hevent).imp_right ?_
      rintro ⟨w', t', hasks, hreports⟩
      exact ⟨w', t', .skipped hocc hasks, hreports⟩

/-- The epoll object that a descriptor names has the watch `w`, and a scan of its watches asks
the target of `w` in the state `t`. -/
def WatchedBy (owner : ProcessHandle) (epfd : ℕ) (s : Kernel) (w : Watch) (t : Kernel) : Prop :=
  ∃ lease r backend watches, s.registry.acquireDescriptor owner epfd = (.ok lease, r) ∧
    lease.kind = .epoll backend ∧ watchesOf lease.owner backend s.epolls = .ok watches ∧
    Asks (watchList watches) { s with registry := r } w t

theorem WatchedBy.meets (h : WatchedBy owner epfd s w t)
    (hQ : Watching Q s.epolls) : Q w.target w.events w.data := by
  obtain ⟨lease, r, backend, watches, -, -, hwatches, hasks⟩ := h
  rw [watchesOf] at hwatches
  split at hwatches
  · cases hwatches
  · cases hwatches
    obtain ⟨hmem, hocc⟩ := hasks.mem
    obtain ⟨i, -, rfl⟩ := List.mem_map.1 hmem
    exact hQ _ i hocc

theorem WatchedBy.reachable (h : WatchedBy owner epfd s w t) : Reachable exec s t := by
  obtain ⟨lease, r, backend, watches, hlease, -, -, hasks⟩ := h
  have hstart : Reachable exec s _ :=
    Reachable.start.run (KernelProg.registry (.acquireDescriptor owner epfd))
  rw [run_registry, execRegistry, hlease] at hstart
  exact hasks.reachable hstart

theorem epollTableWait_eq_ok {events : List ReadyEvent}
    (h : ((epollTableWait owner epfd room).run exec s).1 = .ok events) :
    ∃ watches, watchesOf owner epfd s.epolls = .ok watches ∧
      ((scanWatches room (watchList watches) []).run exec s).1.2 = events := by
  rw [epollTableWait] at h
  split at h
  · cases h
  rw [Prog.run_bind] at h
  cases hwatches : watchesOf owner epfd s.epolls with
  | error =>
    simp only [KernelProg.epoll, Prog.run_perform, exec, LinuxEpoll.exec, hwatches] at h
    cases h
  | ok watches =>
    simp only [KernelProg.epoll, Prog.run_perform, exec, LinuxEpoll.exec, hwatches,
      Prog.run_bind] at h
    refine ⟨watches, rfl, ?_⟩
    generalize (LinuxEpoll.storeWatches _ _ _ _).1 = stored at h
    cases stored with
    | error => cases h
    | ok => exact Except.ok.inj h

theorem epollWait_events {events : List ReadyEvent}
    (h : ((epollWait owner epfd room).run exec s).1 = .ok events) (hevent : event ∈ events) :
    ∃ w t, WatchedBy owner epfd s w t ∧ Reports t w event := by
  have hmapped (answer : Except EpollError (List ReadyEvent))
      (heq : answer.mapError mapEpollError = .ok events) : answer = .ok events := by
    cases answer with
    | error => cases heq
    | ok => exact congrArg _ (Except.ok.inj heq)
  rw [epollWait, withDescriptor, Prog.run_bind, run_registry, execRegistry] at h
  cases hlease : s.registry.acquireDescriptor owner epfd with
  | mk answer r =>
  rw [hlease] at h
  cases answer with
  | error => cases h
  | ok lease =>
  obtain ⟨key, backendOwner, kind, statusFlags⟩ := lease
  simp only [Prog.run_bind] at h
  cases kind with
  | epoll backend =>
    simp only [mapped, Prog.run_bind] at h
    obtain ⟨watches, hwatches, rfl⟩ := epollTableWait_eq_ok (hmapped _ h)
    -- the scan begins where the lease has been taken
    obtain hmem | ⟨w, t, hasks, hreports⟩ := scanWatches_events hevent
    · cases hmem
    · exact ⟨w, t, ⟨_, r, backend, watches, hlease, rfl, hwatches, hasks⟩, hreports⟩
  | _ => cases h

end ArachKernel.LinuxFd
