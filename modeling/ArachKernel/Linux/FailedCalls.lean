import ArachKernel.Linux.SocketLinks
import ArachKernel.Linux.StaleKeys

/-!
What a failed call on a socket leaves behind. A call works under a lease on the object of
its descriptor, and the end of the lease takes back what its beginning did, so a call that
fails in the socket tables changes nothing. `accept_socket` and `receive_socket_with_rights`
also need room in the registry, and look for it only when the connection or the message has
left its queue.
-/

namespace ArachKernel.LinuxSocket

open Function

variable {t t' t'' : SocketRegistry} {owner : ProcessHandle} {handle room : ℕ}

/-- What closing sockets can do: endpoints go, and queues get shorter. -/
structure Shrinks (t t' : SocketRegistry) : Prop where
  occupied : ∀ i, (t'.endpoints i).occupied → (t.endpoints i).occupied
  rights : ∀ k side, ((t'.connections k).outgoingRights side).length ≤
    ((t.connections k).outgoingRights side).length

namespace Shrinks

theorem refl : Shrinks t t := ⟨fun _ => id, fun _ _ => le_rfl⟩

theorem trans (h : Shrinks t t') (h' : Shrinks t' t'') : Shrinks t t'' :=
  ⟨fun i => h.occupied i ∘ h'.occupied i, fun k side => (h'.rights k side).trans (h.rights k side)⟩

theorem retireEndpoint {i : EndpointIndex} : Shrinks t (retireEndpoint t i) where
  occupied j hocc := by
    rcases eq_or_ne j i with rfl | hne
    · simp [LinuxSocket.retireEndpoint, SocketRegistry.setEndpoint, EndpointSlot.empty] at hocc
    · simpa [LinuxSocket.retireEndpoint, SocketRegistry.setEndpoint, hne] using hocc
  rights _ _ := le_rfl

theorem setConnection {k : ConnectionIndex} {c : ConnectionSlot} (h : ∀ side,
    (c.outgoingRights side).length ≤ ((t.connections k).outgoingRights side).length) :
    Shrinks t (t.setConnection k c) where
  occupied _ := id
  rights j := by
    rcases eq_or_ne j k with rfl | hne
    · simpa [SocketRegistry.setConnection] using h
    · simp [SocketRegistry.setConnection, hne]

end Shrinks

theorem drainLoop_length_le (count room : ℕ) (q : RightsQueue) :
    (RightsQueue.drainLoop count room q).2.length ≤ q.length := by
  induction count generalizing room q with
  | zero => exact le_rfl
  | succ count ih =>
    refine (ih _ _).trans ?_
    rw [RightsQueue.pop]
    split
    · exact le_rfl
    · exact Nat.sub_le ..

theorem closeSide_rights_le (c : ConnectionSlot) (side side' : Side) (room : ℕ) :
    ((closeSide c side room).2.outgoingRights side').length ≤ (c.outgoingRights side').length := by
  rw [closeSide]
  dsimp only
  split
  · exact Nat.zero_le _
  · rw [ConnectionSlot.advanceGeneration, discardIncoming, ConnectionSlot.setRights,
      ConnectionSlot.setOutgoing]
    dsimp only
    rcases eq_or_ne side' (1 - side) with rfl | hne
    · rw [update_self]
      exact drainLoop_length_le ..
    · rw [update_of_ne hne]

namespace Shrinks

theorem closeConnectedEndpoint (index : EndpointIndex) (room : ℕ) :
    Shrinks t (closeConnectedEndpoint t index room).2 := by
  rw [LinuxSocket.closeConnectedEndpoint]
  dsimp only
  split
  · split
    · exact (setConnection fun side => closeSide_rights_le ..).trans retireEndpoint
    · exact retireEndpoint
  · exact retireEndpoint

theorem closePending (pending : List ℕ) (room : ℕ) :
    Shrinks t (closePending owner pending room t).2 := by
  induction pending generalizing t room with
  | nil => exact refl
  | cons handle pending ih =>
    refine trans ?_ (ih _)
    split
    · exact refl
    · dsimp only
      split
      · exact closeConnectedEndpoint ..
      · exact refl

theorem close : Shrinks t (close owner handle t).2 := by
  rw [LinuxSocket.close]
  split
  · exact refl
  · dsimp only
    split
    · exact retireEndpoint.trans (closePending ..)
    · exact closeConnectedEndpoint ..

end Shrinks

theorem retireEndpoint_occupied (t : SocketRegistry) (i : EndpointIndex) :
    ((retireEndpoint t i).endpoints i).occupied = false := by
  simp [retireEndpoint, SocketRegistry.setEndpoint, EndpointSlot.empty]

/-- A closed endpoint is gone. -/
theorem close_occupied {i : EndpointIndex} {endpoint : EndpointSlot}
    (h : resolvedEndpoint t owner handle = .ok (i, endpoint)) :
    ((close owner handle t).2.endpoints i).occupied = false := by
  rw [close, h]
  dsimp only
  split
  · refine Bool.eq_false_iff.2 fun hocc => ?_
    simpa [retireEndpoint_occupied] using (Shrinks.closePending ..).occupied i hocc
  · rw [closeConnectedEndpoint]
    dsimp only
    split
    · split <;> exact retireEndpoint_occupied ..
    · exact retireEndpoint_occupied ..

/-- The first entry in the queue of a listener is a connection. -/
def Awaited (owner : ProcessHandle) (handle : ℕ) (t : SocketRegistry) : Prop :=
  ∃ i listener k side, resolvedEndpoint t owner handle = .ok (i, listener) ∧
    listener.state = .listening ∧ listener.pending.length ≠ 0 ∧
    resolved t owner (listener.pending.cells listener.pending.head) = .ok (k, side)

/-- An `accept` takes the first connection out of the queue, or changes nothing. -/
theorem accept_cases (owner : ProcessHandle) (handle : ℕ) (t : SocketRegistry) :
    (¬Awaited owner handle t ∧ ∃ e, accept owner handle t = (.error e, t)) ∨
    Awaited owner handle t ∧ ∃ accepted peer t',
      accept owner handle t = (.ok (accepted, peer), t') ∧
      ∃ i e, (t.endpoints i).occupied ∧ resolvedEndpoint t' owner accepted = .ok (i, e) := by
  rw [accept]
  cases hlistener : resolvedEndpoint t owner handle with
  | error e => exact .inl ⟨fun ⟨i, listener, k, side, h, _⟩ => by simp_all, e, rfl⟩
  | ok x =>
  obtain ⟨i, listener⟩ := x
  dsimp only
  split_ifs with hstate hempty
  · exact .inl ⟨fun ⟨_, _, _, _, h, hlist, _⟩ => by simp_all, _, rfl⟩
  · exact .inl ⟨fun ⟨_, _, _, _, h, _, hlen, _⟩ => by simp_all, _, rfl⟩
  cases hfirst : resolved t owner (listener.pending.cells listener.pending.head) with
  | error e => exact .inl ⟨fun ⟨_, _, _, _, h, _, _, hres⟩ => by simp_all, e, rfl⟩
  | ok x =>
  obtain ⟨k, side⟩ := x
  refine .inr ⟨⟨i, listener, k, side, hlistener, not_not.1 hstate, hempty, hfirst⟩, _, _, _, rfl,
    ?_⟩
  rw [resolved] at hfirst
  split at hfirst
  · cases hfirst
  next j accepted haccepted =>
    obtain ⟨-, rfl, -, -⟩ := resolvedEndpoint_eq_ok.1 hlistener
    obtain ⟨hdecode, rfl, hocc, howner⟩ := resolvedEndpoint_eq_ok.1 haccepted
    refine ⟨j, _, hocc, resolvedEndpoint_eq_ok.2 ⟨?_, rfl, ?_, ?_⟩⟩
    all_goals
      rcases eq_or_ne j i with rfl | hne
      · simp_all [SocketRegistry.setEndpoint]
      · simp_all [SocketRegistry.setEndpoint]

variable {flags : Flags} {size copied : ℕ}

theorem receivePlan_rights {queue : ByteQueue} {rights : RightsQueue}
    (h : receivePlan queue rights size flags room = .ok (copied, true)) : rights.length ≠ 0 := by
  simp only [receivePlan, RightsQueue.record] at h
  grind

/-- Only without rights records can the position of a stream overflow. -/
theorem receivePlan_overflow {queue : ByteQueue} {rights : RightsQueue} {deliver : Bool}
    (h : receivePlan queue rights size flags room = .ok (copied, deliver))
    (hover : u64Max < queue.sequence + copied) : copied = min size queue.ring.length := by
  rw [receivePlan] at h
  split at h
  · cases h
    rfl
  split at h
  · cases h
  next hend =>
  obtain ⟨hle, rfl⟩ := checkedAdd_eq_some.mp hend
  repeat' split at h
  all_goals cases h
  all_goals omega

theorem pop_length_le (q : RightsQueue) : (q.pop room).1.length ≤ room := by
  rw [RightsQueue.pop]
  split
  · exact Nat.zero_le _
  · exact List.length_take_le ..

local instance neZeroReceives : NeZero 2 := ⟨by decide⟩

/-- What a receive with these arguments takes: the connection and the side, the number of bytes,
and whether the first rights record goes with them. -/
def takes (owner : ProcessHandle) (handle size : ℕ) (flags : Flags) (t : SocketRegistry) :
    Option (ConnectionIndex × Side × ℕ × Bool) :=
  match resolved t owner handle with
  | .error _ => none
  | .ok (k, side) =>
    let queue := (t.connections k).outgoing (1 - side)
    let rights := (t.connections k).outgoingRights (1 - side)
    if flags &&& ~~~receiveFlags ≠ 0 ∨ flags &&& msgPeek ≠ 0 ∨ !(t.connections k).readOpen side ∨
        size = 0 ∨ queue.ring.length = 0 then none
    else
      match receivePlan queue rights size flags maximumTransferDescriptors with
      | .error _ => none
      | .ok (copied, deliver) => some (k, side, copied, deliver)

theorem receiveMessage_none (h : takes owner handle size flags t = none) :
    (∃ e, receiveMessage owner handle size flags maximumTransferDescriptors t = (.error e, t)) ∨
      ∃ bytes, receiveMessage owner handle size flags maximumTransferDescriptors t =
        (.ok (bytes, []), t) := by
  rw [receiveMessage]
  split
  · exact .inl ⟨_, rfl⟩
  next hflags =>
  rw [takes] at h
  cases hres : resolved t owner handle with
  | error e => exact .inl ⟨e, rfl⟩
  | ok x =>
  rw [hres] at h
  dsimp only at h ⊢
  split
  · exact .inr ⟨_, rfl⟩
  split
  · exact .inr ⟨_, rfl⟩
  split
  · split
    · exact .inl ⟨_, rfl⟩
    · exact .inr ⟨_, rfl⟩
  next hopen hsize hlength =>
  cases hplan : receivePlan ((t.connections x.1).outgoing (1 - x.2))
    ((t.connections x.1).outgoingRights (1 - x.2)) size flags maximumTransferDescriptors with
  | error e => exact .inl ⟨e, rfl⟩
  | ok plan =>
  by_cases hpeek : flags &&& msgPeek ≠ 0
  · exact .inr ⟨_, if_pos hpeek⟩
  · rw [hplan, if_neg (by tauto)] at h
    cases h

/-- The queues are shorter after a receive that takes something, also when it fails. -/
theorem receiveMessage_some {k : ConnectionIndex} {side : Side} {deliver : Bool}
    (h : takes owner handle size flags t = some (k, side, copied, deliver)) :
    let queue := (t.connections k).outgoing (1 - side)
    let rights := (t.connections k).outgoingRights (1 - side)
    (u64Max < queue.sequence + copied ∧ ∃ t', receiveMessage owner handle size flags
        maximumTransferDescriptors t = (.error .capacity, t') ∧
        ((t'.connections k).outgoing (1 - side)).ring.length < queue.ring.length) ∨
      queue.sequence + copied ≤ u64Max ∧ ∃ bytes t', receiveMessage owner handle size flags
        maximumTransferDescriptors t = (.ok (bytes,
          (if deliver then rights.pop maximumTransferDescriptors else ([], rights)).1), t') ∧
        (deliver → ((t'.connections k).outgoingRights (1 - side)).length < rights.length) := by
  intro queue rights
  rw [takes] at h
  cases hres : resolved t owner handle with
  | error e =>
    simp [hres] at h
  | ok x =>
  rw [hres] at h
  dsimp only at h
  split at h
  · cases h
  next hguard =>
  split at h
  · cases h
  next hplan =>
  cases h
  simp only [not_or, not_not] at hguard
  obtain ⟨hflags, hpeek, hopen, hsize, hlength⟩ := hguard
  rw [receiveMessage, if_neg (not_not.2 hflags), hres]
  dsimp only
  rw [if_neg hopen, if_neg hsize, if_neg hlength, hplan]
  dsimp only
  rw [if_neg (not_not.2 hpeek), checkedAdd]
  by_cases hover : queue.sequence + copied ≤ u64Max
  · rw [if_pos hover]
    refine .inr ⟨hover, _, _, rfl, fun hdeliver => ?_⟩
    have hne := receivePlan_rights (hdeliver ▸ hplan)
    simp [hdeliver, RightsQueue.pop, hne, Ring.pop, ConnectionSlot.advanceGeneration,
      ConnectionSlot.setRights, rights]
    omega
  · rw [if_neg hover]
    refine .inl ⟨not_le.1 hover, _, rfl, ?_⟩
    have hcopied := receivePlan_overflow hplan (not_le.1 hover)
    simp [ConnectionSlot.setOutgoing, queue]
    omega

end ArachKernel.LinuxSocket

namespace ArachKernel.LinuxFd

open Registry Kernel Table
open LinuxSocket (SocketRegistry SocketError Shrinks Awaited receivePlan afUnix sockStream)

variable {owner : ProcessHandle} {fd : ℕ} {r r' : Registry} {s s' : Kernel} {α β : Type}

/-! ### The table of the caller -/

variable {sp : SpaceIndex}

theorem initializeStandardDescriptors_owner {sp' : SpaceIndex}
    {attached : List FdIndex}
    {standard : List (FdIndex × OpenObjectKind × Flags)}
    (h : initializeStandardDescriptors sp attached standard r = (true, r')) :
    (r'.spaces sp').owner = (r.spaces sp').owner := by
  induction standard generalizing attached r with
  | nil =>
    cases h
    rfl
  | cons entry standard ih =>
    rw [initializeStandardDescriptors] at h
    split at h
    · cases h
    next hnew =>
      obtain ⟨_, rfl⟩ := allocateObject_eq_some hnew
      rw [ih h, attach_owner]
      rfl

theorem ensureSpace_of_findSpace
    (h : r.findSpace owner = some sp) : r.ensureSpace owner = (.ok sp, r) := by
  obtain ⟨hocc, rfl⟩ := findSpace_eq_some h
  have hval : (r.spaces sp).owner.valid := hocc
  rw [ensureSpace, h, hval]
  rfl

/-- The table of a caller is made once. -/
theorem ensureSpace_again
    (h : r.ensureSpace owner = (.ok sp, r')) : r'.ensureSpace owner = (.ok sp, r') := by
  rw [ensureSpace] at h
  split at h
  · cases h
  next hvalid =>
  split at h
  next hfind =>
    cases h
    exact ensureSpace_of_findSpace hfind
  next hfind =>
  split at h
  · cases h
  split at h
  next hinit =>
    cases h
    refine ensureSpace_of_findSpace (position_unique ?_ fun sp' hsp' => ?_)
    · rw [DescriptorSpace.occupied, initializeStandardDescriptors_owner hinit]
      simp_all [setOwner, setSpace]
    · by_contra hne
      have hnone := position_none.1 hfind sp'
      rw [DescriptorSpace.occupied, initializeStandardDescriptors_owner hinit, setOwner,
        setSpace] at hsp'
      rw [DescriptorSpace.occupied] at hnone
      simp_all
  · cases h

/-- The state once the caller has its table, which its first call makes. -/
def tabled (owner : ProcessHandle) (s : Kernel) : Kernel :=
  { s with registry := (s.registry.ensureSpace owner).2 }

/-! ### Leases -/

/-- The stream socket that a descriptor names, by its owner and its handle. -/
def socketAt (owner : ProcessHandle) (fd : ℕ) (r : Registry) : Option (ProcessHandle × ℕ) :=
  match r.ensureSpace owner with
  | (.error _, _) => none
  | (.ok sp, r) =>
    match r.lookup sp fd with
    | none => none
    | some (_, i) =>
      match (r.objects i).kind with
      | .unixSocket handle =>
        if (r.objects i).closing ∨ u16Max ≤ (r.objects i).activeOperations then none
        else some ((r.objects i).owner, handle)
      | _ => none

theorem ensureSpace_of_socketAt {x : ProcessHandle × ℕ} (h : socketAt owner fd r = some x) :
    ∃ sp, r.ensureSpace owner = (.ok sp, (r.ensureSpace owner).2) := by
  rw [socketAt] at h
  cases hspace : r.ensureSpace owner with
  | mk answer r₀ =>
    rw [hspace] at h
    cases answer with
    | error => cases h
    | ok sp => exact ⟨sp, rfl⟩

/-- The end of a lease takes back what its beginning did. -/
theorem acquireDescriptor_cases (h : ∀ i, 1 ≤ (r.objects i).age) (owner : ProcessHandle) (fd : ℕ) :
    (socketAt owner fd r = none ∧
      ∃ e, r.acquireDescriptor owner fd = (.error e, (r.ensureSpace owner).2)) ∨
    ∃ lease r', r.acquireDescriptor owner fd = (.ok lease, r') ∧
      r'.releaseLeaseLocked lease.key = (none, (r.ensureSpace owner).2) ∧
      socketAt owner fd r = match lease.kind with
        | .unixSocket handle => some (lease.owner, handle)
        | _ => none := by
  have hages := Ages.ensureSpace owner r
  rw [Registry.acquireDescriptor, onDescriptor, inSpace, socketAt]
  cases hspace : r.ensureSpace owner with
  | mk answer r₀ =>
  rw [hspace] at hages
  cases answer with
  | error e => exact .inl ⟨rfl, e, rfl⟩
  | ok sp =>
  dsimp only
  cases r₀.lookup sp fd with
  | none => exact .inl ⟨rfl, _, rfl⟩
  | some slot =>
  obtain ⟨_, i⟩ := slot
  dsimp only
  by_cases hbad : !(r₀.objects i).kind.occupied || (r₀.objects i).closing
  · refine .inl ⟨?_, _, if_pos hbad⟩
    split
    next hkind => exact if_pos (.inl (by simpa [hkind, OpenObjectKind.occupied] using hbad))
    · rfl
  rw [if_neg hbad]
  simp only [Bool.or_eq_true, Bool.not_eq_true', not_or, Bool.not_eq_false,
    Bool.not_eq_true] at hbad
  rw [acquireObject, checkedAdd]
  by_cases hact : (r₀.objects i).activeOperations + 1 ≤ u16Max
  · rw [if_pos hact]
    refine .inr ⟨_, _, rfl, ?_, ?_⟩
    · have hgen : (r₀.objects i).generation ≠ 0 := by
        have hage : 1 ≤ (r₀.objects i).age := (h i).trans (hages.age_le i)
        rw [OpenObject.age, if_pos hbad.1] at hage
        omega
      rw [releaseLeaseLocked, if_neg (by simp [leaseAt, keyAt, ObjectKey.isEmpty, hgen]),
        maybeTakeClosing, if_neg (by simp [leaseAt, keyAt, hbad.2])]
      simp [setObject, leaseAt, keyAt]
    · rw [leaseAt]
      dsimp only
      cases (r₀.objects i).kind with
      | unixSocket handle => exact if_neg (by simp [hbad.2]; omega)
      | _ => rfl
  · rw [if_neg hact]
    refine .inl ⟨?_, _, rfl⟩
    split
    · exact if_pos (.inr (by omega))
    · rfl

/-- In the states after boot no object has generation 0. -/
theorem age_of_reached (h : Reached s) (i : ObjectIndex) :
    1 ≤ (s.registry.objects i).age := by
  obtain ⟨now, files, memfds, h⟩ := h
  exact (Ages.of_reachable h).age_le i

/-- A call on the socket tables through a descriptor. -/
theorem run_withSocket (hs : Reached s) (owner : ProcessHandle) (fd : ℕ)
    {p : ProcessHandle → ℕ → KernelProg (Except SocketError α)}
    {f : ProcessHandle → ℕ → SocketRegistry → Except SocketError α × SocketRegistry}
    (hp : ∀ o h s, (p o h).run exec s =
      ((f o h s.sockets).1, { s with sockets := (f o h s.sockets).2 })) :
    (socketAt owner fd s.registry = none ∧
      ∃ e, (withSocket owner fd p).run exec s = (.error e, tabled owner s)) ∨
    ∃ o h, socketAt owner fd s.registry = some (o, h) ∧
      (withSocket owner fd p).run exec s = ((f o h s.sockets).1.mapError mapSocketError,
        { tabled owner s with sockets := (f o h s.sockets).2 }) := by
  rw [withSocket, withDescriptor, Prog.run_bind, run_registry, execRegistry]
  rcases acquireDescriptor_cases (age_of_reached hs) owner fd with
    ⟨hnone, e, heq⟩ | ⟨lease, r', heq, hrelease, hsocket⟩
  · rw [heq]
    exact .inl ⟨hnone, e, rfl⟩
  have hback (t : SocketRegistry) : ((releaseLease lease).run exec
      { s with registry := r', sockets := t }).2 = { tabled owner s with sockets := t } := by
    rw [releaseLease, Prog.run_bind, run_registry, execRegistry, hrelease]
    rfl
  have hrecord : s.journal.record (.acquireDescriptor owner fd) (.ok lease) = s.journal := rfl
  rw [heq, hrecord, hsocket]
  obtain ⟨key, o, kind, flags⟩ := lease
  simp only [Prog.run_bind]
  cases kind with
  | unixSocket h =>
    refine .inr ⟨o, h, rfl, ?_⟩
    simp only [mapped, Prog.run_bind, hp]
    exact Prod.ext rfl (hback (f o h s.sockets).2)
  | _ => exact .inl ⟨rfl, _, Prod.ext rfl (hback s.sockets)⟩

theorem Releasing.shrinks {c : KernelCall β} (hc : Releasing c) :
    Shrinks s.sockets (exec β c s).2.sockets := by
  cases c with
  | socket c =>
    cases c with
    | close => exact .close
    | _ => exact hc.elim
  | environment c => cases c <;> exact .refl
  | _ => exact .refl

theorem closeSocket_occupied {handle : ℕ} {i : LinuxSocket.EndpointIndex}
    {endpoint : LinuxSocket.EndpointSlot}
    (h : LinuxSocket.resolvedEndpoint s.sockets owner handle = .ok (i, endpoint)) :
    (((closeSocket owner handle).run exec s).2.sockets.endpoints i).occupied = false := by
  have hclosed : (((KernelProg.socket (.close owner handle)).run exec s).2.sockets.endpoints
      i).occupied = false := LinuxSocket.close_occupied h
  rw [closeSocket, closeSocketWith, Prog.run_bind]
  cases ((KernelProg.socket (.close owner handle)).run exec s).1 with
  | error => exact hclosed
  | ok discarded =>
    refine keeps_releaseTransfers (P := fun s => (s.sockets.endpoints i).occupied = false)
      (fun c s hc hs => ?_) _ hclosed
    exact Bool.eq_false_iff.2 fun hocc => by simp [hc.shrinks.occupied i hocc] at hs

/-- How a call can end of which nothing is lost under the condition `kept` only. -/
inductive Ends (p : KernelProg (Answer α)) (owner : ProcessHandle) (s : Kernel) (kept : Prop) : Prop
  | ok {a : α} {s' : Kernel} (hkept : kept) (hrun : p.run exec s = (.ok a, s'))
  | unchanged {e : DescriptorError} {s' : Kernel} (hkept : kept)
      (hrun : p.run exec s = (.error e, s')) (hsame : s' = s ∨ s' = tabled owner s)
  | lost {e : DescriptorError} {s' : Kernel} (hkept : ¬kept) (hrun : p.run exec s = (.error e, s'))
      (hne : s'.sockets ≠ s.sockets)

theorem Ends.iff {p : KernelProg (Answer α)} {kept : Prop} (h : Ends p owner s kept) :
    ((∀ e s', p.run exec s = (.error e, s') → s'.sockets = s.sockets) ↔ kept) ∧
    (kept → ∀ e s', p.run exec s = (.error e, s') → s' = s ∨ s' = tabled owner s) := by
  cases h with
  | ok hkept hrun => simp [hrun, hkept]
  | unchanged hkept hrun hsame =>
    refine ⟨⟨fun _ => hkept, fun _ e s' heq => ?_⟩, fun _ e s' heq => ?_⟩ <;> rw [hrun] at heq <;>
      cases heq
    · rcases hsame with rfl | rfl <;> rfl
    · exact hsame
  | lost hkept hrun hne => simp [hrun, hkept, hne]

/-! ### Accepting -/

/-- There is room for one more descriptor of the caller and for its object. -/
def HasRoom (owner : ProcessHandle) (r : Registry) : Prop :=
  ∃ sp r₀, r.ensureSpace owner = (.ok sp, r₀) ∧ (∃ fd, (r₀.slot sp fd).occupied = false) ∧
    ∃ i, position (fun i => !(r₀.objects i).kind.occupied) = some i ∧
      (r₀.objects i).generation < u32Max

theorem installBackendObject_cases {r₀ : Registry} (hspace : r.ensureSpace owner = (.ok sp, r₀))
    (backendOwner : ProcessHandle) (kind : OpenObjectKind) (flags : Flags) (closeOnExec : Bool) :
    (HasRoom owner r ∧ ∃ fd r', r₀.installBackendObject owner backendOwner kind flags closeOnExec =
      (.ok fd, r')) ∨
    (¬HasRoom owner r ∧ ∃ e, r₀.installBackendObject owner backendOwner kind flags closeOnExec =
      (.error e, r₀)) := by
  have hroom : HasRoom owner r ↔ (∃ fd, (r₀.slot sp fd).occupied = false) ∧
      ∃ i, position (fun i => !(r₀.objects i).kind.occupied) = some i ∧
        (r₀.objects i).generation < u32Max := by
    simp [HasRoom, hspace]
  rw [installBackendObject, inSpace, ensureSpace_again hspace, hroom]
  dsimp only
  cases hfd : position fun fd => !(r₀.slot sp fd).occupied with
  | none =>
    refine .inr ⟨?_, _, rfl⟩
    rintro ⟨⟨fd, hfree⟩, _⟩
    simpa [hfree] using position_none.1 hfd fd
  | some fd =>
  have hfree : ∃ fd, (r₀.slot sp fd).occupied = false := ⟨fd, by simpa using position_some hfd⟩
  rw [allocateObject]
  cases hi : position fun i => !(r₀.objects i).kind.occupied with
  | none =>
    refine .inr ⟨?_, _, rfl⟩
    rintro ⟨_, i, hsome, _⟩
    cases hsome
  | some i =>
  by_cases hgen : (r₀.objects i).generation < u32Max
  · refine .inl ⟨⟨hfree, i, rfl, hgen⟩, ?_⟩
    have hnext : nextGeneration (r₀.objects i) = some ((r₀.objects i).generation + 1) := by
      simp [nextGeneration, checkedAdd, Nat.succ_le_of_lt hgen, Option.filter]
    simp only [hnext]
    exact ⟨_, _, rfl⟩
  · refine .inr ⟨?_, ?_⟩
    · rintro ⟨_, j, hj, hlt⟩
      cases hj
      exact hgen hlt
    · simp [nextGeneration, checkedAdd, Nat.not_le.2 (Nat.lt_succ_of_le (not_lt.1 hgen))]

/-- The flags are good, a connection waits, and there is no room to install it. -/
def LosesConnection (owner : ProcessHandle) (fd : ℕ) (flags : Flags) (s : Kernel) : Prop :=
  flags &&& ~~~(LinuxSocket.sockNonblock ||| LinuxSocket.sockCloexec) = 0 ∧
    (∃ o h, socketAt owner fd s.registry = some (o, h) ∧ Awaited o h s.sockets) ∧
    ¬HasRoom owner s.registry

theorem acceptSocket_ends (hs : Reached s) (owner : ProcessHandle) (fd : ℕ) (flags : Flags) :
    Ends (acceptSocket owner fd flags) owner s ¬LosesConnection owner fd flags s := by
  by_cases hflags : flags &&& ~~~(LinuxSocket.sockNonblock ||| LinuxSocket.sockCloexec) = 0
  swap
  · exact .unchanged (fun h => hflags h.1) (by rw [acceptSocket, if_pos hflags]; rfl) (.inl rfl)
  have hrun : (acceptSocket owner fd flags).run exec s =
      (acceptSocket owner fd flags).run exec s := rfl
  -- only the right side is computed: `Ends` speaks of the call itself
  conv_rhs at hrun => rw [acceptSocket, if_neg (not_not.2 hflags), Prog.run_bind, acceptBackend]
  rcases run_withSocket hs owner fd
    (p := fun o h => do
      let accepted ← KernelProg.socket (.accept o h)
      pure (accepted.map fun accepted => (o, accepted)))
    (f := fun o h t => ((LinuxSocket.accept o h t).1.map fun accepted => (o, accepted),
      (LinuxSocket.accept o h t).2)) (fun _ _ _ => by rw [Prog.run_bind]; rfl) with
    ⟨hnone, e, heq⟩ | ⟨o, h, hsocket, heq⟩ <;> rw [heq] at hrun
  · refine .unchanged ?_ hrun (.inr rfl)
    rintro ⟨_, ⟨o, h, hsome, _⟩, _⟩
    simp [hnone] at hsome
  rcases LinuxSocket.accept_cases o h s.sockets with
    ⟨hnot, e, haccept⟩ | ⟨hawaited, accepted, peer, t, haccept, i, endpoint, hocc, hclose⟩ <;>
    rw [haccept] at hrun
  · refine .unchanged ?_ hrun (.inr rfl)
    rintro ⟨_, ⟨o', h', hsome, hawaited⟩, _⟩
    cases hsocket.symm.trans hsome
    exact hnot hawaited
  simp only [Except.map, Except.mapError] at hrun
  obtain ⟨sp, hspace⟩ := ensureSpace_of_socketAt hsocket
  rw [Prog.run_bind, installOr, Prog.run_bind, run_registry, execRegistry] at hrun
  rcases installBackendObject_cases hspace o (.unixSocket accepted) (socketStatus flags)
    (flags &&& LinuxSocket.sockCloexec != 0) with ⟨hroom, fd', r', hinstall⟩ | ⟨hroom, e, hinstall⟩
  · simp only [tabled, hinstall] at hrun
    exact .ok (fun h => h.2.2 hroom) hrun
  · simp only [tabled, hinstall, Prog.run_bind] at hrun
    refine .lost (not_not.2 ⟨hflags, ⟨o, h, hsocket, hawaited⟩, hroom⟩) hrun fun hsame => ?_
    -- the accepted endpoint was there before, and the error path closes it
    have hgone : (s.sockets.endpoints i).occupied = false := by
      rw [← hsame]
      exact closeSocket_occupied (s := { tabled owner s with sockets := t }) hclose
    simp [hocc] at hgone

/-- An `accept_socket` that fails leaves the sockets as they were exactly if it does not find a
connection and no room for it, and then the whole kernel but for the first table of the caller. -/
theorem failed_accept_consumes_nothing (hs : Reached s) (owner : ProcessHandle) (fd : ℕ)
    (flags : Flags) :
    ((∀ e s', (acceptSocket owner fd flags).run exec s = (.error e, s') →
      s'.sockets = s.sockets) ↔ ¬LosesConnection owner fd flags s) ∧
    (¬LosesConnection owner fd flags s → ∀ e s',
      (acceptSocket owner fd flags).run exec s = (.error e, s') → s' = s ∨ s' = tabled owner s) :=
  (acceptSocket_ends hs owner fd flags).iff

/-- A listener at descriptor 3. -/
def listening : Kernel :=
  ((listenSocket caller 3 1).run exec
    ((bindSocket caller 3 { bytes := [1], length_le := by decide }).run exec
      ((socketCreate caller afUnix sockStream 0).run exec idle).2).2).2

theorem reached_listening : Reached listening :=
  ((reached_idle.run _).run _).run _

/-- Nobody waits. -/
theorem failed_accept_would_block :
    ((acceptSocket caller 3 0).run exec listening).1 = .error .wouldBlock ∧
      ((acceptSocket caller 3 0).run exec listening).2.sockets = listening.sockets := by
  have hblock : ((acceptSocket caller 3 0).run exec listening).1 = .error .wouldBlock := by
    decide +kernel
  have hkept : ¬LosesConnection caller 3 0 listening := by
    rintro ⟨-, ⟨o, h, hsocket, i, listener, k, side, hlistener, -, hpending, -⟩, -⟩
    have hat : socketAt caller 3 listening.registry = some (caller, 257) := by decide +kernel
    cases hat.symm.trans hsocket
    have hnone : (LinuxSocket.resolvedEndpoint listening.sockets caller 257).map
        (·.2.pending.length) = .ok 0 := by decide +kernel
    rw [hlistener] at hnone
    exact hpending (Except.ok.inj hnone)
  have hsame := (failed_accept_consumes_nothing reached_listening caller 3 0).1.2 hkept
  exact ⟨hblock, hsame .wouldBlock _ (by rw [← hblock])⟩

/-- The caller duplicates its console to all descriptors from 5 on. -/
def fillTable : KernelProg Unit :=
  Prog.each (fun fd => do let _ ← duplicate caller 0 fd false) (List.range' 5 123)

/-- A client at descriptor 4 has connected to a listener at descriptor 3 and sends. The
table is full, so `accept_socket` fails; the client is cut off all the same. -/
theorem failed_accept_loses_connection : ((do
      let _ ← socketCreate caller afUnix sockStream 0
      let _ ← bindSocket caller 3 { bytes := [1], length_le := by decide }
      let _ ← listenSocket caller 3 1
      let _ ← socketCreate caller afUnix sockStream 0
      let _ ← connectSocket caller 4 { bytes := [1], length_le := by decide }
      fillTable
      let before ← sendSocket caller 4 [7] 0
      let accepted ← acceptSocket caller 3 0
      let after ← sendSocket caller 4 [7] 0
      pure (before, accepted, after) : KernelProg _).run exec idle).1 =
      (.ok 1, .error .capacity, .error .brokenPipe) := by
  decide +kernel

/-! ### Receiving -/

/-- The caller has as many free descriptors as there are tokens, and all of them are good. -/
def Fits (owner : ProcessHandle) (tokens : List TransferToken) (r : Registry) : Prop :=
  ∃ sp r₀, r.ensureSpace owner = (.ok sp, r₀) ∧ tokens.length ≤ (r₀.freeSlots sp).length ∧
    tokens.all r₀.installable

theorem installTransfers_cases {r₀ : Registry} (hspace : r.ensureSpace owner = (.ok sp, r₀))
    (tokens : List TransferToken) (room : ℕ) (hmax : tokens.length ≤ maximumTransferDescriptors)
    (hroom : tokens.length ≤ room) (closeOnExec : Bool) :
    (Fits owner tokens r ∧ ∃ fds r', r₀.installTransfers owner tokens closeOnExec room =
      (.ok fds, r')) ∨
    (¬Fits owner tokens r ∧ ∃ e, r₀.installTransfers owner tokens closeOnExec room =
      (.error e, r₀)) := by
  have hfits : Fits owner tokens r ↔
      tokens.length ≤ (r₀.freeSlots sp).length ∧ tokens.all r₀.installable := by
    simp [Fits, hspace]
  rw [installTransfers, if_neg (by omega), inSpace, ensureSpace_again hspace, hfits]
  dsimp only
  rw [List.length_take]
  by_cases hfree : tokens.length ≤ (r₀.freeSlots sp).length
  · rw [if_neg (by omega)]
    by_cases hall : tokens.all r₀.installable
    · exact .inl ⟨⟨hfree, hall⟩, _, _, if_neg (by simp [hall])⟩
    · exact .inr ⟨fun h => hall h.2, _, if_pos (by simp [hall])⟩
  · rw [if_pos (by omega)]
    exact .inr ⟨fun h => hfree h.1, _, rfl⟩

theorem installReceived_cases
    (hspace : s.registry.ensureSpace owner = (.ok sp, (s.registry.ensureSpace owner).2))
    (tokens : List TransferToken) (hmax : tokens.length ≤ maximumTransferDescriptors)
    (t : SocketRegistry) (closeOnExec : Bool) (room : ℕ) (bytes : List UInt8) :
    (Fits owner (tokens.take room) s.registry ∧
      ∃ a s', (installReceived owner closeOnExec room bytes tokens).run exec
        { tabled owner s with sockets := t } = (.ok a, s')) ∨
    (¬Fits owner (tokens.take room) s.registry ∧
      ∃ e s', (installReceived owner closeOnExec room bytes tokens).run exec
        { tabled owner s with sockets := t } = (.error e, s') ∧ Shrinks t s'.sockets) := by
  rw [installReceived, Prog.run_bind, run_registry, execRegistry]
  have htake := List.length_take (i := room) (l := tokens)
  rcases installTransfers_cases hspace (tokens.take room) room (by omega)
    (by omega) closeOnExec with ⟨hfits, fds, r', hinstall⟩ | ⟨hfits, e, hinstall⟩
  · refine .inl ⟨hfits, ?_⟩
    simp only [tabled, hinstall, Prog.run_bind]
    exact ⟨_, _, rfl⟩
  · refine .inr ⟨hfits, ?_⟩
    simp only [tabled, hinstall, Prog.run_bind]
    refine ⟨_, _, rfl, ?_⟩
    exact keeps_releaseTransfers (P := fun s => Shrinks t s.sockets)
      (fun c s hc hs => hs.trans hc.shrinks) _ .refl

local instance neZeroLoses : NeZero 2 := ⟨by decide⟩

/-- The receive takes bytes whose end cannot be counted, or a rights record that does not fit in
the table of the caller. -/
def LosesMessage (owner : ProcessHandle) (fd size : ℕ) (flags : Flags) (room : ℕ) (s : Kernel) :
    Prop :=
  ∃ o h k side copied deliver, socketAt owner fd s.registry = some (o, h) ∧
    LinuxSocket.takes o h size flags s.sockets = some (k, side, copied, deliver) ∧
    (u64Max < ((s.sockets.connections k).outgoing (1 - side)).sequence + copied ∨
      deliver ∧ ¬Fits owner ((((s.sockets.connections k).outgoingRights (1 - side)).pop
        maximumTransferDescriptors).1.take room) s.registry)

theorem receiveSocketWithRights_ends (hs : Reached s) (owner : ProcessHandle) (fd size : ℕ)
    (flags : Flags) (closeOnExec : Bool) (room : ℕ) :
    Ends (receiveSocketWithRights owner fd size flags closeOnExec room) owner s
      ¬LosesMessage owner fd size flags room s := by
  have hrun : (receiveSocketWithRights owner fd size flags closeOnExec room).run exec s =
      (receiveSocketWithRights owner fd size flags closeOnExec room).run exec s := rfl
  conv_rhs at hrun => rw [receiveSocketWithRights, Prog.run_bind]
  rcases run_withSocket hs owner fd
    (p := fun o h => KernelProg.socket (.receiveMessage o h size flags maximumTransferDescriptors))
    (f := fun o h => LinuxSocket.receiveMessage o h size flags maximumTransferDescriptors)
    (fun _ _ _ => rfl) with
    ⟨hnone, e, heq⟩ | ⟨o, h, hsocket, heq⟩ <;> rw [heq] at hrun
  · refine .unchanged ?_ hrun (.inr rfl)
    rintro ⟨o, h, _, _, _, _, hsome, _⟩
    simp [hnone] at hsome
  obtain ⟨sp, hspace⟩ := ensureSpace_of_socketAt hsocket
  have hnil : Fits owner [] s.registry := ⟨sp, _, hspace, Nat.zero_le _, rfl⟩
  cases htakes : LinuxSocket.takes o h size flags s.sockets with
  | none =>
    have hkept : ¬LosesMessage owner fd size flags room s := by
      simp [LosesMessage, hsocket, htakes]
    rcases LinuxSocket.receiveMessage_none htakes with ⟨e, hreceive⟩ | ⟨bytes, hreceive⟩ <;>
      rw [hreceive] at hrun
    · exact .unchanged hkept hrun (.inr rfl)
    -- a peek, or the end of the stream: nothing is installed, and that has room
    · rcases installReceived_cases hspace [] (Nat.zero_le _) s.sockets closeOnExec
        room bytes with ⟨-, a, s', hinstall⟩ | ⟨hfits, -⟩
      · exact .ok hkept (hrun.trans hinstall)
      · exact absurd (by simpa using hnil) hfits
  | some x =>
  obtain ⟨k, side, copied, deliver⟩ := x
  have hloses : LosesMessage owner fd size flags room s ↔
      u64Max < ((s.sockets.connections k).outgoing (1 - side)).sequence + copied ∨
      deliver ∧ ¬Fits owner ((((s.sockets.connections k).outgoingRights (1 - side)).pop
        maximumTransferDescriptors).1.take room) s.registry := by
    refine ⟨?_, fun hlost => ⟨o, h, k, side, copied, deliver, hsocket, htakes, hlost⟩⟩
    rintro ⟨_, _, _, _, _, _, hsocket', htakes', hlost⟩
    cases hsocket.symm.trans hsocket'
    cases htakes.symm.trans htakes'
    exact hlost
  rcases LinuxSocket.receiveMessage_some htakes with
    ⟨hover, t, hreceive, hlt⟩ | ⟨hover, bytes, t, hreceive, hlt⟩ <;> rw [hreceive] at hrun
  · refine .lost (not_not.2 (hloses.2 (.inl hover))) hrun fun hsame => ?_
    cases hsame
    exact lt_irrefl _ hlt
  have hmax : (if deliver then ((s.sockets.connections k).outgoingRights (1 - side)).pop
      maximumTransferDescriptors else ([], (s.sockets.connections k).outgoingRights
        (1 - side))).1.length ≤ maximumTransferDescriptors := by
    split
    · exact LinuxSocket.pop_length_le _
    · exact Nat.zero_le _
  rcases installReceived_cases hspace _ hmax t closeOnExec room bytes with
    ⟨hfits, a, s', hinstall⟩ | ⟨hfits, e, s', hinstall, hshrinks⟩
  · refine .ok (fun hlost => ?_) (hrun.trans hinstall)
    rcases hloses.1 hlost with hover' | ⟨rfl, hnot⟩
    · omega
    · exact hnot hfits
  · cases deliver with
    | false => exact absurd (by simpa using hnil) hfits
    | true =>
      refine .lost (not_not.2 (hloses.2 (.inr ⟨rfl, hfits⟩))) (hrun.trans hinstall) fun hsame => ?_
      rw [hsame] at hshrinks
      exact absurd (hshrinks.rights k (1 - side)) (not_le.2 (hlt rfl))

/-- A `receive_socket_with_rights` that fails leaves the sockets as they were exactly if it does
not find a message that it cannot hand out, and then the whole kernel but for the first table of
the caller. -/
theorem failed_receive_consumes_nothing (hs : Reached s) (owner : ProcessHandle) (fd size : ℕ)
    (flags : Flags) (closeOnExec : Bool) (room : ℕ) :
    ((∀ e s', (receiveSocketWithRights owner fd size flags closeOnExec room).run exec s =
      (.error e, s') → s'.sockets = s.sockets) ↔ ¬LosesMessage owner fd size flags room s) ∧
    (¬LosesMessage owner fd size flags room s → ∀ e s',
      (receiveSocketWithRights owner fd size flags closeOnExec room).run exec s = (.error e, s') →
        s' = s ∨ s' = tabled owner s) :=
  (receiveSocketWithRights_ends hs owner fd size flags closeOnExec room).iff

/-- A pair of sockets at descriptors 3 and 4. -/
def paired : Kernel := ((socketPair caller afUnix sockStream 0).run exec idle).2

/-- Nothing was sent. -/
theorem failed_receive_would_block :
    ((receiveSocketWithRights caller 4 1 0 false 1).run exec paired).1 = .error .wouldBlock ∧
      ((receiveSocketWithRights caller 4 1 0 false 1).run exec paired).2.sockets =
        paired.sockets := by
  have hblock : ((receiveSocketWithRights caller 4 1 0 false 1).run exec paired).1 =
      .error .wouldBlock := by decide +kernel
  have hkept : ¬LosesMessage caller 4 1 0 1 paired := by
    rintro ⟨o, h, k, side, copied, deliver, hsocket, htakes, -⟩
    have hat : socketAt caller 4 paired.registry = some (caller, 258) := by decide +kernel
    cases hat.symm.trans hsocket
    have hnone : LinuxSocket.takes caller 258 1 0 paired.sockets = none := by decide +kernel
    cases hnone.symm.trans htakes
  have hpaired : Reached paired := reached_idle.run _
  have hsame := (failed_receive_consumes_nothing hpaired caller 4 1 0 false 1).1.2 hkept
  exact ⟨hblock, hsame .wouldBlock _ (by rw [← hblock])⟩

/-- A byte with a descriptor waits at descriptor 4. The table is full, so the receive
fails; nothing waits afterwards. -/
theorem failed_receive_loses_message : ((do
      let _ ← socketPair caller afUnix sockStream 0
      let _ ← sendSocketWithRights caller 3 [7] 0 [0]
      fillTable
      let before ← receiveSocket caller 4 1 LinuxSocket.msgPeek
      let received ← receiveSocketWithRights caller 4 1 0 false 1
      let after ← receiveSocket caller 4 1 0
      pure (before, received.map (·.bytes), after) : KernelProg _).run exec idle).1 =
      (.ok [7], .error .capacity, .error .wouldBlock) := by
  decide +kernel

end ArachKernel.LinuxFd
