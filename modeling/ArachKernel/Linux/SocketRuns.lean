import ArachKernel.Linux.SocketLifecycle

/-!
Runs of the socket calls. A caller can only name a handle that an earlier call has
returned: the handle of an endpoint that waits to be accepted is still unknown. The
generations of the endpoint slots grow, so a handle that has been returned never names
an endpoint that comes later.
-/

namespace ArachKernel.LinuxSocket

open Table SocketRegistry List

variable {r r' r'' : SocketRegistry} {k : ConnectionIndex}

/-! ### Ages -/

/-- The handle is of a later generation than its slot has seen. -/
def Newer (r : SocketRegistry) (handle : ℕ) : Prop :=
  ∃ i generation, decodeEndpoint handle = some (i, generation) ∧
    (r.endpoints i).generation < generation

/-- Generations grow, and a handle that begins to wait is new. -/
structure Ages (r r' : SocketRegistry) : Prop where
  generation : ∀ i, (r.endpoints i).generation ≤ (r'.endpoints i).generation
  waiting : ∀ l, ∀ handle ∈ (r'.endpoints l).waiting,
    (∃ l', handle ∈ (r.endpoints l').waiting) ∨ Newer r handle

namespace Ages

theorem of_endpoints (h : r'.endpoints = r.endpoints) : Ages r r' where
  generation i := by rw [h]
  waiting l handle hl := .inl ⟨l, by rwa [← h]⟩

theorem refl (r : SocketRegistry) : Ages r r := of_endpoints rfl

theorem trans (h : Ages r r') (h' : Ages r' r'') : Ages r r'' where
  generation i := (h.generation i).trans (h'.generation i)
  waiting l handle hl := by
    rcases h'.waiting l handle hl with ⟨l', hl'⟩ | ⟨i, generation, hdec, hlt⟩
    · exact h.waiting l' handle hl'
    · exact .inr ⟨i, generation, hdec, (h.generation i).trans_lt hlt⟩

theorem setEndpoint {i : EndpointIndex} {e : EndpointSlot}
    (hgen : (r.endpoints i).generation ≤ e.generation)
    (hwait : ∀ handle ∈ e.waiting, handle ∈ (r.endpoints i).waiting ∨ Newer r handle) :
    Ages r (r.setEndpoint i e) where
  generation := setEndpoint_cases hgen fun _ _ => le_rfl
  waiting := setEndpoint_cases (fun handle hi => (hwait handle hi).imp (⟨i, ·⟩) id)
    fun l _ _ hl => .inl ⟨l, hl⟩

theorem setConnection {c : ConnectionSlot} : Ages r (r.setConnection k c) := of_endpoints rfl

theorem retire (r : SocketRegistry) (i : EndpointIndex) : Ages r (retireEndpoint r i) :=
  setEndpoint le_rfl nofun

end Ages

/-! ### The calls -/

theorem ages_initializeEndpoint (i : EndpointIndex) (owner : ProcessHandle) :
    Ages r (initializeEndpoint r i owner).2 := by
  rcases initializeEndpoint_cases (r := r) i owner with heq | ⟨handle, _, heq⟩
  · rw [heq]
    exact .refl r
  · rw [heq]
    exact .setEndpoint (Nat.le_succ _) nofun

theorem ages_initializeConnectedEndpoint (i : EndpointIndex) (owner : ProcessHandle)
    (k : ConnectionIndex) (connectionGeneration : ℕ) (side : Side) :
    Ages r (initializeConnectedEndpoint r i owner k connectionGeneration side).2 := by
  rcases initializeConnectedEndpoint_cases (r := r) i owner k connectionGeneration side with
    heq | ⟨handle, _, heq⟩
  · rw [heq]
    exact .refl r
  · rw [heq]
    exact .setEndpoint (Nat.le_succ _) nofun

variable (owner : ProcessHandle)

theorem ages_create (domain : ℕ) (socketType : Flags) (protocol : ℕ) :
    Ages r (create owner domain socketType protocol r).2 := by
  unfold create
  split
  · exact .refl r
  split
  · exact .refl r
  split
  · exact .refl r
  · exact ages_initializeEndpoint _ owner

theorem ages_createPair (domain : ℕ) (socketType : Flags) (protocol : ℕ) :
    Ages r (createPair owner domain socketType protocol r).2 := by
  unfold createPair
  split
  · exact .refl r
  split
  · exact .refl r
  split
  · exact .refl r
  next i _ =>
  split
  · exact .refl r
  next j _ =>
  split
  · exact .refl r
  next k _ =>
  split
  · exact .refl r
  next generation _ =>
  have hfst := ages_initializeConnectedEndpoint (r := r) i owner k generation 0
  split
  next heq =>
    rw [heq] at hfst
    exact hfst
  next r₁ heq =>
  rw [heq] at hfst
  have hsnd := ages_initializeConnectedEndpoint (r := r₁) j owner k generation 1
  split
  next heq' =>
    rw [heq'] at hsnd
    exact (hfst.trans hsnd).trans (.retire _ i)
  next heq' =>
    rw [heq'] at hsnd
    exact (hfst.trans hsnd).trans .setConnection

theorem ages_bind (handle : ℕ) (address : UnixAddress) :
    Ages r (bind owner handle address r).2 := by
  unfold bind
  split
  · exact .refl r
  split
  · exact .refl r
  next hres =>
  obtain ⟨-, rfl, -, -⟩ := resolvedEndpoint_eq_ok.mp hres
  split
  · exact .refl r
  split
  · exact .refl r
  · exact .setEndpoint le_rfl fun _ => .inl

theorem ages_listen (handle backlog : ℕ) : Ages r (listen owner handle backlog r).2 := by
  unfold listen
  split
  · exact .refl r
  next hres =>
  obtain ⟨-, rfl, -, -⟩ := resolvedEndpoint_eq_ok.mp hres
  split
  · exact .refl r
  · exact .setEndpoint le_rfl fun _ => .inl

theorem ages_connect (h : r.WellFormed) (owner : ProcessHandle) (handle : ℕ)
    (address : UnixAddress) : Ages r (connect owner handle address r).2 := by
  rcases connect_cases (r := r) owner handle address with
    heq | ⟨client, l, server, k, generation, serverHandle, hconn, heq⟩
  · rw [heq]
    exact .refl r
  have hsrv : Ages r (r.setEndpoint server
      (connectedEndpoint r server (r.endpoints l).owner k generation 1)) :=
    .setEndpoint (Nat.le_succ _) nofun
  have hne : client ≠ server := by
    rintro rfl
    exact Bool.noConfusion (hconn.vacant.symm.trans hconn.occupied)
  have hjoined : Ages r (joined r owner (r.endpoints l).owner client server k generation handle
      serverHandle ![(r.endpoints client).address, (r.endpoints l).address]) := by
    refine (hsrv.trans (.setEndpoint ?_ ?_)).trans .setConnection
    · rw [setEndpoint_ne hne]
      exact le_rfl
    · rw [setEndpoint_ne hne]
      exact fun _ => .inl
  rw [heq]
  -- the server is the only handle that comes to a queue
  constructor
  · exact setEndpoint_cases le_rfl fun i _ => hjoined.generation i
  · refine setEndpoint_cases (fun queued hqueued => ?_) fun l' _ => hjoined.waiting l'
    have hpushed : Ring.toList maximumListenBacklog
        ((r.endpoints l).pending.push maximumListenBacklog serverHandle) =
        (r.endpoints l).waiting ++ [serverHandle] :=
      Ring.toList_push serverHandle (hconn.room.trans_le (h.pending l).2)
    rw [EndpointSlot.waiting, hpushed, mem_append, mem_singleton] at hqueued
    rcases hqueued with hqueued | rfl
    · exact .inl ⟨l, hqueued⟩
    · exact .inr ⟨server, _, decodeEndpoint_encode hconn.encoded, Nat.lt_succ_self _⟩

theorem ages_accept (h : r.WellFormed) (owner : ProcessHandle) (handle : ℕ) :
    Ages r (accept owner handle r).2 := by
  unfold accept
  split
  · exact .refl r
  next index listener hres =>
  obtain ⟨-, rfl, -, -⟩ := resolvedEndpoint_eq_ok.mp hres
  split
  · exact .refl r
  split
  · exact .refl r
  next hlen =>
  dsimp only
  split
  · exact .refl r
  refine .setEndpoint le_rfl fun queued hqueued => .inl ?_
  have hwait : (r.endpoints index).waiting = _ := Ring.toList_pop (h.pending index).1 hlen 0
  rw [hwait]
  exact mem_cons_of_mem _ hqueued

theorem ages_closeConnectedEndpoint (i : EndpointIndex) (room : ℕ) :
    Ages r (closeConnectedEndpoint r i room).2 := by
  unfold closeConnectedEndpoint
  dsimp only
  split
  · split
    · exact Ages.setConnection.trans (.retire _ i)
    · exact .retire r i
  · exact .retire r i

theorem ages_closePending (handles : List ℕ) (room : ℕ) :
    Ages r (closePending owner handles room r).2 := by
  induction handles generalizing r room with
  | nil => exact .refl r
  | cons handle rest ih =>
    unfold closePending
    dsimp only
    refine Ages.trans ?_ (ih _)
    split
    · exact .refl r
    · split
      · exact ages_closeConnectedEndpoint _ room
      · exact .refl r

theorem ages_close (handle : ℕ) : Ages r (close owner handle r).2 := by
  unfold close
  split
  · exact .refl r
  split
  · exact (Ages.retire r _).trans (ages_closePending owner _ _)
  · exact ages_closeConnectedEndpoint _ _

theorem ages_receiveMessage (handle size : ℕ) (flags : Flags) (room : ℕ) :
    Ages r (receiveMessage owner handle size flags room r).2 := by
  unfold receiveMessage
  split
  · exact .refl r
  split
  · exact .refl r
  dsimp only
  split
  · exact .refl r
  split
  · exact .refl r
  split
  · exact .refl r
  split
  · exact .refl r
  split
  · exact .refl r
  split
  · exact .setConnection
  · exact .setConnection

theorem ages_sendMessage (handle : ℕ) (input : List UInt8) (flags : Flags)
    (tokens : List TransferToken) : Ages r (sendMessage owner handle input flags tokens r).2 := by
  unfold sendMessage
  split
  · exact .refl r
  split
  · exact .refl r
  dsimp only
  split
  · exact .refl r
  split
  · exact .refl r
  split
  · exact .refl r
  split
  · exact .refl r
  split
  · exact .refl r
  · exact .setConnection

theorem ages_shutdown (handle how : ℕ) : Ages r (shutdown owner handle how r).2 := by
  unfold shutdown
  split
  · exact .refl r
  split
  · exact .refl r
  · exact .setConnection

/-! ### Runs -/

/-- The handle that a call names. -/
def handleOf {α : Type} : SocketCall α → Option ℕ
  | .create .. | .createPair .. => none
  | .bind _ handle _ | .listen _ handle _ | .connect _ handle _ | .accept _ handle
  | .receiveMessage _ handle _ _ _ | .sendMessage _ handle _ _ _ | .shutdown _ handle _
  | .close _ handle | .readiness _ handle | .readinessGeneration _ handle
  | .localAddress _ handle | .peerAddress _ handle | .peerCredentials _ handle
  | .isListener _ handle => some handle

/-- The handles that the answer of a call makes known. -/
def issued {α : Type} : SocketCall α → α → List ℕ
  | .create .., .ok handle => [handle]
  | .createPair .., .ok (first, second) => [first, second]
  | .accept .., .ok (handle, _) => [handle]
  | _, _ => []

/-- The tables after calls that only name handles that were known. -/
inductive Reached : List ℕ → SocketRegistry → Prop
  | new : Reached [] .new
  | call {known : List ℕ} {r : SocketRegistry} (h : Reached known r) {α : Type} (c : SocketCall α)
      (hc : ∀ handle, handleOf c = some handle → handle ∈ known) :
      Reached (issued c (exec _ c r).1 ++ known) (exec _ c r).2

/-- What one call keeps, when it does not name an endpoint that waits to be accepted. -/
theorem exec_step (h : r.WellFormed) {α : Type} (c : SocketCall α)
    (hc : ∀ handle, handleOf c = some handle → ∀ l, handle ∉ (r.endpoints l).waiting) :
    (exec _ c r).2.WellFormed ∧ Ages r (exec _ c r).2 ∧
      ∀ handle ∈ issued c (exec _ c r).1, ∃ owner i, (exec _ c r).2.Held owner handle i := by
  cases c with
  | create owner domain socketType protocol =>
    obtain ⟨hkept, hheld⟩ := create_preserves h owner domain socketType protocol
    refine ⟨hkept.wellFormed, ages_create owner domain socketType protocol, fun handle hmem => ?_⟩
    simp only [exec] at hmem ⊢
    cases hans : (create owner domain socketType protocol r).1 with
    | error =>
      rw [hans] at hmem
      cases hmem
    | ok =>
      rw [hans] at hmem
      obtain rfl := mem_singleton.mp hmem
      exact ⟨owner, hheld handle hans⟩
  | createPair owner domain socketType protocol =>
    obtain ⟨hkept, hheld⟩ := createPair_preserves h owner domain socketType protocol
    refine ⟨hkept.wellFormed, ages_createPair owner domain socketType protocol,
      fun handle hmem => ?_⟩
    simp only [exec] at hmem ⊢
    cases hans : (createPair owner domain socketType protocol r).1 with
    | error =>
      rw [hans] at hmem
      cases hmem
    | ok pair =>
      rw [hans] at hmem
      obtain ⟨i, j, _, hi, hj⟩ := hheld pair.1 pair.2 hans
      have hpair : handle ∈ [pair.1, pair.2] := hmem
      simp only [mem_cons, not_mem_nil, or_false] at hpair
      rcases hpair with rfl | rfl
      · exact ⟨owner, i, hi⟩
      · exact ⟨owner, j, hj⟩
  | accept owner handle =>
    obtain ⟨hkept, hheld⟩ := accept_preserves h owner handle
    refine ⟨hkept.wellFormed, ages_accept h owner handle, fun accepted hmem => ?_⟩
    simp only [exec] at hmem ⊢
    cases hans : (accept owner handle r).1 with
    | error =>
      rw [hans] at hmem
      cases hmem
    | ok answer =>
      rw [hans] at hmem
      have hans' : accepted = answer.1 := mem_singleton.mp hmem
      subst hans'
      exact ⟨owner, hheld _ _ hans⟩
  | bind owner handle address =>
    exact ⟨(bind_preserves h owner handle address).wellFormed, ages_bind owner handle address,
      fun _ hmem => absurd hmem not_mem_nil⟩
  | listen owner handle backlog =>
    exact ⟨(listen_preserves h owner handle backlog).wellFormed, ages_listen owner handle backlog,
      fun _ hmem => absurd hmem not_mem_nil⟩
  | connect owner handle address =>
    exact ⟨(connect_preserves h owner handle address).wellFormed,
      ages_connect h owner handle address, fun _ hmem => absurd hmem not_mem_nil⟩
  | receiveMessage owner handle size flags room =>
    exact ⟨(receiveMessage_preserves h owner handle size flags room).wellFormed,
      ages_receiveMessage owner handle size flags room, fun _ hmem => absurd hmem not_mem_nil⟩
  | sendMessage owner handle input flags tokens =>
    exact ⟨(sendMessage_preserves h owner handle input flags tokens).wellFormed,
      ages_sendMessage owner handle input flags tokens, fun _ hmem => absurd hmem not_mem_nil⟩
  | shutdown owner handle how =>
    exact ⟨(shutdown_preserves h owner handle how).wellFormed, ages_shutdown owner handle how,
      fun _ hmem => absurd hmem not_mem_nil⟩
  | close owner handle =>
    exact ⟨(close_preserves h owner handle (hc handle rfl)).wellFormed, ages_close owner handle,
      fun _ hmem => absurd hmem not_mem_nil⟩
  | _ => exact ⟨h, .refl r, fun _ hmem => absurd hmem not_mem_nil⟩

/-- The tables are consistent, and no known handle waits to be accepted, now or later. -/
structure Consistent (known : List ℕ) (r : SocketRegistry) : Prop where
  wellFormed : r.WellFormed
  notWaiting : ∀ handle ∈ known, ∀ l, handle ∉ (r.endpoints l).waiting
  seen : ∀ handle ∈ known, ∀ i generation, decodeEndpoint handle = some (i, generation) →
    generation ≤ (r.endpoints i).generation

theorem Reached.consistent {known : List ℕ} (h : Reached known r) : Consistent known r := by
  induction h with
  | new =>
    exact ⟨wellFormed_new, nofun, nofun⟩
  | @call known r _ α c hc ih =>
    obtain ⟨hwell, hages, hiss⟩ := exec_step ih.wellFormed c fun handle hhd =>
      ih.notWaiting handle (hc handle hhd)
    refine ⟨hwell, fun handle hmem l hl => ?_, fun handle hmem i generation hdec => ?_⟩
    · rcases mem_append.mp hmem with hnew | hold
      · obtain ⟨owner, i, hheld⟩ := hiss handle hnew
        exact hheld.not_waiting l hl
      · rcases hages.waiting l handle hl with ⟨l', hl'⟩ | ⟨i, generation, hdec, hlt⟩
        · exact ih.notWaiting handle hold l' hl'
        · have hle := ih.seen handle hold i generation hdec
          omega
    · rcases mem_append.mp hmem with hnew | hold
      · obtain ⟨owner, j, hheld⟩ := hiss handle hnew
        have hsame := hheld.decoded.symm.trans hdec
        obtain ⟨rfl, rfl⟩ := hsame
        exact le_rfl
      · exact (ih.seen handle hold i generation hdec).trans (hages.generation i)

theorem SocketRegistry.Waiting.resolved {owner : ProcessHandle} {handle : ℕ} {i : EndpointIndex}
    (h : r.Waiting owner handle i k) : resolved r owner handle = .ok (k, 1) := by
  have hendp : resolvedEndpoint r owner handle = .ok (i, r.endpoints i) :=
    resolvedEndpoint_eq_ok.mpr
      ⟨decodeEndpoint_encode h.handle_eq, rfl, h.linked.endpoint, h.owner_eq⟩
  have hhd : (r.connections k).endpointHandles 1 = handle :=
    Option.some.inj (h.linked.handle.symm.trans h.handle_eq)
  have hown : (r.connections k).owners 1 = owner := h.linked.owner.trans h.owner_eq
  rw [LinuxSocket.resolved, hendp]
  simp [resolvedConnection, h.linked.state, h.linked.index, h.linked.onSide, h.linked.connection,
    h.linked.generation, hhd, hown, h.owner_eq]

/-- A connection slot is free for the next connection exactly when no endpoint is linked
to it. -/
theorem Graph.free_iff (h : Graph r) (k : ConnectionIndex) :
    (r.connections k).occupied = false ↔ ∀ i side, ¬ r.Linked i k side := by
  constructor
  · intro hfree i side hlink
    exact Bool.noConfusion (hfree.symm.trans hlink.connection)
  · intro hnone
    rw [← Bool.not_eq_true, h.reusable k]
    rintro ⟨side, hopen⟩
    obtain ⟨i, hlink⟩ := h.opened k side hopen
    exact hnone i side hlink

/-- In every state that calls with known handles lead to, endpoints and connections name
each other; a handle in a queue resolves to a connected endpoint of the server side, and is
in that queue once and in no other; live endpoints have different addresses; nothing is on
its way to a side that does not receive; a connection is free exactly when both of its
endpoints are gone. -/
theorem socket_graph_consistent {known : List ℕ} (h : Reached known r) :
    (∀ i, (r.endpoints i).occupied → (r.endpoints i).state = .connected →
      ∃ k side, r.Linked i k side) ∧
    (∀ k side, (r.connections k).endpointOpen side → ∃ i, r.Linked i k side) ∧
    (∀ l, ∀ handle ∈ (r.endpoints l).waiting,
      (∃ k, resolved r (r.endpoints l).owner handle = .ok (k, 1)) ∧
      (r.endpoints l).waiting.count handle = 1 ∧
      ∀ l', l' ≠ l → handle ∉ (r.endpoints l').waiting) ∧
    (∀ i j, (r.endpoints i).occupied → (r.endpoints j).occupied →
      (r.endpoints i).address = (r.endpoints j).address →
      (r.endpoints i).address.isUnnamed = false → i = j) ∧
    (∀ k side, (r.connections k).readOpen side = false →
      ((r.connections k).outgoing (1 - side)).ring.length = 0 ∧
      ((r.connections k).outgoingRights (1 - side)).length = 0) ∧
    ∀ k, (r.connections k).occupied = false ↔ ∀ i side, ¬ r.Linked i k side := by
  have hwell := h.consistent.wellFormed
  refine ⟨hwell.graph.connected, hwell.graph.opened, fun l handle hl => ⟨?_, ?_, ?_⟩,
    hwell.addresses, fun k => (hwell.queues k).unread, hwell.graph.free_iff⟩
  · obtain ⟨i, k, hwait⟩ := hwell.waiting l handle hl
    exact ⟨k, hwait.resolved⟩
  · exact List.count_eq_one_of_mem (hwell.waiting_nodup l) hl
  · exact fun l' hne => hwell.not_waiting_of_other hl hne

/-- A pair, of which one end stops to receive. -/
theorem socket_graph_consistent_pair :
    ∃ known r, Reached known r ∧ (r.connections 0).readOpen 0 = false ∧
      ((r.connections 0).outgoing 1).ring.length = 0 ∧ ∃ i, r.Linked i 0 0 := by
  have hpair := Reached.new.call (.createPair { pid := 1, generation := 1 } afUnix sockStream 0)
    nofun
  have hshut := hpair.call (.shutdown { pid := 1, generation := 1 } 257 shutRd) fun handle hhd => by
    cases hhd
    decide +kernel
  obtain ⟨_, hopen, _, _, hunread, _⟩ := socket_graph_consistent hshut
  have hread : ((exec _ (.shutdown { pid := 1, generation := 1 } 257 shutRd)
      (exec _ (.createPair { pid := 1, generation := 1 } afUnix sockStream 0) .new).2).2.connections
      0).readOpen 0 = false := by decide +kernel
  exact ⟨_, _, hshut, hread, (hunread 0 0 hread).1, hopen 0 0 (by decide +kernel)⟩

end ArachKernel.LinuxSocket
