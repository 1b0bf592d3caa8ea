import ArachKernel.Linux.SocketMessages

/-!
Creating, connecting and closing endpoints keeps the socket tables consistent. Closing
a listening endpoint also closes the endpoints that wait in its queue; every other
operation leaves the handles alone that descriptors hold.
-/

namespace ArachKernel.LinuxSocket

open Table SocketRegistry Function EndpointSlot List

variable {r r' : SocketRegistry}

local instance neZeroEnds : NeZero 2 := ⟨by decide⟩

/-! ### New endpoints -/

/-- The endpoint that a free slot is given. -/
def freshEndpoint (r : SocketRegistry) (i : EndpointIndex) (owner : ProcessHandle) : EndpointSlot :=
  { EndpointSlot.empty with
    occupied := true, generation := (r.endpoints i).generation + 1, owner, readinessAdvances := 1 }

/-- The same, connected from the start. -/
def connectedEndpoint (r : SocketRegistry) (i : EndpointIndex) (owner : ProcessHandle)
    (k : ConnectionIndex) (connectionGeneration : ℕ) (side : Side) : EndpointSlot :=
  { freshEndpoint r i owner with
    state := .connected, connectionIndex := some k, connectionGeneration, side }

theorem nextEndpointGeneration_eq_some {current next : ℕ}
    (h : nextEndpointGeneration current = some next) : next = current + 1 := by
  rw [nextEndpointGeneration, Option.filter_eq_some_iff] at h
  exact (checkedAdd_eq_some.mp h.1).2

theorem initializeEndpoint_cases (i : EndpointIndex) (owner : ProcessHandle) :
    initializeEndpoint r i owner = (.error .capacity, r) ∨
      ∃ handle, encodeEndpoint i ((r.endpoints i).generation + 1) = some handle ∧
        initializeEndpoint r i owner = (.ok handle, r.setEndpoint i (freshEndpoint r i owner)) := by
  simp only [initializeEndpoint]
  split
  · exact .inl rfl
  next hgen =>
    obtain rfl := nextEndpointGeneration_eq_some hgen
    split
    · exact .inl rfl
    · next handle henc => exact .inr ⟨handle, henc, rfl⟩

variable {i : EndpointIndex} {e : EndpointSlot}

theorem setEndpoint_setEndpoint {e' : EndpointSlot} :
    (r.setEndpoint i e).setEndpoint i e' = r.setEndpoint i e' := by
  simp [SocketRegistry.setEndpoint]

theorem initializeConnectedEndpoint_cases (i : EndpointIndex) (owner : ProcessHandle)
    (k : ConnectionIndex) (connectionGeneration : ℕ) (side : Side) :
    initializeConnectedEndpoint r i owner k connectionGeneration side = (.error .capacity, r) ∨
      ∃ handle, encodeEndpoint i ((r.endpoints i).generation + 1) = some handle ∧
        initializeConnectedEndpoint r i owner k connectionGeneration side =
          (.ok handle, r.setEndpoint i
            (connectedEndpoint r i owner k connectionGeneration side)) := by
  simp only [initializeConnectedEndpoint]
  rcases initializeEndpoint_cases (r := r) i owner with heq | ⟨handle, henc, heq⟩
  · rw [heq]
    exact .inl rfl
  · rw [heq]
    refine .inr ⟨handle, henc, ?_⟩
    simp only [setEndpoint_setEndpoint, setEndpoint_self]
    rfl

/-- Some endpoints go quiet: they have no queue and no new name. The others stay. -/
theorem SocketRegistry.WellFormed.quieted (h : r.WellFormed) (quiet : EndpointIndex → Prop)
    (hgraph : Graph r') (hqs : ∀ k, (r'.connections k).QueuesWellFormed)
    (hkept : ∀ l, ¬ quiet l → r'.endpoints l = r.endpoints l)
    (hquiet : ∀ l, quiet l → (r'.endpoints l).pending.length = 0 ∧
      (r'.endpoints l).pending.Bounded maximumListenBacklog ∧
      (r'.endpoints l).backlog ≤ maximumListenBacklog)
    (hwait : ∀ l, ¬ quiet l → ∀ handle ∈ (r.endpoints l).waiting, ∀ i k,
      r.Waiting (r.endpoints l).owner handle i k → r'.Waiting (r.endpoints l).owner handle i k)
    (haddr : ∀ l, quiet l → (r'.endpoints l).occupied → (r'.endpoints l).address.isUnnamed = false →
      (r.endpoints l).occupied ∧ (r'.endpoints l).address = (r.endpoints l).address) :
    r'.WellFormed := by
  have hnone {l : EndpointIndex} (hl : quiet l) : (r'.endpoints l).waiting = [] := by
    rw [← length_eq_zero_iff, EndpointSlot.waiting, Ring.length_toList]
    exact (hquiet l hl).1
  have hnamed {l : EndpointIndex} (hocc : (r'.endpoints l).occupied)
      (hnamed : (r'.endpoints l).address.isUnnamed = false) :
      (r.endpoints l).occupied ∧ (r'.endpoints l).address = (r.endpoints l).address := by
    by_cases hl : quiet l
    · exact haddr l hl hocc hnamed
    · rw [hkept l hl] at hocc ⊢
      exact ⟨hocc, rfl⟩
  refine ⟨hgraph, fun l handle hmem => ?_, fun handle => le_trans ?_ (h.once handle),
    fun l hlen => ?_, fun l => ?_, fun a b ha hb heq hname => ?_, hqs⟩
  · by_cases hl : quiet l
    · simp [hnone hl] at hmem
    · rw [hkept l hl] at hmem ⊢
      obtain ⟨i, k, hw⟩ := h.waiting l handle hmem
      exact ⟨i, k, hwait l hl handle hmem i k hw⟩
  · refine Finset.sum_le_sum fun l _ => ?_
    by_cases hl : quiet l
    · rw [waitingCount, hnone hl]
      exact Nat.zero_le _
    · rw [hkept l hl]
  · by_cases hl : quiet l
    · exact absurd (hquiet l hl).1 hlen
    · rw [hkept l hl] at hlen ⊢
      exact h.listening l hlen
  · by_cases hl : quiet l
    · exact (hquiet l hl).2
    · rw [hkept l hl]
      exact h.pending l
  · obtain ⟨ha', hsame⟩ := hnamed ha hname
    obtain ⟨hb', hsame'⟩ := hnamed hb (heq ▸ hname)
    rw [hsame, hsame'] at heq
    rw [hsame] at hname
    exact h.addresses a b ha' hb' heq hname

/-- An endpoint without links, queue and address is put in place of another one
that had neither links nor a queue. -/
theorem SocketRegistry.WellFormed.replaceEndpoint (h : r.WellFormed)
    (hbef : (r.endpoints i).occupied → (r.endpoints i).state ≠ .connected)
    (hafter : e.occupied → e.state ≠ .connected ∧
      ∃ handle, encodeEndpoint i e.generation = some handle)
    (hpend : e.pending = .empty 0) (hbacklog : e.backlog = 0)
    (haddr : e.address.isUnnamed) : (r.setEndpoint i e).WellFormed := by
  refine h.quieted (· = i) (h.graph.setEndpoint hbef hafter) h.queues
    (fun l hl => setEndpoint_ne hl) (fun l hl => ?_) (fun l _ handle _ j k hw => ?_)
    fun l hl _ hnamed => ?_
  · rw [hl, setEndpoint_self, hpend, hbacklog]
    exact ⟨rfl, Ring.bounded_empty (by decide) _, Nat.zero_le _⟩
  · have hj : j ≠ i := by
      rintro rfl
      exact hbef hw.linked.endpoint hw.linked.state
    have hsame : SameLink (r.endpoints j) ((r.setEndpoint i e).endpoints j) := by
      rw [setEndpoint_ne hj]
      exact .refl _
    exact hw.of_same hsame (.refl _)
  · simp [hl, setEndpoint_self, haddr] at hnamed

variable {owner : ProcessHandle} {handle : ℕ} {j : EndpointIndex}

/-- Only handles of the replaced endpoint lose their meaning. -/
theorem SocketRegistry.Held.setEndpoint (h : r.Held owner handle j) (hj : j ≠ i)
    (hpend : e.pending = .empty 0) : (r.setEndpoint i e).Held owner handle j := by
  refine h.of_same ?_ (setEndpoint_cases ?_ fun l _ => h.not_waiting l)
  · rw [setEndpoint_ne hj]
    exact .refl _
  · rw [waiting, hpend]
    exact not_mem_nil

/-- A handle of a slot that was free stands in no queue. -/
theorem SocketRegistry.WellFormed.not_waiting_of_free (h : r.WellFormed)
    (hfree : (r.endpoints i).occupied = false) {generation : ℕ}
    (henc : encodeEndpoint i generation = some handle) (l : EndpointIndex) :
    handle ∉ (r.endpoints l).waiting := by
  intro hmem
  obtain ⟨j, k, hw⟩ := h.waiting l handle hmem
  obtain rfl := encodeEndpoint_inj hw.handle_eq henc
  simp [hw.linked.endpoint] at hfree

/-- A free slot is given to an endpoint without links. -/
theorem SocketRegistry.WellFormed.preserves_replace (h : r.WellFormed)
    (hfree : (r.endpoints i).occupied = false) (hafter : e.occupied → e.state ≠ .connected ∧
      ∃ handle, encodeEndpoint i e.generation = some handle)
    (hpend : e.pending = .empty 0) (hbacklog : e.backlog = 0)
    (haddr : e.address.isUnnamed) : Preserves r (r.setEndpoint i e) none 0 0 := by
  refine ⟨h.replaceEndpoint (fun hc => ?_) hafter hpend hbacklog haddr,
    fun owner' handle' j _ hheld => hheld.setEndpoint ?_ hpend, add_comm _ _⟩
  · simp [hfree] at hc
  · rintro rfl
    simpa [hfree] using hheld.occupied

theorem create_preserves (h : r.WellFormed) (owner : ProcessHandle) (domain : ℕ)
    (socketType : Flags) (protocol : ℕ) :
    Preserves r (create owner domain socketType protocol r).2 none 0 0 ∧
      ∀ handle, (create owner domain socketType protocol r).1 = .ok handle →
        ∃ i, (create owner domain socketType protocol r).2.Held owner handle i := by
  simp only [create]
  split
  · exact ⟨.refl h, nofun⟩
  split
  · exact ⟨.refl h, nofun⟩
  split
  · exact ⟨.refl h, nofun⟩
  next i hposn =>
  have hfree : (r.endpoints i).occupied = false := by simpa using position_some hposn
  rcases initializeEndpoint_cases (r := r) i owner with heq | ⟨handle, henc, heq⟩
  · rw [heq]
    exact ⟨.refl h, nofun⟩
  rw [heq]
  refine ⟨h.preserves_replace hfree (fun _ => ⟨EndpointState.noConfusion, handle, henc⟩) rfl rfl
    rfl, ?_⟩
  intro handle' hok
  cases hok
  refine ⟨i, ?_, ?_, ?_, setEndpoint_cases nofun fun l _ => h.not_waiting_of_free hfree henc l⟩
  · rw [setEndpoint_self]
    exact decodeEndpoint_encode henc
  · rw [setEndpoint_self]
    rfl
  · rw [setEndpoint_self]
    rfl

/-! ### New connections -/

variable {k : ConnectionIndex}

/-- Nothing is on its way in a connection that is not in use. -/
theorem SocketRegistry.WellFormed.tokens_of_free (h : r.WellFormed)
    (hfree : (r.connections k).occupied = false) : (r.connections k).tokens = 0 := by
  have hemp (side : Side) : ((r.connections k).outgoingRights side).tokens = [] := by
    have hclosed : (r.connections k).endpointOpen (1 - side) = false := by
      cases hopen : (r.connections k).endpointOpen (1 - side) with
      | false => rfl
      | true =>
        simp [(h.graph.reusable k).mpr ⟨_, hopen⟩] at hfree
    have hunread := ((h.queues k).unread _ ((h.queues k).shut _ hclosed)).2
    rw [ConnectionSlot.other_other] at hunread
    exact RightsQueue.tokens_of_length hunread
  rw [ConnectionSlot.tokens, hemp 0, hemp 1]
  rfl

/-- What it takes to connect two endpoints through a free connection. -/
structure Links (r r' : SocketRegistry) (first second : EndpointIndex)
    (k : ConnectionIndex) : Prop where
  unconnected : (r.endpoints first).occupied → (r.endpoints first).state ≠ .connected ∧
    (r.endpoints first).state ≠ .listening
  vacant : (r.endpoints second).occupied = false
  free : (r.connections k).occupied = false
  endpoints : ∀ i, i ≠ first → i ≠ second → r'.endpoints i = r.endpoints i
  connections : ∀ l, l ≠ k → r'.connections l = r.connections l
  firstLinked : r'.Linked first k 0
  secondLinked : r'.Linked second k 1
  kept : (r.endpoints first).occupied →
    (r'.endpoints first).generation = (r.endpoints first).generation ∧
      (r'.endpoints first).owner = (r.endpoints first).owner
  pending : ∀ i, i = first ∨ i = second → (r'.endpoints i).pending.length = 0 ∧
    (r'.endpoints i).pending.Bounded maximumListenBacklog ∧
    (r'.endpoints i).backlog ≤ maximumListenBacklog
  firstAddress : (r'.endpoints first).address.isUnnamed ∨ (r.endpoints first).occupied ∧
      (r'.endpoints first).address = (r.endpoints first).address
  secondAddress : (r'.endpoints second).address.isUnnamed
  queues : (r'.connections k).QueuesWellFormed
  tokens : (r'.connections k).tokens = 0

variable {side : Side}

namespace Links

variable {first second : EndpointIndex} {k : ConnectionIndex}

section

variable (hl : Links r r' first second k)
include hl

/-- The queues of waiting handles do not change. -/
theorem waiting_eq (h : r.WellFormed)
    (i : EndpointIndex) : (r'.endpoints i).waiting = (r.endpoints i).waiting := by
  by_cases hi : i = first ∨ i = second
  · have hafter : (r'.endpoints i).waiting = [] := by
      rw [← length_eq_zero_iff, waiting, Ring.length_toList]
      exact (hl.pending i hi).1
    rw [hafter, h.waiting_of_not_listening]
    intro hocc
    rcases hi with rfl | rfl
    · exact (hl.unconnected hocc).2
    · simp [hl.vacant] at hocc
  · rw [not_or] at hi
    rw [hl.endpoints i hi.1 hi.2]

theorem linked {l : ConnectionIndex} (hi : r.Linked i l side) :
    r'.endpoints i = r.endpoints i ∧ r'.connections l = r.connections l := by
  refine ⟨hl.endpoints i ?_ ?_, hl.connections l ?_⟩
  · rintro rfl
    exact (hl.unconnected hi.endpoint).1 hi.state
  · rintro rfl
    simpa [hl.vacant] using hi.endpoint
  · rintro rfl
    simpa [hl.free] using hi.connection

theorem wellFormed (h : r.WellFormed) : r'.WellFormed := by
  refine h.quieted (fun l => l = first ∨ l = second) ?_ (fun l => ?_)
    (fun l hne => hl.endpoints l (not_or.mp hne).1 (not_or.mp hne).2) hl.pending
    (fun l _ handle _ i l' hw => ?_) ?_
  · refine h.graph.link (fun hocc => (hl.unconnected hocc).1) (fun hocc => ?_)
      hl.free hl.endpoints hl.connections hl.firstLinked hl.secondLinked
    simp [hl.vacant] at hocc
  · by_cases hlk : l = k
    · rw [hlk]
      exact hl.queues
    · rw [hl.connections l hlk]
      exact h.queues l
  · obtain ⟨hi, hl'⟩ := hl.linked hw.linked
    exact hw.of_same (by rw [hi]; exact .refl _) (by rw [hl']; exact .refl _)
  · rintro l (rfl | rfl) _ hnamed
    · rcases hl.firstAddress with hunnamed | hsame
      · simp [hunnamed] at hnamed
      · exact hsame
    · simp [hl.secondAddress] at hnamed

theorem preserves (h : r.WellFormed) : Preserves r r' none 0 0 := by
  refine ⟨hl.wellFormed h, fun owner handle i _ hheld => ?_, ?_⟩
  · have hwait (l : EndpointIndex) : handle ∉ (r'.endpoints l).waiting := by
      rw [hl.waiting_eq h]
      exact hheld.not_waiting l
    by_cases hi : i = first
    · subst hi
      obtain ⟨hgen, hown⟩ := hl.kept hheld.occupied
      exact ⟨by rw [hgen, hheld.decoded], hl.firstLinked.endpoint, hown.trans hheld.owner_eq, hwait⟩
    · have hi' : i ≠ second := by
        rintro rfl
        simpa [hl.vacant] using hheld.occupied
      exact hheld.of_same (by rw [hl.endpoints i hi hi']; exact .refl _) hwait
  · rw [zero_add, add_zero]
    refine total_congr _ _ fun l => ?_
    by_cases hlk : l = k
    · rw [hlk, hl.tokens, h.tokens_of_free hl.free]
    · rw [hl.connections l hlk]

end

end Links

theorem connectedEndpoint_congr (h : r'.endpoints i = r.endpoints i) :
    connectedEndpoint r' i = connectedEndpoint r i := by
  funext owner k connectionGeneration side
  simp [connectedEndpoint, freshEndpoint, h]

/-- The endpoints and the connection of a socket pair. -/
def paired (r : SocketRegistry) (owner : ProcessHandle) (i j : EndpointIndex)
    (k : ConnectionIndex) (generation first second : ℕ) : SocketRegistry :=
  ((r.setEndpoint i (connectedEndpoint r i owner k generation 0)).setEndpoint j
    (connectedEndpoint r j owner k generation 1)).setConnection k
    (.initialized generation ![first, second] (fun _ => owner) fun _ => .unnamed)

theorem paired_first {generation first second : ℕ} (hne : j ≠ i) :
    (paired r owner i j k generation first second).endpoints i =
      connectedEndpoint r i owner k generation 0 := by
  rw [paired, setConnection_endpoints, setEndpoint_ne hne.symm, setEndpoint_self]

theorem paired_second {generation first second : ℕ} :
    (paired r owner i j k generation first second).endpoints j =
      connectedEndpoint r j owner k generation 1 := by
  rw [paired, setConnection_endpoints, setEndpoint_self]

theorem links_paired {generation first second : ℕ} (hne : j ≠ i)
    (hi : (r.endpoints i).occupied = false) (hj : (r.endpoints j).occupied = false)
    (hk : (r.connections k).occupied = false)
    (hfst : encodeEndpoint i ((r.endpoints i).generation + 1) = some first)
    (hsnd : encodeEndpoint j ((r.endpoints j).generation + 1) = some second) :
    Links r (paired r owner i j k generation first second) i j k := by
  have hatk : (paired r owner i j k generation first second).connections k =
      .initialized generation ![first, second] (fun _ => owner) fun _ => .unnamed := by
    rw [paired, setConnection_self]
  refine ⟨?_, hj, hk, ?_, ?_, ?_, ?_, ?_, ?_, ?_, ?_, ?_, ?_⟩
  · intro hocc
    simp [hi] at hocc
  · intro l hl hl'
    rw [paired, setConnection_endpoints, setEndpoint_ne hl', setEndpoint_ne hl]
  · intro l hl
    rw [paired, setConnection_ne hl]
    rfl
  · rw [SocketRegistry.Linked, paired_first hne, hatk]
    exact ⟨rfl, rfl, rfl, rfl, rfl, hfst, rfl, rfl, rfl⟩
  · rw [SocketRegistry.Linked, paired_second, hatk]
    exact ⟨rfl, rfl, rfl, rfl, rfl, hsnd, rfl, rfl, rfl⟩
  · intro hocc
    simp [hi] at hocc
  · rintro l (rfl | rfl)
    · rw [paired_first hne]
      exact ⟨rfl, Ring.bounded_empty (by decide) _, Nat.zero_le _⟩
    · rw [paired_second]
      exact ⟨rfl, Ring.bounded_empty (by decide) _, Nat.zero_le _⟩
  · rw [paired_first hne]
    exact .inl rfl
  · rw [paired_second]
    rfl
  · rw [hatk]
    exact ConnectionSlot.queuesWellFormed_initialized ..
  · rw [hatk]
    rfl

/-- The handle of a new linked endpoint is held. -/
theorem Links.held {first second : EndpointIndex} (hl : Links r r' first second k)
    (h : r.WellFormed) {generation : ℕ} (hfree : (r.endpoints i).occupied = false)
    (henc : encodeEndpoint i generation = some handle)
    (hgen : (r'.endpoints i).generation = generation) (hocc : (r'.endpoints i).occupied) :
    r'.Held (r'.endpoints i).owner handle i := by
  refine ⟨by rw [hgen, decodeEndpoint_encode henc], hocc, rfl, fun l hmem => ?_⟩
  rw [hl.waiting_eq h] at hmem
  exact h.not_waiting_of_free hfree henc l hmem

theorem createPair_preserves (h : r.WellFormed) (owner : ProcessHandle) (domain : ℕ)
    (socketType : Flags) (protocol : ℕ) :
    Preserves r (createPair owner domain socketType protocol r).2 none 0 0 ∧
      ∀ first second, (createPair owner domain socketType protocol r).1 = .ok (first, second) →
        ∃ i j, i ≠ j ∧ (createPair owner domain socketType protocol r).2.Held owner first i ∧
          (createPair owner domain socketType protocol r).2.Held owner second j := by
  have hnone {error : SocketError} : Preserves r r none 0 0 ∧
      ∀ first second, (Except.error error : Except SocketError (ℕ × ℕ)) = .ok (first, second) →
        ∃ i j, i ≠ j ∧ r.Held owner first i ∧ r.Held owner second j :=
    ⟨.refl h, nofun⟩
  simp only [createPair]
  split
  · exact hnone
  split
  · exact hnone
  split
  · exact hnone
  next i hi =>
  split
  · exact hnone
  next j hj =>
  split
  · exact hnone
  next k hk =>
  split
  · exact hnone
  next generation hgen =>
  have hi' : (r.endpoints i).occupied = false := by simpa using position_some hi
  have hj' := position_some hj
  rw [Bool.and_eq_true, bne_iff_ne, Bool.not_eq_true'] at hj'
  have hk' : (r.connections k).occupied = false := by simpa using position_some hk
  rcases initializeConnectedEndpoint_cases (r := r) i owner k generation 0 with
    heq | ⟨first, hfst, heq⟩
  · rw [heq]
    exact hnone
  rw [heq]
  dsimp only
  rcases initializeConnectedEndpoint_cases
      (r := r.setEndpoint i (connectedEndpoint r i owner k generation 0)) j owner k
        generation 1 with
    heq' | ⟨second, hsnd, heq'⟩
  · rw [heq']
    refine ⟨?_, nofun⟩
    simp only [retireEndpoint, setEndpoint_setEndpoint]
    exact h.preserves_replace hi' (nofun) rfl rfl rfl
  have hsame := setEndpoint_ne (r := r) (e := connectedEndpoint r i owner k generation 0) hj'.1
  rw [connectedEndpoint_congr hsame] at heq'
  rw [hsame] at hsnd
  rw [heq']
  have hlinks : Links r (paired r owner i j k generation first second) i j k :=
    links_paired hj'.1 hi' hj'.2 hk' hfst hsnd
  refine ⟨hlinks.preserves h, fun first' second' hok => ?_⟩
  cases hok
  have hheld := hlinks.held h hi' hfst (by rw [paired_first hj'.1]; rfl)
    (by rw [paired_first hj'.1]; rfl)
  have hheld' := hlinks.held h hj'.2 hsnd (by rw [paired_second]; rfl) (by rw [paired_second]; rfl)
  rw [paired_first hj'.1] at hheld
  rw [paired_second] at hheld'
  exact ⟨i, j, hj'.1.symm, hheld, hheld'⟩

/-! ### Connecting -/

/-- A handle that resolves is the one of the endpoint's slot. -/
theorem SocketRegistry.WellFormed.encode_of_decode (h : r.WellFormed)
    (hocc : (r.endpoints i).occupied)
    (hdec : decodeEndpoint handle = some (i, (r.endpoints i).generation)) :
    encodeEndpoint i (r.endpoints i).generation = some handle := by
  obtain ⟨handle', henc⟩ := h.graph.encoded i hocc
  rw [henc, Handle.decode_inj (decodeEndpoint_encode henc) hdec]

/-- The client after it is connected. -/
def EndpointSlot.connectedTo (client : EndpointSlot) (k : ConnectionIndex)
    (connectionGeneration : ℕ) : EndpointSlot :=
  { client with
    state := .connected, connectionIndex := some k, connectionGeneration, side := 0
    readinessAdvances := client.readinessAdvances + 1 }

/-- A client connected to a new server endpoint, before that one waits in the queue. -/
def joined (r : SocketRegistry) (owner listenerOwner : ProcessHandle)
    (client server : EndpointIndex) (k : ConnectionIndex)
    (generation handle serverHandle : ℕ) (addresses : Side → UnixAddress) : SocketRegistry :=
  ((r.setEndpoint server (connectedEndpoint r server listenerOwner k generation 1)).setEndpoint
    client ((r.endpoints client).connectedTo k generation)).setConnection k
    (.initialized generation ![handle, serverHandle] ![owner, listenerOwner] addresses)

section

variable {owner listenerOwner : ProcessHandle} {client server : EndpointIndex}
  {k : ConnectionIndex} {generation handle serverHandle : ℕ}
  {addresses : Side → UnixAddress}

theorem joined_client : (joined r owner listenerOwner client server k generation handle
    serverHandle addresses).endpoints client = (r.endpoints client).connectedTo k generation := by
  rw [joined, setConnection_endpoints, setEndpoint_self]

theorem joined_server (hne : server ≠ client) : (joined r owner listenerOwner client server k
    generation handle serverHandle addresses).endpoints server =
      connectedEndpoint r server listenerOwner k generation 1 := by
  rw [joined, setConnection_endpoints, setEndpoint_ne hne, setEndpoint_self]

theorem joined_other {l : EndpointIndex} (hcli : l ≠ client) (hsrv : l ≠ server) :
    (joined r owner listenerOwner client server k generation handle serverHandle
      addresses).endpoints l = r.endpoints l := by
  rw [joined, setConnection_endpoints, setEndpoint_ne hcli, setEndpoint_ne hsrv]

theorem links_joined (h : r.WellFormed) (hocc : (r.endpoints client).occupied)
    (hown : (r.endpoints client).owner = owner)
    (hhd : encodeEndpoint client (r.endpoints client).generation = some handle)
    (hst : (r.endpoints client).state ≠ .connected ∧ (r.endpoints client).state ≠ .listening)
    (hsrv : (r.endpoints server).occupied = false) (hk : (r.connections k).occupied = false)
    (hserverHandle : encodeEndpoint server ((r.endpoints server).generation + 1) =
      some serverHandle) :
    Links r (joined r owner listenerOwner client server k generation handle serverHandle addresses)
      client server k := by
  have hne : server ≠ client := by
    rintro rfl
    simp [hocc] at hsrv
  have hpend : (r.endpoints client).pending.length = 0 := by
    by_contra hlen
    exact hst.2 (h.listening client hlen).2
  have hatk : (joined r owner listenerOwner client server k generation handle serverHandle
      addresses).connections k = .initialized generation ![handle, serverHandle]
        ![owner, listenerOwner] addresses := by
    rw [joined, setConnection_self]
  refine ⟨fun _ => hst, hsrv, hk, fun l hl hl' => joined_other hl hl', ?_, ?_, ?_, ?_, ?_, ?_,
    ?_, ?_, ?_⟩
  · intro l hl
    rw [joined, setConnection_ne hl]
    rfl
  · rw [SocketRegistry.Linked, joined_client, hatk]
    exact ⟨hocc, rfl, rfl, rfl, rfl, hhd, hown.symm, rfl, rfl⟩
  · rw [SocketRegistry.Linked, joined_server hne, hatk]
    exact ⟨rfl, rfl, rfl, rfl, rfl, hserverHandle, rfl, rfl, rfl⟩
  · intro _
    rw [joined_client]
    exact ⟨rfl, rfl⟩
  · rintro l (rfl | rfl)
    · rw [joined_client]
      exact ⟨hpend, h.pending l⟩
    · rw [joined_server hne]
      exact ⟨rfl, Ring.bounded_empty (by decide) _, Nat.zero_le _⟩
  · rw [joined_client]
    exact .inr ⟨hocc, rfl⟩
  · rw [joined_server hne]
    rfl
  · rw [hatk]
    exact ConnectionSlot.queuesWellFormed_initialized ..
  · rw [hatk]
    rfl

end

/-- A listening endpoint gets one more handle to accept. -/
theorem preserves_enqueue (h : r.WellFormed) {l : EndpointIndex}
    (hocc : (r.endpoints l).occupied) (hst : (r.endpoints l).state = .listening)
    (hroom : (r.endpoints l).pending.length < (r.endpoints l).backlog)
    (hwait : r.Waiting (r.endpoints l).owner handle i k)
    (hnew : ∀ l', handle ∉ (r.endpoints l').waiting) :
    Preserves r (r.setEndpoint l
      { r.endpoints l with
        pending := (r.endpoints l).pending.push maximumListenBacklog handle
        readinessAdvances := (r.endpoints l).readinessAdvances + 1 }) (some handle) 0 0 := by
  have hlink : SameLink (r.endpoints l) { r.endpoints l with
      pending := (r.endpoints l).pending.push maximumListenBacklog handle
      readinessAdvances := (r.endpoints l).readinessAdvances + 1 } :=
    ⟨rfl, rfl, rfl, Iff.rfl, rfl, rfl, rfl⟩
  have hlt : (r.endpoints l).pending.length < maximumListenBacklog :=
    hroom.trans_le (h.pending l).2
  have hpushed : Ring.toList maximumListenBacklog
      ((r.endpoints l).pending.push maximumListenBacklog handle) =
      (r.endpoints l).waiting ++ [handle] := Ring.toList_push handle hlt
  refine .setEndpoint hlink (h.setEndpoint hlink ?_ ?_ (fun _ => ⟨hocc, hst⟩)
    ⟨(h.pending l).1.push handle hlt, (h.pending l).2⟩ (.inl rfl)) ?_
  · intro handle' hmem
    rw [waiting, hpushed, mem_append, mem_singleton] at hmem
    rcases hmem with hmem | rfl
    · exact h.waiting l handle' hmem
    · exact ⟨i, k, hwait⟩
  · intro handle'
    show _ + count handle' (Ring.toList _ _) ≤ 1 + count handle' (r.endpoints l).waiting
    rw [hpushed, count_append, count_singleton]
    have honce := h.once handle'
    by_cases heq : handle = handle'
    · subst heq
      -- the handle is in no queue yet
      have hzero : total (waitingCount handle) r.endpoints = 0 :=
        total_eq_zero.mpr fun l' => count_eq_zero.mpr (hnew l')
      simp only [beq_self_eq_true, if_true]
      omega
    · rw [if_neg (by simpa using heq)]
      omega
  · intro handle' hmem
    rw [waiting, hpushed, mem_append, mem_singleton] at hmem
    exact hmem.imp id fun heq => by rw [heq]

/-- What a successful connect found. -/
structure Connects (r : SocketRegistry) (owner : ProcessHandle) (handle : ℕ)
    (client l server : EndpointIndex) (k : ConnectionIndex) (serverHandle : ℕ) :
    Prop where
  decoded : decodeEndpoint handle = some (client, (r.endpoints client).generation)
  occupied : (r.endpoints client).occupied
  owner_eq : (r.endpoints client).owner = owner
  state : (r.endpoints client).state ≠ .connected ∧ (r.endpoints client).state ≠ .listening
  listener : (r.endpoints l).occupied
  listening : (r.endpoints l).state = .listening
  room : (r.endpoints l).pending.length < (r.endpoints l).backlog
  vacant : (r.endpoints server).occupied = false
  connection : (r.connections k).occupied = false
  encoded : encodeEndpoint server ((r.endpoints server).generation + 1) = some serverHandle

theorem connect_cases (owner : ProcessHandle) (handle : ℕ) (address : UnixAddress) :
    (connect owner handle address r).2 = r ∨ ∃ client l server k generation serverHandle,
        Connects r owner handle client l server k serverHandle ∧
        (connect owner handle address r).2 =
          (joined r owner (r.endpoints l).owner client server k generation handle serverHandle
            ![(r.endpoints client).address, (r.endpoints l).address]).setEndpoint l
            { r.endpoints l with
              pending := (r.endpoints l).pending.push maximumListenBacklog serverHandle
              readinessAdvances := (r.endpoints l).readinessAdvances + 1 } := by
  simp only [connect]
  split
  · exact .inl rfl
  split
  · exact .inl rfl
  next client endpoint hres =>
  obtain ⟨hdec, rfl, hocc, hown⟩ := resolvedEndpoint_eq_ok.mp hres
  split
  · exact .inl rfl
  · exact .inl rfl
  all_goals
    next hst =>
    split
    · exact .inl rfl
    next l hl =>
    split
    · exact .inl rfl
    next hroom =>
    split
    · exact .inl rfl
    next server hsrv =>
    split
    · exact .inl rfl
    next k hk =>
    split
    · exact .inl rfl
    next generation hgen =>
    rcases initializeConnectedEndpoint_cases (r := r) server (r.endpoints l).owner k generation 1
      with heq | ⟨serverHandle, hserverHandle, heq⟩
    · rw [heq]
      exact .inl rfl
    rw [heq]
    have hl' := position_some hl
    simp only [Bool.and_eq_true, beq_iff_eq] at hl'
    have hsrv' : (r.endpoints server).occupied = false := by simpa using position_some hsrv
    have hcli : client ≠ server := by
      rintro rfl
      simp [hocc] at hsrv'
    have hlsn : l ≠ server := by
      rintro rfl
      simp [hl'.1.1] at hsrv'
    have hne : l ≠ client := by
      rintro rfl
      simp [hl'.1.2] at hst
    refine .inr ⟨client, l, server, k, generation, serverHandle,
      ⟨hdec, hocc, hown, by simp [hst], hl'.1.1, hl'.1.2, not_le.mp hroom, hsrv',
        by simpa using position_some hk, hserverHandle⟩, ?_⟩
    simp only [setEndpoint_ne hcli, setConnection_endpoints, setEndpoint_ne hne,
      setEndpoint_ne hlsn]
    rfl

theorem connect_preserves (h : r.WellFormed) (owner : ProcessHandle) (handle : ℕ)
    (address : UnixAddress) : Preserves r (connect owner handle address r).2 none 0 0 := by
  rcases connect_cases (r := r) owner handle address with
    heq | ⟨client, l, server, k, generation, serverHandle, hconn, heq⟩
  · rw [heq]
    exact .refl h
  have hhd := h.encode_of_decode hconn.occupied hconn.decoded
  have hne : server ≠ client := by
    rintro rfl
    simpa [hconn.occupied] using hconn.vacant
  have hcli : l ≠ client := by
    rintro rfl
    exact hconn.state.2 hconn.listening
  have hsrv : l ≠ server := by
    rintro rfl
    simpa [hconn.listener] using hconn.vacant
  obtain ⟨s, hs⟩ : ∃ s, s = joined r owner (r.endpoints l).owner client server k generation handle
      serverHandle ![(r.endpoints client).address, (r.endpoints l).address] := ⟨_, rfl⟩
  have hlinks : Links r s client server k := by
    rw [hs]
    exact links_joined h hconn.occupied hconn.owner_eq hhd hconn.state
      hconn.vacant hconn.connection hconn.encoded
  have hlsn : s.endpoints l = r.endpoints l := by
    rw [hs]
    exact joined_other hcli hsrv
  have hwait : s.Waiting (s.endpoints l).owner serverHandle server k := by
    have hat : s.endpoints server =
        connectedEndpoint r server (r.endpoints l).owner k generation 1 := by
      rw [hs]
      exact joined_server hne
    refine ⟨?_, ?_, hlinks.secondLinked⟩
    · rw [hat]
      exact hconn.encoded
    · rw [hat, hlsn]
      rfl
  have hjoined := hlinks.preserves h
  have hqueued := preserves_enqueue hjoined.wellFormed (l := l)
    (by rw [hlsn, hconn.listener]) (by rw [hlsn, hconn.listening])
    (by rw [hlsn]; exact hconn.room) hwait (fun l' => by
      rw [hlinks.waiting_eq h]
      exact h.not_waiting_of_free hconn.vacant hconn.encoded l')
  rw [heq, ← hs]
  rw [hlsn] at hqueued
  refine ⟨hqueued.wellFormed, fun owner' handle' i hgone hheld => ?_,
    hqueued.tokens.trans (by rw [← hjoined.tokens, zero_add, add_zero])⟩
  refine hqueued.held owner' handle' i ?_ (hjoined.held owner' handle' i hgone hheld)
  -- a held handle names an endpoint that was there before the connect
  intro hsame
  cases hsame
  have hdecd := hheld.decoded
  rw [decodeEndpoint_encode hconn.encoded, Option.some.injEq, Prod.mk.injEq] at hdecd
  simpa [← hdecd.1, hconn.vacant] using hheld.occupied

/-! ### Closing -/

/-- What closing one endpoint does: the others keep their slots and their links. -/
structure Closes (r r' : SocketRegistry) (i : EndpointIndex)
    (returned : List TransferToken) : Prop where
  wellFormed : r'.WellFormed
  endpoints : ∀ j, j ≠ i → r'.endpoints j = r.endpoints j
  linked : ∀ j k side, j ≠ i → r.Linked j k side → r'.Linked j k side
  waiting : (r'.endpoints i).waiting = []
  tokens : (returned : Multiset TransferToken) + r'.tokens = r.tokens
  length_le : returned.length ≤ directionRoom

namespace Closes

variable {i : EndpointIndex} {returned : List TransferToken}

theorem not_waiting (h : Closes r r' i returned)
    (hnot : ∀ l, l ≠ i → handle ∉ (r.endpoints l).waiting) (l : EndpointIndex) :
    handle ∉ (r'.endpoints l).waiting := by
  by_cases hl : l = i
  · rw [hl, h.waiting]
    exact not_mem_nil
  · rw [h.endpoints l hl]
    exact hnot l hl

theorem held (h : Closes r r' i returned) (hj : j ≠ i) (hheld : r.Held owner handle j) :
    r'.Held owner handle j :=
  hheld.of_same (by rw [h.endpoints j hj]; exact .refl _)
    (h.not_waiting fun l _ => hheld.not_waiting l)

theorem stillWaiting (h : Closes r r' i returned) (hj : j ≠ i)
    (hw : r.Waiting owner handle j k) : r'.Waiting owner handle j k :=
  ⟨by rw [h.endpoints j hj, hw.handle_eq], by rw [h.endpoints j hj, hw.owner_eq],
    h.linked j k 1 hj hw.linked⟩

end Closes

/-- An endpoint without links goes. -/
theorem closes_retire (h : r.WellFormed)
    (hi : (r.endpoints i).occupied → (r.endpoints i).state ≠ .connected) :
    Closes r (retireEndpoint r i) i [] where
  wellFormed := h.replaceEndpoint hi (nofun) rfl rfl rfl
  endpoints _ hj := setEndpoint_ne hj
  linked j k side hj hlinked := by
    rw [SocketRegistry.Linked, retireEndpoint, setEndpoint_ne hj]
    exact hlinked
  waiting := by
    rw [retireEndpoint, setEndpoint_self]
    rfl
  tokens := zero_add _
  length_le := Nat.zero_le _

variable {room : ℕ}

/-- A linked endpoint that does not wait goes, with its side of the connection. -/
theorem closes_linked (h : r.WellFormed) (hlink : r.Linked i k side)
    (hhd : encodeEndpoint i (r.endpoints i).generation = some handle)
    (hnot : ∀ l, handle ∉ (r.endpoints l).waiting) (hroom : directionRoom ≤ room) :
    Closes r (retireEndpoint (r.setConnection k (closeSide (r.connections k) side room).2) i) i
      (closeSide (r.connections k) side room).1 := by
  obtain ⟨htoks, hlen, hqs⟩ := closeSide_spec (h.queues k) side hroom
  obtain ⟨s, hs⟩ : ∃ s, s = retireEndpoint
      (r.setConnection k (closeSide (r.connections k) side room).2) i := ⟨_, rfl⟩
  have hi : s.endpoints i = { empty with
      generation := (r.endpoints i).generation } := by
    rw [hs, retireEndpoint, setEndpoint_self]
    rfl
  have hoth (j : EndpointIndex) (hj : j ≠ i) : s.endpoints j = r.endpoints j := by
    rw [hs, retireEndpoint, setEndpoint_ne hj]
    rfl
  have hk : s.connections k = (closeSide (r.connections k) side room).2 := by
    rw [hs, retireEndpoint, setEndpoint_connections, setConnection_self]
  have hconns (l : ConnectionIndex) (hl : l ≠ k) : s.connections l = r.connections l := by
    rw [hs, retireEndpoint, setEndpoint_connections, setConnection_ne hl]
  have hnone : (s.endpoints i).waiting = [] := by
    rw [hi]
    rfl
  have hgone : (s.endpoints i).occupied = false := by
    rw [hi]
    rfl
  obtain ⟨hgraph, hlinks⟩ := h.graph.unlink hlink hgone hoth hconns (by
    rw [hk]
    exact closeSide_sideClosed ..)
  rw [← hs]
  refine ⟨h.quieted (· = i) hgraph (fun l => ?_) hoth (fun l hl => ?_)
    (fun l _ handle' hmem j k' hw => ?_) (fun l hl hocc => ?_), hoth, hlinks, hnone, ?_, hlen⟩
  · by_cases hl : l = k
    · rw [hl, hk]
      exact hqs
    · rw [hconns l hl]
      exact h.queues l
  · rw [hl, hi]
    exact ⟨rfl, Ring.bounded_empty (by decide) _, Nat.zero_le _⟩
  · have hj : j ≠ i := by
      rintro rfl
      have heq := hw.handle_eq
      rw [hhd, Option.some.injEq] at heq
      exact hnot l (heq ▸ hmem)
    exact ⟨by rw [hoth j hj, hw.handle_eq], by rw [hoth j hj, hw.owner_eq],
      hlinks j k' 1 hj hw.linked⟩
  · simp [hl, hgone] at hocc
  · have hset := tokens_setConnection (r := r) (k := k) (htoks.trans (add_zero _).symm)
    rw [add_zero] at hset
    rw [hs]
    exact hset

/-- Closing an endpoint that does not wait in a queue. -/
theorem closes_closeConnectedEndpoint (h : r.WellFormed) (hocc : (r.endpoints i).occupied)
    (hhd : encodeEndpoint i (r.endpoints i).generation = some handle)
    (hnot : ∀ l, handle ∉ (r.endpoints l).waiting) (hroom : directionRoom ≤ room) :
    Closes r (closeConnectedEndpoint r i room).2 i (closeConnectedEndpoint r i room).1 := by
  by_cases hst : (r.endpoints i).state = .connected
  · obtain ⟨k, side, hlink⟩ := h.graph.connected i hocc hst
    have hclose : closeConnectedEndpoint r i room = ((closeSide (r.connections k) side room).1,
        retireEndpoint (r.setConnection k (closeSide (r.connections k) side room).2) i) := by
      simp only [closeConnectedEndpoint, hlink.index, hlink.onSide]
      simp [hst, hlink.connection, hlink.generation, hlink.handle]
    rw [hclose]
    exact closes_linked h hlink hhd hnot hroom
  · have hclose : closeConnectedEndpoint r i room = ([], retireEndpoint r i) := by
      simp only [closeConnectedEndpoint]
      split
      · simp [hst]
      · rfl
    rw [hclose]
    exact closes_retire h fun _ => hst

/-- Closing the endpoints that a listener leaves behind. -/
theorem closePending_spec (handles : List ℕ) (h : r.WellFormed) (hnd : handles.Nodup)
    (hwait : ∀ handle ∈ handles, ∃ i k, r.Waiting owner handle i k)
    (hnot : ∀ handle ∈ handles, ∀ l, handle ∉ (r.endpoints l).waiting)
    (hroom : handles.length * directionRoom ≤ room) :
    (closePending owner handles room r).2.WellFormed ∧
      (∀ owner' handle i, handle ∉ handles → r.Held owner' handle i →
        (closePending owner handles room r).2.Held owner' handle i) ∧
      ((closePending owner handles room r).1 : Multiset TransferToken) +
        (closePending owner handles room r).2.tokens = r.tokens := by
  induction handles generalizing r room with
  | nil => exact ⟨h, fun _ _ _ _ hheld => hheld, zero_add _⟩
  | cons handle handles ih =>
    rw [nodup_cons] at hnd
    rw [length_cons, Nat.succ_mul] at hroom
    obtain ⟨i, k, hw⟩ := hwait handle mem_cons_self
    have hcloses := closes_closeConnectedEndpoint h hw.linked.endpoint hw.handle_eq
      (hnot handle mem_cons_self) (show directionRoom ≤ room by omega)
    have hcons : closePending owner (handle :: handles) room r =
        ((closeConnectedEndpoint r i room).1 ++ (closePending owner handles
            (room - (closeConnectedEndpoint r i room).1.length)
            (closeConnectedEndpoint r i room).2).1,
          (closePending owner handles (room - (closeConnectedEndpoint r i room).1.length)
            (closeConnectedEndpoint r i room).2).2) := by
      simp only [closePending, decodeEndpoint_encode hw.handle_eq, hw.linked.endpoint,
        hw.owner_eq, hw.linked.state, beq_self_eq_true, Bool.and_self, if_true]
    rw [hcons]
    generalize closeConnectedEndpoint r i room = closed at hcloses
    have hwait' : ∀ handle' ∈ handles, ∃ j k, closed.2.Waiting owner handle' j k := by
      intro handle' hmem
      obtain ⟨j, k', hw'⟩ := hwait handle' (mem_cons_of_mem _ hmem)
      refine ⟨j, k', hcloses.stillWaiting ?_ hw'⟩
      rintro rfl
      have heq := hw'.handle_eq
      rw [hw.handle_eq, Option.some.injEq] at heq
      exact hnd.1 (heq ▸ hmem)
    have hnot' : ∀ handle' ∈ handles, ∀ l, handle' ∉ (closed.2.endpoints l).waiting :=
      fun handle' hmem => hcloses.not_waiting fun l _ => hnot handle' (mem_cons_of_mem _ hmem) l
    have hroom' : handles.length * directionRoom ≤ room - closed.1.length := by
      have hle := hcloses.length_le
      omega
    obtain ⟨hwell, hheld, htoks⟩ := ih hcloses.wellFormed hnd.2 hwait' hnot' hroom'
    refine ⟨hwell, fun owner' handle' j hmem hheld' => ?_, ?_⟩
    · rw [mem_cons, not_or] at hmem
      refine hheld owner' handle' j hmem.2 (hcloses.held ?_ hheld')
      rintro rfl
      exact hmem.1 (Handle.decode_inj hheld'.decoded (decodeEndpoint_encode hw.handle_eq))
    · rw [← Multiset.coe_add, add_assoc, htoks]
      exact hcloses.tokens

/-- Closing a held handle. -/
theorem close_preserves (h : r.WellFormed) (owner : ProcessHandle) (handle : ℕ)
    (hnot : ∀ l, handle ∉ (r.endpoints l).waiting) :
    Preserves r (close owner handle r).2 (some handle) (returnedTokens (close owner handle r).1)
      0 := by
  simp only [close]
  split
  · exact ⟨h, fun _ _ _ _ hheld => hheld, add_comm _ _⟩
  next i endpoint hres =>
  obtain ⟨hdec, rfl, hocc, hown⟩ := resolvedEndpoint_eq_ok.mp hres
  have hhd := h.encode_of_decode hocc hdec
  have hne {owner' : ProcessHandle} {handle' : ℕ} {j : EndpointIndex}
      (hgone : some handle' ≠ some handle) (hheld : r.Held owner' handle' j) : j ≠ i := by
    rintro rfl
    exact hgone (by rw [Handle.decode_inj hheld.decoded hdec])
  split
  next hst =>
    -- the listener goes first, then what waits in its queue
    have hretired := closes_retire h (i := i) (fun _ => by rw [hst]; decide)
    have hwait : ∀ handle' ∈ (r.endpoints i).waiting, ∃ j k,
        (retireEndpoint r i).Waiting owner handle' j k := by
      intro handle' hmem
      obtain ⟨j, k, hw⟩ := h.waiting i handle' hmem
      rw [hown] at hw
      refine ⟨j, k, hretired.stillWaiting ?_ hw⟩
      rintro rfl
      simpa [hst] using hw.linked.state
    have hnot' : ∀ handle' ∈ (r.endpoints i).waiting, ∀ l,
        handle' ∉ ((retireEndpoint r i).endpoints l).waiting :=
      fun handle' hmem => hretired.not_waiting fun l => h.not_waiting_of_other hmem
    have hroom : (r.endpoints i).waiting.length * directionRoom ≤ maximumCloseDiscards := by
      refine le_trans (Nat.mul_le_mul_right (m := maximumListenBacklog) _ ?_) (by decide)
      rw [waiting, Ring.length_toList]
      exact (h.pending i).1.length_le
    obtain ⟨hwell, hheld, htoks⟩ := closePending_spec _ hretired.wellFormed
      (h.waiting_nodup i) hwait hnot' hroom
    refine ⟨hwell, fun owner' handle' j hgone hheld' => ?_, htoks.trans (add_zero _).symm⟩
    exact hheld owner' handle' j (hheld'.not_waiting i) (hretired.held (hne hgone hheld') hheld')
  · have hcloses := closes_closeConnectedEndpoint h hocc hhd hnot
      (show directionRoom ≤ maximumCloseDiscards by decide)
    exact ⟨hcloses.wellFormed,
      fun owner' handle' j hgone hheld => hcloses.held (hne hgone hheld) hheld,
      hcloses.tokens.trans (add_zero _).symm⟩

end ArachKernel.LinuxSocket
