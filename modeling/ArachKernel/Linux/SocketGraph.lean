import ArachKernel.Linux.SocketLinks

/-!
Consistency of the three socket tables. Besides the links between endpoints and
connections: every handle in the queue of a listening endpoint names a connected
endpoint of the server side and stands in no other queue; the addresses of live
endpoints differ; the queues of every connection are well formed.

A handle is `Held` by its owner when it names an endpoint that does not wait to be
accepted; these are the handles that descriptors have. Every operation keeps the
tables consistent, provided that only held handles are closed, and accounts for the
tokens in the rights queues.
-/

namespace ArachKernel.LinuxSocket

open Table Function EndpointSlot List

/-- The handles that wait to be accepted. -/
def EndpointSlot.waiting (e : EndpointSlot) : List ℕ := e.pending.toList maximumListenBacklog

/-- How often a handle waits in the queue of an endpoint. -/
def EndpointSlot.waitingCount (handle : ℕ) (e : EndpointSlot) : ℕ := e.waiting.count handle

namespace SocketRegistry

/-- A handle names a connected endpoint of the server side. -/
structure Waiting (r : SocketRegistry) (owner : ProcessHandle) (handle : ℕ)
    (i : EndpointIndex) (k : ConnectionIndex) : Prop where
  handle_eq : encodeEndpoint i (r.endpoints i).generation = some handle
  owner_eq : (r.endpoints i).owner = owner
  linked : r.Linked i k 1

structure WellFormed (r : SocketRegistry) : Prop where
  graph : Graph r
  waiting : ∀ l, ∀ handle ∈ (r.endpoints l).waiting,
    ∃ i k, r.Waiting (r.endpoints l).owner handle i k
  once : ∀ handle, total (EndpointSlot.waitingCount handle) r.endpoints ≤ 1
  listening : ∀ l, (r.endpoints l).pending.length ≠ 0 →
    (r.endpoints l).occupied ∧ (r.endpoints l).state = .listening
  pending : ∀ l, (r.endpoints l).pending.Bounded maximumListenBacklog ∧
    (r.endpoints l).backlog ≤ maximumListenBacklog
  addresses : ∀ i j, (r.endpoints i).occupied → (r.endpoints j).occupied →
    (r.endpoints i).address = (r.endpoints j).address →
    (r.endpoints i).address.isUnnamed = false → i = j
  queues : ∀ k, (r.connections k).QueuesWellFormed

/-- A handle names an endpoint of its owner that does not wait to be accepted. -/
structure Held (r : SocketRegistry) (owner : ProcessHandle) (handle : ℕ)
    (i : EndpointIndex) : Prop where
  decoded : decodeEndpoint handle = some (i, (r.endpoints i).generation)
  occupied : (r.endpoints i).occupied
  owner_eq : (r.endpoints i).owner = owner
  not_waiting : ∀ l, handle ∉ (r.endpoints l).waiting

/-- The tokens in all rights queues. -/
def tokens (r : SocketRegistry) : Multiset TransferToken :=
  total ConnectionSlot.tokens r.connections

variable {r r' : SocketRegistry}

theorem wellFormed_new : WellFormed .new where
  graph := .new
  waiting _ _ h := absurd h not_mem_nil
  once handle := (total_zero (waitingCount handle) _ fun _ => rfl).le.trans zero_le_one
  listening _ h := absurd rfl h
  pending _ := ⟨Ring.bounded_empty (by decide) _, Nat.zero_le _⟩
  addresses _ _ h := by cases h
  queues _ := ConnectionSlot.queuesWellFormed_vacant 0

/-- An operation keeps the tables consistent and all held handles but one. -/
structure Preserves (r r' : SocketRegistry) (gone : Option ℕ)
    (returned sent : Multiset TransferToken) : Prop where
  wellFormed : r'.WellFormed
  held : ∀ owner handle i, some handle ≠ gone → r.Held owner handle i → r'.Held owner handle i
  tokens : returned + r'.tokens = r.tokens + sent

theorem Preserves.refl (h : r.WellFormed) : Preserves r r none 0 0 :=
  ⟨h, fun _ _ _ _ hheld => hheld, by rw [zero_add, add_zero]⟩

/-! ### Handles in queues -/

variable {handle : ℕ}

theorem WellFormed.not_waiting_of_other (h : r.WellFormed) {l l' : EndpointIndex}
    (hl : handle ∈ (r.endpoints l).waiting) (hne : l' ≠ l) : handle ∉ (r.endpoints l').waiting := by
  intro hl'
  have hcnt := count_pos_iff.mpr hl
  have hcnt' := count_pos_iff.mpr hl'
  have hupdate := total_update (waitingCount handle) r.endpoints l .empty
  have hle := le_total (waitingCount handle) (update r.endpoints l .empty) l'
  rw [update_of_ne hne] at hle
  have honce := h.once handle
  simp only [waitingCount] at hupdate hle honce
  have hemp : empty.waiting.count handle = 0 := rfl
  omega

theorem WellFormed.waiting_nodup (h : r.WellFormed) (l : EndpointIndex) :
    (r.endpoints l).waiting.Nodup := by
  rw [nodup_iff_count_le_one]
  exact fun handle => (le_total _ _ l).trans (h.once handle)

theorem WellFormed.waiting_of_not_listening (h : r.WellFormed) {l : EndpointIndex}
    (hl : (r.endpoints l).occupied → (r.endpoints l).state ≠ .listening) :
    (r.endpoints l).waiting = [] := by
  rw [← length_eq_zero_iff, EndpointSlot.waiting, Ring.length_toList]
  by_contra hlen
  obtain ⟨hocc, hst⟩ := h.listening l hlen
  exact hl hocc hst

/-! ### Changes that keep the links -/

variable {i : EndpointIndex} {k : ConnectionIndex} {owner : ProcessHandle}

theorem Waiting.of_same (h : r.Waiting owner handle i k)
    (he : SameLink (r.endpoints i) (r'.endpoints i))
    (hc : SameEnds (r.connections k) (r'.connections k)) : r'.Waiting owner handle i k where
  handle_eq := by rw [he.generation, h.handle_eq]
  owner_eq := he.owner.trans h.owner_eq
  linked := h.linked.of_same he hc

theorem Held.of_same (h : r.Held owner handle i) (he : SameLink (r.endpoints i) (r'.endpoints i))
    (hwait : ∀ l, handle ∉ (r'.endpoints l).waiting) : r'.Held owner handle i where
  decoded := by rw [he.generation, h.decoded]
  occupied := he.occupied.trans h.occupied
  owner_eq := he.owner.trans h.owner_eq
  not_waiting := hwait

theorem Waiting.held (h : r.Waiting owner handle i k)
    (he : SameLink (r.endpoints i) (r'.endpoints i))
    (hwait : ∀ l, handle ∉ (r'.endpoints l).waiting) : r'.Held owner handle i where
  decoded := by rw [he.generation, decodeEndpoint_encode h.handle_eq]
  occupied := he.occupied.trans h.linked.endpoint
  owner_eq := he.owner.trans h.owner_eq
  not_waiting := hwait

variable {e : EndpointSlot} {c : ConnectionSlot}

theorem sameLink_setEndpoint (h : SameLink (r.endpoints i) e) (j : EndpointIndex) :
    SameLink (r.endpoints j) ((r.setEndpoint i e).endpoints j) :=
  setEndpoint_cases h (fun _ _ => .refl _) j

/-- An endpoint changes, but not its link. -/
theorem WellFormed.setEndpoint (h : r.WellFormed) (hlink : SameLink (r.endpoints i) e)
    (hwait : ∀ handle ∈ e.waiting, ∃ j k, r.Waiting e.owner handle j k)
    (honce : ∀ handle, total (waitingCount handle) r.endpoints +
      e.waitingCount handle ≤ 1 + (r.endpoints i).waitingCount handle)
    (hlis : e.pending.length ≠ 0 → e.occupied ∧ e.state = .listening)
    (hpend : e.pending.Bounded maximumListenBacklog ∧ e.backlog ≤ maximumListenBacklog)
    (haddr : e.address = (r.endpoints i).address ∨ ∀ j, j ≠ i →
      (r.endpoints j).occupied → (r.endpoints j).address ≠ e.address) :
    (r.setEndpoint i e).WellFormed := by
  have hall := sameLink_setEndpoint hlink
  have hat {P : EndpointSlot → Prop} (hi : P e) (hoth : ∀ j, P (r.endpoints j))
      (j : EndpointIndex) : P ((r.setEndpoint i e).endpoints j) :=
    setEndpoint_cases hi (fun j _ => hoth j) j
  constructor
  · exact h.graph.of_same hall fun k => .refl _
  · refine hat (P := fun e => ∀ handle ∈ e.waiting, ∃ j k,
      (r.setEndpoint i _).Waiting e.owner handle j k) ?_ ?_
    · intro handle hhd
      obtain ⟨j, k, hw⟩ := hwait handle hhd
      exact ⟨j, k, hw.of_same (hall j) (.refl _)⟩
    · intro l handle hhd
      obtain ⟨j, k, hw⟩ := h.waiting l handle hhd
      exact ⟨j, k, hw.of_same (hall j) (.refl _)⟩
  · intro handle
    have hupdate := total_update (waitingCount handle) r.endpoints i e
    have hle := honce handle
    show total _ (update r.endpoints i e) ≤ 1
    omega
  · exact hat (P := fun e => e.pending.length ≠ 0 → e.occupied ∧ e.state = .listening)
      hlis h.listening
  · exact hat (P := fun e => e.pending.Bounded maximumListenBacklog ∧
      e.backlog ≤ maximumListenBacklog) hpend h.pending
  · have hocc (j : EndpointIndex) :
        ((r.setEndpoint i e).endpoints j).occupied = (r.endpoints j).occupied := (hall j).occupied
    intro a b ha hb heq hnamed
    rw [hocc] at ha hb
    rcases haddr with hsame | hnew
    · have haddresses (j : EndpointIndex) :
          ((r.setEndpoint i e).endpoints j).address = (r.endpoints j).address :=
        setEndpoint_cases hsame (fun _ _ => rfl) j
      rw [haddresses] at heq hnamed
      rw [haddresses] at heq
      exact h.addresses a b ha hb heq hnamed
    · revert ha hb heq hnamed
      refine setEndpoint_cases ?_ (fun a hai => ?_) a <;>
        refine setEndpoint_cases ?_ (fun b hbi => ?_) b
      · exact fun _ _ _ _ => rfl
      · exact fun _ hb heq _ => absurd heq.symm (hnew b hbi hb)
      · exact fun ha _ heq _ => absurd heq (hnew a hai ha)
      · exact h.addresses a b
  · exact h.queues

theorem Preserves.setEndpoint (hlink : SameLink (r.endpoints i) e)
    (hwell : (r.setEndpoint i e).WellFormed) {gone : Option ℕ}
    (hwait : ∀ handle ∈ e.waiting, handle ∈ (r.endpoints i).waiting ∨ some handle = gone) :
    Preserves r (r.setEndpoint i e) gone 0 0 := by
  refine ⟨hwell, fun owner handle j hgone hheld => hheld.of_same (sameLink_setEndpoint hlink j) ?_,
    by rw [add_zero]; rfl⟩
  refine setEndpoint_cases ?_ fun l _ => hheld.not_waiting l
  intro hmem
  rcases hwait handle hmem with hold | hnew
  · exact hheld.not_waiting i hold
  · exact hgone hnew

/-- The tokens of the registry after one connection changed. -/
theorem tokens_setConnection {returned sent : Multiset TransferToken}
    (h : returned + c.tokens = (r.connections k).tokens + sent) :
    returned + (r.setConnection k c).tokens = r.tokens + sent := by
  have hupdate := total_update ConnectionSlot.tokens r.connections k c
  refine add_right_cancel (b := (r.connections k).tokens) ?_
  calc
    returned + total ConnectionSlot.tokens (update r.connections k c) + (r.connections k).tokens
      = returned + (r.tokens + c.tokens) := by rw [add_assoc, hupdate]; rfl
    _ = r.tokens + (returned + c.tokens) := by rw [add_left_comm]
    _ = r.tokens + sent + (r.connections k).tokens := by
        rw [h, add_assoc, add_comm sent]

/-- A connection changes, but not its ends. -/
theorem Preserves.setConnection (h : r.WellFormed) {returned sent : Multiset TransferToken}
    (hends : SameEnds (r.connections k) c) (hqs : c.QueuesWellFormed)
    (htoks : returned + c.tokens = (r.connections k).tokens + sent) :
    Preserves r (r.setConnection k c) none returned sent := by
  have hall (l : ConnectionIndex) :
      SameEnds (r.connections l) ((r.setConnection k c).connections l) :=
    setConnection_cases hends (fun _ _ => .refl _) l
  refine ⟨⟨?_, ?_, h.once, h.listening, h.pending, h.addresses, ?_⟩, ?_, tokens_setConnection htoks⟩
  · exact h.graph.of_same (fun _ => .refl _) hall
  · intro l handle hhd
    obtain ⟨i, l', hw⟩ := h.waiting l handle hhd
    exact ⟨i, l', hw.of_same (.refl _) (hall l')⟩
  · exact setConnection_cases hqs fun l _ => h.queues l
  · exact fun _ _ _ _ hheld => hheld.of_same (.refl _) hheld.not_waiting

end SocketRegistry

open SocketRegistry

variable {r : SocketRegistry}

/-! ### Naming -/

theorem bind_preserves (h : r.WellFormed) (owner : ProcessHandle) (handle : ℕ)
    (address : UnixAddress) : Preserves r (bind owner handle address r).2 none 0 0 := by
  simp only [bind]
  split
  · exact .refl h
  next hnamed =>
  split
  · exact .refl h
  next index endpoint hres =>
  obtain ⟨-, rfl, hocc, -⟩ := resolvedEndpoint_eq_ok.mp hres
  split
  · exact .refl h
  next hst =>
  rw [not_not] at hst
  split
  · exact .refl h
  next hunused =>
  have hlink : SameLink (r.endpoints index) { r.endpoints index with
      state := .bound, address
      readinessAdvances := (r.endpoints index).readinessAdvances + 1 } :=
    ⟨rfl, rfl, rfl, by simp [hst], rfl, rfl, rfl⟩
  refine .setEndpoint hlink (h.setEndpoint hlink (h.waiting index)
    (fun handle' => Nat.add_le_add_right (h.once handle') _) ?_
    (h.pending index) (.inr fun j hj hocc' heq => ?_)) fun _ => .inl
  · intro hlen
    simpa [hst] using (h.listening index hlen).2
  · have hoth := position_none.mp hunused j
    have heq' : (r.endpoints j).address = address := heq
    simp [hj, hocc', heq', hnamed] at hoth

theorem listen_preserves (h : r.WellFormed) (owner : ProcessHandle) (handle backlog : ℕ) :
    Preserves r (listen owner handle backlog r).2 none 0 0 := by
  simp only [listen]
  split
  · exact .refl h
  next index endpoint hres =>
  obtain ⟨-, rfl, hocc, -⟩ := resolvedEndpoint_eq_ok.mp hres
  split
  · exact .refl h
  next hst =>
  have hlink : SameLink (r.endpoints index) { r.endpoints index with
      state := .listening, backlog := max 1 (min backlog maximumListenBacklog)
      readinessAdvances := (r.endpoints index).readinessAdvances + 1 } := by
    refine ⟨rfl, rfl, rfl, ⟨nofun, fun hc => ?_⟩, rfl, rfl, rfl⟩
    rw [hc] at hst
    exact absurd ⟨EndpointState.noConfusion, EndpointState.noConfusion⟩ hst
  refine .setEndpoint hlink (h.setEndpoint hlink (h.waiting index)
    (fun handle' => Nat.add_le_add_right (h.once handle') _) (fun _ => ⟨hocc, rfl⟩)
    ⟨(h.pending index).1, ?_⟩ (.inl rfl)) fun _ => .inl
  exact max_le (by decide) (min_le_right _ _)

/-- The endpoint that is accepted does not wait any more. -/
theorem accept_preserves (h : r.WellFormed) (owner : ProcessHandle) (handle : ℕ) :
    Preserves r (accept owner handle r).2 none 0 0 ∧
      ∀ accepted peer, (accept owner handle r).1 = .ok (accepted, peer) →
        ∃ i, (accept owner handle r).2.Held owner accepted i := by
  simp only [accept]
  split
  · exact ⟨.refl h, nofun⟩
  next index listener hres =>
  obtain ⟨-, rfl, hocc, hown⟩ := resolvedEndpoint_eq_ok.mp hres
  split
  · exact ⟨.refl h, nofun⟩
  next hst =>
  rw [not_not] at hst
  split
  · exact ⟨.refl h, nofun⟩
  next hlen =>
  split
  · exact ⟨.refl h, nofun⟩
  have hwait := Ring.toList_pop (h.pending index).1 hlen 0
  change (r.endpoints index).waiting = _ at hwait
  have hpopped (handle' : ℕ) (hmem : handle' ∈ Ring.toList maximumListenBacklog
      ((r.endpoints index).pending.pop maximumListenBacklog 0)) :
      handle' ∈ (r.endpoints index).waiting := by
    rw [hwait]
    exact mem_cons_of_mem _ hmem
  have hlink : SameLink (r.endpoints index) { r.endpoints index with
      pending := (r.endpoints index).pending.pop maximumListenBacklog 0
      readinessAdvances := (r.endpoints index).readinessAdvances + 1 } :=
    ⟨rfl, rfl, rfl, Iff.rfl, rfl, rfl, rfl⟩
  have hpreserves : Preserves r (r.setEndpoint index { r.endpoints index with
      pending := (r.endpoints index).pending.pop maximumListenBacklog 0
      readinessAdvances := (r.endpoints index).readinessAdvances + 1 }) none 0 0 := by
    refine .setEndpoint hlink (h.setEndpoint hlink ?_ ?_ ?_ ?_ (.inl rfl)) ?_
    · exact fun handle' hmem => h.waiting index handle' (hpopped handle' hmem)
    · intro handle'
      refine Nat.add_le_add (h.once handle') ?_
      show count _ (Ring.toList _ _) ≤ count _ (r.endpoints index).waiting
      rw [hwait]
      exact count_le_count_cons
    · exact fun _ => ⟨hocc, hst⟩
    · exact ⟨(h.pending index).1.pop 0, (h.pending index).2⟩
    · exact fun handle' hmem => .inl (hpopped handle' hmem)
  refine ⟨hpreserves, fun accepted peer hok => ?_⟩
  cases hok
  have hfst : (r.endpoints index).pending.cells (r.endpoints index).pending.head ∈
      (r.endpoints index).waiting := by
    rw [hwait]
    exact mem_cons_self
  obtain ⟨i, k', hw⟩ := h.waiting index _ hfst
  rw [hown] at hw
  have hnd := h.waiting_nodup index
  rw [hwait, nodup_cons] at hnd
  exact ⟨i, hw.held (sameLink_setEndpoint hlink i)
    (setEndpoint_cases hnd.1 fun l => h.not_waiting_of_other hfst)⟩

end ArachKernel.LinuxSocket
