import ArachKernel.Linux.SocketGraph

/-!
Sending, receiving and shutting down keep the socket tables consistent, and no token
gets lost: what a receive or a shutdown takes out of a rights queue is in its answer,
and what a send does not put into one is given back.
-/

namespace ArachKernel.LinuxSocket

open SocketRegistry ConnectionSlot List Function

variable {r : SocketRegistry} {c : ConnectionSlot} {rights : RightsQueue}
  {q : ByteQueue} {side : Side}

theorem tokens_setQueues (side : Side) (q : ByteQueue) (rights : RightsQueue) :
    ((c.setOutgoing side q).setRights side rights).tokens =
      (rights.tokens : Multiset TransferToken) + (c.outgoingRights (1 - side)).tokens := by
  rw [tokens_eq _ side]
  simp [setRights, setOutgoing, other_ne]

/-- Only the bytes in one direction are replaced. -/
theorem ConnectionSlot.QueuesWellFormed.setOutgoing (h : c.QueuesWellFormed)
    (hopen : c.readOpen (1 - side)) (hq : q.ring.Bounded socketBufferBytes) :
    (c.setOutgoing side q).QueuesWellFormed := by
  have hset := h.setQueues hopen hq (h.rights side)
  have hsame : (c.setOutgoing side q).setRights side (c.outgoingRights side) =
      c.setOutgoing side q := by
    simp [setRights, ConnectionSlot.setOutgoing]
  rwa [hsame] at hset

/-- The queues in one direction are replaced, and some tokens go in or out. -/
theorem SocketRegistry.Preserves.setQueues (h : r.WellFormed) {k : ConnectionIndex}
    {returned sent : Multiset TransferToken} (hopen : (r.connections k).readOpen (1 - side))
    (hq : q.ring.Bounded socketBufferBytes) (hrts : rights.WellFormed)
    (htoks : returned + rights.tokens = ((r.connections k).outgoingRights side).tokens + sent) :
    Preserves r (r.setConnection k
      (((r.connections k).setOutgoing side q).setRights side rights).advanceGeneration) none
      returned sent := by
  refine .setConnection h ⟨rfl, rfl, rfl, rfl, rfl⟩
    ((h.queues k).setQueues hopen hq hrts).advanceGeneration ?_
  have hsame :
      (((r.connections k).setOutgoing side q).setRights side rights).advanceGeneration.tokens
      = (((r.connections k).setOutgoing side q).setRights side rights).tokens := rfl
  rw [hsame, tokens_setQueues, tokens_eq _ side, ← add_assoc, htoks]
  exact add_right_comm _ _ _

/-! ### Receiving -/

/-- A receive delivers rights only if there is a first record that fits. -/
theorem receivePlan_deliver {queue : ByteQueue} {size : ℕ} {flags : Flags}
    {room copied : ℕ} (h : receivePlan queue rights size flags room = .ok (copied, true)) :
    ∃ first rest, rights.records = first :: rest ∧ first.tokens.length ≤ room := by
  simp only [receivePlan] at h
  split at h
  · cases h
  next first hfst =>
  rw [RightsQueue.record_eq] at hfst
  obtain ⟨rest, hrecs⟩ : ∃ rest, rights.records = first :: rest := by
    cases hrecs : rights.records with
    | nil =>
      simp [hrecs] at hfst
    | cons record rest =>
      rw [hrecs, getElem?_cons_zero, Option.some.injEq] at hfst
      exact ⟨rest, by rw [hfst]⟩
  refine ⟨first, rest, hrecs, ?_⟩
  split at h
  · cases h
  split at h
  · cases h
  split at h
  · cases h
  split at h
  · cases h
  · split at h
    · split at h
      · cases h
      · next hroom => exact not_lt.mp hroom
    · cases h

/-- The tokens that the answer of a receive hands out. -/
def receivedTokens : Except SocketError (List UInt8 × List TransferToken) → List TransferToken
  | .ok answer => answer.2
  | .error _ => []

theorem receiveMessage_preserves (h : r.WellFormed) (owner : ProcessHandle) (handle size : ℕ)
    (flags : Flags) (room : ℕ) :
    Preserves r (receiveMessage owner handle size flags room r).2 none
      (receivedTokens (receiveMessage owner handle size flags room r).1) 0 := by
  simp only [receiveMessage]
  split
  · exact .refl h
  split
  · exact .refl h
  next k side hres =>
  split
  · exact .refl h
  next hopen =>
  rw [Bool.not_eq_true', Bool.not_eq_false] at hopen
  have hopen' : (r.connections k).readOpen (1 - (1 - side)) := by
    rw [other_other]
    exact hopen
  split
  · exact .refl h
  split
  · split <;> exact .refl h
  split
  · exact .refl h
  next copied deliverRights hplan =>
  split
  · exact .refl h
  have hbytes := ((h.queues k).bytes (1 - side)).popMany copied
  have hrts := (h.queues k).rights (1 - side)
  split
  · -- the counter of the stream is exhausted: the bytes are lost
    exact .setConnection h ⟨rfl, rfl, rfl, rfl, rfl⟩
      ((h.queues k).setOutgoing hopen' hbytes) (add_comm _ _)
  cases deliverRights with
  | false => exact .setQueues h hopen' hbytes hrts (add_comm _ _)
  | true =>
    obtain ⟨first, rest, hrecs, hroom⟩ := receivePlan_deliver hplan
    obtain ⟨hfst, hrest, hpop⟩ :=
      RightsQueue.pop_of_records hrts hrecs hroom
    refine .setQueues h hopen' hbytes hpop ?_
    have htoks : ((r.connections k).outgoingRights (1 - side)).tokens =
        first.tokens ++ (RightsQueue.pop room
          ((r.connections k).outgoingRights (1 - side))).2.tokens := by
      rw [RightsQueue.tokens, hrecs, flatMap_cons, RightsQueue.tokens, hrest]
    rw [add_zero, htoks, ← hfst]
    rfl

/-! ### Sending -/

theorem sendMessage_preserves (h : r.WellFormed) (owner : ProcessHandle) (handle : ℕ)
    (input : List UInt8) (flags : Flags) (tokens : List TransferToken) :
    Preserves r (sendMessage owner handle input flags tokens r).2 none
      (sendMessage owner handle input flags tokens r).1.2 tokens := by
  have hunch : Preserves r r none (tokens : Multiset TransferToken) tokens :=
    ⟨h, fun _ _ _ _ hheld => hheld, add_comm _ _⟩
  simp only [sendMessage]
  split
  · exact hunch
  split
  · exact hunch
  next k side hres =>
  split
  · exact hunch
  next hopen =>
  simp only [Bool.or_eq_true, Bool.not_eq_true', not_or, Bool.not_eq_false] at hopen
  split
  · exact hunch
  split
  · exact hunch
  split
  · exact hunch
  have hbytes := ((h.queues k).bytes side).pushAll
    (input.take (min input.length (socketBufferBytes -
      ((r.connections k).outgoing side).ring.length))) (by
    rw [List.length_take]
    omega)
  split
  · exact hunch
  next hpushed =>
  split at hpushed
  next hemp =>
    cases hpushed
    rw [List.isEmpty_iff] at hemp
    subst hemp
    exact .setQueues h hopen.2 hbytes ((h.queues k).rights side) (add_comm _ _)
  · obtain ⟨hrecs, hrts⟩ :=
      RightsQueue.push_eq_ok ((h.queues k).rights side) hpushed
    refine .setQueues h hopen.2 hbytes hrts ?_
    rw [RightsQueue.tokens, hrecs, List.flatMap_append, List.flatMap_singleton]
    exact zero_add _

/-! ### Shutting down -/

/-- The tokens that an answer hands out. -/
def returnedTokens : Except SocketError (List TransferToken) → List TransferToken
  | .ok returned => returned
  | .error _ => []

theorem ConnectionSlot.QueuesWellFormed.discardIncoming (h : c.QueuesWellFormed) (side : Side)
    {room : ℕ} (hroom : directionRoom ≤ room) :
    (discardIncoming c side room).2.QueuesWellFormed := by
  refine ⟨(discardIncoming_spec h.toQueuesBounded side hroom).2.2, fun side' hclosed => ?_⟩
  show update c.readOpen side false side' = false
  rcases sides side side' with rfl | rfl
  · exact update_self ..
  · rw [update_of_ne (other_ne side)]
    exact h.shut _ hclosed

theorem shutdown_preserves (h : r.WellFormed) (owner : ProcessHandle) (handle how : ℕ) :
    Preserves r (shutdown owner handle how r).2 none
      (returnedTokens (shutdown owner handle how r).1) 0 := by
  simp only [shutdown]
  split
  · exact .refl h
  split
  · exact .refl h
  next k side hres =>
  have hroom : directionRoom ≤ maximumRightsRecords * maximumTransferDescriptors := le_rfl
  have hsides : ∃ discarded : List TransferToken × ConnectionSlot,
      (if how = shutRd ∨ how = shutRdwr then
        discardIncoming (r.connections k) side (maximumRightsRecords * maximumTransferDescriptors)
        else ([], r.connections k)) = discarded ∧
      SameEnds (r.connections k) discarded.2 ∧ discarded.2.QueuesWellFormed ∧
      (discarded.1 : Multiset TransferToken) + discarded.2.tokens =
        (r.connections k).tokens + 0 := by
    refine ⟨_, rfl, ?_⟩
    split
    · refine ⟨⟨rfl, rfl, rfl, rfl, rfl⟩, (h.queues k).discardIncoming side hroom, ?_⟩
      rw [add_zero]
      exact (discardIncoming_spec (h.queues k).toQueuesBounded side hroom).1
    · exact ⟨.refl _, h.queues k, add_comm _ _⟩
  obtain ⟨discarded, heq, hends, hqs, htoks⟩ := hsides
  rw [heq]
  -- whether the side stops to send does not matter to the queues
  split
  · exact .setConnection h
      ⟨hends.occupied, hends.generation, hends.handles, hends.owners, hends.endpointOpen⟩
      ⟨⟨hqs.bytes, hqs.rights, hqs.unread⟩, hqs.shut⟩ htoks
  · exact .setConnection h
      ⟨hends.occupied, hends.generation, hends.handles, hends.owners, hends.endpointOpen⟩
      hqs.advanceGeneration htoks

end ArachKernel.LinuxSocket
