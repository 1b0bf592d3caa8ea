import ArachKernel.Linux.Socket
import Mathlib.Algebra.Order.BigOperators.Group.List
import Mathlib.Data.Multiset.AddSub

/-!
The queues of a connection. A side that does not receive any more has nothing on its
way; a rights record carries at least one and at most eight tokens. What leaves a
rights queue is handed out completely, because the buffers of the callers are large
enough for all that a connection can hold.
-/

namespace ArachKernel.LinuxSocket

/-! ### Rights queues -/

namespace RightsQueue

/-- The records of a queue, oldest first. -/
def records (q : RightsQueue) : List RightsRecord := q.toList maximumRightsRecords

/-- The tokens of all records. -/
def tokens (q : RightsQueue) : List TransferToken := q.records.flatMap RightsRecord.tokens

end RightsQueue

structure RightsRecord.WellFormed (record : RightsRecord) : Prop where
  ne_nil : record.tokens ≠ []
  length_le : record.tokens.length ≤ maximumTransferDescriptors
  nonempty : ∀ token ∈ record.tokens, token.isEmpty = false

namespace RightsQueue

structure WellFormed (q : RightsQueue) : Prop where
  bounded : q.Bounded maximumRightsRecords
  record : ∀ record ∈ q.records, record.WellFormed

variable {q q' : RightsQueue}

theorem wellFormed_empty : WellFormed empty where
  bounded := Ring.bounded_empty (by decide) _
  record _ h := absurd h List.not_mem_nil

@[simp] theorem tokens_empty : tokens empty = [] := rfl

theorem length_records : q.records.length = q.length := Ring.length_toList q

theorem records_of_length (h : q.length = 0) : q.records = [] := by
  rw [← List.length_eq_zero_iff, length_records, h]

theorem tokens_of_length (h : q.length = 0) : q.tokens = [] := by
  rw [tokens, records_of_length h, List.flatMap_nil]

/-- A queue holds at most as many tokens as fit in a buffer of the callers. -/
theorem WellFormed.tokens_length_le (h : WellFormed q) :
    q.tokens.length ≤ maximumRightsRecords * maximumTransferDescriptors := by
  have hsum := List.sum_le_card_nsmul (q.records.map fun record => record.tokens.length)
    maximumTransferDescriptors (by
      intro length hlen
      obtain ⟨record, hrec, rfl⟩ := List.mem_map.mp hlen
      exact (h.record record hrec).length_le)
  rw [List.length_map, length_records] at hsum
  rw [tokens, List.length_flatMap]
  exact hsum.trans (Nat.mul_le_mul_right _ h.bounded.length_le)

theorem record_eq (q : RightsQueue) (offset : ℕ) : q.record offset = q.records[offset]? := by
  rw [record]
  split
  · next h => rw [List.getElem?_eq_none (by rw [length_records]; exact h)]
  · next => rw [records, Ring.getElem?_toList (by omega)]

theorem push_eq_ok {sequence : ℕ} {sent : List TransferToken} (hq : WellFormed q)
    (h : push sequence sent q = .ok q') :
    q'.records = q.records ++ [{ sequence, tokens := sent }] ∧ WellFormed q' := by
  rw [push] at h
  split at h
  · cases h
  next hval =>
  cases h
  simp only [not_or, List.isEmpty_iff, not_lt, not_le, Bool.not_eq_true, List.any_eq_false] at hval
  obtain ⟨hne, hlen, hroom, htoks⟩ := hval
  have hrecs : records (Ring.push maximumRightsRecords { sequence, tokens := sent } q) =
      q.records ++ [{ sequence, tokens := sent }] := Ring.toList_push _ hroom
  refine ⟨hrecs, hq.bounded.push _ hroom, ?_⟩
  intro record hrec
  rw [hrecs, List.mem_append, List.mem_singleton] at hrec
  rcases hrec with hrec | rfl
  · exact hq.record record hrec
  · exact ⟨hne, hlen, fun token htok => by simpa using htoks token htok⟩

variable {room : ℕ}

/-- A pop with room for the first record hands it out. -/
theorem pop_of_records (hq : WellFormed q) {record : RightsRecord} {rest : List RightsRecord}
    (hrecs : q.records = record :: rest) (hroom : record.tokens.length ≤ room) :
    (pop room q).1 = record.tokens ∧ (pop room q).2.records = rest ∧ WellFormed (pop room q).2 := by
  have hlen : q.length ≠ 0 := by
    rw [← length_records, hrecs]
    exact Nat.succ_ne_zero _
  have hpop := Ring.toList_pop hq.bounded hlen RightsRecord.empty
  rw [records] at hrecs
  rw [hrecs, List.cons.injEq] at hpop
  obtain ⟨hfst, hrest⟩ := hpop
  rw [pop, if_neg hlen]
  refine ⟨?_, hrest.symm, hq.bounded.pop _, ?_⟩
  · rw [← hfst]
    exact List.take_of_length_le hroom
  · intro record' hrec'
    refine hq.record record' ?_
    rw [records, hrecs, hrest]
    exact List.mem_cons_of_mem _ hrec'

theorem drainLoop_eq (count : ℕ) (hq : WellFormed q) (hcnt : q.length = count)
    (hroom : q.tokens.length ≤ room) :
    (drainLoop count room q).1 = q.tokens ∧ (drainLoop count room q).2.records = [] ∧
      WellFormed (drainLoop count room q).2 := by
  induction count generalizing q room with
  | zero =>
    rw [tokens_of_length hcnt]
    exact ⟨rfl, records_of_length hcnt, hq⟩
  | succ count ih =>
    obtain ⟨record, rest, hrecs⟩ := List.exists_cons_of_length_pos (l := q.records) (by
      rw [length_records, hcnt]
      exact Nat.succ_pos _)
    have htoks : q.tokens = record.tokens ++ rest.flatMap RightsRecord.tokens := by
      rw [tokens, hrecs, List.flatMap_cons]
    rw [htoks, List.length_append] at hroom
    obtain ⟨hfst, hrest, hpop⟩ := pop_of_records hq hrecs
      (show record.tokens.length ≤ room by omega)
    have hlen : (pop room q).2.length = count := by
      have hsucc := congrArg List.length hrecs
      rw [List.length_cons, ← hrest, length_records, length_records, hcnt] at hsucc
      omega
    have hrest' : (pop room q).2.tokens = rest.flatMap RightsRecord.tokens := by
      rw [tokens, hrest]
    have hroom' : (pop room q).2.tokens.length ≤ room - (pop room q).1.length := by
      rw [hrest', hfst]
      omega
    obtain ⟨hdrain, hemp, hwell⟩ := ih hpop hlen hroom'
    rw [drainLoop]
    refine ⟨?_, hemp, hwell⟩
    rw [hdrain, hfst, hrest', htoks]

/-- Draining into a large enough buffer hands out all tokens. -/
theorem drain_eq (hq : WellFormed q) (hroom : q.tokens.length ≤ room) :
    (drain room q).1 = q.tokens ∧ (drain room q).2.length = 0 ∧ WellFormed (drain room q).2 := by
  obtain ⟨hdrain, hemp, hwell⟩ := drainLoop_eq q.length hq rfl hroom
  have hlen : (drain room q).2.length = 0 := by
    rw [← List.length_eq_zero_iff, length_records] at hemp
    exact hemp
  refine ⟨hdrain, hlen, ⟨Nat.succ_pos _, hwell.bounded.length_le⟩, ?_⟩
  rw [records_of_length hlen]
  exact nofun

end RightsQueue

/-! ### Connections -/

namespace ConnectionSlot

local instance neZeroSides : NeZero 2 := ⟨by decide⟩

/-- The tokens on their way in both directions. -/
def tokens (c : ConnectionSlot) : Multiset TransferToken :=
  ((c.outgoingRights 0).tokens : Multiset TransferToken) + (c.outgoingRights 1).tokens

/-- The queues are well formed, and empty towards a side that does not receive. -/
structure QueuesBounded (c : ConnectionSlot) : Prop where
  bytes : ∀ side, (c.outgoing side).ring.Bounded socketBufferBytes
  rights : ∀ side, (c.outgoingRights side).WellFormed
  unread : ∀ side, c.readOpen side = false →
    (c.outgoing (1 - side)).ring.length = 0 ∧ (c.outgoingRights (1 - side)).length = 0

/-- What holds of the queues of every connection slot. -/
structure QueuesWellFormed (c : ConnectionSlot) : Prop extends QueuesBounded c where
  shut : ∀ side, c.endpointOpen side = false → c.readOpen side = false

variable {c : ConnectionSlot}

theorem sides (side side' : Side) : side' = side ∨ side' = 1 - side := by
  revert side side'
  decide

theorem other_ne (side : Side) : 1 - side ≠ side := by
  revert side
  decide

theorem other_other (side : Side) : 1 - (1 - side) = side := by
  revert side
  decide

theorem tokens_eq (c : ConnectionSlot) (side : Side) :
    c.tokens = ((c.outgoingRights side).tokens : Multiset TransferToken) +
      (c.outgoingRights (1 - side)).tokens := by
  rcases sides 0 side with rfl | rfl
  · rfl
  · exact add_comm _ _

theorem queuesWellFormed_vacant (generation : ℕ) : (vacant generation).QueuesWellFormed where
  bytes _ := Ring.bounded_empty (by decide) _
  rights _ := RightsQueue.wellFormed_empty
  unread _ _ := ⟨rfl, rfl⟩
  shut _ _ := rfl

theorem queuesWellFormed_initialized (generation : ℕ) (handles : Side → ℕ)
    (owners : Side → ProcessHandle) (addresses : Side → UnixAddress) :
    (initialized generation handles owners addresses).QueuesWellFormed where
  bytes _ := Ring.bounded_empty (by decide) _
  rights _ := RightsQueue.wellFormed_empty
  unread _ h := by cases h
  shut _ h := by cases h

/-- The queues in one direction are replaced; nobody has stopped to receive them. -/
theorem QueuesWellFormed.setQueues (h : c.QueuesWellFormed) {side : Side} {q : ByteQueue}
    {rights : RightsQueue} (hopen : c.readOpen (1 - side))
    (hq : q.ring.Bounded socketBufferBytes) (hrts : rights.WellFormed) :
    ((c.setOutgoing side q).setRights side rights).QueuesWellFormed := by
  refine ⟨⟨?_, ?_, ?_⟩, h.shut⟩
  · intro side'
    rcases sides side side' with rfl | rfl
    · simpa [setOutgoing, setRights] using hq
    · simpa [setOutgoing, setRights, other_ne] using h.bytes (1 - side)
  · intro side'
    rcases sides side side' with rfl | rfl
    · simpa [setRights] using hrts
    · simpa [setOutgoing, setRights, other_ne] using h.rights (1 - side)
  · intro side' hclosed
    have hclosed' : c.readOpen side' = false := hclosed
    rcases sides side side' with rfl | rfl
    · simpa [setOutgoing, setRights, other_ne] using h.unread side' hclosed'
    · simp [hopen] at hclosed'

theorem QueuesWellFormed.advanceGeneration (h : c.QueuesWellFormed) :
    c.advanceGeneration.QueuesWellFormed :=
  ⟨⟨h.bytes, h.rights, h.unread⟩, h.shut⟩

end ConnectionSlot

/-- The room that one direction needs. -/
abbrev directionRoom : ℕ := maximumRightsRecords * maximumTransferDescriptors

open ConnectionSlot Function RightsQueue List

variable {c : ConnectionSlot} {room : ℕ}

/-- A side stops to receive: what was on its way to it is handed out. -/
theorem discardIncoming_spec (h : c.QueuesBounded) (side : Side) (hroom : directionRoom ≤ room) :
    ((discardIncoming c side room).1 : Multiset TransferToken) +
        (discardIncoming c side room).2.tokens = c.tokens ∧
      (discardIncoming c side room).1.length ≤ directionRoom ∧
      (discardIncoming c side room).2.QueuesBounded := by
  have hle := (h.rights (1 - side)).tokens_length_le
  obtain ⟨hdrain, hlen, hwell⟩ := drain_eq (h.rights (1 - side)) (hle.trans hroom)
  have hsame : ((discardIncoming c side room).2.outgoingRights side) = c.outgoingRights side := by
    simp [discardIncoming, setRights, setOutgoing, (other_ne side).symm]
  have hoth : ((discardIncoming c side room).2.outgoingRights (1 - side)) =
      ((c.outgoingRights (1 - side)).drain room).2 := by
    simp [discardIncoming, setRights]
  refine ⟨?_, ?_, ?_, ?_, ?_⟩
  · rw [tokens_eq _ side, tokens_eq c side, hsame, hoth,
      tokens_of_length hlen, discardIncoming, hdrain]
    rw [Multiset.coe_nil, add_zero, add_comm]
  · rw [discardIncoming, hdrain]
    exact hle
  · intro side'
    rcases sides side side' with rfl | rfl
    · simpa [discardIncoming, setRights, setOutgoing, (other_ne side').symm] using h.bytes side'
    · simpa [discardIncoming, setRights, setOutgoing, ByteQueue.clear] using
        Ring.bounded_empty (n := socketBufferBytes) (by decide) (0 : UInt8)
  · intro side'
    rcases sides side side' with rfl | rfl
    · rw [hsame]
      exact h.rights side'
    · rw [hoth]
      exact hwell
  · intro side' hclosed
    rcases sides side side' with rfl | rfl
    · rw [hoth]
      refine ⟨?_, hlen⟩
      simp [discardIncoming, setRights, setOutgoing, ByteQueue.clear, Ring.empty]
    have hclosed' : c.readOpen (1 - side) = false := by
      simpa [discardIncoming, setRights, setOutgoing, other_ne] using hclosed
    have hunread := h.unread _ hclosed'
    rw [other_other] at hunread ⊢
    rw [hsame]
    refine ⟨?_, hunread.2⟩
    simpa [discardIncoming, setRights, setOutgoing, (other_ne side).symm] using hunread.1

/-- The endpoint of a side goes away. -/
theorem closeSide_spec (h : c.QueuesWellFormed) (side : Side) (hroom : directionRoom ≤ room) :
    ((closeSide c side room).1 : Multiset TransferToken) + (closeSide c side room).2.tokens =
        c.tokens ∧
      (closeSide c side room).1.length ≤ directionRoom ∧
      (closeSide c side room).2.QueuesWellFormed := by
  have hbd : { c with
      endpointOpen := update c.endpointOpen side false
      writeOpen := update c.writeOpen side false }.QueuesBounded :=
    ⟨h.bytes, h.rights, h.unread⟩
  obtain ⟨htoks, hlen, hqs⟩ := discardIncoming_spec hbd side hroom
  simp only [closeSide]
  generalize hdiscarded : discardIncoming { c with
      endpointOpen := update c.endpointOpen side false
      writeOpen := update c.writeOpen side false } side room = discarded at *
  have hendpoints : discarded.2.endpointOpen = update c.endpointOpen side false := by
    rw [← hdiscarded]
    rfl
  have hreads : discarded.2.readOpen = update c.readOpen side false := by
    rw [← hdiscarded]
    rfl
  have hshut : discarded.2.QueuesWellFormed := by
    refine ⟨hqs, fun side' hclosed => ?_⟩
    rw [hreads]
    rw [hendpoints] at hclosed
    rcases sides side side' with rfl | rfl
    · exact update_self ..
    · rw [update_of_ne (other_ne side)] at hclosed ⊢
      exact h.shut _ hclosed
  split
  next hboth =>
    -- both sides are closed, so that nothing is on its way in either direction
    rw [Bool.and_eq_true, Bool.not_eq_true', Bool.not_eq_true'] at hboth
    have hemp (side' : Side) : (discarded.2.outgoingRights side').length = 0 := by
      have hclosed : discarded.2.endpointOpen (1 - side') = false := by
        rcases sides 0 (1 - side') with heq | heq
        · rw [heq]
          exact hboth.1
        · rw [heq]
          exact hboth.2
      have hunread := (hshut.unread _ (hshut.shut _ hclosed)).2
      rwa [other_other] at hunread
    have hnone : discarded.2.tokens = 0 := by
      rw [ConnectionSlot.tokens, tokens_of_length (hemp 0), tokens_of_length (hemp 1)]
      rfl
    have hretired (room' : ℕ) : (retireConnection discarded.2.advanceGeneration room').1 = [] := by
      have hdrain (side' : Side) (room' : ℕ) :
          ((discarded.2.outgoingRights side').drain room').1 = [] := by
        rw [(drain_eq (hshut.rights side') (by
          rw [tokens_of_length (hemp side')]
          exact Nat.zero_le _)).1, tokens_of_length (hemp side')]
      simp [retireConnection, ConnectionSlot.advanceGeneration, hdrain, append_nil]
    rw [hretired, append_nil]
    refine ⟨?_, hlen, queuesWellFormed_vacant _⟩
    rw [hnone] at htoks
    exact htoks
  · exact ⟨htoks, hlen, hshut.advanceGeneration⟩

end ArachKernel.LinuxSocket
