import ArachKernel.Aether.NexusWire
import ArachKernel.Lib.Ring

/-!
The chain of commit witnesses: a ring of the last `n` records, each with the digest of the
one before it and its own, under the root of the newest.
-/

namespace ArachKernel.Aether

open Function List
open Process (Word)

inductive CommitOutcome
  | committed | aborted | rolledBack
  deriving DecidableEq

def CommitOutcome.code : CommitOutcome → Word
  | committed => 1
  | aborted => 2
  | rolledBack => 3

structure CommitWitness where
  epoch : Word
  effectDigest : Word
  beforeRoot : Word
  afterRoot : Word
  wallTick : Word
  generationBefore : BitVec 32
  generationAfter : BitVec 32
  participants : BitVec 16
  effectCount : BitVec 16
  outcome : CommitOutcome

def CommitWitness.empty : CommitWitness := ⟨0, 0, 0, 0, 0, 0, 0, 0, 0, .aborted⟩

/-- The words under the digest. -/
def CommitWitness.words (witness : CommitWitness) : List Word :=
  [witness.epoch, witness.effectDigest, witness.beforeRoot, witness.afterRoot, witness.wallTick,
    witness.generationBefore.setWidth 64 ||| witness.generationAfter.setWidth 64 <<< 32,
    witness.participants.setWidth 64 ||| witness.effectCount.setWidth 64 <<< 16 |||
      witness.outcome.code <<< 32]

def mixRound : Round 64 where
  addend := 0x517cc1b727220a95
  rotation := 31
  multiplier := 0x9e3779b185ebca87
  shift := 28
  inverse := 0x887493432badb37
  multiplier_mul_inverse := by decide
  shift_pos := by decide

def mix : Word → Word → Word := mixRound.mix

def witnessDigest (state : Word) (witness : CommitWitness) : Word := witness.words.foldl mix state

structure WitnessRecord where
  active : Bool
  previousChain : Word
  chain : Word
  witness : CommitWitness

/-- The places that are read and written are below `n`. -/
structure WitnessChain (n : ℕ) where
  records : ℕ → WitnessRecord
  cursor : ℕ
  length : ℕ
  chainRoot : Word

namespace WitnessChain

variable {n : ℕ}

def new (seed : Word) : WitnessChain n where
  records := fun _ => ⟨false, 0, 0, .empty⟩
  cursor := 0
  length := 0
  chainRoot := seed

def append (c : WitnessChain n) (witness : CommitWitness) : Option Word × WitnessChain n :=
  if n = 0 then (none, c)
  else
    let previousChain := c.chainRoot
    let chain := witnessDigest previousChain witness
    (some chain,
      { records := update c.records c.cursor { active := true, previousChain, chain, witness }
        cursor := (c.cursor + 1) % n
        length := min (c.length + 1) n
        chainRoot := chain })

/-- One turn of the loop of `verify`. -/
def link (expectedPrevious : Word) (record : WitnessRecord) : Option Word :=
  if !record.active || record.previousChain != expectedPrevious then none
  else if record.chain ≠ witnessDigest record.previousChain record.witness then none
  else some record.chain

def start (c : WitnessChain n) : ℕ := (c.cursor + n - c.length) % n

def verify (c : WitnessChain n) : Bool :=
  if c.length = 0 then true
  else if !(c.records c.start).active then false
  else
    (range c.length).foldlM (fun expectedPrevious offset =>
      link expectedPrevious (c.records ((c.start + offset) % n)))
      (c.records c.start).previousChain == some c.chainRoot

/-- The chain after the appends. -/
def appendAll (seed : Word) (witnesses : List CommitWitness) : WitnessChain n :=
  witnesses.foldl (fun c witness => (c.append witness).2) (new seed)

/-- The record of a retained witness, counted from the oldest. -/
def retained (c : WitnessChain n) (offset : ℕ) : WitnessRecord :=
  c.records ((c.start + offset) % n)

/-- The chain with one retained witness replaced. -/
def alter (c : WitnessChain n) (offset : ℕ) (witness : CommitWitness) : WitnessChain n :=
  { c with
    records := update c.records ((c.start + offset) % n) { c.retained offset with witness } }

def ring (c : WitnessChain n) : Ring WitnessRecord := ⟨c.start, c.length, c.records⟩

/-- The retained records lead from some digest to the root. -/
structure Linked (c : WitnessChain n) : Prop where
  length_le : c.length ≤ n
  cursor_lt : 0 < n → c.cursor < n
  linked : ∃ base, (c.ring.toList n).foldlM link base = some c.chainRoot

variable {c : WitnessChain n}

theorem link_eq_some {expected chain : Word} {record : WitnessRecord} :
    link expected record = some chain ↔ (record.active ∧ record.previousChain = expected) ∧
      record.chain = witnessDigest record.previousChain record.witness ∧ record.chain = chain := by
  simp [link]

/-- An append drops the oldest record of a full ring and stores the new one. -/
theorem ring_append (h : Linked c) (hn : 0 < n) (witness : CommitWitness) :
    (c.append witness).2.ring =
      Ring.push n ⟨true, c.chainRoot, witnessDigest c.chainRoot witness, witness⟩
        (Ring.popMany n (c.length + 1 - n) c.ring).2 := by
  have hle := h.length_le
  have hcurs := h.cursor_lt hn
  have hstart : c.start = (c.cursor + (n - c.length)) % n := by rw [start, Nat.add_sub_assoc hle]
  have hstart' : ((c.cursor + 1) % n + n - min (c.length + 1) n) % n =
      (c.start + (c.length + 1 - n)) % n := by
    rw [Nat.add_sub_assoc (min_le_right _ _), hstart, Nat.mod_add_mod, Nat.mod_add_mod]
    congr 1
    omega
  have htail : (c.start + (c.length + 1 - n) + (c.length - (c.length + 1 - n))) % n = c.cursor := by
    rw [hstart, Nat.add_assoc, Nat.mod_add_mod,
      show c.cursor + (n - c.length) + (c.length + 1 - n + (c.length - (c.length + 1 - n))) =
        c.cursor + n by omega, Nat.add_mod_right, Nat.mod_eq_of_lt hcurs]
  have hhead : (Ring.popMany n (c.length + 1 - n) c.ring).2.head =
      (c.start + (c.length + 1 - n)) % n := Ring.advance_head _ (Nat.mod_lt _ hn)
  have hcells : (Ring.popMany n (c.length + 1 - n) c.ring).2.cells = c.records :=
    Ring.advance_cells _ _
  have hlen : min (c.length + 1) n = c.length - (c.length + 1 - n) + 1 := by omega
  rw [Ring.push, hhead, hcells, Ring.popMany_length, Nat.mod_add_mod, Ring.mk.injEq]
  simp only [append, hn.ne', if_false, ring, htail, and_true]
  exact ⟨hstart', hlen⟩

theorem Linked.append (h : Linked c) (witness : CommitWitness) : Linked (c.append witness).2 := by
  rcases Nat.eq_zero_or_pos n with hn | hn
  · simpa [WitnessChain.append, hn] using h
  obtain ⟨base, hlink⟩ := h.linked
  rw [← take_append_drop (c.length + 1 - n) (c.ring.toList n), foldlM_append,
    Option.bind_eq_bind, Option.bind_eq_some_iff] at hlink
  obtain ⟨base', -, hdrop⟩ := hlink
  refine ⟨?_, fun _ => ?_, base', ?_⟩
  · simp [WitnessChain.append, hn.ne']
  · simpa [WitnessChain.append, hn.ne'] using Nat.mod_lt _ hn
  · have hroot : (c.append witness).2.chainRoot = witnessDigest c.chainRoot witness := by
      simp [WitnessChain.append, hn.ne']
    rw [ring_append h hn, Ring.toList_push _ (by simp [ring]; omega),
      Ring.popMany_toList (Nat.mod_lt _ hn) (by simp [ring]; omega), foldlM_append, hdrop, hroot]
    simp [link]

theorem linked_appendAll (seed : Word) (witnesses : List CommitWitness) :
    Linked (appendAll seed witnesses : WitnessChain n) := by
  have hfold (c : WitnessChain n) (h : Linked c) :
      Linked (witnesses.foldl (fun c witness => (c.append witness).2) c) := by
    induction witnesses generalizing c with
    | nil => exact h
    | cons witness witnesses ih => exact ih _ (h.append witness)
  exact hfold _ ⟨Nat.zero_le n, id, seed, rfl⟩

/-- The first turn of the loop fixes the digest that it starts from. -/
theorem verify_iff : c.verify ↔ ∃ base, (c.ring.toList n).foldlM link base = some c.chainRoot := by
  rw [verify]
  rcases hlen : c.length with _ | k
  · simp [ring, Ring.toList, hlen]
  have hfst {base root : Word} (h : (c.ring.toList n).foldlM link base = some root) :
      (c.records c.start).active ∧ (c.records c.start).previousChain = base := by
    simp only [ring, Ring.toList, hlen, range_succ_eq_map, map_cons, foldlM_cons,
      Option.bind_eq_bind, Option.bind_eq_some_iff, Nat.add_zero] at h
    obtain ⟨chain, hlink, -⟩ := h
    rw [start, Nat.mod_mod, link_eq_some] at hlink
    exact hlink.1
  have hloop (base : Word) : (range (k + 1)).foldlM (fun expectedPrevious offset =>
      link expectedPrevious (c.records ((c.start + offset) % n))) base =
        (c.ring.toList n).foldlM link base := by
    rw [Ring.toList, foldlM_map, ring, hlen]
  rw [hloop, if_neg (Nat.succ_ne_zero k)]
  constructor
  · intro h
    split at h
    · cases h
    · exact ⟨_, beq_iff_eq.mp h⟩
  · rintro ⟨base, h⟩
    obtain ⟨hact, rfl⟩ := hfst h
    simp [hact, h]

/-- Every record of a chain that verifies has the digest of its witness. -/
theorem chain_of_verify (h : c.verify) {offset : ℕ} (hoff : offset < c.length) :
    (c.retained offset).chain =
      witnessDigest (c.retained offset).previousChain (c.retained offset).witness := by
  obtain ⟨base, hlinked⟩ := verify_iff.mp h
  have hmem : c.retained offset ∈ c.ring.toList n := mem_map.mpr ⟨offset, mem_range.mpr hoff, rfl⟩
  obtain ⟨before, after, heq⟩ := append_of_mem hmem
  simp only [heq, foldlM_append, foldlM_cons, Option.bind_eq_bind, Option.bind_eq_some_iff]
    at hlinked
  obtain ⟨_, -, _, hlink, -⟩ := hlinked
  exact (link_eq_some.mp hlink).2.1

theorem verify_alter (h : c.verify) {offset : ℕ} (hoff : offset < c.length)
    {witness : CommitWitness} (hdiff : DifferOnce (c.retained offset).witness.words witness.words) :
    (c.alter offset witness).verify = false := by
  refine Bool.eq_false_iff.mpr fun hverify => ?_
  have haltered := chain_of_verify (c := c.alter offset witness) hverify hoff
  have hretained : (c.alter offset witness).retained offset = { c.retained offset with witness } :=
    update_self ..
  rw [hretained] at haltered
  exact Round.foldl_mix_ne hdiff ((chain_of_verify h hoff).symm.trans haltered)

end WitnessChain

/-- A change of one word of a frame makes its validation fail, that of a reply against the
sequence it was expected under. A chain of appended witnesses verifies, and no longer does
after a change of one word that the digest of a retained witness covers. -/
theorem single_word_corruption_detected :
    (∀ (command command' : NexusCommand) (opcode opcode' : NexusOpcode),
      command.validate = .ok opcode → DifferOnce command.words command'.words →
      command'.validate ≠ .ok opcode') ∧
    (∀ (reply reply' : NexusReply) (expectedSequence : Word) (status status' : NexusStatus),
      reply.validate expectedSequence = .ok status → DifferOnce reply.words reply'.words →
      reply'.validate expectedSequence ≠ .ok status') ∧
    (∀ telemetry telemetry' : NexusTelemetry, telemetry.validate = .ok () →
      DifferOnce telemetry.words telemetry'.words → telemetry'.validate ≠ .ok ()) ∧
    ∀ (n : ℕ) (seed : Word) (witnesses : List CommitWitness),
      let c : WitnessChain n := .appendAll seed witnesses
      c.verify ∧ ∀ (offset : ℕ) (witness : CommitWitness), offset < c.length →
        DifferOnce (c.retained offset).witness.words witness.words →
        (c.alter offset witness).verify = false := by
  refine ⟨fun command command' opcode opcode' h hdiff h' => ?_,
    fun reply reply' sequence status status' h hdiff h' => ?_,
    fun telemetry telemetry' h hdiff h' => ?_, fun n seed witnesses => ?_⟩
  · exact Round.checksum_ne hdiff (NexusCommand.checksum_of_validate h)
      (NexusCommand.checksum_of_validate h')
  · exact Round.checksum_ne hdiff (NexusReply.checksum_of_validate h)
      (NexusReply.checksum_of_validate h')
  · exact Round.checksum_ne hdiff (NexusTelemetry.checksum_of_validate h)
      (NexusTelemetry.checksum_of_validate h')
  · have hverify := WitnessChain.verify_iff.mpr
      (WitnessChain.linked_appendAll (n := n) seed witnesses).linked
    exact ⟨hverify, fun _ _ hoff hdiff => WitnessChain.verify_alter hverify hoff hdiff⟩

def probeCommand : NexusCommand :=
  ⟨nexusWireMagic, nexusWireVersion, 1, 1, 0, #v[0, 0, 0, 0], 1446762657177387758⟩

def probeReply : NexusReply :=
  ⟨nexusWireMagic, nexusWireVersion, 0, 1, 0, 0, 0, 0, #v[0, 0, 0], 6591780793670641799⟩

def probeTelemetry : NexusTelemetry :=
  ⟨nexusWireMagic, nexusWireVersion, 0, 1, 0, 0, 0, 0, 0, 0, 10383012916272986673⟩

def probeChain : WitnessChain 2 := .appendAll 0 [.empty, .empty, .empty]

theorem probe_corruption_detected :
    { probeCommand with capability := 1 }.validate ≠ .ok .queryStats ∧
    { probeReply with sequence := 2 }.validate 1 ≠ .ok .ok ∧
    { probeTelemetry with checksum := 0 }.validate ≠ .ok () ∧
    (probeChain.alter 1 { CommitWitness.empty with epoch := 1 }).verify = false := by
  obtain ⟨hcommand, hreply, htelemetry, hchain⟩ := single_word_corruption_detected
  refine ⟨hcommand probeCommand _ .queryStats _ (by rfl) ?_,
    hreply probeReply _ 1 .ok _ (by rfl) ?_,
    htelemetry probeTelemetry _ (by rfl) ?_, (hchain 2 0 _).2 1 _ (by decide) ?_⟩
  · exact ⟨[_, _], 0, 1, [_, _, _, _, _], by decide, rfl, rfl⟩
  · exact ⟨[_], 1, 2, [_, _, _, _, _, _], by decide, rfl, rfl⟩
  · exact ⟨[_, _, _, _, _, _, _], _, 0, [], by decide, rfl, rfl⟩
  · exact ⟨[], 0, 1, [_, _, _, _, _, _], by decide, rfl, rfl⟩

end ArachKernel.Aether
