import ArachKernel.Lib.Guarded
import ArachKernel.RingAuthority.Domains
import Mathlib.Data.Set.Card

/-!
Isolation of privilege domains: one registry and the frontiers of any number of CPUs,
under any sequence of calls.

A frontier is engaged with the domain it has pending or active. The execution
references of a live domain count the frontiers engaged with it, so a domain that is
revoked is engaged nowhere.
-/

namespace ArachKernel.RingAuthority

open Function TransitionFrontier

open Table
open Fallible (bind_eq_ok check_eq_ok)
open Process (Word validPageTableRoot)

variable {capacity cpus : ℕ}

/-! ### What a call can do -/

variable {descriptor : DomainDescriptor}

namespace DomainRegistry

/-- A handle of a live domain. -/
structure Live (registry : DomainRegistry capacity) (handle : DomainHandle)
    (index : Fin capacity) : Prop where
  slot_eq : handle.slot = index
  occupied : (registry.slots index).occupied
  generation_eq : (registry.slots index).generation = handle.generation

variable {registry registry' : DomainRegistry capacity} {handle : DomainHandle}
  {index : Fin capacity}

theorem Live.handle_eq (h : registry.Live handle index) :
    handle = ⟨index, (registry.slots index).generation⟩ := by
  rw [h.generation_eq, ← h.slot_eq]

theorem live_of_slot (h : registry.slot handle = .ok index) : registry.Live handle index := by
  rw [slot] at h
  split at h
  · obtain ⟨hlive, h⟩ := check_eq_ok.mp h
    cases h
    simp only [not_or, Bool.not_eq_false, not_not] at hlive
    exact ⟨rfl, hlive.1, hlive.2⟩
  · cases h

theorem descriptor_ok (h : registry.descriptor handle = .ok descriptor) :
    ∃ index, registry.Live handle index ∧ descriptor = (registry.slots index).descriptor := by
  obtain ⟨index, hslot, h⟩ := bind_eq_ok.mp h
  cases h
  exact ⟨index, live_of_slot hslot, rfl⟩

/-- What `register` asks of a descriptor. -/
structure Admits (registry : DomainRegistry capacity) (descriptor : DomainDescriptor) : Prop where
  root_ne_kernel : descriptor.addressSpaceRoot ≠ registry.kernelAddressSpaceRoot
  root_fresh : ∀ i, (registry.slots i).occupied →
    (registry.slots i).descriptor.addressSpaceRoot ≠ descriptor.addressSpaceRoot
  authority_fresh : descriptor.role = .nativeHardwareCell → ∀ i, (registry.slots i).occupied →
    (registry.slots i).descriptor.role = .nativeHardwareCell →
    (registry.slots i).descriptor.authority.conflictsWith descriptor.authority = false

theorem register_ok (h : registry.register descriptor = .ok (handle, registry')) :
    ∃ index, (registry.slots index).occupied = false ∧ registry.Admits descriptor ∧
      registry' = { registry.setSlot index
        ⟨true, (registry.slots index).generation + 1, 0, descriptor⟩ with
        live := registry.live + 1 } := by
  obtain ⟨_, -, h⟩ := bind_eq_ok.mp h
  rw [check_eq_ok, check_eq_ok] at h
  obtain ⟨hroot, hauth, h⟩ := h
  split at h
  · cases h
  next index hidx =>
  split at h
  · cases h
  next hgen =>
  cases h
  have hfree := position_some hidx
  simp only [Bool.and_eq_true, Bool.not_eq_true'] at hfree
  simp only [not_or, not_exists, not_and] at hroot hauth
  refine ⟨index, hfree.1, ⟨hroot.1, hroot.2, ?_⟩, ?_⟩
  · intro hrole i hi hrolei
    exact Bool.eq_false_iff.mpr (hauth hrole i hi hrolei)
  · rw [(checkedAdd_eq_some.mp hgen).2]

theorem revoke_ok (h : registry.revoke handle = .ok registry') :
    ∃ index, registry.Live handle index ∧ (registry.slots index).executionReferences = 0 ∧
      registry' = { registry.setSlot index { registry.slots index with
        occupied := false, descriptor := DomainSlot.empty.descriptor } with
        live := registry.live - 1 } := by
  obtain ⟨index, hslot, h⟩ := bind_eq_ok.mp h
  obtain ⟨hbusy, h⟩ := check_eq_ok.mp h
  cases h
  exact ⟨index, live_of_slot hslot, not_not.mp hbusy, rfl⟩

/-- The registry with another number of references to a domain. -/
def withReferences (registry : DomainRegistry capacity) (index : Fin capacity) (references : ℕ) :
    DomainRegistry capacity :=
  registry.setSlot index { registry.slots index with executionReferences := references }

theorem retainExecution_ok (h : registry.retainExecution handle = .ok registry') :
    ∃ index, registry.Live handle index ∧ (registry.slots index).executionReferences = 0 ∧
      registry' = registry.withReferences index 1 := by
  obtain ⟨index, hslot, h⟩ := bind_eq_ok.mp h
  obtain ⟨hbusy, h⟩ := check_eq_ok.mp h
  split at h
  · cases h
  next hrefs =>
    cases h
    refine ⟨index, live_of_slot hslot, not_not.mp hbusy, ?_⟩
    rw [(checkedAdd_eq_some.mp hrefs).2, not_not.mp hbusy]
    rfl

theorem releaseExecution_ok (h : registry.releaseExecution handle = .ok registry') :
    ∃ index, registry.Live handle index ∧ registry' = registry.withReferences index
        ((registry.slots index).executionReferences - 1) := by
  obtain ⟨index, hslot, h⟩ := bind_eq_ok.mp h
  cases (check_eq_ok.mp h).2
  exact ⟨index, live_of_slot hslot, rfl⟩

end DomainRegistry

variable {invocation : KernelInvocation}

namespace TransitionFrontier

variable {frontier frontier' : TransitionFrontier} {registry registry' : DomainRegistry capacity}
  {lease : TransitionLease}

theorem prepare_ok {target : DomainHandle} {gate : TransitionGate}
    (h : frontier.prepare registry target gate = .ok (lease, frontier', registry')) :
    frontier.active = .kernel ∧ frontier.pending = none ∧
      (∃ index, registry.Live target index ∧ (registry.slots index).executionReferences = 0 ∧
        registry' = registry.withReferences index 1) ∧
      ∃ sequence pending, pending.target = target ∧
        frontier' = { frontier with sequence, pending := some pending, invocation := none } := by
  rw [prepare, check_eq_ok, check_eq_ok, check_eq_ok, bind_eq_ok] at h
  obtain ⟨-, hact, hpend, descriptor, -, h⟩ := h
  rw [check_eq_ok, check_eq_ok] at h
  obtain ⟨-, -, h⟩ := h
  split at h
  · cases h
  obtain ⟨retained, hrtn, h⟩ := bind_eq_ok.mp h
  cases h
  rw [Option.not_isSome_iff_eq_none] at hpend
  exact ⟨not_not.mp hact, hpend, DomainRegistry.retainExecution_ok hrtn, _, _, rfl, rfl⟩

theorem commit_ok {observed : Word} {committed : CommittedTransition}
    (h : frontier.commit registry lease observed = .ok (committed, frontier')) :
    ∃ pending, frontier.pending = some pending ∧
      frontier' = { frontier with pending := none, active := .domain pending.target } := by
  rw [commit, check_eq_ok, check_eq_ok, bind_eq_ok] at h
  obtain ⟨-, hpend, descriptor, -, h⟩ := h
  rw [check_eq_ok, check_eq_ok, check_eq_ok] at h
  obtain ⟨-, -, -, h⟩ := h
  cases h
  exact ⟨lease.pending, not_not.mp hpend, rfl⟩

theorem abort_ok (h : frontier.abort registry lease = .ok (frontier', registry')) :
    ∃ pending index, frontier.pending = some pending ∧ registry.Live pending.target index ∧
      registry' = registry.withReferences index ((registry.slots index).executionReferences - 1) ∧
      frontier' = { frontier with pending := none } := by
  rw [abort, check_eq_ok, check_eq_ok, bind_eq_ok] at h
  obtain ⟨-, hpend, released, hrel, h⟩ := h
  cases h
  obtain ⟨index, hlive, hregy⟩ := DomainRegistry.releaseExecution_ok hrel
  exact ⟨lease.pending, index, not_not.mp hpend, hlive, hregy, rfl⟩

theorem enterKernel_ok {caller : DomainHandle} {source installed : Word}
    (h : frontier.enterKernel registry caller source installed =
      .ok (invocation, frontier', registry')) :
    frontier.pending = none ∧ frontier.active = .domain caller ∧
      (∃ index, registry.Live caller index ∧ registry' = registry.withReferences index
        ((registry.slots index).executionReferences - 1)) ∧
      ∃ sequence, invocation = ⟨frontier.cpuId, frontier.cpuGeneration, caller, sequence⟩ ∧
        frontier' = { frontier with
          sequence, active := .kernel, invocation := some (caller, sequence) } := by
  rw [enterKernel, check_eq_ok, check_eq_ok, bind_eq_ok] at h
  obtain ⟨hpend, hact, descriptor, -, h⟩ := h
  rw [check_eq_ok, check_eq_ok] at h
  obtain ⟨-, -, h⟩ := h
  split at h
  · cases h
  next sequence hsequence =>
  obtain ⟨released, hrel, h⟩ := bind_eq_ok.mp h
  cases h
  obtain ⟨index, hlive, hregy⟩ := DomainRegistry.releaseExecution_ok hrel
  rw [Option.not_isSome_iff_eq_none] at hpend
  exact ⟨hpend, not_not.mp hact, ⟨index, hlive, hregy⟩, sequence, rfl, rfl⟩

end TransitionFrontier

/-! ### Disjoint authority -/

/-- No port and no address is in both, and neither the IOMMU domain nor the requester of
the DMA grants is the same. -/
structure HardwareAuthority.Disjoint (authority other : HardwareAuthority) : Prop where
  io : ∀ {i j left right}, authority.ioPorts i = some left → other.ioPorts j = some right →
    ∀ port, ¬ (left.first ≤ port ∧ port ≤ left.last ∧ right.first ≤ port ∧ port ≤ right.last)
  mmio : ∀ {i j left right}, authority.mmio i = some left → other.mmio j = some right →
    ∀ address, ¬ (left.base ≤ address ∧ address < left.stop ∧ right.base ≤ address ∧
      address < right.stop)
  dma : ∀ {left right}, authority.dma = some left → other.dma = some right →
    left.iommuDomain ≠ right.iommuDomain ∧ left.requesterId ≠ right.requesterId

variable {authority other : HardwareAuthority}

theorem HardwareAuthority.Disjoint.symm
    (h : authority.Disjoint other) : other.Disjoint authority := by
  refine ⟨fun hleft hright port hport => ?_, fun hleft hright address haddr => ?_,
    fun hleft hright => ?_⟩
  · exact h.io hright hleft port ⟨hport.2.2.1, hport.2.2.2, hport.1, hport.2.1⟩
  · exact h.mmio hright hleft address ⟨haddr.2.2.1, haddr.2.2.2, haddr.1, haddr.2.1⟩
  · obtain ⟨hdomain, hrequester⟩ := h.dma hright hleft
    exact ⟨hdomain.symm, hrequester.symm⟩

theorem HardwareAuthority.disjoint_of_not_conflictsWith
    (h : authority.conflictsWith other = false) : authority.Disjoint other := by
  simp only [conflictsWith, decide_eq_false_iff_not, not_or, not_exists] at h
  obtain ⟨hio, hmmio, hdma⟩ := h
  refine ⟨?_, ?_, ?_⟩
  · intro i j left right hleft hright port hport
    apply hio i j
    rw [hleft, hright]
    simp only [Option.any_some, IoPortRange.overlaps, decide_eq_true_eq]
    omega
  · intro i j left right hleft hright address haddr
    apply hmmio i j
    rw [hleft, hright]
    simp only [Option.any_some, MmioRange.overlaps, decide_eq_true_eq]
    omega
  · intro left right hleft hright
    rw [hleft, hright] at hdma
    simpa using hdma

/-! ### The system -/

/-- The domain a frontier has pending or active. -/
def TransitionFrontier.engaged (frontier : TransitionFrontier) : Option DomainHandle :=
  match frontier.pending, frontier.active with
  | some pending, _ => some pending.target
  | none, .domain handle => some handle
  | none, .kernel => none

/-- A registry, the frontiers of the CPUs, and the invocation last entered on each. -/
structure System (capacity cpus : ℕ) where
  registry : DomainRegistry capacity
  frontiers : Fin cpus → TransitionFrontier
  entered : Fin cpus → Option KernelInvocation

inductive Call (cpus : ℕ)
  | register (descriptor : DomainDescriptor)
  | revoke (handle : DomainHandle)
  | prepare (cpu : Fin cpus) (target : DomainHandle) (gate : TransitionGate)
  | commit (cpu : Fin cpus) (lease : TransitionLease) (observed : Word)
  | abort (cpu : Fin cpus) (lease : TransitionLease)
  | enterKernel (cpu : Fin cpus) (caller : DomainHandle) (source installed : Word)

namespace System

def call (s : System capacity cpus) : Call cpus → System capacity cpus
  | .register descriptor =>
    match s.registry.register descriptor with
    | .ok (_, registry) => { s with registry }
    | .error _ => s
  | .revoke handle =>
    match s.registry.revoke handle with
    | .ok registry => { s with registry }
    | .error _ => s
  | .prepare cpu target gate =>
    match (s.frontiers cpu).prepare s.registry target gate with
    | .ok (_, frontier, registry) =>
      { s with registry, frontiers := update s.frontiers cpu frontier }
    | .error _ => s
  | .commit cpu lease observed =>
    match (s.frontiers cpu).commit s.registry lease observed with
    | .ok (_, frontier) => { s with frontiers := update s.frontiers cpu frontier }
    | .error _ => s
  | .abort cpu lease =>
    match (s.frontiers cpu).abort s.registry lease with
    | .ok (frontier, registry) =>
      { s with registry, frontiers := update s.frontiers cpu frontier }
    | .error _ => s
  | .enterKernel cpu caller source installed =>
    match (s.frontiers cpu).enterKernel s.registry caller source installed with
    | .ok (invocation, frontier, registry) =>
      ⟨registry, update s.frontiers cpu frontier, update s.entered cpu (some invocation)⟩
    | .error _ => s

/-- The systems a run leads to, from an empty registry and idle frontiers that share its
kernel root. -/
inductive Reached : System capacity cpus → Prop
  | start {registry : DomainRegistry capacity} {frontiers : Fin cpus → TransitionFrontier}
      {kernelRoot : Word} (hregistry : DomainRegistry.new capacity kernelRoot = .ok registry)
      (hfrontiers : ∀ cpu, ∃ id generation,
        TransitionFrontier.new id generation kernelRoot = .ok (frontiers cpu)) :
      Reached ⟨registry, frontiers, fun _ => none⟩
  | call {s : System capacity cpus} (before : Reached s) (call : Call cpus) :
      Reached (s.call call)

/-- How many frontiers are engaged with a domain. -/
def engagements (s : System capacity cpus) (handle : DomainHandle) : ℕ :=
  total (fun frontier => if frontier.engaged = some handle then 1 else 0) s.frontiers

end System

/-- Domains are isolated, and the references count the engagements. -/
structure Isolated (s : System capacity cpus) : Prop where
  roots : ∀ {i j}, (s.registry.slots i).occupied → (s.registry.slots j).occupied →
    (s.registry.slots i).descriptor.addressSpaceRoot =
      (s.registry.slots j).descriptor.addressSpaceRoot → i = j
  kernel_root : ∀ {i}, (s.registry.slots i).occupied →
    (s.registry.slots i).descriptor.addressSpaceRoot ≠ s.registry.kernelAddressSpaceRoot
  authorities : ∀ {i j}, i ≠ j → (s.registry.slots i).occupied → (s.registry.slots j).occupied →
    (s.registry.slots i).descriptor.role = .nativeHardwareCell →
    (s.registry.slots j).descriptor.role = .nativeHardwareCell →
    (s.registry.slots i).descriptor.authority.Disjoint (s.registry.slots j).descriptor.authority
  references : ∀ {i}, (s.registry.slots i).occupied → (s.registry.slots i).executionReferences =
      s.engagements ⟨i, (s.registry.slots i).generation⟩
  single : ∀ {i}, (s.registry.slots i).occupied → (s.registry.slots i).executionReferences ≤ 1
  engaged_live : ∀ {cpu handle}, (s.frontiers cpu).engaged = some handle →
    ∃ i, s.registry.Live handle i
  kernel_of_pending : ∀ {cpu}, (s.frontiers cpu).pending ≠ none → (s.frontiers cpu).active = .kernel
  invocation_entered : ∀ {cpu caller sequence},
    (s.frontiers cpu).invocation = some (caller, sequence) →
    s.entered cpu = some ⟨(s.frontiers cpu).cpuId, (s.frontiers cpu).cpuGeneration, caller,
      sequence⟩

/-! ### Steps -/

namespace Isolated

variable {s : System capacity cpus}

theorem engagements_pos {cpu : Fin cpus} {handle : DomainHandle}
    (h : (s.frontiers cpu).engaged = some handle) : 0 < s.engagements handle := by
  rw [System.engagements, total_pos]
  exact ⟨cpu, by rw [if_pos h]; exact Nat.one_pos⟩

theorem registered (hs : Isolated s) {index : Fin capacity}
    (hfree : (s.registry.slots index).occupied = false)
    (hadm : s.registry.Admits descriptor) (generation live : ℕ) :
    Isolated { s with
      registry := { s.registry.setSlot index ⟨true, generation, 0, descriptor⟩ with live } } := by
  have hdead : ∀ {handle}, ¬ s.registry.Live handle index := by
    intro handle hlive
    simpa [hfree] using hlive.occupied
  refine ⟨?_, ?_, ?_, ?_, ?_, ?_, hs.kernel_of_pending, hs.invocation_entered⟩
    <;> dsimp only [DomainRegistry.setSlot]
  · intro i j
    refine update_cases ?_ (fun i _ => ?_) i <;> refine update_cases ?_ (fun j _ => ?_) j
    · exact fun _ _ _ => rfl
    · exact fun _ hj heq => absurd heq.symm (hadm.root_fresh j hj)
    · exact fun hi _ heq => absurd heq (hadm.root_fresh i hi)
    · exact hs.roots
  · intro i
    refine update_cases ?_ (fun i _ => ?_) i
    · exact fun _ => hadm.root_ne_kernel
    · exact hs.kernel_root
  · intro i j
    refine update_cases ?_ (fun i _ => ?_) i <;> refine update_cases ?_ (fun j _ => ?_) j
    · exact fun hne => absurd rfl hne
    · exact fun _ _ hj hri hrj => (HardwareAuthority.disjoint_of_not_conflictsWith
        (hadm.authority_fresh hri j hj hrj)).symm
    · exact fun _ hi _ hri hrj => HardwareAuthority.disjoint_of_not_conflictsWith
        (hadm.authority_fresh hrj i hi hri)
    · exact hs.authorities
  · intro i
    refine update_cases (fun _ => ?_) (fun i _ => ?_) i
    · symm
      refine total_zero _ _ fun cpu => if_neg fun heng => ?_
      obtain ⟨j, hlive⟩ := hs.engaged_live heng
      have hji : j = index := Fin.ext hlive.slot_eq.symm
      exact hdead (hji ▸ hlive)
    · exact hs.references
  · intro i
    refine update_cases ?_ (fun i _ => ?_) i
    · exact fun _ => Nat.zero_le 1
    · exact hs.single
  · intro cpu handle heng
    obtain ⟨i, hlive⟩ := hs.engaged_live heng
    have hii : i ≠ index := by
      rintro rfl
      exact hdead hlive
    refine ⟨i, hlive.slot_eq, ?_, ?_⟩ <;> dsimp only <;> rw [update_of_ne hii]
    · exact hlive.occupied
    · exact hlive.generation_eq

theorem revoked (hs : Isolated s) {index : Fin capacity} {handle : DomainHandle}
    (hlive : s.registry.Live handle index)
    (hidle : (s.registry.slots index).executionReferences = 0) (descriptor : DomainDescriptor)
    (live : ℕ) :
    Isolated { s with registry := { s.registry.setSlot index
      { s.registry.slots index with occupied := false, descriptor } with live } } := by
  refine ⟨?_, ?_, ?_, ?_, ?_, ?_, hs.kernel_of_pending, hs.invocation_entered⟩
    <;> dsimp only [DomainRegistry.setSlot]
  · intro i j
    refine update_cases nofun (fun i _ => ?_) i
    refine update_cases (fun _ => nofun) (fun j _ => ?_) j
    exact hs.roots
  · intro i
    refine update_cases nofun (fun i _ => ?_) i
    exact hs.kernel_root
  · intro i j
    refine update_cases (fun _ => nofun) (fun i _ => ?_) i
    refine update_cases (fun _ _ => nofun) (fun j _ => ?_) j
    exact hs.authorities
  · intro i
    refine update_cases nofun (fun i _ => ?_) i
    exact hs.references
  · intro i
    refine update_cases nofun (fun i _ => ?_) i
    exact hs.single
  · intro cpu other heng
    obtain ⟨i, hi⟩ := hs.engaged_live heng
    have hii : i ≠ index := by
      rintro rfl
      -- an engagement would be counted by the references
      have hcnt := hs.references hi.occupied
      have hpos := engagements_pos heng
      rw [hi.handle_eq] at hpos
      omega
    refine ⟨i, hi.slot_eq, ?_, ?_⟩ <;> dsimp only <;> rw [update_of_ne hii]
    · exact hi.occupied
    · exact hi.generation_eq

end Isolated

/-! A frontier that takes up or gives up a domain, with its references. -/

theorem slots_withReferences (registry : DomainRegistry capacity) (index i : Fin capacity)
    (references : ℕ) : (registry.withReferences index references).slots i =
    { registry.slots i with executionReferences :=
        if i = index then references else (registry.slots i).executionReferences } := by
  rw [DomainRegistry.withReferences, DomainRegistry.setSlot]
  by_cases h : i = index
  · subst h
    simp
  · simp [update_of_ne h, if_neg h]

/-- What may change when a frontier moves: its engagement with one live domain, and the
references of that domain by as much. -/
structure Moves (s : System capacity cpus) (cpu : Fin cpus) (handle : DomainHandle)
    (index : Fin capacity) (frontier : TransitionFrontier) (references : ℕ)
    (entered : Fin cpus → Option KernelInvocation) : Prop where
  live : s.registry.Live handle index
  others : ∀ {other}, other ≠ handle →
    (frontier.engaged = some other ↔ (s.frontiers cpu).engaged = some other)
  count : references + (if (s.frontiers cpu).engaged = some handle then 1 else 0) =
    (s.registry.slots index).executionReferences +
      if frontier.engaged = some handle then 1 else 0
  references_le : references ≤ 1
  pending : frontier.pending ≠ none → frontier.active = .kernel
  invocation : ∀ {caller sequence}, frontier.invocation = some (caller, sequence) →
    entered cpu = some ⟨frontier.cpuId, frontier.cpuGeneration, caller, sequence⟩
  entered_eq : ∀ {other}, other ≠ cpu → entered other = s.entered other

variable {s : System capacity cpus} {frontier : TransitionFrontier} {cpu : Fin cpus}
  {entered : Fin cpus → Option KernelInvocation}

theorem Isolated.moved (hs : Isolated s) {handle : DomainHandle} {index : Fin capacity}
    {references : ℕ} (hm : Moves s cpu handle index frontier references entered) :
    Isolated ⟨s.registry.withReferences index references,
      update s.frontiers cpu frontier, entered⟩ := by
  refine ⟨?_, ?_, ?_, ?_, ?_, ?_, ?_, ?_⟩
  · intro i j hi hj heq
    simp only [slots_withReferences] at hi hj heq
    exact hs.roots hi hj heq
  · intro i hi
    simp only [slots_withReferences] at hi ⊢
    exact hs.kernel_root hi
  · intro i j hne hi hj hri hrj
    simp only [slots_withReferences] at hi hj hri hrj ⊢
    exact hs.authorities hne hi hj hri hrj
  · intro i hi
    simp only [slots_withReferences] at hi ⊢
    have hcnt := hs.references hi
    have hupdate := total_update (fun f : TransitionFrontier =>
      if f.engaged = some ⟨i, (s.registry.slots i).generation⟩ then 1 else 0) s.frontiers cpu
      frontier
    rw [System.engagements] at hcnt ⊢
    dsimp only at hcnt hupdate ⊢
    split
    next heq =>
      subst heq
      rw [← hm.live.handle_eq] at hcnt hupdate ⊢
      have hmove := hm.count
      omega
    next hne =>
      have hhd : (⟨i, (s.registry.slots i).generation⟩ : DomainHandle) ≠ handle := by
        intro heq
        have hslot := hm.live.slot_eq
        rw [← heq] at hslot
        exact hne (Fin.ext hslot)
      have hoths := hm.others hhd
      simp only [hoths] at hupdate
      omega
  · intro i hi
    simp only [slots_withReferences] at hi ⊢
    split
    · exact hm.references_le
    · exact hs.single hi
  · intro other handle' heng
    have hlive : ∃ i, s.registry.Live handle' i := by
      revert heng
      dsimp only
      refine update_cases (fun heng => ?_) (fun other _ => hs.engaged_live) other
      by_cases hh : handle' = handle
      · exact ⟨index, hh ▸ hm.live⟩
      · exact hs.engaged_live ((hm.others hh).mp heng)
    obtain ⟨i, hi⟩ := hlive
    refine ⟨i, hi.slot_eq, ?_, ?_⟩ <;> dsimp only <;> rw [slots_withReferences]
    · exact hi.occupied
    · exact hi.generation_eq
  · intro other
    dsimp only
    exact update_cases hm.pending (fun other _ => hs.kernel_of_pending) other
  · intro other caller sequence
    dsimp only
    refine update_cases hm.invocation (fun other hne => ?_) other
    rw [hm.entered_eq hne]
    exact hs.invocation_entered

/-! ### Runs -/

theorem DomainRegistry.withReferences_self (registry : DomainRegistry capacity)
    (index : Fin capacity) :
    registry.withReferences index (registry.slots index).executionReferences = registry := by
  rw [withReferences, setSlot]
  congr 1
  exact update_eq_self ..

theorem TransitionFrontier.engaged_of_pending {pending : PendingTransition}
    (h : frontier.pending = some pending) : frontier.engaged = some pending.target := by
  rw [engaged, h]

theorem TransitionFrontier.engaged_of_active (h : frontier.pending = none) : frontier.engaged =
      match frontier.active with
      | .domain handle => some handle
      | .kernel => none := by
  rw [engaged, h]
  cases frontier.active <;> rfl

/-- A frontier that gives its domain up. -/
theorem Isolated.released (hs : Isolated s)
    {handle : DomainHandle} {index : Fin capacity} (hlive : s.registry.Live handle index)
    (heng : (s.frontiers cpu).engaged = some handle) (frontier : TransitionFrontier)
    (hidle : frontier.engaged = none) (hpend : frontier.pending ≠ none → frontier.active = .kernel)
    (hinv : ∀ {caller sequence}, frontier.invocation = some (caller, sequence) →
      entered cpu = some ⟨frontier.cpuId, frontier.cpuGeneration, caller, sequence⟩)
    (hent : ∀ {other}, other ≠ cpu → entered other = s.entered other) :
    Isolated ⟨s.registry.withReferences index ((s.registry.slots index).executionReferences - 1),
      update s.frontiers cpu frontier, entered⟩ := by
  have hpos := Isolated.engagements_pos heng
  have hcnt := hs.references hlive.occupied
  have hle := hs.single hlive.occupied
  rw [← hlive.handle_eq] at hcnt
  refine hs.moved ⟨hlive, ?_, ?_, by omega, hpend, hinv, hent⟩
  · intro other hne
    rw [hidle, heng]
    exact iff_of_false (by simp) fun heq => hne (Option.some.inj heq).symm
  · rw [if_pos heng, if_neg (by rw [hidle]; simp)]
    omega

theorem Isolated.call (hs : Isolated s) (call : Call cpus) : Isolated (s.call call) := by
  cases call with
  | register =>
    rw [System.call]
    split
    next hregister =>
      obtain ⟨index, hfree, hadm, rfl⟩ := DomainRegistry.register_ok hregister
      exact hs.registered hfree hadm _ _
    · exact hs
  | revoke =>
    rw [System.call]
    split
    next hrevoke =>
      obtain ⟨index, hlive, hidle, rfl⟩ := DomainRegistry.revoke_ok hrevoke
      exact hs.revoked hlive hidle _ _
    · exact hs
  | prepare cpu =>
    rw [System.call]
    split
    next hprepare =>
      obtain ⟨hact, hpend, ⟨index, hlive, hidle, rfl⟩, sequence, pending, rfl, rfl⟩ :=
        prepare_ok hprepare
      have hbef : (s.frontiers cpu).engaged = none := by
        rw [engaged_of_active hpend, hact]
      have hafter : ({ s.frontiers cpu with
          sequence, pending := some pending, invocation := none } :
          TransitionFrontier).engaged = some pending.target :=
        engaged_of_pending rfl
      refine hs.moved ⟨hlive, ?_, ?_, le_rfl, fun _ => hact, nofun, fun _ => rfl⟩
      · intro other hne
        rw [hbef]
        exact iff_of_false (fun heq => hne (Option.some.inj heq).symm) (by simp)
      · rw [if_pos hafter, hbef, hidle, if_neg (by simp)]
    · exact hs
  | commit cpu =>
    rw [System.call]
    split
    next hcommit =>
      obtain ⟨pending, hpend, rfl⟩ := commit_ok hcommit
      have hbef := engaged_of_pending hpend
      obtain ⟨index, hlive⟩ := hs.engaged_live hbef
      have hafter : ({ s.frontiers cpu with
          pending := none, active := .domain pending.target } :
          TransitionFrontier).engaged = some pending.target :=
        engaged_of_active rfl
      have hm : Moves s cpu pending.target index
          { s.frontiers cpu with pending := none, active := .domain pending.target }
          (s.registry.slots index).executionReferences s.entered :=
        ⟨hlive, fun _ => by rw [hafter, hbef], by rw [hafter, hbef],
          hs.single hlive.occupied, fun h => absurd rfl h, hs.invocation_entered,
          fun _ => rfl⟩
      have hmoved := hs.moved hm
      rw [DomainRegistry.withReferences_self] at hmoved
      exact hmoved
    · exact hs
  | abort cpu =>
    rw [System.call]
    split
    next habort =>
      obtain ⟨pending, index, hpend, hlive, rfl, rfl⟩ := abort_ok habort
      have hact : (s.frontiers cpu).active = .kernel :=
        hs.kernel_of_pending (by rw [hpend]; simp)
      refine hs.released hlive (engaged_of_pending hpend)
        { s.frontiers cpu with pending := none } ?_ (fun _ => hact)
          hs.invocation_entered fun _ => rfl
      rw [engaged_of_active rfl]
      rw [hact]
    · exact hs
  | enterKernel =>
    rw [System.call]
    split
    next henter =>
      obtain ⟨hpend, hact, ⟨index, hlive, rfl⟩, sequence, rfl, rfl⟩ :=
        enterKernel_ok henter
      refine hs.released hlive ?_ _ ?_ (fun _ => rfl) ?_ ?_
      · rw [engaged_of_active hpend, hact]
      · exact engaged_of_active hpend
      · intro caller' sequence' heq
        cases heq
        exact update_self ..
      · exact fun hne => update_of_ne hne _ _
    · exact hs

theorem System.Reached.isolated (hr : s.Reached) : Isolated s := by
  induction hr with
  | @start registry frontiers kernelRoot hregy hfrontiers =>
    have hemp : ∀ i, (registry.slots i).occupied = false := by
      intro i
      rw [DomainRegistry.new, check_eq_ok, check_eq_ok] at hregy
      obtain ⟨-, -, hregy⟩ := hregy
      cases hregy
      rfl
    have hidle : ∀ cpu, (frontiers cpu).active = .kernel ∧ (frontiers cpu).pending = none ∧
        (frontiers cpu).invocation = none := by
      intro cpu
      obtain ⟨id, generation, hnew⟩ := hfrontiers cpu
      rw [new, check_eq_ok, check_eq_ok] at hnew
      rw [← Except.ok.inj hnew.2.2]
      exact ⟨rfl, rfl, rfl⟩
    have hnone : ∀ {i}, (registry.slots i).occupied ≠ true := fun h => by
      simp [hemp] at h
    refine ⟨fun h => absurd h hnone, fun h => absurd h hnone, fun _ h => absurd h hnone,
      fun h => absurd h hnone, fun h => absurd h hnone, ?_, fun {cpu} _ => (hidle cpu).1, ?_⟩
    · intro cpu handle heng
      obtain ⟨hact, hpend, -⟩ := hidle cpu
      simp [engaged_of_active hpend, hact] at heng
    · intro cpu caller sequence hinv
      simp [(hidle cpu).2.2] at hinv
  | call before call ih => exact ih.call call

/-! ### Requests -/

/-- One port range covers all bytes of an I/O request. -/
def HardwareAuthority.CoversIo (authority : HardwareAuthority) (port byteWidth : ℕ) : Prop :=
  ∃ i range, authority.ioPorts i = some range ∧ 0 < byteWidth ∧ range.first ≤ port ∧
    port + byteWidth ≤ range.last + 1

/-- One range covers all bytes of an MMIO request, with the access it asks for. -/
def HardwareAuthority.CoversMmio (authority : HardwareAuthority) (address length : ℕ)
    (access : MmioAccess) : Prop :=
  ∃ i range, authority.mmio i = some range ∧ 0 < length ∧ range.base ≤ address ∧
    address + length ≤ range.stop ∧ range.access &&& access = access

theorem HardwareAuthority.coversIo_of_permits {port byteWidth : ℕ}
    (h : authority.permitsIo port byteWidth) : authority.CoversIo port byteWidth := by
  simp only [permitsIo, decide_eq_true_eq] at h
  obtain ⟨i, hi⟩ := h
  obtain ⟨range, hrng, hcont⟩ := Option.any_eq_true _ _ |>.mp hi
  rw [IoPortRange.contains] at hcont
  split at hcont
  · cases hcont
  split at hcont
  next hlast =>
    have hsum := (checkedAdd_eq_some.mp hlast).2
    simp only [decide_eq_true_eq] at hcont
    exact ⟨i, range, hrng, by omega, hcont.1, by omega⟩
  · cases hcont

theorem HardwareAuthority.coversMmio_of_permits
    {address length : ℕ} {access : MmioAccess} (h : authority.permitsMmio address length access) :
    authority.CoversMmio address length access := by
  simp only [permitsMmio, decide_eq_true_eq] at h
  obtain ⟨i, hi⟩ := h
  obtain ⟨range, hrng, hcont⟩ := Option.any_eq_true _ _ |>.mp hi
  rw [MmioRange.contains] at hcont
  split at hcont
  · cases hcont
  next hlen =>
  simp only [not_or, Bool.not_eq_false] at hlen
  have haccess := hlen.2
  simp only [MmioAccess.contains, Bool.and_eq_true, decide_eq_true_eq] at haccess
  split at hcont
  next hstop =>
    have hsum := (checkedAdd_eq_some.mp hstop).2
    simp only [decide_eq_true_eq] at hcont
    exact ⟨i, range, hrng, by omega, hcont.1, by omega, haccess.2⟩
  · cases hcont

/-- A granted request was made for the invocation last entered on the CPU, by a live
hardware cell with a suitable authority of its own. -/
theorem Isolated.authorized (hs : Isolated s) {permits : HardwareAuthority → Bool}
    (h : s.registry.authorize (s.frontiers cpu) invocation permits = .ok ()) :
    s.entered cpu = some invocation ∧ ∃ i, s.registry.Live invocation.caller i ∧
      (s.registry.slots i).descriptor.role = .nativeHardwareCell ∧
      permits (s.registry.slots i).descriptor.authority := by
  obtain ⟨descriptor, hcall, h⟩ := bind_eq_ok.mp h
  obtain ⟨_, hval, hdesc⟩ := bind_eq_ok.mp hcall
  obtain ⟨hperm, -⟩ := check_eq_ok.mp h
  rw [validateInvocation, check_eq_ok, check_eq_ok] at hval
  obtain ⟨hcpu, hinv, -⟩ := hval
  simp only [not_or, not_not, Bool.not_eq_false] at hperm hcpu hinv
  obtain ⟨i, hlive, rfl⟩ := DomainRegistry.descriptor_ok hdesc
  refine ⟨?_, i, hlive, hperm.1, hperm.2⟩
  rw [hs.invocation_entered hinv.2.2, ← hcpu.1, ← hcpu.2]

/-- A frontier has a domain pending or active. -/
def TransitionFrontier.Engages (frontier : TransitionFrontier) (handle : DomainHandle) : Prop :=
  (∃ pending, frontier.pending = some pending ∧ pending.target = handle) ∨
    frontier.active = .domain handle

theorem Isolated.engages_iff (hs : Isolated s) (cpu : Fin cpus) (handle : DomainHandle) :
    (s.frontiers cpu).Engages handle ↔ (s.frontiers cpu).engaged = some handle := by
  cases hpend : (s.frontiers cpu).pending with
  | none =>
    rw [TransitionFrontier.Engages, engaged_of_active hpend, hpend]
    cases (s.frontiers cpu).active <;> simp
  | some =>
    have hact : (s.frontiers cpu).active = .kernel :=
      hs.kernel_of_pending (by rw [hpend]; simp)
    rw [TransitionFrontier.Engages, engaged_of_pending hpend, hpend, hact]
    simp

/-- What isolates the domains of a system. -/
structure PrivilegeIsolation (s : System capacity cpus) : Prop where
  roots_differ : ∀ i j, i ≠ j → (s.registry.slots i).occupied → (s.registry.slots j).occupied →
    (s.registry.slots i).descriptor.addressSpaceRoot ≠
      (s.registry.slots j).descriptor.addressSpaceRoot
  kernel_root_differs : ∀ i, (s.registry.slots i).occupied →
    (s.registry.slots i).descriptor.addressSpaceRoot ≠ s.registry.kernelAddressSpaceRoot
  authorities_disjoint : ∀ i j, i ≠ j → (s.registry.slots i).occupied →
    (s.registry.slots j).occupied →
    (s.registry.slots i).descriptor.role = .nativeHardwareCell →
    (s.registry.slots j).descriptor.role = .nativeHardwareCell →
    (s.registry.slots i).descriptor.authority.Disjoint (s.registry.slots j).descriptor.authority
  references_count : ∀ i, (s.registry.slots i).occupied →
    (s.registry.slots i).executionReferences = {cpu | (s.frontiers cpu).Engages
      ⟨i, (s.registry.slots i).generation⟩}.ncard ∧
    (s.registry.slots i).executionReferences ≤ 1
  engaged_live : ∀ cpu handle, (s.frontiers cpu).Engages handle → ∃ i, s.registry.Live handle i
  io_authorized : ∀ cpu invocation port byteWidth,
    s.registry.authorizeIo (s.frontiers cpu) invocation port byteWidth = .ok () →
    s.entered cpu = some invocation ∧ ∃ i, s.registry.Live invocation.caller i ∧
      (s.registry.slots i).descriptor.role = .nativeHardwareCell ∧
      (s.registry.slots i).descriptor.authority.CoversIo port byteWidth
  mmio_authorized : ∀ cpu invocation address length access,
    s.registry.authorizeMmio (s.frontiers cpu) invocation address length access = .ok () →
    s.entered cpu = some invocation ∧ ∃ i, s.registry.Live invocation.caller i ∧
      (s.registry.slots i).descriptor.role = .nativeHardwareCell ∧
      (s.registry.slots i).descriptor.authority.CoversMmio address length access
  dma_authorized : ∀ cpu invocation iommuDomain generation requesterId,
    s.registry.authorizeDma (s.frontiers cpu) invocation iommuDomain generation requesterId =
      .ok () →
    s.entered cpu = some invocation ∧ ∃ i, s.registry.Live invocation.caller i ∧
      (s.registry.slots i).descriptor.role = .nativeHardwareCell ∧
      (s.registry.slots i).descriptor.authority.dma = some ⟨iommuDomain, generation, requesterId⟩

/-- Every run keeps the domains isolated. -/
theorem domains_isolated {s : System capacity cpus} (hr : s.Reached) : PrivilegeIsolation s := by
  have hs := hr.isolated
  refine ⟨?_, fun i hi => hs.kernel_root hi, fun i j hne hi hj => hs.authorities hne hi hj,
    ?_, ?_, ?_, ?_, ?_⟩
  · exact fun i j hne hi hj heq => hne (hs.roots hi hj heq)
  · intro i hi
    refine ⟨?_, hs.single hi⟩
    simp only [hs.engages_iff]
    rw [hs.references hi, System.engagements, total, Set.ncard_eq_toFinset_card']
    simp
  · exact fun cpu handle h => hs.engaged_live ((hs.engages_iff cpu handle).mp h)
  · intro cpu invocation port byteWidth h
    obtain ⟨hent, i, hlive, hrole, hperm⟩ := hs.authorized h
    exact ⟨hent, i, hlive, hrole, HardwareAuthority.coversIo_of_permits hperm⟩
  · intro cpu invocation address length access h
    obtain ⟨hent, i, hlive, hrole, hperm⟩ := hs.authorized h
    exact ⟨hent, i, hlive, hrole, HardwareAuthority.coversMmio_of_permits hperm⟩
  · intro cpu invocation iommuDomain generation requesterId h
    obtain ⟨hent, i, hlive, hrole, hperm⟩ := hs.authorized h
    simp only [HardwareAuthority.permitsDma, decide_eq_true_eq] at hperm
    exact ⟨hent, i, hlive, hrole, hperm⟩

/-- A cell for the serial port is entered, and traps into the kernel. -/
def serialTrap : System 2 1 :=
  let ports : Fin maximumIoPortRanges → Option IoPortRange := fun i =>
    if i.val = 0 then some ⟨0x3f8, 0x3ff, by decide⟩ else none
  let s : System 2 1 :=
    ⟨⟨0x1000, fun _ => .empty, 0⟩, fun _ => ⟨3, 1, 0x1000, 0, .kernel, none, none⟩, fun _ => none⟩
  let s := s.call (.register ⟨.nativeHardwareCell, 0x2000, ports, fun _ => none, none⟩)
  let s := s.call (.prepare 0 ⟨0, 1⟩ .iretq)
  let s := s.call (.commit 0 ⟨3, 1, 1, ⟨0, 1⟩, .hardwareCell, 0x2000, .iretq⟩ 0x1000)
  s.call (.enterKernel 0 ⟨0, 1⟩ 0x2000 0x1000)

theorem serialTrap_authorized :
    serialTrap.registry.authorizeIo (serialTrap.frontiers 0) ⟨3, 1, ⟨0, 1⟩, 2⟩ 0x3f8 1 = .ok () ∧
      serialTrap.entered 0 = some ⟨3, 1, ⟨0, 1⟩, 2⟩ := by
  have hreach : serialTrap.Reached := by
    unfold serialTrap
    have hregy : DomainRegistry.new 2 0x1000 = .ok ⟨0x1000, fun _ => .empty, 0⟩ := rfl
    exact ((((System.Reached.start hregy fun _ => ⟨3, 1, rfl⟩).call _).call _).call _).call _
  have hio : serialTrap.registry.authorizeIo (serialTrap.frontiers 0) ⟨3, 1, ⟨0, 1⟩, 2⟩ 0x3f8 1 =
      .ok () := by
    decide +kernel
  exact ⟨hio, ((domains_isolated hreach).io_authorized 0 _ _ _ hio).1⟩

end ArachKernel.RingAuthority
