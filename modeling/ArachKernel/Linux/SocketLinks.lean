import ArachKernel.Linux.SocketQueues

/-!
How endpoints and connections refer to each other. A connected endpoint and its side
of the connection name each other with matching generations; a side counts as open as
long as its endpoint is there, and a connection is in use as long as a side is open.

`Graph` is kept by the few ways in which the operations change the two tables: slots
change without touching the links, an endpoint is created, two endpoints are linked,
a linked endpoint goes, an unlinked one goes.
-/

namespace ArachKernel.LinuxSocket

open Function SocketRegistry ConnectionSlot

variable {k : ConnectionIndex} {j : EndpointIndex}

namespace SocketRegistry

variable {r : SocketRegistry} {e : EndpointSlot}

@[simp] theorem setEndpoint_connections {i : EndpointIndex} :
    (r.setEndpoint i e).connections = r.connections := rfl

variable {c : ConnectionSlot}

@[simp] theorem setConnection_endpoints : (r.setConnection k c).endpoints = r.endpoints := rfl

@[simp] theorem setEndpoint_self {i : EndpointIndex} :
    (r.setEndpoint i e).endpoints i = e := update_self ..

theorem setEndpoint_ne {i : EndpointIndex} (h : j ≠ i) :
    (r.setEndpoint i e).endpoints j = r.endpoints j := update_of_ne h ..

@[elab_as_elim] theorem setEndpoint_cases {motive : EndpointIndex → EndpointSlot → Prop}
    {i : EndpointIndex} (self : motive i e) (other : ∀ j, j ≠ i → motive j (r.endpoints j))
    (j : EndpointIndex) : motive j ((r.setEndpoint i e).endpoints j) :=
  Table.update_cases (motive := motive) self other j

@[simp] theorem setConnection_self : (r.setConnection k c).connections k = c := update_self ..

theorem setConnection_ne {l : ConnectionIndex} (h : l ≠ k) :
    (r.setConnection k c).connections l = r.connections l := update_of_ne h ..

@[elab_as_elim] theorem setConnection_cases {motive : ConnectionIndex → ConnectionSlot → Prop}
    (self : motive k c) (other : ∀ l, l ≠ k → motive l (r.connections l)) (l : ConnectionIndex) :
    motive l ((r.setConnection k c).connections l) :=
  Table.update_cases (motive := motive) self other l

end SocketRegistry

/-! ### Handles -/

variable {i : EndpointIndex} {handle generation : ℕ}

theorem decodeEndpoint_encode (h : encodeEndpoint i generation = some handle) :
    decodeEndpoint handle = some (i, generation) := by
  obtain ⟨hlt, hdec⟩ := Handle.decode_encode (by decide) h
  exact hdec

theorem encodeEndpoint_inj {generation' : ℕ} (h : encodeEndpoint i generation = some handle)
    (h' : encodeEndpoint j generation' = some handle) : i = j := by
  have hdec := decodeEndpoint_encode h
  rw [decodeEndpoint_encode h', Option.some.injEq, Prod.mk.injEq] at hdec
  exact hdec.1.symm

theorem resolvedEndpoint_eq_ok {r : SocketRegistry} {owner : ProcessHandle} {e : EndpointSlot} :
    resolvedEndpoint r owner handle = .ok (i, e) ↔
      decodeEndpoint handle = some (i, e.generation) ∧ r.endpoints i = e ∧ e.occupied ∧
        e.owner = owner := by
  simp only [resolvedEndpoint]
  split
  · next hdec => simp [hdec]
  next hdec =>
  split
  next hinval =>
    simp only [Bool.or_eq_true, bne_iff_ne] at hinval
    simp only [reduceCtorEq, hdec, false_iff, Option.some.injEq, Prod.mk.injEq]
    rintro ⟨⟨rfl, hgen⟩, rfl, hocc, hown⟩
    rcases hinval with (hfree | hold) | hforeign
    · simp [hocc] at hfree
    · exact hold hgen.symm
    · exact hforeign hown
  next hval =>
    simp only [Bool.or_eq_true, Bool.not_eq_true', bne_iff_ne, not_or, Bool.not_eq_false,
      not_not] at hval
    obtain ⟨⟨hocc, hgen⟩, hown⟩ := hval
    simp only [hdec, Except.ok.injEq, Prod.mk.injEq, Option.some.injEq]
    constructor
    · rintro ⟨rfl, rfl⟩
      exact ⟨⟨rfl, hgen.symm⟩, rfl, hocc, hown⟩
    · rintro ⟨⟨rfl, -⟩, rfl, -, -⟩
      exact ⟨rfl, rfl⟩

/-! ### Links -/

/-- Endpoint `i` and a side of connection `k` name each other. -/
structure Linked (e : EndpointSlot) (c : ConnectionSlot) (i : EndpointIndex)
    (k : ConnectionIndex) (side : Side) : Prop where
  endpoint : e.occupied
  state : e.state = .connected
  index : e.connectionIndex = some k
  generation : e.connectionGeneration = c.generation
  onSide : e.side = side
  handle : encodeEndpoint i e.generation = some (c.endpointHandles side)
  owner : c.owners side = e.owner
  opened : c.endpointOpen side
  connection : c.occupied

/-- Two endpoints take part in the graph in the same way. -/
structure SameLink (e e' : EndpointSlot) : Prop where
  occupied : e'.occupied = e.occupied
  generation : e'.generation = e.generation
  owner : e'.owner = e.owner
  connected : e'.state = .connected ↔ e.state = .connected
  index : e'.connectionIndex = e.connectionIndex
  connectionGeneration : e'.connectionGeneration = e.connectionGeneration
  side : e'.side = e.side

/-- Two connections take part in the graph in the same way. -/
structure SameEnds (c c' : ConnectionSlot) : Prop where
  occupied : c'.occupied = c.occupied
  generation : c'.generation = c.generation
  handles : c'.endpointHandles = c.endpointHandles
  owners : c'.owners = c.owners
  endpointOpen : c'.endpointOpen = c.endpointOpen

theorem SameLink.refl (e : EndpointSlot) : SameLink e e := ⟨rfl, rfl, rfl, Iff.rfl, rfl, rfl, rfl⟩

theorem SameEnds.refl (c : ConnectionSlot) : SameEnds c c := ⟨rfl, rfl, rfl, rfl, rfl⟩

variable {side : Side}

theorem Linked.of_same {e e' : EndpointSlot} {c c' : ConnectionSlot} (h : Linked e c i k side)
    (he : SameLink e e') (hc : SameEnds c c') : Linked e' c' i k side where
  endpoint := he.occupied.trans h.endpoint
  state := he.connected.mpr h.state
  index := he.index.trans h.index
  generation := by rw [he.connectionGeneration, hc.generation, h.generation]
  onSide := he.side.trans h.onSide
  handle := by rw [he.generation, hc.handles, h.handle]
  owner := by rw [hc.owners, he.owner, h.owner]
  opened := by rw [hc.endpointOpen, h.opened]
  connection := hc.occupied.trans h.connection

/-- The link of two slots of a registry. -/
abbrev SocketRegistry.Linked (r : SocketRegistry) (i : EndpointIndex)
    (k : ConnectionIndex) (side : Side) : Prop :=
  LinuxSocket.Linked (r.endpoints i) (r.connections k) i k side

theorem Linked.unique {r : SocketRegistry} (hi : r.Linked i k side)
    (hj : r.Linked j k side) : i = j := encodeEndpoint_inj hi.handle hj.handle

/-- What happens to the ends of a connection when the endpoint of a side goes. -/
structure SideClosed (c c' : ConnectionSlot) (side : Side) : Prop where
  closed : c'.endpointOpen side = false
  other : c.endpointOpen (1 - side) → c'.occupied = c.occupied ∧
    c'.generation = c.generation ∧ c'.endpointHandles = c.endpointHandles ∧
    c'.owners = c.owners ∧ c'.endpointOpen (1 - side)
  last : c.endpointOpen (1 - side) = false → c'.occupied = false ∧
    c'.endpointOpen (1 - side) = false

theorem closeSide_sideClosed (c : ConnectionSlot) (side : Side) (room : ℕ) :
    SideClosed c (closeSide c side room).2 side := by
  have hclosed : update c.endpointOpen side false side = false := update_self ..
  have hoth : update c.endpointOpen side false (1 - side) = c.endpointOpen (1 - side) :=
    update_of_ne (other_ne side) ..
  have hboth : (!update c.endpointOpen side false 0 &&
      !update c.endpointOpen side false 1) = !c.endpointOpen (1 - side) := by
    rcases sides 0 side with rfl | rfl
    · exact congrArg (!·) hoth
    · rw [Bool.and_comm]
      exact (congrArg (fun b => !b && _) hclosed).trans (congrArg (!·) hoth)
  simp only [closeSide]
  split
  next hlast =>
    have hlast' : (!c.endpointOpen (1 - side)) := hboth.symm.trans hlast
    refine ⟨rfl, fun hopen => ?_, fun _ => ⟨rfl, rfl⟩⟩
    simp [hopen] at hlast'
  next hfst =>
    have hfst' : (!c.endpointOpen (1 - side)) ≠ true := fun hlast => hfst (hboth.trans hlast)
    refine ⟨hclosed, fun hopen => ⟨rfl, rfl, rfl, rfl, hoth.trans hopen⟩, fun hopen => ?_⟩
    rw [hopen] at hfst'
    exact absurd rfl hfst'

structure Graph (r : SocketRegistry) : Prop where
  encoded : ∀ i, (r.endpoints i).occupied →
    ∃ handle, encodeEndpoint i (r.endpoints i).generation = some handle
  connected : ∀ i, (r.endpoints i).occupied → (r.endpoints i).state = .connected →
    ∃ k side, r.Linked i k side
  opened : ∀ k side, (r.connections k).endpointOpen side → ∃ i, r.Linked i k side
  reusable : ∀ k, (r.connections k).occupied ↔ ∃ side, (r.connections k).endpointOpen side

namespace Graph

variable {r r' : SocketRegistry}

theorem new : Graph .new where
  encoded _ h := by cases h
  connected _ h := by cases h
  opened _ _ h := by cases h
  reusable _ := ⟨nofun, fun ⟨_, h⟩ => (by cases h)⟩

/-- The slots change, but not the links. -/
theorem of_same (h : Graph r) (he : ∀ i, SameLink (r.endpoints i) (r'.endpoints i))
    (hc : ∀ k, SameEnds (r.connections k) (r'.connections k)) : Graph r' := by
  constructor
  · intro i hi
    rw [(he i).occupied] at hi
    rw [(he i).generation]
    exact h.encoded i hi
  · intro i hi hst
    rw [(he i).occupied] at hi
    obtain ⟨k, side, hlink⟩ := h.connected i hi ((he i).connected.mp hst)
    exact ⟨k, side, hlink.of_same (he i) (hc k)⟩
  · intro k side hopen
    rw [(hc k).endpointOpen] at hopen
    obtain ⟨i, hlink⟩ := h.opened k side hopen
    exact ⟨i, hlink.of_same (he i) (hc k)⟩
  · intro k
    rw [(hc k).occupied, (hc k).endpointOpen]
    exact h.reusable k

/-- One endpoint changes that is not connected before or after. -/
theorem setEndpoint (h : Graph r) {e : EndpointSlot}
    (hbef : (r.endpoints i).occupied → (r.endpoints i).state ≠ .connected)
    (hafter : e.occupied → e.state ≠ .connected ∧
      ∃ handle, encodeEndpoint i e.generation = some handle) : Graph (r.setEndpoint i e) := by
  have hlink {j : EndpointIndex} {k : ConnectionIndex} {side : Side}
      (hj : r.Linked j k side) : (r.setEndpoint i e).Linked j k side := by
    have hne : j ≠ i := by
      rintro rfl
      exact hbef hj.endpoint hj.state
    rw [SocketRegistry.Linked, setEndpoint_ne hne]
    exact hj
  constructor
  · exact setEndpoint_cases (fun hi => (hafter hi).2) fun j _ => h.encoded j
  · refine setEndpoint_cases (fun hi hst => absurd hst (hafter hi).1) fun j _ hj hst => ?_
    obtain ⟨k, side, hold⟩ := h.connected j hj hst
    exact ⟨k, side, hlink hold⟩
  · intro k side hopen
    obtain ⟨j, hold⟩ := h.opened k side hopen
    exact ⟨j, hlink hold⟩
  · exact h.reusable

/-- Two endpoints that were not connected are linked by a connection that was free. -/
theorem link (h : Graph r) {first second : EndpointIndex}
    (hfst : (r.endpoints first).occupied → (r.endpoints first).state ≠ .connected)
    (hsnd : (r.endpoints second).occupied → (r.endpoints second).state ≠ .connected)
    (hfree : (r.connections k).occupied = false)
    (he : ∀ i, i ≠ first → i ≠ second → r'.endpoints i = r.endpoints i)
    (hc : ∀ l, l ≠ k → r'.connections l = r.connections l)
    (hfst' : r'.Linked first k 0) (hsnd' : r'.Linked second k 1) : Graph r' := by
  have hlink {j : EndpointIndex} {l : ConnectionIndex} {side : Side}
      (hj : r.Linked j l side) : r'.Linked j l side := by
    have hl : l ≠ k := by
      rintro rfl
      simp [hj.connection] at hfree
    rw [SocketRegistry.Linked, hc l hl, he j ?_ ?_]
    · exact hj
    · rintro rfl
      exact hfst hj.endpoint hj.state
    · rintro rfl
      exact hsnd hj.endpoint hj.state
  constructor
  · intro i hi
    by_cases hi0 : i = first
    · exact ⟨_, hi0 ▸ hfst'.handle⟩
    by_cases hi1 : i = second
    · exact ⟨_, hi1 ▸ hsnd'.handle⟩
    rw [he i hi0 hi1] at hi ⊢
    exact h.encoded i hi
  · intro i hi hst
    by_cases hi0 : i = first
    · exact ⟨k, 0, hi0 ▸ hfst'⟩
    by_cases hi1 : i = second
    · exact ⟨k, 1, hi1 ▸ hsnd'⟩
    rw [he i hi0 hi1] at hi hst
    obtain ⟨l, side, hold⟩ := h.connected i hi hst
    exact ⟨l, side, hlink hold⟩
  · intro l side hopen
    by_cases hl : l = k
    · subst hl
      rcases sides 0 side with rfl | rfl
      · exact ⟨first, hfst'⟩
      · exact ⟨second, hsnd'⟩
    · rw [hc l hl] at hopen
      obtain ⟨i, hold⟩ := h.opened l side hopen
      exact ⟨i, hlink hold⟩
  · intro l
    by_cases hl : l = k
    · subst hl
      exact ⟨fun _ => ⟨0, hfst'.opened⟩, fun _ => hfst'.connection⟩
    · rw [hc l hl]
      exact h.reusable l

/-- A linked endpoint goes; all other links stay. -/
theorem unlink (h : Graph r) (hi : r.Linked i k side) (hgone : (r'.endpoints i).occupied = false)
    (he : ∀ j, j ≠ i → r'.endpoints j = r.endpoints j)
    (hc : ∀ l, l ≠ k → r'.connections l = r.connections l)
    (hk : SideClosed (r.connections k) (r'.connections k) side) :
    Graph r' ∧ ∀ j l side', j ≠ i → r.Linked j l side' → r'.Linked j l side' := by
  have hlink : ∀ j l side', j ≠ i → r.Linked j l side' → r'.Linked j l side' := by
    intro j l side' hne hj
    by_cases hl : l = k
    · subst hl
      rcases sides side side' with rfl | rfl
      · exact absurd (hj.unique hi) hne
      · obtain ⟨hocc, hgen, hhandles, howners, hopen⟩ := hk.other hj.opened
        rw [SocketRegistry.Linked, he j hne]
        exact ⟨hj.endpoint, hj.state, hj.index, by rw [hgen, hj.generation], hj.onSide,
          by rw [hhandles, hj.handle], by rw [howners, hj.owner], hopen,
          by rw [hocc, hj.connection]⟩
    · rw [SocketRegistry.Linked, he j hne, hc l hl]
      exact hj
  refine ⟨⟨?_, ?_, ?_, ?_⟩, hlink⟩
  · intro j hj
    have hne : j ≠ i := by
      rintro rfl
      simp [hgone] at hj
    rw [he j hne] at hj ⊢
    exact h.encoded j hj
  · intro j hj hst
    have hne : j ≠ i := by
      rintro rfl
      simp [hgone] at hj
    rw [he j hne] at hj hst
    obtain ⟨l, side', hold⟩ := h.connected j hj hst
    exact ⟨l, side', hlink j l side' hne hold⟩
  · intro l side' hopen
    have hold : (r.connections l).endpointOpen side' ∧ (l = k → side' ≠ side) := by
      by_cases hl : l = k
      · subst hl
        rcases sides side side' with rfl | rfl
        · simp [hk.closed] at hopen
        refine ⟨?_, fun _ => other_ne side⟩
        cases hoth : (r.connections l).endpointOpen (1 - side) with
        | true => rfl
        | false =>
          simp [(hk.last hoth).2] at hopen
      · rw [hc l hl] at hopen
        exact ⟨hopen, fun heq => absurd heq hl⟩
    obtain ⟨j, hj⟩ := h.opened l side' hold.1
    refine ⟨j, hlink j l side' ?_ hj⟩
    rintro rfl
    have hidx := hi.index
    rw [hj.index, Option.some.injEq] at hidx
    exact hold.2 hidx (hj.onSide.symm.trans hi.onSide)
  · intro l
    by_cases hl : l = k
    · subst hl
      cases hoth : (r.connections l).endpointOpen (1 - side) with
      | true =>
        obtain ⟨hocc, -, -, -, hopen⟩ := hk.other hoth
        exact ⟨fun _ => ⟨_, hopen⟩, fun _ => by rw [hocc, hi.connection]⟩
      | false =>
        obtain ⟨hfree, hclosed⟩ := hk.last hoth
        rw [hfree]
        refine ⟨nofun, fun ⟨side', hopen⟩ => ?_⟩
        rcases sides side side' with rfl | rfl
        · rw [hk.closed] at hopen
          exact hopen
        · rw [hclosed] at hopen
          exact hopen
    · rw [hc l hl]
      exact h.reusable l

end Graph

end ArachKernel.LinuxSocket
