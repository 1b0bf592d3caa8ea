import ArachKernel.Hw.Iova
import Mathlib.Data.Fintype.Card

/-!
The ledger of I/O virtual addresses is safe: in every run the active leases lie apart from
each other and from the reserved ranges, inside the aperture and as aligned as was asked
for, and a lease that is released stays released.
-/

namespace ArachKernel.Iova

open Table Function List

/-! ### Ranges -/

/-- What `IovaRange::new` makes sure of. -/
structure IovaRange.Valid (range : IovaRange) : Prop where
  start_lt : range.start < range.stop
  start_aligned : iovaPageSize ∣ range.start
  stop_aligned : iovaPageSize ∣ range.stop

namespace IovaRange

variable {range other : IovaRange}

theorem valid_of_new {start length : ℕ} (h : new start length = .ok range) : range.Valid := by
  unfold new at h
  split at h
  · cases h
  next hstop =>
  obtain ⟨_, rfl⟩ := checkedAdd_eq_some.mp hstop
  split at h
  · cases h
  next hinval =>
  cases h
  simp only [not_or, not_not] at hinval
  obtain ⟨hlen, hstart, _, hend⟩ := hinval
  exact ⟨Nat.lt_add_of_pos_right (Nat.pos_of_ne_zero hlen), Nat.dvd_of_mod_eq_zero hstart,
    Nat.dvd_of_mod_eq_zero hend⟩

/-- Ranges that have no address in common. -/
def Apart (range other : IovaRange) : Prop := range.stop ≤ other.start ∨ other.stop ≤ range.start

theorem Apart.symm (h : Apart range other) : Apart other range := Or.symm h

theorem apart_of_not_overlaps (h : range.overlaps other = false) : Apart range other := by
  have hnot := mt overlaps_iff.mpr (Bool.eq_false_iff.mp h)
  unfold Apart
  omega

theorem contains_iff :
    range.contains other ↔ range.start ≤ other.start ∧ other.stop ≤ range.stop := by
  rw [contains, Bool.and_eq_true, decide_eq_true_eq, decide_eq_true_eq]

end IovaRange

/-! ### Leases -/

/-- The lease of a slot names that slot and its generation. -/
theorem lease_new {index generation : ℕ} (h : index + 1 < 2 ^ 32) :
    (IovaLease.new index generation).slot = some index ∧
      (IovaLease.new index generation).generation = generation := by
  have hraw : (IovaLease.new index generation).raw = generation * 2 ^ 32 + (index + 1) := by
    rw [IovaLease.new, ← Nat.shiftLeft_add_eq_or_of_lt h, Nat.shiftLeft_eq]
  constructor
  · rw [IovaLease.slot, hraw, Nat.mul_comm, Nat.mul_add_mod, Nat.mod_eq_of_lt h]
    simp
  · rw [IovaLease.generation, hraw, Nat.shiftRight_eq_div_pow, Nat.mul_comm,
      Nat.mul_add_div (Nat.two_pow_pos 32), Nat.div_eq_of_lt h, Nat.add_zero]

namespace IovaLedger

variable {LEASES : ℕ} {l l' : IovaLedger LEASES} {lease : IovaLease} {i : Fin LEASES}

theorem slot_eq_ok : l.slot lease = .ok i ↔ lease.slot = some i.val ∧ (l.leases i).active ∧
      (l.leases i).generation = lease.generation := by
  unfold slot
  split
  · next hnone => simp [hnone]
  next hidx =>
  split
  · split
    next hact =>
      rw [Bool.and_eq_true, beq_iff_eq] at hact
      rw [hidx, Except.ok.injEq, Option.some.injEq]
      constructor
      · rintro rfl
        exact ⟨rfl, hact⟩
      · rintro ⟨rfl, _⟩
        rfl
    next hinact =>
      rw [Bool.and_eq_true, beq_iff_eq] at hinact
      simp only [reduceCtorEq, hidx, Option.some.injEq, false_iff]
      rintro ⟨rfl, hact⟩
      exact hinact hact
  next hlarge =>
    simp only [reduceCtorEq, hidx, Option.some.injEq, false_iff]
    rintro ⟨rfl, _⟩
    exact hlarge i.isLt

variable {range : IovaRange}

theorem mem_blockers : range ∈ l.blockers ↔
    range ∈ l.reserved ∨ ∃ i, (l.leases i).active ∧ (l.leases i).range = range := by
  simp [blockers]

/-! ### First fit -/

variable {request : IovaRequest}

/-- A start at which the request fits: it is aligned, and the range is in the aperture and
meets no blocker. -/
structure Admits (l : IovaLedger LEASES) (request : IovaRequest) (start : ℕ) : Prop where
  aligned : request.alignment ∣ start
  inside : l.aperture.contains { start, stop := start + request.length }
  word : start + request.length ≤ u64Max
  free : ∀ blocker ∈ l.blockers,
    IovaRange.overlaps { start, stop := start + request.length } blocker = false

/-- The search answers with the lowest start, and fails only when there is none. -/
def Finds (l : IovaLedger LEASES) (request : IovaRequest) : Except IovaError IovaRange → Prop
  | .ok { start, stop } => stop = start + request.length ∧
    IsLeast {start | l.Admits request start} start
  | .error e => e = .addressSpaceExhausted ∧ ∀ start, ¬l.Admits request start

variable {start value : ℕ}

theorem Admits.alignUp_le (h : l.Admits request start) (hle : value ≤ start) :
    ∃ next, alignUp value request.alignment = some next ∧ next ≤ start := by
  obtain ⟨k, hk, halign⟩ := request.alignment_eq
  have hdvd := h.aligned
  rw [halign] at hdvd ⊢
  exact exists_alignUp_le hk hdvd hle (by have := h.word; omega)

/-- What blocks a candidate also blocks every later start before its end. -/
theorem Admits.advanceTo_le (h : l.Admits request start) (hle : value ≤ start) :
    advanceTo { start := value, stop := value + request.length } l.blockers ≤ start := by
  rcases advanceTo_cases { start := value, stop := value + request.length } l.blockers with
    ⟨blocker, hmem, hmeets, _, hstop⟩ | ⟨hzero, _⟩
  · rw [← hstop]
    by_contra hlt
    exact Bool.eq_false_iff.mp (h.free blocker hmem) (IovaRange.overlaps_iff.mpr
      ⟨not_le.mp hlt, hmeets.trans_le (Nat.add_le_add_right hle _)⟩)
  · rw [hzero]
    exact Nat.zero_le start

theorem firstFitFrom_finds (hdvd : request.alignment ∣ start) (hge : l.aperture.start ≤ start)
    (hleast : ∀ other, l.Admits request other → start ≤ other) :
    l.Finds request (l.firstFitFrom request start) := by
  fun_induction firstFitFrom l request start with
  | case1 start hstop =>
    refine ⟨rfl, fun other h => ?_⟩
    have hle := hleast other h
    have hinside := (IovaRange.contains_iff.mp h.inside).2
    have hword := h.word
    simp only [Option.filter_eq_none_iff, checkedAdd_eq_some, decide_eq_true_eq] at hstop
    refine hstop (start + request.length) ⟨by omega, rfl⟩ (le_trans ?_ hinside)
    exact Nat.add_le_add_right hle _
  | case2 start stop hstop hfree =>
    obtain ⟨hadd, hle⟩ := Option.filter_eq_some_iff.mp hstop
    obtain ⟨hword, rfl⟩ := checkedAdd_eq_some.mp hadd
    have hnone := (advanceTo_cases { start, stop := start + request.length }
      l.blockers).resolve_left fun ⟨_, _, _, hlt, _⟩ => by omega
    rw [decide_eq_true_eq] at hle
    exact ⟨rfl, ⟨hdvd, IovaRange.contains_iff.mpr ⟨hge, hle⟩, hword, hnone.2⟩, hleast⟩
  | case3 start stop hstop hmeets hnext =>
    obtain ⟨_, rfl⟩ := checkedAdd_eq_some.mp (Option.filter_eq_some_iff.mp hstop).1
    refine ⟨rfl, fun other h => ?_⟩
    obtain ⟨next, hsome, _⟩ := h.alignUp_le (h.advanceTo_le (hleast other h))
    simp [hnext] at hsome
  | case4 start stop hstop hmeets next hnext ih =>
    obtain ⟨_, rfl⟩ := checkedAdd_eq_some.mp (Option.filter_eq_some_iff.mp hstop).1
    obtain ⟨_, _, _, hlt, _⟩ := (advanceTo_cases { start, stop := start + request.length }
      l.blockers).resolve_right fun h => hmeets h.1
    obtain ⟨k, hk, halign⟩ := request.alignment_eq
    obtain ⟨hbehind, _, hnextDvd⟩ := alignUp_eq_some hk (halign ▸ hnext)
    refine ih (halign ▸ hnextDvd) (hge.trans (hlt.le.trans hbehind)) fun other h => ?_
    obtain ⟨_, hsome, hle⟩ := h.alignUp_le (h.advanceTo_le (hleast other h))
    rw [hnext] at hsome
    cases hsome
    exact hle

theorem firstFit_finds (request : IovaRequest) (l : IovaLedger LEASES) :
    l.Finds request (l.firstFit request) := by
  unfold firstFit
  split
  next hnone =>
    refine ⟨rfl, fun other h => ?_⟩
    obtain ⟨next, hsome, _⟩ := h.alignUp_le (IovaRange.contains_iff.mp h.inside).1
    simp [hnone] at hsome
  next start hstart =>
  obtain ⟨k, hk, halign⟩ := request.alignment_eq
  obtain ⟨hge, _, hdvd⟩ := alignUp_eq_some hk (halign ▸ hstart)
  refine firstFitFrom_finds (halign ▸ hdvd) hge fun other h => ?_
  obtain ⟨next, hsome, hle⟩ := h.alignUp_le (IovaRange.contains_iff.mp h.inside).1
  rw [hstart] at hsome
  cases hsome
  exact hle

/-- A range of the size and alignment of a request is made of whole pages. -/
theorem valid_of_request (hdvd : request.alignment ∣ range.start)
    (hstop : range.stop = range.start + request.length) : range.Valid := by
  have hpage : iovaPageSize ∣ range.start := (Dvd.intro_left _ rfl).trans hdvd
  refine ⟨?_, hpage, ?_⟩
  · rw [hstop]
    exact Nat.lt_add_of_pos_right request.length_pos
  · rw [hstop]
    exact hpage.add (Dvd.intro_left _ rfl)

/-! ### The invariant -/

/-- The slots of a ledger are in order. -/
structure Sound (l : IovaLedger LEASES) : Prop where
  capacity : LEASES ≤ u32Max
  reserved : ∀ range ∈ l.reserved, range.Valid ∧ l.aperture.contains range
  sorted : l.reserved.Pairwise fun range other => range.stop ≤ other.start
  valid : ∀ i, (l.leases i).active →
    (l.leases i).range.Valid ∧ l.aperture.contains (l.leases i).range
  unreserved : ∀ i, (l.leases i).active → ∀ range ∈ l.reserved, (l.leases i).range.Apart range
  apart : ∀ i j, i ≠ j → (l.leases i).active → (l.leases j).active →
    (l.leases i).range.Apart (l.leases j).range
  count : l.activeCount = (Finset.univ.filter fun i => (l.leases i).active).card

/-- The ledger with a range that meets no blocker. -/
theorem Sound.grant (h : Sound l) (hval : range.Valid) (hap : l.aperture.contains range)
    (hfree : ∀ blocker ∈ l.blockers, range.Apart blocker)
    (hi : (l.leases i).active = false) : Sound (l.grant i range) := by
  unfold IovaLedger.grant
  refine { capacity := h.capacity, reserved := h.reserved, sorted := h.sorted,
           valid := ?_, unreserved := ?_, apart := fun j k => ?_, count := ?_ } <;> dsimp only
  · exact update_cases (fun _ => ⟨hval, hap⟩) fun j _ => h.valid j
  · exact update_cases (fun _ other hmem => hfree other (mem_blockers.mpr (.inl hmem)))
      fun j _ => h.unreserved j
  · have hnew (j : Fin LEASES) (hj : (l.leases j).active) :
        range.Apart (l.leases j).range := hfree _ (mem_blockers.mpr (.inr ⟨j, hj, rfl⟩))
    refine update_cases ?_ (fun j _ => ?_) j <;> refine update_cases ?_ (fun k _ => ?_) k
    · exact fun hne => absurd rfl hne
    · exact fun _ _ => hnew k
    · exact fun _ hj _ => (hnew j hj).symm
    · exact h.apart j k
  · have hset : (Finset.univ.filter fun j => (update l.leases i
          { range, generation := (l.leases i).generation + 1, active := true } j).active) =
        insert i (Finset.univ.filter fun j => (l.leases j).active) := by
      ext j
      by_cases hji : j = i <;> simp [hji]
    rw [hset, Finset.card_insert_of_notMem (by simp [hi]), ← h.count]

theorem Sound.release (h : Sound l) : Sound (l.release lease).2 := by
  unfold IovaLedger.release
  split
  · exact h
  next i hslot =>
  obtain ⟨_, hact, _⟩ := slot_eq_ok.mp hslot
  have hkept {j : Fin LEASES} (hj : (update l.leases i
      { l.leases i with range := .empty, active := false } j).active) :
      j ≠ i ∧ update l.leases i { l.leases i with range := .empty, active := false } j =
        l.leases j := by
    have hji : j ≠ i := by
      rintro rfl
      simp [update_self] at hj
    exact ⟨hji, update_of_ne hji ..⟩
  refine { capacity := h.capacity, reserved := h.reserved, sorted := h.sorted,
           valid := fun j hj => ?_, unreserved := fun j hj => ?_,
           apart := fun j k hne hj hk => ?_, count := ?_ }
  · have hsame := (hkept hj).2
    dsimp only at hj ⊢
    rw [hsame] at hj ⊢
    exact h.valid j hj
  · have hsame := (hkept hj).2
    dsimp only at hj ⊢
    rw [hsame] at hj ⊢
    exact h.unreserved j hj
  · have hsame := (hkept hj).2
    have hsame' := (hkept hk).2
    dsimp only at hj hk ⊢
    rw [hsame] at hj ⊢
    rw [hsame'] at hk ⊢
    exact h.apart j k hne hj hk
  · have hset : (Finset.univ.filter fun j => (l.leases j).active) =
        insert i (Finset.univ.filter fun j => (update l.leases i
          { l.leases i with range := .empty, active := false } j).active) := by
      ext j
      by_cases hji : j = i
      · subst hji
        simp [hact]
      · simp [hji]
    have hcnt := h.count
    rw [hset, Finset.card_insert_of_notMem (by simp)] at hcnt
    exact Nat.sub_eq_of_eq_add hcnt

/-! ### The reserved ranges -/

/-- Everything before the position of a new range lies before it, everything behind it
lies behind. -/
theorem sorted_insert {ranges : List IovaRange} (hval : range.Valid)
    (hranges : ∀ other ∈ ranges, other.Valid)
    (hsort : ranges.Pairwise fun range other => range.stop ≤ other.start)
    (hapart : ∀ other ∈ ranges, other.Apart range) :
    (ranges.take (ranges.findIdx fun existing => range.start < existing.start) ++ range ::
      ranges.drop (ranges.findIdx fun existing => range.start < existing.start)).Pairwise
      fun range other => range.stop ≤ other.start := by
  have hlt := hval.start_lt
  induction ranges with
  | nil => simp
  | cons first ranges ih =>
    rw [pairwise_cons] at hsort
    have hfst := hapart first mem_cons_self
    have hfirstValid := (hranges first mem_cons_self).start_lt
    rw [findIdx_cons]
    by_cases hbef : range.start < first.start
    · -- the new range is the first one
      have hstop : range.stop ≤ first.start := by
        rcases hfst with hfst | hfst
        · omega
        · exact hfst
      simp only [hbef, decide_true, cond_true, take_zero, nil_append, drop_zero,
        pairwise_cons, mem_cons, forall_eq_or_imp]
      refine ⟨⟨hstop, fun other hoth => ?_⟩, hsort⟩
      have hnext := hsort.1 other hoth
      omega
    · have hstop : first.stop ≤ range.start := by
        rcases hfst with hfst | hfst
        · exact hfst
        · omega
      simp only [hbef, decide_false, cond_false, take_succ_cons, cons_append, pairwise_cons,
        mem_append, mem_cons]
      refine ⟨fun other hoth => ?_, ih (fun other hoth => hranges other
        (mem_cons_of_mem _ hoth)) hsort.2 fun other hoth =>
          hapart other (mem_cons_of_mem _ hoth)⟩
      rcases hoth with hoth | rfl | hoth
      · exact hsort.1 other (mem_of_mem_take hoth)
      · exact hstop
      · exact hsort.1 other (mem_of_mem_drop hoth)

/-- A ledger without leases stays in order when a range is reserved. -/
theorem Sound.insertReserved (h : Sound l) (hval : range.Valid)
    (hnone : ∀ i, (l.leases i).active = false) (hok : l.insertReserved range = .ok l') :
    Sound l' ∧ ∀ i, (l'.leases i).active = false := by
  unfold IovaLedger.insertReserved at hok
  split at hok
  · cases hok
  next hap =>
  split at hok
  · cases hok
  next hoverlaps =>
  cases hok
  simp only [Bool.not_eq_true', Bool.not_eq_false] at hap
  have hapart (other : IovaRange) (hoth : other ∈ l.reserved) : other.Apart range := by
    refine IovaRange.apart_of_not_overlaps ?_
    rw [any_eq_true] at hoverlaps
    by_contra hmeets
    exact hoverlaps ⟨other, hoth, by simpa using hmeets⟩
  refine ⟨{ capacity := h.capacity, reserved := fun other hoth => ?_,
            sorted := sorted_insert hval (fun other hoth => (h.reserved other hoth).1) h.sorted
              hapart,
            valid := h.valid, unreserved := fun i hi => ?_, apart := h.apart, count := h.count },
              hnone⟩
  · rw [mem_append, mem_cons] at hoth
    rcases hoth with hoth | rfl | hoth
    · exact h.reserved other (mem_of_mem_take hoth)
    · exact ⟨hval, hap⟩
    · exact h.reserved other (mem_of_mem_drop hoth)
  · exact absurd ((hnone i).symm.trans hi) (by simp)

theorem sound_new {RESERVED : ℕ} {aperture : IovaRange} {reserved : List IovaRange}
    (hrsv : ∀ range ∈ reserved, range.Valid)
    (h : new LEASES RESERVED aperture reserved = .ok l) : Sound l := by
  unfold new at h
  split at h
  · cases h
  split at h
  · cases h
  next hroom =>
  -- the ranges are inserted one by one, and nothing is leased meanwhile
  suffices hfold : ∀ l₀ : IovaLedger LEASES, Sound l₀ → (∀ i, (l₀.leases i).active = false) →
      reserved.foldlM (fun l range => l.insertReserved range) l₀ = .ok l → Sound l by
    refine hfold _ ?_ (fun _ => rfl) h
    exact
      { capacity := by omega
        reserved := fun _ hmem => absurd hmem not_mem_nil
        sorted := .nil
        valid := nofun
        unreserved := nofun
        apart := nofun
        count := by simp [LeaseSlot.empty] }
  clear h hroom
  induction reserved with
  | nil =>
    intro l₀ hsound _ hok
    cases hok
    exact hsound
  | cons range reserved ih =>
    intro l₀ hsound hnone hok
    rw [foldlM_cons] at hok
    cases hinsert : l₀.insertReserved range with
    | error =>
      rw [hinsert] at hok
      cases hok
    | ok =>
      rw [hinsert] at hok
      obtain ⟨hsound₁, hnone₁⟩ := hsound.insertReserved (hrsv range mem_cons_self) hnone hinsert
      exact ih (fun other hoth => hrsv other (mem_cons_of_mem _ hoth)) _ hsound₁ hnone₁ hok

/-! ### What the calls do -/

theorem freeSlot_eq_some (h : l.freeSlot = some i) : (l.leases i).active = false := by
  have hi := position_some h
  rw [Bool.and_eq_true, Bool.not_eq_true'] at hi
  exact hi.1

/-- A range that can be leased, in a slot that is free. -/
structure Grants (l : IovaLedger LEASES) (i : Fin LEASES) (range : IovaRange) : Prop where
  inactive : (l.leases i).active = false
  valid : range.Valid
  aperture : l.aperture.contains range
  free : ∀ blocker ∈ l.blockers, range.Apart blocker

theorem Admits.grants (h : l.Admits request start) (hi : l.freeSlot = some i) :
    Grants l i { start, stop := start + request.length } :=
  ⟨freeSlot_eq_some hi, valid_of_request h.aligned rfl, h.inside,
    fun blocker hblocker => IovaRange.apart_of_not_overlaps (h.free blocker hblocker)⟩

theorem reserve_cases (request : IovaRequest) (l : IovaLedger LEASES) :
    (∃ e, l.reserve request = (.error e, l) ∧ (e = .leaseCapacity ∧ l.freeSlot = none ∨
        e = .addressSpaceExhausted ∧ ∀ start, ¬l.Admits request start)) ∨
      ∃ i start, l.freeSlot = some i ∧ IsLeast {start | l.Admits request start} start ∧
        l.reserve request = (.ok (.new i ((l.leases i).generation + 1)),
          l.grant i { start, stop := start + request.length }) := by
  unfold reserve
  split
  next hfull => exact .inl ⟨_, rfl, .inl ⟨rfl, hfull⟩⟩
  next i hi =>
  have hfinds := firstFit_finds request l
  split
  next heq =>
    rw [heq] at hfinds
    exact .inl ⟨_, rfl, .inr hfinds⟩
  next range heq =>
    rw [heq] at hfinds
    obtain ⟨start, stop⟩ := range
    obtain ⟨rfl, hleast⟩ := hfinds
    exact .inr ⟨i, start, hi, hleast, rfl⟩

theorem reserveExact_cases (hval : range.Valid) (l : IovaLedger LEASES) :
    (∃ e, l.reserveExact range = (.error e, l)) ∨ ∃ i, Grants l i range ∧
        l.reserveExact range = (.ok (.new i ((l.leases i).generation + 1)), l.grant i range) := by
  unfold reserveExact
  split
  · exact .inl ⟨_, rfl⟩
  next havailable =>
  split
  · exact .inl ⟨_, rfl⟩
  next i hi =>
  simp only [Bool.not_eq_true', not_or, Bool.not_eq_false, any_eq_true, not_exists, not_and]
    at havailable
  refine .inr ⟨i, ⟨freeSlot_eq_some hi, hval, havailable.1, fun blocker hblocker => ?_⟩, rfl⟩
  exact (IovaRange.apart_of_not_overlaps (by simpa using havailable.2 blocker hblocker)).symm

theorem Grants.sound (hgrant : Grants l i range) (h : Sound l) : Sound (l.grant i range) :=
  h.grant hgrant.valid hgrant.aperture hgrant.free hgrant.inactive

/-! ### What has been leased -/

/-- Each slot stays, or goes on to a later generation, or is released. -/
def Advances (l l' : IovaLedger LEASES) : Prop :=
  ∀ i, l'.leases i = l.leases i ∨ (l.leases i).generation < (l'.leases i).generation ∨
    (l'.leases i).generation = (l.leases i).generation ∧ (l'.leases i).active = false

theorem advances_grant (l : IovaLedger LEASES) (i : Fin LEASES) (range : IovaRange) :
    Advances l (l.grant i range) := by
  intro j
  dsimp only [grant]
  exact update_cases (.inr (.inl (Nat.lt_succ_self _))) (fun _ _ => .inl rfl) j

theorem advances_release (l : IovaLedger LEASES) (lease : IovaLease) :
    Advances l (l.release lease).2 := by
  unfold release
  split
  · exact fun _ => .inl rfl
  next i _ =>
  intro j
  dsimp only
  exact update_cases (.inr (.inr ⟨rfl, rfl⟩)) (fun _ _ => .inl rfl) j

/-- The leases that were granted, with the requests for them, and those that were released. -/
structure Log where
  granted : List (IovaLease × IovaRequest)
  released : List IovaLease

/-- What the slot of a lease of this generation may hold. -/
def Holds (lease : IovaLease) (P : LeaseSlot → Prop) (l : IovaLedger LEASES) : Prop :=
  ∀ i : Fin LEASES, lease.slot = some i.val → lease.generation ≤ (l.leases i).generation ∧
    (lease.generation = (l.leases i).generation → P (l.leases i))

theorem Holds.advance {P : LeaseSlot → Prop} (h : Holds lease P l) (hl : Advances l l')
    (hP : ∀ slot : LeaseSlot, slot.active = false → P slot) : Holds lease P l' := by
  intro i hi
  obtain ⟨hle, heq⟩ := h i hi
  rcases hl i with hsame | hlt | ⟨hgen, hinact⟩
  · rw [hsame]
    exact ⟨hle, heq⟩
  · exact ⟨hle.trans hlt.le, fun hgen => by omega⟩
  · rw [hgen]
    exact ⟨hle, fun _ => hP _ hinact⟩

/-- An active slot has what the request asked for. -/
def Fits (request : IovaRequest) (slot : LeaseSlot) : Prop :=
  slot.active → request.alignment ∣ slot.range.start ∧
    slot.range.stop = slot.range.start + request.length

structure Recorded (log : Log) (l : IovaLedger LEASES) : Prop where
  granted : ∀ x ∈ log.granted, Holds x.1 (Fits x.2) l
  released : ∀ lease ∈ log.released, Holds lease (fun slot => slot.active = false) l

variable {log : Log}

theorem Recorded.advance (h : Recorded log l) (hl : Advances l l') : Recorded log l' where
  granted x hx := (h.granted x hx).advance hl fun _ hslot hact =>
    Bool.noConfusion (hslot.symm.trans hact)
  released lease hlease := (h.released lease hlease).advance hl fun _ hslot => hslot

/-- The lease that is granted names the slot that it is granted in. -/
theorem lease_granted (hcapacity : LEASES ≤ u32Max) (generation : ℕ) :
    (IovaLease.new i generation).slot = some i.val ∧
      (IovaLease.new i generation).generation = generation := by
  refine lease_new ?_
  rw [u32Max] at hcapacity
  omega

theorem Recorded.grant (h : Recorded log l) (hcapacity : LEASES ≤ u32Max)
    (hdvd : request.alignment ∣ range.start) (hstop : range.stop = range.start + request.length) :
    Recorded { log with
      granted := (.new i ((l.leases i).generation + 1), request) :: log.granted }
        (l.grant i range) := by
  have hold := h.advance (advances_grant l i range)
  refine ⟨fun x hx => ?_, hold.released⟩
  rcases mem_cons.mp hx with rfl | hx
  · obtain ⟨hslot, hgen⟩ := lease_granted (i := i) hcapacity ((l.leases i).generation + 1)
    intro j hj
    obtain rfl : i = j := Fin.ext (Option.some.inj (hslot.symm.trans hj))
    rw [hgen]
    simp only [IovaLedger.grant, update_self]
    exact ⟨le_rfl, fun _ _ => ⟨hdvd, hstop⟩⟩
  · exact hold.granted x hx

theorem Recorded.release (h : Recorded log l) (hok : (l.release lease).1 = .ok range) :
    Recorded { log with released := lease :: log.released } (l.release lease).2 := by
  have hold := h.advance (advances_release l lease)
  refine ⟨hold.granted, fun other hoth => ?_⟩
  rcases mem_cons.mp hoth with rfl | hoth
  · unfold IovaLedger.release at hok ⊢
    split at hok
    · cases hok
    next i hslot =>
    obtain ⟨hidx, _, hgen⟩ := slot_eq_ok.mp hslot
    intro j hj
    obtain rfl : i = j := Fin.ext (Option.some.inj (hidx.symm.trans hj))
    simp [hgen]
  · exact hold.released other hoth

/-- A batch grants the requests one after the other. -/
theorem reserveEach_ok {requests : List IovaRequest} {leases : List IovaLease}
    (hsound : Sound l) (hlog : Recorded log l) (h : reserveEach requests l = .ok (leases, l')) :
    Sound l' ∧ Recorded { log with granted := leases.zip requests ++ log.granted } l' := by
  induction requests generalizing l leases log with
  | nil =>
    cases h
    exact ⟨hsound, hlog⟩
  | cons request requests ih =>
    rw [reserveEach] at h
    rcases reserve_cases request l with ⟨e, heq, _⟩ | ⟨i, start, hi, hleast, heq⟩
    · simp [heq] at h
    rw [heq] at h
    dsimp only at h
    split at h
    · cases h
    next hrest =>
    cases h
    obtain ⟨hsound', hlog'⟩ := ih ((hleast.1.grants hi).sound hsound)
      (hlog.grant hsound.capacity hleast.1.aligned rfl) hrest
    refine ⟨hsound', fun x hx => hlog'.granted x ?_, hlog'.released⟩
    simp only [zip_cons_cons, mem_cons, mem_append] at hx ⊢
    tauto

/-! ### Batches -/

/-- The requests one after the other, whatever each of them answers. -/
def reserveInTurn : List IovaRequest → IovaLedger LEASES →
    List (Except IovaError IovaLease) × IovaLedger LEASES
  | [], l => ([], l)
  | request :: requests, l =>
    let rest := reserveInTurn requests (l.reserve request).2
    ((l.reserve request).1 :: rest.1, rest.2)

theorem reserveEach_inTurn {requests : List IovaRequest} {leases : List IovaLease} :
    reserveEach requests l = .ok (leases, l') ↔
      reserveInTurn requests l = (leases.map .ok, l') := by
  induction requests generalizing l leases with
  | nil => cases leases <;> simp [reserveEach, reserveInTurn]
  | cons request requests ih =>
    rw [reserveEach, reserveInTurn]
    rcases hreserve : l.reserve request with ⟨_ | lease, next⟩
    · cases leases <;> simp
    · cases leases with
      | nil => cases heach : reserveEach requests next <;> simp [heach]
      | cons head tail =>
        have hrest := @ih next tail
        cases heach : reserveEach requests next <;> simp_all [Prod.ext_iff, and_assoc]

/-- A request gets the lowest start at which it fits, and a batch the leases that its requests
get one by one. -/
theorem reserve_lowest_start (request : IovaRequest) (requests : List IovaRequest) (room : ℕ)
    (l : IovaLedger LEASES) :
    ((∃ e, l.reserve request = (.error e, l) ∧ (e = .leaseCapacity ∧ l.freeSlot = none ∨
          e = .addressSpaceExhausted ∧ ∀ start, ¬l.Admits request start)) ∨
        ∃ i start, l.freeSlot = some i ∧ IsLeast {start | l.Admits request start} start ∧
          l.reserve request = (.ok (.new i ((l.leases i).generation + 1)),
            l.grant i { start, stop := start + request.length })) ∧
      ((∃ e, l.reserveMany requests room = (.error e, l)) ∨
        ∃ leases l', l.reserveMany requests room = (.ok leases, l') ∧
          reserveInTurn requests l = (leases.map .ok, l')) ∧
      (requests ≠ [] → requests.length = room → room ≤ LEASES →
        ∀ leases l', reserveInTurn requests l = (leases.map .ok, l') →
          l.reserveMany requests room = (.ok leases, l')) := by
  refine ⟨reserve_cases request l, ?_, fun hne hroom hle leases l' hturn => ?_⟩
  · unfold reserveMany
    split
    · exact .inl ⟨_, rfl⟩
    split
    · exact .inl ⟨_, rfl⟩
    next leases l' heach => exact .inr ⟨leases, l', rfl, reserveEach_inTurn.mp heach⟩
  · rw [reserveMany, if_neg (by simp [hne, hroom, hle]), reserveEach_inTurn.mpr hturn]

/-! ### Runs -/

inductive IovaCall : Type → Type
  | reserve (request : IovaRequest) : IovaCall (Except IovaError IovaLease)
  | reserveExact (range : IovaRange) : IovaCall (Except IovaError IovaLease)
  | reserveMany (requests : List IovaRequest) (room : ℕ) :
      IovaCall (Except IovaError (List IovaLease))
  | release (lease : IovaLease) : IovaCall (Except IovaError IovaRange)

def exec : Handler IovaCall (IovaLedger LEASES)
  | _, .reserve request, l => l.reserve request
  | _, .reserveExact range, l => l.reserveExact range
  | _, .reserveMany requests room, l => l.reserveMany requests room
  | _, .release lease, l => l.release lease

/-- The range comes from `IovaRange::new`; its fields are private. -/
def Built (range : IovaRange) : Prop := ∃ start length, IovaRange.new start length = .ok range

def IovaCall.Formed {α : Type} : IovaCall α → Prop
  | .reserveExact range => Built range
  | _ => True

def Log.note (log : Log) {α : Type} : IovaCall α → α → Log
  | .reserve request, .ok lease => { log with granted := (lease, request) :: log.granted }
  | .reserveMany requests _, .ok leases =>
    { log with granted := leases.zip requests ++ log.granted }
  | .release lease, .ok _ => { log with released := lease :: log.released }
  | _, _ => log

/-- The ledger after a construction and some calls. -/
inductive Reached (RESERVED : ℕ) : Log → IovaLedger LEASES → Prop
  | new {l : IovaLedger LEASES} {aperture : IovaRange} {reserved : List IovaRange}
      (haperture : Built aperture) (hreserved : ∀ range ∈ reserved, Built range)
      (h : IovaLedger.new LEASES RESERVED aperture reserved = .ok l) :
      Reached RESERVED { granted := [], released := [] } l
  | call {log : Log} {l : IovaLedger LEASES} (h : Reached RESERVED log l) {α : Type}
      (c : IovaCall α) (hc : c.Formed) :
      Reached RESERVED (log.note c (exec _ c l).1) (exec _ c l).2

theorem Built.valid (h : Built range) : range.Valid := by
  obtain ⟨start, length, hnew⟩ := h
  exact IovaRange.valid_of_new hnew

theorem exec_step (hsound : Sound l) (hlog : Recorded log l) {α : Type} (c : IovaCall α)
    (hc : c.Formed) :
    Sound (exec _ c l).2 ∧ Recorded (log.note c (exec _ c l).1) (exec _ c l).2 := by
  cases c with
  | reserve request =>
    simp only [exec]
    rcases reserve_cases request l with ⟨e, heq, _⟩ | ⟨i, start, hi, hleast, heq⟩
    · rw [heq]
      exact ⟨hsound, hlog⟩
    · rw [heq]
      exact ⟨(hleast.1.grants hi).sound hsound, hlog.grant hsound.capacity hleast.1.aligned rfl⟩
  | reserveExact range =>
    simp only [exec]
    rcases reserveExact_cases (Built.valid hc) l with ⟨e, heq⟩ | ⟨i, hgrant, heq⟩
    · rw [heq]
      exact ⟨hsound, hlog⟩
    · rw [heq]
      exact ⟨hgrant.sound hsound, hlog.advance (advances_grant l i range)⟩
  | reserveMany requests room =>
    simp only [exec]
    unfold reserveMany
    split
    · exact ⟨hsound, hlog⟩
    split
    · exact ⟨hsound, hlog⟩
    next heach => exact reserveEach_ok hsound hlog heach
  | release lease =>
    simp only [exec]
    refine ⟨hsound.release, ?_⟩
    cases hans : (l.release lease).1 with
    | error => exact hlog.advance (advances_release l lease)
    | ok => exact hlog.release hans

theorem Reached.sound {RESERVED : ℕ} (h : Reached RESERVED log l) : Sound l ∧ Recorded log l := by
  induction h with
  | new _ hrsv h =>
    refine ⟨sound_new (fun range hrng => (hrsv range hrng).valid) h, ?_, ?_⟩
    · exact fun _ hx => absurd hx not_mem_nil
    · exact fun _ hx => absurd hx not_mem_nil
  | call _ c hc ih => exact exec_step ih.1 ih.2 c hc

/-- In every run the active leases lie apart from each other and from the reserved ranges, in
the aperture and on page boundaries, and a lease that still validates is as large and as
aligned as its request asked; the reserved ranges are sorted and apart; the count is that of
the active leases; a released lease does not validate. -/
theorem iova_ledger_safe {RESERVED : ℕ} {log : Log} (h : Reached RESERVED log l) :
    (∀ i j, i ≠ j → (l.leases i).active → (l.leases j).active →
      (l.leases i).range.Apart (l.leases j).range) ∧
    (∀ i, (l.leases i).active → (l.leases i).range.Valid ∧ l.aperture.contains (l.leases i).range ∧
      ∀ range ∈ l.reserved, (l.leases i).range.Apart range) ∧
    (∀ lease request range, (lease, request) ∈ log.granted → l.range lease = .ok range →
      request.alignment ∣ range.start ∧ range.stop = range.start + request.length) ∧
    (l.reserved.Pairwise fun range other => range.stop ≤ other.start) ∧
    l.activeCount = (Finset.univ.filter fun i => (l.leases i).active).card ∧
    ∀ lease ∈ log.released, l.range lease = .error .staleLease := by
  obtain ⟨hsound, hlog⟩ := h.sound
  refine ⟨hsound.apart, fun i hi => ⟨(hsound.valid i hi).1, (hsound.valid i hi).2,
    hsound.unreserved i hi⟩, fun lease request range hmem hrng => ?_, hsound.sorted, hsound.count,
    fun lease hmem => ?_⟩
  · unfold IovaLedger.range at hrng
    split at hrng
    · cases hrng
    next i hslot =>
    cases hrng
    obtain ⟨hidx, hact, hgen⟩ := slot_eq_ok.mp hslot
    exact (hlog.granted _ hmem i hidx).2 hgen.symm hact
  · unfold IovaLedger.range
    cases hslot : l.slot lease with
    | error =>
      unfold slot at hslot
      repeat' split at hslot
      all_goals first | (cases hslot; rfl) | cases hslot
    | ok i =>
      obtain ⟨hidx, hact, hgen⟩ := slot_eq_ok.mp hslot
      have hinact := (hlog.released lease hmem i hidx).2 hgen.symm
      exact Bool.noConfusion (hinact.symm.trans hact)

/-! A run with a reserved page, a lease and its release. -/

def sampleAperture : IovaRange := { start := 4096, stop := 16384 }

def sampleReserved : IovaRange := { start := 4096, stop := 8192 }

def sampleRange : IovaRange := { start := 8192, stop := 12288 }

def sampleLedger : IovaLedger 2 where
  aperture := sampleAperture
  reserved := [sampleReserved]
  leases := fun _ => .empty
  activeCount := 0

def sampleLease : IovaLease := .new 0 1

def sampleLeased : IovaLedger 2 := (exec _ (.reserveExact sampleRange) sampleLedger).2

def sampleReleased : IovaLedger 2 := (exec _ (.release sampleLease) sampleLeased).2

theorem sample_leased : Reached 1 { granted := [], released := [] } sampleLeased := by
  have hap : Built sampleAperture := ⟨4096, 12288, rfl⟩
  have hrsv : ∀ range ∈ [sampleReserved], Built range := by
    intro range hrng
    cases mem_singleton.mp hrng
    exact ⟨4096, 4096, rfl⟩
  have hnew : Reached 1 { granted := [], released := [] } sampleLedger :=
    .new hap hrsv rfl
  exact hnew.call (.reserveExact sampleRange) ⟨8192, 4096, rfl⟩

theorem sample_released : Reached 1 { granted := [], released := [sampleLease] } sampleReleased :=
  sample_leased.call (.release sampleLease) trivial

theorem iova_ledger_safe_released : (sampleLeased.leases 0).range.Apart sampleReserved ∧
      sampleReleased.range sampleLease = .error .staleLease :=
  ⟨((iova_ledger_safe sample_leased).2.1 0 (by decide)).2.2 sampleReserved (by decide),
    (iova_ledger_safe sample_released).2.2.2.2.2 sampleLease (by decide)⟩

end IovaLedger

end ArachKernel.Iova
