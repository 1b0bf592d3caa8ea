import ArachKernel.Hw.SlptMap

/-!
`finish_map`, `unmap_page`, `cancel_pending_map` and `finish_unmap` keep the tables
sound.

A record that awaits its cleanup remembers the tables of its path, but another record
may have released some of them already. Either the table to be released is still in
the tree, and then so are all tables above it, or it is not, and then the parent is
not in the tree as well or no longer points to it.
-/

namespace ArachKernel.Vtd

open Guarded RadixTree List

variable {μ : Type} {n : ℕ} {P : Platform μ} {V : View μ} {T : Layout SlptFrame}
  {leaves : List ℕ → ℕ} {slpt : Slpt n} {m m' : μ} {α β : Type}

/-! ### Releasing an empty table -/

theorem tableIsEmpty_spec (hP : P.Lawful V) (frame : SlptFrame) (remaining index : ℕ)
    (hle : index + remaining ≤ entriesPerTable) (m : μ) :
    Triple (· = (slpt, m)) (tableIsEmpty P frame remaining index)
      (fun result t => t.1 = slpt ∧ V.Unchanged m t.2 ∧ (result = .ok true → V.owned m frame →
        ∀ i, index ≤ i → i < index + remaining → V.entry m frame i = 0)) fun _ _ => False := by
  induction remaining generalizing index m with
  | zero =>
    rintro _ rfl
    exact ⟨rfl, .refl V m, fun _ _ i _ _ => by omega⟩
  | succ remaining ih =>
    rw [tableIsEmpty]
    refine attempt_then fun result m1 hread => ?_
    cases result with
    | error =>
      rintro _ rfl
      exact ⟨rfl, hP.read_error hread, nofun⟩
    | ok =>
      obtain ⟨hm1, hval⟩ := hP.read_ok hread
      refine .ite (fun _ => ?_) fun hzero => ?_
      · rintro _ rfl
        exact ⟨rfl, hm1, nofun⟩
      · refine (ih (index + 1) (by omega) m1).mono (fun _ h => h) ?_
        rintro result t ⟨hslpt, hm2, hrest⟩
        refine ⟨hslpt, hm1.trans hm2, fun htrue howned i hge hlt => ?_⟩
        by_cases hi : i = index
        · subst hi
          rw [← hval howned (by omega)]
          exact not_not.mp hzero
        · rw [← hm1.entry frame howned]
          exact hrest htrue ((hm1.owned frame).mpr howned) i (by omega) (by omega)

variable {table : SlptFrame} {p : List ℕ}

/-- An empty table of the tree has no table under it. -/
theorem Sound.no_child (h : Sound V T leaves slpt m) (hp : T p = some table)
    (hemp : ∀ i < entriesPerTable, V.entry m table i = 0) (j : ℕ) : T (p ++ [j]) = none := by
  by_contra hne
  obtain ⟨c, hc⟩ := Option.ne_none_iff_exists'.mp hne
  have hj := h.tree.index_lt hc
  have hlen := h.tree.length_lt hc
  rw [length_append] at hlen
  have hent := h.tree.node hp hlen hj
  rw [hemp j hj, hc] at hent
  exact absurd (link_eq_zero.mp hent.symm) (by simp)

variable {r : MappingRecord} {slot : Fin n}

/-- No mapped record has an empty table on its path. -/
theorem Sound.empty_avoids (h : Sound V T leaves slpt m) (hp : T p = some table)
    (hemp : ∀ i < entriesPerTable, V.entry m table i = 0) (hr : slpt.At slot r) (hmap : r.Mapped)
    {j : ℕ} (hj : j < slpt.levels) : r.path.indices.take j ≠ p := by
  rintro rfl
  have hshape := h.shape hr
  have htake := take_succ_indices r.iova hj
  rw [← hshape.indices_eq] at htake
  have hlen : (r.path.indices.take j).length = j := by
    rw [hshape.indices_eq, length_take, length_indices]
    omega
  by_cases hlast : j + 1 = slpt.levels
  · -- the leaf of the record would be zero
    have hent := h.tree.leaf hp (by omega) (indexAt_lt slpt.levels r.iova j)
    rw [hemp _ (indexAt_lt slpt.levels r.iova j), ← htake, hlast,
      take_of_length_le (by rw [hshape.indices_eq, length_indices]),
      h.leaf_of_mapped hr hmap] at hent
    obtain ⟨bits, hpos, -, hleaf⟩ := hshape.leaf_eq
    have hle : bits ≤ r.physicalAddress ||| bits := Nat.right_le_or
    omega
  · have hlive := h.live hr hmap (j + 1) (by omega)
    rw [htake, h.no_child hp hemp, getElem?_eq_getElem (by rw [hshape.frames_length]; omega)]
      at hlive
    cases hlive

variable {parent child : SlptFrame}

/-- Unlinking an empty table of a record whose parent points to it, and perhaps releasing
it. -/
theorem Sound.unlinked (h : Sound V T leaves slpt m)
    (hr : slpt.At slot r) {position : ℕ} (hposn : position + 1 < slpt.levels - r.cleanupDepth)
    (hpar : r.path.frames[position]? = some parent)
    (hch : r.path.frames[position + 1]? = some child)
    (hemp : V.owned m child → ∀ i < entriesPerTable, V.entry m child i = 0)
    (hlink : V.owned m parent →
      V.entry m parent (indexAt slpt.levels r.iova position) = pointer child)
    (howned : ∀ g, g ≠ child → V.owned m g → V.owned m' g)
    (hunlink : V.owned m parent → parent ≠ child →
      V.entry m' parent (indexAt slpt.levels r.iova position) = 0)
    (hsame : ∀ g, g ≠ child → V.owned m g →
      ∀ j, (g = parent → j ≠ indexAt slpt.levels r.iova position) →
        V.entry m' g j = V.entry m g j) :
    ∃ T', Sound V T' leaves slpt m' := by
  have hshape := h.shape hr
  have htake := take_succ_indices r.iova (show position < slpt.levels by omega)
  rw [← hshape.indices_eq] at htake
  by_cases hlive : ∃ p, T p = some child
  · obtain ⟨p, hp⟩ := hlive
    -- the tables above the child are in the tree, where the record has them
    have habove := h.chain hr hposn hch hp
    have hat : T (r.path.indices.take position) = some parent := by
      rw [habove position (by omega), hpar]
    have hbelow : T (r.path.indices.take position ++ [indexAt slpt.levels r.iova position]) =
        some child := by
      rw [← htake, habove (position + 1) le_rfl, hch]
    have hzero := hemp (h.owned hbelow)
    have hdiff : parent ≠ child := by
      rintro rfl
      have heq := congrArg length (h.tree.inj hat hbelow)
      rw [length_append, length_singleton] at heq
      omega
    refine ⟨_, h.unlink_child hat hbelow (h.no_child hbelow hzero)
      (fun slot' r' hr' hmap j hj => h.empty_avoids hbelow hzero hr' hmap hj) ?_
      (hunlink (h.owned hat) hdiff) ?_⟩
    · exact fun hq hne => howned _ hne (h.owned hq)
    · exact fun hq hne j hj => hsame _ hne (h.owned hq) j hj
  · -- the parent has left the tree as well, or it would not point to the child
    have hne : ∀ {p f}, T p = some f → f ≠ child := fun hp heq => hlive ⟨_, heq ▸ hp⟩
    have hdead : ∀ {p f}, T p = some f → f ≠ parent := by
      rintro p f hp rfl
      have hat : T (r.path.indices.take position) = some f := by
        rw [h.chain hr (show position < slpt.levels - r.cleanupDepth by omega) hpar hp
          position le_rfl, hpar]
      have hlen : (r.path.indices.take position).length + 1 < slpt.levels := by
        rw [hshape.indices_eq, length_take, length_indices]
        omega
      have hent := h.tree.node hat hlen (indexAt_lt slpt.levels r.iova position)
      rw [hlink (h.owned hp)] at hent
      exact hlive ⟨_, (link_injective (show link (some child) = _ from hent)).symm⟩
    refine ⟨T, h.of_entry_eq ?_ ?_⟩
    · exact fun hp => howned _ (hne hp) (h.owned hp)
    · exact fun hp j => hsame _ (hne hp) (h.owned hp) j fun heq => absurd heq (hdead hp)

/-- The ledger is untouched, and the tables are sound for some layout. -/
def Reclaimed (V : View μ) (leaves : List ℕ → ℕ) (slpt : Slpt n) (t : Slpt n × μ) : Prop :=
  t.1 = slpt ∧ ∃ T, Sound V T leaves slpt t.2

theorem relink_spec (hP : P.Lawful V) {m₀ : μ} (hs : Sound V T leaves slpt m₀) {index : ℕ}
    (hlink : V.owned m₀ parent → V.entry m₀ parent index = pointer child)
    (hm : V.SameBut parent index m₀ m) (cause : ReclaimError)
    (hcut : ∃ T', Sound V T' leaves slpt m) :
    Triple (· = (slpt, m)) (relink P parent index child cause)
      (fun _ t => Reclaimed V leaves slpt t) fun _ _ => False := by
  rw [relink]
  refine attempt_then fun result m1 hwrite => ?_
  cases result with
  | error =>
    rintro _ rfl
    obtain ⟨T', hs'⟩ := hcut
    exact ⟨rfl, T', hs'.unchanged (hP.write_error hwrite)⟩
  | ok =>
    rintro _ rfl
    obtain ⟨howned, hval, hsame⟩ := hP.write_ok hwrite
    refine ⟨rfl, T, hs.relinked hlink ⟨fun g => (howned g).trans (hm.owned g), ?_⟩
      fun hg => hval ((hm.owned _).mpr hg)⟩
    exact fun g hg j hj => (hsame g ((hm.owned g).mpr hg) j hj).trans (hm.entry g hg j hj)

theorem reclaimTable_spec (hP : P.Lawful V) (hs : Sound V T leaves slpt m) (hr : slpt.At slot r)
    (hdepth : r.cleanupDepth + 1 < r.path.depth) :
    Triple (· = (slpt, m)) (reclaimTable P r) (fun _ t => Reclaimed V leaves slpt t)
      fun _ _ => False := by
  have hshape := hs.shape hr
  obtain ⟨position, hposn⟩ : ∃ position, r.path.depth - 1 - r.cleanupDepth = position + 1 :=
    ⟨r.path.depth - 1 - r.cleanupDepth - 1, by omega⟩
  have hdeptheq := hshape.depth_eq
  have hfrs := hshape.frames_length
  obtain ⟨child, hch⟩ : ∃ child, r.path.frames[position + 1]? = some child :=
    ⟨_, getElem?_eq_getElem (by omega)⟩
  obtain ⟨parent, hpar⟩ : ∃ parent, r.path.frames[position]? = some parent :=
    ⟨_, getElem?_eq_getElem (by omega)⟩
  have hidx : r.path.indices[position]? = some (indexAt slpt.levels r.iova position) := by
    rw [hshape.indices_eq]
    exact getElem_indices r.iova (by omega)
  have hindexLt := indexAt_lt slpt.levels r.iova position
  rw [reclaimTable]
  rw [hposn]
  refine frameAt_then hch ?_
  refine .call_then (tableIsEmpty_spec hP child entriesPerTable 0 (by omega) m) ?_
  rintro result ⟨slpt', m1⟩ ⟨heq, hm1, hemp⟩
  obtain rfl : slpt = slpt' := heq.symm
  have hs1 := hs.unchanged hm1
  have hdone : ∀ {result : Except ReclaimError Bool} {m'}, V.Unchanged m1 m' →
      Triple (· = (slpt, m')) (pure result : SlptM n μ _)
        (fun _ t => Reclaimed V leaves slpt t) fun _ _ => False := by
    intro result m' hm'
    apply Triple.pure
    rintro _ rfl
    exact ⟨rfl, T, hs1.unchanged hm'⟩
  match result with
  | .error e => exact hdone (.refl V m1)
  | .ok false => exact hdone (.refl V m1)
  | .ok true =>
    refine frameAt_then hpar ?_
    refine pathIndex_then hidx ?_
    refine attempt_then fun result m2 hread => ?_
    cases result with
    | error => exact hdone (hP.read_error hread)
    | ok =>
      obtain ⟨hm2, hval⟩ := hP.read_ok hread
      have hs2 := hs1.unchanged hm2
      refine .ite (fun _ => hdone hm2) fun hent => ?_
      have hlink : V.owned m2 parent →
          V.entry m2 parent (indexAt slpt.levels r.iova position) = pointer child := by
        intro hg
        have hg1 := (hm2.owned _).mp hg
        rw [hm2.entry _ hg1, ← hval hg1 hindexLt]
        exact not_not.mp hent
      have hzero : V.owned m2 child → ∀ i < entriesPerTable, V.entry m2 child i = 0 := by
        intro hg i hi
        have hg0 := ((hm1.trans hm2).owned _).mp hg
        rw [(hm1.trans hm2).entry _ hg0]
        exact hemp rfl hg0 i (Nat.zero_le i) (by omega)
      refine attempt_then fun result m3 hwrite => ?_
      cases result with
      | error => exact hdone (hm2.trans (hP.write_error hwrite))
      | ok u =>
        obtain ⟨howned3, hvalue3, hsame3⟩ := hP.write_ok hwrite
        have hbut3 : V.SameBut parent (indexAt slpt.levels r.iova position) m2 m3 :=
          ⟨howned3, hsame3⟩
        refine attempt_then fun result m4 hinv => ?_
        have hm4 : V.Unchanged m3 m4 := by
          have hlaw := hP.invalidate m3 r.iova
          rw [hinv] at hlaw
          exact hlaw
        have hbut4 := hbut3.unchanged hm4
        have hvalue4 : V.owned m2 parent →
            V.entry m4 parent (indexAt slpt.levels r.iova position) = 0 := by
          intro hg
          rw [hm4.entry _ ((hbut3.owned _).mpr hg), hvalue3 hg]
        have hcut : ∃ T', Sound V T' leaves slpt m4 :=
          hs2.unlinked hr (by omega) hpar hch hzero hlink
            (fun g _ hg => (hbut4.owned g).mpr hg) (fun hg _ => hvalue4 hg)
            fun g _ hg => hbut4.entry g hg
        cases result with
        | error => exact relink_spec hP hs2 hlink hbut4 _ hcut
        | ok u =>
          refine attempt_then fun result m5 hrel => ?_
          cases result with
          | error =>
            have hm5 := hP.release_error hrel
            obtain ⟨T', hs4⟩ := hcut
            exact relink_spec hP hs2 hlink (hbut4.unchanged hm5) _ ⟨T', hs4.unchanged hm5⟩
          | ok =>
            obtain ⟨howned5, hsame5⟩ := hP.release_ok hrel
            rintro _ rfl
            refine ⟨rfl, hs2.unlinked hr (by omega) hpar hch hzero hlink ?_ ?_ ?_⟩
            · exact fun g hdiff hg =>
              (howned5 g).mpr ⟨(hbut4.owned g).mpr hg, hdiff⟩
            · intro hg hdiff
              rw [hsame5 _ hdiff ((hbut4.owned _).mpr hg), hvalue4 hg]
            · intro g hdiff hg j hj
              rw [hsame5 _ hdiff ((hbut4.owned _).mpr hg), hbut4.entry g hg j hj]

theorem recordIn_spec (hr : slpt.At slot r) :
    Triple (· = (slpt, m)) (recordIn slot) (fun a t => a = r ∧ t = (slpt, m)) fun _ _ => False := by
  rw [recordIn]
  refine .read_then ?_
  rw [hr]
  exact .pure fun _ h => ⟨rfl, h⟩

theorem reclaimEmptyTables_spec (hP : P.Lawful V) (fuel : ℕ) (slpt : Slpt n) (m : μ)
    (T : Layout SlptFrame) (r : MappingRecord) (hs : Sound V T leaves slpt m) (hr : slpt.At slot r)
    (hunmap : ¬ r.Mapped) (hfuel : 0 < fuel) (hdepth : r.path.depth + 1 ≤ r.cleanupDepth + fuel) :
    Triple (· = (slpt, m)) (reclaimEmptyTables P slot fuel)
      (fun _ t => Intact V t ∧ ∀ r', t.1.At slot r' → ¬ r'.Mapped) fun _ _ => False := by
  induction fuel generalizing slpt m T r with
  | zero => omega
  | succ fuel ih =>
    rw [reclaimEmptyTables]
    have hunmap' : ∀ r', slpt.At slot r' → ¬ r'.Mapped := by
      intro r' hr'
      have heq : r' = r := Option.some.inj (hr'.symm.trans hr)
      rw [heq]
      exact hunmap
    refine .call_then (recordIn_spec hr) ?_
    rintro _ _ ⟨rfl, rfl⟩
    refine .ite (fun _ => ?_) fun hmore => ?_
    · rintro _ rfl
      exact ⟨⟨T, leaves, hs⟩, hunmap'⟩
    refine .call_then (reclaimTable_spec hP hs hr (by omega)) ?_
    rintro result ⟨slpt', m'⟩ ⟨heq, T', hs'⟩
    obtain rfl : slpt = slpt' := heq.symm
    match result with
    | .error e => exact .pure fun t h => h ▸ ⟨⟨T', leaves, hs'⟩, hunmap'⟩
    | .ok false => exact .pure fun t h => h ▸ ⟨⟨T', leaves, hs'⟩, hunmap'⟩
    | .ok true =>
      refine .modify_then ?_
      refine ih _ m' T' _ (hs'.replace hr rfl rfl rfl rfl rfl Iff.rfl (Nat.le_succ _)
        fun hmap => absurd hmap hunmap) (Sound.at_setSlot.mpr (.inl ⟨rfl, rfl⟩))
        hunmap (by omega) ?_
      dsimp only
      omega

/-! ### Taking a mapping away -/

theorem MappingSlot.record_retire (slot : MappingSlot) : slot.retire.record = none := by
  rw [MappingSlot.retire]
  split <;> rfl

theorem cleanUp_spec (hP : P.Lawful V) (hs : Sound V T leaves slpt m) (hr : slpt.At slot r)
    (hunmap : ¬ r.Mapped) (receipt : UnmapReceipt) :
    Triple (· = (slpt, m)) (cleanUp P slot receipt) (fun _ t => Intact V t)
      fun _ t => Intact V t := by
  rw [cleanUp]
  refine .call_then ((recordIn_spec hr).weaken _) ?_
  rintro record _ ⟨rfl, rfl⟩
  refine .call_then ((reclaimEmptyTables_spec hP _ slpt m T record hs hr hunmap (by omega)
    (by omega)).weaken _) ?_
  rintro result ⟨slpt', m'⟩ ⟨⟨T', leaves', hs'⟩, hunmap'⟩
  match result with
  | .error .fatal => exact poison_then (Triple.fail fun _ h => h ▸ ⟨T', leaves', hs'.poisoned⟩)
  | .error (.memory e) => exact .pure fun _ h => h ▸ ⟨T', leaves', hs'⟩
  | .error (.invalidation e) => exact .pure fun _ h => h ▸ ⟨T', leaves', hs'⟩
  | .ok () =>
    rintro _ rfl
    exact ⟨T', leaves', hs'.drop (MappingSlot.record_retire _) hunmap'⟩

variable {E : SlptFault → Slpt n × μ → Prop} {s : Slpt n × μ}

theorem recordOf_spec (handle : MappingHandle) (hE : ∀ fault, E fault s) :
    Triple (· = s) (recordOf handle : SlptM n μ (Fin n × MappingRecord))
      (fun a t => t = s ∧ s.1.At a.1 a.2) E := by
  rw [recordOf]
  split
  · refine .read_then ?_
    refine .refuse_then (fun _ => hE _) fun _ => ?_
    refine .okOr_then (hE _) fun record hrec => ?_
    exact .pure fun t h => ⟨h, hrec⟩
  · exact .fail fun t h => h ▸ hE _

variable {Q : β → Slpt n × μ → Prop}

/-- A call on an operational domain looks up the record of its handle first. -/
theorem recordOf_then {handle : MappingHandle} {f : Fin n × MappingRecord → SlptM n μ β}
    (hE : ∀ fault, E fault s) (h : ∀ slot r, s.1.At slot r → Triple (· = s) (f (slot, r)) Q E) :
    Triple (· = s) (do ensureOperational; f (← recordOf handle)) Q E := by
  refine .call_then (ensureOperational_spec hE) ?_
  rintro _ _ rfl
  refine .call_then (recordOf_spec handle hE) ?_
  rintro ⟨slot, r⟩ _ ⟨rfl, hr⟩
  exact h slot r hr

theorem perform_then {call : μ → Except ℕ α × μ} {f : α → SlptM n μ β}
    (herr : ∀ e m', call s.2 = (.error e, m') → E (.memory e) (s.1, m'))
    (h : ∀ a m', call s.2 = (.ok a, m') → Triple (· = (s.1, m')) (f a) Q E) :
    Triple (· = s) (perform call >>= f) Q E := by
  refine .call_then (R := fun a t => ∃ m', call s.2 = (.ok a, m') ∧ t = (s.1, m')) ?_ ?_
  · rw [perform]
    refine attempt_then fun result m' hcall => ?_
    cases result with
    | ok => exact .pure fun t ht => ⟨m', hcall, ht⟩
    | error e => exact .fail fun t ht => ht ▸ herr e m' hcall
  · rintro a t ⟨m', hcall, rfl⟩
    exact h a m' hcall

section

variable (hP : P.Lawful V)
include hP

section

variable (hs : Sound V T leaves slpt m)
include hs

/-- Taking the leaf out: the ledger changes only with the tables. -/
theorem removeLeaf_spec (hr : slpt.At slot r) (hmap : r.Mapped) :
    Triple (· = (slpt, m)) (removeLeaf P slot r) (fun _ t => Intact V t) fun _ t => Intact V t := by
  have hshape := hs.shape hr
  have hge := hs.levels_ge
  have hdepth := hshape.depth_eq
  have hfrs := hshape.frames_length
  obtain ⟨table, htab⟩ : ∃ table, r.path.frames[slpt.levels - 1]? = some table :=
    ⟨_, getElem?_eq_getElem (by omega)⟩
  have hidx : r.path.indices[slpt.levels - 1]? =
      some (indexAt slpt.levels r.iova (slpt.levels - 1)) := by
    rw [hshape.indices_eq]
    exact getElem_indices r.iova (by omega)
  have hat : T (r.path.indices.take (slpt.levels - 1)) = some table := by
    rw [hs.live hr hmap _ (by omega), htab]
  have hsplit : r.path.indices = r.path.indices.take (slpt.levels - 1) ++
      [indexAt slpt.levels r.iova (slpt.levels - 1)] := by
    rw [hshape.indices_eq, ← take_succ_indices r.iova (by omega), Nat.sub_add_cancel (by omega),
      take_of_length_le (by rw [length_indices])]
  rw [removeLeaf, hdepth]
  refine frameAt_then htab ?_
  refine pathIndex_then hidx ?_
  refine perform_then (fun e m1 hread => ⟨T, leaves, hs.unchanged (hP.read_error hread)⟩)
    fun entry m1 hread => ?_
  have hs1 := hs.unchanged (hP.read_ok hread).1
  refine .ite (fun _ => poison_then (Triple.fail fun _ h => ?_)) fun _ => ?_
  · exact h ▸ ⟨T, leaves, hs1.poisoned⟩
  refine perform_then (fun e m2 hwrite => ⟨T, leaves, hs1.unchanged (hP.write_error hwrite)⟩)
    fun _ m2 hwrite => ?_
  obtain ⟨howned, hval, hsame⟩ := hP.write_ok hwrite
  rintro _ rfl
  exact ⟨T, _, hs1.unmap hr rfl hat hsplit (fun hp => (howned _).mpr (hs1.owned hp))
    (hval (hs1.owned hat)) fun hp j => hsame _ (hs1.owned hp) j⟩

theorem finishUnmap_spec (receipt : UnmapReceipt) :
    Triple (· = (slpt, m)) (finishUnmap P receipt) (fun _ t => Intact V t)
      fun _ t => Intact V t := by
  rw [finishUnmap]
  refine recordOf_then (fun _ => ⟨T, leaves, hs⟩) fun slot r hr => ?_
  refine .ite (fun hph => ?_) fun _ => ?_
  · have hunmap : ¬ r.Mapped := by
      rintro (h | h) <;> rw [hph] at h <;> cases h
    refine attempt_then fun result m1 hinv => ?_
    have hm1 : V.Unchanged m m1 := by
      have hlaw := hP.invalidate m r.iova
      rw [hinv] at hlaw
      exact hlaw
    have hs1 := hs.unchanged hm1
    cases result with
    | error => exact .pure fun t h => h ▸ ⟨T, leaves, hs1⟩
    | ok =>
      have hawaiting : ¬ ({ r with phase := .awaitingCleanup } : MappingRecord).Mapped := by
        rintro (h | h) <;> cases h
      have hs2 : Sound V T leaves (slpt.setSlot slot { slpt.slots slot with
          record := some { r with phase := .awaitingCleanup } }) m1 :=
        hs1.replace hr rfl rfl rfl rfl rfl (iff_of_false hawaiting hunmap) le_rfl
          fun h => absurd h hawaiting
      refine .modify_then ?_
      exact cleanUp_spec hP hs2 (Sound.at_setSlot.mpr (.inl ⟨rfl, rfl⟩)) hawaiting receipt
  · refine .refuse_then (fun _ => ⟨T, leaves, hs⟩) fun hph => ?_
    have hunmap : ¬ r.Mapped := by
      rintro (h | h) <;> rw [not_not.mp hph] at h <;> cases h
    exact cleanUp_spec hP hs hr hunmap receipt

theorem unmapPage_spec (handle : MappingHandle) :
    Triple (· = (slpt, m)) (unmapPage P handle) (fun _ t => Intact V t) fun _ t => Intact V t := by
  rw [unmapPage]
  refine recordOf_then (fun _ => ⟨T, leaves, hs⟩) fun slot r hr => ?_
  refine .refuse_then (fun _ => ⟨T, leaves, hs⟩) fun hph => ?_
  refine .call_then (removeLeaf_spec hP hs hr (.inr (not_not.mp hph))) ?_
  rintro _ ⟨slpt', m'⟩ ⟨T', leaves', hs'⟩
  exact finishUnmap_spec hP hs' ⟨handle⟩

theorem cancelPendingMap_spec (receipt : MapReceipt) :
    Triple (· = (slpt, m)) (cancelPendingMap P receipt) (fun _ t => Intact V t)
      fun _ t => Intact V t := by
  rw [cancelPendingMap]
  refine recordOf_then (fun _ => ⟨T, leaves, hs⟩) fun slot r hr => ?_
  refine .refuse_then (fun _ => ⟨T, leaves, hs⟩) fun hph => ?_
  refine .call_then (removeLeaf_spec hP hs hr (.inl (not_not.mp hph))) ?_
  rintro _ ⟨slpt', m'⟩ ⟨T', leaves', hs'⟩
  exact finishUnmap_spec hP hs' ⟨receipt.handle⟩

theorem finishMap_spec (receipt : MapReceipt) :
    Triple (· = (slpt, m)) (finishMap P receipt) (fun _ t => Intact V t) fun _ t => Intact V t := by
  rw [finishMap]
  refine recordOf_then (fun _ => ⟨T, leaves, hs⟩) fun slot r hr => ?_
  refine .refuse_then (fun _ => ⟨T, leaves, hs⟩) fun hph => ?_
  exact activate_spec hP hs hr (not_not.mp hph) receipt.handle

end

end

end ArachKernel.Vtd
