import ArachKernel.Hw.SlptUnmap

/-!
Runs of a second-level page table: it is attached to an empty root, and then takes any
calls in any order, while the platform fails wherever it likes and its memory changes
outside the tables of the core. In every state of a run the translation of the tables
is the one of the ledger.
-/

namespace ArachKernel.Vtd

open Guarded RadixTree Function

variable {μ : Type} {n : ℕ} {P : Platform μ} {V : View μ} {T : Layout SlptFrame}
  {leaves : List ℕ → ℕ} {slpt : Slpt n} {m m' : μ}

inductive Call
  | mapPage (iova physicalAddress : ℕ) (permissions : DmaPermissions)
  | finishMap (receipt : MapReceipt)
  | unmapPage (handle : MappingHandle)
  | cancelPendingMap (receipt : MapReceipt)
  | finishUnmap (receipt : UnmapReceipt)

/-- The state after a call, whatever it returned. -/
def Call.run (P : Platform μ) : Call → Slpt n × μ → Slpt n × μ
  | .mapPage iova physicalAddress permissions, s =>
    (Vtd.mapPage P iova physicalAddress permissions s).2
  | .finishMap receipt, s => (Vtd.finishMap P receipt s).2
  | .unmapPage handle, s => (Vtd.unmapPage P handle s).2
  | .cancelPendingMap receipt, s => (Vtd.cancelPendingMap P receipt s).2
  | .finishUnmap receipt, s => (Vtd.finishUnmap P receipt s).2

/-- The states of a run. -/
inductive Reached (P : Platform μ) (V : View μ) : Slpt n × μ → Prop
  | attach {root : SlptFrame} {config : SlptConfig} {slpt : Slpt n} {m m' : μ}
      (hroot : V.owned m root)
      (h : Vtd.attach P n root config m = (.ok slpt, m')) : Reached P V (slpt, m')
  | call {s : Slpt n × μ} (before : Reached P V s) (call : Call) : Reached P V (call.run P s)
  | elsewhere {slpt : Slpt n} {m m' : μ} (before : Reached P V (slpt, m))
      (hm : V.Unchanged m m') : Reached P V (slpt, m')

/-! ### Attaching -/

theorem rootEmpty_ok (hP : P.Lawful V) {root : SlptFrame} (remaining index : ℕ)
    (hle : index + remaining ≤ entriesPerTable) (hroot : V.owned m root)
    (h : rootEmpty P root remaining index m = (.ok (), m')) :
    V.Unchanged m m' ∧ ∀ i, index ≤ i → i < index + remaining → V.entry m root i = 0 := by
  induction remaining generalizing index m with
  | zero =>
    cases h
    exact ⟨.refl V _, fun i _ _ => by omega⟩
  | succ remaining ih =>
    rw [rootEmpty] at h
    split at h
    · cases h
    next hread =>
    obtain ⟨hm1, hval⟩ := hP.read_ok hread
    split at h
    · cases h
    next hzero =>
    have hroot1 := (hm1.owned root).mpr hroot
    obtain ⟨hm2, hrest⟩ := ih (index + 1) (by omega) hroot1 h
    refine ⟨hm1.trans hm2, fun i hge hlt => ?_⟩
    by_cases hi : i = index
    · subst hi
      rw [← hval hroot (by omega)]
      exact not_not.mp hzero
    · rw [← hm1.entry root hroot]
      exact hrest i (by omega) (by omega)

theorem SlptConfig.width_of_validate {config : SlptConfig} {width : ℕ}
    (h : config.validate = .ok width) : width = 30 ∨ width = 39 ∨ width = 48 ∨ width = 57 := by
  rw [SlptConfig.validate] at h
  split at h
  · cases h
  next hwidth =>
  split at h
  · cases h
  · cases h
    rw [SlptConfig.adjustedGuestAddressWidth] at hwidth
    split at hwidth <;> cases hwidth <;> omega

/-- A freshly attached table is sound: it has the root and nothing else. -/
theorem attach_sound (hP : P.Lawful V) {root : SlptFrame} {config : SlptConfig}
    (hroot : V.owned m root) (h : attach P n root config m = (.ok slpt, m')) :
    Sound V (fun p => if p = [] then some root else none) (fun _ => 0) slpt m' := by
  rw [attach] at h
  split at h
  · cases h
  split at h
  · cases h
  next hval =>
  split at h
  · cases h
  next hemp =>
  cases h
  obtain ⟨hm, hzero⟩ := rootEmpty_ok hP entriesPerTable 0 (by omega) hroot hemp
  have hwidth := SlptConfig.width_of_validate hval
  have honly : ∀ {p : List ℕ} {f}, (if p = [] then some root else none) = some f →
      p = [] ∧ f = root := by
    intro p f hp
    split at hp
    next hnil => exact ⟨hnil, (Option.some.inj hp).symm⟩
    · cases hp
  have hent : ∀ i < entriesPerTable, V.entry m' root i = 0 := fun i hi => by
    rw [hm.entry root hroot]
    exact hzero i (Nat.zero_le i) (by omega)
  refine ⟨?_, ?_, ?_, if_pos rfl, ?_, ⟨?_, ?_, ?_, ?_, ?_, ?_⟩, ?_, ?_, ?_, ?_, ?_, ?_⟩
  · simp only [pageShift]
    omega
  · simp only [pageShift]
    omega
  · simp only [pageShift]
    omega
  · intro p f hp
    rw [(honly hp).2]
    exact (hm.owned root).mpr hroot
  · intro p q f hp hq
    rw [(honly hp).1, (honly hq).1]
  · intro p i c hc
    exact absurd (honly hc).1 (by simp)
  · intro p i c hc
    exact absurd (honly hc).1 (by simp)
  · intro p f hp
    rw [(honly hp).1, List.length_nil]
    simp only [pageShift]
    omega
  · intro p f i hp _ hi
    rw [(honly hp).2, hent i hi, if_neg (by simp)]
    rfl
  · intro p f i hp _ hi
    rw [(honly hp).2, hent i hi]
  · exact fun hr => absurd hr (by simp [MappingSlot.empty])
  · exact fun hr => absurd hr (by simp [MappingSlot.empty])
  · exact fun hr => absurd hr (by simp [MappingSlot.empty])
  · exact fun _ => rfl
  · exact fun hr => absurd hr (by simp [MappingSlot.empty])
  · exact fun hr => absurd hr (by simp [MappingSlot.empty])

/-! ### Runs -/

theorem Call.run_intact (hP : P.Lawful V) (call : Call) {s : Slpt n × μ} (h : Intact V s) :
    Intact V (call.run P s) := by
  obtain ⟨T, leaves, hs⟩ := h
  cases call with
  | mapPage iova physicalAddress permissions =>
    exact (mapPage_spec hP hs iova physicalAddress permissions).final (fun _ _ h => h)
      fun _ _ h => h.intact
  | finishMap receipt => exact (finishMap_spec hP hs receipt).final (fun _ _ h => h) fun _ _ h => h
  | unmapPage handle => exact (unmapPage_spec hP hs handle).final (fun _ _ h => h) fun _ _ h => h
  | cancelPendingMap receipt =>
    exact (cancelPendingMap_spec hP hs receipt).final (fun _ _ h => h) fun _ _ h => h
  | finishUnmap receipt =>
    exact (finishUnmap_spec hP hs receipt).final (fun _ _ h => h) fun _ _ h => h

theorem Reached.intact (hP : P.Lawful V) {s : Slpt n × μ} (h : Reached P V s) : Intact V s := by
  induction h with
  | attach hroot h => exact ⟨_, _, attach_sound hP hroot h⟩
  | call before call ih => exact call.run_intact hP ih
  | elsewhere before hm ih =>
    obtain ⟨T, leaves, hs⟩ := ih
    exact ⟨T, leaves, hs.unchanged hm⟩

/-! ### A platform -/

/-- Table memory in which calls fail as a list of faults says. -/
structure Bank where
  tables : SlptFrame → ℕ → ℕ
  held : List SlptFrame
  next : ℕ
  faults : List Bool

namespace Bank

def view : View Bank := ⟨fun b f => f ∈ b.held, fun b f i => b.tables f i⟩

/-- A call that takes the next fault. -/
def call {α : Type} (effect : Bank → Except ℕ α × Bank) (b : Bank) : Except ℕ α × Bank :=
  match b.faults with
  | true :: rest => (.error 0, { b with faults := rest })
  | false :: rest => effect { b with faults := rest }
  | [] => effect b

def platform : Platform Bank where
  allocateTable := call fun b =>
    match SlptFrame.fromPhysicalAddress (pageSize * b.next) with
    | some f => if f ∈ b.held then (.error 1, b) else
        (.ok f, { b with held := f :: b.held, next := b.next + 1 })
    | none => (.error 1, b)
  zeroTable f := call fun b => (.ok (), { b with tables := update b.tables f fun _ => 0 })
  readEntry f i b := (.ok (b.tables f i), b)
  writeEntry f i v := call fun b =>
    (.ok (), { b with tables := update b.tables f (update (b.tables f) i v) })
  releaseTable f := call fun b => (.ok (), { b with held := b.held.filter (· ≠ f) })
  invalidate _ := call fun b => (.ok (), b)

variable {b b' : Bank}

/-- A call fails and changes nothing, or has its effect. -/
theorem call_cases {α : Type} {effect : Bank → Except ℕ α × Bank}
    {result : Except ℕ α} (h : call effect b = (result, b')) :
    (∃ e, result = .error e) ∧ view.Unchanged b b' ∨
      ∃ b₁ : Bank, b₁.tables = b.tables ∧ b₁.held = b.held ∧ effect b₁ = (result, b') := by
  rw [call] at h
  split at h
  · cases h
    exact .inl ⟨⟨0, rfl⟩, fun _ => Iff.rfl, fun _ _ _ => rfl⟩
  next rest _ => exact .inr ⟨{ b with faults := rest }, rfl, rfl, h⟩
  · exact .inr ⟨b, rfl, rfl, h⟩

theorem call_error {effect : Bank → Bank} {e : ℕ}
    (h : call (fun b => (.ok (), effect b)) b = (.error e, b')) : view.Unchanged b b' := by
  obtain ⟨-, hb⟩ | ⟨b₁, -, -, heff⟩ := call_cases h
  · exact hb
  · cases heff

theorem call_ok {effect : Bank → Bank} (h : call (fun b => (.ok (), effect b)) b = (.ok (), b')) :
    ∃ b₁ : Bank, b₁.tables = b.tables ∧ b₁.held = b.held ∧ b' = effect b₁ := by
  obtain ⟨⟨e, he⟩, -⟩ | ⟨b₁, htabs, hheld, heff⟩ := call_cases h
  · cases he
  · cases heff
    exact ⟨b₁, htabs, hheld, rfl⟩

theorem lawful : platform.Lawful view where
  allocate_ok := by
    intro b b' f h
    dsimp only [platform] at h
    obtain ⟨⟨e, he⟩, -⟩ | ⟨b₁, htabs, hheld, heff⟩ := call_cases h
    · cases he
    · split at heff
      · split at heff
        next => cases heff
        next hfresh =>
        cases heff
        refine ⟨fun howned => hfresh (hheld ▸ howned), fun g => ?_, fun g _ i => ?_⟩
        · simp only [view, List.mem_cons, hheld]
          exact or_comm
        · simp [view, htabs]
      · cases heff
  allocate_error := by
    intro b b' e h
    dsimp only [platform] at h
    obtain ⟨-, hb⟩ | ⟨b₁, htabs, hheld, heff⟩ := call_cases h
    · exact hb
    · have hsame : b' = b₁ := by
        split at heff
        · split at heff
          next =>
            cases heff
            rfl
          next => cases heff
        · cases heff
          rfl
      subst hsame
      exact ⟨fun g => by simp only [view, hheld], fun g _ i => by simp only [view, htabs]⟩
  zero_ok := by
    intro b b' f h
    dsimp only [platform] at h
    obtain ⟨b₁, htabs, hheld, rfl⟩ := call_ok h
    refine ⟨fun g => by simp only [view, hheld], fun _ i _ => ?_, fun g hg _ i => ?_⟩
    · simp [view]
    · simp [view, update_of_ne hg, htabs]
  zero_error := by
    intro b b' f e h
    dsimp only [platform] at h
    exact call_error h
  read_ok := by
    intro b b' f i v h
    cases h
    exact ⟨.refl view b, fun _ _ => rfl⟩
  read_error := by
    intro b b' f i e h
    cases h
  write_ok := by
    intro b b' f i v h
    dsimp only [platform] at h
    obtain ⟨b₁, htabs, hheld, rfl⟩ := call_ok h
    refine ⟨fun g => by simp only [view, hheld], fun _ => ?_, fun g _ j hj => ?_⟩
    · simp [view]
    · by_cases hg : g = f
      · subst hg
        simp [view, update_self, update_of_ne (hj rfl), htabs]
      · simp [view, update_of_ne hg, htabs]
  write_error := by
    intro b b' f i v e h
    dsimp only [platform] at h
    exact call_error h
  release_ok := by
    intro b b' f h
    dsimp only [platform] at h
    obtain ⟨b₁, htabs, hheld, rfl⟩ := call_ok h
    refine ⟨fun g => ?_, fun g _ _ i => by simp only [view, htabs]⟩
    simp only [view, hheld, List.mem_filter, decide_eq_true_eq]
  release_error := by
    intro b b' f e h
    dsimp only [platform] at h
    exact call_error h
  invalidate := by
    intro b iova
    simp only [platform, call]
    split <;> exact ⟨fun _ => Iff.rfl, fun _ _ _ => rfl⟩

def root : SlptFrame := ⟨pageSize, by decide⟩

/-- An empty root. The invalidation after the first mapping and the allocation for the
second one fail. -/
def start : Bank := ⟨fun _ _ => 0, [root], 2, [false, false, false, false, true, true]⟩

def attached : Slpt 2 := ⟨root, 30, 2, fun _ => .empty, .operational⟩

theorem rootEmpty_start (remaining index : ℕ) :
    rootEmpty platform root remaining index start = (.ok (), start) := by
  induction remaining generalizing index with
  | zero => rfl
  | succ remaining ih => exact ih (index + 1)

theorem attach_start : attach platform 2 root ⟨1, 30, 0⟩ start = (.ok attached, start) := by
  have hemp := rootEmpty_start entriesPerTable 0
  simp only [attach, hemp]
  rfl

def mapped : Slpt 2 × Bank :=
  (Call.mapPage 0x200000 0x5000 ⟨true, true⟩).run platform (attached, start)

def refused : Slpt 2 × Bank := (Call.mapPage 0x400000 0x6000 ⟨true, false⟩).run platform mapped

theorem reached_refused : Reached platform view refused :=
  ((Reached.attach (List.mem_cons_self ..) attach_start).call _).call _

end Bank

/-! ### The translation -/

/-- In every state of a run the tables translate as the ledger says, and a failed
`map_page` leaves the translation as it was. -/
theorem translation_is_ledger (hP : P.Lawful V) {s : Slpt n × μ} (h : Reached P V s) (iova : ℕ)
    (haligned : iova % pageSize = 0) (hlt : iova < 2 ^ s.1.adjustedWidth) :
    translate V s.1 s.2 iova = ledger s.1 iova ∧ ∀ iova' physicalAddress permissions fault t,
        mapPage P iova' physicalAddress permissions s = (.error fault, t) →
          translate V t.1 t.2 iova = translate V s.1 s.2 iova := by
  obtain ⟨T, leaves, hs⟩ := h.intact hP
  have hbef := hs.translate_eq_ledger haligned hlt
  refine ⟨hbef, fun iova' physicalAddress permissions fault t hrun => ?_⟩
  have hfailed := (mapPage_spec hP hs iova' physicalAddress permissions).error_of hrun
  rw [hfailed.translate_eq_ledger haligned hlt, hbef]

theorem translation_of_pending :
    translate Bank.view Bank.refused.1 Bank.refused.2 0x200000 = some (0x5000, 3) := by
  have h := translation_is_ledger Bank.lawful Bank.reached_refused 0x200000 (by decide) (by decide)
  exact h.1.trans (by decide +kernel)

end ArachKernel.Vtd
