import ArachKernel.Hw.SlptTree

/-!
`map_page` keeps the tables sound. While a path is built the new tables are linked
one after the other; the links made so far are remembered together with the layout
before each of them, which is what a rollback restores.

An operation that cannot put things right again poisons the table. The tables are sound
even then: a rollback that stops half way leaves tables that lead nowhere.
-/

namespace ArachKernel.Vtd

open Guarded RadixTree Function List

variable {μ : Type} {n : ℕ} {P : Platform μ} {V : View μ} {T : Layout SlptFrame}
  {leaves : List ℕ → ℕ} {slpt : Slpt n} {m : μ} {α β : Type}
  {E : SlptFault → Slpt n × μ → Prop} {s : Slpt n × μ} {Q : β → Slpt n × μ → Prop}

theorem attempt_then {call : μ → Except ℕ α × μ} {f : Except ℕ α → SlptM n μ β}
    (h : ∀ result m', call s.2 = (result, m') → Triple (· = (s.1, m')) (f result) Q E) :
    Triple (· = s) (attempt call >>= f) Q E := by
  rintro _ rfl
  exact h _ _ rfl _ rfl

/-- The table after `poison`. -/
def Slpt.poisoned (slpt : Slpt n) : Slpt n := { slpt with state := .poisoned }

theorem Sound.poisoned (h : Sound V T leaves slpt m) : Sound V T leaves slpt.poisoned m :=
  { h with }

/-- Nothing has happened to the ledger, and the tables are those of the layout. -/
def Kept (V : View μ) (T : Layout SlptFrame) (leaves : List ℕ → ℕ) (slpt : Slpt n)
    (s : Slpt n × μ) : Prop :=
  s.1 = slpt ∧ Sound V T leaves slpt s.2

/-- Nothing has happened to the ledger and the leaves, but the table may be poisoned. -/
def Unmoved (V : View μ) (leaves : List ℕ → ℕ) (slpt : Slpt n) (s : Slpt n × μ) : Prop :=
  (s.1 = slpt ∨ s.1 = slpt.poisoned) ∧ ∃ T, Sound V T leaves slpt s.2

theorem Unmoved.poison (h : Unmoved V leaves slpt s) :
    Unmoved V leaves slpt (s.1.poisoned, s.2) := by
  obtain ⟨heq | heq, hs⟩ := h
  · exact ⟨.inr (by rw [heq]), hs⟩
  · exact ⟨.inr (by rw [heq]; rfl), hs⟩

theorem Unmoved.of_poisoned (h : Unmoved V leaves slpt.poisoned s) : Unmoved V leaves slpt s := by
  obtain ⟨heq | heq, T, hs⟩ := h
  · exact ⟨.inr heq, T, { hs with }⟩
  · exact ⟨.inr heq, T, { hs with }⟩

theorem Kept.unmoved (h : Kept V T leaves slpt s) : Unmoved V leaves slpt s :=
  ⟨.inl h.1, T, h.2⟩

theorem poison_then {g : Unit → SlptM n μ β}
    (h : Triple (· = (s.1.poisoned, s.2)) (g ()) Q E) : Triple (· = s) (poison >>= g) Q E :=
  Triple.modify_then h

/-! ### Building a path -/

variable {child : SlptFrame}

theorem undoAllocation_spec (hP : P.Lawful V) (hs : Sound V T leaves slpt m)
    (hfresh : ∀ p, T p ≠ some child) (error : ℕ) :
    Triple (· = (slpt, m)) (undoAllocation P child error : SlptM n μ (Except SlptFault α))
      (fun result t => (∃ fault, result = .error fault) ∧ Kept V T leaves slpt t)
      fun _ _ => False := by
  rw [undoAllocation]
  refine attempt_then fun result m' hcall => ?_
  cases result with
  | ok =>
    rintro _ rfl
    obtain ⟨howned, hent⟩ := hP.release_ok hcall
    refine ⟨⟨_, rfl⟩, rfl, hs.of_entry_eq ?_ ?_⟩
    · intro p f hp
      exact (howned f).mpr ⟨hs.owned hp, fun heq => hfresh p (heq ▸ hp)⟩
    · intro p f hp
      exact hent f (fun heq => hfresh p (heq ▸ hp)) (hs.owned hp)
  | error =>
    rintro _ rfl
    exact ⟨⟨_, rfl⟩, rfl, hs.unchanged (hP.release_error hcall)⟩

variable {slot : Fin n}

theorem not_mem_of_unknown (hs : Sound V T leaves slpt m)
    (h : frameIsKnown slpt child = false) {r : MappingRecord}
    (hr : slpt.At slot r) : child ∉ r.path.frames.take (slpt.levels - r.cleanupDepth) := by
  intro hmem
  rw [frameIsKnown, Bool.or_eq_false_iff, any_eq_false] at h
  apply h.2 slot (mem_finRange slot)
  rw [hr, Option.any_some, (hs.shape hr).depth_eq]
  exact contains_iff_mem.mpr hmem

/-- The outcomes of `childTable`: an error that left the tables as they were, the table
that was there, or a new one that is linked now. -/
def ChildSpec (V : View μ) (T : Layout SlptFrame) (leaves : List ℕ → ℕ) (slpt : Slpt n)
    (q : List ℕ) (i : ℕ) (parent : SlptFrame) :
    Except SlptFault (SlptFrame × List NewLink) → Slpt n × μ → Prop
  | .error _, t => Kept V T leaves slpt t ∨ Kept V T leaves slpt.poisoned t
  | .ok (child, new), t =>
    new = [] ∧ T (q ++ [i]) = some child ∧ Kept V T leaves slpt t ∨
    new = [⟨parent, i, child⟩] ∧ T (q ++ [i]) = none ∧
      Kept V (Function.update T (q ++ [i]) (some child)) leaves slpt t

theorem childTable_spec (hP : P.Lawful V) (hs : Sound V T leaves slpt m) {q : List ℕ} {i : ℕ}
    {parent : SlptFrame} (hpar : T q = some parent) (hlevel : q.length + 1 < slpt.levels)
    (hi : i < entriesPerTable) (frames : List SlptFrame) :
    Triple (· = (slpt, m)) (childTable P parent i frames (link (T (q ++ [i]))))
      (ChildSpec V T leaves slpt q i parent) fun _ _ => False := by
  rw [childTable]
  refine .ite (fun hzero => ?_) fun hzero => ?_
  · have hfree : T (q ++ [i]) = none := link_eq_zero.mp hzero
    refine attempt_then fun result m1 halloc => ?_
    cases result with
    | error =>
      rintro _ rfl
      exact .inl ⟨rfl, hs.unchanged (hP.allocate_error halloc)⟩
    | ok child =>
      obtain ⟨hnew, howned1, hentry1⟩ := hP.allocate_ok halloc
      have hfresh : ∀ p, T p ≠ some child := fun p hp => hnew (hs.owned hp)
      have hs1 : Sound V T leaves slpt m1 :=
        hs.of_entry_eq (fun hp => (howned1 _).mpr (.inl (hs.owned hp)))
          fun hp i => hentry1 _ (hs.owned hp) i
      refine .read_then ?_
      refine .ite (fun _ => poison_then (Triple.pure fun t ht => ?_)) fun hknown => ?_
      · exact ht ▸ .inr ⟨rfl, hs1.poisoned⟩
      simp only [not_or, Bool.not_eq_true] at hknown
      refine attempt_then fun result m2 hzeroed => ?_
      cases result with
      | error e =>
        refine (undoAllocation_spec hP (hs1.unchanged (hP.zero_error hzeroed)) hfresh e).mono
          (fun _ h => h) ?_
        rintro _ t ⟨⟨fault, rfl⟩, ht⟩
        exact .inl ht
      | ok u =>
        obtain ⟨howned2, hemp, hentry2⟩ := hP.zero_ok hzeroed
        have hne : ∀ {p f}, T p = some f → f ≠ child := by
          rintro p f hp rfl
          exact hfresh p hp
        have hs2 : Sound V T leaves slpt m2 :=
          hs1.of_entry_eq (fun hp => (howned2 _).mpr (hs1.owned hp))
            fun hp i => hentry2 _ (hne hp) (hs1.owned hp) i
        have hchild2 : V.owned m2 child :=
          (howned2 child).mpr ((howned1 child).mpr (.inr rfl))
        refine attempt_then fun result m3 hwrite => ?_
        cases result with
        | error e =>
          refine (undoAllocation_spec hP (hs2.unchanged (hP.write_error hwrite)) hfresh
            e).mono (fun _ h => h) ?_
          rintro _ t ⟨⟨fault, rfl⟩, ht⟩
          exact .inl ht
        | ok =>
          obtain ⟨howned3, hlink, hentry3⟩ := hP.write_ok hwrite
          rintro _ rfl
          refine .inr ⟨rfl, hfree, rfl, ?_⟩
          refine hs2.link_child hpar hfree hlevel hi hfresh
            (fun slot r hr => not_mem_of_unknown hs2 hknown.2.1 hr)
            (fun hp => (howned3 _).mpr (hs2.owned hp)) ((howned3 _).mpr hchild2)
            (hlink (hs2.owned hpar)) (fun hp j => hentry3 _ (hs2.owned hp) j) ?_
          intro j hj
          rw [hentry3 child hchild2 j fun heq => absurd heq.symm (hne hpar)]
          exact hemp ((howned1 child).mpr (.inr rfl)) j hj
  · split
    · exact poison_then (Triple.pure fun t ht => ht ▸ .inr ⟨rfl, hs.poisoned⟩)
    next child hdec =>
    have hch : T (q ++ [i]) = some child := by
      rw [← nextTable_link (T (q ++ [i]))]
      exact nextTable_of_decode hdec
    refine .read_then ?_
    refine .ite (fun _ => ?_) fun _ => poison_then (Triple.pure fun t ht => ?_)
    · rintro _ rfl
      exact .inl ⟨rfl, hch, rfl, hs⟩
    · exact ht ▸ .inr ⟨rfl, hs.poisoned⟩

/-- The links made since the layout `T₀`, the newest first, and the layout they lead
to. -/
inductive Built (slpt : Slpt n) (T₀ : Layout SlptFrame) :
    List NewLink → Layout SlptFrame → Prop
  | nil : Built slpt T₀ [] T₀
  | cons {links T q i parent child} (before : Built slpt T₀ links T)
      (hparent : T q = some parent) (hfree : T (q ++ [i]) = none)
      (hbelow : ∀ j, T (q ++ [i] ++ [j]) = none) (hfresh : ∀ p, T p ≠ some child)
      (havoid : ∀ slot r, slpt.At slot r → r.Mapped → ∀ j < slpt.levels,
        r.path.indices.take j ≠ q ++ [i]) :
      Built slpt T₀ (⟨parent, i, child⟩ :: links) (Function.update T (q ++ [i]) (some child))

variable {T₀ : Layout SlptFrame} {links : List NewLink}

theorem Built.poisoned (h : Built slpt T₀ links T) : Built slpt.poisoned T₀ links T := by
  induction h with
  | nil => exact .nil
  | cons before hpar hfree hbelow hfresh havoid ih =>
    exact .cons ih hpar hfree hbelow hfresh havoid

/-- Rolling the links back restores the layout they started from. A rollback that stops
leaves a layout too. -/
theorem rollbackNewLinks_spec (hP : P.Lawful V)
    (hbuilt : Built slpt T₀ links T) (m : μ) (hs : Sound V T leaves slpt m) :
    Triple (· = (slpt, m)) (rollbackNewLinks P links)
      (fun undone t => if undone then Kept V T₀ leaves slpt t else
        ∃ T', Kept V T' leaves slpt t) fun _ _ => False := by
  induction hbuilt generalizing m with
  | nil =>
    rintro _ rfl
    exact ⟨rfl, hs⟩
  | @cons links T q i parent child before hpar hfree hbelow hfresh havoid ih =>
    rw [rollbackNewLinks]
    refine attempt_then fun result m1 hwrite => ?_
    cases result with
    | error => exact .pure fun t ht => ht ▸ ⟨_, rfl, hs.unchanged (hP.write_error hwrite)⟩
    | ok u =>
      obtain ⟨howned1, hcleared, hentry1⟩ := hP.write_ok hwrite
      have hoth : ∀ {p}, p ≠ q ++ [i] → update T (q ++ [i]) (some child) p = T p :=
        fun hp => update_of_ne hp _ _
      have hpar' : update T (q ++ [i]) (some child) q = some parent := by
        rw [hoth (by simp)]
        exact hpar
      have hs1 : Sound V T leaves slpt m1 := by
        have hunlinked : Sound V (update (update T (q ++ [i]) (some child))
            (q ++ [i]) none) leaves slpt m1 := hs.unlink_child hpar' (update_self ..)
          (fun j => by
            rw [hoth (by simp)]
            exact hbelow j)
          havoid (fun hp _ => (howned1 _).mpr (hs.owned hp)) (hcleared (hs.owned hpar'))
          fun hp _ j => hentry1 _ (hs.owned hp) j
        rw [update_idem, ← hfree, update_eq_self] at hunlinked
        exact hunlinked
      refine attempt_then fun result m2 hrel => ?_
      cases result with
      | ok =>
        obtain ⟨howned2, hentry2⟩ := hP.release_ok hrel
        have hne : ∀ {p f}, T p = some f → f ≠ child := by
          rintro p f hp rfl
          exact hfresh p hp
        exact ih m2 (hs1.of_entry_eq (fun hp => (howned2 _).mpr ⟨hs1.owned hp, hne hp⟩)
          fun hp => hentry2 _ (hne hp) (hs1.owned hp))
      | error e =>
        have hs2 := hs1.unchanged (hP.release_error hrel)
        refine attempt_then fun result m3 hrelink => ?_
        refine .pure fun t ht => ht ▸ ?_
        cases result with
        | error => exact ⟨T, rfl, hs2.unchanged (hP.write_error hrelink)⟩
        | ok =>
          obtain ⟨howned3, hval, hentry3⟩ := hP.write_ok hrelink
          have hm2 := View.SameBut.unchanged ⟨howned1, hentry1⟩ (hP.release_error hrel)
          refine ⟨_, rfl, hs.relinked (hs.link_eq hpar' (update_self ..))
            ⟨fun g => (howned3 g).trans (hm2.owned g), ?_⟩ ?_⟩
          · intro g hg j hj
            rw [hentry3 g ((hm2.owned g).mpr hg) j hj, hm2.entry g hg j hj]
          · exact fun hg => hval ((hm2.owned _).mpr hg)

theorem abandon_spec (hP : P.Lawful V)
    (hbuilt : Built slpt T₀ links T) (hs : Sound V T leaves slpt m) :
    Triple (· = (slpt, m)) (abandon P links) (fun _ t => Kept V T₀ leaves slpt t)
      fun _ t => Unmoved V leaves slpt t := by
  rw [abandon]
  have hrollback := (rollbackNewLinks_spec hP hbuilt m hs).weaken fun _ t => Unmoved V leaves slpt t
  refine .call_then hrollback fun undone t hundone => ?_
  cases undone with
  | true =>
    rintro _ rfl
    exact hundone
  | false =>
    obtain ⟨T', rfl, hs'⟩ := hundone
    exact poison_then (Triple.fail fun t ht => ht ▸ ⟨.inr rfl, T', hs'⟩)

/-- The tables along the indices of an address, up to a position. -/
def OnPath (T : Layout SlptFrame) (path : List ℕ) (frames : List SlptFrame) : Prop :=
  ∀ k < frames.length, T (path.take k) = frames[k]?

/-- The outcomes of `buildPath`. -/
def PathSpec (V : View μ) (leaves : List ℕ → ℕ) (slpt : Slpt n) (T₀ : Layout SlptFrame) (iova : ℕ)
    (result : Except SlptFault (List SlptFrame) × List NewLink) (t : Slpt n × μ) : Prop :=
  ∃ T, Built slpt T₀ result.2 T ∧
    match result.1 with
    | .error _ => Kept V T leaves slpt t ∨ Kept V T leaves slpt.poisoned t
    | .ok frames => Kept V T leaves slpt t ∧ frames.length = slpt.levels ∧
        OnPath T (indices slpt.levels iova) frames

theorem take_succ_indices {levels position : ℕ} (iova : ℕ) (h : position < levels) :
    (indices levels iova).take (position + 1) =
      (indices levels iova).take position ++ [indexAt levels iova position] := by
  have hlen : position < (indices levels iova).length := by
    rw [length_indices]
    exact h
  rw [take_succ_eq_append_getElem hlen]
  congr 2
  have hget := getElem_indices iova h
  rw [getElem?_eq_getElem hlen] at hget
  exact Option.some.inj hget

variable {frames : List SlptFrame} {iova physicalAddress : ℕ} {path : PagePath}

theorem OnPath.append {path : List ℕ} (h : OnPath T path frames)
    (hch : T (path.take frames.length) = some child) : OnPath T path (frames ++ [child]) := by
  intro k hk
  rw [length_append] at hk
  obtain rfl | hlt := Nat.eq_or_lt_of_le (Nat.lt_succ_iff.mp hk)
  · rw [hch, getElem?_append_right le_rfl, Nat.sub_self]
    rfl
  · rw [h k hlt, getElem?_append_left hlt]

/-- One step down: the child that was found or linked continues the path. -/
theorem ChildSpec.extend {position : ℕ} {parent : SlptFrame} {new : List NewLink} {t : Slpt n × μ}
    (h : ChildSpec V T leaves slpt ((indices slpt.levels iova).take position)
      (indexAt slpt.levels iova position) parent (.ok (child, new)) t)
    (hs : Sound V T leaves slpt m) (hbuilt : Built slpt T₀ links T)
    (hposn : position < slpt.levels) (hlength : frames.length = position + 1)
    (hpar : T ((indices slpt.levels iova).take position) = some parent)
    (hpath : OnPath T (indices slpt.levels iova) frames) :
    ∃ T', Built slpt T₀ (new ++ links) T' ∧ Kept V T' leaves slpt t ∧
      OnPath T' (indices slpt.levels iova) (frames ++ [child]) := by
  have htake := take_succ_indices iova hposn
  rw [← hlength] at htake
  obtain ⟨rfl, hold, hkept⟩ | ⟨rfl, hfree, hkept⟩ := h
  · refine ⟨T, hbuilt, hkept, hpath.append ?_⟩
    rw [htake]
    exact hold
  · set q := (indices slpt.levels iova).take position with hq
    set i := indexAt slpt.levels iova position
    have hself : update T (q ++ [i]) (some child) (q ++ [i]) = some child :=
      update_self ..
    have hoth : ∀ {p}, p ≠ q ++ [i] → update T (q ++ [i]) (some child) p = T p :=
      fun hp => update_of_ne hp _ _
    refine ⟨_, Built.cons hbuilt hpar hfree ?_ ?_ ?_, hkept, OnPath.append ?_ ?_⟩
    · intro j
      cases hj : T (q ++ [i] ++ [j]) with
      | none => rfl
      | some =>
        obtain ⟨f, hf⟩ := hs.tree.closed hj
        simp [hfree] at hf
    · intro p hp
      by_cases hpe : p = q ++ [i]
      · simp [hpe, hfree] at hp
      · exact hpe (hkept.2.tree.inj ((hoth hpe).trans hp) hself)
    · intro slot r hr hmap j hj
      exact hs.mapped_avoids hfree hr hmap j hj
    · intro k hk
      rw [hoth ?_, hpath k hk]
      intro heq
      have hlen := congrArg length heq
      simp only [hq, length_take, length_append, length_singleton] at hlen
      omega
    · rw [htake]
      exact hself

theorem buildPath_spec (hP : P.Lawful V) (iova remaining : ℕ) (position : ℕ) (parent : SlptFrame)
    (frames : List SlptFrame) (links : List NewLink) (T : Layout SlptFrame) (m : μ)
    (hbuilt : Built slpt T₀ links T) (hs : Sound V T leaves slpt m)
    (hposn : position + 1 + remaining = slpt.levels) (hlength : frames.length = position + 1)
    (hpar : frames[position]? = some parent) (hpath : OnPath T (indices slpt.levels iova) frames) :
    Triple (· = (slpt, m)) (buildPath P slpt.levels iova remaining position parent frames links)
      (PathSpec V leaves slpt T₀ iova) fun _ _ => False := by
  induction remaining generalizing position parent frames links T m with
  | zero =>
    rintro _ rfl
    exact ⟨T, hbuilt, ⟨rfl, hs⟩, by omega, hpath⟩
  | succ remaining ih =>
    rw [buildPath]
    have hat : T ((indices slpt.levels iova).take position) = some parent := by
      rw [hpath position (by omega), hpar]
    have hlen : ((indices slpt.levels iova).take position).length = position := by
      rw [length_take, length_indices]
      omega
    have hidx : indexAt slpt.levels iova position < entriesPerTable := indexAt_lt _ _ _
    refine attempt_then fun result m1 hread => ?_
    cases result with
    | error =>
      rintro _ rfl
      exact ⟨T, hbuilt, .inl ⟨rfl, hs.unchanged (hP.read_error hread)⟩⟩
    | ok entry =>
      obtain ⟨hunch, hval⟩ := hP.read_ok hread
      have hs1 := hs.unchanged hunch
      have hent : entry = link (T ((indices slpt.levels iova).take position ++
          [indexAt slpt.levels iova position])) := by
        rw [hval (hs.owned hat) hidx]
        exact hs.tree.node hat (by omega) hidx
      subst hent
      have hch := childTable_spec hP hs1 hat (by omega) hidx frames
      refine .call_then hch fun result t hret => ?_
      match result, hret with
      | .error fault, hret =>
        rintro _ rfl
        exact ⟨T, hbuilt, hret⟩
      | .ok (child, new), hret =>
        obtain ⟨T', hbuilt', ⟨heq, hs2⟩, hpath'⟩ :=
          hret.extend hs1 hbuilt (by omega) hlength hat hpath
        obtain ⟨slpt', m2⟩ := t
        obtain rfl : slpt = slpt' := heq.symm
        refine .ite (fun _ => ?_) fun _ => ?_
        · refine poison_then (Triple.pure fun t ht => ht ▸ ?_)
          exact ⟨T', hbuilt', .inr ⟨rfl, hs2.poisoned⟩⟩
        refine ih (position + 1) child _ _ T' m2 hbuilt' hs2 (by omega) ?_ ?_ hpath'
        · rw [length_append, hlength, length_singleton]
        · rw [getElem?_append_right (by omega), hlength, Nat.sub_self]
          rfl

/-! ### Publishing the leaf -/

/-- The tables are sound, for some layout. -/
def Intact (V : View μ) (s : Slpt n × μ) : Prop := ∃ T leaves, Sound V T leaves s.1 s.2

theorem frameAt_then {k : ℕ} {f : SlptFrame} {g : SlptFrame → SlptM n μ β}
    (hf : path.frames[k]? = some f) (h : Triple (· = s) (g f) Q E) :
    Triple (· = s) (frameAt path k >>= g) Q E := by
  rw [frameAt, hf]
  exact h

theorem pathIndex_then {k i : ℕ} {g : ℕ → SlptM n μ β} (hi : path.indices[k]? = some i)
    (h : Triple (· = s) (g i) Q E) : Triple (· = s) (pathIndex path k >>= g) Q E := by
  rw [pathIndex, hi]
  exact h

theorem activate_spec (hP : P.Lawful V) (hs : Sound V T leaves slpt m) {r : MappingRecord}
    (hr : slpt.At slot r) (hph : r.phase = .awaitingMapInvalidation) (handle : MappingHandle) :
    Triple (· = (slpt, m)) (activate P slot r handle) (fun _ t => Intact V t) E := by
  rw [activate]
  refine attempt_then fun result m1 hcall => ?_
  have hunch : V.Unchanged m m1 := by
    have hlaw := hP.invalidate m r.iova
    rw [hcall] at hlaw
    exact hlaw
  have hs1 := hs.unchanged hunch
  cases result with
  | ok =>
    rintro _ rfl
    refine ⟨T, leaves, hs1.replace hr rfl rfl rfl rfl rfl ?_ le_rfl fun _ => rfl⟩
    exact ⟨fun _ => .inl hph, fun _ => .inr rfl⟩
  | error =>
    rintro _ rfl
    exact ⟨T, leaves, hs1⟩

theorem publishLeaf_spec (hP : P.Lawful V) (hbuilt : Built slpt T₀ links T)
    (hs : Sound V T leaves slpt m) (hfree : (slpt.slots slot).record = none) {bits : ℕ}
    (hfrs : frames.length = slpt.levels) (hpath : OnPath T (indices slpt.levels iova) frames)
    (hiova : iova % pageSize = 0) (hiovaLt : iova < 2 ^ (pageShift + 9 * slpt.levels))
    (hphys : physicalAddress % pageSize = 0) (hphysicalLt : physicalAddress < 2 ^ 52)
    (hbits : 0 < bits ∧ bits < 4) (hdist : ∀ slot' r, slpt.At slot' r → r.iova ≠ iova) :
    Triple (· = (slpt, m)) (publishLeaf P slot iova physicalAddress bits
      ⟨frames, indices slpt.levels iova, slpt.levels⟩ links)
      (fun _ t => Intact V t) fun _ t => Unmoved V leaves slpt t := by
  have hge := hs.levels_ge
  have hleafTable : ∃ table, frames[slpt.levels - 1]? = some table :=
    ⟨_, getElem?_eq_getElem (by omega)⟩
  obtain ⟨table, htab⟩ := hleafTable
  have hat : T ((indices slpt.levels iova).take (slpt.levels - 1)) = some table := by
    rw [hpath _ (by omega), htab]
  have hsplit : indices slpt.levels iova = (indices slpt.levels iova).take (slpt.levels - 1) ++
      [indexAt slpt.levels iova (slpt.levels - 1)] := by
    rw [← take_succ_indices iova (by omega), Nat.sub_add_cancel (by omega),
      take_of_length_le (by rw [length_indices])]
  rw [publishLeaf]
  refine frameAt_then htab ?_
  refine pathIndex_then (getElem_indices iova (show slpt.levels - 1 < slpt.levels by omega)) ?_
  refine attempt_then fun result m1 hread => ?_
  cases result with
  | error =>
    refine .call_then (abandon_spec hP hbuilt (hs.unchanged (hP.read_error hread))) fun _ t ht => ?_
    rintro _ rfl
    exact ht.unmoved
  | ok =>
    have hs1 := hs.unchanged (hP.read_ok hread).1
    refine .ite (fun _ => ?_) fun _ => ?_
    · refine .call_then (abandon_spec hP hbuilt hs1) ?_
      rintro _ t ⟨rfl, ht⟩
      exact poison_then (Triple.fail fun _ h => h ▸ ⟨.inr rfl, T₀, ht⟩)
    refine attempt_then fun result m2 hwrite => ?_
    cases result with
    | error =>
      refine .call_then (abandon_spec hP hbuilt (hs1.unchanged (hP.write_error hwrite)))
        fun _ t ht => ?_
      rintro _ rfl
      exact ht.unmoved
    | ok =>
      obtain ⟨howned, hval, hent⟩ := hP.write_ok hwrite
      refine .read_then ?_
      refine .modify_then ?_
      have hs2 : Sound V T _ (slpt.setSlot slot { slpt.slots slot with
          record := some ⟨iova, physicalAddress, physicalAddress ||| bits,
            ⟨frames, indices slpt.levels iova, slpt.levels⟩, 0, .awaitingMapInvalidation⟩ })
          m2 := hs1.publish hfree rfl (.inl rfl)
        ⟨hiova, hiovaLt, hphys, hphysicalLt, ⟨bits, hbits.1, hbits.2, rfl⟩, rfl, rfl,
          hfrs, fun _ => rfl⟩
        hdist (fun j hj => hpath j (by rw [hfrs]; exact hj)) hat hsplit
        (fun hp => (howned _).mpr (hs1.owned hp)) (hval (hs1.owned hat))
        fun hp j => hent _ (hs1.owned hp) j
      refine activate_spec hP hs2 ?_ rfl _
      exact Sound.at_setSlot.mpr (.inl ⟨rfl, rfl⟩)

theorem Unmoved.intact (h : Unmoved V leaves slpt s) : Intact V s := by
  obtain ⟨heq | heq, T, hs⟩ := h
  · exact ⟨T, leaves, heq ▸ hs⟩
  · exact ⟨T, leaves, heq ▸ hs.poisoned⟩

/-- The translation is still the one of the ledger. -/
theorem Unmoved.translate_eq_ledger (h : Unmoved V leaves slpt s) (halign : iova % pageSize = 0)
    (hlt : iova < 2 ^ slpt.adjustedWidth) : translate V s.1 s.2 iova = ledger slpt iova := by
  obtain ⟨slpt', m⟩ := s
  obtain ⟨rfl | rfl, T, hs⟩ := h
  · exact hs.translate_eq_ledger halign hlt
  · exact hs.poisoned.translate_eq_ledger halign hlt

/-! ### The checks before a mapping is made -/

section Checks

variable {s : Slpt n × μ} {E : SlptFault → Slpt n × μ → Prop}

theorem ensureOperational_spec (hE : ∀ fault, E fault s) :
    Triple (· = s) (ensureOperational : SlptM n μ Unit) (fun _ t => t = s) E := by
  rw [ensureOperational]
  refine .read_then ?_
  exact (Triple.refuse fun _ _ h => h ▸ hE _).mono (fun _ h => h) fun _ _ h => h.1

theorem validateIova_spec {adjustedWidth : ℕ} (hwidth : adjustedWidth < 64)
    (hE : ∀ fault, E fault s) :
    Triple (· = s) (validateIova adjustedWidth iova : SlptM n μ Unit)
      (fun _ t => t = s ∧ iova % pageSize = 0 ∧ iova < 2 ^ adjustedWidth) E := by
  rw [validateIova]
  refine .refuse_then (fun _ => hE _) fun halign => ?_
  generalize hsum : checkedAdd u64Max iova (pageSize - 1) = sum
  refine .okOr_then (hE _) fun last hlast => ?_
  refine (Triple.refuse fun _ _ h => h ▸ hE _).mono (fun _ h => h) ?_
  rintro _ t ⟨rfl, hlt⟩
  have hle : iova ≤ last := by
    have hadd := (checkedAdd_eq_some.mp (hsum.trans hlast)).2
    omega
  exact ⟨rfl, not_not.mp halign, by omega⟩

theorem checkAliases_spec (hE : ∀ fault, E fault s) (slots : List (Fin n)) :
    Triple (· = s) (checkAliases iova physicalAddress slots)
      (fun _ t => t = s ∧ ∀ slot ∈ slots, ∀ r, s.1.At slot r → r.iova ≠ iova) E := by
  induction slots with
  | nil => exact .pure fun t h => ⟨h, fun _ hmem => absurd hmem not_mem_nil⟩
  | cons slot rest ih =>
    rw [checkAliases]
    refine .read_then ?_
    refine .refuse_then (fun _ => hE _) fun hiova => ?_
    refine .refuse_then (fun _ => hE _) fun _ => ?_
    refine ih.mono (fun _ h => h) ?_
    rintro _ t ⟨rfl, hrest⟩
    refine ⟨rfl, fun slot' hmem r hr => ?_⟩
    cases hmem with
    | head =>
      intro heq
      apply hiova
      rw [hr]
      simpa using heq
    | tail _ hmem => exact hrest slot' hmem r hr

end Checks

theorem DmaPermissions.bits_lt (permissions : DmaPermissions) : permissions.bits < 4 := by
  obtain ⟨read, write⟩ := permissions
  cases read <;> cases write <;> decide

/-! ### `map_page` -/

/-- `map_page` keeps the tables sound; when it fails the ledger and the leaves are
those from before. -/
theorem mapPage_spec (hP : P.Lawful V) (hs : Sound V T leaves slpt m) (iova physicalAddress : ℕ)
    (permissions : DmaPermissions) :
    Triple (· = (slpt, m)) (mapPage P iova physicalAddress permissions)
      (fun _ t => Intact V t) fun _ t => Unmoved V leaves slpt t := by
  have hkept : ∀ fault : SlptFault, Unmoved V leaves slpt (slpt, m) :=
    fun _ => ⟨.inl rfl, T, hs⟩
  have hwidth : slpt.adjustedWidth < 64 := by
    have h1 := hs.width_eq
    have h2 := hs.levels_le
    rw [pageShift] at h1
    omega
  rw [mapPage]
  refine .call_then (ensureOperational_spec hkept) ?_
  rintro _ _ rfl
  refine .read_then ?_
  refine .call_then (validateIova_spec hwidth hkept) ?_
  rintro _ _ ⟨rfl, halign, hlt⟩
  rw [hs.width_eq] at hlt
  refine .refuse_then (fun _ => hkept .poisoned) fun hphys => ?_
  refine .refuse_then (fun _ => hkept .poisoned) fun hbits => ?_
  refine .call_then (checkAliases_spec hkept _) ?_
  rintro _ _ ⟨rfl, hdist⟩
  refine .okOr_then (hkept .poisoned) fun slot hslot => ?_
  have hfree : (slpt.slots slot).record = none := by
    have hfound := find?_some hslot
    simp only [Bool.and_eq_true, Option.isNone_iff_eq_none] at hfound
    exact hfound.1
  have hge := hs.levels_ge
  have hbuild := buildPath_spec hP iova (slpt.levels - 1) 0 slpt.root [slpt.root] [] T m .nil hs
    (by omega) rfl rfl ?_
  · refine .call_then (hbuild.weaken _) ?_
    rintro ⟨built, links⟩ ⟨slpt', m'⟩ ⟨T', hbuilt, hret⟩
    cases built with
    | error =>
      refine .call_then (R := fun _ t => Unmoved V leaves slpt t) ?_ ?_
      · obtain ⟨rfl, hs'⟩ | ⟨rfl, hs'⟩ := hret
        · exact (abandon_spec hP hbuilt hs').mono (fun _ h => h) fun _ _ h => h.unmoved
        · exact ((abandon_spec hP hbuilt.poisoned hs').mono (fun _ h => h)
            fun _ _ h => h.unmoved.of_poisoned).errors fun _ _ h => h.of_poisoned
      · intro _ t ht
        refine .ite (fun _ => ?_) fun _ => ?_
        · exact poison_then (Triple.fail fun _ h => h ▸ ht.poison)
        · exact .fail fun _ h => h ▸ ht
    | ok =>
      obtain ⟨⟨rfl, hs'⟩, hlen, hpath⟩ := hret
      exact publishLeaf_spec hP hbuilt hs' hfree hlen hpath halign hlt (by omega)
        (by omega) ⟨by omega, permissions.bits_lt⟩
        fun slot' r hr => hdist slot' (mem_finRange _) r hr
  · intro j hj
    have hzero : j = 0 := by simpa using hj
    subst hzero
    simpa using hs.root

end ArachKernel.Vtd
