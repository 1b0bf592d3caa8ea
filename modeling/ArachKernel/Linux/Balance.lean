import ArachKernel.Linux.Credits

/-!
Every section of the registry keeps the counters balanced. The sections are made of
a few moves on one object: a slot can be lifted into a token and a token placed in a
slot, an object can be shared (one more token) and unshared (one token less), leased
and released. Each move has one lemma; the sections are put together from them.
-/

namespace ArachKernel.LinuxFd

open Table Registry Credit Credits DescriptorSlot

variable {exact : Prop} {r r' : Registry} {c c' : Credits}

namespace Balanced

/-! ### Changing one object -/

variable {key : ObjectKey}

section

variable (h : Balanced exact r c)
include h

theorem occupied_of_credit (hkey : (c key).tokens ≠ 0 ∨ (c key).leases ≠ 0) : r.live key := by
  refine Bool.of_not_eq_false fun hlive => ?_
  have hdead := h.dead key hlive
  rcases hkey with htoks | hleases
  · exact htoks hdead.tokens
  · exact hleases hdead.leases

theorem issued (key : ObjectKey) (hkey : c key ≠ 0) :
    key.generation ≤ (r.objects key.index).generation :=
  not_lt.mp fun hlt => hkey (h.unissued key hlt)

variable (i : ObjectIndex) (hobjs : ∀ j, j ≠ i → r'.objects j = r.objects j)
  (hslots : ∀ j, j ≠ i → r'.slotCount j = r.slotCount j)
  (hspaces : ∀ sp, (r'.spaces sp).occupied = false → ∀ fd, (r'.slot sp fd).object = none)
include hobjs hslots hspaces

/-- A registry that differs at one object only is balanced when that object is. -/
theorem localUpdate (hcred : ∀ key, key ≠ r'.keyAt i → c' key = c key)
    (hgen : (r.objects i).generation ≤ (r'.objects i).generation)
    (hold : (r.objects i).kind.occupied → (r'.objects i).generation = (r.objects i).generation)
    (hobj : (r'.objects i).kind.occupied →
      ObjectBalanced exact (r'.objects i) (r'.slotCount i) (c' (r'.keyAt i)))
    (hvac : (r'.objects i).kind.occupied = false → (r'.slotCount i = 0 ∧
        r'.objects i = { OpenObject.empty with generation := (r'.objects i).generation }) ∧
      (c' (r'.keyAt i)).Dead exact) : Balanced exact r' c' := by
  have hother {key : ObjectKey} (hidx : key.index ≠ i) : c' key = c key :=
    hcred key fun heq => hidx (by rw [heq]; rfl)
  constructor
  · intro j hj
    by_cases hji : j = i
    · subst hji
      exact hobj hj
    · have hkey : r'.keyAt j = r.keyAt j := by simp only [keyAt, hobjs j hji]
      rw [hobjs j hji] at hj
      rw [hobjs j hji, hslots j hji, hkey, hother hji]
      exact h.object j hj
  · intro j hj
    by_cases hji : j = i
    · subst hji
      exact (hvac hj).1
    · rw [hobjs j hji] at hj
      rw [hslots j hji, hobjs j hji]
      exact h.vacant j hj
  · intro key hkey
    by_cases heq : key = r'.keyAt i
    · rw [heq, live_keyAt] at hkey
      rw [heq]
      exact (hvac hkey).2
    · rw [hcred _ heq]
      refine h.dead _ ?_
      by_cases hidx : key.index = i
      · -- an earlier generation of the slot
        rw [← Bool.not_eq_true]
        intro hlive
        obtain ⟨j, rfl, hocc⟩ := exists_of_live hlive
        obtain rfl : j = i := hidx
        exact heq (by simp only [keyAt, hold hocc])
      · simpa only [live, hobjs _ hidx] using hkey
  · intro key hkey
    by_cases hidx : key.index = i
    · subst hidx
      rw [hcred key fun heq => hkey.ne (congrArg ObjectKey.generation heq).symm]
      exact h.unissued key (hgen.trans_lt hkey)
    · rw [hobjs _ hidx] at hkey
      rw [hother hidx]
      exact h.unissued key hkey
  · exact hspaces

/-- The same, when the object stays in its slot. -/
theorem modify (hocc : (r.objects i).kind.occupied)
    (hcred : ∀ key, key ≠ r.keyAt i → c' key = c key)
    (hkind : (r'.objects i).kind = (r.objects i).kind)
    (hgen : (r'.objects i).generation = (r.objects i).generation)
    (hobj : ObjectBalanced exact (r'.objects i) (r'.slotCount i) (c' (r.keyAt i))) :
    Balanced exact r' c' := by
  have hkey : r'.keyAt i = r.keyAt i := by simp only [keyAt, hgen]
  rw [← hkey] at hcred hobj
  refine h.localUpdate i hobjs hslots hspaces hcred hgen.ge (fun _ => hgen) (fun _ => hobj) ?_
  simp [hkind, hocc]

end

variable {i : ObjectIndex} {object : OpenObject}

/-- Changing the counters of an object, and the credits of its key. -/
theorem setObject (h : Balanced exact r c) (hocc : (r.objects i).kind.occupied)
    (hcred : ∀ key, key ≠ r.keyAt i → c' key = c key) (hkind : object.kind = (r.objects i).kind)
    (hgen : object.generation = (r.objects i).generation)
    (hobj : ObjectBalanced exact object (r.slotCount i) (c' (r.keyAt i))) :
    Balanced exact (r.setObject i object) c' := by
  refine h.modify i (fun j hj => setObject_objects_ne hj) (fun _ _ => rfl) h.spaces hocc
    hcred ?_ ?_ ?_
  · rw [setObject_objects_self, hkind]
  · rw [setObject_objects_self, hgen]
  · rw [setObject_objects_self]
    exact hobj

/-! ### Slots and tokens -/

variable {sp : SpaceIndex} {fd : FdIndex}

theorem occupied_of_slot (h : Balanced exact r c)
    (hslot : (r.slot sp fd).object = some i) : (r.objects i).kind.occupied := by
  refine Bool.of_not_eq_false fun hocc => ?_
  have hpos := slotCount_pos hslot
  rw [(h.vacant i hocc).1] at hpos
  exact Nat.lt_irrefl 0 hpos

theorem live_of_token (h : Balanced exact r (one key .token + c)) : r.live key :=
  h.occupied_of_credit (.inl (by simp [token]))

theorem occupied_of_token (h : Balanced exact r (one (r.keyAt i) .token + c)) :
    (r.objects i).kind.occupied := by
  rw [← live_keyAt, h.live_of_token]

/-- A slot is written; one object gains or loses a token for it. -/
theorem setSlot {slot : DescriptorSlot} (h : Balanced exact r c)
    (hocc : (r.objects i).kind.occupied) (hcred : ∀ key, key ≠ r.keyAt i → c' key = c key)
    (hnames : ∀ j, j ≠ i → slot.names j = (r.slot sp fd).names j)
    (hspace : (r.spaces sp).occupied = false → slot.object = none)
    (hobj : ∀ slots, slots + (r.slot sp fd).names i = r.slotCount i + slot.names i →
      ObjectBalanced exact (r.objects i) slots (c' (r.keyAt i))) :
    Balanced exact (r.setSlot sp fd slot) c' := by
  have hcnt (j : ObjectIndex) := setSlot_slotCount (r := r) sp fd slot j
  refine h.modify i (fun _ _ => rfl) (fun j hj => ?_) ?_ hocc hcred rfl rfl (hobj _ (hcnt i))
  · have hj' := hcnt j
    rw [hnames j hj] at hj'
    omega
  · intro sp' hsp' fd'
    rw [DescriptorSpace.occupied, setSlot_owner] at hsp'
    by_cases heq : (sp', fd') = (sp, fd)
    · cases heq
      rw [setSlot_slot_self]
      exact hspace hsp'
    · rw [setSlot_slot_ne heq]
      exact h.spaces sp' hsp' fd'

/-- A slot is lifted: its reference becomes a token. -/
theorem lift (h : Balanced exact r c) (hslot : (r.slot sp fd).object = some i) :
    Balanced exact (r.setSlot sp fd .empty) (one (r.keyAt i) .token + c) := by
  have hobj := h.object i (h.occupied_of_slot hslot)
  refine h.setSlot (h.occupied_of_slot hslot) (fun key => one_add_of_ne) (fun j hj => ?_)
    (fun _ => rfl) fun slots hslots => ?_
  · simp [names, DescriptorSlot.empty, hslot, hj.symm]
  · simp only [names, DescriptorSlot.empty, hslot, if_true, if_false, reduceCtorEq] at hslots
    have hdescs := hobj.descriptors
    rw [one_add_self, token_add]
    exact ⟨⟨hobj.generation_pos, by dsimp only; omega, hobj.active, hobj.closing_iff,
      hobj.references, hobj.published_le, hobj.published_le_leases⟩, hobj.busy⟩

/-- A token is placed in a free slot of an occupied space. -/
theorem place {closeOnExec : Bool} (h : Balanced exact r (one (r.keyAt i) .token + c))
    (hslot : (r.slot sp fd).object = none) (hsp : (r.spaces sp).occupied) :
    Balanced exact (r.setSlot sp fd ⟨some i, closeOnExec⟩) c := by
  have hobj := h.object i h.occupied_of_token
  rw [one_add_self, token_add] at hobj
  have hdescs := hobj.descriptors
  refine h.setSlot h.occupied_of_token (fun key hkey => (one_add_of_ne hkey).symm)
    (fun j hj => ?_) (by simp [hsp]) fun slots hslots => ?_
  · simp [names, hslot, hj.symm]
  · simp only [names, hslot, if_true, if_false, reduceCtorEq] at hslots
    dsimp only at hdescs
    exact ⟨⟨hobj.generation_pos, by omega, hobj.active, hobj.closing_iff, hobj.references,
      hobj.published_le, hobj.published_le_leases⟩, hobj.busy⟩

/-! ### Counters -/

/-- Changing the counters of an object, which is taken if nothing holds it any more. -/
theorem settle (h : Balanced exact r c) (hocc : (r.objects i).kind.occupied)
    (hcred : ∀ key, key ≠ r.keyAt i → c' key = c key) (hkind : object.kind = (r.objects i).kind)
    (hgen : object.generation = (r.objects i).generation)
    (hcounted : ObjectCounted exact object (r.slotCount i) (c' (r.keyAt i))) :
    Balanced exact ((r.setObject i object).maybeTakeClosing i).2 c' := by
  simp only [Registry.maybeTakeClosing, Registry.setObject_objects_self]
  split
  next hfree =>
    obtain ⟨hclo, hrefs, hact⟩ := hfree
    have hzero := hcounted.closing_iff.mp hclo
    have hdescs := hcounted.descriptors
    have hleases := hcounted.active
    have hpub := hcounted.published_le_leases
    have hdead : (c' (r.keyAt i)).Dead exact := by
      refine ⟨by omega, by omega, by omega, ?_, ?_⟩
      all_goals
        intro hexact
        have hcnt := hcounted.references (.inl hexact)
        omega
    have hself : (((r.setObject i object).take i).objects i).generation =
        (r.objects i).generation := by simp [Registry.take, hgen]
    have hkey : ((r.setObject i object).take i).keyAt i = r.keyAt i := by
      simp [keyAt, hself]
    rw [← hkey] at hcred hdead
    refine h.localUpdate i ?_ (fun _ _ => rfl) h.spaces hcred hself.ge (fun _ => hself) ?_ ?_
    · intro j hj
      simp only [Registry.take]
      rw [Registry.setObject_objects_ne hj, Registry.setObject_objects_ne hj]
    · intro hocc'
      simp [Registry.take, OpenObject.empty, OpenObjectKind.occupied] at hocc'
    · intro _
      exact ⟨⟨by show r.slotCount i = 0; omega, by simp [Registry.take]⟩, hdead⟩
  next hheld =>
    refine h.setObject hocc hcred hkind hgen ⟨hcounted, ?_⟩
    intro hclo hrefs hact
    exact hheld ⟨hclo, hrefs, hact⟩

/-- One more token for an object that is not closing. -/
theorem reserve (h : Balanced exact r c)
    (hocc : (r.objects i).kind.occupied) (hclo : (r.objects i).closing = false) :
    Balanced exact (r.reserve (r.keyAt i)) (one (r.keyAt i) .token + c) := by
  have hobj := h.object i hocc
  have hcnt := hobj.references (.inr hclo)
  have hdescs := hobj.descriptors
  refine h.setObject (i := i) hocc (fun key => one_add_of_ne) rfl rfl ?_
  rw [one_add_self, token_add]
  exact { hobj with
    descriptors := by dsimp only [keyAt_index]; omega
    closing_iff := by simp [hclo]
    references := fun _ => by dsimp only [keyAt_index]; omega
    busy := fun hclo' => by simp [hclo] at hclo' }

/-- An object with a token is not closing, and its counters can go down. -/
theorem held_of_token (h : Balanced exact r (one (r.keyAt i) .token + c)) :
    (r.objects i).kind.occupied ∧ (r.objects i).closing = false ∧
      0 < (r.objects i).references ∧ 0 < (r.objects i).descriptorReferences := by
  have hocc := h.occupied_of_token
  have hobj := h.object i hocc
  have hdescs := hobj.descriptors
  rw [one_add_self, token_add] at hdescs
  dsimp only at hdescs
  have hclo : (r.objects i).closing = false := by
    rw [← Bool.not_eq_true, hobj.closing_iff]
    omega
  have hcnt := hobj.references (.inr hclo)
  have hpub := hobj.published_le (.inr hclo)
  exact ⟨hocc, hclo, by omega, by omega⟩

theorem unshare (h : Balanced exact r (one (r.keyAt i) .token + c)) :
    Balanced exact (r.unshareObject i).2 c := by
  obtain ⟨hocc, hclo, hrefs, hdescs⟩ := h.held_of_token
  have hobj := h.object i hocc
  rw [one_add_self, token_add] at hobj
  have hcnt := hobj.references (.inr hclo)
  have hslots := hobj.descriptors
  dsimp only at hcnt hslots
  exact h.settle hocc (fun key hkey => (one_add_of_ne hkey).symm) rfl rfl { hobj with
    descriptors := by dsimp only; omega
    closing_iff := by simp [hclo]
    references := fun _ => by dsimp only; omega
    published_le := fun _ => hobj.published_le (.inr hclo) }

theorem acquire (h : Balanced exact r c) (hocc : (r.objects i).kind.occupied) :
    Balanced exact (r.setObject i
      { r.objects i with activeOperations := (r.objects i).activeOperations + 1 })
      (one (r.keyAt i) .lease + c) := by
  have hobj := h.object i hocc
  refine h.setObject hocc (fun key => one_add_of_ne) rfl rfl ?_
  rw [one_add_self, lease_add]
  exact { hobj with
    active := congrArg (· + 1) hobj.active
    published_le_leases := hobj.published_le_leases.trans (Nat.le_succ _)
    busy := fun _ _ => Nat.succ_ne_zero _ }

/-- Credits may change at a key whose object is gone. -/
theorem of_dead (h : Balanced exact r c) (hlive : r.live key = false)
    (hcred : ∀ key', key' ≠ key → c' key' = c key') (hdead : (c' key).Dead exact)
    (hiss : key.generation ≤ (r.objects key.index).generation) : Balanced exact r c' := by
  constructor
  · intro i hi
    have hne : r.keyAt i ≠ key := by
      rintro rfl
      simp [live, keyAt, hi] at hlive
    rw [hcred _ hne]
    exact h.object i hi
  · exact h.vacant
  · intro key' hkey'
    by_cases heq : key' = key
    · rw [heq]
      exact hdead
    · rw [hcred _ heq]
      exact h.dead _ hkey'
  · intro key' hkey'
    have hne : key' ≠ key := by
      rintro rfl
      omega
    rw [hcred _ hne]
    exact h.unissued _ hkey'
  · exact h.spaces

/-- A new object with one reference, which is a token. -/
theorem create (h : Balanced exact r c) (hvac : (r.objects i).kind.occupied = false)
    (hgen : (r.objects i).generation < object.generation) (hocc : object.kind.occupied)
    (hclo : object.closing = false) (hact : object.activeOperations = 0) :
    Balanced exact (r.setObject i { object with references := 1, descriptorReferences := 1 })
      (one ⟨i, object.generation⟩ .token + c) := by
  have hkey : (r.setObject i { object with references := 1, descriptorReferences := 1 }).keyAt i =
      ⟨i, object.generation⟩ := by simp [keyAt]
  rw [← hkey]
  refine h.localUpdate i (fun j hj => setObject_objects_ne hj) (fun _ _ => rfl) h.spaces
    (fun key => one_add_of_ne) ?_ ?_ ?_ ?_
  · rw [setObject_objects_self]
    exact hgen.le
  · simp [hvac]
  · intro _
    rw [one_add_self, hkey, h.unissued _ hgen, setObject_objects_self, setObject_slotCount,
      (h.vacant i hvac).1]
    exact ⟨⟨Nat.zero_lt_of_lt hgen, rfl, hact, by simp [hclo], fun _ => rfl, fun _ => le_rfl,
      le_rfl⟩, by simp [hclo]⟩
  · simp [hocc]

end Balanced

end ArachKernel.LinuxFd
