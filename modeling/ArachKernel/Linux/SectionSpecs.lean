import ArachKernel.Linux.Sections

/-!
The specification of every section of the registry, in the order of the calls.
-/

namespace ArachKernel.LinuxFd

open Table Registry Credit Credits

variable {exact : Prop} {r : Registry} {c : Credits}

/-! ### Installing -/

/-- A section that may bring in new objects. -/
def Effect.installing {α : Type} (c : Credits) (added : Arrivals) :
    Except DescriptorError α → Effect
  | .ok _ => ⟨c, added, []⟩
  | .error _ => .only c

theorem not_occupied_iff {slot : DescriptorSlot} : slot.occupied = false ↔ slot.object = none := by
  simp [DescriptorSlot.occupied]

variable {closeOnExec : Bool}

theorem installBackendObject_sound {descriptorOwner backendOwner : ProcessHandle}
    {kind : OpenObjectKind} {statusFlags : Flags} (h : Balanced exact r c) (hkind : kind.occupied) :
    Meets exact r (.installing c [(backendOwner, kind)])
      (r.installBackendObject descriptorOwner backendOwner kind statusFlags closeOnExec) := by
  refine inSpace_sound h (fun _ => rfl) fun sp r hr hsp => ?_
  split
  · exact .refl hr
  next fd hfd =>
  split
  · exact .refl hr
  next halloc =>
  obtain ⟨hvac, rfl⟩ := allocateObject_eq_some halloc
  have hslot : (r.slot sp fd).object = none := by
    simpa [not_occupied_iff] using position_some hfd
  exact attach_sound _ closeOnExec hr hvac (Nat.lt_succ_self _) hkind rfl rfl hslot hsp

theorem positionAfter_some {n : ℕ} {first i : Fin n} {p : Fin n → Bool}
    (h : positionAfter first p = some i) : first < i ∧ p i := by
  simpa using position_some h

variable {i j : ObjectIndex}

variable {sp : SpaceIndex} {fd : FdIndex}

theorem attach_setObject_comm {o : OpenObject} (h : i ≠ j) :
    (r.setObject j o).attach sp fd i closeOnExec =
      (r.attach sp fd i closeOnExec).setObject j o := by
  rw [attach, attach, setObject_objects_ne h]
  simp only [setObject]
  rw [Function.update_comm h.symm]
  rfl

variable {owner : ProcessHandle}

theorem installObjectPair_sound {firstKind secondKind : OpenObjectKind}
    {firstStatusFlags secondStatusFlags : Flags} (h : Balanced exact r c)
    (hfst : firstKind.occupied) (hsnd : secondKind.occupied) :
    Meets exact r (.installing c [(owner, firstKind), (owner, secondKind)])
      (r.installObjectPair owner firstKind firstStatusFlags secondKind secondStatusFlags
        closeOnExec) := by
  refine inSpace_sound h (fun _ => rfl) fun sp r hr hsp => ?_
  dsimp only
  split
  next firstFd secondFd first second hfirstFd hsecondFd hfirstObject hsecondObject =>
    rw [hfirstFd] at hsecondFd
    rw [hfirstObject] at hsecondObject
    obtain ⟨hfd, hsecondFree⟩ := positionAfter_some hsecondFd
    obtain ⟨hobj, hsecondVacant⟩ := positionAfter_some hsecondObject
    have hfirstFree := position_some hfirstFd
    have hfirstVacant := position_some hfirstObject
    rw [Bool.not_eq_true', not_occupied_iff] at hfirstFree hsecondFree
    rw [Bool.not_eq_true'] at hfirstVacant hsecondVacant
    split
    next hg hg' =>
      obtain rfl := nextGeneration_eq_some hg
      obtain rfl := nextGeneration_eq_some hg'
      -- the second object can be created after the first one has its descriptor
      rw [attach_setObject_comm hobj.ne]
      have hfirst := attach_sound (freshObject r first owner firstKind firstStatusFlags)
        closeOnExec hr hfirstVacant (Nat.lt_succ_self _) hfst rfl rfl hfirstFree hsp
      refine hfirst.trans (attach_sound _ _ hfirst.balanced ?_ ?_ hsnd rfl rfl ?_ ?_)
      · rw [attach_objects_ne hobj.ne', setObject_objects_ne hobj.ne', hsecondVacant]
      · rw [attach_objects_ne hobj.ne', setObject_objects_ne hobj.ne']
        exact Nat.lt_succ_self _
      · rw [attach_slot_ne hfd.ne']
        exact hsecondFree
      · rwa [DescriptorSpace.occupied, attach_owner]
    · exact .refl hr
  · exact .refl hr

/-! ### Leases -/

/-- A section that may hand out a lease. -/
def Effect.leasing (c : Credits) : Except DescriptorError ObjectLease → Effect
  | .ok lease => .only (one lease.key .lease + c)
  | .error _ => .only c

theorem acquireObject_cases (i : ObjectIndex) : r.acquireObject i = (.error .capacity, r) ∨
      r.acquireObject i = (.ok (r.leaseAt i), r.setObject i
        { r.objects i with activeOperations := (r.objects i).activeOperations + 1 }) := by
  simp only [acquireObject]
  split
  · exact .inl rfl
  next hact =>
    obtain ⟨-, rfl⟩ := checkedAdd_eq_some.mp hact
    exact .inr rfl

theorem acquireObject_sound (h : Balanced exact r c) (hocc : (r.objects i).kind.occupied) :
    Meets exact r (.leasing c) (r.acquireObject i) := by
  rcases acquireObject_cases (r := r) i with heq | heq
  · rw [heq]
    exact .refl h
  · rw [heq]
    exact ⟨h.acquire hocc, .setObject ⟨rfl, rfl, rfl⟩⟩

theorem acquireDescriptor_sound {fd : ℕ} (h : Balanced exact r c) :
    Meets exact r (.leasing c) (r.acquireDescriptor owner fd) := by
  refine onDescriptor_sound h (fun _ => rfl) fun sp fd i r hr _ hslot => ?_
  split
  · exact .refl hr
  · exact acquireObject_sound hr (hr.occupied_of_slot hslot)

variable {key : ObjectKey} {descriptors : List ℕ}

theorem acquireKey_sound (h : Balanced exact r c) :
    Meets exact r (.leasing c) (r.acquireKey key) := by
  simp only [acquireKey]
  split
  · exact .refl h
  next hfine =>
    simp only [Bool.or_eq_true, Bool.not_eq_true', not_or, Bool.not_eq_false] at hfine
    obtain ⟨i, rfl, hocc⟩ := exists_of_live hfine.1.2
    exact acquireObject_sound h hocc

/-- What is left to do after a section that may take an object. -/
def Effect.pending (c : Credits) (pending : Option FinalObject) : Effect :=
  .leftover c (pending, none)

theorem releaseLease_sound
    (h : Balanced exact r (one key .lease + c)) (hle : (c key).published ≤ (c key).leases) :
    Meets exact r (.pending c) (r.releaseLeaseLocked key) := by
  have hlive : r.live key := h.occupied_of_credit (.inr (by simp [lease]))
  obtain ⟨i, rfl, hocc⟩ := exists_of_live hlive
  have hobj := h.object _ hocc
  rw [one_add_self, lease_add] at hobj
  have hact := hobj.active
  have hpos := hobj.generation_pos
  dsimp only at hact
  simp only [releaseLeaseLocked]
  split
  next hnone =>
    simp only [ObjectKey.isEmpty, keyAt_generation, keyAt_index, beq_iff_eq] at hnone
    omega
  refine ⟨h.settle (i := i) hocc (fun key hkey => (one_add_of_ne hkey).symm) rfl rfl ?_,
    .settle hocc ⟨rfl, rfl, rfl⟩⟩
  exact { hobj with
    active := show (r.objects i).activeOperations - 1 = (c (r.keyAt i)).leases by omega
    published_le_leases := hle }

/-! ### References of watches -/

/-- A section that may turn a published watch into a counted one. -/
def Effect.retaining (key : ObjectKey) (c : Credits) : Except DescriptorError Unit → Effect
  | .ok _ => .only c
  | .error _ => .only (one key .publication + c)

theorem retainKey_sound (h : Balanced exact r (one key .publication + c)) :
    Meets exact r (.retaining key c) (r.retainKey key) := by
  simp only [retainKey]
  split
  · exact .refl h
  next hfine =>
  split
  · exact .refl h
  next hrefs =>
  simp only [Bool.or_eq_true, Bool.not_eq_true', not_or, Bool.not_eq_true,
    Bool.not_eq_false] at hfine
  obtain ⟨⟨⟨-, hlive⟩, -⟩, hclo⟩ := hfine
  obtain ⟨i, rfl, hocc⟩ := exists_of_live hlive
  obtain ⟨-, rfl⟩ := checkedAdd_eq_some.mp hrefs
  have hobj := h.object _ hocc
  rw [one_add_self, publication_add] at hobj
  have hcnt := hobj.references (.inr hclo)
  have hpub := hobj.published_le (.inr hclo)
  rw [Nat.add_left_comm, Nat.add_comm] at hcnt
  refine ⟨h.setObject hocc (fun key hkey => (one_add_of_ne hkey).symm) rfl rfl ?_,
    .setObject ⟨rfl, rfl, rfl⟩⟩
  exact { hobj with
    references := fun _ => hcnt
    published_le := fun _ => Nat.le_of_succ_le hpub
    published_le_leases := Nat.le_of_succ_le hobj.published_le_leases
    busy := fun _ hzero => absurd hzero (Nat.succ_ne_zero _) }

theorem dropKeyReference_sound (h : Balanced exact r (one key .owing + c)) :
    Meets exact r (.pending c) (r.dropKeyReferenceLocked key) := by
  have hsame : ∀ key', key' ≠ key → c key' = (one key .owing + c) key' :=
    fun key' hne => (one_add_of_ne hne).symm
  simp only [dropKeyReferenceLocked]
  split
  next hnone =>
    refine ⟨?_, .refl r⟩
    cases hlive : r.live key with
    | false =>
      -- only while threads interleave: the object went before its reference was dropped
      have hdead := h.dead key hlive
      have hiss := h.issued key (by simp [owing, Credit.ext_iff])
      rw [one_add_self, owing_add] at hdead
      exact h.of_dead hlive hsame ⟨hdead.tokens, hdead.leases, hdead.published, hdead.watches,
        fun hexact => absurd (hdead.owed hexact) (Nat.succ_ne_zero _)⟩ hiss
    | true =>
      obtain ⟨i, rfl, hocc⟩ := exists_of_live hlive
      have hobj := h.object _ hocc
      rw [one_add_self, owing_add] at hobj
      refine h.modify i (fun _ _ => rfl) (fun _ _ => rfl) h.spaces hocc hsame rfl rfl
        { hobj with references := fun hmode => ?_ }
      -- a reference is missing only when the object is closing already
      have hcnt := hobj.references hmode
      have hpub := hobj.published_le hmode
      have hpos := hobj.generation_pos
      simp only [ObjectKey.isEmpty, keyAt_generation, keyAt_index,
        beq_iff_eq, ne_eq, not_true_eq_false, false_or] at hnone hcnt hpub
      omega
  next hsome =>
    simp only [not_or, not_not] at hsome
    obtain ⟨-, hgen, hrefs⟩ := hsome
    have hlive : r.live key := by
      rw [live, hgen, beq_self_eq_true, Bool.and_true, ← Bool.not_eq_false]
      exact fun hvac => hrefs (by rw [(h.vacant _ hvac).2]; rfl)
    obtain ⟨i, rfl, hocc⟩ := exists_of_live hlive
    have hobj := h.object _ hocc
    rw [one_add_self, owing_add] at hobj
    have hcnt := hobj.references
    have hpub := hobj.published_le
    dsimp only [keyAt_index] at hcnt hpub hrefs
    -- as long as the object has descriptors, one reference more does not end it
    have hkeeps : ((r.objects i).closing || (r.objects i).references - 1 == 0) =
        (r.objects i).closing := by
      cases hclo : (r.objects i).closing with
      | true => rfl
      | false =>
        have hcnt' := hcnt (.inr hclo)
        have hpub' := hpub (.inr hclo)
        have hiff := hobj.closing_iff
        simp only [hclo, Bool.false_eq_true, false_iff] at hiff
        simp only [Bool.false_or, beq_eq_false_iff_ne]
        omega
    simp only [keyAt_index, hkeeps]
    refine ⟨h.settle hocc hsame rfl rfl { hobj with references := fun hmode => ?_ },
      .settle hocc ⟨rfl, rfl, rfl⟩⟩
    have hcnt' := hcnt hmode
    show (r.objects i).references - 1 + (c (r.keyAt i)).published =
      (r.objects i).descriptorReferences + (c (r.keyAt i)).watches + (c (r.keyAt i)).owed
    omega

/-! ### Descriptors -/

/-- A section on descriptors. -/
def Effect.dropping (c : Credits) : Except DescriptorError Leftover → Effect
  | .ok leftover => .leftover c leftover
  | .error _ => .only c

theorem close_sound {fd : ℕ} (h : Balanced exact r c) :
    Meets exact r (.dropping c) (r.closeLocked owner fd) := by
  refine onDescriptor_sound h (fun _ => rfl) fun sp fd i r hr _ hslot => ?_
  split
  · exact .refl hr
  · exact setSlot_unshareObject hr hslot

/-- A descriptor more for an object that has one. -/
theorem reserve_setSlot_sound (h : Balanced exact r c) (hocc : (r.objects i).kind.occupied)
    (hclo : (r.objects i).closing = false) (hslot : (r.slot sp fd).object = none)
    (hsp : (r.spaces sp).occupied) :
    Sound exact r ((r.reserve (r.keyAt i)).setSlot sp fd ⟨some i, closeOnExec⟩) (.only c) := by
  have hkey : (r.reserve (r.keyAt i)).keyAt i = r.keyAt i := by
    simp [reserve, keyAt]
  have hreserve := h.reserve hocc hclo
  rw [← hkey] at hreserve
  exact ⟨hreserve.place hslot hsp, (reserve_moves _).trans (.of_objects rfl)⟩

theorem open_of_guard {object : OpenObject} (h : ¬(!object.kind.occupied || object.closing)) :
    object.kind.occupied ∧ object.closing = false := by
  simpa using h

theorem duplicate_sound {oldFd minimum : ℕ} (h : Balanced exact r c) :
    Meets exact r (fun _ => .only c) (r.duplicate owner oldFd minimum closeOnExec) := by
  simp only [duplicate]
  split
  · exact .refl h
  refine onDescriptor_sound h (fun _ => rfl) ?_
  intro sp fd i r hr hsp hslot
  split
  · exact .refl hr
  next htgt =>
  have hfree := position_some htgt
  simp only [Bool.and_eq_true, Bool.not_eq_true', not_occupied_iff] at hfree
  split
  · exact .refl hr
  next hfine =>
  obtain ⟨hocc, hclo⟩ := open_of_guard hfine
  split
  · exact .refl hr
  next hshare =>
    obtain rfl := shareObject_eq_some hshare
    exact reserve_setSlot_sound hr hocc hclo hfree.2 hsp

theorem Balanced.space_of_slot (h : Balanced exact r c)
    (hslot : (r.slot sp fd).object = some i) : (r.spaces sp).occupied := by
  refine Bool.of_not_eq_false fun hocc => ?_
  simp [h.spaces sp hocc fd] at hslot

/-- A token is placed in a slot after the slot was emptied. -/
theorem Balanced.place_emptied (closeOnExec : Bool)
    (h : Balanced exact (r.setSlot sp fd .empty) (one (r.keyAt i) .token + c))
    (hsp : (r.spaces sp).occupied) : Balanced exact (r.setSlot sp fd ⟨some i, closeOnExec⟩) c := by
  have htwice : (r.setSlot sp fd .empty).setSlot sp fd ⟨some i, closeOnExec⟩ =
      r.setSlot sp fd ⟨some i, closeOnExec⟩ := by simp [Registry.setSlot, setSpace]
  rw [← htwice]
  refine Balanced.place h ?_ ?_
  · rw [setSlot_slot_self]
    rfl
  · rw [DescriptorSpace.occupied, setSlot_owner]
    exact hsp

/-- A slot is pointed to another object by a token of that object, and gives up a token
of its old object. -/
theorem Balanced.exchange (closeOnExec : Bool) (h : Balanced exact r (one key .token + c))
    (hkey : key = r.keyAt j) (hslot : (r.slot sp fd).object = some i) :
    Balanced exact (r.setSlot sp fd ⟨some j, closeOnExec⟩) (one (r.keyAt i) .token + c) := by
  subst hkey
  have hlifted := h.lift hslot
  rw [add_left_comm] at hlifted
  exact hlifted.place_emptied closeOnExec (h.space_of_slot hslot)

/-- Only the flag of a slot is written. -/
theorem setSlot_flag_sound (closeOnExec : Bool) (h : Balanced exact r c)
    (hslot : (r.slot sp fd).object = some i) :
    Sound exact r (r.setSlot sp fd ⟨some i, closeOnExec⟩) (.only c) :=
  ⟨(h.lift hslot).place_emptied closeOnExec (h.space_of_slot hslot), .of_objects rfl⟩

section

variable (h : Balanced exact r c)
include h

theorem duplicateTo_sound {oldFd : ℕ} {newFd : FdIndex} :
    Meets exact r (.dropping c) (r.duplicateToLocked owner oldFd newFd closeOnExec) := by
  refine onDescriptor_sound h (fun _ => rfl) fun sp fd source r hr hsp hslot => ?_
  split
  · exact .refl hr
  next hfine =>
  obtain ⟨hocc, hclo⟩ := open_of_guard hfine
  split
  next hfree =>
    split
    · exact .refl hr
    next hshare =>
      obtain rfl := shareObject_eq_some hshare
      exact reserve_setSlot_sound hr hocc hclo hfree hsp
  next hexisting =>
    split
    next heq =>
      subst heq
      exact setSlot_flag_sound closeOnExec hr hexisting
    split
    · exact .refl hr
    split
    · exact .refl hr
    next hshare =>
    obtain rfl := shareObject_eq_some hshare
    have hkey : r.keyAt source = (r.reserve (r.keyAt source)).keyAt source := by
      simp [reserve, keyAt]
    have hexchanged := (hr.reserve hocc hclo).exchange closeOnExec hkey
      (show ((r.reserve _).slot sp newFd).object = _ from hexisting)
    exact (unshareObject_sound hexchanged).after ((reserve_moves _).trans (.of_objects rfl))

theorem descriptorFlags_sound {fd : ℕ} :
    Meets exact r (fun _ => .only c) (r.descriptorFlags owner fd) :=
  onDescriptor_sound h (fun _ => rfl) fun _ _ _ _ hr _ _ => .refl hr

theorem setDescriptorFlags_sound {fd : ℕ} {flags : Flags} :
    Meets exact r (fun _ => .only c) (r.setDescriptorFlags owner fd flags) := by
  simp only [setDescriptorFlags]
  split
  · exact .refl h
  · exact onDescriptor_sound h (fun _ => rfl) fun _ _ _ _ hr _ hslot =>
    setSlot_flag_sound _ hr hslot

theorem setStatusFlags_sound {fd : ℕ} {requested : Flags} :
    Meets exact r (fun _ => .only c) (r.setStatusFlags owner fd requested) := by
  refine onDescriptor_sound h (fun _ => rfl) fun _ _ i r hr _ hslot => ?_
  have hocc := hr.occupied_of_slot hslot
  have hobj := hr.object i hocc
  exact ⟨hr.setObject hocc (fun _ _ => rfl) rfl rfl { hobj with }, .setObject ⟨rfl, rfl, rfl⟩⟩

end

/-! ### Transfers -/

open List

/-- The credits of a list of tokens. -/
def Credits.tokens (keys : List ObjectKey) : Credits :=
  (keys.map fun key => one key .token).sum

theorem Credits.tokens_nil : Credits.tokens [] = 0 := rfl

theorem Credits.tokens_cons (key : ObjectKey) (keys : List ObjectKey) :
    Credits.tokens (key :: keys) = one key .token + Credits.tokens keys := by
  simp [Credits.tokens]

/-- A key that `capture_transfers` accepts. -/
structure Capturable (r : Registry) (key : ObjectKey) : Prop where
  live : r.live key
  not_closing : (r.objects key.index).closing = false

theorem captureKeys_capturable {fds : List ℕ}
    {keys keys' : List ObjectKey} (h : captureKeys sp r keys fds = .ok keys')
    (hkeys : ∀ key ∈ keys, Capturable r key) : ∀ key ∈ keys', Capturable r key := by
  induction fds generalizing keys with
  | nil =>
    cases h
    exact hkeys
  | cons fd fds ih =>
    simp only [captureKeys] at h
    split at h
    · cases h
    split at h
    · cases h
    next hfine =>
    split at h
    · cases h
    split at h
    · cases h
    obtain ⟨hocc, hclo⟩ := open_of_guard hfine
    refine ih h fun key hkey => ?_
    rcases mem_append.mp hkey with hkey | hkey
    · exact hkeys key hkey
    · rw [mem_singleton.mp hkey]
      exact ⟨by rw [live_keyAt]; exact hocc, hclo⟩

theorem Capturable.reserve {key' : ObjectKey} (h : Capturable r key) :
    Capturable (r.reserve key') key := by
  obtain ⟨hlive, hopen⟩ := h
  by_cases hidx : key.index = key'.index
  · constructor <;> simp_all [Registry.reserve, Registry.live]
  · constructor <;> simp_all [Registry.reserve, Registry.live, setObject_objects_ne hidx]

theorem foldl_reserve (keys : List ObjectKey) (h : Balanced exact r c)
    (hkeys : ∀ key ∈ keys, Capturable r key) :
    Sound exact r (keys.foldl reserve r) (.only (Credits.tokens keys + c)) := by
  induction keys generalizing r c with
  | nil =>
    rw [Credits.tokens_nil, zero_add]
    exact .refl h
  | cons key keys ih =>
    have hkey := hkeys key mem_cons_self
    have hrsv : Balanced exact (r.reserve key) (one key .token + c) := by
      obtain ⟨i, rfl, hocc⟩ := exists_of_live hkey.live
      exact h.reserve hocc hkey.not_closing
    rw [Credits.tokens_cons, add_assoc, add_left_comm]
    exact (ih hrsv fun key' hkey' =>
      (hkeys key' (mem_cons_of_mem _ hkey')).reserve).after (reserve_moves key)

/-- A section that may hand out tokens. -/
def Effect.capturing (c : Credits) : Except DescriptorError (List TransferToken) → Effect
  | .ok sent => .only (Credits.tokens sent + c)
  | .error _ => .only c

theorem captureTransfers_sound (h : Balanced exact r c) :
    Meets exact r (.capturing c) (r.captureTransfers owner descriptors) := by
  simp only [captureTransfers]
  split
  · exact .refl h
  refine inSpace_sound h (fun _ => rfl) fun sp r hr _ => ?_
  split
  · exact .refl hr
  next keys hcap =>
    exact foldl_reserve keys hr (captureKeys_capturable hcap fun _ hkey => absurd hkey not_mem_nil)

variable {tokens : List TransferToken} {fd' : FdIndex}

theorem foldl_placeToken (closeOnExec : Bool) {targets : List FdIndex}
    (hlen : targets.length = tokens.length) (hnd : targets.Nodup)
    (hfree : ∀ fd ∈ targets, (r.slot sp fd).object = none) (hsp : (r.spaces sp).occupied)
    (h : Balanced exact r (Credits.tokens tokens + c)) :
    Sound exact r ((targets.zip tokens).foldl (placeToken sp closeOnExec) r) (.only c) := by
  induction targets generalizing r tokens with
  | nil =>
    obtain rfl := length_eq_zero_iff.mp hlen.symm
    rw [Credits.tokens_nil, zero_add] at h
    exact .refl h
  | cons fd targets ih =>
    obtain _ | ⟨token, tokens⟩ := tokens
    · cases hlen
    rw [nodup_cons] at hnd
    rw [Credits.tokens_cons, add_assoc] at h
    have hplaced : Balanced exact (placeToken sp closeOnExec r (fd, token))
        (Credits.tokens tokens + c) := by
      obtain ⟨i, rfl, -⟩ := exists_of_live h.live_of_token
      exact h.place (hfree fd mem_cons_self) hsp
    have hrest : ∀ fd' ∈ targets,
        ((placeToken sp closeOnExec r (fd, token)).slot sp fd').object = none := by
      intro fd' hfd'
      have hne : fd' ≠ fd := fun heq => hnd.1 (heq ▸ hfd')
      rw [placeToken, setSlot_slot_ne (by simpa using hne)]
      exact hfree fd' (mem_cons_of_mem _ hfd')
    have hsp' : ((placeToken sp closeOnExec r (fd, token)).spaces sp).occupied := by
      rw [DescriptorSpace.occupied, placeToken, setSlot_owner]
      exact hsp
    exact (ih (Nat.succ.inj hlen) hnd.2 hrest hsp' hplaced).after (.of_objects rfl)

/-- A section that may place tokens. -/
def Effect.placing {α : Type} (tokens : List TransferToken) (c : Credits) :
    Except DescriptorError α → Effect
  | .ok _ => .only c
  | .error _ => .only (Credits.tokens tokens + c)

theorem installTransfers_sound {room : ℕ} (h : Balanced exact r (Credits.tokens tokens + c)) :
    Meets exact r (.placing tokens c) (r.installTransfers owner tokens closeOnExec room) := by
  simp only [installTransfers]
  split
  · exact .refl h
  refine inSpace_sound h (fun _ => rfl) fun sp r hr hsp => ?_
  split
  · exact .refl hr
  next hlen =>
  split
  · exact .refl hr
  · exact foldl_placeToken closeOnExec
      (not_not.mp hlen) (((nodup_finRange _).filter _).sublist (take_sublist _ _))
      (fun fd hfd => by simpa [freeSlots, not_occupied_iff] using mem_of_mem_take hfd) hsp hr

theorem releaseTransfer_sound {token : TransferToken}
    (h : Balanced exact r (one token .token + c)) :
    Meets exact r (.leftover c) (r.releaseTransferLocked token) := by
  obtain ⟨i, rfl, hocc⟩ := exists_of_live h.live_of_token
  obtain ⟨-, -, hrefs, hdescs⟩ := h.held_of_token
  have hpos := (h.object i hocc).generation_pos
  simp only [releaseTransferLocked]
  split
  next hnone =>
    simp only [ObjectKey.isEmpty, keyAt_generation, keyAt_index, beq_iff_eq] at hnone
    omega
  · exact unshareObject_sound h

/-! ### Sweeps -/

def Effect.sweeping (c : Credits) (sweep : Sweep) : Effect := ⟨c, [], sweep.pending⟩

theorem setSlot_unshareObject_slot : ((r.setSlot sp fd .empty).unshareObject i).2.slot sp fd' =
      (r.setSlot sp fd .empty).slot sp fd' := by
  simp only [unshareObject, maybeTakeClosing]
  split <;> rfl

variable {state : Sweep × Registry} {onlyCloseOnExec : Bool}
  {rest : List FdIndex}

/-- A sweep with the descriptors `rest` to go. A full one leaves none behind. -/
structure Sweeping (exact : Prop) (r : Registry) (c : Credits) (sp : SpaceIndex)
    (onlyCloseOnExec : Bool) (rest : List FdIndex) (state : Sweep × Registry) : Prop where
  sound : Meets exact r (.sweeping c) state
  free : onlyCloseOnExec = false → FreeOutside state.2 sp rest

namespace Sweeping

theorem sweepDescriptor (h : Sweeping exact r c sp onlyCloseOnExec (fd :: rest) state) :
    Sweeping exact r c sp onlyCloseOnExec rest (sweepDescriptor sp onlyCloseOnExec state fd) := by
  simp only [Registry.sweepDescriptor]
  split
  next hslot => exact ⟨h.sound, fun hfull => (h.free hfull).of_none hslot⟩
  next hslot =>
    split
    next hkeep => exact ⟨h.sound, fun hfull => by simp [hfull] at hkeep⟩
    · refine ⟨h.sound.trans (setSlot_unshareObject h.sound.balanced hslot),
        fun hfull fd' hfd' => ?_⟩
      rw [setSlot_unshareObject_slot]
      exact (h.free hfull).setSlot fd' hfd'

theorem foldl (h : Sweeping exact r c sp onlyCloseOnExec rest state) :
    Sweeping exact r c sp onlyCloseOnExec []
      (rest.foldl (Registry.sweepDescriptor sp onlyCloseOnExec) state) := by
  induction rest generalizing state with
  | nil => exact h
  | cons fd rest ih => exact ih h.sweepDescriptor

end Sweeping

theorem closeMatching_sound (owner : ProcessHandle) (onlyCloseOnExec : Bool)
    (h : Balanced exact r c) :
    Meets exact r (.sweeping c) (r.closeMatchingLocked owner onlyCloseOnExec) := by
  simp only [closeMatchingLocked]
  split
  · exact .refl h
  next sp hsp =>
  have hstart : Sweeping exact r c sp onlyCloseOnExec (finRange maximumFileDescriptors)
      (⟨0, [], []⟩, r) := ⟨.refl h, fun _ fd hfd => absurd (mem_finRange fd) hfd⟩
  have hdone := hstart.foldl
  generalize (finRange maximumFileDescriptors).foldl _ _ = state at hdone ⊢
  obtain ⟨hswept, hfree⟩ := hdone
  cases onlyCloseOnExec with
  | true => exact hswept
  | false =>
    have hmoves : Moves r (state.2.setOwner sp .empty) _ _ := hswept.moves.trans (.of_objects rfl)
    simp only [append_nil] at hmoves
    exact ⟨setOwner_balanced hswept.balanced fun _ fd => hfree rfl fd not_mem_nil, hmoves⟩

end ArachKernel.LinuxFd
