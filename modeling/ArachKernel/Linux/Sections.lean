import ArachKernel.Linux.Balance
import ArachKernel.Linux.Moves

/-!
One specification for each section of the registry. An `Effect` says what a section
does besides changing the registry: the credits that are left, the objects that came,
and the objects that went. A section is
`Sound` when it keeps the counters balanced and moves objects as its effect says; a
section may also set up the standard descriptors of a new space, which have no backend.
-/

namespace ArachKernel.LinuxFd

open Table Registry DescriptorSlot

structure Effect where
  credits : Credits
  added : Arrivals
  finals : List FinalObject

/-- Only the credits are of interest. -/
def Effect.only (c : Credits) : Effect := ⟨c, [], []⟩

structure Sound (exact : Prop) (r r' : Registry) (e : Effect) : Prop where
  balanced : Balanced exact r' e.credits
  moves : Moves r r' e.added e.finals

/-- A section has the effect that goes with its answer. -/
abbrev Meets {α : Type} (exact : Prop) (r : Registry) (effect : α → Effect)
    (result : α × Registry) : Prop :=
  Sound exact r result.2 (effect result.1)

variable {exact : Prop} {r r' : Registry} {c : Credits}

namespace Sound

variable {e : Effect}

theorem refl (h : Balanced exact r c) : Sound exact r r (.only c) := ⟨h, .refl r⟩

theorem trans {r₁ : Registry} {e' : Effect} (h : Sound exact r r₁ e) (h' : Sound exact r₁ r' e') :
    Sound exact r r' ⟨e'.credits, e.added ++ e'.added, e.finals ++ e'.finals⟩ :=
  ⟨h'.balanced, h.moves.trans h'.moves⟩

theorem after {r₁ : Registry} (h : Sound exact r₁ r' e) (hmoves : Moves r r₁ [] []) :
    Sound exact r r' e := ⟨h.balanced, hmoves.trans h.moves⟩

end Sound

/-! ### New objects -/

theorem nextGeneration_eq_some {object : OpenObject} {generation : ℕ}
    (h : nextGeneration object = some generation) : generation = object.generation + 1 := by
  rw [nextGeneration, Option.filter_eq_some_iff] at h
  exact (checkedAdd_eq_some.mp h.1).2

/-- The object that a vacant slot is given. -/
def freshObject (r : Registry) (i : ObjectIndex) (owner : ProcessHandle)
    (kind : OpenObjectKind) (statusFlags : Flags) : OpenObject :=
  { OpenObject.empty with generation := (r.objects i).generation + 1, owner, statusFlags, kind }

variable {i : ObjectIndex}

variable {owner : ProcessHandle} {kind : OpenObjectKind} {statusFlags : Flags}

theorem allocateObject_eq_some (h : r.allocateObject owner kind statusFlags = some (i, r')) :
    (r.objects i).kind.occupied = false ∧
      r' = r.setObject i (freshObject r i owner kind statusFlags) := by
  simp only [allocateObject] at h
  split at h
  · cases h
  next hfree =>
  split at h
  · cases h
  next hgen =>
    cases h
    obtain rfl := nextGeneration_eq_some hgen
    exact ⟨by simpa using position_some hfree, rfl⟩

theorem setObject_setObject {o o' : OpenObject} :
    (r.setObject i o).setObject i o' = r.setObject i o' := by
  simp [setObject]

section

variable {sp : SpaceIndex} {fd : FdIndex}
  {i j : ObjectIndex} {closeOnExec : Bool}

theorem attach_objects_ne (h : j ≠ i) :
    (r.attach sp fd i closeOnExec).objects j = r.objects j := setObject_objects_ne h

theorem attach_slot_ne {fd' : FdIndex} (h : fd' ≠ fd) :
    (r.attach sp fd i closeOnExec).slot sp fd' = r.slot sp fd' :=
  setSlot_slot_ne (by simpa using h)

@[simp] theorem attach_owner {sp' : SpaceIndex} :
    ((r.attach sp fd i closeOnExec).spaces sp').owner = (r.spaces sp').owner := setSlot_owner

/-- A new object with its first descriptor. -/
theorem attach_sound (object : OpenObject) (closeOnExec : Bool) (h : Balanced exact r c)
    (hvac : (r.objects i).kind.occupied = false)
    (hgen : (r.objects i).generation < object.generation) (hocc : object.kind.occupied)
    (hclo : object.closing = false) (hact : object.activeOperations = 0)
    (hslot : (r.slot sp fd).object = none) (hsp : (r.spaces sp).occupied) :
    Sound exact r ((r.setObject i object).attach sp fd i closeOnExec)
      ⟨c, [(object.owner, object.kind)], []⟩ := by
  simp only [attach, setObject_objects_self, setObject_setObject]
  refine ⟨Balanced.place ?_ hslot hsp, ?_⟩
  · simp only [keyAt, setObject_objects_self]
    exact h.create hvac hgen hocc hclo hact
  · have hcreate : Moves r (r.setObject i
        { object with references := 1, descriptorReferences := 1 })
        (bif object.kind.occupied then [(object.owner, object.kind)] else []) _ :=
      .replace hgen.le fun _ => hgen
    rw [hvac, hocc] at hcreate
    exact hcreate.trans (.of_objects rfl)

end

/-! ### New spaces -/

/-- No slot of a space but the given ones names an object. -/
def FreeOutside (r : Registry) (sp : SpaceIndex) (fds : List FdIndex) : Prop :=
  ∀ fd ∉ fds, (r.slot sp fd).object = none

namespace FreeOutside

variable {sp : SpaceIndex} {fd : FdIndex}
  {fds : List FdIndex} (h : FreeOutside r sp (fd :: fds))
include h

theorem of_none (hslot : (r.slot sp fd).object = none) : FreeOutside r sp fds := by
  intro fd' hfd'
  by_cases heq : fd' = fd
  · rw [heq, hslot]
  · exact h fd' (by simp [heq, hfd'])

theorem setSlot : FreeOutside (r.setSlot sp fd .empty) sp fds := by
  intro fd' hfd'
  by_cases heq : (sp, fd') = (sp, fd)
  · cases heq
    rw [setSlot_slot_self]
    rfl
  · rw [setSlot_slot_ne heq]
    exact h fd' (by simpa [hfd'] using heq)

end FreeOutside

/-- An object that came later into its slot and has one descriptor only. -/
structure Fresh (before object : OpenObject) (credit : Credit) : Prop where
  generation : before.generation < object.generation
  descriptors : object.descriptorReferences = 1
  credits : credit = 0

/-- The state between the new space of `r₀` and its last standard descriptor. -/
structure Initializing (exact : Prop) (r₀ r : Registry) (c : Credits)
    (sp : SpaceIndex) (attached : List FdIndex) : Prop where
  balanced : Balanced exact r c
  moves : Moves r₀ r [] []
  owner : (r.spaces sp).owner = (r₀.spaces sp).owner
  own : ∀ fd i, (r.slot sp fd).object = some i → Fresh (r₀.objects i) (r.objects i) (c (r.keyAt i))
  free : FreeOutside r sp attached

variable {r₀ : Registry} {sp : SpaceIndex} {fd : FdIndex}

namespace Initializing

variable {attached : List FdIndex}

/-- One standard descriptor is taken back. -/
theorem detachStandard (h : Initializing exact r₀ r c sp (fd :: attached)) :
    Initializing exact r₀ (detachStandard sp r fd) c sp attached := by
  simp only [Registry.detachStandard]
  split
  next hslot => exact ⟨h.balanced, h.moves, h.owner, h.own, h.free.of_none hslot⟩
  next i hslot =>
  obtain ⟨hgen, hdescs, hcred⟩ := h.own fd i hslot
  have hocc := h.balanced.occupied_of_slot hslot
  have hobj := h.balanced.object i hocc
  rw [hcred] at hobj
  have hclo : (r.objects i).closing = false := by
    rw [← Bool.not_eq_true, hobj.closing_iff, hdescs]
    exact Nat.one_ne_zero
  have hrefs : (r.objects i).references = 1 := by
    simpa [hdescs] using hobj.references (.inr hclo)
  -- nothing but the slot holds the object, so that it goes with it
  have htake : ((r.setSlot sp fd .empty).unshareObject i).2 = (r.setSlot sp fd .empty).take i := by
    simp [unshareObject, maybeTakeClosing, Registry.take, setObject_setObject, hdescs, hrefs,
      hobj.active]
  have hbal := (h.balanced.lift hslot).unshare
  rw [htake] at hbal
  refine ⟨hbal, ?_, setSlot_owner.trans h.owner, ?_, h.free.setSlot⟩
  · have hcleared : Moves r (r.setSlot sp fd .empty) [] [] := .of_objects rfl
    refine ((h.moves.trans hcleared).trans (.take hocc)).forget (List.forall_mem_nil _) ?_
    intro final hfinal
    rw [List.mem_singleton.mp hfinal]
    exact hgen
  · intro fd' i' hslot'
    have hne : i' ≠ i := by
      rintro rfl
      have hgone := hbal.occupied_of_slot hslot'
      simp [Registry.take, OpenObject.empty, OpenObjectKind.occupied] at hgone
    have hsame : ((r.setSlot sp fd .empty).take i).objects i' = r.objects i' :=
      setObject_objects_ne hne
    rw [keyAt, hsame]
    refine h.own fd' i' ?_
    by_cases heq : (sp, fd') = (sp, fd)
    · cases heq
      rw [show (((r.setSlot sp fd .empty).take i).slot sp fd) = .empty from setSlot_slot_self]
        at hslot'
      cases hslot'
    · rwa [← setSlot_slot_ne heq]

theorem foldl_detachStandard (h : Initializing exact r₀ r c sp attached) :
    Initializing exact r₀ (attached.foldl (Registry.detachStandard sp) r) c sp [] := by
  induction attached generalizing r with
  | nil => exact h
  | cons fd attached ih => exact ih h.detachStandard

/-- One standard descriptor is attached. -/
theorem attach (hfd : fd ∉ attached) (hback : kind.hasBackend = false) (hocc : kind.occupied)
    (hsp : (r₀.spaces sp).occupied)
    (halloc : r.allocateObject owner kind statusFlags = some (i, r'))
    (h : Initializing exact r₀ r c sp attached) :
    Initializing exact r₀ (r'.attach sp fd i false) c sp (attached ++ [fd]) := by
  obtain ⟨hvac, rfl⟩ := allocateObject_eq_some halloc
  have hsp' : (r.spaces sp).occupied := by
    rw [DescriptorSpace.occupied, h.owner]
    exact hsp
  obtain ⟨hbal, hmoves⟩ := attach_sound (freshObject r i owner kind statusFlags) false
    h.balanced hvac (Nat.lt_succ_self _) hocc rfl rfl (h.free fd hfd) hsp'
  refine ⟨hbal, h.moves.trans (hmoves.forget (fun object hmem => ?_) (List.forall_mem_nil _)),
    attach_owner.trans h.owner, fun fd' i' hslot => ?_, fun fd' hfd' => ?_⟩
  · rw [List.mem_singleton.mp hmem]
    exact hback
  · by_cases heq : fd' = fd
    · rw [heq, Registry.attach, setSlot_slot_self] at hslot
      cases hslot
      simp only [keyAt, Registry.attach, setSlot_objects, setObject_objects_self]
      exact ⟨Nat.lt_succ_of_le (h.moves.generation_le i), rfl,
        h.balanced.unissued _ (Nat.lt_succ_self _)⟩
    · rw [attach_slot_ne heq] at hslot
      have hne : i' ≠ i := by
        rintro rfl
        simpa [hvac] using h.balanced.occupied_of_slot (show (r.slot sp fd').object = _ from hslot)
      rw [keyAt, attach_objects_ne hne, setObject_objects_ne hne]
      exact h.own fd' i' hslot
  · rw [List.mem_append, List.mem_singleton, not_or] at hfd'
    rw [attach_slot_ne hfd'.2]
    exact h.free fd' hfd'.1

/-- All standard descriptors, or none. -/
theorem initializeStandardDescriptors {standard : List (FdIndex × OpenObjectKind × Flags)}
    (hnd : (attached ++ standard.map Prod.fst).Nodup)
    (hstandard : ∀ entry ∈ standard, entry.2.1.hasBackend = false ∧ entry.2.1.occupied)
    (hsp : (r₀.spaces sp).occupied) (h : Initializing exact r₀ r c sp attached) :
    Initializing exact r₀ (initializeStandardDescriptors sp attached standard r).2 c sp
      (bif (initializeStandardDescriptors sp attached standard r).1 then
        attached ++ standard.map Prod.fst else []) := by
  induction standard generalizing attached r with
  | nil => simpa [initializeStandardDescriptors] using h
  | cons entry standard ih =>
    obtain ⟨fd, kind, statusFlags⟩ := entry
    simp only [initializeStandardDescriptors]
    cases halloc : r.allocateObject (r.spaces sp).owner kind statusFlags with
    | none => exact h.foldl_detachStandard
    | some =>
      obtain ⟨hback, hocc⟩ := hstandard _ List.mem_cons_self
      have hfd : fd ∉ attached := fun hmem =>
        (List.nodup_append.mp hnd).2.2 fd hmem fd List.mem_cons_self rfl
      have hattach := h.attach hfd hback hocc hsp halloc
      have hlist : attached ++ ((fd, kind, statusFlags) :: standard).map Prod.fst =
          attached ++ [fd] ++ standard.map Prod.fst := List.append_cons ..
      rw [hlist] at hnd ⊢
      exact ih hnd (fun entry hent => hstandard entry (List.mem_cons_of_mem _ hent)) hattach

end Initializing

theorem findSpace_eq_some (h : r.findSpace owner = some sp) :
    (r.spaces sp).occupied ∧ (r.spaces sp).owner = owner := by
  have hsp := position_some h
  rwa [Bool.and_eq_true, beq_iff_eq] at hsp

theorem setOwner_balanced (h : Balanced exact r c)
    (hfree : owner.valid = false → ∀ fd, (r.slot sp fd).object = none) :
    Balanced exact (r.setOwner sp owner) c := by
  refine ⟨?_, ?_, h.dead, h.unissued, ?_⟩
  · rw [setOwner_slotCount]
    exact h.object
  · rw [setOwner_slotCount]
    exact h.vacant
  · intro sp' hsp' fd
    rw [setOwner_slot]
    by_cases heq : sp' = sp
    · subst heq
      refine hfree ?_ fd
      simpa [DescriptorSpace.occupied, setOwner, setSpace] using hsp'
    · refine h.spaces sp' ?_ fd
      simpa [DescriptorSpace.occupied, setOwner, setSpace, heq] using hsp'

theorem standardDescriptors_consoles : ∀ entry ∈ standardDescriptors,
    entry.2.1.hasBackend = false ∧ entry.2.1.occupied := by
  simp [standardDescriptors, OpenObjectKind.hasBackend, OpenObjectKind.occupied]

theorem ensureSpace_sound (owner : ProcessHandle) (h : Balanced exact r c) :
    Sound exact r (r.ensureSpace owner).2 (.only c) ∧ ∀ sp, (r.ensureSpace owner).1 = .ok sp →
        ((r.ensureSpace owner).2.spaces sp).occupied := by
  simp only [ensureSpace]
  split
  · exact ⟨.refl h, fun _ hc => by cases hc⟩
  next hval =>
  split
  next hsp =>
    refine ⟨.refl h, fun sp' hsp' => ?_⟩
    cases hsp'
    exact (findSpace_eq_some hsp).1
  split
  · exact ⟨.refl h, fun _ hc => by cases hc⟩
  next sp hfree =>
  have hvac : (r.spaces sp).occupied = false := by simpa using position_some hfree
  have hemp := h.spaces sp hvac
  have hown : ((r.setOwner sp owner).spaces sp).occupied := by
    simpa [DescriptorSpace.occupied, setOwner, setSpace] using hval
  have hstart : Initializing exact (r.setOwner sp owner) (r.setOwner sp owner) c sp [] := by
    have hno (fd : FdIndex) : ((r.setOwner sp owner).slot sp fd).object = none := by
      rw [setOwner_slot]
      exact hemp fd
    refine ⟨setOwner_balanced h fun _ => hemp, .refl _, rfl, fun fd i hslot => ?_,
      fun fd _ => hno fd⟩
    simp [hemp fd] at hslot
  have hdone := hstart.initializeStandardDescriptors (by decide)
    standardDescriptors_consoles hown
  have hsame : Moves r (r.setOwner sp owner) [] [] := .of_objects rfl
  have hwhole := hsame.trans hdone.moves
  split
  next heq =>
    rw [heq] at hdone hwhole
    refine ⟨⟨hdone.balanced, hwhole⟩, ?_⟩
    intro sp' hsp'
    cases hsp'
    rw [DescriptorSpace.occupied, hdone.owner]
    exact hown
  next r' heq =>
    rw [heq] at hdone hwhole
    exact ⟨⟨setOwner_balanced hdone.balanced fun _ fd => hdone.free fd List.not_mem_nil,
      hwhole.trans (.of_objects rfl)⟩, fun _ hc => by cases hc⟩

section

variable {α : Type} {effect : Except DescriptorError α → Effect}

/-- A section in the space of a process, by what it does once there is one. -/
theorem inSpace_sound {body : SpaceIndex → Registry → Except DescriptorError α × Registry}
    (h : Balanced exact r c) (herr : ∀ error, effect (.error error) = .only c)
    (hbody : ∀ sp r, Balanced exact r c → (r.spaces sp).occupied →
      Meets exact r effect (body sp r)) :
    Meets exact r effect (inSpace owner body r) := by
  obtain ⟨hsp, hocc⟩ := ensureSpace_sound owner h
  simp only [inSpace]
  split
  next error r' heq =>
    rw [heq] at hsp
    rw [Meets, herr]
    exact hsp
  next sp r' heq =>
    rw [heq] at hsp hocc
    exact (hbody sp r' hsp.balanced (hocc sp rfl)).after hsp.moves

theorem lookup_eq_some {fd : ℕ} {slot : FdIndex} (h : r.lookup sp fd = some (slot, i)) :
    (r.slot sp slot).object = some i := by
  simp only [lookup] at h
  split at h
  · obtain ⟨j, hj, heq⟩ := Option.map_eq_some_iff.mp h
    cases heq
    exact hj
  · cases h

/-- A section on the object of a descriptor. -/
theorem onDescriptor_sound {fd : ℕ} {body : SpaceIndex → FdIndex →
      ObjectIndex → Registry → Except DescriptorError α × Registry}
    (h : Balanced exact r c) (herr : ∀ error, effect (.error error) = .only c)
    (hbody : ∀ sp fd i r, Balanced exact r c → (r.spaces sp).occupied →
      (r.slot sp fd).object = some i →
      Meets exact r effect (body sp fd i r)) :
    Meets exact r effect (onDescriptor owner fd body r) := by
  refine inSpace_sound h herr fun sp r hr hsp => ?_
  split
  · rw [Meets, herr]
    exact .refl hr
  · next slot i hlookup => exact hbody sp slot i r hr hsp (lookup_eq_some hlookup)

end

/-! ### References -/

/-- What is left to do after a section that drops descriptors. -/
def Effect.leftover (c : Credits) (leftover : Leftover) : Effect := ⟨c, [], leftover.1.toList⟩

theorem unshareObject_sound (h : Balanced exact r (Credits.one (r.keyAt i) .token + c)) :
    Meets exact r (.leftover c) (r.unshareObject i) :=
  ⟨h.unshare, .settle h.held_of_token.1 ⟨rfl, rfl, rfl⟩⟩

/-- A slot is emptied and its object loses a descriptor. -/
theorem setSlot_unshareObject (h : Balanced exact r c) (hslot : (r.slot sp fd).object = some i) :
    Meets exact r (.leftover c) ((r.setSlot sp fd .empty).unshareObject i) :=
  (unshareObject_sound (h.lift hslot)).after (.of_objects rfl)

theorem shareObject_eq_some (h : r.shareObject i = some r') : r' = r.reserve (r.keyAt i) := by
  simp only [shareObject] at h
  split at h
  next hrefs hdescs =>
    cases h
    obtain ⟨-, rfl⟩ := checkedAdd_eq_some.mp hrefs
    obtain ⟨-, rfl⟩ := checkedAdd_eq_some.mp hdescs
    rfl
  · cases h

theorem reserve_moves (key : ObjectKey) : Moves r (r.reserve key) [] [] :=
  .setObject ⟨rfl, rfl, rfl⟩

end ArachKernel.LinuxFd
