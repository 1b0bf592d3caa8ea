import ArachKernel.Linux.Registry
import Mathlib.Algebra.Group.Pi.Basic

/-!
The counters of open objects against what points to them. Besides the descriptor
slots of the registry, five things outside of it bear on an object: tokens in
transit, epoll watches, watch references still to be dropped, watches whose
reference is still to be taken, and leases. A `Credit` counts them for one key.

`Balanced exact r c` says that the counters of every object agree with the slots of
`r` and the credits `c`. While threads interleave, this can be said only of objects
that are not closing; `exact` says it of all.
-/

namespace ArachKernel.LinuxFd

open Table Registry DescriptorSlot Function

/-! ### Credits -/

/-- What bears on one object from outside the registry. -/
@[ext] structure Credit where
  tokens : ℕ
  watches : ℕ
  owed : ℕ
  published : ℕ
  leases : ℕ

namespace Credit

@[simps] instance : Zero Credit := ⟨⟨0, 0, 0, 0, 0⟩⟩

@[simps] instance : Add Credit :=
  ⟨fun a b => ⟨a.tokens + b.tokens, a.watches + b.watches, a.owed + b.owed,
    a.published + b.published, a.leases + b.leases⟩⟩

instance : AddCommMonoid Credit where
  add_assoc a b c := by ext <;> simp [Nat.add_assoc]
  zero_add a := by ext <;> simp
  add_zero a := by ext <;> simp
  add_comm a b := by ext <;> simp [Nat.add_comm]
  nsmul := nsmulRec

variable (a : Credit)

def token : Credit := ⟨1, 0, 0, 0, 0⟩
def watch : Credit := ⟨0, 1, 0, 0, 0⟩
def owing : Credit := ⟨0, 0, 1, 0, 0⟩
def publication : Credit := ⟨0, 0, 0, 1, 0⟩
def lease : Credit := ⟨0, 0, 0, 0, 1⟩

theorem token_add : token + a = { a with tokens := a.tokens + 1 } := by
  ext <;> simp [token, Nat.add_comm]

theorem owing_add : owing + a = { a with owed := a.owed + 1 } := by
  ext <;> simp [owing, Nat.add_comm]

theorem publication_add : publication + a = { a with published := a.published + 1 } := by
  ext <;> simp [publication, Nat.add_comm]

theorem lease_add : lease + a = { a with leases := a.leases + 1 } := by
  ext <;> simp [lease, Nat.add_comm]

/-- What can be left for a key whose object is gone. -/
structure Dead (exact : Prop) (credit : Credit) : Prop where
  tokens : credit.tokens = 0
  leases : credit.leases = 0
  published : credit.published = 0
  watches : exact → credit.watches = 0
  owed : exact → credit.owed = 0

theorem dead_zero {exact : Prop} : Dead exact 0 := ⟨rfl, rfl, rfl, fun _ => rfl, fun _ => rfl⟩

end Credit

abbrev Credits := ObjectKey → Credit

/-- A credit for a single key. -/
def Credits.one (key : ObjectKey) (credit : Credit) : Credits := Pi.single key credit

namespace Credits

variable {key key' : ObjectKey} {credit : Credit} {c : Credits}

@[simp] theorem one_self : one key credit key = credit := by
  rw [one, Pi.single_eq_same]

theorem one_add_self : (one key credit + c) key = credit + c key := by
  rw [Pi.add_apply, one, Pi.single_eq_same]

theorem one_add_of_ne (h : key' ≠ key) : (one key credit + c) key' = c key' := by
  rw [Pi.add_apply, one, Pi.single_eq_of_ne h, zero_add]

end Credits

/-! ### Counting slots -/

/-- How often a slot names an object: once or not at all. -/
def DescriptorSlot.names (i : ObjectIndex) (slot : DescriptorSlot) : ℕ :=
  if slot.object = some i then 1 else 0

variable {j : ObjectIndex}

namespace Registry

/-- The number of descriptor slots, in all spaces, that name an object. -/
def slotCount (r : Registry) (i : ObjectIndex) : ℕ :=
  total (fun space : DescriptorSpace => total (DescriptorSlot.names i) space.descriptors) r.spaces

variable {r : Registry} {i : ObjectIndex} {o : OpenObject}

@[simp] theorem setObject_slotCount : (r.setObject i o).slotCount = r.slotCount := rfl

variable {sp : SpaceIndex} {fd : FdIndex}

@[simp] theorem setObject_objects_self : (r.setObject i o).objects i = o := update_self ..

theorem setObject_objects_ne (h : j ≠ i) :
    (r.setObject i o).objects j = r.objects j := update_of_ne h ..

@[elab_as_elim] theorem setObject_cases {motive : ObjectIndex → OpenObject → Prop}
    (self : motive i o) (other : ∀ j, j ≠ i → motive j (r.objects j))
    (j : ObjectIndex) : motive j ((r.setObject i o).objects j) :=
  update_cases (motive := motive) self other j

variable {slot : DescriptorSlot}

@[simp] theorem setSlot_objects : (r.setSlot sp fd slot).objects = r.objects := rfl

variable {owner : ProcessHandle}

@[simp] theorem setOwner_objects : (r.setOwner sp owner).objects = r.objects := rfl

@[simp] theorem setSlot_slot_self : (r.setSlot sp fd slot).slot sp fd = slot := by
  simp [setSlot, setSpace, Registry.slot]

variable {sp sp' : SpaceIndex}

theorem setSlot_slot_ne {fd' : FdIndex} (h : (sp', fd') ≠ (sp, fd)) :
    (r.setSlot sp fd slot).slot sp' fd' = r.slot sp' fd' := by
  by_cases hsp : sp' = sp
  · subst hsp
    have hfd : fd' ≠ fd := fun hfd => h (by rw [hfd])
    simp [setSlot, setSpace, Registry.slot, hfd]
  · simp [setSlot, setSpace, Registry.slot, hsp]

@[simp] theorem setSlot_owner :
    ((r.setSlot sp fd slot).spaces sp').owner = (r.spaces sp').owner := by
  by_cases hsp : sp' = sp
  · subst hsp
    simp [setSlot, setSpace]
  · simp [setSlot, setSpace, hsp]

@[simp] theorem setOwner_slot : (r.setOwner sp owner).slot sp' fd = r.slot sp' fd := by
  by_cases hsp : sp' = sp
  · subst hsp
    simp [setOwner, setSpace, slot]
  · simp [setOwner, setSpace, slot, hsp]

@[simp] theorem setOwner_slotCount : (r.setOwner sp owner).slotCount = r.slotCount := by
  funext i
  exact total_update_of_eq _ _ rfl

/-- Writing a slot moves one reference from the old object to the new one. -/
theorem setSlot_slotCount (sp : SpaceIndex) (fd : FdIndex) (slot : DescriptorSlot)
    (i : ObjectIndex) :
    (r.setSlot sp fd slot).slotCount i + (r.slot sp fd).names i = r.slotCount i + slot.names i := by
  have houter := total_update
    (fun space : DescriptorSpace => total (names i) space.descriptors) r.spaces sp
    { r.spaces sp with descriptors := update (r.spaces sp).descriptors fd slot }
  have hinner := total_update (names i) (r.spaces sp).descriptors fd slot
  simp only [slotCount, setSlot, setSpace, Registry.slot] at *
  omega

/-- A slot that names an object counts for it. -/
theorem slotCount_pos (h : (r.slot sp fd).object = some i) : 0 < r.slotCount i := by
  have hnames : 0 < (r.slot sp fd).names i := by simp [names, h]
  exact total_pos.mpr ⟨sp, total_pos.mpr ⟨fd, hnames⟩⟩

/-! ### Keys -/

@[simp] theorem keyAt_index : (r.keyAt i).index = i := rfl

@[simp] theorem keyAt_generation : (r.keyAt i).generation = (r.objects i).generation := rfl

@[simp] theorem live_keyAt : r.live (r.keyAt i) = (r.objects i).kind.occupied := by
  simp [live]

theorem exists_of_live {key : ObjectKey} (h : r.live key) :
    ∃ i, key = r.keyAt i ∧ (r.objects i).kind.occupied := by
  obtain ⟨index, generation⟩ := key
  simp only [live, Bool.and_eq_true, beq_iff_eq] at h
  exact ⟨index, by rw [keyAt, h.2], h.1⟩

theorem generation_of_live {key : ObjectKey} (h : r.live key) :
    (r.objects key.index).generation = key.generation := by
  simp only [live, Bool.and_eq_true, beq_iff_eq] at h
  exact h.2

end Registry

/-! ### Balance -/

/-- The counters of one occupied object agree with what bears on it. -/
structure ObjectCounted (exact : Prop) (object : OpenObject) (slots : ℕ) (credit : Credit) :
    Prop where
  generation_pos : 0 < object.generation
  descriptors : object.descriptorReferences = slots + credit.tokens
  active : object.activeOperations = credit.leases
  closing_iff : object.closing ↔ object.descriptorReferences = 0
  references : exact ∨ object.closing = false → object.references + credit.published =
      object.descriptorReferences + credit.watches + credit.owed
  published_le : exact ∨ object.closing = false → credit.published ≤ credit.watches
  published_le_leases : credit.published ≤ credit.leases

/-- An object stays in the table only as long as something holds it. -/
structure ObjectBalanced (exact : Prop) (object : OpenObject) (slots : ℕ) (credit : Credit) :
    Prop extends ObjectCounted exact object slots credit where
  busy : object.closing → object.references = 0 → object.activeOperations ≠ 0

structure Balanced (exact : Prop) (r : Registry) (c : Credits) : Prop where
  object : ∀ i, (r.objects i).kind.occupied →
    ObjectBalanced exact (r.objects i) (r.slotCount i) (c (r.keyAt i))
  vacant : ∀ i, (r.objects i).kind.occupied = false → r.slotCount i = 0 ∧
    r.objects i = { OpenObject.empty with generation := (r.objects i).generation }
  dead : ∀ key, r.live key = false → (c key).Dead exact
  unissued : ∀ key : ObjectKey, (r.objects key.index).generation < key.generation → c key = 0
  spaces : ∀ sp, (r.spaces sp).occupied = false → ∀ fd, (r.slot sp fd).object = none

end ArachKernel.LinuxFd
