import ArachKernel.Lib.Guarded
import ArachKernel.Lease.Lattice
import Mathlib.Logic.Relation

/-!
Runs of the lease calls, with a history beside the table. The table forgets a lease
when it is revoked and reuses its slot, so the history numbers the leases in the order
they are issued: for each it has the record as it was written and the lease it was
attenuated from, and it says which lease the record in a slot belongs to.
-/

namespace ArachKernel.Lease

open Function LeaseState List

open Fallible (bind_eq_ok check_eq_ok)
open Table

variable {n : ℕ}

/-- A lease as it was issued. -/
structure Issued (n : ℕ) where
  slot : Fin n
  record : LeaseRecord
  parent : Option ℕ

def Issued.token (lease : Issued n) : LeaseToken :=
  .new lease.slot lease.record.generation lease.record.tag

structure History (n : ℕ) where
  state : LeaseState n
  issued : List (Issued n)
  owner : Fin n → Option ℕ
  revoked : List ℕ
  admissions : List ℕ

namespace History

def start (n : ℕ) : History n := ⟨.new n, [], fun _ => none, [], []⟩

/-- The lease whose record a token leads to. -/
def leaseAt (h : History n) (token : LeaseToken) : Option ℕ :=
  if hslot : token.slot < n then h.owner ⟨token.slot, hslot⟩ else none

/-- A new lease in a slot of the new state. -/
def issue (h : History n) (state : LeaseState n) (slot : Fin n) (parent : Option ℕ) : History n :=
  { h with
    state
    issued := h.issued ++ [⟨slot, state.records slot, parent⟩]
    owner := update h.owner slot (some h.issued.length) }

/-- One lease was attenuated from the other. -/
def ParentOf (h : History n) (parent child : ℕ) : Prop :=
  ∃ lease, h.issued[child]? = some lease ∧ lease.parent = some parent

/-- A lease comes from another, directly or through a chain, or is the same. -/
def Descends (h : History n) (lease ancestor : ℕ) : Prop :=
  Relation.ReflTransGen h.ParentOf ancestor lease

end History

inductive Call
  | issueRoot (rights : LeaseRights) (notBefore expiresAt : ℕ) (quota : UInt32)
  | attenuate (parentToken : LeaseToken) (rights : LeaseRights) (expiresAt : ℕ) (quota : UInt32)
      (nowTick : ℕ)
  | admitToken (token : LeaseToken) (required : LeaseRights) (nowTick : ℕ)
  | revoke (token : LeaseToken)

/-- The history after a call. -/
def History.call (secret : BitVec 64) (h : History n) : Call → History n
  | .issueRoot rights notBefore expiresAt quota =>
    match issueRoot secret rights notBefore expiresAt quota h.state, h.state.freeSlot with
    | .ok (_, state), some slot => h.issue state slot none
    | _, _ => h
  | .attenuate parentToken rights expiresAt quota nowTick =>
    match attenuate secret parentToken rights expiresAt quota nowTick h.state,
      h.state.freeSlot with
    | .ok (_, state), some slot => h.issue state slot (h.leaseAt parentToken)
    | _, _ => h
  | .admitToken token required nowTick =>
    match admitToken token required nowTick h.state with
    | .ok (_, state) =>
      { h with state, admissions := (h.leaseAt token).toList ++ h.admissions }
    | .error _ => h
  | .revoke token =>
    match revoke token h.state with
    | .ok state =>
      { h with
        state
        owner := if hslot : token.slot < n then update h.owner ⟨token.slot, hslot⟩ none
          else h.owner
        revoked := (h.leaseAt token).toList ++ h.revoked }
    | .error _ => h

inductive Reached (secret : BitVec 64) : History n → Prop
  | start : Reached secret (.start n)
  | call {h : History n} (before : Reached secret h) (call : Call) :
      Reached secret (h.call secret call)

/-! ### What a call can do -/

section Inversion

variable {state state' : LeaseState n} {token parentToken : LeaseToken} {slot : Fin n}

/-- A token the table accepts names a slot with an active record of its generation and
tag. -/
structure Names (state : LeaseState n) (token : LeaseToken) (slot : Fin n) : Prop where
  slot_eq : token.slot = slot
  active : (state.records slot).active
  generation_eq : (state.records slot).generation = token.generation
  tag_eq : (state.records slot).tag = token.tag

theorem names_of_validateTokenWithoutTime (h : validateTokenWithoutTime state token = .ok slot) :
    Names state token slot := by
  rw [validateTokenWithoutTime] at h
  split at h
  · dsimp only at h
    split at h
    next => cases h
    next hact =>
    split at h
    next => cases h
    next htag =>
      cases h
      simp only [not_or, not_not] at hact htag
      exact ⟨rfl, hact.1, hact.2, htag⟩
  · cases h

variable {nowTick : ℕ}

theorem names_of_validateToken (h : validateToken state token nowTick = .ok slot) :
    Names state token slot := by
  obtain ⟨index, hidx, h⟩ := bind_eq_ok.mp h
  rw [check_eq_ok, check_eq_ok] at h
  obtain ⟨-, -, h⟩ := h
  cases h
  exact names_of_validateTokenWithoutTime hidx

theorem leaseAt_of_names {h : History n} (hnames : Names h.state token slot) :
    h.leaseAt token = h.owner slot := by
  have hlt : token.slot < n := hnames.slot_eq ▸ slot.isLt
  rw [History.leaseAt, dif_pos hlt]
  congr 1
  exact Fin.ext hnames.slot_eq

/-- The record `issue_root` writes, before it is sealed. -/
def LeaseState.rootRecord (state : LeaseState n) (slot : Fin n) (rights : LeaseRights)
    (notBefore expiresAt : ℕ) (quota : UInt32) : LeaseRecord :=
  ⟨true, nextGeneration (state.records slot).generation, 0, rights, rootParent, 0, notBefore,
    expiresAt, quota.toNat, 0, 0⟩

variable {rights : LeaseRights} {expiresAt : ℕ} {quota : UInt32}

theorem issueRoot_ok {secret : BitVec 64} {notBefore : ℕ}
    (h : issueRoot secret rights notBefore expiresAt quota state = .ok (token, state')) :
    ∃ slot, state.freeSlot = some slot ∧ (token, state') =
      state.insert secret slot (state.rootRecord slot rights notBefore expiresAt quota) := by
  obtain ⟨-, -, h⟩ := bind_eq_ok.mp h
  obtain ⟨-, h⟩ := check_eq_ok.mp h
  split at h
  · cases h
  next slot hfree => exact ⟨slot, hfree, (Except.ok.inj h).symm⟩

/-- What a lease must be like to be attenuated as asked. -/
structure Delegable (state : LeaseState n) (parent : Fin n) (rights : LeaseRights)
    (expiresAt : ℕ) (quota : UInt32) : Prop where
  ancestry : validateAncestry state parent = .ok ()
  depth_lt : (state.records parent).depth < maximumDelegationDepth
  rights_le : (state.records parent).rights.contains rights
  expires_le : expiresAt ≤ (state.records parent).expiresAt
  quota_le : quota.toNat ≤ (state.records parent).quotaLimit - (state.records parent).uses

/-- The record `attenuate` writes, before it is sealed. -/
def LeaseState.childRecord (state : LeaseState n) (parent slot : Fin n) (rights : LeaseRights)
    (expiresAt : ℕ) (quota : UInt32) (nowTick : ℕ) : LeaseRecord :=
  (state.records parent).child parent (nextGeneration (state.records slot).generation) rights
    expiresAt quota.toNat nowTick

theorem attenuate_ok {secret : BitVec 64}
    (h : attenuate secret parentToken rights expiresAt quota nowTick state = .ok (token, state')) :
    ∃ parent slot, Names state parentToken parent ∧
      Delegable state parent rights expiresAt quota ∧ state.freeSlot = some slot ∧
      (token, state') = (state.use parent quota.toNat).insert secret slot
        (state.childRecord parent slot rights expiresAt quota nowTick) := by
  rw [attenuate, check_eq_ok, bind_eq_ok] at h
  obtain ⟨-, parent, hpar, h⟩ := h
  obtain ⟨_, hanc, h⟩ := bind_eq_ok.mp h
  rw [check_eq_ok, check_eq_ok, check_eq_ok, check_eq_ok, check_eq_ok] at h
  obtain ⟨-, hdepth, hrts, hexpires, hquota, h⟩ := h
  split at h
  · cases h
  next slot hfree =>
    exact ⟨parent, slot, names_of_validateToken hpar,
      ⟨hanc, by omega, not_not.mp hrts, by omega, by omega⟩, hfree,
      (Except.ok.inj h).symm⟩

theorem admit_ok {required : LeaseRights} {admission : LeaseAdmission}
    (h : admitToken token required nowTick state = .ok (admission, state')) :
    ∃ slot, Names state token slot ∧ validateAncestry state slot = .ok () ∧
      (state.records slot).uses < (state.records slot).quotaLimit ∧ state' = state.use slot 1 := by
  obtain ⟨slot, hidx, h⟩ := bind_eq_ok.mp h
  obtain ⟨_, hanc, h⟩ := bind_eq_ok.mp h
  rw [check_eq_ok, check_eq_ok] at h
  obtain ⟨-, huses, h⟩ := h
  cases h
  exact ⟨slot, names_of_validateToken hidx, hanc, by omega, rfl⟩

/-- The state after a record is taken out of a slot. -/
def LeaseState.vacate (state : LeaseState n) (slot : Fin n) : LeaseState n :=
  { state with
    records := update state.records slot
      { LeaseRecord.empty with
        generation := nextGeneration (state.records slot).generation } }

theorem revoke_ok (h : revoke token state = .ok state') : ∃ slot, Names state token slot := by
  obtain ⟨slot, hidx, _⟩ := bind_eq_ok.mp h
  exact ⟨slot, names_of_validateTokenWithoutTime hidx⟩

theorem validateTokenWithoutTime_of_names (h : Names state token slot) :
    validateTokenWithoutTime state token = .ok slot := by
  have hlt : token.slot < n := h.slot_eq ▸ slot.isLt
  have hslot : (⟨token.slot, hlt⟩ : Fin n) = slot := Fin.ext h.slot_eq
  rw [validateTokenWithoutTime, dif_pos hlt, hslot]
  simp [h.active, h.generation_eq, h.tag_eq]

theorem revoke_of_names (h : Names state token slot) :
    revoke token state = .ok (state.vacate slot) := by
  rw [revoke, validateTokenWithoutTime_of_names h]
  rfl

end Inversion

/-! ### Steps of a history -/

variable {h : History n} {secret : BitVec 64} {slot : Fin n}

theorem History.call_revoke {token : LeaseToken} (hnames : Names h.state token slot) :
    h.call secret (.revoke token) =
      { h with
        state := h.state.vacate slot
        owner := update h.owner slot none
        revoked := (h.owner slot).toList ++ h.revoked } := by
  have hlt : token.slot < n := hnames.slot_eq ▸ slot.isLt
  have hslot : (⟨token.slot, hlt⟩ : Fin n) = slot := Fin.ext hnames.slot_eq
  simp [History.call, revoke_of_names hnames, leaseAt_of_names hnames, dif_pos hlt, hslot]

/-- The ways a call changes a history. -/
inductive Change (secret : BitVec 64) (h : History n) : Call → History n → Prop
  | unchanged (call : Call) : Change secret h call h
  | issued {slot : Fin n} (hfree : h.state.freeSlot = some slot) (rights : LeaseRights)
      (notBefore expiresAt : ℕ) (quota : UInt32) :
      Change secret h (.issueRoot rights notBefore expiresAt quota)
        (h.issue (h.state.insert secret slot
          (h.state.rootRecord slot rights notBefore expiresAt quota)).2 slot none)
  | attenuated {parentToken : LeaseToken} {parent slot : Fin n} {rights : LeaseRights}
      {expiresAt : ℕ} {quota : UInt32} (hnames : Names h.state parentToken parent)
      (hparent : Delegable h.state parent rights expiresAt quota)
      (hfree : h.state.freeSlot = some slot) (nowTick : ℕ) :
      Change secret h (.attenuate parentToken rights expiresAt quota nowTick)
        (h.issue ((h.state.use parent quota.toNat).insert secret slot
          (h.state.childRecord parent slot rights expiresAt quota nowTick)).2 slot
          (h.owner parent))
  | admitted {token : LeaseToken} {slot : Fin n} (hnames : Names h.state token slot)
      (huses : (h.state.records slot).uses < (h.state.records slot).quotaLimit)
      (required : LeaseRights) (nowTick : ℕ) :
      Change secret h (.admitToken token required nowTick)
        { h with
          state := h.state.use slot 1
          admissions := (h.owner slot).toList ++ h.admissions }
  | revoked {token : LeaseToken} {slot : Fin n} (hnames : Names h.state token slot) :
      Change secret h (.revoke token)
        { h with
          state := h.state.vacate slot
          owner := update h.owner slot none
          revoked := (h.owner slot).toList ++ h.revoked }

theorem History.change_call (secret : BitVec 64) (h : History n) (call : Call) :
    Change secret h call (h.call secret call) := by
  cases call with
  | issueRoot rights notBefore expiresAt quota =>
    rw [History.call]
    split
    next state slot hissue hfree =>
      obtain ⟨slot', hfree', heq⟩ := issueRoot_ok hissue
      rw [hfree] at hfree'
      cases hfree'
      obtain rfl : state = _ := congrArg Prod.snd heq
      exact .issued hfree rights notBefore expiresAt quota
    · exact .unchanged _
  | attenuate parentToken rights expiresAt quota nowTick =>
    rw [History.call]
    split
    next state slot hissue hfree =>
      obtain ⟨parent, slot', hnames, hpar, hfree', heq⟩ := attenuate_ok hissue
      rw [hfree] at hfree'
      cases hfree'
      obtain rfl : state = _ := congrArg Prod.snd heq
      rw [leaseAt_of_names hnames]
      exact .attenuated hnames hpar hfree nowTick
    · exact .unchanged _
  | admitToken token required nowTick =>
    rw [History.call]
    split
    next hadm =>
      obtain ⟨slot, hnames, -, huses, rfl⟩ := admit_ok hadm
      rw [leaseAt_of_names hnames]
      exact .admitted hnames huses required nowTick
    · exact .unchanged _
  | revoke token =>
    cases hrevoke : revoke token h.state with
    | ok =>
      obtain ⟨slot, hnames⟩ := revoke_ok hrevoke
      rw [History.call_revoke hnames]
      exact .revoked hnames
    | error =>
      simp only [History.call, hrevoke]
      exact .unchanged _

/-! ### Issued leases -/

variable {id : ℕ} {state : LeaseState n}

namespace History

theorem getElem?_issue (h : History n) (state : LeaseState n) (slot : Fin n)
    (parent : Option ℕ) (id : ℕ) : (h.issue state slot parent).issued[id]? =
      if id = h.issued.length then some ⟨slot, state.records slot, parent⟩ else h.issued[id]? := by
  rw [issue]
  split
  next heq => rw [heq, getElem?_concat_length]
  rw [getElem?_append]
  split
  · rfl
  · rw [getElem?_eq_none (by simp; omega), getElem?_eq_none (by omega)]

variable {parent : Option ℕ} {lease : Issued n}

theorem issued_of_issue (hlease : (h.issue state slot parent).issued[id]? = some lease) :
    id = h.issued.length ∧ lease = ⟨slot, state.records slot, parent⟩ ∨
      h.issued[id]? = some lease := by
  rw [getElem?_issue] at hlease
  split at hlease
  next heq => exact .inl ⟨heq, (Option.some.inj hlease).symm⟩
  · exact .inr hlease

theorem issue_keeps (hlease : h.issued[id]? = some lease) :
    (h.issue state slot parent).issued[id]? = some lease := by
  rw [getElem?_issue, if_neg (List.getElem?_eq_some_iff.mp hlease).1.ne]
  exact hlease

end History

/-! ### The history keeps track of the table -/

/-- Two records that differ at most in their uses. -/
def LeaseRecord.Same (record other : LeaseRecord) : Prop :=
  other = { record with uses := other.uses }

theorem LeaseRecord.Same.refl (record : LeaseRecord) : record.Same record := rfl

theorem LeaseRecord.Same.trans {a b c : LeaseRecord} (hab : a.Same b) (hbc : b.Same c) :
    a.Same c := by
  rw [LeaseRecord.Same] at hab hbc ⊢
  rw [hbc, hab]

@[simp] theorem LeaseState.records_insert (state : LeaseState n) (secret : BitVec 64)
    (slot : Fin n) (record : LeaseRecord) : (state.insert secret slot record).2.records =
      update state.records slot (record.sealed secret slot state.issuanceNonce) := rfl

theorem LeaseState.same_use (state : LeaseState n) (slot : Fin n) (count : ℕ) (other : Fin n) :
    (state.records other).Same ((state.use slot count).records other) := by
  dsimp only [use]
  exact update_cases rfl (fun _ _ => rfl) other

/-- The active records are those of the owners, as they were issued. -/
structure Tracked (h : History n) : Prop where
  active_iff : ∀ {slot}, (h.state.records slot).active ↔ ∃ id, h.owner slot = some id
  owner_injective : ∀ {slot slot' id}, h.owner slot = some id → h.owner slot' = some id →
    slot = slot'
  owner_issued : ∀ {slot id}, h.owner slot = some id → ∃ lease, h.issued[id]? = some lease ∧
    lease.slot = slot ∧ lease.record.Same (h.state.records slot)

theorem Tracked.lt_length (ht : Tracked h)
    (hid : h.owner slot = some id) : id < h.issued.length := by
  obtain ⟨lease, hlease, -⟩ := ht.owner_issued hid
  exact (List.getElem?_eq_some_iff.mp hlease).1

theorem Tracked.issue (ht : Tracked h)
    (hsame : ∀ other, other ≠ slot → (h.state.records other).Same (state.records other))
    (hact : (state.records slot).active) (parent : Option ℕ) :
    Tracked (h.issue state slot parent) := by
  have hactiveSame : ∀ {other}, other ≠ slot →
      (state.records other).active = (h.state.records other).active := fun hne => by
    rw [hsame _ hne]
  have hnew {s : Fin n} {id : ℕ} (hs : h.owner s = some id) : some h.issued.length ≠ some id :=
    fun heq => (ht.lt_length hs).ne' (Option.some.inj heq)
  refine ⟨fun {other} => ?_, fun {s s' id} => ?_, fun {other id} => ?_⟩ <;>
    dsimp only [History.issue]
  · refine update_cases (iff_of_true hact ⟨_, rfl⟩) (fun other hne => ?_) other
    rw [hactiveSame hne, ht.active_iff]
  · refine update_cases ?_ (fun s _ => ?_) s <;> refine update_cases ?_ (fun s' _ => ?_) s'
    · exact fun _ _ => rfl
    · exact fun hs hs' => absurd hs (hnew hs')
    · exact fun hs hs' => absurd hs' (hnew hs)
    · exact ht.owner_injective
  · refine update_cases (fun hid => ?_) (fun other hne hid => ?_) other
    · cases hid
      exact ⟨⟨slot, state.records slot, parent⟩, getElem?_concat_length, rfl, .refl _⟩
    · obtain ⟨lease, hlease, hslot, hrec⟩ := ht.owner_issued hid
      refine ⟨lease, ?_, hslot, hrec.trans (hsame other hne)⟩
      exact (getElem?_append_left (ht.lt_length hid)).trans hlease

theorem Tracked.same (ht : Tracked h)
    (hsame : ∀ slot, (h.state.records slot).Same (state.records slot)) (admissions : List ℕ) :
    Tracked { h with state, admissions } := by
  refine ⟨?_, ht.owner_injective, ?_⟩
  · intro slot
    rw [← ht.active_iff]
    rw [hsame slot]
  · intro slot id hid
    obtain ⟨lease, hlease, hslot, hrec⟩ := ht.owner_issued hid
    exact ⟨lease, hlease, hslot, hrec.trans (hsame slot)⟩

theorem Tracked.vacate (ht : Tracked h) (slot : Fin n) (revoked : List ℕ) : Tracked
      { h with state := h.state.vacate slot, owner := update h.owner slot none, revoked } := by
  have hrec : ∀ {other}, other ≠ slot →
      (h.state.vacate slot).records other = h.state.records other :=
    fun hne => update_of_ne hne _ _
  have hown : ∀ {other id}, update h.owner slot none other = some id →
      other ≠ slot ∧ h.owner other = some id := by
    intro other id hid
    have hne : other ≠ slot := by
      rintro rfl
      simp [update_self] at hid
    rw [update_of_ne hne] at hid
    exact ⟨hne, hid⟩
  refine ⟨?_, ?_, ?_⟩
  · intro other
    dsimp only
    by_cases hne : other = slot
    · subst hne
      simp [LeaseState.vacate, LeaseRecord.empty]
    · rw [hrec hne, update_of_ne hne, ht.active_iff]
  · exact fun hs hs' => ht.owner_injective (hown hs).2 (hown hs').2
  · intro other id hid
    obtain ⟨hne, hid⟩ := hown hid
    rw [hrec hne]
    exact ht.owner_issued hid

theorem Change.tracked {h' : History n} {call : Call}
    (hc : Change secret h call h') (ht : Tracked h) : Tracked h' := by
  cases hc with
  | unchanged => exact ht
  | issued =>
    refine ht.issue (fun other hne => ?_) ?_ none
    · rw [records_insert, update_of_ne hne]
      exact .refl _
    · rw [records_insert, update_self]
      rfl
  | attenuated =>
    refine ht.issue (fun other hne => ?_) ?_ _
    · rw [records_insert, update_of_ne hne]
      exact h.state.same_use _ _ other
    · rw [records_insert, update_self]
      rfl
  | admitted => exact ht.same (h.state.same_use _ _) _
  | revoked => exact ht.vacate _ _

theorem Reached.tracked (hr : Reached secret h) : Tracked h := by
  induction hr with
  | start =>
    refine ⟨?_, nofun, nofun⟩
    refine iff_of_false ?_ (by rintro ⟨id, hid⟩; cases hid)
    exact Bool.false_ne_true
  | call before call ih => exact (History.change_call secret _ call).tracked ih

end ArachKernel.Lease
