import ArachKernel.Lease.History

/-!
Revocation. A token and the reference of a child to its parent name a lease by slot and
generation. The generation of a slot has 16 bits and wraps, so they name a lease for
good only as long as no generation has been used up.
-/

namespace ArachKernel.Lease

open Table Function History LeaseState List

variable {n : ℕ}

/-! ### Reading a token -/

variable {slot generation : ℕ} {tag : BitVec 32}

theorem LeaseToken.slot_new (hslot : slot < 2 ^ 16) :
    (LeaseToken.new slot generation tag).slot = slot := by
  rw [LeaseToken.slot, LeaseToken.new]
  dsimp only
  omega

theorem LeaseToken.generation_new (hgen : generation < 2 ^ 16) :
    (LeaseToken.new slot generation tag).generation = generation := by
  rw [LeaseToken.generation, LeaseToken.new]
  dsimp only
  omega

theorem LeaseToken.tag_new : (LeaseToken.new slot generation tag).tag = tag := by
  have hraw : (LeaseToken.new slot generation tag).raw / 2 ^ 32 = tag.toNat := by
    rw [LeaseToken.new]
    dsimp only
    omega
  rw [LeaseToken.tag, hraw, BitVec.ofNat_toNat, BitVec.setWidth_eq]

/-! ### Runs in which no generation wraps -/

/-- The call does not take up a slot whose generation is used up. -/
def History.Lasts (h : History n) : Call → Prop
  | .issueRoot _ _ _ _ | .attenuate _ _ _ _ _ =>
    ∀ slot, h.state.freeSlot = some slot → (h.state.records slot).generation < u16Max
  | .admitToken _ _ _ => True
  | .revoke token =>
    ∀ slot : Fin n, token.slot = slot → (h.state.records slot).generation < u16Max

/-- The histories of runs whose calls all meet the condition. -/
inductive Lasting (secret : BitVec 64) : History n → Prop
  | start : Lasting secret (.start n)
  | call {h : History n} (before : Lasting secret h) {call : Call} (hcall : h.Lasts call) :
      Lasting secret (h.call secret call)

variable {secret : BitVec 64} {h : History n} {state : LeaseState n}

theorem Lasting.reached (hl : Lasting secret h) : Reached secret h := by
  induction hl with
  | start => exact .start
  | call before hcall ih => exact ih.call _

theorem nextGeneration_eq (h : generation < u16Max) :
    nextGeneration generation = generation + 1 := by
  rw [u16Max] at h
  rw [nextGeneration]
  omega

/-- Slot and generation name a lease for good. -/
structure Unique (h : History n) : Prop extends Tracked h where
  generation_le : ∀ slot, (h.state.records slot).generation ≤ u16Max
  issued_le : ∀ {id : ℕ} {lease : Issued n}, h.issued[id]? = some lease →
    lease.record.generation ≤ (h.state.records lease.slot).generation
  owner_of_generation : ∀ {id : ℕ} {lease : Issued n}, h.issued[id]? = some lease →
    (h.state.records lease.slot).active →
    (h.state.records lease.slot).generation = lease.record.generation →
    h.owner lease.slot = some id
  parent_named : ∀ {id p : ℕ} {lease : Issued n}, h.issued[id]? = some lease →
    lease.parent = some p → ∃ parent, h.issued[p]? = some parent ∧
      lease.record.parentSlot = parent.slot ∧
      lease.record.parentGeneration = parent.record.generation
  revoked_gone : ∀ {id : ℕ} {slot : Fin n}, id ∈ h.revoked → h.owner slot ≠ some id
  revoked_lt : ∀ {id : ℕ}, id ∈ h.revoked → id < h.issued.length

namespace Unique

variable {h : History n}

theorem issue (hu : Unique h) {slot : Fin n} {parent : Option ℕ}
    (ht : Tracked (h.issue state slot parent))
    (hsame : ∀ other, other ≠ slot → (h.state.records other).Same (state.records other))
    (hlt : (h.state.records slot).generation < u16Max)
    (hgen : (state.records slot).generation = (h.state.records slot).generation + 1)
    (hpar : ∀ {p}, parent = some p → ∃ lease, h.issued[p]? = some lease ∧
      (state.records slot).parentSlot = lease.slot ∧
      (state.records slot).parentGeneration = lease.record.generation) :
    Unique (h.issue state slot parent) := by
  have hsameGeneration : ∀ {other}, other ≠ slot →
      (state.records other).generation = (h.state.records other).generation := fun hne => by
    rw [hsame _ hne]
  have hoth : ∀ {other}, other ≠ slot → (h.issue state slot parent).owner other = h.owner other :=
    fun hne => update_of_ne hne _ _
  refine ⟨ht, ?_, ?_, ?_, ?_, ?_, ?_⟩
  · intro other
    change (state.records other).generation ≤ u16Max
    by_cases hne : other = slot
    · rw [hne, hgen]
      exact hlt
    · rw [hsameGeneration hne]
      exact hu.generation_le other
  · intro id lease hlease
    change _ ≤ (state.records lease.slot).generation
    obtain ⟨rfl, rfl⟩ | hlease := History.issued_of_issue hlease
    · exact le_rfl
    · have hle := hu.issued_le hlease
      by_cases hne : lease.slot = slot
      · rw [hne] at hle ⊢
        omega
      · rw [hsameGeneration hne]
        exact hle
  · intro id lease hlease hact heq
    change (state.records lease.slot).generation = _ at heq
    change (state.records lease.slot).active at hact
    obtain ⟨rfl, rfl⟩ | hlease := History.issued_of_issue hlease
    · exact update_self ..
    · have hle := hu.issued_le hlease
      by_cases hne : lease.slot = slot
      · rw [hne] at hle heq
        omega
      · rw [hsameGeneration hne] at heq
        rw [hsame _ hne] at hact
        rw [hoth hne]
        exact hu.owner_of_generation hlease hact heq
  · intro id p lease hlease hp
    obtain ⟨rfl, rfl⟩ | hlease := History.issued_of_issue hlease
    · obtain ⟨lease', hlease', hnamed⟩ := hpar hp
      exact ⟨lease', History.issue_keeps hlease', hnamed⟩
    · obtain ⟨lease', hlease', hnamed⟩ := hu.parent_named hlease hp
      exact ⟨lease', History.issue_keeps hlease', hnamed⟩
  · intro id other hmem
    dsimp only [History.issue]
    refine update_cases (fun hid => ?_) (fun _ _ => hu.revoked_gone hmem) other
    exact (hu.revoked_lt hmem).ne' (Option.some.inj hid)
  · intro id hmem
    have hlt := hu.revoked_lt hmem
    rw [History.issue, length_append]
    omega

theorem same (hu : Unique h) (hsame : ∀ slot, (h.state.records slot).Same (state.records slot))
    (admissions : List ℕ) : Unique { h with state, admissions } := by
  have hgen : ∀ slot, (state.records slot).generation =
      (h.state.records slot).generation := fun slot => by rw [hsame slot]
  refine ⟨hu.toTracked.same hsame admissions, ?_, ?_, ?_, hu.parent_named, hu.revoked_gone,
    hu.revoked_lt⟩
  · exact fun slot => (hgen slot).trans_le (hu.generation_le slot)
  · exact fun hlease => (hu.issued_le hlease).trans_eq (hgen _).symm
  · intro id lease hlease hact heq
    rw [hsame] at hact
    rw [hgen] at heq
    exact hu.owner_of_generation hlease hact heq

theorem vacate (hu : Unique h) {slot : Fin n} (hlt : (h.state.records slot).generation < u16Max) :
    Unique
      { h with
        state := h.state.vacate slot
        owner := update h.owner slot none
        revoked := (h.owner slot).toList ++ h.revoked } := by
  have hoth : ∀ {other}, other ≠ slot →
      (h.state.vacate slot).records other = h.state.records other :=
    fun hne => update_of_ne hne _ _
  have hself : (h.state.vacate slot).records slot = { LeaseRecord.empty with
      generation := (h.state.records slot).generation + 1 } := by
    rw [← nextGeneration_eq hlt]
    exact update_self ..
  refine ⟨hu.toTracked.vacate slot _, ?_, ?_, ?_, hu.parent_named, ?_, ?_⟩
  · intro other
    by_cases hne : other = slot
    · rw [hne, hself]
      exact hlt
    · rw [hoth hne]
      exact hu.generation_le other
  · intro id lease hlease
    have hle := hu.issued_le hlease
    by_cases hne : lease.slot = slot
    · rw [hne] at hle ⊢
      rw [hself]
      exact hle.trans (Nat.le_succ _)
    · rw [hoth hne]
      exact hle
  · intro id lease hlease hact heq
    dsimp only at hact heq ⊢
    by_cases hne : lease.slot = slot
    · rw [hne, hself] at hact
      cases hact
    · rw [hoth hne] at hact heq
      rw [update_of_ne hne]
      exact hu.owner_of_generation hlease hact heq
  · intro id other hmem hid
    dsimp only at hmem hid
    have hne : other ≠ slot := by
      rintro rfl
      simp [update_self] at hid
    rw [update_of_ne hne] at hid
    obtain hnew | hold := mem_append.mp hmem
    · rw [Option.mem_toList] at hnew
      exact hne (hu.owner_injective hid hnew)
    · exact hu.revoked_gone hold hid
  · intro id hmem
    obtain hnew | hold := mem_append.mp hmem
    · rw [Option.mem_toList] at hnew
      exact hu.lt_length hnew
    · exact hu.revoked_lt hold

end Unique

theorem Change.unique {h' : History n} {call : Call} (hn : n ≤ u16Max)
    (hc : Change secret h call h') (hcall : h.Lasts call) (hu : Unique h) : Unique h' := by
  have ht := hc.tracked hu.toTracked
  cases hc with
  | unchanged => exact hu
  | issued hfree =>
    have hlt := hcall _ hfree
    refine hu.issue ht (fun other hne => ?_) hlt ?_ nofun
    · rw [records_insert, update_of_ne hne]
      exact .refl _
    · rw [records_insert, update_self]
      exact nextGeneration_eq hlt
  | @attenuated token parent slot rights expiresAt quota hnames hpar hfree =>
    have hlt := hcall _ hfree
    refine hu.issue ht (fun other hne => ?_) hlt ?_ fun {p} hp => ?_
    · rw [records_insert, update_of_ne hne]
      exact h.state.same_use _ _ other
    · rw [records_insert, update_self]
      exact nextGeneration_eq hlt
    · obtain ⟨lease, hlease, hslot, hrec⟩ := hu.owner_issued hp
      refine ⟨lease, hlease, ?_, ?_⟩
      · rw [records_insert, update_self, hslot]
        rw [u16Max] at hn
        exact Nat.mod_eq_of_lt (by omega)
      · rw [records_insert, update_self]
        change (h.state.records parent).generation = _
        rw [hrec]
  | admitted => exact hu.same (h.state.same_use _ _) _
  | revoked hnames => exact hu.vacate (hcall _ hnames.slot_eq)

theorem Lasting.unique (hn : n ≤ u16Max) (hl : Lasting secret h) : Unique h := by
  induction hl with
  | start =>
    refine ⟨(Reached.start : Reached secret (.start n)).tracked, ?_, ?_, ?_, ?_, ?_, ?_⟩
    · exact fun slot => show 1 ≤ u16Max by decide
    · exact fun hlease => by cases hlease
    · exact fun hlease => by cases hlease
    · exact fun hlease => by cases hlease
    · exact fun hmem => absurd hmem not_mem_nil
    · exact fun hmem => absurd hmem not_mem_nil
  | call before hcall ih => exact (History.change_call secret _ _).unique hn hcall ih

/-! ### Ancestors -/

variable {slot : Fin n}

/-- A record that passes the check of its ancestry has all its ancestors in the table. -/
theorem Unique.ancestor_live (hn : n ≤ u16Max) (hu : Unique h) {id a : ℕ}
    (hdesc : h.Descends id a) (hid : h.owner slot = some id) {remaining : ℕ}
    (hanc : validateAncestryFrom h.state remaining slot = .ok ()) :
    ∃ slot', h.owner slot' = some a := by
  induction hdesc generalizing slot remaining with
  | refl => exact ⟨slot, hid⟩
  | @tail p id hdesc hlast ih =>
    obtain ⟨lease, hlease, hpar⟩ := hlast
    obtain ⟨lease', hlease', -, hrec⟩ := hu.owner_issued hid
    rw [hlease] at hlease'
    cases hlease'
    obtain ⟨parent, hp, hslot, hgen⟩ := hu.parent_named hlease hpar
    have hparentSlot : (h.state.records slot).parentSlot = parent.slot := by
      rw [hrec]
      exact hslot
    have hparentGeneration : (h.state.records slot).parentGeneration =
        parent.record.generation := by
      rw [hrec]
      exact hgen
    have hlt := parent.slot.isLt
    have hroot : ¬ (h.state.records slot).parentSlot = rootParent := by
      rw [hparentSlot, rootParent]
      omega
    -- the check goes on to the slot of the parent, which still has its generation
    cases remaining with
    | zero =>
      rw [validateAncestryFrom] at hanc
      simp only [hroot] at hanc
      cases hanc
    | succ =>
      have hidx : (⟨(h.state.records slot).parentSlot, hparentSlot ▸ hlt⟩ : Fin n) =
          parent.slot := Fin.ext hparentSlot
      rw [validateAncestryFrom] at hanc
      simp only [hroot, if_false] at hanc
      rw [dif_pos (hparentSlot ▸ hlt), hidx] at hanc
      split at hanc
      · cases hanc
      next hmatch =>
        simp only [not_or, not_not] at hmatch
        refine ih (hu.owner_of_generation hp hmatch.1 ?_) hanc
        rw [hmatch.2, hparentGeneration]

theorem Unique.live_of_names (hn : n ≤ u16Max) (hu : Unique h) {id : ℕ}
    {lease : Issued n} (hlease : h.issued[id]? = some lease)
    (hnames : Names h.state lease.token slot) : h.owner slot = some id := by
  have hgen : lease.record.generation < 2 ^ 16 := by
    have hle := (hu.issued_le hlease).trans (hu.generation_le lease.slot)
    rw [u16Max] at hle
    omega
  have hslot : lease.slot = slot := by
    have heq := hnames.slot_eq
    rw [Issued.token, LeaseToken.slot_new (by rw [u16Max] at hn; omega)] at heq
    exact Fin.ext heq
  have heq := hnames.generation_eq
  rw [Issued.token, LeaseToken.generation_new hgen, ← hslot] at heq
  rw [← hslot]
  exact hu.owner_of_generation hlease (hslot ▸ hnames.active) heq

/-- In a run without wrapping generations, neither a revoked lease nor one that comes from
it is admitted or attenuated. -/
theorem revocation_lasts {secret : BitVec 64} {h : History n} (hn : n ≤ u16Max)
    (hl : Lasting secret h) {revoked id : ℕ} (hrevoked : revoked ∈ h.revoked)
    (hdesc : h.Descends id revoked) {lease : Issued n} (hlease : h.issued[id]? = some lease) :
    (∀ required nowTick, ∃ e, admitToken lease.token required nowTick h.state = .error e) ∧
      ∀ rights expiresAt quota nowTick, ∃ e,
        attenuate secret lease.token rights expiresAt quota nowTick h.state = .error e := by
  have hu := hl.unique hn
  have hrefused : ∀ {slot}, Names h.state lease.token slot →
      validateAncestry h.state slot ≠ .ok () := by
    intro slot hnames hanc
    obtain ⟨slot', hslot'⟩ :=
      hu.ancestor_live hn hdesc (hu.live_of_names hn hlease hnames) hanc
    exact hu.revoked_gone hrevoked hslot'
  constructor
  · intro required nowTick
    cases hadm : admitToken lease.token required nowTick h.state with
    | error e => exact ⟨e, rfl⟩
    | ok =>
      obtain ⟨slot, hnames, hanc, -⟩ := admit_ok hadm
      exact absurd hanc (hrefused hnames)
  · intro rights expiresAt quota nowTick
    cases hattenuate : attenuate secret lease.token rights expiresAt quota nowTick h.state with
    | error e => exact ⟨e, rfl⟩
    | ok =>
      obtain ⟨parent, slot, hnames, hpar, -⟩ := attenuate_ok hattenuate
      exact absurd hpar.ancestry (hrefused hnames)

/-! ### A revoked parent comes back -/

instance (h : History n) (call : Call) : Decidable (h.Lasts call) :=
  match call with
  | .issueRoot _ _ _ _ => inferInstanceAs (Decidable (∀ _, _ → _))
  | .attenuate _ _ _ _ _ => inferInstanceAs (Decidable (∀ _, _ → _))
  | .admitToken _ _ _ => inferInstanceAs (Decidable True)
  | .revoke _ => inferInstanceAs (Decidable (∀ _, _ → _))

def History.tokenOf (h : History n) (id : ℕ) : LeaseToken :=
  (h.issued[id]?.map Issued.token).getD ⟨0⟩

/-- A root with a child. -/
def family : History 2 :=
  let h :=
    (History.start 2).call 7 (.issueRoot (LeaseRights.observe ||| LeaseRights.delegate) 0 9 5)
  h.call 7 (.attenuate (h.tokenOf 0) LeaseRights.observe 8 2 1)

/-- The root is revoked; its child is still in the table. -/
def orphaned : History 2 := family.call 7 (.revoke (family.tokenOf 0))

theorem lasting_orphaned : Lasting 7 orphaned := by
  unfold orphaned family
  refine ((Lasting.start.call ?_).call ?_).call ?_ <;> decide +kernel

theorem orphan_refused : ∃ e, admitToken (orphaned.tokenOf 1) LeaseRights.observe 2 orphaned.state =
    .error e := by
  have hsome : (orphaned.issued[1]?.map Issued.parent) = some (some 0) := by decide +kernel
  obtain ⟨lease, hlease, hpar⟩ := Option.map_eq_some_iff.mp hsome
  have htok : orphaned.tokenOf 1 = lease.token := by
    rw [History.tokenOf, hlease]
    rfl
  rw [htok]
  have hrev : 0 ∈ orphaned.revoked := by decide +kernel
  exact (revocation_lasts (by decide) lasting_orphaned hrev
    (.single ⟨lease, hlease, hpar⟩) hlease).1 LeaseRights.observe 2

theorem issueRoot_of_free {rights : LeaseRights} {notBefore expiresAt : ℕ}
    {quota : UInt32} (hfree : state.freeSlot = some slot)
    (hlifetime : notBefore < expiresAt) (hquota : quota.toNat ≠ 0) :
    issueRoot secret rights notBefore expiresAt quota state =
      .ok (state.insert secret slot (state.rootRecord slot rights notBefore expiresAt quota)) := by
  have hval : validateLifetime notBefore expiresAt = .ok () := by
    rw [validateLifetime, if_neg (by omega)]
  simp only [issueRoot, hval, if_neg hquota, hfree]
  rfl

/-- The generations of a slot go round. -/
theorem nextGeneration_mod (x : ℕ) : nextGeneration (x % 65535 + 1) = (x + 1) % 65535 + 1 := by
  rw [nextGeneration]
  omega

def reissue (h : History 2) : History 2 := h.call 7 (.issueRoot LeaseRights.observe 0 9 5)

/-- Issue a root in the free slot and revoke it. -/
def recycle (h : History 2) : History 2 :=
  (reissue h).call 7 (.revoke ((reissue h).tokenOf h.issued.length))

/-- The first slot has been used again some number of times, the child is as it was. -/
structure Recycled (h : History 2) (rounds : ℕ) : Prop where
  reached : Reached 7 h
  free : (h.state.records 0).active = false
  generation : (h.state.records 0).generation = (2 + 2 * rounds) % 65535 + 1
  child : h.state.records 1 = orphaned.state.records 1
  issued : h.issued[1]? = orphaned.issued[1]?
  revoked : 0 ∈ h.revoked

theorem Recycled.reissue {h : History 2} {rounds : ℕ} (hr : Recycled h rounds) :
    reissue h = h.issue (h.state.insert 7 0
      (h.state.rootRecord 0 LeaseRights.observe 0 9 5)).2 0 none := by
  have hfree : h.state.freeSlot = some 0 := by
    rw [freeSlot, position, hr.free]
    rfl
  rw [Lease.reissue, call, issueRoot_of_free hfree (by decide) (by decide), hfree]

theorem Recycled.recycle {h : History 2} {rounds : ℕ} (hr : Recycled h rounds) :
    Recycled (recycle h) (rounds + 1) := by
  set state := (h.state.insert 7 0 (h.state.rootRecord 0 LeaseRights.observe 0 9 5)).2 with hst
  have hlen : 2 ≤ h.issued.length := by
    have hsome : orphaned.issued[1]?.isSome := by decide +kernel
    rw [← hr.issued] at hsome
    obtain ⟨lease, hlease⟩ := Option.isSome_iff_exists.mp hsome
    exact (List.getElem?_eq_some_iff.mp hlease).1
  have hgen : (state.records 0).generation = (3 + 2 * rounds) % 65535 + 1 := by
    rw [hst, records_insert, update_self]
    change nextGeneration (h.state.records 0).generation = _
    rw [hr.generation, nextGeneration_mod]
    congr 2
    omega
  have htok : (h.issue state 0 none).tokenOf h.issued.length =
      .new 0 (state.records 0).generation (state.records 0).tag := by
    rw [tokenOf, getElem?_issue, if_pos rfl]
    rfl
  have hact : (state.records 0).active := by
    rw [hst, records_insert, update_self]
    rfl
  have hnames : Names (h.issue state 0 none).state
      (.new 0 (state.records 0).generation (state.records 0).tag) 0 := by
    refine ⟨LeaseToken.slot_new (by decide), hact, ?_, LeaseToken.tag_new.symm⟩
    refine (LeaseToken.generation_new ?_).symm
    change (state.records 0).generation < 2 ^ 16
    omega
  have hrecycle : Lease.recycle h = { h.issue state 0 none with
      state := state.vacate 0
      owner := update (h.issue state 0 none).owner 0 none
      revoked := ((h.issue state 0 none).owner 0).toList ++ h.revoked } := by
    rw [Lease.recycle, hr.reissue, ← hst, htok]
    exact call_revoke hnames
  rw [hrecycle]
  refine ⟨hrecycle ▸ (hr.reached.call _).call _, ?_, ?_, ?_, ?_, ?_⟩
  · rfl
  · change nextGeneration (state.records 0).generation = _
    rw [hgen, nextGeneration_mod]
    omega
  · rw [← hr.child]
    rfl
  · rw [← hr.issued]
    exact List.getElem?_append_left (by omega)
  · exact List.mem_append_right _ hr.revoked

theorem recycled_rounds (rounds : ℕ) : ∃ h, Recycled h rounds := by
  induction rounds with
  | zero =>
    exact ⟨orphaned, lasting_orphaned.reached, by decide +kernel, by decide +kernel, rfl, rfl,
      by decide +kernel⟩
  | succ rounds ih =>
    obtain ⟨h, hr⟩ := ih
    exact ⟨_, hr.recycle⟩

/-- After 65534 rounds the slot of the revoked parent has its old generation again once it
is issued, and the child of the revoked lease is admitted. -/
theorem orphan_admitted : ∃ h : History 2, Reached 7 h ∧ 0 ∈ h.revoked ∧ h.Descends 1 0 ∧
    h.tokenOf 1 = orphaned.tokenOf 1 ∧ ∃ result,
      admitToken (orphaned.tokenOf 1) LeaseRights.observe 2 h.state = .ok result := by
  obtain ⟨h, hr⟩ := recycled_rounds 65534
  set state := (h.state.insert 7 0 (h.state.rootRecord 0 LeaseRights.observe 0 9 5)).2 with hst
  have hch : state.records 1 = orphaned.state.records 1 := by
    rw [← hr.child]
    rfl
  have hpar : (state.records 0).active ∧ (state.records 0).generation = 2 := by
    refine ⟨rfl, ?_⟩
    change nextGeneration (h.state.records 0).generation = 2
    rw [hr.generation, nextGeneration_mod]
  have hiss : (h.issue state 0 none).issued[1]? = orphaned.issued[1]? := by
    have hsome : orphaned.issued[1]?.isSome := by decide +kernel
    rw [← hr.issued] at hsome ⊢
    obtain ⟨lease, hlease⟩ := Option.isSome_iff_exists.mp hsome
    rw [hlease]
    exact History.issue_keeps hlease
  have hnames : Names state (orphaned.tokenOf 1) 1 := by
    refine ⟨by decide +kernel, ?_, ?_, ?_⟩ <;> rw [hch] <;> decide +kernel
  have hval : validateToken state (orphaned.tokenOf 1) 2 = .ok 1 := by
    rw [validateToken, validateTokenWithoutTime_of_names hnames]
    simp only [bind, Except.bind, hch]
    rw [if_neg (by decide +kernel), if_neg (by decide +kernel)]
  have hanc : validateAncestry state 1 = .ok () := by
    have hslot : (orphaned.state.records 1).parentSlot = 0 := by decide +kernel
    have hgen : (orphaned.state.records 1).parentGeneration = 2 := by decide +kernel
    have hroot : (state.records 0).parentSlot = rootParent := by
      rfl
    have htop : validateAncestryFrom state 7 0 = .ok () := by
      rw [validateAncestryFrom]
      simp [hroot]
    rw [validateAncestry, maximumDelegationDepth, validateAncestryFrom]
    simp only [hch, hslot, hgen]
    simp only [Fin.zero_eta, hpar.1, hpar.2, not_true_eq_false, ne_eq, or_self, if_false]
    exact htop
  refine ⟨h.issue state 0 none, ?_, hr.revoked, ?_, ?_, ?_⟩
  · rw [← hr.reissue]
    exact hr.reached.call _
  · have hsome : (orphaned.issued[1]?.map Issued.parent) = some (some 0) := by decide +kernel
    rw [← hiss] at hsome
    obtain ⟨lease, hlease, hp⟩ := Option.map_eq_some_iff.mp hsome
    exact .single ⟨lease, hlease, hp⟩
  · rw [History.tokenOf, hiss]
    rfl
  · change ∃ result, admitToken _ _ _ state = .ok result
    rw [admitToken, hval]
    simp only [bind, Except.bind, hanc, hch]
    exact ⟨_, rfl⟩

end ArachKernel.Lease
