import ArachKernel.Lease.History
import Mathlib.Algebra.BigOperators.Group.Finset.Sigma

/-!
Attenuation never amplifies. A child has at most the rights and the lifetime of its
parent, and its quota is taken from the uses of the parent, so a lease and all that
come from it share the quota of the lease.

That is a fact about budgets in a forest: each node has a budget, spends some of it itself and
hands the rest down to its children, so a whole tree spends at most the budget of its root.
-/

namespace ArachKernel.Forest

open List Finset

variable {ι : Type*} [DecidableEq ι]

/-- Summing over the children of all nodes of a tree is summing over all but its root. -/
theorem sum_children {tree : Finset ι} {parent : ι → Option ι} {root : ι}
    (hpar : ∀ i ∈ tree.erase root, ∃ p ∈ tree, parent i = some p) (budget : ι → ℕ) :
    ∑ i ∈ tree, ∑ j ∈ (tree.erase root).filter (fun j => parent j = some i), budget j =
      ∑ j ∈ tree.erase root, budget j := by
  simp only [sum_filter]
  rw [sum_comm]
  refine sum_congr rfl fun j hj => ?_
  obtain ⟨p, hp, hpj⟩ := hpar j hj
  simp only [hpj, Option.some.injEq]
  rw [sum_ite_eq tree p, if_pos hp]

/-- If every node spends and hands down at most its budget, a tree spends at most the
budget of its root. -/
theorem sum_spent_le {tree : Finset ι} (parent : ι → Option ι) {root : ι} (hroot : root ∈ tree)
    (hpar : ∀ i ∈ tree.erase root, ∃ p ∈ tree, parent i = some p) {budget spent : ι → ℕ}
    (hbudget : ∀ i ∈ tree, spent i +
      ∑ j ∈ (tree.erase root).filter (fun j => parent j = some i), budget j ≤ budget i) :
    ∑ i ∈ tree, spent i ≤ budget root := by
  have hsum := sum_le_sum hbudget
  rw [sum_add_distrib, sum_children hpar, ← add_sum_erase tree budget hroot] at hsum
  omega

/-- Counting the members of a list in a set is summing how often each occurs. -/
theorem countP_eq_sum_count {l : List ι} {p : ι → Prop} [DecidablePred p] {s : Finset ι}
    (h : ∀ i ∈ l, p i ↔ i ∈ s) : l.countP (fun i => p i) = ∑ i ∈ s, l.count i := by
  induction l with
  | nil => simp only [countP_nil, count_nil, sum_const_zero]
  | cons a l ih =>
    have hrest := ih fun i hi => h i (mem_cons_of_mem _ hi)
    have ha := h a mem_cons_self
    simp only [countP_cons, count_cons, sum_add_distrib, hrest, beq_iff_eq,
      sum_ite_eq, decide_eq_true_eq, ha]

end ArachKernel.Forest

namespace ArachKernel.Lease

open Table Function History LeaseState List

variable {n count : ℕ} {secret : BitVec 64}

namespace History

def parentAt (h : History n) (id : ℕ) : Option ℕ := h.issued[id]?.bind Issued.parent

def quotaAt (h : History n) (id : ℕ) : ℕ := (h.issued[id]?.map fun l => l.record.quotaLimit).getD 0

/-- The quota a lease has handed down to its children. -/
def handedDown (h : History n) (id : ℕ) : ℕ :=
  ∑ j ∈ (Finset.range h.issued.length).filter (fun j => h.parentAt j = some id), h.quotaAt j

/-- What a lease has used up: its admissions and the quotas of its children. -/
def spent (h : History n) (id : ℕ) : ℕ := h.admissions.count id + h.handedDown id

theorem handedDown_issue (h : History n) (state : LeaseState n) (slot : Fin n)
    (parent : Option ℕ) (id : ℕ) : (h.issue state slot parent).handedDown id =
      h.handedDown id + if parent = some id then (state.records slot).quotaLimit else 0 := by
  have hlen : (h.issue state slot parent).issued.length = h.issued.length + 1 := by
    rw [issue, length_append, length_singleton]
  have hold : ∀ j ∈ Finset.range h.issued.length,
      (h.issue state slot parent).parentAt j = h.parentAt j ∧
        (h.issue state slot parent).quotaAt j = h.quotaAt j := by
    intro j hj
    have hne : j ≠ h.issued.length := (Finset.mem_range.mp hj).ne
    rw [parentAt, quotaAt, getElem?_issue, if_neg hne]
    exact ⟨rfl, rfl⟩
  have hpar : (h.issue state slot parent).parentAt h.issued.length = parent := by
    rw [parentAt, getElem?_issue, if_pos rfl]
    rfl
  have hquota : (h.issue state slot parent).quotaAt h.issued.length =
      (state.records slot).quotaLimit := by
    rw [quotaAt, getElem?_issue, if_pos rfl]
    rfl
  rw [handedDown, handedDown, hlen, Finset.sum_filter, Finset.sum_range_succ, hpar, hquota,
    Finset.sum_filter]
  congr 1
  refine Finset.sum_congr rfl fun j hj => ?_
  rw [(hold j hj).1, (hold j hj).2]

theorem spent_admit (h : History n) (state : LeaseState n) (id other : ℕ) :
    ({ h with state, admissions := id :: h.admissions } : History n).spent other =
      h.spent other + if id = other then 1 else 0 := by
  rw [spent, count_cons]
  simp only [beq_iff_eq]
  exact Nat.add_right_comm _ _ _

end History

/-- A child compared with its parent. -/
structure LeaseRecord.Attenuates (child parent : LeaseRecord) : Prop where
  rights : parent.rights.contains child.rights
  expires : child.expiresAt ≤ parent.expiresAt

theorem LeaseRecord.Attenuates.refl (record : LeaseRecord) : record.Attenuates record :=
  ⟨BitVec.and_self, le_rfl⟩

theorem LeaseRecord.Attenuates.trans {a b c : LeaseRecord} (hab : a.Attenuates b)
    (hbc : b.Attenuates c) : a.Attenuates c := by
  refine ⟨?_, hab.expires.trans hbc.expires⟩
  have h1 : b.rights &&& a.rights = a.rights := hab.rights
  have h2 : c.rights &&& b.rights = b.rights := hbc.rights
  change c.rights &&& a.rights = a.rights
  rw [← h1, ← BitVec.and_assoc, h2]

/-- The uses in the table are what the leases have spent, within their quotas. -/
structure Accounted (h : History n) : Prop extends Tracked h where
  uses_eq :
    ∀ {slot : Fin n} {id : ℕ}, h.owner slot = some id → (h.state.records slot).uses = h.spent id
  within : ∀ {id : ℕ} {lease : Issued n}, h.issued[id]? = some lease →
    h.spent id ≤ lease.record.quotaLimit
  quota_le : ∀ {id : ℕ} {lease : Issued n}, h.issued[id]? = some lease →
    lease.record.quotaLimit ≤ u32Max
  depth_le : ∀ {id : ℕ} {lease : Issued n}, h.issued[id]? = some lease →
    lease.record.depth ≤ maximumDelegationDepth
  below : ∀ {id p : ℕ} {lease : Issued n}, h.issued[id]? = some lease → lease.parent = some p →
    ∃ parent, h.issued[p]? = some parent ∧ lease.record.Attenuates parent.record
  admitted_lt : ∀ {id : ℕ}, id ∈ h.admissions → id < h.issued.length

namespace Accounted

variable {h : History n}

theorem spent_new (ha : Accounted h) : h.spent h.issued.length = 0 := by
  have hcnt : h.admissions.count h.issued.length = 0 :=
    List.count_eq_zero.mpr fun hmem => absurd (ha.admitted_lt hmem) (by omega)
  have hhanded : h.handedDown h.issued.length = 0 := by
    apply Finset.sum_eq_zero
    intro j hj
    rw [Finset.mem_filter] at hj
    obtain ⟨lease, hlease, hpar⟩ := Option.bind_eq_some_iff.mp hj.2
    obtain ⟨parent, hp, -⟩ := ha.below hlease hpar
    exact absurd (List.getElem?_eq_some_iff.mp hp).1 (by omega)
  rw [spent, hcnt, hhanded]

theorem issue (ha : Accounted h) {slot : Fin n} {state : LeaseState n} {parent : Option ℕ}
    (ht : Tracked (h.issue state slot parent))
    (huses : ∀ {other id}, other ≠ slot → h.owner other = some id → (state.records other).uses =
      h.spent id + if parent = some id then (state.records slot).quotaLimit else 0)
    (hzero : (state.records slot).uses = 0) (hquota : (state.records slot).quotaLimit ≤ u32Max)
    (hdepth : (state.records slot).depth ≤ maximumDelegationDepth)
    (hpar : ∀ {p}, parent = some p → ∃ lease, h.issued[p]? = some lease ∧
      (state.records slot).Attenuates lease.record ∧
        h.spent p + (state.records slot).quotaLimit ≤ lease.record.quotaLimit) :
    Accounted (h.issue state slot parent) := by
  have hspent : ∀ id, (h.issue state slot parent).spent id =
      h.spent id + if parent = some id then (state.records slot).quotaLimit else 0 := by
    intro id
    rw [History.spent, History.spent, History.handedDown_issue, ← Nat.add_assoc]
    rfl
  have hself : parent ≠ some h.issued.length := by
    intro heq
    obtain ⟨lease, hlease, -⟩ := hpar heq
    exact absurd (List.getElem?_eq_some_iff.mp hlease).1 (by omega)
  refine ⟨ht, ?_, ?_, ?_, ?_, ?_, ?_⟩
  · intro other id
    rw [hspent]
    dsimp only [History.issue]
    refine update_cases (fun hid => ?_) (fun _ => huses) other
    cases hid
    rw [if_neg hself, ha.spent_new]
    exact hzero
  · intro id lease hlease
    rw [hspent]
    obtain ⟨rfl, rfl⟩ | hlease := History.issued_of_issue hlease
    · rw [if_neg hself, ha.spent_new]
      exact Nat.zero_le _
    · split
      next heq =>
        obtain ⟨lease', hlease', -, hle⟩ := hpar heq
        rw [hlease] at hlease'
        cases hlease'
        exact hle
      · exact ha.within hlease
  · intro id lease hlease
    obtain ⟨rfl, rfl⟩ | hlease := History.issued_of_issue hlease
    · exact hquota
    · exact ha.quota_le hlease
  · intro id lease hlease
    obtain ⟨rfl, rfl⟩ | hlease := History.issued_of_issue hlease
    · exact hdepth
    · exact ha.depth_le hlease
  · intro id p lease hlease hp
    obtain ⟨rfl, rfl⟩ | hlease := History.issued_of_issue hlease
    · obtain ⟨lease', hlease', hatt, -⟩ := hpar hp
      exact ⟨lease', History.issue_keeps hlease', hatt⟩
    · obtain ⟨lease', hlease', hatt⟩ := ha.below hlease hp
      exact ⟨lease', History.issue_keeps hlease', hatt⟩
  · intro id hmem
    have hlt := ha.admitted_lt hmem
    rw [History.issue, List.length_append]
    omega

/-- The uses of a live lease fit the counter, and those of its record are counted. -/
theorem uses_add (ha : Accounted h) {slot : Fin n} {id : ℕ} (hid : h.owner slot = some id)
    (hcnt : count ≤ (h.state.records slot).quotaLimit - (h.state.records slot).uses) :
    ((h.state.use slot count).records slot).uses = h.spent id + count := by
  obtain ⟨lease, hlease, -, hrec⟩ := ha.owner_issued hid
  have hquota := ha.quota_le hlease
  have hwithin := ha.within hlease
  have hlim : (h.state.records slot).quotaLimit = lease.record.quotaLimit := by rw [hrec]
  rw [use]
  simp only [update_self, saturatingAdd]
  rw [ha.uses_eq hid] at hcnt ⊢
  omega

theorem uses_other {slot other : Fin n} (hne : other ≠ slot) :
    ((h.state.use slot count).records other).uses = (h.state.records other).uses := by
  rw [use]
  simp [update_of_ne hne]

end Accounted

theorem Change.accounted {h h' : History n} {call : Call}
    (hc : Change secret h call h') (ha : Accounted h) : Accounted h' := by
  have ht := hc.tracked ha.toTracked
  cases hc with
  | unchanged => exact ha
  | issued hfree rights notBefore expiresAt quota =>
    refine ha.issue ht ?_ ?_ ?_ ?_ ?_
    · intro other id hne hid
      rw [records_insert, update_of_ne hne, ha.uses_eq hid]
      rfl
    all_goals rw [records_insert, update_self]
    · rfl
    · exact Nat.le_of_lt_succ quota.toNat_lt
    · exact Nat.zero_le _
    · exact nofun
  | @attenuated token parent slot rights expiresAt quota hnames hpar hfree =>
    have hact := hnames.active
    obtain ⟨p, hp⟩ := ha.active_iff.mp hact
    obtain ⟨lease, hlease, -, hrec⟩ := ha.owner_issued hp
    have hspent := ha.uses_eq hp
    have hquota := hpar.quota_le
    have hdepth := hpar.depth_lt
    refine ha.issue ht ?_ ?_ ?_ ?_ ?_
    · intro other id hne hid
      rw [records_insert, update_of_ne hne, update_self, hp]
      by_cases heq : other = parent
      · subst heq
        rw [hp] at hid
        cases hid
        rw [if_pos rfl, ha.uses_add hp hquota]
        rfl
      · have hid' : p ≠ id := by
          rintro rfl
          exact heq (ha.owner_injective hid hp)
        rw [Accounted.uses_other heq, ha.uses_eq hid, if_neg (by simpa using hid')]
        rfl
    all_goals rw [records_insert, update_self]
    · rfl
    · exact Nat.le_of_lt_succ quota.toNat_lt
    · change min _ _ ≤ _
      omega
    · intro p' hp'
      rw [hp] at hp'
      cases hp'
      have hwithin := ha.within hlease
      have hlim : (h.state.records parent).quotaLimit = lease.record.quotaLimit := by
        rw [hrec]
      have hrts : (h.state.records parent).rights = lease.record.rights := by rw [hrec]
      have hexpires : (h.state.records parent).expiresAt = lease.record.expiresAt := by
        rw [hrec]
      refine ⟨lease, hlease, ⟨?_, ?_⟩, ?_⟩
      · change lease.record.rights &&& ((h.state.records parent).rights &&& rights) =
          (h.state.records parent).rights &&& rights
        rw [hrts, ← BitVec.and_assoc, BitVec.and_self]
      · rw [← hexpires]
        exact hpar.expires_le
      · change _ + quota.toNat ≤ _
        omega
  | @admitted token slot hnames =>
    obtain ⟨id, hid⟩ := ha.active_iff.mp hnames.active
    obtain ⟨lease, hlease, -, hrec⟩ := ha.owner_issued hid
    have hlim : (h.state.records slot).quotaLimit = lease.record.quotaLimit := by
      rw [hrec]
    have huses' := ha.uses_eq hid
    rw [hid] at ht ⊢
    refine ⟨ht, ?_, ?_, ha.quota_le, ha.depth_le, ha.below, ?_⟩
    · intro other id' hid'
      by_cases heq : other = slot
      · subst heq
        rw [hid] at hid'
        cases hid'
        rw [ha.uses_add hid (by omega)]
        exact (h.spent_admit _ id id).trans (by rw [if_pos rfl]) |>.symm
      · have hne : id ≠ id' := by
          rintro rfl
          exact heq (ha.owner_injective hid' hid)
        rw [Accounted.uses_other heq, ha.uses_eq hid']
        exact (h.spent_admit _ id id').trans (by rw [if_neg hne, Nat.add_zero]) |>.symm
    · intro id' lease' hlease'
      refine (h.spent_admit _ id id').trans_le ?_
      split
      next heq =>
        subst heq
        have hsame : lease' = lease := Option.some.inj (hlease'.symm.trans hlease)
        rw [hsame]
        omega
      · exact ha.within hlease'
    · intro id' hmem
      obtain heq | hmem := mem_cons.mp hmem
      · rw [heq]
        exact ha.lt_length hid
      · exact ha.admitted_lt hmem
  | @revoked token slot =>
    refine ⟨ht, ?_, ha.within, ha.quota_le, ha.depth_le, ha.below, ha.admitted_lt⟩
    intro other id hid
    have hne : other ≠ slot := by
      rintro rfl
      simp only [update_self] at hid
      cases hid
    simp only [update_of_ne hne] at hid
    simp only [vacate, update_of_ne hne]
    exact ha.uses_eq hid

variable {h : History n}

theorem Reached.accounted (hr : Reached secret h) : Accounted h := by
  induction hr with
  | start =>
    refine ⟨(Reached.start : Reached secret (.start n)).tracked, ?_, ?_, ?_, ?_, ?_, ?_⟩
    · exact nofun
    · exact fun hlease => by cases hlease
    · exact fun hlease => by cases hlease
    · exact fun hlease => by cases hlease
    · exact fun hlease => by cases hlease
    · exact fun hmem => absurd hmem not_mem_nil
  | call before call ih => exact (History.change_call secret _ call).accounted ih

/-! ### Descendants -/

theorem Accounted.attenuates (ha : Accounted h) {id a : ℕ} {lease ancestor : Issued n}
    (hdesc : h.Descends id a) (hlease : h.issued[id]? = some lease)
    (hanc : h.issued[a]? = some ancestor) : lease.record.Attenuates ancestor.record := by
  induction hdesc generalizing lease with
  | refl =>
    rw [hlease] at hanc
    cases hanc
    exact .refl _
  | tail _ hlast ih =>
    obtain ⟨lease', hlease', hpar⟩ := hlast
    rw [hlease] at hlease'
    cases hlease'
    obtain ⟨parent, hp, hatt⟩ := ha.below hlease hpar
    exact hatt.trans (ih hp)

open Classical in
/-- The admissions through a lease and all that come from it. -/
noncomputable def History.admissionsThrough (h : History n) (root : ℕ) : ℕ :=
  h.admissions.countP fun id => h.Descends id root

open Classical in
theorem Accounted.admissionsThrough_le (ha : Accounted h) {root : ℕ}
    {lease : Issued n} (hlease : h.issued[root]? = some lease) :
    h.admissionsThrough root ≤ lease.record.quotaLimit := by
  set tree := (Finset.range h.issued.length).filter fun id => h.Descends id root with htree
  have hroot : root ∈ tree := by
    rw [htree, Finset.mem_filter, Finset.mem_range]
    exact ⟨(List.getElem?_eq_some_iff.mp hlease).1, .refl⟩
  have hquota : h.quotaAt root = lease.record.quotaLimit := by
    rw [History.quotaAt, hlease]
    rfl
  have hcnt : h.admissionsThrough root = ∑ id ∈ tree, h.admissions.count id := by
    refine Forest.countP_eq_sum_count fun id hid => ?_
    rw [htree, Finset.mem_filter, Finset.mem_range]
    exact ⟨fun hdesc => ⟨ha.admitted_lt hid, hdesc⟩, fun hmem => hmem.2⟩
  rw [hcnt, ← hquota]
  refine Forest.sum_spent_le h.parentAt hroot ?_ ?_
  · intro id hid
    obtain ⟨hne, hid⟩ := Finset.mem_erase.mp hid
    rw [Finset.mem_filter] at hid
    obtain heq | ⟨p, hdesc, child, hch, hpar⟩ := hid.2.cases_tail
    · exact absurd heq hne
    · obtain ⟨parent, hp, -⟩ := ha.below hch hpar
      refine ⟨p, ?_, ?_⟩
      · rw [Finset.mem_filter, Finset.mem_range]
        exact ⟨(List.getElem?_eq_some_iff.mp hp).1, hdesc⟩
      · rw [History.parentAt, hch]
        exact hpar
  · intro id hid
    rw [Finset.mem_filter, Finset.mem_range] at hid
    have hat := List.getElem?_eq_getElem hid.1
    have hwithin := ha.within hat
    have hbudget : h.quotaAt id = h.issued[id].record.quotaLimit := by
      rw [History.quotaAt, hat]
      rfl
    have hsub : ∑ j ∈ (tree.erase root).filter (fun j => h.parentAt j = some id), h.quotaAt j ≤
        h.handedDown id := by
      refine Finset.sum_le_sum_of_subset (Finset.filter_subset_filter _ ?_)
      exact (Finset.erase_subset _ _).trans (Finset.filter_subset _ _)
    rw [History.spent] at hwithin
    omega

/-- In every run: a live lease has at most the rights and the lifetime of each lease it
comes from and a depth of at most eight, and a lease with all that come from it is
admitted at most as often as its quota says. -/
theorem attenuation_never_amplifies {secret : BitVec 64} {h : History n} (hr : Reached secret h) :
    (∀ slot, (h.state.records slot).active → ∃ id, h.owner slot = some id ∧
      (h.state.records slot).depth ≤ maximumDelegationDepth ∧
      ∀ a ancestor, h.Descends id a → h.issued[a]? = some ancestor →
        (h.state.records slot).Attenuates ancestor.record) ∧
    ∀ root lease, h.issued[root]? = some lease →
      h.admissionsThrough root ≤ lease.record.quotaLimit := by
  have ha := hr.accounted
  refine ⟨?_, fun root lease hlease => ha.admissionsThrough_le hlease⟩
  intro slot hact
  obtain ⟨id, hid⟩ := ha.active_iff.mp hact
  obtain ⟨lease, hlease, -, hrec⟩ := ha.owner_issued hid
  have hdepth : (h.state.records slot).depth = lease.record.depth := by rw [hrec]
  refine ⟨id, hid, hdepth ▸ ha.depth_le hlease, ?_⟩
  intro a ancestor hdesc hanc
  have hatt := ha.attenuates hdesc hlease hanc
  rw [hrec]
  exact ⟨hatt.rights, hatt.expires⟩

/-- A root with quota five, a child with quota two, and an admission of the child. -/
def delegated : History 2 :=
  let h :=
    (History.start 2).call 7 (.issueRoot (LeaseRights.observe ||| LeaseRights.delegate) 0 9 5)
  let h :=
    h.call 7 (.attenuate ((h.issued[0]?.map Issued.token).getD ⟨0⟩) LeaseRights.observe 8 2 1)
  h.call 7 (.admitToken ((h.issued[1]?.map Issued.token).getD ⟨0⟩) LeaseRights.observe 2)

theorem delegated_within_quota :
    delegated.admissions = [1] ∧ delegated.admissionsThrough 0 ≤ 5 := by
  refine ⟨by decide +kernel, ?_⟩
  have hr : Reached 7 delegated := by
    unfold delegated
    exact ((Reached.start.call _).call _).call _
  have hquota : delegated.issued[0]?.map (fun l => l.record.quotaLimit) = some 5 := by
    decide +kernel
  obtain ⟨lease, hlease, hlim⟩ := Option.map_eq_some_iff.mp hquota
  exact hlim ▸ (attenuation_never_amplifies hr).2 0 lease hlease

end ArachKernel.Lease
