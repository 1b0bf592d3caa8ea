import ArachKernel.Linux.SectionSpecs
import Mathlib.Logic.Relation

/-!
Threads interleave at the sections of the registry, and what a thread got from one
section it hands back to another, once. A `Ledger` is the registry with everything that
is held of it, and with what has come and gone so far. The results are about every order
of sections.
-/

namespace ArachKernel.LinuxFd

open Relation Table Registry Credits

variable {exact : Prop} {β : Type} {r : Registry} {held : Credits} {key : ObjectKey}

namespace RegistryCall

/-- What the caller of a section has to hold and hands over. -/
def takes : RegistryCall β → Credits
  | .releaseLease key => one key .lease
  | .retainKey key => one key .publication
  | .dropKeyReference key => one key .owing
  | .installTransfers _ sent _ _ => tokens sent
  | .releaseTransfer token => one token .token
  | _ => 0

/-- What a section does, by its answer, while `held` is held besides. -/
def effect (held : Credits) : RegistryCall β → β → Effect
  | .installBackendObject _ owner kind _ _, answer => .installing held [(owner, kind)] answer
  | .installObjectPair owner kind _ kind' _ _, answer =>
    .installing held [(owner, kind), (owner, kind')] answer
  | .acquireDescriptor _ _, answer | .acquireKey _, answer => .leasing held answer
  | .releaseLease _, answer | .dropKeyReference _, answer => .pending held answer
  | .retainKey key, answer => .retaining key held answer
  | .close _ _, answer | .duplicateTo .., answer => .dropping held answer
  | .captureTransfers _ _, answer => .capturing held answer
  | .installTransfers _ sent _ _, answer => .placing sent held answer
  | .releaseTransfer _, answer => .leftover held answer
  | .closeMatching _ _, answer => .sweeping held answer
  | _, _ => .only held

/-- Objects are installed with a kind, and whoever publishes a watch keeps its lease until
the reference of the watch is taken. -/
def Fair (held : Credits) : RegistryCall β → Prop
  | .installBackendObject _ _ kind _ _ => kind.occupied
  | .installObjectPair _ kind _ kind' _ _ => kind.occupied ∧ kind'.occupied
  | .releaseLease key => (held key).published ≤ (held key).leases
  | _ => True

theorem sound (call : RegistryCall β) (h : Balanced exact r (call.takes + held))
    (hfair : call.Fair held) : Meets exact r (call.effect held) (execRegistry β call r) := by
  have hnone (hc : call.takes = 0) : Balanced exact r held := by rwa [hc, zero_add] at h
  cases call with
  | installBackendObject => exact installBackendObject_sound (hnone rfl) hfair
  | installObjectPair => exact installObjectPair_sound (hnone rfl) hfair.1 hfair.2
  | acquireDescriptor => exact acquireDescriptor_sound (hnone rfl)
  | acquireKey => exact acquireKey_sound (hnone rfl)
  | releaseLease => exact releaseLease_sound h hfair
  | retainKey => exact retainKey_sound h
  | dropKeyReference => exact dropKeyReference_sound h
  | close => exact close_sound (hnone rfl)
  | duplicate => exact duplicate_sound (hnone rfl)
  | duplicateTo => exact duplicateTo_sound (hnone rfl)
  | descriptorFlags => exact descriptorFlags_sound (hnone rfl)
  | setDescriptorFlags => exact setDescriptorFlags_sound (hnone rfl)
  | setStatusFlags => exact setStatusFlags_sound (hnone rfl)
  | captureTransfers => exact captureTransfers_sound (hnone rfl)
  | installTransfers => exact installTransfers_sound h
  | releaseTransfer => exact releaseTransfer_sound h
  | closeMatching owner onlyCloseOnExec =>
    exact closeMatching_sound owner onlyCloseOnExec (hnone rfl)

end RegistryCall

/-- What `epoll_ctl` and `detach_epoll_watches` do to the credits of a key between two
sections. A watch is published under a lease. When its reference cannot be taken it is
taken back, or only the publication is given up, since a detachment took the watch. A watch
that is removed leaves its reference owed; as long as the object is counted, a watch whose
reference is still to be taken is not removed by others. -/
inductive WatchMove (counted : Prop) (others : Credit) : Credit → Credit → Prop
  | publish (h : others.published < others.leases) :
      WatchMove counted others 0 (.watch + .publication)
  | withdraw : WatchMove counted others (.watch + .publication) 0
  | abandon (h : ¬counted) : WatchMove counted others .publication 0
  | remove (h : counted → others.published ≤ others.watches) :
      WatchMove counted others .watch .owing

theorem Balanced.watchMove {a b : Credit} (h : Balanced exact r (one key a + held))
    (hmove : WatchMove (exact ∨ (r.objects key.index).closing = false) (held key) a b) :
    Balanced exact r (one key b + held) := by
  have hsame (key' : ObjectKey) (hne : key' ≠ key) :
      (one key b + held) key' = (one key a + held) key' := by
    rw [one_add_of_ne hne, one_add_of_ne hne]
  cases hlive : r.live key with
  | true =>
    obtain ⟨i, rfl, hocc⟩ := exists_of_live hlive
    have hobj := h.object i hocc
    rw [one_add_self] at hobj
    refine h.modify i (fun _ _ => rfl) (fun _ _ => rfl) h.spaces hocc hsame rfl rfl ?_
    rw [one_add_self]
    obtain ⟨⟨hpos, hdescs, hact, hclo, hrefs, hpub, hleases⟩, hbusy⟩ := hobj
    rw [keyAt_index] at hmove
    refine ⟨⟨hpos, ?_, ?_, hclo, fun hc => ?_, fun hc => ?_, ?_⟩, hbusy⟩ <;>
      cases hmove <;> simp_all [Credit.watch, Credit.publication, Credit.owing] <;> omega
  | false =>
    have hdead := h.dead key hlive
    have hiss := h.issued key fun hzero => by
      rw [one_add_self, Credit.ext_iff] at hzero
      cases hmove <;> simp_all [Credit.watch, Credit.publication]
    rw [one_add_self] at hdead
    obtain ⟨htoks, hleases, hpub, hwatch, howed⟩ := hdead
    refine h.of_dead hlive hsame ?_ hiss
    rw [one_add_self]
    constructor <;> cases hmove <;> simp_all [Credit.watch, Credit.publication, Credit.owing]

structure Ledger where
  registry : Registry
  held : Credits
  added : Arrivals
  finals : List FinalObject

namespace Ledger

def boot : Ledger := ⟨.empty, 0, [], []⟩

/-- The ledger after a section that left `r` and had the effect `e`. -/
def after (s : Ledger) (r : Registry) (e : Effect) : Ledger :=
  ⟨r, e.credits, s.added ++ e.added, s.finals ++ e.finals⟩

/-- A section by a thread, while `held` is held besides. -/
def perform (s : Ledger) (call : RegistryCall β) (held : Credits) : Ledger :=
  s.after (execRegistry β call s.registry).2 (call.effect held (execRegistry β call s.registry).1)

inductive Step (exact : Prop) : Ledger → Ledger → Prop
  | call {s : Ledger} {β : Type} (call : RegistryCall β) (held : Credits)
      (hheld : s.held = call.takes + held) (hfair : call.Fair held) :
      Step exact s (s.perform call held)
  | watch {s : Ledger} {held : Credits} {key : ObjectKey} {a b : Credit}
      (hheld : s.held = one key a + held)
      (hmove : WatchMove (exact ∨ (s.registry.objects key.index).closing = false) (held key) a b) :
      Step exact s (s.after s.registry (.only (one key b + held)))

abbrev Run (exact : Prop) : Ledger → Ledger → Prop := ReflTransGen (Step exact)

variable {s s' : Ledger}

/-- `s'` comes after `s` by something sound. -/
def Later (exact : Prop) (s s' : Ledger) : Prop :=
  ∃ e, s' = s.after s'.registry e ∧ Sound exact s.registry s'.registry e

theorem Step.later (h : Step exact s s') (hbal : Balanced exact s.registry s.held) :
    Later exact s s' := by
  cases h with
  | call call held hheld hfair => exact ⟨_, rfl, call.sound (hheld ▸ hbal) hfair⟩
  | watch hheld hmove =>
    rw [hheld] at hbal
    exact ⟨_, rfl, hbal.watchMove hmove, .refl _⟩

theorem Run.later (h : Run exact s s') (hbal : Balanced exact s.registry s.held) :
    Later exact s s' := by
  induction h with
  | refl => exact ⟨.only s.held, by simp [after, Effect.only], .refl hbal⟩
  | @tail b c _ hstep ih =>
    obtain ⟨e, heq, hsound⟩ := ih
    have hheld : b.held = e.credits := congrArg held heq
    obtain ⟨e', heq', hsound'⟩ := hstep.later (hheld ▸ hsound.balanced)
    refine ⟨_, ?_, hsound.trans hsound'⟩
    rw [heq', heq]
    simp [after]

theorem boot_balanced : Balanced exact boot.registry boot.held where
  object _ hocc := Bool.noConfusion hocc
  vacant _ _ := ⟨total_eq_zero.mpr fun _ => total_eq_zero.mpr fun _ => rfl, rfl⟩
  dead _ _ := Credit.dead_zero
  unissued _ _ := rfl
  spaces _ _ _ := rfl

/-- A process installs an eventfd, and exits. -/
def sampleInstall : Ledger :=
  boot.perform (.installBackendObject ⟨1, 1⟩ ⟨1, 1⟩ (.eventFd 3) 0 false) 0

def sampleExit : Ledger := sampleInstall.perform (.closeMatching ⟨1, 1⟩ false) 0

theorem sampleInstall_run : Run exact boot sampleInstall :=
  .single (.call _ 0 (zero_add _).symm rfl)

theorem sampleExit_run : Run exact sampleInstall sampleExit :=
  .single (.call _ 0 rfl trivial)

theorem Run.sound (h : Run exact boot s) :
    Sound exact .empty s.registry ⟨s.held, s.added, s.finals⟩ := by
  obtain ⟨e, heq, hsound⟩ := h.later boot_balanced
  rw [heq]
  exact hsound

theorem Run.kinds (h : Run exact boot s) (kind : OpenObjectKind) (hkind : kind.hasBackend) :
    s.registry.kindCount kind + finalCount kind s.finals = addedCount kind s.added := by
  have hzero : Registry.empty.kindCount kind = 0 := by
    refine total_eq_zero.mpr fun _ => if_neg ?_
    rintro rfl
    cases hkind
  rw [h.sound.moves.kinds kind hkind, hzero, zero_add]

/-- In every order of sections, a slot, a token or a lease belongs to a live object; the
counters of a live object count them, it is closing once it has no descriptor, and unless it
is closing each watch has its reference. -/
theorem counters_count_holders (h : Run exact boot s) (key : ObjectKey) :
    (∀ sp fd i, (s.registry.slot sp fd).object = some i → s.registry.live (s.registry.keyAt i)) ∧
    ((s.held key).tokens ≠ 0 ∨ (s.held key).leases ≠ 0 → s.registry.live key) ∧
    (s.registry.live key →
      let object := s.registry.objects key.index
      let credit := s.held key
      object.descriptorReferences = s.registry.slotCount key.index + credit.tokens ∧
      object.activeOperations = credit.leases ∧
      (object.closing ↔ object.descriptorReferences = 0) ∧
      (exact ∨ object.closing = false → object.references + credit.published =
        object.descriptorReferences + credit.watches + credit.owed)) := by
  have hbal := h.sound.balanced
  refine ⟨fun sp fd i hslot => ?_, hbal.occupied_of_credit, fun hlive => ?_⟩
  · rw [live_keyAt, hbal.occupied_of_slot hslot]
  · obtain ⟨i, rfl, hocc⟩ := exists_of_live hlive
    have hobj := hbal.object i hocc
    exact ⟨hobj.descriptors, hobj.active, hobj.closing_iff, hobj.references⟩

/-- A token and a lease of the eventfd are out. -/
def sampleLeased : Ledger :=
  let sent := sampleInstall.perform (.captureTransfers ⟨1, 1⟩ [3]) sampleInstall.held
  sent.perform (.acquireDescriptor ⟨1, 1⟩ 3) sent.held

local instance neZeroObjects : NeZero maximumOpenObjects := ⟨by decide⟩

/-- Besides, a watch of it is published. -/
def sampleHeld : Ledger :=
  sampleLeased.after sampleLeased.registry
    (.only (one ⟨3, 1⟩ (.watch + .publication) + sampleLeased.held))

theorem sampleHeld_run : Run exact boot sampleHeld := by
  have hleased : Run exact boot sampleLeased :=
    (sampleInstall_run.tail (.call (.captureTransfers ⟨1, 1⟩ [3]) _ (zero_add _).symm trivial)).tail
      (.call (.acquireDescriptor ⟨1, 1⟩ 3) _ (zero_add _).symm trivial)
  refine hleased.tail (.watch ?_ (.publish (by decide +kernel)))
  rw [one, Pi.single_zero, zero_add]

theorem counters_count_holders_sample : (sampleHeld.held ⟨3, 1⟩).tokens = 1 ∧
    (sampleHeld.held ⟨3, 1⟩).watches = 1 ∧ (sampleHeld.registry.objects 3).activeOperations = 1 ∧
    (sampleHeld.registry.objects 3).references + 1 =
      (sampleHeld.registry.objects 3).descriptorReferences + 1 := by
  have hlive : sampleHeld.registry.live ⟨3, 1⟩ := by decide +kernel
  obtain ⟨-, -, hcnt⟩ := @counters_count_holders True _ sampleHeld_run ⟨3, 1⟩
  obtain ⟨-, hactive, -, hrefs⟩ := hcnt hlive
  exact ⟨by decide +kernel, by decide +kernel, hactive, hrefs (.inl trivial)⟩

/-- In every order of sections an object is finalized at most once, and finalized when it is
no longer in the table; a live object keeps its owner and its kind until then, and a leased
one is live. For every backend, the objects in the table and the finalized ones add up to those
installed. -/
theorem objects_finalized_once (h : Run exact boot s) (h' : Run exact s s') :
    (s'.finals.map FinalObject.key).Nodup ∧
    (∀ key, s.registry.live key → s'.registry.live key ∧
        (s'.registry.objects key.index).owner = (s.registry.objects key.index).owner ∧
        (s'.registry.objects key.index).kind = (s.registry.objects key.index).kind ∨
      s'.registry.live key = false ∧ ∃ final ∈ s'.finals, final.key = key ∧
        final.owner = (s.registry.objects key.index).owner ∧
        final.kind = (s.registry.objects key.index).kind) ∧
    (∀ key, (s'.held key).leases ≠ 0 → s'.registry.live key) ∧
    ∀ kind : OpenObjectKind, kind.hasBackend →
      s'.registry.kindCount kind + finalCount kind s'.finals = addedCount kind s'.added := by
  have hrun : Run exact boot s' := h.trans h'
  obtain ⟨hbal, hall⟩ := hrun.sound
  refine ⟨hall.nodup, fun key hlive => ?_, fun key hkey => hbal.occupied_of_credit (.inr hkey),
    hrun.kinds⟩
  obtain ⟨e, heq, -, hmoves⟩ := h'.later h.sound.balanced
  have hold {owner : ProcessHandle} {kind : OpenObjectKind}
      (horigin : Origin s.registry e.added key owner kind) :
      owner = (s.registry.objects key.index).owner ∧
        kind = (s.registry.objects key.index).kind := by
    rcases horigin with ⟨-, rfl, rfl⟩ | ⟨hlt, -⟩
    · exact ⟨rfl, rfl⟩
    · exact absurd (generation_of_live hlive) hlt.ne
  cases hlive' : s'.registry.live key with
  | true => exact .inl ⟨rfl, hold (hmoves.object key hlive')⟩
  | false =>
    obtain ⟨final, hmem, rfl⟩ := hmoves.departed key hlive hlive'
    refine .inr ⟨rfl, final, ?_, rfl, hold (hmoves.final final hmem).2.2⟩
    rw [heq]
    exact List.mem_append_right _ hmem

theorem objects_finalized_once_sample :
    sampleExit.finals.length = 4 ∧ (sampleExit.finals.map FinalObject.key).Nodup :=
  ⟨by decide +kernel, (@objects_finalized_once True _ _ sampleInstall_run sampleExit_run).1⟩

/-- Once no process has descriptors and nothing is held, everything installed has been
finalized. -/
theorem everything_finalized (h : Run True boot s) (hheld : s.held = 0)
    (hspaces : ∀ sp, (s.registry.spaces sp).occupied = false) :
    (∀ i, (s.registry.objects i).kind.occupied = false) ∧ ∀ kind : OpenObjectKind, kind.hasBackend →
        finalCount kind s.finals = addedCount kind s.added := by
  have hvac (i : ObjectIndex) : (s.registry.objects i).kind.occupied = false := by
    by_contra hocc
    have hobj := h.sound.balanced.object i (by simpa using hocc)
    have hslots : s.registry.slotCount i = 0 := by
      refine total_eq_zero.mpr fun sp => total_eq_zero.mpr fun fd => if_neg fun hi => ?_
      cases (h.sound.balanced.spaces sp (hspaces sp) fd).symm.trans hi
    have hdescs : (s.registry.objects i).descriptorReferences = 0 := by
      rw [hobj.descriptors, hslots, hheld]
      rfl
    have hrefs := hobj.references (.inl trivial)
    have hact := hobj.active
    rw [hheld] at hrefs hact
    rw [hdescs] at hrefs
    exact hobj.busy (hobj.closing_iff.mpr hdescs) hrefs hact
  refine ⟨hvac, fun kind hkind => ?_⟩
  have hnone : s.registry.kindCount kind = 0 := by
    refine total_eq_zero.mpr fun i => if_neg ?_
    rintro rfl
    simpa [hvac i] using OpenObjectKind.occupied_of_hasBackend hkind
  rw [← h.kinds kind hkind, hnone, zero_add]

theorem everything_finalized_sample :
    finalCount (.eventFd 3) sampleExit.finals = addedCount (.eventFd 3) sampleExit.added :=
  (everything_finalized (sampleInstall_run.trans sampleExit_run) rfl (by decide +kernel)).2 _ rfl

end Ledger

end ArachKernel.LinuxFd
