import ArachKernel.Sheaf.Cover

/-!
What a glue certificate is worth at a later moment of the run. `allow` reads the sections as
they are then and takes the gluing from the certificate, so the epoch has to tell whether
anything changed in between. It does for the cover and for revocations; an `install` leaves
the epoch where it is.
-/

namespace ArachKernel.Sheaf

open Process (Word)

namespace CellularCapabilitySheaf

/-- The owner has current sections on both sides of the overlap, and they restrict to the
same value. -/
def Agree (sheaf : CellularCapabilitySheaf) (owner : Word) (overlap : SheafOverlap) : Prop :=
  ∃ left right image, sheaf.sectionOf owner overlap.left = some left ∧
    sheaf.sectionOf owner overlap.right = some right ∧
    (left.epoch = sheaf.epoch ∧ right.epoch = sheaf.epoch) ∧
    overlap.restrictLeft.apply left.value = .ok image ∧
    overlap.restrictRight.apply right.value = .ok image

/-- The owner's section has every required bit that lies in the stalk. -/
def Holds (sheaf : CellularCapabilitySheaf) (owner : Word) (openId : ℕ) (required : Word) : Prop :=
  ∃ record held, sheaf.openRecord openId = .ok record ∧ sheaf.sectionOf owner openId = some held ∧
    ∀ bit < record.stalkDimension, required.getLsbD bit → held.value.getLsbD bit

variable {sheaf sheaf' : CellularCapabilitySheaf} {owner value geometryKey : Word} {openId : ℕ}
  {c c' : GlueCertificate} {overlap : SheafOverlap}

theorem Agree.images (h : sheaf.Agree owner overlap) :
    (sheaf.sectionOf owner overlap.left).map (overlap.restrictLeft.apply ·.value) =
      (sheaf.sectionOf owner overlap.right).map (overlap.restrictRight.apply ·.value) := by
  obtain ⟨left, right, image, hleft, hright, -, himg, himg'⟩ := h
  rw [hleft, hright, Option.map_some, Option.map_some, himg, himg']

theorem getLsbD_dimensionMask {dimension bit : ℕ} (h : bit < dimension) (h64 : bit < 64) :
    (dimensionMask dimension).getLsbD bit := by
  unfold dimensionMask
  split_ifs with hfull hzero
  · rw [BitVec.getLsbD_allOnes, decide_eq_true h64]
  · omega
  · have hone : (1 : Word) <<< dimension - 1 = BitVec.ofNat 64 (2 ^ dimension - 1) := by
      rw [← BitVec.ofNat_sub_ofNat_of_le _ _ (by omega) Nat.one_le_two_pow]
      apply congrArg (· - _)
      apply BitVec.eq_of_toNat_eq
      simp [Nat.shiftLeft_eq]
    rw [hone, BitVec.getLsbD_ofNat]
    simp [h, h64]

theorem checkOverlap_spec (h : sheaf.checkOverlap owner c overlap = .ok c') :
    c'.owner = c.owner ∧ c'.epoch = c.epoch ∧ (c'.glued → c.glued ∧ sheaf.Agree owner overlap) := by
  unfold checkOverlap at h
  split at h
  next left right hleft hright =>
    obtain ⟨hep, h⟩ := Fallible.check_eq_ok.1 h
    obtain ⟨leftImage, himg, h⟩ := Fallible.bind_eq_ok.1 h
    obtain ⟨rightImage, himg', h⟩ := Fallible.bind_eq_ok.1 h
    cases h
    split_ifs with hzero
    · refine ⟨rfl, rfl, fun hglued => ⟨hglued, left, right, leftImage, hleft, hright, ?_, himg, ?_⟩⟩
      · tauto
      · rw [himg', BitVec.xor_eq_zero_iff.1 hzero]
    · unfold GlueCertificate.failAt
      split_ifs <;> simp [GlueCertificate.glued, u16Max]
  · cases h
    unfold GlueCertificate.failAt
    split_ifs <;> simp [GlueCertificate.glued, u16Max]

theorem foldlM_checkOverlap {overlaps : List SheafOverlap}
    (h : overlaps.foldlM (sheaf.checkOverlap owner) c = .ok c') :
    c'.owner = c.owner ∧ c'.epoch = c.epoch ∧
      (c'.glued → c.glued ∧ ∀ overlap ∈ overlaps, sheaf.Agree owner overlap) := by
  induction overlaps generalizing c with
  | nil =>
    cases h
    simp
  | cons overlap rest ih =>
    obtain ⟨next, hnext, h⟩ := Fallible.bind_eq_ok.1 h
    obtain ⟨hown, hep, hagree⟩ := checkOverlap_spec hnext
    obtain ⟨hown', hep', hrest⟩ := ih h
    refine ⟨hown'.trans hown, hep'.trans hep, fun hglued => ?_⟩
    obtain ⟨hnow, hlater⟩ := hrest hglued
    exact ⟨(hagree hnow).1, List.forall_mem_cons.2 ⟨(hagree hnow).2, hlater⟩⟩

theorem certify_spec (h : sheaf.certify owner = .ok c) : c.owner = owner ∧ c.epoch = sheaf.epoch ∧
      (c.glued → ∀ overlap ∈ sheaf.overlaps, sheaf.Agree owner overlap) := by
  obtain ⟨dimension, -, h⟩ := Fallible.bind_eq_ok.1 h
  obtain ⟨checked, hfold, h⟩ := Fallible.bind_eq_ok.1 h
  cases h
  obtain ⟨hown, hep, hagree⟩ := foldlM_checkOverlap hfold
  refine ⟨hown, hep, fun hglued => (hagree ?_).2⟩
  simpa [GlueCertificate.glued] using hglued

theorem allow_spec {required : Word} (h : sheaf.allow owner openId required c = .ok ()) :
    c.owner = owner ∧ c.epoch = sheaf.epoch ∧ c.glued ∧ sheaf.Holds owner openId required := by
  obtain ⟨hcert, h⟩ := Fallible.check_eq_ok.1 h
  obtain ⟨record, hrec, h⟩ := Fallible.bind_eq_ok.1 h
  split at h
  · cases h
  next held hheld =>
  obtain ⟨hrequired, -⟩ := Fallible.check_eq_ok.1 h
  simp only [not_or, not_not] at hcert hrequired
  refine ⟨hcert.2.1, hcert.2.2.1, by simpa using hcert.2.2.2,
    record, held, hrec, hheld, fun bit hbit hbits => ?_⟩
  have hmask := getLsbD_dimensionMask hbit (BitVec.lt_of_getLsbD hbits)
  have := congrArg (·.getLsbD bit) hrequired.2
  simpa [hbits, hmask] using this

theorem find?_replace {new : LocalSection} {sections sections' : List LocalSection}
    (h : replace new sections = some sections') (hoth : owner ≠ new.owner) :
    sections'.find? (fun held => held.owner = owner ∧ held.openId = openId) =
      sections.find? fun held => held.owner = owner ∧ held.openId = openId := by
  induction sections generalizing sections' with
  | nil => cases h
  | cons held rest ih =>
    rw [replace] at h
    split_ifs at h with hsame
    · cases h
      simp [hoth.symm, hsame.1]
    · obtain ⟨rest', hrest, rfl⟩ := Option.map_eq_some_iff.1 h
      simp only [List.find?_cons, ih hrest]

/-- Installing a section touches no other owner's sections, and neither cover nor epoch. -/
theorem install_spec (h : sheaf.install owner openId value = .ok (sheaf', ())) :
    sheaf'.epoch = sheaf.epoch ∧ sheaf'.overlaps = sheaf.overlaps ∧
      ∀ other ≠ owner, sheaf'.sectionOf other = sheaf.sectionOf other := by
  obtain ⟨record, -, h⟩ := Fallible.bind_eq_ok.1 h
  dsimp only at h
  split at h
  next hreplace =>
    cases h
    exact ⟨rfl, rfl, fun other hoth => funext fun id => find?_replace hreplace hoth⟩
  · obtain ⟨-, h⟩ := Fallible.check_eq_ok.1 h
    cases h
    refine ⟨rfl, rfl, fun other hoth => funext fun id => ?_⟩
    simp [sectionOf, hoth.symm]

theorem addOpen_epoch {stalkDimension flags id : ℕ}
    (h : sheaf.addOpen geometryKey stalkDimension flags = .ok (sheaf', id)) :
    sheaf'.epoch = sheaf.nextEpoch := by
  obtain ⟨-, h⟩ := Fallible.check_eq_ok.1 h
  obtain ⟨-, h⟩ := Fallible.check_eq_ok.1 h
  obtain ⟨-, h⟩ := Fallible.check_eq_ok.1 h
  cases h
  rfl

theorem addOverlap_epoch {left right id : ℕ} {restrictLeft restrictRight : BinaryLinearMap}
    (h : sheaf.addOverlap left right geometryKey restrictLeft restrictRight = .ok (sheaf', id)) :
    sheaf'.epoch = sheaf.nextEpoch := by
  obtain ⟨-, h⟩ := Fallible.check_eq_ok.1 h
  obtain ⟨leftOpen, -, h⟩ := Fallible.bind_eq_ok.1 h
  obtain ⟨rightOpen, -, h⟩ := Fallible.bind_eq_ok.1 h
  obtain ⟨-, -, h⟩ := Fallible.bind_eq_ok.1 h
  obtain ⟨-, -, h⟩ := Fallible.bind_eq_ok.1 h
  obtain ⟨-, h⟩ := Fallible.check_eq_ok.1 h
  obtain ⟨-, h⟩ := Fallible.check_eq_ok.1 h
  obtain ⟨-, h⟩ := Fallible.check_eq_ok.1 h
  cases h
  rfl

end CellularCapabilitySheaf

/-! ### Runs -/

open CellularCapabilitySheaf List

inductive Call
  | addOpen (geometryKey : Word) (stalkDimension flags : ℕ)
  | addOverlap (left right : ℕ) (geometryKey : Word)
      (restrictLeft restrictRight : BinaryLinearMap)
  | install (owner : Word) (openId : ℕ) (value : Word)
  | revokeOwner (owner : Word)
  | certify (owner : Word)

/-- A sheaf with the certificates handed out so far, and those of them that a revocation of
their owner has followed. -/
structure Run where
  sheaf : CellularCapabilitySheaf
  issued : List GlueCertificate
  revoked : List GlueCertificate

namespace Run

/-- A call that fails leaves the sheaf as it was. -/
def accept {α : Type} (run : Run) : Except SheafError (CellularCapabilitySheaf × α) → Run
  | .ok done => { run with sheaf := done.1 }
  | .error _ => run

def after (run : Run) : Call → Run
  | .addOpen geometryKey stalkDimension flags =>
    run.accept (run.sheaf.addOpen geometryKey stalkDimension flags)
  | .addOverlap left right geometryKey restrictLeft restrictRight =>
    run.accept (run.sheaf.addOverlap left right geometryKey restrictLeft restrictRight)
  | .install owner openId value => run.accept (run.sheaf.install owner openId value)
  | .revokeOwner owner => { run with
      sheaf := run.sheaf.revokeOwner owner
      revoked := run.issued.filter (·.owner = owner) ++ run.revoked }
  | .certify owner =>
    match run.sheaf.certify owner with
    | .ok c => { run with issued := c :: run.issued }
    | .error _ => run

/-- An owner with a glued certificate of the current epoch installs nothing, and the epoch
counter does not wrap. -/
def Careful (run : Run) : Call → Prop
  | .install owner _ _ => ∀ c ∈ run.issued,
      c.owner = owner → c.epoch = run.sheaf.epoch → ¬ c.glued
  | .certify _ => True
  | _ => run.sheaf.epoch < u64Max

inductive Reached : Run → Prop
  | new {secret : Word} {sheaf : CellularCapabilitySheaf}
      (h : CellularCapabilitySheaf.new secret = .ok sheaf) : Reached ⟨sheaf, [], []⟩
  | step {run : Run} {call : Call} (h : Reached run) (hcall : run.Careful call) :
      Reached (run.after call)

/-- What `allow` vouches for at this moment of the run. -/
structure Sound (run : Run) : Prop where
  glued : ∀ c ∈ run.issued, ∀ owner openId required,
    run.sheaf.allow owner openId required c = .ok () →
      (∀ overlap ∈ run.sheaf.overlaps, run.sheaf.Agree owner overlap) ∧
        run.sheaf.Holds owner openId required
  revoked : ∀ c ∈ run.revoked, ∀ owner openId required,
    run.sheaf.allow owner openId required c ≠ .ok ()

/-- Certificates of the current epoch still say what is the case. -/
structure Current (run : Run) : Prop where
  known : ∀ c ∈ run.issued, c.epoch ≤ run.sheaf.epoch
  agree : ∀ c ∈ run.issued, c.epoch = run.sheaf.epoch → c.glued →
    ∀ overlap ∈ run.sheaf.overlaps, run.sheaf.Agree c.owner overlap
  stale : ∀ c ∈ run.revoked, c.epoch < run.sheaf.epoch

variable {run : Run} {sheaf : CellularCapabilitySheaf} {owner value : Word} {openId : ℕ}

section

variable (h : run.Current)
include h

theorem Current.sound : run.Sound where
  glued := by
    intro c hiss owner openId required hallow
    obtain ⟨rfl, hep, hglued, hholds⟩ := allow_spec hallow
    exact ⟨h.agree c hiss hep hglued, hholds⟩
  revoked := by
    intro c hrev owner openId required hallow
    exact absurd (allow_spec hallow).2.1 (h.stale c hrev).ne

/-- A new epoch leaves every earlier certificate behind. -/
theorem Current.advance (hwrap : run.sheaf.epoch < u64Max)
    (hnext : sheaf.epoch = run.sheaf.nextEpoch) {revoked : List GlueCertificate}
    (hrev : ∀ c ∈ revoked, c ∈ run.issued ∨ c ∈ run.revoked) :
    Current ⟨sheaf, run.issued, revoked⟩ := by
  have hep : sheaf.epoch = run.sheaf.epoch + 1 := by
    rw [hnext, nextEpoch]
    unfold u64Max at hwrap
    omega
  refine ⟨fun c hc => ?_, fun c hc hsame => ?_, fun c hc => ?_⟩
  · have := h.known c hc
    simp only [hep]
    omega
  · have := h.known c hc
    simp only [hep] at hsame
    omega
  · simp only [hep]
    rcases hrev c hc with hc | hc
    · exact Nat.lt_succ_of_le (h.known c hc)
    · exact (h.stale c hc).trans (Nat.lt_succ_self _)

theorem Current.install (hcareful : run.Careful (.install owner openId value))
    (hinst : run.sheaf.install owner openId value = .ok (sheaf, ())) :
    Current { run with sheaf := sheaf } := by
  obtain ⟨hep, hoverlaps, hsections⟩ := install_spec hinst
  refine ⟨?_, fun c hc hsame hglued overlap hoverlap => ?_, ?_⟩
  · simpa only [hep] using h.known
  · simp only [hep] at hsame
    have hoth : c.owner ≠ owner := fun hown => hcareful c hc hown hsame hglued
    have := h.agree c hc hsame hglued overlap (hoverlaps ▸ hoverlap)
    simpa only [Agree, hsections _ hoth, hep] using this
  · simpa only [hep] using h.stale

theorem Current.certify {c : GlueCertificate} (hcertify : run.sheaf.certify owner = .ok c) :
    Current { run with issued := c :: run.issued } := by
  obtain ⟨rfl, hep, hagree⟩ := certify_spec hcertify
  exact ⟨forall_mem_cons.2 ⟨hep.le, h.known⟩, forall_mem_cons.2 ⟨fun _ => hagree, h.agree⟩, h.stale⟩

theorem Current.accept {α : Type} {result : Except SheafError (CellularCapabilitySheaf × α)}
    (hok : ∀ sheaf a, result = .ok (sheaf, a) → Current { run with sheaf := sheaf }) :
    (run.accept result).Current := by
  cases result with
  | error => exact h
  | ok => exact hok _ _ rfl

theorem Current.after {call : Call} (hcareful : run.Careful call) : (run.after call).Current := by
  cases call with
  | addOpen =>
    exact h.accept fun _ _ hadd => h.advance hcareful (addOpen_epoch hadd) fun _ => .inr
  | addOverlap =>
    exact h.accept fun _ _ hadd => h.advance hcareful (addOverlap_epoch hadd) fun _ => .inr
  | install => exact h.accept fun _ _ hinst => h.install hcareful hinst
  | revokeOwner =>
    refine h.advance hcareful rfl fun c hc => ?_
    exact (mem_append.1 hc).imp_left mem_of_mem_filter
  | certify =>
    simp only [Run.after]
    split
    next hcertify => exact h.certify hcertify
    · exact h

end

/-- In every careful run, a certificate that `allow` accepts tells the truth. -/
theorem certificates_sound (h : Reached run) : run.Sound := by
  suffices hcur : run.Current from hcur.sound
  induction h with
  | new => exact ⟨nofun, nofun, nofun⟩
  | step h hcall ih => exact ih.after hcall

instance (run : Run) : DecidablePred run.Careful
  | .install .. => inferInstanceAs (Decidable (∀ c ∈ run.issued, _))
  | .certify _ => .isTrue trivial
  | .addOpen .. | .addOverlap .. | .revokeOwner _ => Nat.decLt _ _

/-- Two opens with one bit each that have to agree, and an owner whose sections do. -/
def agreed : Run :=
  let bit : BinaryLinearMap := ⟨1, 1, .ofFn fun row => if row.val = 0 then 1 else 0⟩
  [.addOpen 1 1 0, .addOpen 2 1 0, .addOverlap 0 1 3 bit bit, .install 9 0 0, .install 9 1 0,
    .certify 9].foldl after ⟨⟨[], [], [], 1, 7⟩, [], []⟩

theorem agreed_sound :
    (∃ c ∈ agreed.issued, agreed.sheaf.allow 9 0 0 c = .ok ()) ∧ agreed.Sound := by
  refine ⟨by decide +kernel, certificates_sound ?_⟩
  simp only [agreed, foldl]
  iterate 6 refine .step ?_ (by decide +kernel)
  exact .new (show CellularCapabilitySheaf.new 7 = _ from rfl)

/-- The owner installs the bit on one side only, and the certificate of before gets it through. -/
theorem reinstalled_not_sound : ¬ (agreed.after (.install 9 0 1)).Sound := by
  intro hsound
  have haccepted := hsound.glued _ (head_mem (by decide +kernel)) 9 0 1 (by decide +kernel)
  have himages := (haccepted.1 _ (head_mem (by decide +kernel))).images
  revert himages
  decide +kernel

end Run

end ArachKernel.Sheaf
