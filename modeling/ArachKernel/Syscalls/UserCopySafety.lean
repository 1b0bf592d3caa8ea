import ArachKernel.Syscalls.PageWalk

/-!
The copies touch only what the tables give to the caller. Each byte goes to, or comes from,
the place that the tables map for its address when its page is reached; a copy is a prefix
of the range, and the whole range when it succeeds. A copy that does not write to the
entries that translate its own range walks the tables it started with, and then the
validation of the range foretells the copy.
-/

namespace ArachKernel.Syscalls

open Process List

variable {σ τ : Type} {root target : Word} {length checked : ℕ}

/-! ### Rules for the loop -/

/-- The bytes of the page of `target + checked` that are left in the range. -/
def spanAt (target : Word) (length checked : ℕ) : ℕ :=
  min (pageSize - (target + BitVec.ofNat 64 checked).toNat % pageSize) (length - checked)

/-- The walk of a pass at an offset of the range. -/
def walkAt (pass : Pass σ) (root target : Word) (checked : ℕ) (s : σ) : Except UserCopyError Word :=
  translateUserAddressWithAccess root (target + BitVec.ofNat 64 checked) pass.write
    (readActiveEntry (pass.memory s))

theorem spanAt_pos (hlt : checked < length) : 0 < spanAt target length checked := by
  have hpage := Nat.mod_lt (target + BitVec.ofNat 64 checked).toNat (show 0 < pageSize by decide)
  rw [spanAt]
  omega

variable {physical : Word} {pass : Pass σ} {s : σ}

/-- A turn of the loop that gets to the visit. -/
theorem spans_visit (hlt : checked < length)
    (hwalk : walkAt pass root target checked s = .ok physical)
    (hlim : physical.toNat + spanAt target length checked ≤ earlyMappedPhysicalLimit)
    (hptr : (pass.pointer physical.toNat).isSome) :
    spans pass root target length checked s =
      spans pass root target length (checked + spanAt target length checked)
        (pass.visit physical.toNat checked (spanAt target length checked) s) := by
  have hend : checkedAdd u64Max physical.toNat (spanAt target length checked) =
      some (physical.toNat + spanAt target length checked) :=
    checkedAdd_eq_some.mpr ⟨hlim.trans (by decide), rfl⟩
  obtain ⟨pointer, hptr⟩ := Option.isSome_iff_exists.mp hptr
  rw [walkAt] at hwalk
  rw [spanAt] at hend hlim
  rw [spans, if_pos hlt]
  dsimp only
  rw [hwalk]
  dsimp only
  rw [hend]
  dsimp only
  rw [if_neg (not_lt.mpr hlim), hptr]
  rfl

/-- The error of a turn that does not get to the visit. -/
def stopError : Except UserCopyError Word → UserCopyError
  | .error error => error
  | .ok _ => .unmappedPhysicalMemory

/-- A turn of the loop that stops. -/
theorem spans_stop (hlt : checked < length)
    (hstop : ∀ physical, walkAt pass root target checked s = .ok physical →
      ¬ physical.toNat + spanAt target length checked ≤ earlyMappedPhysicalLimit) :
    spans pass root target length checked s =
      (.error (stopError (walkAt pass root target checked s)), s) := by
  rw [spans, if_pos hlt]
  dsimp only
  cases hwalk : walkAt pass root target checked s with
  | error =>
    rw [walkAt] at hwalk
    rw [hwalk]
    rfl
  | ok physical =>
    have hover := hstop physical hwalk
    rw [walkAt] at hwalk
    rw [hwalk]
    dsimp only
    split
    · rfl
    next hend =>
    rw [(checkedAdd_eq_some.mp hend).2]
    rw [spanAt] at hover
    rw [if_pos (not_le.mp hover)]
    rfl

/-- What every turn of the loop keeps. -/
theorem spans_rule (pass : Pass σ) (root target : Word) (length : ℕ) {P : ℕ → σ → Prop}
    (hptr : ∀ p < earlyMappedPhysicalLimit, (pass.pointer p).isSome) (hs : P checked s)
    (hstep : ∀ c s physical, P c s → c < length → walkAt pass root target c s = .ok physical →
      physical.toNat + spanAt target length c ≤ earlyMappedPhysicalLimit →
      P (c + spanAt target length c) (pass.visit physical.toNat c (spanAt target length c) s)) :
    ∃ c, P c (spans pass root target length checked s).2 ∧
      ((spans pass root target length checked s).1 = .ok () → length ≤ c) := by
  induction hn : length - checked using Nat.strong_induction_on generalizing checked s with
  | _ n ih =>
    by_cases hlt : checked < length
    · have hpos : 0 < spanAt target length checked := spanAt_pos hlt
      by_cases hvisit : ∃ physical, walkAt pass root target checked s = .ok physical ∧
          physical.toNat + spanAt target length checked ≤ earlyMappedPhysicalLimit
      · obtain ⟨physical, hwalk, hlim⟩ := hvisit
        rw [spans_visit hlt hwalk hlim (hptr _ (by omega))]
        exact ih _ (by omega) (hstep checked s physical hs hlt hwalk hlim) rfl
      · rw [spans_stop hlt fun physical hwalk hlim => hvisit ⟨physical, hwalk, hlim⟩]
        exact ⟨checked, hs, nofun⟩
    · rw [spans, if_neg hlt]
      exact ⟨checked, hs, fun _ => not_lt.mp hlt⟩

/-- Two passes that walk alike end alike. -/
theorem spans_agree (pass : Pass σ) (pass' : Pass τ) (root target : Word) (length : ℕ)
    {R : ℕ → σ → τ → Prop} {t : τ} (hptr : ∀ p < earlyMappedPhysicalLimit, (pass.pointer p).isSome)
    (hptr' : ∀ p < earlyMappedPhysicalLimit, (pass'.pointer p).isSome) (hs : R checked s t)
    (hwalk : ∀ c s t, R c s t → c < length →
      walkAt pass root target c s = walkAt pass' root target c t)
    (hstep : ∀ c s t physical, R c s t → c < length → walkAt pass' root target c t = .ok physical →
      R (c + spanAt target length c) (pass.visit physical.toNat c (spanAt target length c) s)
        (pass'.visit physical.toNat c (spanAt target length c) t)) :
    (spans pass root target length checked s).1 = (spans pass' root target length checked t).1 := by
  induction hn : length - checked using Nat.strong_induction_on generalizing checked s t with
  | _ n ih =>
    by_cases hlt : checked < length
    · have hpos : 0 < spanAt target length checked := spanAt_pos hlt
      have hsame := hwalk checked s t hs hlt
      by_cases hvisit : ∃ physical, walkAt pass' root target checked t = .ok physical ∧
          physical.toNat + spanAt target length checked ≤ earlyMappedPhysicalLimit
      · obtain ⟨physical, hwalked, hlim⟩ := hvisit
        rw [spans_visit hlt (hsame.trans hwalked) hlim (hptr _ (by omega)),
          spans_visit hlt hwalked hlim (hptr' _ (by omega))]
        exact ih _ (by omega) (hstep checked s t physical hs hlt hwalked) rfl
      · rw [spans_stop hlt fun physical hwalked hlim =>
            hvisit ⟨physical, hsame.symm.trans hwalked, hlim⟩,
          spans_stop hlt fun physical hwalked hlim => hvisit ⟨physical, hwalked, hlim⟩, hsame]
    · rw [spans, spans, if_neg hlt, if_neg hlt]

/-! ### The range -/

/-- The range lies within the user half and above the first page. -/
structure InRange (target : Word) (length : ℕ) : Prop where
  low : userAddressMinimum.toNat ≤ target.toNat
  high : target.toNat + length ≤ userAddressLimit.toNat

variable {i : ℕ}

/-- Addresses of the range do not wrap around. -/
theorem InRange.toNat (h : InRange target length) (hi : i ≤ length) :
    (target + BitVec.ofNat 64 i).toNat = target.toNat + i := by
  have hhigh := h.high
  have hsum : target.toNat + i < 2 ^ 64 := by omega
  rw [BitVec.toNat_add, BitVec.toNat_ofNat, Nat.mod_eq_of_lt (by omega : i < 2 ^ 64),
    Nat.mod_eq_of_lt hsum]

/-- A pass does nothing, or runs over a range of the user half. -/
theorem overUserRange_cases (pass : Pass σ) (root target : Word) (length : ℕ) (s : σ) :
    length = 0 ∧ overUserRange pass root target length s = (.ok (), s) ∨
      ¬ InRange target length ∧
        overUserRange pass root target length s = (.error .invalidRange, s) ∨
      InRange target length ∧
        overUserRange pass root target length s = spans pass root target length 0 s := by
  unfold overUserRange
  split
  · next hzero => exact .inl ⟨hzero, rfl⟩
  split
  next hnone =>
    refine .inr (.inl ⟨fun h => ?_, rfl⟩)
    have hsum := h.high.trans (show userAddressLimit.toNat ≤ u64Max by decide)
    simp [checkedAdd_eq_some.mpr ⟨hsum, rfl⟩] at hnone
  next hend =>
  rw [(checkedAdd_eq_some.mp hend).2]
  split
  next hout =>
    refine .inr (.inl ⟨fun h => ?_, rfl⟩)
    rcases hout with hlow | hhigh
    · exact absurd h.low (not_le.mpr hlow)
    · exact absurd h.high (not_le.mpr hhigh)
  next hin =>
    rw [not_or, not_lt, BitVec.not_lt] at hin
    exact .inr (.inr ⟨⟨hin.1, hin.2⟩, rfl⟩)

/-- Two passes over one range that end alike in the loop end alike. -/
theorem overUserRange_agree (pass : Pass σ) (pass' : Pass τ) {t : τ}
    (h : InRange target length → (spans pass root target length 0 s).1 =
      (spans pass' root target length 0 t).1) :
    (overUserRange pass root target length s).1 = (overUserRange pass' root target length t).1 := by
  rcases overUserRange_cases pass root target length s with
    ⟨hzero, heq⟩ | ⟨hout, heq⟩ | ⟨hrng, heq⟩
  · rw [heq, overUserRange, if_pos hzero]
  all_goals
    rcases overUserRange_cases pass' root target length t with
      ⟨hzero, heq'⟩ | ⟨hout', heq'⟩ | ⟨hrng', heq'⟩
  · rw [overUserRange, if_pos hzero, heq']
  · rw [heq, heq']
  · exact absurd hrng' hout
  · rw [overUserRange, if_pos hzero, heq']
  · exact absurd hrng hout'
  · rw [heq, heq', h hrng]

/-- A walk at an offset serves the whole span. -/
theorem walkAt_maps (hrng : InRange target length)
    (hlt : checked < length) (hwalk : walkAt pass root target checked s = .ok physical)
    (hi : i < spanAt target length checked) :
    Maps (pass.memory s) root pass.write (target + BitVec.ofNat 64 (checked + i))
      (physical.toNat + i) := by
  have hmaps := translate_ok hwalk
  have hhigh := hrng.high
  have hnat := hrng.toNat hlt.le
  rw [spanAt] at hi
  have hadd := hmaps.add (i := i) (by omega) (by omega)
  rwa [BitVec.add_assoc, ← BitVec.ofNat_add] at hadd

theorem directMapAddress_isSome {p : ℕ} (hp : p < earlyMappedPhysicalLimit) :
    (directMapAddress p).isSome := by
  have hlim : earlyMappedPhysicalLimit ≤ u64Max - higherHalfDirectMapBase := by decide
  rw [directMapAddress, if_neg (not_le.mpr hp),
    checkedAdd_eq_some.mpr ⟨(by omega : higherHalfDirectMapBase + p ≤ u64Max), rfl⟩]
  rfl

theorem spanAt_le (target : Word) (length checked : ℕ) :
    spanAt target length checked ≤ length - checked := min_le_right _ _

theorem getElem?_range'_some {start size p : ℕ} (h : (List.range' start size)[i]? = some p) :
    i < size ∧ p = start + i := by
  obtain ⟨hi, heq⟩ := List.getElem?_eq_some_iff.mp h
  rw [List.getElem_range', Nat.one_mul] at heq
  rw [List.length_range'] at hi
  exact ⟨hi, heq.symm⟩

variable {places : List ℕ}

/-- The addresses of the places that a pass gets to do not wrap around. -/
theorem toNat_of_place {p : ℕ} (hle : places.length ≤ length)
    (hrng : places ≠ [] → InRange target length) (hp : places[i]? = some p) :
    (target + BitVec.ofNat 64 i).toNat = target.toNat + i := by
  have hi := (List.getElem?_eq_some_iff.mp hp).1
  exact (hrng (List.ne_nil_of_mem (List.mem_of_getElem? hp))).toNat (by omega)

/-! ### Reads -/

/-- The bytes read so far, in the order of their addresses. -/
structure Read (root source : Word) (m : Memory) (copied : ℕ) (s : Loads) (places : List ℕ) :
    Prop where
  memory : s.memory = m
  length : places.length = copied
  loaded : s.loaded = places.map fun p => (p, m p)
  maps : ∀ i p, places[i]? = some p →
    p < earlyMappedPhysicalLimit ∧ Maps m root false (source + BitVec.ofNat 64 i) p

variable {m : Memory}

theorem Read.load {source : Word} {copied : ℕ} {s : Loads} (h : Read root source m copied s places)
    (hrng : InRange source length)
    (hlt : copied < length) (hwalk : walkAt copyingFrom root source copied s = .ok physical)
    (hlim : physical.toNat + spanAt source length copied ≤ earlyMappedPhysicalLimit) :
    Read root source m (copied + spanAt source length copied)
      (s.load physical.toNat (spanAt source length copied))
      (places ++ range' physical.toNat (spanAt source length copied)) where
  memory := h.memory
  length := by rw [length_append, h.length, length_range']
  loaded := by
    rw [Loads.load, h.loaded, h.memory, map_append]
  maps i p hp := by
    rcases Nat.lt_or_ge i copied with hi | hi
    · rw [getElem?_append_left (by rwa [h.length])] at hp
      exact h.maps i p hp
    rw [getElem?_append_right (by rwa [h.length]), h.length] at hp
    obtain ⟨hspan, rfl⟩ := getElem?_range'_some hp
    have hmaps := walkAt_maps hrng hlt hwalk hspan
    rw [Nat.add_sub_cancel' hi] at hmaps
    refine ⟨by omega, ?_⟩
    rw [← h.memory]
    exact hmaps

theorem copyFromUser_reads (root source : Word) (length : ℕ) (m : Memory) :
    ∃ places : List ℕ, places.length ≤ length ∧
      ((copyFromUser root source length m).1 = .ok () → places.length = length) ∧
      (copyFromUser root source length m).2 = places.map (fun p => (p, m p)) ∧
      (places ≠ [] → InRange source length) ∧
      ∀ i p, places[i]? = some p →
        p < earlyMappedPhysicalLimit ∧ Maps m root false (source + BitVec.ofNat 64 i) p := by
  have hnil : Read root source m 0 { memory := m, loaded := [] } [] :=
    ⟨rfl, rfl, rfl, fun i p hp => by simp at hp⟩
  unfold copyFromUser
  rcases overUserRange_cases copyingFrom root source length { memory := m, loaded := [] } with
    ⟨hzero, heq⟩ | ⟨_, heq⟩ | ⟨hrng, heq⟩
  · rw [heq]
    exact ⟨[], Nat.zero_le _, fun _ => hzero.symm, rfl, fun h => absurd rfl h, hnil.maps⟩
  · rw [heq]
    refine ⟨[], Nat.zero_le _, fun h => ?_, rfl, fun h => absurd rfl h, hnil.maps⟩
    cases h
  rw [heq]
  obtain ⟨c, ⟨hc, places, hread⟩, hok⟩ := spans_rule copyingFrom root source length
    (P := fun c s => c ≤ length ∧ ∃ places, Read root source m c s places)
    (fun _ => directMapAddress_isSome) ⟨Nat.zero_le _, [], hnil⟩
    fun c s physical h hlt hwalk hlim => by
      obtain ⟨_, places, hread⟩ := h
      have hspan := spanAt_le source length c
      exact ⟨by omega, _, hread.load hrng hlt hwalk hlim⟩
  refine ⟨places, ?_, fun h => ?_, hread.loaded, fun _ => hrng, hread.maps⟩
  · rwa [hread.length]
  · rw [hread.length]
    exact le_antisymm hc (hok h)

/-! ### Copies apart from the tables -/

/-- No address of the range is mapped to an entry that translates the range. -/
def Apart (m : Memory) (root target : Word) (length : ℕ) : Prop :=
  ∀ i < length, ∀ j < length, ∀ p, Maps m root true (target + BitVec.ofNat 64 i) p →
    ∀ e ∈ entriesWalked m root true (target + BitVec.ofNat 64 j), p < e ∨ e + 8 ≤ p

/-- The entries that translate the range are as they were. -/
def SameTables (m : Memory) (root target : Word) (length : ℕ) (m' : Memory) : Prop :=
  ∀ j < length, ∀ e ∈ entriesWalked m root true (target + BitVec.ofNat 64 j), SameEntry m m' e

theorem writeAll_of_notMem {writes : List (ℕ × Byte)} {q : ℕ}
    (h : ∀ write ∈ writes, write.1 ≠ q) : writeAll m writes q = m q := by
  induction writes generalizing m with
  | nil => rfl
  | cons write writes ih =>
    rw [forall_mem_cons] at h
    rw [writeAll, List.foldl_cons, ← writeAll, ih h.2, Function.update_of_ne h.1.symm]

variable {source : List Byte}

theorem SameTables.walk {t : Physical}
    (h : SameTables m root target length t.memory) (hlt : checked < length) :
    walkAt (copyingTo source) root target checked t = walkAt validation root target checked m :=
  translate_congr (h checked hlt)

/-- A store to the places of the range leaves the tables alone. -/
theorem SameTables.store {t : Physical}
    (h : SameTables m root target length t.memory) (hapart : Apart m root target length)
    (hrng : InRange target length) (hlt : checked < length)
    (hwalk : walkAt validation root target checked m = .ok physical) :
    SameTables m root target length
      ((copyingTo source).visit physical.toNat checked
        (spanAt target length checked) t).memory := by
  intro j hj e he k hk
  refine (writeAll_of_notMem fun write hwrite => ?_).trans (h j hj e he k hk)
  obtain ⟨hplace, _⟩ := of_mem_zip hwrite
  obtain ⟨hlow, hhigh⟩ := mem_range'_1.mp hplace
  rw [length_take] at hhigh
  obtain ⟨i, hi⟩ := Nat.exists_eq_add_of_le hlow
  have hspan := spanAt_le target length checked
  have hmaps := walkAt_maps (i := i) hrng hlt hwalk (by omega)
  have hout := hapart (checked + i) (by omega) j hj _ hmaps e he
  omega

/-! ### Writes -/

/-- The offset at which a pass gets to the page of the offset `i`. -/
def reachedAt (target : Word) (i : ℕ) : ℕ := i - (target.toNat + i) % pageSize

/-- The spans begin at the start of the range and at the pages. -/
def Begins (target : Word) (length checked : ℕ) : Prop :=
  checked < length → checked = 0 ∨ (target.toNat + checked) % pageSize = 0

theorem Begins.reachedAt (h : Begins target length checked) (hrng : InRange target length)
    (hlt : checked < length) (hi : checked ≤ i)
    (hspan : i - checked < spanAt target length checked) : reachedAt target i = checked := by
  have hsize : pageSize = 4096 := rfl
  rw [spanAt, hrng.toNat hlt.le] at hspan
  have hbegin := h hlt
  rw [Syscalls.reachedAt]
  rw [hsize] at hbegin hspan ⊢
  omega

theorem Begins.next (hrng : InRange target length) (hlt : checked < length) :
    Begins target length (checked + spanAt target length checked) := by
  intro hnext
  have hsize : pageSize = 4096 := rfl
  rw [spanAt, hrng.toNat hlt.le] at hnext ⊢
  rw [hsize] at hnext ⊢
  omega

/-- The bytes written so far: each goes where the tables, as they were when the copy got to
its page, map its address. -/
structure Wrote (root target : Word) (source : List Byte) (s : Physical) (copied : ℕ)
    (t : Physical) (places : List ℕ) : Prop where
  length : places.length = copied
  begins : Begins target source.length copied
  written : t.written = s.written ++ places.zip source
  memory : t.memory = writeAll s.memory (places.zip source)
  maps : ∀ i p, places[i]? = some p → p < earlyMappedPhysicalLimit ∧
    Maps (writeAll s.memory ((places.zip source).take (reachedAt target i))) root true
      (target + BitVec.ofNat 64 i) p
  apart : Apart s.memory root target source.length →
    SameTables s.memory root target source.length t.memory ∧
      ∀ i p, places[i]? = some p → Maps s.memory root true (target + BitVec.ofNat 64 i) p

theorem zip_take_length {α β : Type} (first : List α) (second : List β) :
    first.zip (second.take first.length) = first.zip second := by
  induction first generalizing second with
  | nil => rfl
  | cons a first ih =>
    cases second with
    | nil => rfl
    | cons => simp [ih]

/-- The next bytes of the source. -/
theorem zip_append_range' {copied span : ℕ} (physical : ℕ) (hlen : places.length = copied)
    (hspan : span ≤ source.length - copied) (hcopied : copied ≤ source.length) :
    (places ++ range' physical span).zip source =
      places.zip source ++ placed physical ((source.drop copied).take span) := by
  have htaken : (source.take copied).length = places.length := by
    rw [length_take, hlen, min_eq_left hcopied]
  have hbytes : ((source.drop copied).take span).length = span := by
    rw [length_take, length_drop, min_eq_left hspan]
  calc (places ++ range' physical span).zip source
      = (places ++ range' physical span).zip (source.take copied ++ source.drop copied) := by
        rw [take_append_drop]
    _ = places.zip (source.take copied) ++ (range' physical span).zip (source.drop copied) :=
        zip_append htaken.symm
    _ = places.zip source ++ placed physical ((source.drop copied).take span) := by
        rw [← hlen, zip_take_length, hlen, placed, hbytes,
          ← zip_take_length (range' physical span), length_range']

theorem Wrote.store {copied : ℕ} {s t : Physical} (h : Wrote root target source s copied t places)
    (hrng : InRange target source.length) (hlt : copied < source.length)
    (hwalk : walkAt (copyingTo source) root target copied t = .ok physical)
    (hlim : physical.toNat + spanAt target source.length copied ≤ earlyMappedPhysicalLimit) :
    Wrote root target source s (copied + spanAt target source.length copied)
      ((copyingTo source).visit physical.toNat copied (spanAt target source.length copied) t)
      (places ++ range' physical.toNat (spanAt target source.length copied)) := by
  have hzip :=
    zip_append_range' physical.toNat h.length (spanAt_le target source.length copied) hlt.le
  have hzipped : (places.zip source).length = copied := by
    rw [length_zip, h.length, min_eq_left hlt.le]
  refine ⟨?_, Begins.next hrng hlt, ?_, ?_, fun i p hp => ?_, fun hapart => ?_⟩
  · rw [length_append, h.length, length_range']
  · rw [hzip, ← append_assoc, ← h.written]
    rfl
  · rw [hzip, writeAll, foldl_append, ← writeAll, ← writeAll, ← h.memory]
    rfl
  · rcases Nat.lt_or_ge i copied with hi | hi
    · rw [getElem?_append_left (by rwa [h.length])] at hp
      obtain ⟨hp, hmaps⟩ := h.maps i p hp
      refine ⟨hp, ?_⟩
      have hbef : reachedAt target i ≤ i := Nat.sub_le _ _
      rwa [hzip, take_append_of_le_length (by omega)]
    · rw [getElem?_append_right (by rwa [h.length]), h.length] at hp
      obtain ⟨hspan, rfl⟩ := getElem?_range'_some hp
      have hmaps := walkAt_maps hrng hlt hwalk hspan
      rw [Nat.add_sub_cancel' hi] at hmaps
      refine ⟨by omega, ?_⟩
      rw [h.begins.reachedAt hrng hlt hi hspan, hzip, take_append_of_le_length hzipped.ge,
        take_of_length_le hzipped.le, ← h.memory]
      exact hmaps
  · obtain ⟨hsame, hmaps⟩ := h.apart hapart
    rw [hsame.walk hlt] at hwalk
    refine ⟨hsame.store hapart hrng hlt hwalk, fun i p hp => ?_⟩
    rcases Nat.lt_or_ge i copied with hi | hi
    · rw [getElem?_append_left (by rwa [h.length])] at hp
      exact hmaps i p hp
    · rw [getElem?_append_right (by rwa [h.length]), h.length] at hp
      obtain ⟨hspan, rfl⟩ := getElem?_range'_some hp
      have hmap := walkAt_maps hrng hlt hwalk hspan
      rwa [Nat.add_sub_cancel' hi] at hmap

theorem copyToUser_writes (root target : Word) (source : List Byte) (s : Physical) :
    ∃ places : List ℕ, places.length ≤ source.length ∧
      ((copyToUser root target source s).1 = .ok () → places.length = source.length) ∧
      (places ≠ [] → InRange target source.length) ∧
      Wrote root target source s places.length (copyToUser root target source s).2 places := by
  have hnil : Wrote root target source s 0 s [] :=
    ⟨rfl, fun _ => .inl rfl, (append_nil _).symm, rfl, fun i p hp => by simp at hp,
      fun _ => ⟨fun _ _ _ _ _ _ => rfl, fun i p hp => by simp at hp⟩⟩
  unfold copyToUser
  rcases overUserRange_cases (copyingTo source) root target source.length s with
    ⟨hzero, heq⟩ | ⟨_, heq⟩ | ⟨hrng, heq⟩
  · rw [heq]
    exact ⟨[], Nat.zero_le _, fun _ => hzero.symm, fun h => absurd rfl h, hnil⟩
  · rw [heq]
    refine ⟨[], Nat.zero_le _, fun h => ?_, fun h => absurd rfl h, hnil⟩
    cases h
  rw [heq]
  obtain ⟨c, ⟨hc, places, hwrote⟩, hok⟩ := spans_rule (copyingTo source) root target source.length
    (P := fun c t => c ≤ source.length ∧ ∃ places, Wrote root target source s c t places)
    (fun _ => directMapAddress_isSome) ⟨Nat.zero_le _, [], hnil⟩
    fun c t physical h hlt hwalk hlim => by
      obtain ⟨_, places, hwrote⟩ := h
      have hspan := spanAt_le target source.length c
      exact ⟨by omega, _, hwrote.store hrng hlt hwalk hlim⟩
  obtain rfl := hwrote.length
  exact ⟨places, hc, fun h => le_antisymm hc (hok h), fun _ => hrng, hwrote⟩

/-- Apart from its tables, a copy ends as the validation of its range does. -/
theorem copyToUser_apart {s : Physical} (h : Apart s.memory root target source.length) :
    (copyToUser root target source s).1 =
      validateUserWriteRange root target source.length s.memory := by
  refine overUserRange_agree (copyingTo source) validation fun hrng => ?_
  refine spans_agree (copyingTo source) validation root target source.length
    (R := fun _ t m => m = s.memory ∧ SameTables s.memory root target source.length t.memory)
    (fun _ => directMapAddress_isSome) (fun _ _ => rfl) ⟨rfl, fun _ _ _ _ _ _ => rfl⟩ ?_ ?_
  · rintro c t m ⟨rfl, hsame⟩ hlt
    exact hsame.walk hlt
  · rintro c t m physical ⟨rfl, hsame⟩ hlt hwalk
    exact ⟨rfl, hsame.store h hrng hlt hwalk⟩

/-! ### The user copies -/

/-- The copies of user memory are confined to the pages of the caller, and validation
foretells the copies that are apart from their tables. -/
theorem user_copies_confined (root address : Word) :
    (∀ (source : List Byte) (s : Physical), ∃ places : List ℕ, places.length ≤ source.length ∧
      ((copyToUser root address source s).1 = .ok () → places.length = source.length) ∧
      (copyToUser root address source s).2.written = s.written ++ places.zip source ∧
      (copyToUser root address source s).2.memory = writeAll s.memory (places.zip source) ∧
      (places ≠ [] → InRange address source.length) ∧
      (∀ i p, places[i]? = some p → p < earlyMappedPhysicalLimit ∧
        (address + BitVec.ofNat 64 i).toNat = address.toNat + i ∧
        Maps (writeAll s.memory ((places.zip source).take (reachedAt address i))) root true
          (address + BitVec.ofNat 64 i) p) ∧
      (Apart s.memory root address source.length → (copyToUser root address source s).1 =
          validateUserWriteRange root address source.length s.memory ∧
        ∀ i p, places[i]? = some p → Maps s.memory root true (address + BitVec.ofNat 64 i) p)) ∧
    ∀ (length : ℕ) (m : Memory), ∃ places : List ℕ, places.length ≤ length ∧
      ((copyFromUser root address length m).1 = .ok () → places.length = length) ∧
      (copyFromUser root address length m).2 = places.map (fun p => (p, m p)) ∧
      (places ≠ [] → InRange address length) ∧
      ∀ i p, places[i]? = some p → p < earlyMappedPhysicalLimit ∧
        (address + BitVec.ofNat 64 i).toNat = address.toNat + i ∧
        Maps m root false (address + BitVec.ofNat 64 i) p := by
  constructor
  · intro source s
    obtain ⟨places, hle, hok, hrng, hwrote⟩ := copyToUser_writes root address source s
    refine ⟨places, hle, hok, hwrote.written, hwrote.memory, hrng, fun i p hp => ?_,
      fun hapart => ⟨copyToUser_apart hapart, (hwrote.apart hapart).2⟩⟩
    obtain ⟨hlim, hmaps⟩ := hwrote.maps i p hp
    exact ⟨hlim, toNat_of_place hle hrng hp, hmaps⟩
  · intro length m
    obtain ⟨places, hle, hok, hload, hrng, hmaps⟩ := copyFromUser_reads root address length m
    refine ⟨places, hle, hok, hload, hrng, fun i p hp => ?_⟩
    obtain ⟨hlim, hmaps⟩ := hmaps i p hp
    exact ⟨hlim, toNat_of_place hle hrng hp, hmaps⟩

/-- Memory that is zero except for the given words. -/
def wordsAt (words : List (ℕ × Word)) : Memory := fun p =>
  match words.find? fun word => decide (word.1 ≤ p ∧ p < word.1 + 8) with
  | some word => (word.2 >>> (8 * (p - word.1))).setWidth 8
  | none => 0

/-- Tables whose last level is mapped, writable, into the range that it translates. -/
def selfMapped : Memory :=
  wordsAt [(0x1000, 0x2007), (0x2000, 0x3007), (0x3000, 0x4007), (0x4ff0, 0x4007), (0x4ff8, 0x5007)]

/-- Tables that map two pages elsewhere. -/
def twoPages : Memory :=
  wordsAt [(0x1000, 0x2007), (0x2000, 0x3007), (0x3000, 0x4007), (0x4ff0, 0x6007), (0x4ff8, 0x5007)]

theorem apart_twoPages : Apart twoPages 0x1000 0x1fefff 2 := by
  intro i hi j hj p hmaps
  have hlast : translateUserAddressWithAccess 0x1000 (0x1fefff + BitVec.ofNat 64 0) true
      (readActiveEntry twoPages) = .ok 0x6fff := by decide +kernel
  have hfirst : translateUserAddressWithAccess 0x1000 (0x1fefff + BitVec.ofNat 64 1) true
      (readActiveEntry twoPages) = .ok 0x5000 := by decide +kernel
  revert j
  obtain rfl | rfl : i = 0 ∨ i = 1 := by omega
  · obtain rfl := hmaps.unique (translate_ok hlast)
    decide +kernel
  · obtain rfl := hmaps.unique (translate_ok hfirst)
    decide +kernel

/-- A copy over the end of a page. -/
theorem user_copies_confined_twoPages :
    (copyToUser 0x1000 0x1fefff [7, 8] { memory := twoPages, written := [] }).1 = .ok () := by
  obtain ⟨_, _, _, _, _, _, _, hapart⟩ :=
    (user_copies_confined 0x1000 0x1fefff).1 [7, 8] { memory := twoPages, written := [] }
  rw [(hapart apart_twoPages).1]
  decide +kernel

/-- The first page of the copy takes the second one away. -/
theorem copy_unmaps_itself : validateUserWriteRange 0x1000 0x1feff8 9 selfMapped = .ok () ∧
      (copyToUser 0x1000 0x1feff8 (List.replicate 9 0) { memory := selfMapped, written := [] }).1 =
        .error .permissionDenied := by
  decide +kernel

end ArachKernel.Syscalls
