import ArachKernel.Linux.Credits

/-!
What the sections of the registry do to the identity of objects: which objects come and
which go. An object keeps its owner and kind as long as it is in the table, and its slot
never returns to an earlier generation.
-/

namespace ArachKernel.LinuxFd

open Table Registry List

/-- Kinds that have a backend to close. -/
def OpenObjectKind.hasBackend : OpenObjectKind → Bool
  | .empty | .consoleInput | .consoleOutput | .consoleError => false
  | _ => true

theorem OpenObjectKind.occupied_of_hasBackend {kind : OpenObjectKind}
    (h : kind.hasBackend) : kind.occupied := by
  cases kind <;> first | rfl | cases h

/-- How often an object is of a kind: once or not at all. -/
def OpenObject.isKind (kind : OpenObjectKind) (object : OpenObject) : ℕ :=
  if object.kind = kind then 1 else 0

/-- The number of objects of a kind. -/
def Registry.kindCount (kind : OpenObjectKind) (r : Registry) : ℕ :=
  total (OpenObject.isKind kind) r.objects

theorem Registry.setObject_kindCount {r : Registry} (kind : OpenObjectKind)
    (i : ObjectIndex) (object : OpenObject) :
    (r.setObject i object).kindCount kind + (r.objects i).isKind kind =
      r.kindCount kind + object.isKind kind :=
  total_update (OpenObject.isKind kind) r.objects i object

/-- New objects, by their owner and kind. -/
abbrev Arrivals := List (ProcessHandle × OpenObjectKind)

/-- How many of the added objects are of a kind. -/
def addedCount (kind : OpenObjectKind) (added : Arrivals) : ℕ :=
  added.countP fun object => object.2 = kind

/-- How many of the taken objects are of a kind. -/
def finalCount (kind : OpenObjectKind) (finals : List FinalObject) : ℕ :=
  finals.countP fun final => final.kind = kind

/-- An object is the same before and after; its counters may differ. -/
structure SameObject (o o' : OpenObject) : Prop where
  generation : o'.generation = o.generation
  owner : o'.owner = o.owner
  kind : o'.kind = o.kind

/-- Where the object of a key comes from: it was there, or it is new, and among those that
came if it has a backend. -/
def Origin (r : Registry) (added : Arrivals) (key : ObjectKey)
    (owner : ProcessHandle) (kind : OpenObjectKind) : Prop :=
  r.live key ∧ (r.objects key.index).owner = owner ∧ (r.objects key.index).kind = kind ∨
    (r.objects key.index).generation < key.generation ∧ (kind.hasBackend → (owner, kind) ∈ added)

/-- From `r` to `r'`, `added` came and `finals` went. -/
structure Moves (r r' : Registry) (added : Arrivals)
    (finals : List FinalObject) : Prop where
  generation_le : ∀ i, (r.objects i).generation ≤ (r'.objects i).generation
  object : ∀ key, r'.live key →
    Origin r added key (r'.objects key.index).owner (r'.objects key.index).kind
  departed : ∀ key, r.live key → r'.live key = false → ∃ final ∈ finals, final.key = key
  final : ∀ final ∈ finals, r'.live final.key = false ∧
    final.key.generation ≤ (r'.objects final.key.index).generation ∧
    Origin r added final.key final.owner final.kind
  nodup : (finals.map FinalObject.key).Nodup
  kinds : ∀ kind : OpenObjectKind, kind.hasBackend →
    r'.kindCount kind + finalCount kind finals = r.kindCount kind + addedCount kind added

variable {r r' r'' : Registry} {added added' : Arrivals}
  {finals finals' : List FinalObject}
  {i : ObjectIndex} {key : ObjectKey} {object : OpenObject}
  {owner : ProcessHandle} {kind : OpenObjectKind}

theorem Origin.append (h : Origin r added key owner kind) :
    Origin r (added ++ added') key owner kind :=
  h.imp id fun ⟨hlt, hadded⟩ => ⟨hlt, fun hback => mem_append_left _ (hadded hback)⟩

namespace Moves

/-- An object that was there before has come from there. -/
theorem origin (h : Moves r r' added finals) (ho : Origin r' added' key owner kind) :
    Origin r (added ++ added') key owner kind := by
  rcases ho with ⟨hlive, rfl, rfl⟩ | ⟨hlt, hadded⟩
  · exact (h.object key hlive).append
  · exact .inr ⟨(h.generation_le _).trans_lt hlt, fun hback => mem_append_right _ (hadded hback)⟩

/-- A key of an issued generation that is live was live before. -/
theorem live_before (h : Moves r r' added finals)
    (hiss : key.generation ≤ (r.objects key.index).generation) (hlive : r'.live key) :
    r.live key := by
  rcases h.object key hlive with ⟨hbef, -⟩ | ⟨hlt, -⟩
  · exact hbef
  · omega

theorem not_live (h : Moves r r' added finals)
    (hiss : key.generation ≤ (r.objects key.index).generation) (hkey : r.live key = false) :
    r'.live key = false := by
  rw [← Bool.not_eq_true] at hkey ⊢
  exact fun hlive => hkey (h.live_before hiss hlive)

theorem trans (h : Moves r r' added finals) (h' : Moves r' r'' added' finals') :
    Moves r r'' (added ++ added') (finals ++ finals') := by
  constructor
  · exact fun i => (h.generation_le i).trans (h'.generation_le i)
  · exact fun key hlive => h.origin (h'.object key hlive)
  · intro key hlive hdead
    cases hmiddle : r'.live key with
    | true =>
      obtain ⟨final, hmem, hkey⟩ := h'.departed key hmiddle hdead
      exact ⟨final, mem_append_right _ hmem, hkey⟩
    | false =>
      obtain ⟨final, hmem, hkey⟩ := h.departed key hlive hmiddle
      exact ⟨final, mem_append_left _ hmem, hkey⟩
  · intro final hmem
    rcases mem_append.mp hmem with hmem | hmem
    · obtain ⟨hdead, hle, horigin⟩ := h.final final hmem
      exact ⟨h'.not_live hle hdead, hle.trans (h'.generation_le _), horigin.append⟩
    · obtain ⟨hdead, hle, horigin⟩ := h'.final final hmem
      exact ⟨hdead, hle, h.origin horigin⟩
  · rw [map_append, nodup_append]
    refine ⟨h.nodup, h'.nodup, ?_⟩
    rintro key hkey key' hkey' rfl
    obtain ⟨final, hmem, rfl⟩ := mem_map.mp hkey
    obtain ⟨final', hmem', hkey'⟩ := mem_map.mp hkey'
    -- what has left the table in the first part cannot leave it again in the second
    obtain ⟨hdead, hle, -⟩ := h.final final hmem
    obtain ⟨-, -, horigin⟩ := h'.final final' hmem'
    rw [hkey'] at horigin
    rcases horigin with ⟨hlive, -, -⟩ | ⟨hlt, -⟩
    · simp [hdead] at hlive
    · omega
  · intro kind hkind
    have hfst := h.kinds kind hkind
    have hsnd := h'.kinds kind hkind
    simp only [finalCount, addedCount, countP_append] at *
    omega

/-! ### Single moves -/

/-- Nothing comes or goes. -/
theorem of_same (hall : ∀ i, SameObject (r.objects i) (r'.objects i)) : Moves r r' [] [] := by
  have hlive (key : ObjectKey) : r'.live key = r.live key := by
    simp [live, (hall key.index).kind, (hall key.index).generation]
  constructor
  · exact fun i => (hall i).generation.ge
  · intro key hkey
    exact .inl ⟨hlive key ▸ hkey, (hall _).owner.symm, (hall _).kind.symm⟩
  · intro key hkey
    simp [hlive, hkey]
  · exact forall_mem_nil _
  · exact nodup_nil
  · intro kind _
    have hkinds : r'.kindCount kind = r.kindCount kind := by
      refine total_congr (OpenObject.isKind kind) r'.objects fun i => ?_
      simp [OpenObject.isKind, (hall i).kind]
    rw [hkinds]
    rfl

theorem of_objects (h : r'.objects = r.objects) : Moves r r' [] [] :=
  .of_same fun i => by rw [h]; exact ⟨rfl, rfl, rfl⟩

theorem refl (r : Registry) : Moves r r [] [] := .of_objects rfl

theorem setObject (hsame : SameObject (r.objects i) object) :
    Moves r (r.setObject i object) [] [] :=
  .of_same (setObject_cases hsame fun _ _ => ⟨rfl, rfl, rfl⟩)

/-- An object leaves its slot, or a new one comes into it. -/
theorem replace (hgen : (r.objects i).generation ≤ object.generation)
    (hnew : object.kind.occupied → (r.objects i).generation < object.generation) :
    Moves r (r.setObject i object)
      (bif object.kind.occupied then [(object.owner, object.kind)] else [])
      (bif (r.objects i).kind.occupied then [r.finalAt i] else []) := by
  have hobjs {key : ObjectKey} (hne : key.index ≠ i) :
      (r.setObject i object).objects key.index = r.objects key.index := setObject_objects_ne hne
  have hlive {key : ObjectKey} (hne : key.index ≠ i) :
      (r.setObject i object).live key = r.live key := by simp only [live, hobjs hne]
  have hself {key : ObjectKey} (hidx : key.index = i) (hkey : (r.setObject i object).live key) :
      object.kind.occupied ∧ object.generation = key.generation := by
    simpa [live, hidx] using hkey
  constructor
  · exact setObject_cases hgen fun _ _ => le_rfl
  · intro key hkey
    by_cases hidx : key.index = i
    · obtain ⟨hocc, hkeygen⟩ := hself hidx hkey
      rw [hidx, setObject_objects_self, hocc]
      exact .inr ⟨by rw [hidx, ← hkeygen]; exact hnew hocc, fun _ => mem_singleton_self _⟩
    · rw [hlive hidx] at hkey
      rw [hobjs hidx]
      exact .inl ⟨hkey, rfl, rfl⟩
  · intro key hkey hdead
    obtain ⟨j, rfl, hocc⟩ := exists_of_live hkey
    by_cases hidx : j = i
    · subst hidx
      rw [hocc]
      exact ⟨r.finalAt j, mem_singleton_self _, rfl⟩
    · rw [hlive hidx, hkey] at hdead
      cases hdead
  · intro final hfinal
    cases hocc : (r.objects i).kind.occupied with
    | false => simp [hocc] at hfinal
    | true =>
      obtain rfl : final = r.finalAt i := by simpa [hocc] using hfinal
      refine ⟨?_, by simpa [finalAt] using hgen, .inl ⟨by simp [finalAt, hocc], rfl, rfl⟩⟩
      rw [← Bool.not_eq_true]
      intro hkey
      obtain ⟨hocc', hkeygen⟩ := hself rfl hkey
      exact (hnew hocc').ne' hkeygen
  · cases (r.objects i).kind.occupied
    · exact nodup_nil
    · exact nodup_singleton _
  · intro kind hkind
    have hcnt := setObject_kindCount (r := r) kind i object
    have hvac {o : OpenObject} (ho : o.kind.occupied = false) : o.isKind kind = 0 := by
      refine if_neg ?_
      rintro rfl
      simp [OpenObjectKind.occupied_of_hasBackend hkind] at ho
    cases hocc : (r.objects i).kind.occupied <;> cases hocc' : object.kind.occupied <;>
      simp_all [finalCount, addedCount, OpenObject.isKind, finalAt]

theorem take (hocc : (r.objects i).kind.occupied) : Moves r (r.take i) [] [r.finalAt i] := by
  have htake : Moves r (r.take i) []
      (bif (r.objects i).kind.occupied then [r.finalAt i] else []) := replace le_rfl nofun
  rwa [hocc] at htake

/-- One object changes, and is taken if nothing holds it any more. -/
theorem settle (hocc : (r.objects i).kind.occupied) (hsame : SameObject (r.objects i) object) :
    Moves r ((r.setObject i object).maybeTakeClosing i).2 []
      ((r.setObject i object).maybeTakeClosing i).1.toList := by
  have hset := setObject hsame
  simp only [maybeTakeClosing]
  split
  · exact hset.trans (take (by rw [setObject_objects_self, hsame.kind, hocc]))
  · exact hset

/-- Objects without a backend need not be told of, nor those that came and went. -/
theorem forget (h : Moves r r' added finals) (hnone : ∀ o ∈ added, o.2.hasBackend = false)
    (hfinals : ∀ final ∈ finals, (r.objects final.key.index).generation < final.key.generation) :
    Moves r r' [] [] := by
  refine ⟨h.generation_le, fun key hlive => (h.object key hlive).imp id ?_, ?_, forall_mem_nil _,
    nodup_nil, ?_⟩
  · intro ⟨hlt, hadded⟩
    refine ⟨hlt, fun hback => ?_⟩
    simpa [hback] using hnone _ (hadded hback)
  · intro key hlive hdead
    obtain ⟨final, hmem, rfl⟩ := h.departed key hlive hdead
    exact absurd (generation_of_live hlive) (hfinals final hmem).ne
  · intro kind hback
    have hadded : addedCount kind added = 0 := by
      refine countP_eq_zero.mpr fun o ho heq => ?_
      simp [← of_decide_eq_true heq, hnone o ho] at hback
    have hfinal : finalCount kind finals = 0 := by
      refine countP_eq_zero.mpr fun final hmem heq => ?_
      rw [← of_decide_eq_true heq] at hback
      rcases (h.final final hmem).2.2 with ⟨hlive, -⟩ | ⟨-, hmem'⟩
      · exact (hfinals final hmem).ne (generation_of_live hlive)
      · simp [hnone _ (hmem' hback)] at hback
    have hkinds := h.kinds kind hback
    rwa [hadded, hfinal] at hkinds

end Moves

end ArachKernel.LinuxFd
