import Mathlib.Tactic.Common

/-!
Computations on a state that either return a value, fail with a reported error,
or panic. A panic is an outcome of its own, so that "this program never panics"
is a statement about the program and not about how it was written down: every
access and every arithmetic operation that can go wrong has to say so.

`Safe I m Q` is the judgement used for all of them: from any state satisfying
`I`, the computation `m` does not panic, ends in a state satisfying `I`, and if it
returns a value then the value satisfies `Q`. The rules below follow the shape of
a program, so that a proof of safety reads like the program it is about.

A plain `Except` that has returned a value has passed every check on the way, and every part
of it has returned a value of its own.
-/

namespace ArachKernel.Fallible

variable {ε α β : Type} {x : Except ε α}

theorem bind_eq_ok {f : α → Except ε β} {b : β} :
    (x >>= f) = .ok b ↔ ∃ a, x = .ok a ∧ f a = .ok b := by
  cases x with
  | error =>
    refine ⟨nofun, ?_⟩
    rintro ⟨a, h, -⟩
    cases h
  | ok a =>
    refine ⟨fun h => ⟨a, rfl, h⟩, ?_⟩
    rintro ⟨a', h, hf⟩
    cases h
    exact hf

/-- A check that was passed. -/
theorem check_eq_ok {p : Prop} [Decidable p] {e : ε} {a : α} :
    (if p then .error e else x) = .ok a ↔ ¬ p ∧ x = .ok a := by
  by_cases h : p
  · rw [if_pos h]
    exact ⟨nofun, fun hx => absurd h hx.1⟩
  · rw [if_neg h]
    exact ⟨fun hx => ⟨h, hx⟩, And.right⟩

end ArachKernel.Fallible

namespace ArachKernel

/-- How a computation can end without a value. -/
inductive Fault (ε : Type)
  | error (e : ε)
  | panic
  deriving DecidableEq

/-- Computations on a state `σ` that may report an error of type `ε`. -/
def Guarded (σ ε α : Type) := σ → Except (Fault ε) α × σ

namespace Guarded

variable {σ τ ε ε' α β : Type}

instance : Monad (Guarded σ ε) where
  pure a := fun s => (.ok a, s)
  bind m f := fun s =>
    match m s with
    | (.ok a, t) => f a t
    | (.error e, t) => (.error e, t)

def fail (e : ε) : Guarded σ ε α := fun s => (.error (.error e), s)

def panic : Guarded σ ε α := fun s => (.error .panic, s)

def read (f : σ → α) : Guarded σ ε α := fun s => (.ok (f s), s)

def modify (f : σ → σ) : Guarded σ ε Unit := fun s => (.ok (), f s)

/-- Report an error if the condition holds. -/
def refuse (p : Prop) [Decidable p] (e : ε) : Guarded σ ε Unit :=
  if p then fail e else pure ()

/-- The value of an option, or an error. -/
def okOr (e : ε) : Option α → Guarded σ ε α
  | some a => pure a
  | none => fail e

/-- Run a computation on a part of the state, and report its errors as those of
another type. The part is put back however the computation ends. -/
def zoom (get : σ → τ) (put : τ → σ → σ) (rename : ε' → ε) (m : Guarded τ ε' α) : Guarded σ ε α :=
  fun s =>
    match m (get s) with
    | (.ok a, t) => (.ok a, put t s)
    | (.error (.error e), t) => (.error (.error (rename e)), put t s)
    | (.error .panic, t) => (.error .panic, put t s)

/-- Run a computation with a variable of its own, and return the variable's last
value. -/
def withLocal (init : τ) (m : Guarded (σ × τ) ε α) : Guarded σ ε τ := fun s =>
  match m (s, init) with
  | (.ok _, t) => (.ok t.2, t.1)
  | (.error e, t) => (.error e, t.1)

/-! ### Evaluation -/

theorem pure_then (a : α) (f : α → Guarded σ ε β) : (pure a >>= f) = f a := rfl

theorem okOr_some (e : ε) (a : α) : (okOr e (some a) : Guarded σ ε α) = pure a := rfl

variable {s t : σ} {a : α} {f : α → Guarded σ ε β} {p : Prop}

theorem bind_of_ok {m : Guarded σ ε α} (h : m s = (.ok a, t)) : (m >>= f) s = f a t := by
  show (match m s with
    | (.ok a, t) => f a t
    | (.error e, t) => (.error e, t)) = _
  rw [h]

theorem bind_of_error {m : Guarded σ ε α} {e : Fault ε}
    (h : m s = (.error e, t)) : (m >>= f) s = (.error e, t) := by
  show (match m s with
    | (.ok a, t) => f a t
    | (.error e, t) => (.error e, t)) = _
  rw [h]

theorem panic_then (f : α → Guarded σ ε β) : (panic >>= f) = panic := rfl

theorem refuse_of_not [Decidable p] {e : ε} (h : ¬ p) : (refuse p e : Guarded σ ε Unit) = pure () :=
  if_neg h

theorem refuse_of [Decidable p] {e : ε} (h : p) : (refuse p e : Guarded σ ε Unit) = fail e :=
  if_pos h

variable {m : Guarded τ ε' α} {put : τ → σ → σ} {rename : ε' → ε} {get : σ → τ}

theorem zoom_of_ok {t : τ} (h : m (get s) = (.ok a, t)) :
    zoom get put rename m s = (.ok a, put t s) := by
  rw [zoom, h]

theorem zoom_of_error {t : τ} {e : ε'} (h : m (get s) = (.error (.error e), t)) :
    zoom get put rename m s = (.error (.error (rename e)), put t s) := by
  rw [zoom, h]

theorem read_then (f : σ → α) (g : α → Guarded σ ε β) (s : σ) : (read f >>= g) s = g (f s) s :=
  rfl

theorem modify_then (f : σ → σ) (g : Unit → Guarded σ ε β) (s : σ) :
    (modify f >>= g) s = g () (f s) :=
  rfl

/-- A computation on a part of the state returns what it returns there. -/
theorem ok_of_zoom (h : zoom get put rename m s = (.ok a, t)) : ∃ u, m (get s) = (.ok a, u) := by
  rw [zoom] at h
  split at h
  next u hrun =>
    cases h
    exact ⟨u, hrun⟩
  · cases h
  · cases h

variable {init : τ}

theorem withLocal_of_ok {final : τ} {m : Guarded (σ × τ) ε α}
    (h : m (s, init) = (.ok a, (t, final))) : withLocal init m s = (.ok final, t) := by
  rw [withLocal, h]

theorem withLocal_of_error {final : τ} {m : Guarded (σ × τ) ε α} {e : Fault ε}
    (h : m (s, init) = (.error e, (t, final))) : withLocal init m s = (.error e, t) := by
  rw [withLocal, h]

/-! ### Safety -/

/-- From a state satisfying `I` the computation does not panic, keeps `I`, and
returns only values satisfying `Q`. -/
def Safe (I : σ → Prop) (m : Guarded σ ε α) (Q : α → Prop) : Prop :=
  ∀ s, I s → I (m s).2 ∧ (m s).1 ≠ .error .panic ∧ ∀ a, (m s).1 = .ok a → Q a

variable {x : Option α}

namespace Safe

variable {I : σ → Prop} {P Q : α → Prop} {e : ε}

theorem pure (h : Q a) : Safe I (pure a : Guarded σ ε α) Q := by
  intro s hs
  refine ⟨hs, nofun, ?_⟩
  intro b hb
  cases hb
  exact h

theorem fail : Safe I (fail e : Guarded σ ε α) Q := by
  intro s hs
  refine ⟨hs, ?_, ?_⟩
  · intro h
    cases h
  · intro a ha
    cases ha

theorem mono {m : Guarded σ ε α} (hm : Safe I m P) (h : ∀ a, P a → Q a) : Safe I m Q :=
  fun s hs => ⟨(hm s hs).1, (hm s hs).2.1, fun a ha => h a ((hm s hs).2.2 a ha)⟩

theorem trivial {m : Guarded σ ε α} (hm : Safe I m P) : Safe I m fun _ => True :=
  hm.mono fun _ _ => True.intro

/-- The rule of sequential composition, for a run that starts in a given state. -/
theorem bind_at {R : β → Prop} {m : Guarded σ ε α} (hm : Safe I m P)
    (hs : I s) (hf : ∀ a t, m s = (.ok a, t) → P a → Safe I (f a) R) :
    I ((m >>= f) s).2 ∧ ((m >>= f) s).1 ≠ .error .panic ∧ ∀ b, ((m >>= f) s).1 = .ok b → R b := by
  obtain ⟨hI, hpanic, hP⟩ := hm s hs
  cases hrun : m s with
  | mk result t =>
    rw [hrun] at hI hpanic hP
    cases result with
    | ok a =>
      rw [bind_of_ok hrun]
      exact hf a t hrun (hP a rfl) t hI
    | error =>
      rw [bind_of_error hrun]
      refine ⟨hI, ?_, ?_⟩
      · intro h
        cases h
        exact hpanic rfl
      · intro b hb
        cases hb

theorem bind {R : β → Prop} {m : Guarded σ ε α} (hm : Safe I m P)
    (hf : ∀ a, P a → Safe I (f a) R) : Safe I (m >>= f) R :=
  fun _ hs => hm.bind_at hs fun a _ _ ha => hf a ha

theorem read {f : σ → α} (h : ∀ s, I s → Q (f s)) : Safe I (read f : Guarded σ ε α) Q := by
  intro s hs
  refine ⟨hs, nofun, ?_⟩
  intro a ha
  cases ha
  exact h s hs

theorem modify {f : σ → σ} (h : ∀ s, I s → I (f s)) :
    Safe I (modify f : Guarded σ ε Unit) fun _ => True :=
  fun s hs => ⟨h s hs, nofun, fun _ _ => True.intro⟩

theorem ite [Decidable p] {m n : Guarded σ ε α} (hm : p → Safe I m Q)
    (hn : ¬ p → Safe I n Q) : Safe I (if p then m else n) Q := by
  split
  next h => exact hm h
  next h => exact hn h

theorem refuse [Decidable p] : Safe I (refuse p e : Guarded σ ε Unit) fun _ => ¬ p :=
  ite (fun _ => fail) fun h => pure h

variable {R : β → Prop}

theorem refuse_then [Decidable p] {g : Unit → Guarded σ ε β}
    (h : ¬ p → Safe I (g ()) R) : Safe I (Guarded.refuse p e >>= g) R :=
  refuse.bind fun _ => h

/-- A computation that returns one value only. -/
theorem value_then {m : Guarded σ ε α} (hm : Safe I m (· = a))
    (h : Safe I (f a) R) : Safe I (m >>= f) R := by
  refine hm.bind ?_
  rintro _ rfl
  exact h

theorem okOr (h : ∀ a, x = some a → Q a) : Safe I (okOr e x : Guarded σ ε α) Q := by
  cases x with
  | none => exact fail
  | some a => exact pure (h a rfl)

theorem zoom {J : τ → Prop} (hm : Safe J m Q) (hget : ∀ s, I s → J (get s))
    (hput : ∀ s t, I s → J t → I (put t s)) : Safe I (zoom get put rename m) Q := by
  intro s hs
  obtain ⟨hJ, hpanic, hQ⟩ := hm (get s) (hget s hs)
  rw [Guarded.zoom]
  split
  next a t hrun =>
    rw [hrun] at hJ hQ
    refine ⟨hput s t hs hJ, nofun, ?_⟩
    intro b hb
    cases hb
    exact hQ a rfl
  next t hrun =>
    rw [hrun] at hJ
    refine ⟨hput s t hs hJ, ?_, ?_⟩
    · intro h
      cases h
    · intro b hb
      cases hb
  next hrun =>
    rw [hrun] at hpanic
    exact absurd rfl hpanic

theorem withLocal {J : σ × τ → Prop} {m : Guarded (σ × τ) ε α}
    {R : τ → Prop} (hm : Safe J m Q) (hinit : ∀ s, I s → J (s, init))
    (hlast : ∀ s v, J (s, v) → I s ∧ R v) : Safe I (withLocal init m) R := by
  intro s hs
  obtain ⟨hJ, hpanic, -⟩ := hm (s, init) (hinit s hs)
  rw [Guarded.withLocal]
  split
  next t hrun =>
    rw [hrun] at hJ
    refine ⟨(hlast t.1 t.2 hJ).1, nofun, ?_⟩
    intro v hv
    cases hv
    exact (hlast t.1 t.2 hJ).2
  next t hrun =>
    rw [hrun] at hJ hpanic
    refine ⟨(hlast t.1 t.2 hJ).1, ?_, ?_⟩
    · intro h
      cases h
      exact hpanic rfl
    · intro v hv
      cases hv

end Safe

/-! ### Pre- and postconditions -/

/-- From a state satisfying `P` the computation returns a value with `Q`, or reports an
error with `E`; it does not panic. -/
def Triple (P : σ → Prop) (m : Guarded σ ε α) (Q : α → σ → Prop) (E : ε → σ → Prop) : Prop :=
  ∀ s, P s → match m s with
    | (.ok a, t) => Q a t
    | (.error (.error e), t) => E e t
    | (.error .panic, _) => False

namespace Triple

variable {P P' : σ → Prop} {Q Q' : α → σ → Prop} {E : ε → σ → Prop}

theorem pure (h : ∀ s, P s → Q a s) : Triple P (pure a : Guarded σ ε α) Q E := h

variable {e : ε}

theorem fail (h : ∀ s, P s → E e s) : Triple P (fail e : Guarded σ ε α) Q E := h

variable {m : Guarded σ ε α} {R : α → σ → Prop}

theorem bind {Q : β → σ → Prop}
    (hm : Triple P m R E) (hf : ∀ a, Triple (R a) (f a) Q E) : Triple P (m >>= f) Q E := by
  intro s hs
  have hrun := hm s hs
  cases hrun' : m s with
  | mk result t =>
    rw [hrun'] at hrun
    cases result with
    | ok a =>
      rw [bind_of_ok hrun']
      exact hf a t hrun
    | error e =>
      rw [bind_of_error hrun']
      cases e with
      | error | panic => exact hrun

theorem mono (hm : Triple P m Q E) (hP : ∀ s, P' s → P s)
    (hQ : ∀ a s, Q a s → Q' a s) : Triple P' m Q' E := by
  intro s hs
  have hrun := hm s (hP s hs)
  cases hrun' : m s with
  | mk result t =>
    rw [hrun'] at hrun
    match result, hrun with
    | .ok a, hrun => exact hQ a t hrun
    | .error (.error e), hrun => exact hrun
    | .error .panic, hrun => exact hrun

/-- A computation that reports no errors meets any condition on them. -/
theorem errors {E' : ε → σ → Prop} (hm : Triple P m Q E)
    (hE : ∀ e s, E e s → E' e s) : Triple P m Q E' := by
  intro s hs
  have hrun := hm s hs
  cases hrun' : m s with
  | mk result t =>
    rw [hrun'] at hrun
    match result, hrun with
    | .ok a, hrun => exact hrun
    | .error (.error e), hrun => exact hE e t hrun
    | .error .panic, hrun => exact hrun

theorem weaken (hm : Triple P m Q fun _ _ => False) (E : ε → σ → Prop) : Triple P m Q E :=
  hm.errors fun _ _ h => h.elim

theorem pre (h : ∀ s, P s → Triple (· = s) m Q E) : Triple P m Q E :=
  fun s hs => h s hs s rfl

variable {p : Prop}

theorem ite [Decidable p] {m' : Guarded σ ε α} (hm : p → Triple P m Q E)
    (hn : ¬ p → Triple P m' Q E) : Triple P (if p then m else m') Q E := by
  split
  next h => exact hm h
  next h => exact hn h

theorem refuse [Decidable p] (h : p → ∀ s, P s → E e s) :
    Triple P (refuse p e) (fun _ s => P s ∧ ¬ p) E :=
  ite (fun hp => fail (h hp)) fun hp => pure fun _ hs => ⟨hs, hp⟩

/-! What a triple says about a run. -/

variable {s : σ}

theorem final {R : σ → Prop} (hm : Triple (· = s) m Q E)
    (hQ : ∀ a t, Q a t → R t) (hE : ∀ e t, E e t → R t) : R (m s).2 := by
  have hrun := hm s rfl
  cases hrun' : m s with
  | mk result t =>
    rw [hrun'] at hrun
    match result, hrun with
    | .ok a, hrun => exact hQ a t hrun
    | .error (.error e), hrun => exact hE e t hrun
    | .error .panic, hrun => exact hrun.elim

theorem error_of {fault : Fault ε} {R : σ → Prop}
    (hm : Triple (· = s) m Q fun _ => R) (hrun : m s = (.error fault, t)) : R t := by
  have hpost := hm s rfl
  rw [hrun] at hpost
  cases fault with
  | error => exact hpost
  | panic => exact hpost.elim

/-! Rules for a given start state, which run a program forwards. -/

variable {g : α → Guarded σ ε β}

theorem read_then {f : σ → α} {Q : β → σ → Prop}
    (h : Triple (· = s) (g (f s)) Q E) : Triple (· = s) (Guarded.read f >>= g) Q E := by
  rintro _ rfl
  exact h _ rfl

theorem modify_then {f : σ → σ} {g : Unit → Guarded σ ε β} {Q : β → σ → Prop}
    (h : Triple (· = f s) (g ()) Q E) : Triple (· = s) (Guarded.modify f >>= g) Q E := by
  rintro _ rfl
  exact h _ rfl

theorem refuse_then [Decidable p] {g : Unit → Guarded σ ε β} {Q : β → σ → Prop} (herr : p → E e s)
    (h : ¬ p → Triple (· = s) (g ()) Q E) : Triple (· = s) (Guarded.refuse p e >>= g) Q E := by
  rintro _ rfl
  by_cases hp : p
  · rw [refuse_of hp]
    exact herr hp
  · rw [refuse_of_not hp]
    exact h hp _ rfl

theorem okOr_then {Q : β → σ → Prop}
    (herr : E e s) (h : ∀ a, x = some a → Triple (· = s) (g a) Q E) :
    Triple (· = s) (Guarded.okOr e x >>= g) Q E := by
  rintro _ rfl
  cases x with
  | none => exact herr
  | some a => exact h a rfl _ rfl

theorem call_then {Q : β → σ → Prop} (hm : Triple P m R E)
    (h : ∀ a t, R a t → Triple (· = t) (g a) Q E) : Triple P (m >>= g) Q E :=
  bind hm fun a => pre (h a)

end Triple

/-! ### Results -/

/-- Whatever the computation returns satisfies `Q`; it may also fail or panic. -/
def Returns (m : Guarded σ ε α) (Q : α → Prop) : Prop := ∀ s a, (m s).1 = .ok a → Q a

namespace Returns

variable {m : Guarded σ ε α} {P Q : α → Prop} {R : β → Prop}

theorem pure (h : Q a) : Returns (pure a : Guarded σ ε α) Q :=
  fun _ _ ha => Except.ok.inj ha ▸ h

theorem bind (hm : Returns m P) (hf : ∀ a, P a → Returns (f a) R) : Returns (m >>= f) R := by
  intro s b hb
  rcases hrun : m s with ⟨_ | a, t⟩
  · simp [bind_of_error hrun] at hb
  · rw [bind_of_ok hrun] at hb
    exact hf a (hm s a (by rw [hrun])) t b hb

theorem next (hf : ∀ a, Returns (f a) R) : Returns (m >>= f) R :=
  bind (P := fun _ => True) (fun _ _ _ => trivial) fun a _ => hf a

theorem refuse [Decidable p] {e : ε} : Returns (refuse p e : Guarded σ ε Unit) fun _ => ¬p := by
  intro s _ h hp
  rw [refuse_of hp] at h
  cases h

end Returns

end Guarded

end ArachKernel
