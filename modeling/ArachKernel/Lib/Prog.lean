import Mathlib.Tactic.Common

/-!
Programs over an alphabet of atomic calls. A call type `C` assigns to each call
the type of its answer; a handler executes one call on a state. A program is a
tree of calls, each followed by a continuation on the answer, so the same program
can be run alone or with its calls interleaved with those of other programs.
-/

namespace ArachKernel

universe u

/-- How the calls of an alphabet act on a state. -/
abbrev Handler (C : Type → Type u) (σ : Type) := (β : Type) → C β → σ → β × σ

/-- Programs whose only effects are calls of `C`. -/
inductive Prog (C : Type → Type u) (α : Type) : Type (max 1 u)
  | done (a : α) : Prog C α
  | call {β : Type} (c : C β) (next : β → Prog C α) : Prog C α

namespace Prog

variable {C : Type → Type u} {σ α β : Type}

def bind : Prog C α → (α → Prog C β) → Prog C β
  | done a, f => f a
  | call c next, f => call c fun answer => (next answer).bind f

instance : Monad (Prog C) where
  pure := done
  bind := bind

/-- The program of one call. -/
def perform (c : C β) : Prog C β := call c done

/-- Run a program for each element of a list, in order. -/
def each {ι : Type} (body : ι → Prog C Unit) : List ι → Prog C Unit
  | [] => pure ()
  | x :: xs => do
    body x
    each body xs

/-- Run a program to its end, with nothing in between its calls. -/
def run (h : Handler C σ) : Prog C α → σ → α × σ
  | done a, s => (a, s)
  | call c next, s => run h (next (h _ c s).1) (h _ c s).2

variable {h : Handler C σ}

@[simp] theorem run_perform (c : C β) (s : σ) : run h (perform c) s = h _ c s := rfl

@[simp] theorem run_bind (p : Prog C α) (f : α → Prog C β) (s : σ) :
    run h (p >>= f) s = run h (f (run h p s).1) (run h p s).2 := by
  induction p generalizing s with
  | done => rfl
  | call c next ih => exact ih _ _

/-! ### Relations kept by every call -/

/-- Every call the program can make is in the class `P`. -/
def Uses (P : (β : Type) → C β → Prop) : Prog C α → Prop
  | done _ => True
  | call c next => P _ c ∧ ∀ answer, Uses P (next answer)

section Uses

variable {P : (β : Type) → C β → Prop}

@[simp] theorem uses_pure (a : α) : Uses P (pure a) := trivial

@[simp] theorem uses_perform {c : C β} : Uses P (perform c) ↔ P β c := by
  simp [perform, Uses]

theorem Uses.bind {p : Prog C α} {f : α → Prog C β} (hp : Uses P p) (hf : ∀ a, Uses P (f a)) :
    Uses P (p >>= f) := by
  induction p with
  | done a => exact hf a
  | call c next ih => exact ⟨hp.1, fun answer => ih answer (hp.2 answer)⟩

theorem Uses.each {ι : Type} {body : ι → Prog C Unit} (hbody : ∀ x, Uses P (body x))
    (xs : List ι) : Uses P (Prog.each body xs) := by
  induction xs with
  | nil => exact uses_pure ()
  | cons x xs ih => exact (hbody x).bind fun _ => ih

end Uses

/-! ### Properties kept by whole programs -/

/-- Run to its end, the program keeps `P`. -/
def Keeps (h : Handler C σ) (P : σ → Prop) (p : Prog C α) : Prop := ∀ s, P s → P (p.run h s).2

namespace Keeps

variable {P : σ → Prop}

theorem pure {a : α} : Keeps h P (Pure.pure a) := fun _ hs => hs

theorem bind {p : Prog C α} {f : α → Prog C β} (hp : Keeps h P p) (hf : ∀ a, Keeps h P (f a)) :
    Keeps h P (p >>= f) := by
  intro s hs
  rw [run_bind]
  exact hf _ _ (hp s hs)

theorem except {ε : Type} {p : Prog C (Except ε α)} {f : Except ε α → Prog C β}
    (hp : Keeps h P p) (herror : ∀ e, Keeps h P (f (.error e)))
    (hok : ∀ a, Keeps h P (f (.ok a))) : Keeps h P (p >>= f) := by
  refine hp.bind fun answer => ?_
  cases answer with
  | error e => exact herror e
  | ok a => exact hok a

theorem each {ι : Type} {body : ι → Prog C Unit} (hbody : ∀ x, Keeps h P (body x))
    (xs : List ι) : Keeps h P (Prog.each body xs) := by
  induction xs with
  | nil => exact pure
  | cons x xs ih => exact (hbody x).bind fun _ => ih

end Keeps

end Prog

/-- The states reached by complete calls from the initial ones. -/
inductive Reachable {C : Type → Type u} {σ : Type} (h : Handler C σ) (init : σ) : σ → Prop
  | start : Reachable h init init
  | step {β : Type} {s : σ} (c : C β) (hs : Reachable h init s) : Reachable h init (h β c s).2

/-- A property of the initial state that every call keeps holds in every reached
state. -/
theorem Reachable.invariant {C : Type → Type u} {σ : Type} {h : Handler C σ} {init s : σ}
    (hs : Reachable h init s) {P : σ → Prop} (hinit : P init)
    (hcall : ∀ {β : Type} (c : C β) (s : σ), P s → P (h β c s).2) : P s := by
  induction hs with
  | start => exact hinit
  | step c _ ih => exact hcall c _ ih

/-- A whole program is a sequence of complete calls. -/
theorem Reachable.run {C : Type → Type u} {σ α : Type} {h : Handler C σ} {init s : σ}
    (hs : Reachable h init s) (p : Prog C α) : Reachable h init (p.run h s).2 := by
  induction p generalizing s with
  | done => exact hs
  | call c next ih => exact ih _ (hs.step c)

end ArachKernel
