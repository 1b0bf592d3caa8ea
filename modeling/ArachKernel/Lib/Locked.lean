import Mathlib.Tactic.Common

/-!
Fallible sections over a state. A section reads and writes the state under one lock
and may stop with an error; what it wrote before stays written. `Spec x s Q` says that
the section `x`, started in `s`, ends with an outcome and a state in `Q`. There is one
rule for each way to begin a section, so a proof follows the text of the section.
-/

namespace ArachKernel

/-- Sections over `σ` that can fail with `ε`. -/
abbrev Locked (ε σ : Type) := ExceptT ε (StateM σ)

namespace Locked

variable {ε σ α β : Type}

/-- The outcome of a section, and the state it leaves. -/
def exec (x : Locked ε σ α) (s : σ) : Except ε α × σ := x.run.run s

/-- Stop with the error of a failed computation. -/
def check (r : Except ε α) : Locked ε σ α :=
  match r with
  | .ok a => pure a
  | .error e => throw e

/-- Stop with `e` unless the condition holds. -/
def ensure (condition : Bool) (e : ε) : Locked ε σ Unit := if condition then pure () else throw e

/-- Stop with `e` when there is nothing. -/
def expect (a : Option α) (e : ε) : Locked ε σ α :=
  match a with
  | some a => pure a
  | none => throw e

/-! ### Executing a section -/

@[simp] theorem exec_pure (a : α) (s : σ) : exec (pure a : Locked ε σ α) s = (.ok a, s) := (rfl)

@[simp] theorem exec_get (f : σ → Locked ε σ β) (s : σ) :
    exec (MonadState.get >>= f) s = exec (f s) s := (rfl)

@[simp] theorem exec_modify (g : σ → σ) (s : σ) :
    exec (modify g : Locked ε σ PUnit) s = (.ok ⟨⟩, g s) := (rfl)

@[simp] theorem exec_modify_bind (g : σ → σ) (f : PUnit → Locked ε σ β) (s : σ) :
    exec (modify g >>= f) s = exec (f ⟨⟩) (g s) := (rfl)

@[simp] theorem exec_check_ok (a : α) (f : α → Locked ε σ β) (s : σ) :
    exec (check (.ok a) >>= f) s = exec (f a) s := (rfl)

@[simp] theorem exec_ensure_true (e : ε) (f : Unit → Locked ε σ β) (s : σ) :
    exec (ensure true e >>= f) s = exec (f ()) s := (rfl)

@[simp] theorem exec_expect_some (a : α) (e : ε) (f : α → Locked ε σ β) (s : σ) :
    exec (expect (some a) e >>= f) s = exec (f a) s := (rfl)

/-! ### What a section ends in -/

/-- Started in `s`, the section ends in `Q`. -/
def Spec (x : Locked ε σ α) (s : σ) (Q : Except ε α → σ → Prop) : Prop :=
  Q (exec x s).1 (exec x s).2

namespace Spec

variable {s : σ} {Q : Except ε β → σ → Prop}

theorem pure {b : β} (h : Q (.ok b) s) : Spec (Pure.pure b : Locked ε σ β) s Q := h

theorem mono {x : Locked ε σ β} {R : Except ε β → σ → Prop} (h : Spec x s R)
    (hR : ∀ r t, R r t → Q r t) : Spec x s Q :=
  hR _ _ h

variable {f : α → Locked ε σ β} {g : σ → σ}

/-- A section that calls another. -/
theorem bind {x : Locked ε σ α} (hx : Spec x s fun r t =>
    (∀ e, r = .error e → Q (.error e) t) ∧ ∀ a, r = .ok a → Spec (f a) t Q) :
    Spec (x >>= f) s Q := by
  change Q (exec (x >>= f) s).1 (exec (x >>= f) s).2
  have heq : exec (x >>= f) s = match exec x s with
      | (.ok a, t) => exec (f a) t
      | (.error e, t) => (.error e, t) := by
    simp only [exec, ExceptT.run_bind, StateT.run_bind]
    rcases StateT.run (ExceptT.run x) s with ⟨_ | _, _⟩ <;> rfl
  rw [heq]
  unfold Spec at hx
  rcases h : exec x s with ⟨e | a, t⟩
  · rw [h] at hx
    exact hx.1 e rfl
  · rw [h] at hx
    exact hx.2 a rfl

theorem get {f : σ → Locked ε σ β} (h : Spec (f s) s Q) : Spec (MonadState.get >>= f) s Q := h

theorem write {f : PUnit → Locked ε σ β} (h : Spec (f ⟨⟩) (g s) Q) : Spec (modify g >>= f) s Q := h

theorem wrote {Q : Except ε PUnit → σ → Prop} (h : Q (.ok ⟨⟩) (g s)) :
    Spec (modify g : Locked ε σ PUnit) s Q := h

theorem check {r : Except ε α} (herr : ∀ e, r = .error e → Q (.error e) s)
    (hok : ∀ a, r = .ok a → Spec (f a) s Q) : Spec (Locked.check r >>= f) s Q := by
  cases r with
  | ok a => exact hok a rfl
  | error e => exact herr e rfl

theorem ensure {condition : Bool} {e : ε} {f : Unit → Locked ε σ β} (herr : Q (.error e) s)
    (hok : condition → Spec (f ()) s Q) : Spec (Locked.ensure condition e >>= f) s Q := by
  cases condition with
  | true => exact hok rfl
  | false => exact herr

theorem expect {a : Option α} {e : ε} (herr : Q (.error e) s)
    (hok : ∀ b, a = some b → Spec (f b) s Q) : Spec (Locked.expect a e >>= f) s Q := by
  cases a with
  | some b => exact hok b rfl
  | none => exact herr

end Spec

end Locked

end ArachKernel
