import ArachKernel.Lib.Prog

/-!
Programs run one after the other, with the state seen after every call. `Along h I p s Q`
says that `p`, run alone from `s`, passes only through states in `I` and ends in `Q`. In a
serial run an idle machine starts a program of a given class, makes its calls one by one,
and is idle again when the program answers `true`; a program that answers `false` has
stopped the machine.

`Secures h A G p s Q` is the same for a promise about the calls themselves: as long as each
call of `p` finds what `A` assumes, each finds what `G` promises, and the end is in `Q`.
-/

namespace ArachKernel

universe u

variable {C : Type → Type u} {σ α β : Type} {h : Handler C σ} {I : σ → Prop} {s : σ}
  {Q : β → σ → Prop} {f : α → Prog C β} {c : C α}

namespace Prog

/-- Every call of the program leads to a state in `I`, and the last state is in `Q`. -/
def Along (h : Handler C σ) (I : σ → Prop) : Prog C α → σ → (α → σ → Prop) → Prop
  | done a, s, Q => Q a s
  | call c next, s, Q => I (h _ c s).2 ∧ Along h I (next (h _ c s).1) (h _ c s).2 Q

namespace Along

theorem pure {a : α} {Q : α → σ → Prop} (hQ : Q a s) : Along h I (Pure.pure a) s Q := hQ

variable {p : Prog C α}

theorem mono {Q R : α → σ → Prop} (hp : Along h I p s Q)
    (hQ : ∀ a t, Q a t → R a t) : Along h I p s R := by
  induction p generalizing s with
  | done a => exact hQ a s hp
  | call c next ih => exact ⟨hp.1, ih _ hp.2⟩

theorem bind (hp : Along h I p s fun a t => Along h I (f a) t Q) : Along h I (p >>= f) s Q := by
  induction p generalizing s with
  | done => exact hp
  | call c next ih => exact ⟨hp.1, ih _ hp.2⟩

/-- A call, and what follows. -/
theorem call_bind (hI : I (h _ c s).2)
    (hf : Along h I (f (h _ c s).1) (h _ c s).2 Q) : Along h I (.perform c >>= f) s Q :=
  ⟨hI, hf⟩

/-- A loop keeps what each turn keeps. -/
theorem each {ι : Type} {body : ι → Prog C Unit} {J : List ι → σ → Prop} {xs : List ι}
    (hbody : ∀ x rest s, J (x :: rest) s → Along h I (body x) s fun _ t => J rest t)
    (hs : J xs s) : Along h I (Prog.each body xs) s fun _ t => J [] t := by
  induction xs generalizing s with
  | nil => exact hs
  | cons x xs ih => exact bind ((hbody x xs s hs).mono fun _ _ ht => ih ht)

end Along

end Prog

/-- The program that is left, and the state, in runs of one program after the other. -/
inductive Serial (h : Handler C σ) (starts : Prog C Bool → Prop) (init : σ) : Prog C Bool → σ → Prop
  | boot : Serial h starts init (.done true) init
  | start {p : Prog C Bool} {s : σ} (hs : Serial h starts init (.done true) s) (hp : starts p) :
      Serial h starts init p s
  | call {β : Type} {c : C β} {next : β → Prog C Bool} {s : σ}
      (hs : Serial h starts init (.call c next) s) :
      Serial h starts init (next (h _ c s).1) (h _ c s).2

/-- The program that is left, and the state, after some calls of `q` from `t` on. -/
inductive Partway (h : Handler C σ) (q : Prog C Bool) (t : σ) : Prog C Bool → σ → Prop
  | start : Partway h q t q t
  | call {β : Type} {c : C β} {next : β → Prog C Bool} {s : σ}
      (hs : Partway h q t (.call c next) s) : Partway h q t (next (h _ c s).1) (h _ c s).2

variable {J : σ → Prop}

/-- What the programs establish for each other holds when the machine is idle, and what the
program under way keeps on the way holds as well. -/
theorem Serial.invariant {starts : Prog C Bool → Prop} {init : σ} {p : Prog C Bool}
    {I : Prog C Bool → σ → Prop} (hs : Serial h starts init p s) (hinit : J init)
    (hidle : ∀ q s, J s → I q s)
    (hprog : ∀ q s, starts q → J s → q.Along h (I q) s fun going t => going → J t) :
    (p = .done true ∧ J s) ∨ ∃ q t, Serial h starts init (.done true) t ∧ starts q ∧
      Partway h q t p s ∧ I q s ∧ p.Along h (I q) s fun going t => going → J t := by
  induction hs with
  | boot => exact .inl ⟨rfl, hinit⟩
  | @start p s hs hp ih =>
    have hJ : J s := by
      rcases ih with ⟨-, hJ⟩ | ⟨_, _, _, _, _, _, halong⟩
      · exact hJ
      · exact halong rfl
    exact .inr ⟨p, s, hs, hp, .start, hidle p s hJ, hprog p s hp hJ⟩
  | call _ ih =>
    rcases ih with ⟨hdone, -⟩ | ⟨q, t, ht, hq, hpart, -, halong⟩
    · cases hdone
    · exact .inr ⟨q, t, ht, hq, hpart.call, halong⟩

/-! ### Promises under assumptions -/

section Secures

variable {A G : (β : Type) → C β → σ → Prop}

namespace Prog

/-- Each call keeps the promise, and the last state is in `Q`, as far as the assumption
goes. -/
def Secures (h : Handler C σ) (A G : (β : Type) → C β → σ → Prop) :
    Prog C α → σ → (α → σ → Prop) → Prop
  | done a, s, Q => Q a s
  | call c next, s, Q => A _ c s → G _ c s ∧ Secures h A G (next (h _ c s).1) (h _ c s).2 Q

namespace Secures

variable {p : Prog C α}

theorem mono {Q R : α → σ → Prop} (hp : Secures h A G p s Q)
    (hQ : ∀ a t, Q a t → R a t) : Secures h A G p s R := by
  induction p generalizing s with
  | done a => exact hQ a s hp
  | call c next ih => exact fun hc => ⟨(hp hc).1, ih _ (hp hc).2⟩

theorem bind (hp : Secures h A G p s fun a t => Secures h A G (f a) t Q) :
    Secures h A G (p >>= f) s Q := by
  induction p generalizing s with
  | done => exact hp
  | call c next ih => exact fun hc => ⟨(hp hc).1, ih _ (hp hc).2⟩

/-- A call, and what follows. -/
theorem call_bind (hG : A _ c s → G _ c s)
    (hf : A _ c s → Secures h A G (f (h _ c s).1) (h _ c s).2 Q) :
    Secures h A G (.perform c >>= f) s Q :=
  fun hc => ⟨hG hc, hf hc⟩

/-- Programs of calls that keep an invariant. -/
theorem of_uses {P : (β : Type) → C β → Prop} (hp : p.Uses P)
    (hcall : ∀ {β : Type} {c : C β} {s : σ}, P β c → J s → A _ c s → G _ c s ∧ J (h _ c s).2)
    (hs : J s) : Secures h A G p s fun _ t => J t := by
  induction p generalizing s with
  | done => exact hs
  | call c next ih =>
    intro hc
    have hkept := hcall hp.1 hs hc
    exact ⟨hkept.1, ih _ (hp.2 _) hkept.2⟩

end Secures

end Prog

/-- The program that is left, and the state, in runs all of whose calls find what `A`
assumes. -/
inductive SerialWhen (h : Handler C σ) (A : (β : Type) → C β → σ → Prop)
    (starts : Prog C Bool → Prop) (init : σ) : Prog C Bool → σ → Prop
  | boot : SerialWhen h A starts init (.done true) init
  | start {p : Prog C Bool} {s : σ} (hs : SerialWhen h A starts init (.done true) s)
      (hp : starts p) : SerialWhen h A starts init p s
  | call {β : Type} {c : C β} {next : β → Prog C Bool} {s : σ}
      (hs : SerialWhen h A starts init (.call c next) s) (hc : A _ c s) :
      SerialWhen h A starts init (next (h _ c s).1) (h _ c s).2

/-- What the programs establish for each other secures the calls of all of them. -/
theorem SerialWhen.secures {starts : Prog C Bool → Prop} {init : σ} {p : Prog C Bool}
    (hs : SerialWhen h A starts init p s) (hinit : J init)
    (hprog : ∀ p s, starts p → J s → p.Secures h A G s fun going t => going → J t) :
    p.Secures h A G s fun going t => going → J t := by
  induction hs with
  | boot => exact fun _ => hinit
  | start _ hp ih => exact hprog _ _ hp (ih rfl)
  | call _ hc ih => exact (ih hc).2

end Secures

/-! ### Runs that are carried out -/

section Advance

variable {A : (β : Type) → C β → σ → Prop} {starts : Prog C Bool → Prop} {init : σ}

/-- Carry out the calls of the program, up to the first that does not pass the test. -/
def Prog.advance (h : Handler C σ) (test : (β : Type) → C β → σ → Bool) :
    Prog C α → σ → Prog C α × σ
  | done a, s => (done a, s)
  | call c next, s =>
    if test _ c s then advance h test (next (h _ c s).1) (h _ c s).2 else (call c next, s)

/-- Programs one after the other, each when the one before it has answered `true`. -/
def serve (h : Handler C σ) (test : (β : Type) → C β → σ → Bool) :
    List (Prog C Bool) → Prog C Bool × σ → Prog C Bool × σ
  | p :: ps, (.done true, s) => serve h test ps (p.advance h test s)
  | _, x => x

variable {test : (β : Type) → C β → σ → Bool} {p : Prog C Bool}

theorem SerialWhen.advance (htest : ∀ {β : Type} {c : C β} {s : σ}, test _ c s → A _ c s)
    (hs : SerialWhen h A starts init p s) :
    SerialWhen h A starts init (p.advance h test s).1 (p.advance h test s).2 := by
  induction p generalizing s with
  | done => exact hs
  | call c next ih =>
    rw [Prog.advance]
    split
    · next hc => exact ih _ (hs.call (htest hc))
    · exact hs

theorem SerialWhen.serve {ps : List (Prog C Bool)} {y : Prog C Bool × σ}
    (htest : ∀ {β : Type} {c : C β} {s : σ}, test _ c s → A _ c s)
    (hps : ∀ p ∈ ps, starts p) (hs : SerialWhen h A starts init p s)
    (hy : serve h test ps (p, s) = y) : SerialWhen h A starts init y.1 y.2 := by
  induction ps generalizing p s with
  | nil => exact hy ▸ hs
  | cons q ps ih =>
    cases p with
    | call => exact hy ▸ hs
    | done going =>
      cases going with
      | false => exact hy ▸ hs
      | true =>
        exact ih (fun q' hq => hps q' (List.mem_cons_of_mem q hq))
          ((hs.start (hps q (by simp))).advance htest) hy

end Advance

end ArachKernel
