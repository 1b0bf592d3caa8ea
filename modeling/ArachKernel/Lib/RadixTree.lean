import Mathlib.Data.List.Induction
import Mathlib.Logic.Function.Basic
import Mathlib.Tactic.Common

/-!
Radix trees of tables, such as multi-level page tables. A table of type `F` has
entries of type `E`; an entry of an inner table points to a table one level down,
an entry of a table on the last level is a leaf. A layout says which table, if
any, a path of indices leads to.

`Represents` relates a memory, given by its entries, to a layout and to the leaves
it is meant to hold. The lemmas are the ways such a memory changes: linking a fresh
table, unlinking an empty one, writing a leaf. What a walk from the root finds is
then read off the layout.
-/

namespace ArachKernel.RadixTree

open Function List

variable {F E : Type}

/-- The tables of a tree, by the indices on the way to them. -/
abbrev Layout (F : Type) := List ℕ → Option F

variable {path p : List ℕ}

/-- The tables that are left when one is taken out. -/
theorem Layout.of_taken {T : Layout F} {f : F}
    (h : update T path none p = some f) : p ≠ path ∧ T p = some f := by
  have hp : p ≠ path := by
    rintro rfl
    simp [update_self] at h
  rw [update_of_ne hp] at h
  exact ⟨hp, h⟩

/-- The entry at the end of a path from a table on. -/
def walk (decode : E → Option F) (entry : F → ℕ → E) : List ℕ → F → Option E
  | [], _ => none
  | [i], f => some (entry f i)
  | i :: j :: rest, f => (decode (entry f i)).bind (walk decode entry (j :: rest))

/-- The memory holds the tables of the layout, linked as the layout says, with the
given leaves. -/
structure Represents (levels width : ℕ) (link : Option F → E) (leafAt : List ℕ → E)
    (entry : F → ℕ → E) (T : Layout F) : Prop where
  inj : ∀ {p q f}, T p = some f → T q = some f → p = q
  closed : ∀ {p i c}, T (p ++ [i]) = some c → ∃ f, T p = some f
  index_lt : ∀ {p i c}, T (p ++ [i]) = some c → i < width
  length_lt : ∀ {p f}, T p = some f → p.length < levels
  node : ∀ {p f i}, T p = some f → p.length + 1 < levels → i < width →
    entry f i = link (T (p ++ [i]))
  leaf : ∀ {p f i}, T p = some f → p.length + 1 = levels → i < width → entry f i = leafAt (p ++ [i])

namespace Represents

variable {levels width : ℕ} {link : Option F → E} {leafAt leafAt' : List ℕ → E}
  {entry entry' : F → ℕ → E} {T : Layout F}

section

variable (h : Represents levels width link leafAt entry T)
include h

/-- A path to a table leads through tables. -/
theorem prefix_some (p q : List ℕ) {c : F} (hc : T (p ++ q) = some c) : ∃ f, T p = some f := by
  induction q using reverseRecOn generalizing c with
  | nil =>
    rw [append_nil] at hc
    exact ⟨c, hc⟩
  | append_singleton q i ih =>
    rw [← append_assoc] at hc
    obtain ⟨f, hf⟩ := h.closed hc
    exact ih hf

/-- The memory may change outside the tables of the tree. -/
theorem congr (hent : ∀ {p f}, T p = some f → ∀ i, entry' f i = entry f i)
    (hleaf : ∀ p, leafAt' p = leafAt p) : Represents levels width link leafAt' entry' T where
  inj := h.inj
  closed := h.closed
  index_lt := h.index_lt
  length_lt := h.length_lt
  node := fun hp hlevel hi => (hent hp _).trans (h.node hp hlevel hi)
  leaf := fun hp hlevel hi => ((hent hp _).trans (h.leaf hp hlevel hi)).trans (hleaf _).symm

/-! ### Walks -/

variable {decode : E → Option F}

theorem walk_from (hdec : ∀ x, decode (link x) = x) (rest : List ℕ) (pre : List ℕ) (f : F)
    (hf : T pre = some f) (hlen : pre.length + rest.length = levels) (hne : rest ≠ [])
    (hlt : ∀ i ∈ rest, i < width) :
    walk decode entry rest f =
      if (T (pre ++ rest.dropLast)).isSome then some (leafAt (pre ++ rest)) else none := by
  induction rest generalizing pre f with
  | nil => exact absurd rfl hne
  | cons i rest ih =>
    have hi : i < width := hlt i mem_cons_self
    cases rest with
    | nil =>
      rw [walk, dropLast_singleton, append_nil, hf, Option.isSome_some, if_pos rfl,
        h.leaf hf hlen hi]
    | cons j rest =>
      simp only [length_cons] at hlen
      rw [walk, h.node hf (by omega) hi, hdec, dropLast_cons_cons]
      have hassoc : ∀ xs : List ℕ, pre ++ i :: xs = pre ++ [i] ++ xs := by
        intro xs
        rw [append_assoc, singleton_append]
      rw [hassoc (j :: rest), hassoc (j :: rest).dropLast]
      cases hch : T (pre ++ [i]) with
      | some c =>
        refine ih (pre ++ [i]) c hch ?_ (cons_ne_nil _ _) fun k hk => hlt k (mem_cons_of_mem _ hk)
        simp only [length_append, length_cons, length_nil]
        omega
      | none =>
        -- nothing can be below an index that leads nowhere
        have hnone : (T (pre ++ [i] ++ (j :: rest).dropLast)).isSome = false := by
          cases hbelow : T (pre ++ [i] ++ (j :: rest).dropLast) with
          | none => rfl
          | some =>
            obtain ⟨f, hf⟩ := h.prefix_some _ _ hbelow
            simp [hch] at hf
        rw [hnone]
        rfl

/-- What a walk along the whole path from the root finds. -/
theorem walk_root (hdec : ∀ x, decode (link x) = x) {root : F} (hroot : T [] = some root)
    (hlen : path.length = levels) (hne : path ≠ []) (hlt : ∀ i ∈ path, i < width) :
    walk decode entry path root =
      if (T path.dropLast).isSome then some (leafAt path) else none := by
  have hwalk := h.walk_from hdec path [] root hroot (by simpa using hlen) hne hlt
  simpa using hwalk

end

/-! ### Changes -/

variable {i : ℕ}

section

variable (h : Represents levels width link leafAt entry T)
include h

variable {q : List ℕ} {parent child : F}

/-- Linking a table that was not in the tree and whose entries are empty. -/
theorem link_child (hpar : T q = some parent) (hfree : T (q ++ [i]) = none)
    (hlevel : q.length + 1 < levels) (hi : i < width) (hfresh : ∀ p, T p ≠ some child)
    (hlink : entry' parent i = link (some child))
    (hsame : ∀ {p f}, T p = some f → ∀ j, (f = parent → j ≠ i) → entry' f j = entry f j)
    (hinner : ∀ j < width, entry' child j = link none)
    (houter : q.length + 2 = levels → ∀ j < width, entry' child j = leafAt (q ++ [i] ++ [j])) :
    Represents levels width link leafAt entry' (update T (q ++ [i]) (some child)) := by
  have hoth : ∀ {p}, p ≠ q ++ [i] → update T (q ++ [i]) (some child) p = T p :=
    fun hp => update_of_ne hp _ _
  have hself : update T (q ++ [i]) (some child) (q ++ [i]) = some child :=
    update_self ..
  -- below the new table there is nothing yet
  have hbelow : ∀ j, T (q ++ [i] ++ [j]) = none := by
    intro j
    cases hj : T (q ++ [i] ++ [j]) with
    | none => rfl
    | some =>
      obtain ⟨f, hf⟩ := h.closed hj
      simp [hfree] at hf
  have hlonger : ∀ (p : List ℕ) (j : ℕ), p ++ [j] ≠ p := by
    intro p j heq
    have := congrArg length heq
    simp at this
  refine ⟨?_, ?_, ?_, ?_, ?_, ?_⟩
  · intro p r f hp hr
    by_cases hpe : p = q ++ [i] <;> by_cases hre : r = q ++ [i]
    · rw [hpe, hre]
    · subst hpe
      rw [hself] at hp
      rw [hoth hre] at hr
      cases hp
      exact absurd hr (hfresh r)
    · subst hre
      rw [hself] at hr
      rw [hoth hpe] at hp
      cases hr
      exact absurd hp (hfresh p)
    · rw [hoth hpe] at hp
      rw [hoth hre] at hr
      exact h.inj hp hr
  · intro p j c hc
    by_cases hpe : p = q ++ [i]
    · exact ⟨child, by rw [hpe, hself]⟩
    · rw [hoth hpe]
      by_cases hje : p ++ [j] = q ++ [i]
      · obtain ⟨rfl, -⟩ := append_inj' hje rfl
        exact ⟨parent, hpar⟩
      · rw [hoth hje] at hc
        exact h.closed hc
  · intro p j c hc
    by_cases hje : p ++ [j] = q ++ [i]
    · obtain ⟨-, hj⟩ := append_inj' hje rfl
      cases hj
      exact hi
    · rw [hoth hje] at hc
      exact h.index_lt hc
  · intro p f hp
    by_cases hpe : p = q ++ [i]
    · subst hpe
      simpa using hlevel
    · rw [hoth hpe] at hp
      exact h.length_lt hp
  · intro p f j hp hp2 hj
    by_cases hpe : p = q ++ [i]
    · subst hpe
      rw [hself] at hp
      cases hp
      rw [hoth (hlonger _ _), hbelow, hinner j hj]
    · rw [hoth hpe] at hp
      by_cases hje : p ++ [j] = q ++ [i]
      · obtain ⟨rfl, hij⟩ := append_inj' hje rfl
        cases hij
        rw [hpar] at hp
        cases hp
        rw [hself, hlink]
      · rw [hoth hje, hsame hp j ?_, h.node hp hp2 hj]
        rintro rfl rfl
        exact hje (by rw [h.inj hp hpar])
  · intro p f j hp hp2 hj
    by_cases hpe : p = q ++ [i]
    · subst hpe
      rw [hself] at hp
      cases hp
      refine houter ?_ j hj
      simpa using hp2
    · rw [hoth hpe] at hp
      rw [hsame hp j ?_, h.leaf hp hp2 hj]
      rintro rfl -
      have := h.inj hp hpar
      subst this
      omega

/-- Unlinking a table with nothing below it. -/
theorem unlink_child (hpar : T q = some parent) (hch : T (q ++ [i]) = some child)
    (hemp : ∀ j, T (q ++ [i] ++ [j]) = none) (hunlink : entry' parent i = link none)
    (hsame : ∀ {p f}, T p = some f → f ≠ child → ∀ j, (f = parent → j ≠ i) →
      entry' f j = entry f j) :
    Represents levels width link leafAt entry' (update T (q ++ [i]) none) := by
  have hoth : ∀ {p}, p ≠ q ++ [i] → update T (q ++ [i]) none p = T p :=
    fun hp => update_of_ne hp _ _
  have hself : update T (q ++ [i]) none (q ++ [i]) = none := update_self ..
  have hlevel : q.length + 1 < levels := by simpa using h.length_lt hch
  refine ⟨?_, ?_, ?_, ?_, ?_, ?_⟩
  · intro p r f hp hr
    exact h.inj (Layout.of_taken hp).2 (Layout.of_taken hr).2
  · intro p j c hc
    obtain ⟨-, hc⟩ := Layout.of_taken hc
    obtain ⟨f, hf⟩ := h.closed hc
    have hpe : p ≠ q ++ [i] := by
      rintro rfl
      rw [hemp] at hc
      cases hc
    exact ⟨f, by rw [hoth hpe, hf]⟩
  · intro p j c hc
    exact h.index_lt (Layout.of_taken hc).2
  · intro p f hp
    exact h.length_lt (Layout.of_taken hp).2
  · intro p f j hpf hp2 hj
    obtain ⟨hpe, hp⟩ := Layout.of_taken hpf
    by_cases hje : p ++ [j] = q ++ [i]
    · obtain ⟨rfl, hij⟩ := append_inj' hje rfl
      cases hij
      rw [hpar] at hp
      cases hp
      rw [hself, hunlink]
    · rw [hoth hje, hsame hp ?_ j ?_, h.node hp hp2 hj]
      · rintro rfl
        exact hpe (h.inj hp hch)
      · rintro rfl rfl
        exact hje (by rw [h.inj hp hpar])
  · intro p f j hpf hp2 hj
    obtain ⟨hpe, hp⟩ := Layout.of_taken hpf
    rw [hsame hp ?_ j ?_, h.leaf hp hp2 hj]
    · rintro rfl
      exact hpe (h.inj hp hch)
    · rintro rfl -
      have := h.inj hp hpar
      subst this
      omega

/-- Writing a leaf. -/
theorem write_leaf {table : F} (htab : T p = some table) (hlevel : p.length + 1 = levels)
    {value : E} (hval : entry' table i = value)
    (hsame : ∀ {q f}, T q = some f → ∀ j, (f = table → j ≠ i) → entry' f j = entry f j)
    (hleaf : leafAt' (p ++ [i]) = value) (hrest : ∀ q, q ≠ p ++ [i] → leafAt' q = leafAt q) :
    Represents levels width link leafAt' entry' T where
  inj := h.inj
  closed := h.closed
  index_lt := h.index_lt
  length_lt := h.length_lt
  node := by
    intro q f j hq hq2 hj
    rw [hsame hq j ?_, h.node hq hq2 hj]
    rintro rfl -
    have := h.inj hq htab
    subst this
    omega
  leaf := by
    intro q f j hq hq2 hj
    by_cases hje : q ++ [j] = p ++ [i]
    · obtain ⟨rfl, hij⟩ := append_inj' hje rfl
      cases hij
      rw [htab] at hq
      cases hq
      rw [hval, hleaf]
    · rw [hrest _ hje, hsame hq j ?_, h.leaf hq hq2 hj]
      rintro rfl rfl
      exact hje (by rw [h.inj hq htab])

end

end Represents

end ArachKernel.RadixTree
