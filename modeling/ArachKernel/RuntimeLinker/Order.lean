import Mathlib.Data.List.Sublists
import Mathlib.Data.List.TakeWhile
import Mathlib.Data.Fintype.Order
import Mathlib.Logic.Relation

/-!
The order in which the runtime linker (`runtime_linker.c`) relocates, initializes and finalizes
the objects it has loaded. `placed` is the membership in the order built so far. Of an object
only its dependencies and its initializers and finalizers are used here; `executable` is the
test of an address against the object's mappings, none of which is at address zero.
-/

namespace ArachKernel.RuntimeLinker

open Relation List Function

def maximumLoadedObjects : ℕ := 8
def maximumInitializers : ℕ := 16

structure LoadedObject where
  dependencies : List ℕ
  initFunction : Option ℕ
  initArray : List ℕ
  finiFunction : Option ℕ
  finiArray : List ℕ
  executable : ℕ → Bool
  unmapped : executable 0 = false

abbrev ObjectGraph := List LoadedObject

namespace ObjectGraph

variable (g : ObjectGraph)

variable (order : List ℕ)

def ready (object : LoadedObject) : Bool :=
  object.dependencies.all fun provider => provider < g.length ∧ provider ∈ order

def place (index : ℕ) : List ℕ :=
  if index ∉ order ∧ g[index]?.any (ready g order) then order ++ [index] else order

/-- One round of the outer loop. -/
def pass : List ℕ := (range g.length).foldl (place g) order

theorem ready_mono {order order' : List ℕ} (h : order <+: order') {object : Option LoadedObject}
    (hready : object.any (ready g order)) : object.any (ready g order') := by
  cases object with
  | none => exact hready
  | some =>
    simp only [Option.any_some, ready, all_eq_true, decide_eq_true_eq] at hready ⊢
    exact fun provider hp => ⟨(hready provider hp).1, h.subset (hready provider hp).2⟩

/-- Placing only adds to an order, and an object that is ready gets its place. -/
theorem foldl_place (indices order : List ℕ) :
    order <+: indices.foldl (place g) order ∧ ∀ i ∈ indices, g[i]?.any (ready g order) →
      i ∈ indices.foldl (place g) order := by
  induction indices generalizing order with
  | nil => exact ⟨prefix_rfl, nofun⟩
  | cons index rest ih =>
    have hplace : order <+: place g order index := by
      unfold place
      split
      · exact prefix_append _ _
      · exact prefix_rfl
    obtain ⟨hgrows, hmem⟩ := ih (place g order index)
    refine ⟨hplace.trans hgrows, forall_mem_cons.2 ⟨fun hready => ?_, fun i hi hready => ?_⟩⟩
    · by_cases hin : index ∈ order
      · exact (hplace.trans hgrows).subset hin
      · refine hgrows.subset ?_
        rw [place, if_pos ⟨hin, hready⟩]
        exact mem_append_right _ mem_cons_self
    · exact hmem i hi (ready_mono g hplace hready)

def relocate (order : List ℕ) : Option (List ℕ) :=
  if order.length < g.length then
    if (pass g order).length = order.length then none else relocate (pass g order)
  else some order
termination_by g.length - order.length
decreasing_by
  have hle := (foldl_place g (range g.length) order).1.length_le
  unfold pass at *
  omega

def computeRelocationOrder : Option (List ℕ) := relocate g []

/-- What is called for an object, with the object, before its dependents. -/
def initializers (index : ℕ) : List (ℕ × ℕ) :=
  (g[index]?.toList.flatMap fun object => object.initFunction.toList ++ object.initArray).map
    (index, ·)

def mayCall (call : ℕ × ℕ) : Bool := g[call.1]?.any (·.executable call.2)

/-- The calls made, up to the first that is refused, and whether there was none. -/
def runInitializers : List (ℕ × ℕ) × Bool :=
  let planned := (order.takeWhile (· < g.length)).flatMap (initializers g)
  (planned.takeWhile (mayCall g), order.all (· < g.length) && planned.all (mayCall g))

end ObjectGraph

structure FinalizerObject where
  finiFunction : ℕ
  finiArray : List ℕ

/-- What an object finalizes with, in the order it was initialized. -/
def FinalizerObject.calls (object : FinalizerObject) : List ℕ :=
  (if object.finiFunction ≠ 0 then [object.finiFunction] else []) ++ object.finiArray

structure FinalizationPlan where
  objects : List FinalizerObject
  expectedCalls : ℕ
  armed : Bool

def LoadedObject.finalizer (object : LoadedObject) : Option FinalizerObject :=
  if object.finiFunction.all object.executable ∧ object.finiArray.length ≤ maximumInitializers ∧
      object.finiArray.all object.executable then
    some ⟨object.finiFunction.getD 0, object.finiArray⟩
  else none

namespace ObjectGraph

variable (g : ObjectGraph)

def finalizers (index : ℕ) : List ℕ :=
  g[index]?.toList.flatMap fun object => object.finiFunction.toList ++ object.finiArray

def prepareFinalizationPlan (order : List ℕ) : Option FinalizationPlan :=
  if maximumLoadedObjects < order.length then none
  else (order.mapM fun index => g[index]?.bind LoadedObject.finalizer).map fun objects =>
    ⟨objects, (order.flatMap (finalizers g)).length, true⟩

end ObjectGraph

/-- The calls made, whether all went well, and the plan, which runs once. -/
def runFinalizers (plan : FinalizationPlan) : List ℕ × Bool × FinalizationPlan :=
  if !plan.armed ∨ maximumLoadedObjects < plan.objects.length then ([], false, plan)
  else
    let sound := plan.objects.reverse.takeWhile (·.finiArray.length ≤ maximumInitializers)
    let calls := sound.flatMap fun object =>
      object.finiArray.reverse ++ if object.finiFunction ≠ 0 then [object.finiFunction] else []
    (calls, sound.length = plan.objects.length ∧ calls.length = plan.expectedCalls,
      { plan with armed := false })

/-! ### The order -/

namespace ObjectGraph

variable {g : ObjectGraph} {order : List ℕ} {i j : ℕ}

def Depends (g : ObjectGraph) (i j : ℕ) : Prop :=
  ∃ object, g[i]? = some object ∧ j ∈ object.dependencies

/-- Dependencies are among the loaded objects. -/
def Loaded (g : ObjectGraph) : Prop := ∀ i j, Depends g i j → j < g.length

def Acyclic (g : ObjectGraph) : Prop := ∀ i, ¬ TransGen (Depends g) i i

theorem Depends.lt (h : Depends g i j) : i < g.length := by
  obtain ⟨object, hobj, -⟩ := h
  exact (List.getElem?_eq_some_iff.1 hobj).1

theorem any_ready (hg : Loaded g) (hi : i < g.length) :
    g[i]?.any (ready g order) ↔ ∀ j, Depends g i j → j ∈ order := by
  simp only [Depends, getElem?_eq_getElem hi, Option.any_some, ready, all_eq_true,
    decide_eq_true_eq, Option.some.injEq, exists_eq_left']
  exact forall₂_congr fun j hj =>
    and_iff_right (hg i j ⟨g[i], getElem?_eq_getElem hi, hj⟩)

/-- A part of an order: its dependencies come first. -/
structure Placed (g : ObjectGraph) (order : List ℕ) : Prop where
  nodup : order.Nodup
  bounded : ∀ i ∈ order, i < g.length
  first : ∀ i ∈ order, ∀ j, Depends g i j → order.idxOf j < order.idxOf i

theorem Placed.place (h : Placed g order) (hg : Loaded g) (hi : i < g.length) :
    Placed g (place g order i) := by
  unfold ObjectGraph.place
  split
  next hplace =>
    obtain ⟨hnot, hready⟩ := hplace
    have hdeps := (any_ready hg hi).1 hready
    have hbef {k : ℕ} (hk : k ∈ order) : (order ++ [i]).idxOf k = order.idxOf k :=
      idxOf_append_of_mem hk
    refine ⟨?_, ?_, ?_⟩
    · refine nodup_append.2 ⟨h.nodup, nodup_singleton _, ?_⟩
      rintro k hk l hl rfl
      exact hnot (mem_singleton.1 hl ▸ hk)
    · simpa [or_imp, forall_and, hi] using h.bounded
    · intro k hk j hj
      rcases mem_append.1 hk with hk | hk
      · have hlt := h.first k hk j hj
        have hmem : j ∈ order := idxOf_lt_length_iff.1 (hlt.trans_le idxOf_le_length)
        rwa [hbef hk, hbef hmem]
      · obtain rfl := mem_singleton.1 hk
        rw [hbef (hdeps j hj), idxOf_append_of_notMem hnot]
        exact (idxOf_lt_length_iff.2 (hdeps j hj)).trans_le (Nat.le_add_right _ _)
  · exact h

theorem Placed.pass (h : Placed g order) (hg : Loaded g) : Placed g (pass g order) := by
  have hindices : ∀ i ∈ range g.length, i < g.length := fun i => mem_range.1
  unfold ObjectGraph.pass
  generalize range g.length = indices at hindices
  induction indices generalizing order with
  | nil => exact h
  | cons index rest ih =>
    obtain ⟨hidx, hrest⟩ := forall_mem_cons.1 hindices
    exact ih (h.place hg hidx) hrest

/-- An order with as many objects as the graph lists each of them once. -/
theorem Placed.perm (h : Placed g order) (hlen : g.length ≤ order.length) :
    order ~ range g.length := by
  have hsub : order ⊆ range g.length := fun i hi => mem_range.2 (h.bounded i hi)
  exact (subperm_of_subset h.nodup hsub).perm_of_length_le (by rwa [length_range])

/-- When a round places nothing and there is no cycle, every object is already placed: by
induction along the dependencies. -/
theorem length_le_of_stuck (hg : Loaded g) (hacyc : Acyclic g)
    (hstuck : (ObjectGraph.pass g order).length = order.length) : g.length ≤ order.length := by
  obtain ⟨hgrows, hplaced⟩ := foldl_place g (range g.length) order
  have hsame : order = (range g.length).foldl (ObjectGraph.place g) order :=
    hgrows.eq_of_length hstuck.symm
  rw [← hsame] at hplaced
  let below : Fin g.length → Fin g.length → Prop := fun j i => TransGen (Depends g) i j
  have : Std.Irrefl below := ⟨fun i => hacyc i⟩
  have hall (i : Fin g.length) : i.val ∈ order := by
    induction i using (Finite.wellFounded_of_trans_of_irrefl below).induction with
    | _ i ih =>
      refine hplaced i (mem_range.2 i.isLt) ((any_ready hg i.isLt).2 fun j hj => ?_)
      exact ih ⟨j, hg i j hj⟩ (.single hj)
  have hsub : range g.length ⊆ order := fun i hi => hall ⟨i, mem_range.1 hi⟩
  simpa using (subperm_of_subset nodup_range hsub).length_le

theorem relocate_placed (hg : Loaded g) (h : Placed g order) :
    (Acyclic g → (relocate g order).isSome) ∧
      ∀ result, relocate g order = some result → Placed g result ∧ g.length ≤ result.length := by
  fun_induction relocate g order with
  | case1 order hlt hstuck =>
    refine ⟨fun hacyc => ?_, nofun⟩
    exact absurd (length_le_of_stuck hg hacyc hstuck) (Nat.not_le.2 hlt)
  | case2 order hlt hmore ih => exact ih (h.pass hg)
  | case3 order hfull =>
    exact ⟨fun _ => rfl, fun result hret => Option.some.inj hret ▸ ⟨h, Nat.not_lt.1 hfull⟩⟩

theorem Placed.acyclic (h : Placed g order) (hperm : order ~ range g.length) : Acyclic g := by
  have hstep {i j : ℕ} (hij : Depends g i j) : order.idxOf j < order.idxOf i :=
    h.first i (hperm.mem_iff.2 (mem_range.2 hij.lt)) j hij
  intro i hcycle
  have hpath : ∀ j, TransGen (Depends g) i j → order.idxOf j < order.idxOf i := fun j hj => by
    induction hj with
    | single hij => exact hstep hij
    | tail _ hjk ih => exact (hstep hjk).trans ih
  exact (hpath i hcycle).false

/-! ### Initializers and finalizers -/

theorem Placed.pairwise (h : Placed g order) : order.Pairwise fun i j => ¬ Depends g i j := by
  refine pairwise_iff_getElem.2 fun a b ha hb hab hdepends => ?_
  have hlt := h.first _ (getElem_mem ha) _ hdepends
  rw [h.nodup.idxOf_getElem, h.nodup.idxOf_getElem] at hlt
  exact hab.asymm hlt

theorem fst_of_mem_initializers {call : ℕ × ℕ} (h : call ∈ initializers g i) : call.1 = i := by
  obtain ⟨address, -, rfl⟩ := mem_map.1 h
  rfl

theorem Placed.takeWhile_eq (h : Placed g order) : order.takeWhile (· < g.length) = order :=
  takeWhile_eq_self_iff.2 fun i hi => decide_eq_true (h.bounded i hi)

/-- All goes well exactly if each initializer may be called, and then each is. -/
theorem Placed.runInitializers (h : Placed g order) :
    ((runInitializers g order).2 ↔ ∀ c ∈ order.flatMap (initializers g), mayCall g c) ∧
      ((runInitializers g order).2 →
        (runInitializers g order).1 = order.flatMap (initializers g)) := by
  have hall : order.all (· < g.length) :=
    all_eq_true.2 fun i hi => decide_eq_true (h.bounded i hi)
  simp only [ObjectGraph.runInitializers, h.takeWhile_eq, hall, Bool.true_and, all_eq_true]
  exact ⟨trivial, takeWhile_eq_self_iff.2⟩

theorem initializers_first (hg : Loaded g) (h : Placed g order) (hperm : order ~ range g.length)
    {before after : List (ℕ × ℕ)} {call : ℕ × ℕ}
    (hcalls : (runInitializers g order).1 = before ++ call :: after) (hj : Depends g call.1 j) :
    (∀ c ∈ initializers g j, c ∈ before) ∧ ∀ c ∈ after, c.1 ≠ j := by
  have hacyc := h.acyclic hperm
  have hpairwise : (order.flatMap (initializers g)).Pairwise fun c d => ¬ Depends g c.1 d.1 := by
    refine pairwise_flatMap.2 ⟨fun i _ => pairwise_of_forall_mem_list fun c hc d hd => ?_,
      h.pairwise.imp fun hab c hc d hd => ?_⟩
    · rw [fst_of_mem_initializers hc, fst_of_mem_initializers hd]
      exact fun hi => hacyc i (.single hi)
    · rwa [fst_of_mem_initializers hc, fst_of_mem_initializers hd]
  obtain ⟨rest, hrest⟩ : (runInitializers g order).1 <+: order.flatMap (initializers g) := by
    simpa only [runInitializers, h.takeWhile_eq] using takeWhile_prefix _
  rw [hcalls, append_assoc, cons_append] at hrest
  rw [← hrest, pairwise_append, pairwise_cons] at hpairwise
  have hlater : ∀ c ∈ after ++ rest, c.1 ≠ j := fun c hc hcj => hpairwise.2.1.1 c hc (hcj ▸ hj)
  refine ⟨fun c hc => ?_, fun c hc => hlater c (mem_append_left _ hc)⟩
  have hmem : c ∈ before ++ call :: (after ++ rest) := by
    rw [hrest]
    exact mem_flatMap_of_mem (hperm.mem_iff.2 (mem_range.2 (hg _ _ hj))) hc
  rcases mem_append.1 hmem with hbef | hrest
  · exact hbef
  · rcases mem_cons.1 hrest with rfl | hafter
    · exact absurd (.single (fst_of_mem_initializers hc ▸ hj)) (hacyc c.1)
    · exact absurd (fst_of_mem_initializers hc) (hlater c hafter)

theorem finalizer_eq_some {object : LoadedObject} {finalizer : FinalizerObject}
    (h : object.finalizer = some finalizer) :
    finalizer.finiArray.length ≤ maximumInitializers ∧
      finalizer.calls = object.finiFunction.toList ++ object.finiArray := by
  unfold LoadedObject.finalizer at h
  split at h
  next hsound =>
    obtain ⟨hfunction, hcnt, -⟩ := hsound
    obtain rfl := Option.some.inj h
    refine ⟨hcnt, ?_⟩
    cases hfini : object.finiFunction with
    | none => rfl
    | some address =>
      have haddr : address ≠ 0 := by
        rintro rfl
        simp [hfini, Option.all_some, object.unmapped] at hfunction
      simp [FinalizerObject.calls, haddr]
  · cases h

theorem finalizers_of_mapM {objects : List FinalizerObject}
    (h : (order.mapM fun index => g[index]?.bind LoadedObject.finalizer) = some objects) :
    (∀ object ∈ objects, object.finiArray.length ≤ maximumInitializers) ∧
      objects.length = order.length ∧
      objects.flatMap FinalizerObject.calls = order.flatMap (finalizers g) := by
  induction order generalizing objects with
  | nil =>
    obtain rfl := Option.some.inj h
    exact ⟨nofun, rfl, rfl⟩
  | cons index rest ih =>
    simp only [mapM_cons, Option.bind_eq_bind, Option.bind_eq_some_iff] at h
    obtain ⟨finalizer, ⟨object, hobj, hfinalizer⟩, finalizers, hrest, hobjs⟩ := h
    obtain rfl := Option.some.inj hobjs
    obtain ⟨hbd, hlen, hcalls⟩ := ih hrest
    obtain ⟨hcnt, hcall⟩ := finalizer_eq_some hfinalizer
    refine ⟨forall_mem_cons.2 ⟨hcnt, hbd⟩, congrArg (· + 1) hlen, ?_⟩
    rw [flatMap_cons, flatMap_cons, hcalls, hcall, ObjectGraph.finalizers, hobj]
    simp

/-- A prepared plan calls what its objects finalize with, in the reverse of their order. -/
theorem runFinalizers_prepared {plan : FinalizationPlan}
    (h : prepareFinalizationPlan g order = some plan) :
    runFinalizers plan =
      ((order.flatMap (finalizers g)).reverse, true, { plan with armed := false }) := by
  unfold prepareFinalizationPlan at h
  split at h
  · cases h
  next hcnt =>
    obtain ⟨objects, hobjs, rfl⟩ := Option.map_eq_some_iff.1 h
    obtain ⟨hbd, hlen, hcalls⟩ := finalizers_of_mapM hobjs
    have hsound : objects.reverse.takeWhile (·.finiArray.length ≤ maximumInitializers) =
        objects.reverse :=
      takeWhile_eq_self_iff.2 fun object hobj =>
        decide_eq_true (hbd object (mem_reverse.1 hobj))
    have hrev : (objects.reverse.flatMap fun object => object.finiArray.reverse ++
        if object.finiFunction ≠ 0 then [object.finiFunction] else []) =
          (order.flatMap (finalizers g)).reverse := by
      rw [← hcalls, reverse_flatMap]
      congr 1
      funext object
      simp only [FinalizerObject.calls, comp_apply, reverse_append]
      split <;> rfl
    simp only [runFinalizers, hsound, hrev, length_reverse, hlen, hcnt]
    simp

/-- Relocation ends, and succeeds exactly when no objects depend on each other in a cycle. The
order it finds has every object once, dependencies first; no initializer runs before those of
the object's dependencies, each is called once, in that order, unless one may not be called, and
the finalizers run in the reverse of the order. -/
theorem computeRelocationOrder_topological (hg : Loaded g) :
    ((computeRelocationOrder g).isSome ↔ Acyclic g) ∧
      ∀ order, computeRelocationOrder g = some order → order ~ range g.length ∧
        (∀ i j, Depends g i j → order.idxOf j < order.idxOf i) ∧
        (∀ before call after, (runInitializers g order).1 = before ++ call :: after →
          ∀ j, Depends g call.1 j → (∀ c ∈ initializers g j, c ∈ before) ∧ ∀ c ∈ after, c.1 ≠ j) ∧
        ((runInitializers g order).2 ↔ ∀ c ∈ order.flatMap (initializers g), mayCall g c) ∧
        ((runInitializers g order).2 →
          (runInitializers g order).1 = order.flatMap (initializers g)) ∧
        ∀ plan, prepareFinalizationPlan g order = some plan → runFinalizers plan =
          ((order.flatMap (finalizers g)).reverse, true, { plan with armed := false }) := by
  have hemp : Placed g [] := ⟨nodup_nil, nofun, nofun⟩
  obtain ⟨hcomplete, hsound⟩ := relocate_placed hg hemp
  refine ⟨⟨fun hsome => ?_, hcomplete⟩, fun order horder => ?_⟩
  · obtain ⟨order, horder⟩ := Option.isSome_iff_exists.1 hsome
    obtain ⟨hplaced, hlen⟩ := hsound order horder
    exact hplaced.acyclic (hplaced.perm hlen)
  · obtain ⟨hplaced, hlen⟩ := hsound order horder
    have hperm := hplaced.perm hlen
    refine ⟨hperm, fun i j hij => ?_, ?_, hplaced.runInitializers.1, hplaced.runInitializers.2,
      fun plan => runFinalizers_prepared⟩
    · exact hplaced.first i (hperm.mem_iff.2 (mem_range.2 hij.lt)) j hij
    · exact fun before call after hcalls j => initializers_first hg hplaced hperm hcalls

/-- The graph of the probe: the first object needs the next two, and both of these the last. -/
def probeGraph : ObjectGraph :=
  [[1, 2], [3], [3], []].map fun dependencies =>
    ⟨dependencies, some 8, [16], some 24, [32], fun address => address ≠ 0, rfl⟩

theorem probeGraph_order :
    computeRelocationOrder probeGraph = some [3, 1, 2, 0] ∧ Acyclic probeGraph ∧
      (runInitializers probeGraph [3, 1, 2, 0]).1 =
        [(3, 8), (3, 16), (1, 8), (1, 16), (2, 8), (2, 16), (0, 8), (0, 16)] := by
  have hg : Loaded probeGraph := by
    rintro i j ⟨object, hobj, hj⟩
    have hall : ∀ object ∈ probeGraph, ∀ j ∈ object.dependencies, j < probeGraph.length := by
      decide
    exact hall object (mem_of_getElem? hobj) j hj
  have horder : computeRelocationOrder probeGraph = some [3, 1, 2, 0] := by
    simp [computeRelocationOrder, relocate, show pass probeGraph [] = [3] from rfl,
      show pass probeGraph [3] = [3, 1, 2] from rfl,
      show pass probeGraph [3, 1, 2] = [3, 1, 2, 0] from rfl,
      show length probeGraph = 4 from rfl]
  obtain ⟨hacyc, hruns⟩ := computeRelocationOrder_topological hg
  obtain ⟨_, _, _, hmay, hcalls, _⟩ := hruns _ horder
  exact ⟨horder, hacyc.1 (horder ▸ rfl), hcalls (hmay.2 (by decide))⟩

end ObjectGraph

end ArachKernel.RuntimeLinker
