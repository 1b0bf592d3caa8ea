import ArachKernel.Vfs.TreeSteps

/-!
`rename` moves a subtree. The node in the way is removed first, if nothing is below it and
nobody has it open; then the paths of all nodes at and below the old path get the new path
in its place. The tree stays a tree because the new path is not below the old one, its parent
is a directory that does not move, and no node that stays has one of the new paths.
-/

namespace ArachKernel.AkashicVfs

open Table List

variable {nodeCount handleCount : ℕ} {v : AkashicVfs nodeCount handleCount}
  {old new path : List UInt8} {source : Fin nodeCount}

/-- At the old path or below it. -/
def Within (old path : List UInt8) : Prop :=
  ∃ suffix, path = old ++ suffix ∧ (suffix = [] ∨ ∃ rest, suffix = slash :: rest)

theorem within_iff : Within old path ↔ path = old ∨ Below old path := by
  constructor
  · rintro ⟨suffix, rfl, rfl | ⟨rest, rfl⟩⟩
    · exact .inl (append_nil old)
    · exact .inr ⟨rest, rfl⟩
  · rintro (rfl | ⟨rest, rfl⟩)
    · exact ⟨[], (append_nil _).symm, .inl rfl⟩
    · exact ⟨slash :: rest, rfl, .inr ⟨rest, rfl⟩⟩

theorem moves_iff (hold : old ≠ rootPath) {node : Node} :
    moves old node ↔ node.used ∧ Within old node.path := by
  rw [moves, Bool.and_eq_true, Bool.or_eq_true, beq_iff_eq, isDescendant_iff hold, within_iff]

theorem Within.below (h : Within old path) {path' : List UInt8} (hbelow : Below path path') :
    Below old path' := by
  rcases within_iff.mp h with rfl | h
  · exact hbelow
  · exact h.trans hbelow

/-- Nothing at or below a path other than the root is the root. -/
theorem Within.ne_rootPath (h : Within old path) (hold : Valid old) (hroot : old ≠ rootPath) :
    path ≠ rootPath := by
  rcases within_iff.mp h with rfl | ⟨rest, rfl⟩
  · exact hroot
  · exact below_ne_rootPath hold.ne_nil

theorem renamedPath_within (h : Within old path) {candidate : List UInt8}
    (hok : renamedPath old new path = .ok candidate) :
    candidate = new ++ path.drop old.length ∧ candidate.length ≤ maximumPathBytes := by
  obtain ⟨suffix, rfl, _⟩ := h
  have hstart : old.isPrefixOf (old ++ suffix) := by simp
  rw [renamedPath, strip, if_pos hstart] at hok
  dsimp only at hok
  split at hok
  · cases hok
  · cases hok
    exact ⟨rfl, by rw [length_append]; omega⟩

def movedNode (old new : List UInt8) (now : ℕ) (node : Node) : Node :=
  { node with path := new ++ node.path.drop old.length, modifiedTicks := now }

/-- All nodes at and below the old path have moved. -/
def movedAll (old new : List UInt8) (now : ℕ) (v : AkashicVfs nodeCount handleCount) :
    AkashicVfs nodeCount handleCount :=
  { v with nodes := fun i =>
      if moves old (v.nodes i) then movedNode old new now (v.nodes i) else v.nodes i }

/-! ### The moved tree -/

section Moved

variable (hvalid : Valid old) (hroot : old ≠ rootPath)

include hvalid hroot

omit hvalid in
theorem movedAll_of_moves (new : List UInt8) (now : ℕ) {i : Fin nodeCount}
    (hi : moves old (v.nodes i)) :
    ∃ suffix, (v.nodes i).path = old ++ suffix ∧ (suffix = [] ∨ ∃ rest, suffix = slash :: rest) ∧
      ((v.movedAll old new now).nodes i).path = new ++ suffix ∧
      ((v.movedAll old new now).nodes i).kind = (v.nodes i).kind := by
  obtain ⟨_, suffix, hpath, hsuf⟩ := (moves_iff hroot).mp hi
  refine ⟨suffix, hpath, hsuf, ?_, ?_⟩
  · simp [movedAll, hi, movedNode, hpath]
  · simp [movedAll, hi, movedNode]

variable {now : ℕ}

omit hvalid hroot in
theorem movedAll_of_stays {i : Fin nodeCount} (hi : moves old (v.nodes i) = false) :
    (v.movedAll old new now).nodes i = v.nodes i := by
  simp [movedAll, hi]

omit hvalid hroot in
@[simp] theorem movedAll_used (i : Fin nodeCount) :
    ((v.movedAll old new now).nodes i).used = (v.nodes i).used := by
  simp only [movedAll]
  split
  · rfl
  · rfl

omit hvalid in
theorem HasDirectory.stays (h : HasDirectory path v) (hpath : ¬Within old path) :
    HasDirectory path (v.movedAll old new now) := by
  obtain ⟨i, hused, rfl, hkind⟩ := h
  have hstays : moves old (v.nodes i) = false :=
    Bool.eq_false_iff.mpr fun hmoves => hpath ((moves_iff hroot).mp hmoves).2
  exact ⟨i, by rw [movedAll_used, hused], by rw [movedAll_of_stays hstays],
    by rw [movedAll_of_stays hstays, hkind]⟩

/-- What the checks of `rename` make sure of. -/
structure Movable (old new : List UInt8) (v : AkashicVfs nodeCount handleCount) : Prop where
  valid : Valid new
  not_root : new ≠ rootPath
  not_below : ¬Within old new
  parent : ∃ parent, parentPath new = some parent ∧ HasDirectory parent v
  fits : ∀ i, moves old (v.nodes i) →
    (new ++ (v.nodes i).path.drop old.length).length ≤ maximumPathBytes
  clear : ∀ i j, moves old (v.nodes i) → (v.nodes j).used → moves old (v.nodes j) = false →
    (v.nodes j).path ≠ new ++ (v.nodes i).path.drop old.length

theorem Tree.movedAll (h : Tree v) (hmovable : Movable old new v) (now : ℕ) :
    Tree (v.movedAll old new now) := by
  have hstay : ∀ {j}, moves old (v.nodes j) ≠ true → (v.movedAll old new now).nodes j = v.nodes j :=
    fun hj => movedAll_of_stays (Bool.eq_false_iff.mpr hj)
  refine ⟨h.initialized, ?_, fun i hi => ?_, fun i j hi hj hpath => ?_, fun i hi hi' => ?_,
    fun i => ?_, fun k hk => ?_, h.tokens, h.unique⟩
  · exact h.root.stays hroot fun hwithin => hwithin.ne_rootPath hvalid hroot rfl
  · rw [movedAll_used] at hi
    by_cases hmoves : moves old (v.nodes i)
    · obtain ⟨suffix, hpath, hsuf, hnew, _⟩ := movedAll_of_moves hroot new now hmoves
      have hfits := hmovable.fits i hmoves
      rw [hpath, drop_left] at hfits
      rw [hnew]
      rcases hsuf with rfl | ⟨rest, rfl⟩
      · rw [append_nil]
        exact hmovable.valid
      · have hbef := h.valid i hi
        rw [hpath] at hbef
        exact hbef.moved hvalid hmovable.valid hmovable.not_root hfits
    · rw [hstay hmoves]
      exact h.valid i hi
  · rw [movedAll_used] at hi hj
    by_cases hmoves : moves old (v.nodes i)
    · obtain ⟨suffix, hold, _, hnew, _⟩ := movedAll_of_moves hroot new now hmoves
      rw [hnew] at hpath
      by_cases hmoves' : moves old (v.nodes j)
      · obtain ⟨suffix', hold', _, hnew', _⟩ := movedAll_of_moves hroot new now hmoves'
        rw [hnew'] at hpath
        apply h.distinct i j hi hj
        rw [hold, hold', append_cancel_left hpath]
      · rw [hstay hmoves'] at hpath
        refine absurd ?_ (hmovable.clear i j hmoves hj (Bool.eq_false_iff.mpr hmoves'))
        rw [hold, drop_left]
        exact hpath.symm
    · rw [hstay hmoves] at hpath
      by_cases hmoves' : moves old (v.nodes j)
      · obtain ⟨suffix', hold', _, hnew', _⟩ := movedAll_of_moves hroot new now hmoves'
        rw [hnew'] at hpath
        refine absurd ?_ (hmovable.clear j i hmoves' hi (Bool.eq_false_iff.mpr hmoves))
        rw [hold', drop_left]
        exact hpath
      · rw [hstay hmoves'] at hpath
        exact h.distinct i j hi hj hpath
  · rw [movedAll_used] at hi
    by_cases hmoves : moves old (v.nodes i)
    · obtain ⟨suffix, hold, hsuf, hnew, _⟩ := movedAll_of_moves hroot new now hmoves
      rw [hnew]
      rcases hsuf with rfl | ⟨rest, rfl⟩
      · -- the new path itself: its parent does not move
        rw [append_nil]
        obtain ⟨parent, hpar, hdir⟩ := hmovable.parent
        refine ⟨parent, hpar, hdir.stays hroot fun hwithin => hmovable.not_below ?_⟩
        have hparentRoot := hwithin.ne_rootPath hvalid hroot
        exact within_iff.mpr
          (.inr (hwithin.below (below_of_parentPath hmovable.valid hpar hparentRoot)))
      · -- below the new path: the parent has moved along
        have hbelow : Below old (v.nodes i).path := ⟨rest, hold⟩
        obtain ⟨front, name, hsplit, hname, hfront, hpar⟩ := parentPath_moved hvalid.ne_nil hbelow
        have hnotRoot : (v.nodes i).path ≠ rootPath := by
          rw [hold]
          exact below_ne_rootPath hvalid.ne_nil
        obtain ⟨path, hpath, k, hk, hkpath, hkind⟩ := h.parent i hi hnotRoot
        obtain rfl := Option.some.inj (hpath.symm.trans hpar)
        have hkmoves : moves old (v.nodes k) := (moves_iff hroot).mpr ⟨hk, front, hkpath, hfront⟩
        obtain ⟨suffix, hkold, _, hknew, hkkind⟩ := movedAll_of_moves hroot new now hkmoves
        obtain rfl : front = suffix := append_cancel_left (hkpath.symm.trans hkold)
        have htail : slash :: rest = front ++ slash :: name := by
          rw [hold, append_assoc] at hsplit
          exact append_cancel_left hsplit
        have hne : new ++ front ≠ [] := append_ne_nil_of_left_ne_nil hmovable.valid.ne_nil front
        refine ⟨new ++ front, ?_, k, by rw [movedAll_used, hk], hknew, hkkind.trans hkind⟩
        rw [htail, ← append_assoc, parentPath_append hname (below_ne_rootPath hne), if_neg hne]
    · rw [hstay hmoves] at hi' ⊢
      obtain ⟨parent, hpar, hdir⟩ := h.parent i hi hi'
      refine ⟨parent, hpar, hdir.stays hroot fun hwithin => hmoves ?_⟩
      have hbelow := below_of_parentPath (h.valid i hi) hpar (hwithin.ne_rootPath hvalid hroot)
      exact (moves_iff hroot).mpr ⟨hi, within_iff.mpr (.inr (hwithin.below hbelow))⟩
  · have hcnt : ((v.movedAll old new now).nodes i).openCount = (v.nodes i).openCount := by
      simp only [AkashicVfs.movedAll]
      split
      · rfl
      · rfl
    exact hcnt.trans (h.counts i)
  · rw [movedAll_used]
    exact h.attached k hk

end Moved

/-! ### The loops -/

theorem forM_ok {α : Type} {f : α → Except VfsError Unit} {items : List α}
    (h : items.forM f = .ok ()) : ∀ item ∈ items, f item = .ok () := by
  induction items with
  | nil => exact fun _ hmem => absurd hmem not_mem_nil
  | cons item items ih =>
    change (f item >>= fun _ => items.forM f) = .ok () at h
    cases hitem : f item with
    | error =>
      rw [hitem] at h
      cases h
    | ok =>
      rw [hitem] at h
      intro other hoth
      rcases mem_cons.mp hoth with rfl | hoth
      · exact hitem
      · exact ih h other hoth

/-- The second loop moves the nodes of its list one by one. -/
theorem renameLoop_eq {now : ℕ} {indices : List (Fin nodeCount)} (hnd : indices.Nodup)
    (hfits : ∀ i ∈ indices, moves old (v.nodes i) →
      renamedPath old new (v.nodes i).path = .ok (new ++ (v.nodes i).path.drop old.length)) :
    renameLoop old new now indices v = (.ok (), { v with
      nodes := fun j =>
        if j ∈ indices ∧ moves old (v.nodes j) = true then movedNode old new now (v.nodes j)
        else v.nodes j }) := by
  induction indices generalizing v with
  | nil => simp [renameLoop]
  | cons i indices ih =>
    obtain ⟨hnotin, hnd⟩ := nodup_cons.mp hnd
    rw [renameLoop]
    by_cases hmoves : moves old (v.nodes i)
    · rw [hmoves, hfits i mem_cons_self hmoves]
      have hoth :
          ∀ j ∈ indices, (v.setNode i (movedNode old new now (v.nodes i))).nodes j = v.nodes j := by
        intro j hj
        have hne : j ≠ i := fun heq => hnotin (heq ▸ hj)
        simp [hne]
      refine (ih (v := v.setNode i (movedNode old new now (v.nodes i))) hnd fun j hj => ?_).trans ?_
      · rw [hoth j hj]
        exact hfits j (mem_cons_of_mem _ hj)
      · congr 2
        funext j
        by_cases hj : j = i
        · subst hj
          simp [hnotin, hmoves]
        · simp [hj]
    · rw [Bool.eq_false_iff.mpr hmoves, Bool.not_false, if_pos rfl,
        ih hnd fun j hj => hfits j (mem_cons_of_mem _ hj)]
      congr 2
      funext j
      by_cases hj : j = i
      · subst hj
        simp [hmoves]
      · simp [hj]

/-! ### The whole operation -/

theorem validateRename_ok (h : validateRename old new = .ok ()) :
    Valid old ∧ Valid new ∧ old ≠ rootPath ∧ new ≠ rootPath := by
  cases hold : validatePath old with
  | error => simp [validateRename, hold, bind, Except.bind] at h
  | ok =>
    cases hnew : validatePath new with
    | error => simp [validateRename, hold, hnew, bind, Except.bind] at h
    | ok =>
      simp only [validateRename, hold, hnew, bind, Except.bind] at h
      split at h
      · cases h
      next hroots =>
        rw [not_or] at hroots
        exact ⟨validatePath_eq_ok.mp hold, validatePath_eq_ok.mp hnew, hroots.1, hroots.2⟩

/-- The node that is replaced can be removed. -/
theorem Tree.replaced (h : Tree v) {kind : NodeKind} {target : Fin nodeCount}
    (hroot : new ≠ rootPath) (hfound : v.findNode new = some target)
    (hok : v.checkReplaced kind new (some target) = .ok ()) : Tree (v.setNode target .empty) := by
  obtain ⟨hused, rfl⟩ := findNode_some hfound
  unfold checkReplaced at hok
  dsimp only at hok
  split at hok
  · cases hok
  next hcnt =>
  split at hok
  · split at hok
    · cases hok
    · cases hok
  split at hok
  · cases hok
  next hemp =>
  refine h.remove (not_not.mp hcnt) hused hroot fun j hj hbelow => ?_
  by_cases hkind : (v.nodes target).kind = .directory
  · rw [not_and] at hemp
    have hdesc := (isDescendant_iff hroot).mpr hbelow
    obtain ⟨k, hk⟩ := position_isSome (p := fun j => (v.nodes j).used &&
      isDescendant (v.nodes target).path (v.nodes j).path) (i := j)
        (by rw [hj, hdesc, Bool.true_and])
    exact hemp hkind (by rw [hk, Option.isSome_some])
  · exact h.file_leaf hused hkind j hj hbelow

/-- A path that is not below a directory it comes from is not below a file either. -/
theorem Tree.not_within (h : Tree v) (hsrc : v.findNode old = some source)
    (hvalid : Valid old) (hroot : old ≠ rootPath) (hne : old ≠ new)
    (hpar : ∃ parent, parentPath new = some parent ∧ HasDirectory parent v)
    (hdesc : ¬((v.nodes source).kind = .directory ∧ isDescendant old new)) : ¬Within old new := by
  intro hwithin
  have hbelow := (within_iff.mp hwithin).resolve_left hne.symm
  have hkind : (v.nodes source).kind ≠ .directory := fun hkind =>
    hdesc ⟨hkind, (isDescendant_iff hroot).mpr hbelow⟩
  obtain ⟨hused, rfl⟩ := findNode_some hsrc
  obtain ⟨front, name, _, _, hfront, hpar'⟩ := parentPath_moved hvalid.ne_nil hbelow
  obtain ⟨parent, hpar, k, hk, hkpath, hkdirectory⟩ := hpar
  obtain rfl := Option.some.inj (hpar.symm.trans hpar')
  rcases hfront with rfl | ⟨rest, rfl⟩
  · rw [append_nil] at hkpath
    exact hkind (h.distinct k source hk hused hkpath ▸ hkdirectory)
  · exact h.file_leaf hused hkind k hk ⟨rest, hkpath⟩

theorem checkMoved_ok {target : Option (Fin nodeCount)} {i : Fin nodeCount} (hroot : old ≠ rootPath)
    (hok : v.checkMoved old new target i = .ok ()) (hmoves : moves old (v.nodes i)) :
    renamedPath old new (v.nodes i).path = .ok (new ++ (v.nodes i).path.drop old.length) ∧
      (new ++ (v.nodes i).path.drop old.length).length ≤ maximumPathBytes ∧
      ∀ j, some j ≠ target → (v.nodes j).used → moves old (v.nodes j) = false →
        (v.nodes j).path ≠ new ++ (v.nodes i).path.drop old.length := by
  unfold checkMoved at hok
  rw [hmoves, Bool.not_true, if_neg Bool.false_ne_true] at hok
  split at hok
  · cases hok
  next hcand =>
  obtain ⟨rfl, hlen⟩ := renamedPath_within ((moves_iff hroot).mp hmoves).2 hcand
  split at hok
  · cases hok
  next hnone =>
  refine ⟨hcand, hlen, fun j hj hused hstays hpath => hnone ?_⟩
  have hne : j ≠ i := by
    rintro rfl
    exact Bool.noConfusion (hstays.symm.trans hmoves)
  obtain ⟨k, hk⟩ := position_isSome (p := fun other => decide (other ≠ i) && some other != target &&
    (v.nodes other).used && !moves old (v.nodes other) &&
    (v.nodes other).path == new ++ (v.nodes i).path.drop old.length) (i := j)
    (by simp [hne, hj, hused, hstays, hpath])
  rw [hk, Option.isSome_some]

/-- The table without the node that the new path names. -/
def cleared (new : List UInt8) (v : AkashicVfs nodeCount handleCount) :
    AkashicVfs nodeCount handleCount :=
  { v with nodes := fun i => if v.findNode new = some i then .empty else v.nodes i }

theorem elim_eq_cleared :
    ((v.findNode new).elim v fun index => v.setNode index .empty) = v.cleared new := by
  cases htgt : v.findNode new with
  | none => simp [cleared, htgt]
  | some target =>
    simp only [cleared, htgt, Option.elim_some, setNode, Option.some.injEq, @eq_comm _ target]
    congr 1
    funext i
    exact Function.update_apply ..

theorem cleared_used {i : Fin nodeCount} (h : ((v.cleared new).nodes i).used) :
    v.findNode new ≠ some i ∧ (v.cleared new).nodes i = v.nodes i := by
  by_cases hi : v.findNode new = some i
  · simp [cleared, hi, Node.empty] at h
  · exact ⟨hi, if_neg hi⟩

/-- The checks come before the first change, so `rename` does all of it or nothing. -/
theorem renameNode_cases (hroot : old ≠ rootPath) (now : ℕ) (source : Fin nodeCount)
    (v : AkashicVfs nodeCount handleCount) :
    (∃ e, v.renameNode old new now source = (.error e, v)) ∨
      v.checkReplaced (v.nodes source).kind new (v.findNode new) = .ok () ∧
      (∀ i, v.checkMoved old new (v.findNode new) i = .ok ()) ∧
      v.renameNode old new now source = (.ok (), (v.cleared new).movedAll old new now) := by
  unfold renameNode
  dsimp only
  split
  · exact .inl ⟨_, rfl⟩
  next hrepl =>
  split
  · exact .inl ⟨_, rfl⟩
  next hchecks =>
  have hmoved := fun i => forM_ok hchecks i (mem_finRange i)
  refine .inr ⟨hrepl, hmoved, ?_⟩
  rw [elim_eq_cleared]
  refine (renameLoop_eq (v := v.cleared new) (nodup_finRange nodeCount) fun i _ hi => ?_).trans ?_
  · have heq := (cleared_used ((moves_iff hroot).mp hi).1).2
    rw [heq] at hi ⊢
    exact (checkMoved_ok hroot (hmoved i) hi).1
  · simp only [mem_finRange, true_and]
    rfl

/-- The parent of a path is another path. -/
theorem parentPath_ne {parent : List UInt8} (hvalid : Valid path) (hroot : path ≠ rootPath)
    (hpar : parentPath path = some parent) : path ≠ parent := by
  rintro rfl
  exact lt_irrefl _ (below_of_parentPath hvalid hpar hroot).length_lt

theorem Tree.renameNode (h : Tree v) (hsrc : v.findNode old = some source)
    (hold : Valid old) (hnew : Valid new) (holdRoot : old ≠ rootPath) (hnewRoot : new ≠ rootPath)
    (hne : old ≠ new) (hpar : ∃ parent, parentPath new = some parent ∧ HasDirectory parent v)
    (hdesc : ¬((v.nodes source).kind = .directory ∧ isDescendant old new)) (now : ℕ) :
    Tree (v.renameNode old new now source).2 := by
  rcases renameNode_cases holdRoot now source v with ⟨e, heq⟩ | ⟨hrepl, hchecks, heq⟩
  · rw [heq]
    exact h
  rw [heq]
  have hwithin := h.not_within hsrc hold holdRoot hne hpar hdesc
  have hmoved := fun i => checkMoved_ok (i := i) holdRoot (hchecks i)
  have hcleared : Tree (v.cleared new) ∧
      ∃ parent, parentPath new = some parent ∧ HasDirectory parent (v.cleared new) := by
    rw [← elim_eq_cleared]
    cases htgt : v.findNode new with
    | none => exact ⟨h, hpar⟩
    | some target =>
      rw [htgt] at hrepl
      obtain ⟨parent, hpath, hdir⟩ := hpar
      refine ⟨h.replaced hnewRoot htgt hrepl, parent, hpath, hdir.setNode fun _ => ?_⟩
      rw [(findNode_some htgt).2]
      exact parentPath_ne hnew hnewRoot hpath
  refine hcleared.1.movedAll hold holdRoot
    ⟨hnew, hnewRoot, hwithin, hcleared.2, fun i hi => ?_, fun i j hi hj hstays => ?_⟩ now
  · have heq := (cleared_used ((moves_iff holdRoot).mp hi).1).2
    rw [heq] at hi ⊢
    exact (hmoved i hi).2.1
  · have heq := (cleared_used ((moves_iff holdRoot).mp hi).1).2
    obtain ⟨hoth, heq'⟩ := cleared_used hj
    rw [heq] at hi ⊢
    rw [heq'] at hj hstays ⊢
    exact (hmoved i hi).2.2 j hoth.symm hj hstays

variable [NeZero nodeCount]

theorem Tree.rename (h : Tree v.ensureInitialized) (old new : List UInt8) (now : ℕ) :
    Tree (v.rename old new now).2 := by
  unfold AkashicVfs.rename
  dsimp only
  split
  · exact h
  next hok =>
  obtain ⟨hold, hnew, holdRoot, hnewRoot⟩ := validateRename_ok hok
  split
  · exact h
  next hne =>
  split
  · exact h
  next hsrc =>
  split
  · exact h
  next hpar =>
  split
  · exact h
  next hdesc =>
    exact h.renameNode hsrc hold hnew holdRoot hnewRoot hne (requireParentDirectory_ok hpar)
      hdesc now

/-- A rename that fails changes nothing. One that succeeds puts the new path in the place of
the old one in every node at or below it, and keeps all else but the node it replaces. -/
theorem rename_moves_subtree (old new : List UInt8) (now : ℕ)
    (v : AkashicVfs nodeCount handleCount) :
    let v₀ := v.ensureInitialized
    (∃ e, v.rename old new now = (.error e, v₀)) ∨ old = new ∧ v.rename old new now = (.ok (), v₀) ∨
      ∃ nodes, v.rename old new now = (.ok (), { v₀ with nodes }) ∧ ∀ i,
        (v₀.findNode new = some i → nodes i = .empty) ∧
        (v₀.findNode new ≠ some i →
          ((v₀.nodes i).used → Within old (v₀.nodes i).path → nodes i = { v₀.nodes i with
            path := new ++ (v₀.nodes i).path.drop old.length, modifiedTicks := now }) ∧
          (¬((v₀.nodes i).used ∧ Within old (v₀.nodes i).path) → nodes i = v₀.nodes i)) := by
  unfold AkashicVfs.rename
  dsimp only
  split
  · exact .inl ⟨_, rfl⟩
  next hok =>
  obtain ⟨_, _, hroot, _⟩ := validateRename_ok hok
  split
  next heq => exact .inr (.inl ⟨heq, rfl⟩)
  split
  · exact .inl ⟨_, rfl⟩
  next source _ =>
  split
  · exact .inl ⟨_, rfl⟩
  split
  · exact .inl ⟨_, rfl⟩
  rcases renameNode_cases hroot now source v.ensureInitialized with he | ⟨_, _, heq⟩
  · exact .inl he
  refine .inr (.inr ⟨_, heq, fun i => ⟨fun hi => ?_, fun hi => ?_⟩⟩)
  · simp [cleared, hi, moves, Node.empty]
  have hnode : (v.ensureInitialized.cleared new).nodes i = v.ensureInitialized.nodes i := if_neg hi
  simp only [hnode]
  refine ⟨fun hused hin => ?_, fun hout => ?_⟩
  · exact if_pos ((moves_iff hroot).mpr ⟨hused, hin⟩)
  · exact if_neg fun hmoves => hout ((moves_iff hroot).mp hmoves)

/-- A directory `/a` with a directory `/a/c`. -/
def madeDirectory : AkashicVfs 4 1 :=
  ((AkashicVfs.new.mkdir [slash, 0x61] 0).2.mkdir [slash, 0x61, slash, 0x63] 0).2

theorem rename_moves_subtree_made :
    ((madeDirectory.rename [slash, 0x61] [slash, 0x62] 5).2.nodes ⟨2, by decide⟩).path =
      [slash, 0x62, slash, 0x63] := by
  have hok : (madeDirectory.rename [slash, 0x61] [slash, 0x62] 5).1 = .ok () := by decide +kernel
  rcases rename_moves_subtree [slash, 0x61] [slash, 0x62] 5 madeDirectory with
    ⟨e, h⟩ | ⟨h, _⟩ | ⟨nodes, h, hnodes⟩
  · simp [h] at hok
  · exact absurd h (by decide)
  · have hmoved := ((hnodes ⟨2, by decide⟩).2 (by decide +kernel)).1 (by decide +kernel)
      ⟨[slash, 0x63], by decide +kernel, .inr ⟨[0x63], rfl⟩⟩
    rw [h]
    exact (congrArg Node.path hmoved).trans (by decide +kernel)

end ArachKernel.AkashicVfs
