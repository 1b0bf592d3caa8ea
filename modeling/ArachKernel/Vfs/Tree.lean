import ArachKernel.Vfs.Paths

/-!
The nodes of the file system form a tree. Nodes hold whole paths, so the tree is not in the
data: it is the invariant that paths are distinct and that the parent of a path is the path
of a directory. Open handles are counted by the nodes that they point to.
-/

namespace ArachKernel.AkashicVfs

open Table Function

variable {nodeCount handleCount : ℕ} {v v' : AkashicVfs nodeCount handleCount}
  {path : List UInt8}

/-- The number of open handles on a node. -/
def openHandles (i : Fin nodeCount) (v : AkashicVfs nodeCount handleCount) : ℕ :=
  total (fun handle : OpenHandle nodeCount => if handle.used ∧ handle.node = i then 1 else 0)
    v.handles

/-- A used directory has this path. -/
def HasDirectory (path : List UInt8) (v : AkashicVfs nodeCount handleCount) : Prop :=
  ∃ i, (v.nodes i).used ∧ (v.nodes i).path = path ∧ (v.nodes i).kind = .directory

structure Tree (v : AkashicVfs nodeCount handleCount) : Prop where
  initialized : v.initialized
  root : HasDirectory rootPath v
  valid : ∀ i, (v.nodes i).used → Valid (v.nodes i).path
  distinct : ∀ i j, (v.nodes i).used → (v.nodes j).used →
    (v.nodes i).path = (v.nodes j).path → i = j
  parent : ∀ i, (v.nodes i).used → (v.nodes i).path ≠ rootPath →
    ∃ path, parentPath (v.nodes i).path = some path ∧ HasDirectory path v
  counts : ∀ i, (v.nodes i).openCount = openHandles i v
  attached : ∀ h, (v.handles h).used → (v.nodes (v.handles h).node).used
  tokens : ∀ h, (v.handles h).used → (v.handles h).token ≠ 0
  unique : ∀ h k, (v.handles h).used → (v.handles k).used →
    (v.handles h).token = (v.handles k).token → h = k

/-! ### Small facts -/

@[simp] theorem setNode_handles (i : Fin nodeCount) (node : Node) :
    (v.setNode i node).handles = v.handles :=
  rfl

@[simp] theorem setHandle_nodes (h : Fin handleCount) (handle : OpenHandle nodeCount) :
    (v.setHandle h handle).nodes = v.nodes := rfl

@[simp] theorem setNode_nodes (i : Fin nodeCount) (node : Node) :
    (v.setNode i node).nodes = update v.nodes i node := rfl

@[simp] theorem setHandle_handles (h : Fin handleCount) (handle : OpenHandle nodeCount) :
    (v.setHandle h handle).handles = update v.handles h handle := rfl

variable {i : Fin nodeCount} {parent : List UInt8}

theorem findNode_some (h : v.findNode path = some i) :
    (v.nodes i).used ∧ (v.nodes i).path = path := by
  have hfound := position_some h
  rwa [Bool.and_eq_true, beq_iff_eq] at hfound

theorem findNode_none (h : v.findNode path = none) (i : Fin nodeCount) (hused : (v.nodes i).used) :
    (v.nodes i).path ≠ path := by
  have hmiss := position_none.mp h i
  rw [hused, Bool.true_and, beq_eq_false_iff_ne] at hmiss
  exact hmiss

theorem requireParentDirectory_ok (h : v.requireParentDirectory path = .ok i) :
    ∃ parent, parentPath path = some parent ∧ HasDirectory parent v := by
  unfold requireParentDirectory at h
  split at h
  · cases h
  next parent hpar =>
  split at h
  · cases h
  next index hfound =>
  split at h
  · cases h
  next hkind =>
    obtain ⟨hused, hpath⟩ := findNode_some hfound
    exact ⟨parent, hpar, index, hused, hpath, not_not.mp hkind⟩

theorem findHandle_ok {owner : ProcessHandle} {token : Token} {h : Fin handleCount}
    (hfound : v.findHandle owner token = .ok h) :
    (v.handles h).used ∧ (v.handles h).token = token ∧ (v.handles h).owner = owner := by
  unfold findHandle at hfound
  split at hfound
  · cases hfound
  split at hfound
  · cases hfound
  split at hfound
  · cases hfound
  next hposn =>
    cases hfound
    have hmat := position_some hposn
    rw [Bool.and_eq_true, Bool.and_eq_true, beq_iff_eq, beq_iff_eq] at hmat
    exact ⟨hmat.1.1, hmat.1.2, hmat.2⟩

theorem Tree.ensure [NeZero nodeCount] (h : Tree v) : v.ensureInitialized = v :=
  if_pos h.initialized

/-- Two states with the same nodes apart from contents, times and counts. -/
structure SameNames (v v' : AkashicVfs nodeCount handleCount) : Prop where
  initialized : v'.initialized = v.initialized
  used : ∀ i, (v'.nodes i).used = (v.nodes i).used
  path : ∀ i, (v'.nodes i).path = (v.nodes i).path
  kind : ∀ i, (v'.nodes i).kind = (v.nodes i).kind

/-- Two states with the same tables apart from contents, cursors and times. -/
structure SameShape (v v' : AkashicVfs nodeCount handleCount) : Prop extends SameNames v v' where
  openCount : ∀ i, (v'.nodes i).openCount = (v.nodes i).openCount
  handle : ∀ h, (v'.handles h).used = (v.handles h).used
  node : ∀ h, (v'.handles h).node = (v.handles h).node
  token : ∀ h, (v'.handles h).token = (v.handles h).token

theorem HasDirectory.same (hsame : SameNames v v') (h : HasDirectory path v) :
    HasDirectory path v' := by
  obtain ⟨i, hused, hpath, hkind⟩ := h
  exact ⟨i, by rw [hsame.used, hused], by rw [hsame.path, hpath], by rw [hsame.kind, hkind]⟩

/-- The tree stays; what is said about the handles is to be shown. -/
theorem Tree.withHandles (h : Tree v) (hsame : SameNames v v')
    (hcounts : ∀ i, (v'.nodes i).openCount = openHandles i v')
    (hattached : ∀ k, (v'.handles k).used → (v.nodes (v'.handles k).node).used)
    (htoks : ∀ k, (v'.handles k).used → (v'.handles k).token ≠ 0)
    (hunique : ∀ k l, (v'.handles k).used → (v'.handles l).used →
      (v'.handles k).token = (v'.handles l).token → k = l) : Tree v' where
  initialized := hsame.initialized.trans h.initialized
  root := h.root.same hsame
  valid i hi := by
    rw [hsame.used] at hi
    rw [hsame.path]
    exact h.valid i hi
  distinct i j hi hj hpath := by
    rw [hsame.used] at hi hj
    rw [hsame.path, hsame.path] at hpath
    exact h.distinct i j hi hj hpath
  parent i hi hroot := by
    rw [hsame.used] at hi
    rw [hsame.path] at hroot ⊢
    obtain ⟨path, hpath, hdir⟩ := h.parent i hi hroot
    exact ⟨path, hpath, hdir.same hsame⟩
  counts := hcounts
  attached k hk := by
    rw [hsame.used]
    exact hattached k hk
  tokens := htoks
  unique := hunique

theorem Tree.same (h : Tree v) (hsame : SameShape v v') : Tree v' := by
  refine h.withHandles hsame.toSameNames (fun i => ?_) (fun k hk => ?_) (fun k hk => ?_)
    fun k l hk hl htok => ?_
  · rw [hsame.openCount, h.counts]
    apply total_congr
    intro k
    rw [hsame.handle, hsame.node]
  · rw [hsame.handle] at hk
    rw [hsame.node]
    exact h.attached k hk
  · rw [hsame.handle] at hk
    rw [hsame.token]
    exact h.tokens k hk
  · rw [hsame.handle] at hk hl
    rw [hsame.token, hsame.token] at htok
    exact h.unique k l hk hl htok

/-- A new capability number changes no table. -/
theorem Tree.withCapability (h : Tree v) (capability : Token) :
    Tree { v with nextCapability := capability } :=
  h.same ⟨⟨rfl, fun _ => rfl, fun _ => rfl, fun _ => rfl⟩, fun _ => rfl, fun _ => rfl, fun _ => rfl,
    fun _ => rfl⟩

theorem Tree.setCursor (h : Tree v) (k : Fin handleCount) (cursor : ℕ) :
    Tree (v.setCursor k cursor) := by
  have hhd : ∀ l, ∃ c, (v.setCursor k cursor).handles l = { v.handles l with cursor := c } := by
    intro l
    by_cases hl : l = k
    · subst hl
      exact ⟨cursor, by simp [AkashicVfs.setCursor]⟩
    · exact ⟨(v.handles l).cursor, by simp [AkashicVfs.setCursor, hl]⟩
  refine h.same ⟨⟨rfl, fun _ => rfl, fun _ => rfl, fun _ => rfl⟩, fun _ => rfl, fun l => ?_,
    fun l => ?_, fun l => ?_⟩
  all_goals
    obtain ⟨c, hc⟩ := hhd l
    rw [hc]

/-- A node keeps its place when only its contents and times change. -/
theorem Tree.setContents (h : Tree v) (i : Fin nodeCount) {node : Node}
    (hused : node.used = (v.nodes i).used) (hpath : node.path = (v.nodes i).path)
    (hkind : node.kind = (v.nodes i).kind) (hcnt : node.openCount = (v.nodes i).openCount) :
    Tree (v.setNode i node) := by
  refine h.same ⟨⟨rfl, fun j => ?_, fun j => ?_, fun j => ?_⟩, fun j => ?_, fun _ => rfl,
    fun _ => rfl, fun _ => rfl⟩
  all_goals
    by_cases hj : j = i
    · subst hj
      simp [hused, hpath, hkind, hcnt]
    · simp [hj]

/-! ### Nodes come and go -/

theorem HasDirectory.setNode (h : HasDirectory path v) {node : Node}
    (hi : (v.nodes i).used → (v.nodes i).path ≠ path) : HasDirectory path (v.setNode i node) := by
  obtain ⟨j, hused, hpath, hkind⟩ := h
  have hne : j ≠ i := by
    rintro rfl
    exact hi hused hpath
  exact ⟨j, by simp [hne, hused], by simp [hne, hpath], by simp [hne, hkind]⟩

theorem Tree.no_handle (h : Tree v) (hfree : (v.nodes i).openCount = 0)
    {k : Fin handleCount} (hk : (v.handles k).used) : (v.handles k).node ≠ i := by
  intro hnode
  have hzero := total_eq_zero.mp ((h.counts i).symm.trans hfree) k
  rw [if_pos ⟨hk, hnode⟩] at hzero
  cases hzero

theorem Tree.openCount_free (h : Tree v) (hfree : (v.nodes i).used = false) :
    (v.nodes i).openCount = 0 := by
  rw [h.counts]
  apply total_zero
  intro k
  apply if_neg
  rintro ⟨hk, rfl⟩
  exact Bool.noConfusion (hfree.symm.trans (h.attached k hk))

/-- A new node in a free slot, with a path that no node has and a directory above it. -/
theorem Tree.create (h : Tree v) (hfree : (v.nodes i).used = false) {kind : NodeKind}
    {now : ℕ} (hval : Valid path) (hfresh : v.findNode path = none)
    (hpar : ∃ parent, parentPath path = some parent ∧ HasDirectory parent v) :
    Tree (v.setNode i (.fresh kind path now)) := by
  have hkeep :
      ∀ {path'}, HasDirectory path' v → HasDirectory path' (v.setNode i (.fresh kind path now)) :=
    fun hd => hd.setNode fun hused => Bool.noConfusion (hfree.symm.trans hused)
  have hnode : ∀ j, (v.setNode i (.fresh kind path now)).nodes j =
      if j = i then .fresh kind path now else v.nodes j := by
    intro j
    rw [setNode_nodes, update_apply]
  refine ⟨h.initialized, hkeep h.root, fun j hj => ?_, fun j k hj hk hpath => ?_,
    fun j hj hroot => ?_, fun j => ?_, fun k hk => ?_, h.tokens, h.unique⟩
  · rw [hnode] at hj ⊢
    split at hj
    next heq =>
      rw [if_pos heq]
      exact hval
    next hne =>
      rw [if_neg hne]
      exact h.valid j hj
  · rw [hnode] at hj hk
    rw [hnode, hnode] at hpath
    split at hj
    next heq =>
      rw [if_pos heq] at hpath
      split at hk
      next heq' => rw [heq, heq']
      next hne' =>
        rw [if_neg hne'] at hpath
        exact absurd hpath.symm (findNode_none hfresh k hk)
    next hne =>
      rw [if_neg hne] at hpath
      split at hk
      next heq' =>
        rw [if_pos heq'] at hpath
        exact absurd hpath (findNode_none hfresh j hj)
      next hne' =>
        rw [if_neg hne'] at hpath
        exact h.distinct j k hj hk hpath
  · rw [hnode] at hj hroot ⊢
    split at hj
    next heq =>
      rw [if_pos heq]
      exact hpar.imp fun _ hp => ⟨hp.1, hkeep hp.2⟩
    next hne =>
      rw [if_neg hne] at hroot ⊢
      exact (h.parent j hj hroot).imp fun _ hp => ⟨hp.1, hkeep hp.2⟩
  · rw [hnode]
    split
    next heq =>
      rw [heq]
      exact (h.openCount_free hfree).symm.trans (h.counts i)
    · exact h.counts j
  · rw [hnode]
    split
    · rfl
    · exact h.attached k hk

/-- The parent of a path other than the root is above it. -/
theorem below_of_parentPath (hval : Valid path)
    (hpar : parentPath path = some parent) (hroot : parent ≠ rootPath) : Below parent path := by
  obtain ⟨front, name, rfl, hname⟩ := exists_lastSlash hval.slash_mem
  have hne : front ++ slash :: name ≠ rootPath := by
    intro heq
    simp [parentPath, if_pos heq] at hpar
  rw [parentPath_append hname hne] at hpar
  split at hpar
  · exact absurd (Option.some.inj hpar).symm hroot
  · exact ⟨name, by rw [Option.some.inj hpar]⟩

/-- A node without handles and without nodes below it can go. -/
theorem Tree.remove (h : Tree v) (hcnt : (v.nodes i).openCount = 0)
    (hused : (v.nodes i).used) (hroot : (v.nodes i).path ≠ rootPath)
    (hleaf : ∀ j, (v.nodes j).used → ¬Below (v.nodes i).path (v.nodes j).path) :
    Tree (v.setNode i .empty) := by
  have hnode : ∀ {j}, ((v.setNode i .empty).nodes j).used →
      j ≠ i ∧ (v.setNode i .empty).nodes j = v.nodes j := by
    intro j hj
    have hne : j ≠ i := by
      rintro rfl
      simp [Node.empty] at hj
    exact ⟨hne, by simp [hne]⟩
  refine ⟨h.initialized, h.root.setNode fun _ => hroot, fun j hj => ?_, fun j k hj hk hpath => ?_,
    fun j hj hroot' => ?_, fun j => ?_, fun k hk => ?_, h.tokens, h.unique⟩
  · have heq := (hnode hj).2
    rw [heq] at hj ⊢
    exact h.valid j hj
  · have heq := (hnode hj).2
    have heq' := (hnode hk).2
    rw [heq] at hj hpath
    rw [heq'] at hk hpath
    exact h.distinct j k hj hk hpath
  · have heq := (hnode hj).2
    rw [heq] at hj hroot' ⊢
    obtain ⟨parent, hpar, hdir⟩ := h.parent j hj hroot'
    refine ⟨parent, hpar, hdir.setNode ?_⟩
    -- the parent of another node has that node below it
    rintro _ rfl
    exact hleaf j hj (below_of_parentPath (h.valid j hj) hpar hroot)
  · rw [setNode_nodes, update_apply]
    split
    next heq =>
      subst heq
      exact hcnt.symm.trans (h.counts j)
    · exact h.counts j
  · have hne := h.no_handle hcnt hk
    simp [hne, h.attached k hk]

/-- Whatever is above a node is a directory. -/
theorem Tree.above (h : Tree v) (hne : parent ≠ []) {j : Fin nodeCount} (hused : (v.nodes j).used)
    (hbelow : Below parent (v.nodes j).path) : HasDirectory parent v := by
  -- from parent to parent, each with a shorter path
  induction hlen : (v.nodes j).path.length using Nat.strongRecOn generalizing j with
  | ind n ih =>
    obtain ⟨front, name, hpath, hname, hfront, hpar⟩ := parentPath_moved hne hbelow
    have hroot : (v.nodes j).path ≠ rootPath := by
      rw [hpath]
      exact below_ne_rootPath (List.append_ne_nil_of_left_ne_nil hne front)
    obtain ⟨path, hpath', hdir⟩ := h.parent j hused hroot
    obtain rfl := Option.some.inj (hpath'.symm.trans hpar)
    rcases hfront with rfl | ⟨rest, rfl⟩
    · rwa [List.append_nil] at hdir
    · obtain ⟨k, hk, hkpath, _⟩ := hdir
      refine ih _ ?_ hk ⟨rest, hkpath⟩ rfl
      rw [hkpath, ← hlen, hpath]
      simp

theorem Tree.file_leaf (h : Tree v) (hused : (v.nodes i).used)
    (hkind : (v.nodes i).kind ≠ .directory) (j : Fin nodeCount) (hj : (v.nodes j).used) :
    ¬Below (v.nodes i).path (v.nodes j).path := by
  intro hbelow
  obtain ⟨k, hk, hpath, hdir⟩ := h.above (h.valid i hused).ne_nil hj hbelow
  obtain rfl := h.distinct k i hk hused hpath
  exact hkind hdir

/-! ### Handles come and go -/

variable (slot : Fin handleCount) (handle : OpenHandle nodeCount)

/-- The node with another count, and a handle in its slot. -/
def rehandle (i : Fin nodeCount) (openCount : ℕ)
    (v : AkashicVfs nodeCount handleCount) : AkashicVfs nodeCount handleCount :=
  (v.setNode i { v.nodes i with openCount }).setHandle slot handle

theorem sameNames_rehandle (i : Fin nodeCount)
    (openCount : ℕ) : SameNames v (v.rehandle slot handle i openCount) := by
  refine ⟨rfl, fun j => ?_, fun j => ?_, fun j => ?_⟩
  all_goals
    rw [rehandle]
    by_cases hj : j = i
    · subst hj
      simp
    · simp [hj]

theorem rehandle_handles (slot k : Fin handleCount) (handle : OpenHandle nodeCount)
    (i : Fin nodeCount) (openCount : ℕ) :
    (v.rehandle slot handle i openCount).handles k = if k = slot then handle else v.handles k := by
  rw [rehandle, setHandle_handles, setNode_handles, update_apply]

theorem rehandle_openCount (i j : Fin nodeCount)
    (openCount : ℕ) : ((v.rehandle slot handle i openCount).nodes j).openCount =
      if j = i then openCount else (v.nodes j).openCount := by
  rw [rehandle, setHandle_nodes, setNode_nodes, update_apply]
  split
  · rfl
  · rfl

/-- What one handle adds to the count of a node. -/
def addsTo (i : Fin nodeCount) (handle : OpenHandle nodeCount) : ℕ :=
  if handle.used ∧ handle.node = i then 1 else 0

theorem openHandles_rehandle (i j : Fin nodeCount) (openCount : ℕ) :
    openHandles j (v.rehandle slot handle i openCount) + addsTo j (v.handles slot) =
      openHandles j v + addsTo j handle :=
  total_update (addsTo j) v.handles slot handle

theorem Tree.openHandle (h : Tree v) {slot : Fin handleCount}
    (hslot : (v.handles slot).used = false) {handle : OpenHandle nodeCount} (hused : handle.used)
    (hnode : (v.nodes handle.node).used) (htok : handle.token ≠ 0)
    (hfresh : ∀ k, (v.handles k).used → (v.handles k).token ≠ handle.token) :
    Tree (v.rehandle slot handle handle.node ((v.nodes handle.node).openCount + 1)) := by
  refine h.withHandles (sameNames_rehandle ..) (fun j => ?_) (fun k hk => ?_) (fun k hk => ?_)
    fun k l hk hl heq => ?_
  · have hcnt := openHandles_rehandle (v := v) slot handle handle.node j
      ((v.nodes handle.node).openCount + 1)
    rw [rehandle_openCount, h.counts, h.counts]
    simp only [addsTo, hslot, hused, true_and, Bool.false_eq_true, false_and, if_false] at hcnt
    split
    next heq =>
      subst heq
      rw [if_pos rfl] at hcnt
      exact hcnt.symm
    next hne =>
      rw [if_neg (Ne.symm hne)] at hcnt
      exact hcnt.symm
  · rw [rehandle_handles] at hk ⊢
    split at hk
    next heq => rwa [if_pos heq]
    next hne =>
      rw [if_neg hne]
      exact h.attached k hk
  · rw [rehandle_handles] at hk ⊢
    split at hk
    next heq => rwa [if_pos heq]
    next hne =>
      rw [if_neg hne]
      exact h.tokens k hk
  · rw [rehandle_handles] at hk hl
    rw [rehandle_handles, rehandle_handles] at heq
    split at hk
    next hks =>
      rw [if_pos hks] at heq
      split at hl
      next hls => rw [hks, hls]
      next hls =>
        rw [if_neg hls] at heq
        exact absurd heq.symm (hfresh l hl)
    next hks =>
      rw [if_neg hks] at heq
      split at hl
      next hls =>
        rw [if_pos hls] at heq
        exact absurd heq (hfresh k hk)
      next hls =>
        rw [if_neg hls] at heq
        exact h.unique k l hk hl heq

theorem Tree.closeIndex [NeZero nodeCount] (h : Tree v) (slot : Fin handleCount) :
    Tree (v.closeIndex slot) := by
  unfold AkashicVfs.closeIndex
  dsimp only
  split
  next hused =>
    change Tree (v.rehandle slot .empty (v.handles slot).node
      ((v.nodes (v.handles slot).node).openCount - 1))
    have hread : ∀ {k}, ((v.rehandle slot .empty (v.handles slot).node
        ((v.nodes (v.handles slot).node).openCount - 1)).handles k).used →
        (v.rehandle slot .empty (v.handles slot).node
          ((v.nodes (v.handles slot).node).openCount - 1)).handles k = v.handles k := by
      intro k hk
      rw [rehandle_handles] at hk ⊢
      split at hk
      · cases hk
      next hne => exact if_neg hne
    refine h.withHandles (sameNames_rehandle ..) (fun j => ?_) (fun k hk => ?_) (fun k hk => ?_)
      fun k l hk hl heq => ?_
    · have hcnt := openHandles_rehandle (v := v) slot .empty (v.handles slot).node j
        ((v.nodes (v.handles slot).node).openCount - 1)
      have hopen := h.counts j
      simp only [addsTo, hused, true_and, OpenHandle.empty, Bool.false_eq_true, false_and, if_false]
        at hcnt
      refine (rehandle_openCount slot .empty (v.handles slot).node j _).trans ?_
      split
      next heq =>
        subst heq
        rw [if_pos rfl] at hcnt
        exact (Nat.sub_eq_of_eq_add (hopen.trans hcnt.symm))
      next hne =>
        rw [if_neg (Ne.symm hne)] at hcnt
        exact hopen.trans hcnt.symm
    · have hsame := hread hk
      rw [hsame] at hk ⊢
      exact h.attached k hk
    · have hsame := hread hk
      rw [hsame] at hk ⊢
      exact h.tokens k hk
    · have hsame := hread hk
      have hsame' := hread hl
      rw [hsame] at hk heq
      rw [hsame'] at hl heq
      exact h.unique k l hk hl heq
  · exact h

end ArachKernel.AkashicVfs
