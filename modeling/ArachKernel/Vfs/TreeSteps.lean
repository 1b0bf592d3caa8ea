import ArachKernel.Vfs.Tree

/-!
Every operation of the file system apart from `rename` keeps the tree, whatever it answers.
-/

namespace ArachKernel.AkashicVfs

open Table

variable {nodeCount handleCount : ℕ} {v : AkashicVfs nodeCount handleCount}
  {path : List UInt8}

theorem allocateCapabilityLoop_cases (owner : ProcessHandle) (i : Fin nodeCount) (now attempts : ℕ)
    (v : AkashicVfs nodeCount handleCount) :
    ∃ capability, (allocateCapabilityLoop owner i now attempts v).2 =
      { v with nextCapability := capability } ∧
      ∀ token, (allocateCapabilityLoop owner i now attempts v).1 = .ok token →
        token ≠ 0 ∧ ∀ k, (v.handles k).used → (v.handles k).token ≠ token := by
  induction attempts generalizing v with
  | zero => exact ⟨v.nextCapability, rfl, nofun⟩
  | succ attempts ih =>
    have hretry := ih { v with nextCapability := bumpCapability v.nextCapability }
    rw [allocateCapabilityLoop]
    split
    · exact hretry
    next hnone =>
    split
    next hne =>
      refine ⟨_, rfl, fun token h => ?_⟩
      cases h
      refine ⟨hne, fun k hk heq => ?_⟩
      simpa [hk, heq] using position_none.mp hnone k
    · exact hretry

variable {openFlags : Flags} {i : Fin nodeCount} {owner : ProcessHandle}

theorem openTarget_ok (h : v.openTarget path openFlags = .ok i) : v.findNode path = some i ∨
      v.findNode path = none ∧ (v.nodes i).used = false ∧
        ∃ parent, parentPath path = some parent ∧ HasDirectory parent v := by
  unfold openTarget at h
  split at h
  next hfound =>
    split at h
    · cases h
    split at h
    · cases h
    cases h
    exact .inl hfound
  next hmiss =>
    split at h
    · cases h
    split at h
    · cases h
    next hpar =>
    split at h
    · cases h
    next hposn =>
      cases h
      refine .inr ⟨hmiss, ?_, requireParentDirectory_ok hpar⟩
      simpa using position_some hposn

/-- The node of an open is in place, made or cut. -/
theorem Tree.openedNode (h : Tree v) (hval : Valid path) (now : ℕ)
    (htgt : v.openTarget path openFlags = .ok i) :
    Tree
      (v.setNode i (AkashicVfs.openedNode (v.findNode path).isSome path openFlags now
        (v.nodes i))) ∧
      (AkashicVfs.openedNode (v.findNode path).isSome path openFlags now (v.nodes i)).used := by
  rcases openTarget_ok htgt with hfound | ⟨hmiss, hfree, hpar⟩
  · have hused := (findNode_some hfound).1
    rw [hfound, AkashicVfs.openedNode, if_neg (by simp)]
    split
    · exact ⟨h.setContents i rfl rfl rfl rfl, hused⟩
    · exact ⟨h.setContents i rfl rfl rfl rfl, hused⟩
  · rw [hmiss]
    exact ⟨h.create hfree hval hmiss hpar, rfl⟩

theorem Tree.opened {node : Node} (h : Tree (v.setNode i node)) (hnode : node.used)
    {slot : Fin handleCount} (hslot : (v.handles slot).used = false) {handle : OpenHandle nodeCount}
    (hused : handle.used) (hi : handle.node = i) (htok : handle.token ≠ 0)
    (hfresh : ∀ k, (v.handles k).used → (v.handles k).token ≠ handle.token) :
    Tree ((v.setNode i { node with openCount := node.openCount + 1 }).setHandle slot handle) := by
  subst hi
  have hattached : ((v.setNode handle.node node).nodes handle.node).used := by simpa using hnode
  have hopen := h.openHandle hslot hused hattached htok hfresh
  simpa [rehandle, setNode] using hopen

theorem Tree.openNode (h : Tree v) (hval : Valid path) {now : ℕ} {slot : Fin handleCount}
    (hslot : (v.handles slot).used = false) (htgt : v.openTarget path openFlags = .ok i) :
    Tree (v.openNode owner path openFlags now slot i).2 := by
  obtain ⟨capability, hst, htok⟩ := allocateCapabilityLoop_cases owner i now (handleCount + 1) v
  unfold AkashicVfs.openNode allocateCapability
  split
  next allocated heq =>
    rw [heq] at hst
    rw [show allocated = _ from hst]
    exact h.withCapability capability
  next token allocated heq =>
  rw [heq] at hst htok
  obtain ⟨hne, hfresh⟩ := htok token rfl
  obtain rfl : allocated = _ := hst
  obtain ⟨hmade, hused⟩ := h.openedNode hval now htgt
  dsimp only
  split
  · exact hmade.withCapability capability
  next hcnt =>
    obtain ⟨_, rfl⟩ := checkedAdd_eq_some.mp hcnt
    exact (hmade.opened hused hslot rfl rfl hne hfresh).withCapability capability

theorem valid_of_validateOpen (h : validateOpen owner path openFlags = .ok ()) : Valid path := by
  cases hown : validateOwner owner with
  | error => simp [validateOpen, hown, bind, Except.bind] at h
  | ok =>
    cases hpath : validatePath path with
    | error => simp [validateOpen, hown, hpath, bind, Except.bind] at h
    | ok => exact validatePath_eq_ok.mp hpath

theorem Tree.written (h : Tree v) (i : Fin nodeCount) (offset : ℕ) (input : List UInt8) (now : ℕ) :
    Tree (v.setNode i ((v.nodes i).written offset input now)) :=
  h.setContents i rfl rfl rfl rfl

variable [NeZero nodeCount]

section

variable (h : Tree v.ensureInitialized)
include h

theorem Tree.openPath (owner : ProcessHandle) (path : List UInt8)
    (openFlags : Flags) (now : ℕ) : Tree (v.openPath owner path openFlags now).2 := by
  unfold AkashicVfs.openPath
  dsimp only
  split
  · exact h
  next hok =>
  split
  · exact h
  next hslot =>
  split
  · exact h
  next htgt =>
  exact h.openNode (valid_of_validateOpen hok) (by simpa using position_some hslot) htgt

/-! ### The other operations -/

theorem Tree.close (owner : ProcessHandle) (token : Token) : Tree (v.close owner token).2 := by
  unfold AkashicVfs.close
  dsimp only
  split
  · exact h
  · exact h.closeIndex _

theorem Tree.closeAll (owner : ProcessHandle) : Tree (v.closeAll owner).2 := by
  unfold AkashicVfs.closeAll
  generalize 0 = closed
  generalize v.ensureInitialized = v at h
  induction List.finRange handleCount generalizing closed v with
  | nil => exact h
  | cons slot slots ih =>
    rw [List.foldl_cons, sweepHandle]
    split
    · exact ih _ _ (h.closeIndex slot)
    · exact ih _ _ h

theorem Tree.read (owner : ProcessHandle) (token : Token) (size : ℕ) :
    Tree (v.read owner token size).2 := by
  unfold AkashicVfs.read
  dsimp only
  repeat' split
  all_goals first | exact h | exact h.setCursor _ _

theorem Tree.readHandleRangeSnapshot (owner : ProcessHandle) (token : Token)
    (offset size : ℕ) : Tree (v.readHandleRangeSnapshot owner token offset size).2 := by
  unfold AkashicVfs.readHandleRangeSnapshot
  dsimp only
  repeat' split
  all_goals exact h

theorem Tree.write (fileBytes : ℕ) (owner : ProcessHandle) (token : Token)
    (input : List UInt8) (now : ℕ) : Tree (v.write fileBytes owner token input now).2 := by
  unfold AkashicVfs.write
  dsimp only
  repeat' split
  all_goals first | exact h | exact (h.written _ _ input now).setCursor _ _

theorem Tree.seek (fileBytes : ℕ) (owner : ProcessHandle) (token : Token)
    (offset : ℤ) (whence : ℕ) : Tree (v.seek fileBytes owner token offset whence).2 := by
  unfold AkashicVfs.seek
  dsimp only
  repeat' split
  all_goals first | exact h | exact h.setCursor _ _

theorem Tree.stat (path : List UInt8) : Tree (v.stat path).2 := by
  unfold AkashicVfs.stat
  dsimp only
  repeat' split
  all_goals exact h

theorem Tree.statHandle (owner : ProcessHandle) (token : Token) :
    Tree (v.statHandle owner token).2 := by
  unfold AkashicVfs.statHandle
  dsimp only
  split
  · exact h
  · exact h

theorem Tree.readdir (owner : ProcessHandle) (token : Token) : Tree (v.readdir owner token).2 := by
  unfold AkashicVfs.readdir
  dsimp only
  repeat' split
  all_goals first | exact h | exact h.setCursor _ _

theorem Tree.mkdir (path : List UInt8) (now : ℕ) : Tree (v.mkdir path now).2 := by
  unfold AkashicVfs.mkdir
  dsimp only
  split
  · exact h
  next hok =>
  split
  · exact h
  next hfresh =>
  split
  · exact h
  next hpar =>
  split
  · exact h
  next hfree =>
    rw [not_or] at hfresh
    refine h.create (by simpa using position_some hfree) (validatePath_eq_ok.mp hok) ?_
      (requireParentDirectory_ok hpar)
    simpa using hfresh.2

theorem Tree.unlink (path : List UInt8) : Tree (v.unlink path).2 := by
  unfold AkashicVfs.unlink
  dsimp only
  split
  · exact h
  split
  · exact h
  next hroot =>
  split
  · exact h
  next i hfound =>
  split
  · exact h
  next hcnt =>
  split
  · exact h
  next hemp =>
  obtain ⟨hused, rfl⟩ := findNode_some hfound
  refine h.remove (not_not.mp hcnt) hused hroot fun j hj hbelow => ?_
  by_cases hkind : (v.ensureInitialized.nodes i).kind = .directory
  · rw [not_and] at hemp
    have hdesc := (isDescendant_iff hroot).mpr hbelow
    obtain ⟨k, hk⟩ := position_isSome (p := fun j => (v.ensureInitialized.nodes j).used &&
      isDescendant (v.ensureInitialized.nodes i).path (v.ensureInitialized.nodes j).path) (i := j)
      (by rw [hj, hdesc, Bool.true_and])
    exact hemp hkind (by rw [hk, Option.isSome_some])
  · exact h.file_leaf hused hkind j hj hbelow

end

theorem Tree.seedParents (h : Tree v) (now : ℕ) (parents : List (List UInt8)) :
    Tree (v.seedParents now parents).2 := by
  induction parents generalizing v with
  | nil => exact h
  | cons parent parents ih =>
    rw [AkashicVfs.seedParents]
    have hmade : Tree (v.mkdir parent now).2 := Tree.mkdir (h.ensure.symm ▸ h) parent now
    split
    · exact ih h
    split
    next heq =>
      rw [heq] at hmade
      exact hmade
    next heq =>
      rw [heq] at hmade
      exact ih hmade

theorem Tree.seedFile (h : Tree v.ensureInitialized) (fileBytes : ℕ) (owner : ProcessHandle)
    (path contents : List UInt8) (now : ℕ) :
    Tree (v.seedFile fileBytes owner path contents now).2 := by
  unfold AkashicVfs.seedFile
  dsimp only
  split
  · exact h
  have hparents := h.seedParents now (parents path)
  split
  next heq =>
    rw [heq] at hparents
    exact hparents
  next w heq =>
  rw [heq] at hparents
  have hopen := Tree.openPath (hparents.ensure.symm ▸ hparents) owner path
    (readIntent ||| writeIntent ||| createIntent ||| exclusive) now
  split
  next heq =>
    rw [heq] at hopen
    exact hopen
  next token w heq =>
    rw [heq] at hopen
    have hwritten := Tree.write (hopen.ensure.symm ▸ hopen) fileBytes owner token contents now
    exact Tree.close (hwritten.ensure.symm ▸ hwritten) owner token

end ArachKernel.AkashicVfs
