import ArachKernel.Vfs.Contents

/-!
Runs of opens, reads, writes, seeks and closes are runs of the specification. Two short runs
show what is not covered: a read past the end of a file fails instead of reading nothing, and
a write of nothing past the end extends the file.
-/

namespace ArachKernel.AkashicVfs

open Table ByteFile Function

variable {nodeCount handleCount now : ℕ} {v v' : AkashicVfs nodeCount handleCount}
  {path : List UInt8} {token : Token} {owner : ProcessHandle} {openFlags : Flags}
  {i : Fin nodeCount}

/-! ### Open -/

theorem and_eq_zero_of_or {x y z : Flags} (h : x &&& (y ||| z) = 0) :
    x &&& y = 0 ∧ x &&& z = 0 := by
  rw [BitVec.and_or_distrib_left] at h
  exact BitVec.or_eq_zero_iff.mp h

/-- A directory is opened without truncating or appending, and a file is made on demand. -/
theorem openTarget_flags (h : v.openTarget path openFlags = .ok i) :
    (v.findNode path = some i ∧ ((v.nodes i).kind = .directory →
      openFlags &&& truncate = 0 ∧ openFlags &&& appendOnly = 0)) ∨
    (v.findNode path = none ∧ openFlags &&& createIntent ≠ 0) := by
  unfold openTarget at h
  split at h
  next hfound =>
    split at h
    · cases h
    split at h
    · cases h
    next hdir =>
    cases h
    refine .inl ⟨hfound, fun hkind => ?_⟩
    have hzero : openFlags &&& (writeIntent ||| createIntent ||| truncate ||| appendOnly) = 0 := by
      by_contra hne
      exact hdir ⟨hkind, hne⟩
    obtain ⟨hleft, happ⟩ := and_eq_zero_of_or hzero
    exact ⟨(and_eq_zero_of_or hleft).2, happ⟩
  next hmiss =>
    split at h
    · cases h
    next hcreate => exact .inr ⟨hmiss, hcreate⟩

/-- The view with the node of an open made, cut, or as it was. -/
theorem finds_openedNode (h : Tree v) (hval : Valid path) (now : ℕ)
    (htgt : v.openTarget path openFlags = .ok i) :
    Posix.Finds path openFlags (view v) i
      (view
        (v.setNode i (openedNode (v.findNode path).isSome path openFlags now (v.nodes i)))) := by
  have hmade := (h.openedNode hval now htgt).1
  rcases openTarget_flags htgt with ⟨hfound, hdir⟩ | ⟨hmiss, hcreate⟩
  · obtain ⟨hused, _⟩ := findNode_some hfound
    have hfinds : Posix.Finds path openFlags (view v) i _ := .found hfound
    rw [hfound, openedNode, if_neg (by simp)]
    split
    next htrunc =>
      rw [if_neg htrunc] at hfinds
      have hkind : (v.nodes i).kind = .file := by
        cases hkind : (v.nodes i).kind with
        | file => rfl
        | directory => exact absurd (hdir hkind).1 htrunc
      have hview : view (v.setNode i ((v.nodes i).truncated now)) = (view v).setFile i [] := by
        have hcut : ((v.nodes i).truncated now).file = some [] := if_pos ⟨hused, hkind⟩
        have hnode : view (v.setNode i ((v.nodes i).truncated now)) = _ := view_setNode rfl rfl
        rw [hnode, hcut]
        rfl
      rw [hview]
      exact hfinds
    next hkeep =>
      rw [if_pos (not_not.mp hkeep)] at hfinds
      have hsame : v.setNode i (v.nodes i) = v := by simp [setNode]
      rw [hsame]
      exact hfinds
  · rw [hmiss] at hmade ⊢
    rw [openedNode, if_pos (by simp)] at hmade ⊢
    have hfree : (v.nodes i).used = false := by
      rcases openTarget_ok htgt with hfound | ⟨_, hfree, _⟩
      · simp [hmiss] at hfound
      · exact hfree
    have hview : view (v.setNode i (.fresh .file path now)) =
        { (view v).setFile i [] with names := update (view v).names path (some i) } := by
      refine Posix.ext ?_ ?_ rfl
      · funext other
        apply Option.ext
        intro j
        change findNode other _ = some j ↔ update (fun path => v.findNode path) path (some i)
          other = some j
        rw [update_apply, findNode_eq_some hmade, setNode_nodes, update_apply]
        by_cases hj : j = i
        · rw [if_pos hj, hj]
          split
          next heq => simp [heq, Node.fresh]
          next hne =>
          constructor
          · rintro ⟨_, hpath⟩
            exact absurd hpath.symm hne
          · intro hfound
            exact Bool.noConfusion (hfree.symm.trans (findNode_some hfound).1)
        · rw [if_neg hj]
          split
          next heq =>
            constructor
            · rintro ⟨hused, hpath⟩
              exact absurd (hpath.trans heq) (findNode_none hmiss j hused)
            · intro hsome
              exact absurd (Option.some.inj hsome).symm hj
          · exact (findNode_eq_some h).symm
      · funext j
        by_cases hj : j = i
        · subst hj
          simp [view, Posix.setFile, Node.file, Node.fresh, Node.bytes, Node.empty, bufferBytes]
        · simp [view, Posix.setFile, hj]
    rw [hview]
    refine .made hmiss hcreate fun other hoth => ?_
    exact Bool.noConfusion (hfree.symm.trans (findNode_some hoth).1)

theorem view_opened {node : Node} (h : Tree (v.setNode i node)) (hnode : node.used)
    {slot : Fin handleCount} (hslot : (v.handles slot).used = false) {handle : OpenHandle nodeCount}
    (hused : handle.used) (hi : handle.node = i) (htok : handle.token ≠ 0)
    (hfresh : ∀ k, (v.handles k).used → (v.handles k).token ≠ handle.token) :
    view ((v.setNode i { node with openCount := node.openCount + 1 }).setHandle slot handle) =
      (view (v.setNode i node)).setHandle handle.token (some handle.describe) := by
  have htree := h.opened hnode hslot hused hi htok hfresh
  have heq : (v.setNode i { node with openCount := node.openCount + 1 }).setHandle slot handle =
      (v.setNode i node).rehandle slot handle i (node.openCount + 1) := by
    simp [rehandle, setNode]
  rw [heq] at htree ⊢
  exact view_openHandle h hslot hused htree

theorem openNode_step (h : Tree v) (hval : Valid path) {slot : Fin handleCount}
    (hslot : (v.handles slot).used = false) (htgt : v.openTarget path openFlags = .ok i)
    (hprop : Proper v (.openPath owner path openFlags now)) (capacity : ℕ) :
    Posix.Step capacity (view v) (.openPath owner path openFlags now)
      (v.openNode owner path openFlags now slot i).1
        (view (v.openNode owner path openFlags now slot i).2) := by
  obtain ⟨capability, hst, htok⟩ := allocateCapabilityLoop_cases owner i now (handleCount + 1) v
  unfold openNode allocateCapability
  split
  next allocated heq =>
    rw [heq] at hst
    obtain rfl : allocated = _ := hst
    exact rfl
  next token allocated heq =>
  rw [heq] at hst htok
  obtain ⟨hne, hfresh⟩ := htok token rfl
  obtain rfl : allocated = _ := hst
  obtain ⟨hmade, hused⟩ := h.openedNode hval now htgt
  have hfinds := finds_openedNode h hval now htgt
  dsimp only
  split
  next hnone =>
    -- no room in the count: the node is one that was there, and it is not cut
    have hfull :
        u16Max <
          (openedNode (v.findNode path).isSome path openFlags now (v.nodes i)).openCount + 1 := by
      by_contra hle
      rw [checkedAdd, if_pos (not_lt.mp hle)] at hnone
      cases hnone
    rcases openTarget_flags htgt with ⟨hfound, _⟩ | ⟨hmiss, _⟩
    · rw [hfound, openedNode, if_neg (by simp)] at hfull ⊢
      split at hfull
      next htrunc =>
        have hroom := hprop htrunc i hfound
        change u16Max < (v.nodes i).openCount + 1 at hfull
        omega
      next hkeep =>
        have hsame : v.setNode i (v.nodes i) = v := by simp [setNode]
        have hview : view (v.setNode i (v.nodes i)) = view v := congrArg view hsame
        rw [if_neg hkeep]
        exact hview
    · rw [hmiss] at hfull
      change u16Max < 0 + 1 at hfull
      exact absurd hfull (by decide)
  next hcnt =>
    obtain ⟨_, rfl⟩ := checkedAdd_eq_some.mp hcnt
    generalize hnode :
      openedNode (v.findNode path).isSome path openFlags now (v.nodes i) = node at *
    refine ⟨?_, i, view (v.setNode i node), hfinds, ?_⟩
    · have hnone : slotOf token v = none := by
        apply position_none.mpr
        intro k
        by_cases hk : (v.handles k).used
        · simp [hk, hfresh k hk]
        · simp [hk]
      change (slotOf token v).map _ = none
      rw [hnone, Option.map_none]
    · -- an append handle is on a file, so its cursor is the length of the bytes
      have hcurs : (if openFlags &&& appendOnly ≠ 0 then node.contentLen else 0) =
          if openFlags &&& appendOnly ≠ 0
            then (((view (v.setNode i node)).files i).getD []).length else 0 := by
        split
        next happ =>
          have hkind : node.kind = .file := by
            rw [← hnode]
            rcases openTarget_flags htgt with ⟨hfound, hdir⟩ | ⟨hmiss, _⟩
            · have hfile : (v.nodes i).kind = .file := by
                cases hkind : (v.nodes i).kind with
                | file => rfl
                | directory => exact absurd (hdir hkind).2 happ
              rw [hfound, openedNode, if_neg (by simp)]
              split
              · exact hfile
              · exact hfile
            · rw [hmiss]
              rfl
          have hfile : (view (v.setNode i node)).files i = some node.bytes := by
            have hi : (v.setNode i node).nodes i = node := update_self ..
            rw [file_eq_some (by rw [hi, hused]) (by rw [hi, hkind]), hi]
          rw [hfile, Option.getD_some, length_bytes]
        · rfl
      rw [← hcurs]
      exact view_opened hmade hused hslot rfl rfl hne hfresh

variable [NeZero nodeCount]

theorem open_step (h : Tree v.ensureInitialized)
    (hprop : Proper v.ensureInitialized (.openPath owner path openFlags now)) (capacity : ℕ) :
    Posix.Step capacity (view v.ensureInitialized) (.openPath owner path openFlags now)
      (v.openPath owner path openFlags now).1 (view (v.openPath owner path openFlags now).2) := by
  unfold openPath
  dsimp only
  split
  · exact rfl
  next hok =>
  split
  · exact rfl
  next hslot =>
  split
  · exact rfl
  next htgt =>
    exact openNode_step h (valid_of_validateOpen hok)
      (by simpa using position_some hslot) htgt hprop capacity

/-! ### Runs -/

/-- Calls one after the other, each one covered by the specification. -/
inductive ProperRun (fileBytes : ℕ) : AkashicVfs nodeCount handleCount → List Exchange →
    AkashicVfs nodeCount handleCount → Prop
  | nil (v : AkashicVfs nodeCount handleCount) : ProperRun fileBytes v [] v
  | cons {v v' : AkashicVfs nodeCount handleCount} {α : Type} (c : FileCall α)
      {exchanges : List Exchange} (hproper : Proper v.ensureInitialized c)
      (hrest : ProperRun fileBytes (vfsExec fileBytes _ c.toVfs v).2 exchanges v') :
      ProperRun fileBytes v (⟨α, c, (vfsExec fileBytes _ c.toVfs v).1⟩ :: exchanges) v'

theorem exec_refines (h : Tree v.ensureInitialized) {α : Type} (c : FileCall α)
    (hprop : Proper v.ensureInitialized c) (fileBytes : ℕ) :
    Posix.Step fileBytes (view v.ensureInitialized) c (vfsExec fileBytes _ c.toVfs v).1
      (view (vfsExec fileBytes _ c.toVfs v).2) := by
  cases c with
  | openPath => exact open_step h hprop fileBytes
  | read => exact read_step h hprop
  | write => exact write_step h hprop
  | seek => exact seek_step h
  | close => exact close_step h

theorem ProperRun.refines {fileBytes : ℕ} {exchanges : List Exchange} (h : Tree v.ensureInitialized)
    (hrun : ProperRun fileBytes v exchanges v') :
    Posix.Run fileBytes (view v.ensureInitialized) exchanges (view v'.ensureInitialized) := by
  induction hrun with
  | nil => exact .nil _
  | cons c hprop hrest ih =>
    have htree := h.vfsExec fileBytes c.toVfs
    have hstep := exec_refines h c hprop fileBytes
    rw [← htree.ensure] at hstep
    exact .cons hstep (ih (by rwa [htree.ensure]))

/-- From the start, or after any calls, a run of calls that are covered is a run of the
specification: every answer is what the bytes and cursors say, and nothing else changes. -/
theorem vfs_contents_refine {fileBytes : ℕ} {exchanges : List Exchange}
    (h : v = new ∨ Reached fileBytes v) (hrun : ProperRun fileBytes v exchanges v') :
    Posix.Run fileBytes (view v.ensureInitialized) exchanges (view v'.ensureInitialized) := by
  refine hrun.refines ?_
  rcases h with rfl | h
  · exact tree_new
  · rw [h.tree.ensure]
    exact h.tree

/-! ### Short runs -/

def sampleOwner : ProcessHandle := { pid := 7, generation := 3 }

def samplePath : List UInt8 := [0x2f, 0x61]

local instance neZeroSample : NeZero 2 := ⟨by decide⟩

/-- A new file, open for reading and writing. -/
def sampleOpened : Except VfsError Token × AkashicVfs 2 1 :=
  vfsExec 16 _
    (.openPath sampleOwner samplePath (readIntent ||| writeIntent ||| createIntent) 10) new

def sampleToken : Token := sampleOpened.1.toOption.getD 0

/-- Two bytes are written, and the cursor is back at the start. -/
def sampleWritten : AkashicVfs 2 1 :=
  (vfsExec 16 _ (.write sampleOwner sampleToken [0x61, 0x62] 11) sampleOpened.2).2

def sampleRewound : AkashicVfs 2 1 :=
  (vfsExec 16 _ (.seek sampleOwner sampleToken 0 fromStart) sampleWritten).2

theorem vfs_contents_refine_written : ∃ (exchanges : List Exchange) (v' : AkashicVfs 2 1),
    Posix.Run 16 (view (new : AkashicVfs 2 1).ensureInitialized)
      (exchanges ++ [⟨_, .read sampleOwner sampleToken 4, .ok [0x61, 0x62]⟩])
        (view v'.ensureInitialized) := by
  have hans : (vfsExec 16 _ (FileCall.read sampleOwner sampleToken 4).toVfs sampleRewound).1 =
      .ok [0x61, 0x62] := by decide +kernel
  have hread : ProperRun 16 sampleRewound [⟨_, .read sampleOwner sampleToken 4, .ok [0x61, 0x62]⟩]
      (vfsExec 16 _ (FileCall.read sampleOwner sampleToken 4).toVfs sampleRewound).2 := by
    rw [← hans]
    exact .cons (.read sampleOwner sampleToken 4) (by unfold Proper; decide +kernel) (.nil _)
  have hseek :
      ProperRun 16 sampleWritten (⟨_, .seek sampleOwner sampleToken 0 fromStart, _⟩ :: _) _ :=
    .cons (.seek sampleOwner sampleToken 0 fromStart) trivial hread
  have hwrite :
      ProperRun 16 sampleOpened.2 (⟨_, .write sampleOwner sampleToken [0x61, 0x62] 11, _⟩ :: _) _ :=
    .cons (.write sampleOwner sampleToken [0x61, 0x62] 11) (nofun) hseek
  have hopen : ProperRun 16 new (⟨_, .openPath sampleOwner samplePath _ 10, _⟩ :: _) _ :=
    .cons (.openPath sampleOwner samplePath (readIntent ||| writeIntent ||| createIntent) 10)
      (fun htrunc => absurd (by decide) htrunc) hwrite
  exact ⟨[_, _, _], _, vfs_contents_refine (.inl rfl) hopen⟩

/-- The cursor of a new file is moved past its end. -/
def samplePastEnd : AkashicVfs 2 1 :=
  (vfsExec 16 _ (.seek sampleOwner sampleToken 5 fromStart) sampleOpened.2).2

theorem reached_samplePastEnd : Reached 16 samplePastEnd :=
  .next (.first (.openPath sampleOwner samplePath (readIntent ||| writeIntent ||| createIntent) 10))
    _

/-- A read past the end is refused, and a write of nothing there extends the file. -/
theorem vfs_past_end_differs : ∃ v : AkashicVfs 2 1, Reached 16 v ∧
      ¬Posix.Step 16 (view v) (.read sampleOwner sampleToken 1) (v.read sampleOwner sampleToken 1).1
        (view (v.read sampleOwner sampleToken 1).2) ∧
      ¬Posix.Step 16 (view v) (.write sampleOwner sampleToken [] 12)
        (v.write 16 sampleOwner sampleToken [] 12).1
          (view (v.write 16 sampleOwner sampleToken [] 12).2) := by
  refine ⟨samplePastEnd, reached_samplePastEnd, fun hread => ?_, fun hwrite => ?_⟩
  · have hans : (samplePastEnd.read sampleOwner sampleToken 1).1 = .error .invalidSeek := by
      decide +kernel
    have hsome : ((view samplePastEnd).read sampleOwner sampleToken 1).isSome := by decide +kernel
    rw [hans] at hread
    simp [hread.1] at hsome
  · have hans :
      (samplePastEnd.write 16 sampleOwner sampleToken [] 12).1 = .ok 0 := by decide +kernel
    have hspec :
        ((view samplePastEnd).write 16 sampleOwner sampleToken []).map (fun x => x.2.files 1) =
        some (some []) := by decide +kernel
    have hbytes : (view (samplePastEnd.write 16 sampleOwner sampleToken [] 12).2).files 1 =
        some [0, 0, 0, 0, 0] := by decide +kernel
    rw [hans] at hwrite
    have hret : (view samplePastEnd).write 16 sampleOwner sampleToken [] = some (0, _) := hwrite
    rw [hret, Option.map_some, hbytes] at hspec
    exact absurd hspec (by decide)

end ArachKernel.AkashicVfs
