import ArachKernel.Vfs.Rename

/-!
Runs of the file system: all its operations in any order, with any arguments and whatever
they answer, from the empty tables on. After the first call the root is there.
-/

namespace ArachKernel.AkashicVfs

open Table

variable {nodeCount handleCount : ℕ} [NeZero nodeCount] {v : AkashicVfs nodeCount handleCount}

inductive VfsCall : Type → Type
  | openPath (owner : ProcessHandle) (path : List UInt8) (openFlags : Flags) (now : ℕ) :
      VfsCall (Except VfsError Token)
  | close (owner : ProcessHandle) (token : Token) : VfsCall (Except VfsError Unit)
  | closeAll (owner : ProcessHandle) : VfsCall ℕ
  | read (owner : ProcessHandle) (token : Token) (size : ℕ) : VfsCall (Except VfsError (List UInt8))
  | readHandleRangeSnapshot (owner : ProcessHandle) (token : Token) (offset size : ℕ) :
      VfsCall (Except VfsError FileRangeSnapshot)
  | write (owner : ProcessHandle) (token : Token) (input : List UInt8) (now : ℕ) :
      VfsCall (Except VfsError ℕ)
  | seek (owner : ProcessHandle) (token : Token) (offset : ℤ) (whence : ℕ) :
      VfsCall (Except VfsError ℕ)
  | stat (path : List UInt8) : VfsCall (Except VfsError Stat)
  | statHandle (owner : ProcessHandle) (token : Token) : VfsCall (Except VfsError Stat)
  | mkdir (path : List UInt8) (now : ℕ) : VfsCall (Except VfsError Unit)
  | seedFile (owner : ProcessHandle) (path contents : List UInt8) (now : ℕ) :
      VfsCall (Except VfsError Unit)
  | unlink (path : List UInt8) : VfsCall (Except VfsError Unit)
  | rename (old new : List UInt8) (now : ℕ) : VfsCall (Except VfsError Unit)
  | readdir (owner : ProcessHandle) (token : Token) : VfsCall (Except VfsError (Option Dirent))

/-- `fileBytes` is the size of the content buffer of a node. -/
def vfsExec (fileBytes : ℕ) : Handler VfsCall (AkashicVfs nodeCount handleCount)
  | _, .openPath owner path openFlags now, v => v.openPath owner path openFlags now
  | _, .close owner token, v => v.close owner token
  | _, .closeAll owner, v => v.closeAll owner
  | _, .read owner token size, v => v.read owner token size
  | _, .readHandleRangeSnapshot owner token offset size, v =>
    v.readHandleRangeSnapshot owner token offset size
  | _, .write owner token input now, v => v.write fileBytes owner token input now
  | _, .seek owner token offset whence, v => v.seek fileBytes owner token offset whence
  | _, .stat path, v => v.stat path
  | _, .statHandle owner token, v => v.statHandle owner token
  | _, .mkdir path now, v => v.mkdir path now
  | _, .seedFile owner path contents now, v => v.seedFile fileBytes owner path contents now
  | _, .unlink path, v => v.unlink path
  | _, .rename old new now, v => v.rename old new now
  | _, .readdir owner token, v => v.readdir owner token

/-- The state after one or more calls. -/
inductive Reached (fileBytes : ℕ) : AkashicVfs nodeCount handleCount → Prop
  | first {α : Type} (c : VfsCall α) : Reached fileBytes (vfsExec fileBytes _ c AkashicVfs.new).2
  | next {v : AkashicVfs nodeCount handleCount} (h : Reached fileBytes v) {α : Type}
      (c : VfsCall α) :
      Reached fileBytes (vfsExec fileBytes _ c v).2

theorem tree_new : Tree (new : AkashicVfs nodeCount handleCount).ensureInitialized := by
  have hnode : ∀ {i : Fin nodeCount},
      ((new : AkashicVfs nodeCount handleCount).ensureInitialized.nodes i).used →
      i = 0 ∧ (new : AkashicVfs nodeCount handleCount).ensureInitialized.nodes i = .root := by
    intro i hi
    by_cases hzero : i = 0
    · exact ⟨hzero, by rw [hzero]; simp [ensureInitialized, new]⟩
    · simp [ensureInitialized, new, hzero, Node.empty] at hi
  refine ⟨rfl, ⟨0, ?_, ?_, ?_⟩, fun i hi => ?_, fun i j hi hj _ => ?_, fun i hi hroot => ?_,
    fun i => ?_, fun k hk => ?_, fun k hk => ?_, fun k l hk => ?_⟩
  · simp [ensureInitialized, new, Node.root]
  · simp [ensureInitialized, new, Node.root, rootPath, slash]
  · simp [ensureInitialized, new, Node.root]
  · rw [(hnode hi).2]
    exact valid_rootPath
  · rw [(hnode hi).1, (hnode hj).1]
  · rw [(hnode hi).2] at hroot
    exact absurd rfl hroot
  · have hcnt :
      ((new : AkashicVfs nodeCount handleCount).ensureInitialized.nodes i).openCount = 0 := by
      by_cases hzero : i = 0
      · rw [hzero]
        simp [ensureInitialized, new, Node.root, Node.empty]
      · simp [ensureInitialized, new, hzero, Node.empty]
    rw [hcnt]
    symm
    apply total_zero
    intro k
    apply if_neg
    rintro ⟨hk, _⟩
    cases hk
  · cases hk
  · cases hk
  · cases hk

theorem Tree.vfsExec (fileBytes : ℕ) (h : Tree v.ensureInitialized) {α : Type} (c : VfsCall α) :
    Tree (vfsExec fileBytes _ c v).2 := by
  cases c with
  | openPath owner path openFlags now => exact h.openPath owner path openFlags now
  | close owner token => exact h.close owner token
  | closeAll owner => exact h.closeAll owner
  | read owner token size => exact h.read owner token size
  | readHandleRangeSnapshot owner token offset size =>
    exact h.readHandleRangeSnapshot owner token offset size
  | write owner token input now => exact h.write fileBytes owner token input now
  | seek owner token offset whence => exact h.seek fileBytes owner token offset whence
  | stat path => exact h.stat path
  | statHandle owner token => exact h.statHandle owner token
  | mkdir path now => exact h.mkdir path now
  | seedFile owner path contents now => exact h.seedFile fileBytes owner path contents now
  | unlink path => exact h.unlink path
  | rename old new now => exact h.rename old new now
  | readdir owner token => exact h.readdir owner token

theorem Reached.tree {fileBytes : ℕ} (h : Reached fileBytes v) : Tree v := by
  induction h with
  | first c => exact tree_new.vfsExec fileBytes c
  | next _ c ih => exact Tree.vfsExec fileBytes (ih.ensure.symm ▸ ih) c

/-- After any calls the used nodes form a tree with distinct valid paths, a node counts the
open handles on it, and open handles have distinct capabilities on used nodes. -/
theorem vfs_namespace_tree {fileBytes : ℕ} (h : Reached fileBytes v) :
    (∃ i, (v.nodes i).used ∧ (v.nodes i).path = rootPath ∧ (v.nodes i).kind = .directory) ∧
    (∀ i, (v.nodes i).used → validatePath (v.nodes i).path = .ok ()) ∧
    (∀ i j, (v.nodes i).used → (v.nodes j).used → (v.nodes i).path = (v.nodes j).path → i = j) ∧
    (∀ i, (v.nodes i).used → (v.nodes i).path ≠ rootPath →
      ∃ j, parentPath (v.nodes i).path = some (v.nodes j).path ∧ (v.nodes j).used ∧
        (v.nodes j).kind = .directory) ∧
    (∀ i, (v.nodes i).openCount =
      (Finset.univ.filter fun k => (v.handles k).used ∧ (v.handles k).node = i).card) ∧
    (∀ k, (v.handles k).used → (v.nodes (v.handles k).node).used) ∧
    (∀ k, (v.handles k).used → (v.handles k).token ≠ 0) ∧
    ∀ k l, (v.handles k).used → (v.handles l).used →
      (v.handles k).token = (v.handles l).token → k = l := by
  have htree := h.tree
  refine ⟨htree.root, fun i hi => validatePath_eq_ok.mpr (htree.valid i hi), htree.distinct,
    fun i hi hroot => ?_, fun i => ?_, htree.attached, htree.tokens, htree.unique⟩
  · obtain ⟨path, hpath, j, hj, rfl, hkind⟩ := htree.parent i hi hroot
    exact ⟨j, hpath, hj, hkind⟩
  · rw [htree.counts, openHandles, total, Finset.card_filter]

/-- A directory that is made and renamed. -/
def renamedSample : AkashicVfs 3 2 :=
  (vfsExec 16 _ (.rename [0x2f, 0x61] [0x2f, 0x62] 2)
    (vfsExec 16 _ (.mkdir [0x2f, 0x61] 1) new).2).2

theorem reached_renamedSample : Reached 16 renamedSample := .next (.first _) _

theorem vfs_namespace_tree_renamed : (renamedSample.nodes 1).path = [0x2f, 0x62] ∧
      ∃ j, parentPath (renamedSample.nodes 1).path = some (renamedSample.nodes j).path ∧
        (renamedSample.nodes j).used ∧ (renamedSample.nodes j).kind = .directory := by
  have hused : (renamedSample.nodes 1).used := by decide +kernel
  have hpath : (renamedSample.nodes 1).path = [0x2f, 0x62] := by decide +kernel
  refine ⟨hpath, (vfs_namespace_tree reached_renamedSample).2.2.2.1 1 hused ?_⟩
  decide

end ArachKernel.AkashicVfs
