import ArachKernel.Vfs.Posix

/-!
The file system does what its specification says. The view of a state has the names and bytes
of its nodes and the cursors of its open handles; each call on the tables is a call on the view,
as long as no read is made past the end of a file and no write of nothing away from it.
-/

namespace ArachKernel

def Node.bytes (node : Node) : List UInt8 := ByteFile.bufferBytes node.content node.contentLen

/-- The bytes of a regular file. -/
def Node.file (node : Node) : Option (List UInt8) :=
  if node.used = true ∧ node.kind = .file then some node.bytes else none

def OpenHandle.describe {nodeCount : ℕ} (handle : OpenHandle nodeCount) :
    AkashicVfs.Description (Fin nodeCount) where
  owner := handle.owner
  file := handle.node
  cursor := handle.cursor
  openFlags := handle.openFlags

namespace AkashicVfs

open Table ByteFile Function

variable {nodeCount handleCount : ℕ} {v v' : AkashicVfs nodeCount handleCount}
  {path : List UInt8} {token : Token} {owner : ProcessHandle}

def slotOf (token : Token) (v : AkashicVfs nodeCount handleCount) : Option (Fin handleCount) :=
  position fun k => (v.handles k).used && (v.handles k).token == token

def view (v : AkashicVfs nodeCount handleCount) : Posix (Fin nodeCount) where
  names path := v.findNode path
  files i := (v.nodes i).file
  handles token := (slotOf token v).map fun k => (v.handles k).describe

/-! ### Reading the view -/

variable {k : Fin handleCount}

theorem slotOf_eq_some (h : Tree v) :
    slotOf token v = some k ↔ (v.handles k).used ∧ (v.handles k).token = token := by
  constructor
  · intro hslot
    have hmat := position_some hslot
    rwa [Bool.and_eq_true, beq_iff_eq] at hmat
  · rintro ⟨hused, rfl⟩
    apply position_unique
    · simp [hused]
    · intro l hl
      rw [Bool.and_eq_true, beq_iff_eq] at hl
      exact h.unique l k hl.1 hused hl.2

variable {i : Fin nodeCount}

theorem findNode_eq_some (h : Tree v) :
    v.findNode path = some i ↔ (v.nodes i).used ∧ (v.nodes i).path = path := by
  constructor
  · exact findNode_some
  · rintro ⟨hused, rfl⟩
    apply position_unique
    · simp [hused]
    · intro j hj
      rw [Bool.and_eq_true, beq_iff_eq] at hj
      exact h.distinct j i hj.1 hused hj.2

theorem view_handle_of_ok (h : Tree v) (hk : v.findHandle owner token = .ok k) :
    (view v).handle owner token = some (v.handles k).describe ∧ (v.handles k).used ∧
      (v.handles k).token = token := by
  obtain ⟨hused, htok, hown⟩ := findHandle_ok hk
  have hval : ¬(owner.pid = 0 ∨ owner.generation = 0) := by
    intro hbad
    simp [findHandle, validateOwner, hbad] at hk
  have hslot : slotOf token v = some k := (slotOf_eq_some h).mpr ⟨hused, htok⟩
  refine ⟨?_, hused, htok⟩
  simp [Posix.handle, hval, view, hslot, OpenHandle.describe, hown]

theorem view_handle_of_error (h : Tree v) {e : VfsError}
    (he : v.findHandle owner token = .error e) : (view v).handle owner token = none := by
  unfold findHandle at he
  split at he
  next hinval =>
    unfold validateOwner at hinval
    split at hinval
    next hbad => exact if_pos hbad
    · cases hinval
  unfold Posix.handle
  split
  · rfl
  have hmismatch : ∀ k, slotOf token v = some k → (v.handles k).owner ≠ owner := by
    intro k hk hown
    obtain ⟨hused, htok⟩ := (slotOf_eq_some h).mp hk
    split at he
    next hzero => exact h.tokens k hused (htok.trans hzero)
    split at he
    next hnone =>
      simpa [hused, htok, hown] using position_none.mp hnone k
    · cases he
  rw [view]
  dsimp only
  cases hslot : slotOf token v with
  | none => rfl
  | some k => simp [OpenHandle.describe, hmismatch k hslot]

/-! ### Changing the view -/

theorem view_setCursor (h : Tree v) (hused : (v.handles k).used) (cursor : ℕ) :
    view (v.setCursor k cursor) = (view v).setHandle (v.handles k).token
      (some { (v.handles k).describe with cursor }) := by
  have hslots : ∀ token, slotOf token (v.setCursor k cursor) = slotOf token v := by
    intro token
    unfold slotOf
    congr 1
    funext l
    by_cases hl : l = k
    · subst hl
      simp [setCursor]
    · simp [setCursor, hl]
  unfold view Posix.setHandle
  dsimp only
  congr 1
  funext token
  rw [hslots, update_apply]
  split
  next htok =>
    rw [(slotOf_eq_some h).mpr ⟨hused, htok.symm⟩]
    simp [setCursor, OpenHandle.describe]
  next htok =>
  cases hslot : slotOf token v with
  | none => rfl
  | some l =>
    have hl : l ≠ k := by
      rintro rfl
      exact htok ((slotOf_eq_some h).mp hslot).2.symm
    simp [setCursor, hl]

variable {node : Node}

theorem view_setNode (hused : node.used = (v.nodes i).used) (hpath : node.path = (v.nodes i).path) :
    view (v.setNode i node) = { view v with files := update (view v).files i node.file } := by
  have hnames : ∀ path, (v.setNode i node).findNode path = v.findNode path := by
    intro path
    unfold findNode
    congr 1
    funext j
    by_cases hj : j = i
    · subst hj
      simp [hused, hpath]
    · simp [hj]
  have hfiles :
      (fun j => ((v.setNode i node).nodes j).file) = update (view v).files i node.file := by
    funext j
    by_cases hj : j = i
    · subst hj
      simp
    · simp [hj, view]
  unfold view
  congr 1
  funext path
  exact hnames path

/-! ### Calls on the view -/

def FileCall.toVfs {α : Type} : FileCall α → VfsCall α
  | .openPath owner path openFlags now => .openPath owner path openFlags now
  | .read owner token size => .read owner token size
  | .write owner token input now => .write owner token input now
  | .seek owner token offset whence => .seek owner token offset whence
  | .close owner token => .close owner token

/-- The cursor of a handle on a file, for an append handle the end, is where a write of
nothing leaves the file as it is. -/
def AtRest (v : AkashicVfs nodeCount handleCount) (handle : OpenHandle nodeCount) : Prop :=
  if handle.openFlags &&& appendOnly ≠ 0 then handle.cursor = (v.nodes handle.node).contentLen
  else handle.cursor ≤ (v.nodes handle.node).contentLen

/-- The calls that the specification covers: a read not past the end of a file, a write of
nothing only where it changes nothing, and a truncating open only while handles are left. -/
def Proper (v : AkashicVfs nodeCount handleCount) {α : Type} : FileCall α → Prop
  | .openPath _ path openFlags _ => openFlags &&& truncate ≠ 0 → ∀ i, v.findNode path = some i →
      (v.nodes i).openCount < u16Max
  | .read owner token _ => ∀ k, v.findHandle owner token = .ok k →
      (v.nodes (v.handles k).node).kind = .file →
      (v.handles k).cursor ≤ (v.nodes (v.handles k).node).contentLen
  | .write owner token input _ => input = [] → ∀ k, v.findHandle owner token = .ok k →
      (v.nodes (v.handles k).node).kind = .file → AtRest v (v.handles k)
  | .seek _ _ _ _ => True
  | .close _ _ => True

theorem file_eq_none (h : (v.nodes i).kind ≠ .file) : (view v).files i = none :=
  if_neg fun hfile => h hfile.2

theorem file_eq_some (hused : (v.nodes i).used) (h : (v.nodes i).kind = .file) :
    (view v).files i = some (v.nodes i).bytes := if_pos ⟨hused, h⟩

@[simp] theorem length_bytes (node : Node) : node.bytes.length = node.contentLen :=
  length_bufferBytes ..

theorem range_eq_readAt {cursor : ℕ} (h : cursor ≤ node.contentLen) (size : ℕ) :
    node.range cursor (min size (node.contentLen - cursor)) = readAt node.bytes cursor size :=
  (readAt_bufferBytes h size).symm

theorem names_same (hsame : SameNames v v') : (view v').names = (view v).names := by
  funext path
  change position _ = position _
  congr 1
  funext i
  rw [hsame.used, hsame.path]

/-- Another count does not change a file. -/
theorem files_rehandle (slot : Fin handleCount) (handle : OpenHandle nodeCount) (i : Fin nodeCount)
    (openCount : ℕ) : (view (v.rehandle slot handle i openCount)).files = (view v).files := by
  funext j
  by_cases hj : j = i
  · subst hj
    simp [view, rehandle, Node.file, Node.bytes]
  · simp [view, rehandle, hj]

theorem view_handles_eq (h : Tree v) {d : Description (Fin nodeCount)} :
    (view v).handles token = some d ↔
      ∃ k, ((v.handles k).used ∧ (v.handles k).token = token) ∧ (v.handles k).describe = d := by
  simp [view, slotOf_eq_some h]

/-- Opening a handle adds it to the view. -/
theorem view_openHandle (h : Tree v) {slot : Fin handleCount}
    (hslot : (v.handles slot).used = false)
    {handle : OpenHandle nodeCount} (hused : handle.used) {openCount : ℕ}
    (hopen : Tree (v.rehandle slot handle i openCount)) :
    view (v.rehandle slot handle i openCount) = (view v).setHandle handle.token
      (some handle.describe) := by
  refine Posix.ext (names_same (sameNames_rehandle ..)) (files_rehandle ..) ?_
  funext token
  apply Option.ext
  intro d
  rw [view_handles_eq hopen, Posix.setHandle_apply]
  constructor
  · rintro ⟨l, ⟨hl, rfl⟩, rfl⟩
    by_cases hls : l = slot
    · subst hls
      rw [rehandle_handles, if_pos rfl, if_pos rfl]
    have hnew : ((v.rehandle slot handle i openCount).handles slot) = handle := by
      rw [rehandle_handles, if_pos rfl]
    have hne : ((v.rehandle slot handle i openCount).handles l).token ≠ handle.token := by
      intro htok
      refine hls (hopen.unique l slot hl (by rw [hnew, hused]) ?_)
      rw [hnew, htok]
    rw [if_neg hne]
    rw [rehandle_handles, if_neg hls] at hl ⊢
    exact (view_handles_eq h).mpr ⟨l, ⟨hl, rfl⟩, rfl⟩
  · intro hd
    split at hd
    next heq =>
      refine ⟨slot, ?_⟩
      rw [rehandle_handles, if_pos rfl]
      exact ⟨⟨hused, heq.symm⟩, Option.some.inj hd⟩
    obtain ⟨l, ⟨hl, rfl⟩, rfl⟩ := (view_handles_eq h).mp hd
    have hls : l ≠ slot := by
      rintro rfl
      exact Bool.noConfusion (hslot.symm.trans hl)
    refine ⟨l, ?_⟩
    rw [rehandle_handles, if_neg hls]
    exact ⟨⟨hl, rfl⟩, rfl⟩

variable [NeZero nodeCount]

theorem read_step (h : Tree v.ensureInitialized) {size : ℕ}
    (hprop : Proper v.ensureInitialized (.read owner token size)) :
    Answers (view v.ensureInitialized) ((view v.ensureInitialized).read owner token size)
      (v.read owner token size).1 (view (v.read owner token size).2) := by
  unfold AkashicVfs.read
  dsimp only
  generalize v.ensureInitialized = v at h hprop ⊢
  split
  next he => exact ⟨by rw [Posix.read, view_handle_of_error h he], rfl⟩
  next k hk =>
  obtain ⟨hhd, hused, htok⟩ := view_handle_of_ok h hk
  unfold Posix.read
  rw [hhd]
  dsimp only [OpenHandle.describe]
  split
  · exact ⟨rfl, rfl⟩
  by_cases hkind : (v.nodes (v.handles k).node).kind = .file
  · have hcurs := hprop k hk hkind
    rw [if_neg (not_not.mpr hkind), if_neg (not_lt.mpr hcurs),
      file_eq_some (h.attached k hused) hkind]
    dsimp only [Answers]
    have hlen : (readAt (v.nodes (v.handles k).node).bytes (v.handles k).cursor size).length =
        min size ((v.nodes (v.handles k).node).contentLen - (v.handles k).cursor) := by
      rw [readAt, List.length_take, List.length_drop, length_bytes]
    rw [range_eq_readAt hcurs, view_setCursor h hused, htok, hlen]
    rfl
  · rw [if_pos hkind, file_eq_none hkind]
    exact ⟨rfl, rfl⟩

theorem seek_step (h : Tree v.ensureInitialized) {fileBytes whence : ℕ} {offset : ℤ} :
    Answers (view v.ensureInitialized)
      ((view v.ensureInitialized).seek fileBytes owner token offset whence)
      (v.seek fileBytes owner token offset whence).1
        (view (v.seek fileBytes owner token offset whence).2) := by
  unfold AkashicVfs.seek
  dsimp only
  generalize v.ensureInitialized = v at h ⊢
  split
  next he => exact ⟨by rw [Posix.seek, view_handle_of_error h he], rfl⟩
  next k hk =>
  obtain ⟨hhd, hused, htok⟩ := view_handle_of_ok h hk
  unfold Posix.seek
  rw [hhd]
  dsimp only [OpenHandle.describe]
  by_cases hkind : (v.nodes (v.handles k).node).kind = .file
  · rw [if_neg (not_not.mpr hkind), file_eq_some (h.attached k hused) hkind]
    dsimp only
    rw [length_bytes]
    cases seekBase whence (v.handles k).cursor (v.nodes (v.handles k).node).contentLen with
    | none => exact ⟨rfl, rfl⟩
    | some =>
      dsimp only
      split
      · exact ⟨rfl, rfl⟩
      · rw [view_setCursor h hused, htok]
        rfl
  · rw [if_pos hkind, file_eq_none hkind]
    exact ⟨rfl, rfl⟩

/-- Closing a handle takes it out of the view. -/
theorem view_closeIndex (h : Tree v) (hused : (v.handles k).used) :
    view (v.closeIndex k) = (view v).setHandle (v.handles k).token none := by
  have hclosed := h.closeIndex k
  have heq : v.closeIndex k = v.rehandle k .empty (v.handles k).node
      ((v.nodes (v.handles k).node).openCount - 1) := if_pos hused
  rw [heq] at hclosed ⊢
  refine Posix.ext (names_same (sameNames_rehandle ..)) (files_rehandle ..) ?_
  funext token
  apply Option.ext
  intro d
  rw [view_handles_eq hclosed, Posix.setHandle_apply]
  constructor
  · rintro ⟨l, ⟨hl, rfl⟩, rfl⟩
    rw [rehandle_handles] at hl ⊢
    split at hl
    · cases hl
    next hne =>
      rw [if_neg hne, if_neg fun htok => hne (h.unique l k hl hused htok)]
      exact (view_handles_eq h).mpr ⟨l, ⟨hl, rfl⟩, rfl⟩
  · intro hd
    split at hd
    · cases hd
    next hne =>
    obtain ⟨l, ⟨hl, rfl⟩, rfl⟩ := (view_handles_eq h).mp hd
    have hlk : l ≠ k := fun hlk => hne (by rw [hlk])
    refine ⟨l, ?_⟩
    rw [rehandle_handles, if_neg hlk]
    exact ⟨⟨hl, rfl⟩, rfl⟩

theorem close_step (h : Tree v.ensureInitialized) :
    Answers (view v.ensureInitialized) ((view v.ensureInitialized).close owner token)
      (v.close owner token).1 (view (v.close owner token).2) := by
  unfold AkashicVfs.close
  dsimp only
  split
  next he => exact ⟨by rw [Posix.close, view_handle_of_error h he], rfl⟩
  next hk =>
  obtain ⟨hhd, hused, htok⟩ := view_handle_of_ok h hk
  unfold Posix.close
  rw [hhd]
  dsimp only [Answers]
  rw [view_closeIndex h hused, htok]

theorem write_step (h : Tree v.ensureInitialized) {fileBytes now : ℕ} {input : List UInt8}
    (hprop : Proper v.ensureInitialized (.write owner token input now)) :
    Answers (view v.ensureInitialized)
      ((view v.ensureInitialized).write fileBytes owner token input)
      (v.write fileBytes owner token input now).1
        (view (v.write fileBytes owner token input now).2) := by
  unfold AkashicVfs.write
  dsimp only
  generalize v.ensureInitialized = v at h hprop ⊢
  split
  next he => exact ⟨by rw [Posix.write, view_handle_of_error h he], rfl⟩
  next k hk =>
  obtain ⟨hhd, hused, htok⟩ := view_handle_of_ok h hk
  unfold Posix.write
  rw [hhd]
  dsimp only [OpenHandle.describe]
  split
  · exact ⟨rfl, rfl⟩
  by_cases hkind : (v.nodes (v.handles k).node).kind = .file
  · have hfile := file_eq_some (h.attached k hused) hkind
    rw [if_neg (not_not.mpr hkind), hfile]
    dsimp only
    rw [length_bytes]
    generalize hoff : (if (v.handles k).openFlags &&& appendOnly ≠ 0 then
      (v.nodes (v.handles k).node).contentLen else (v.handles k).cursor) = offset
    split
    · exact ⟨rfl, rfl⟩
    -- the state after the write, in terms of the view
    have hrest : input = [] → offset ≤ (v.nodes (v.handles k).node).contentLen ∧
        offset = (v.handles k).cursor := by
      intro hinput
      have hatRest := hprop hinput k hk hkind
      rw [← hoff]
      unfold AtRest at hatRest
      split at hatRest
      next happ => exact ⟨by rw [if_pos happ], by rw [if_pos happ, hatRest]⟩
      next happ => exact ⟨by rwa [if_neg happ], by rw [if_neg happ]⟩
    have hbytes : ((v.nodes (v.handles k).node).written offset input now).bytes =
        writeAt 0 (v.nodes (v.handles k).node).bytes offset input := by
      refine (writeAt_bufferBytes 0 ?_).symm
      by_cases hinput : input = []
      · exact .inr (hrest hinput).1
      · exact .inl hinput
    have hwritten := h.written (v.handles k).node offset input now
    have hview : view ((v.setNode (v.handles k).node
        ((v.nodes (v.handles k).node).written offset input now)).setCursor k
        (offset + input.length)) = ((view v).setFile (v.handles k).node
          (writeAt 0 (v.nodes (v.handles k).node).bytes offset input)).setHandle token
          (some { (v.handles k).describe with cursor := offset + input.length }) := by
      have hfileAfter : ((v.nodes (v.handles k).node).written offset input now).file =
          some (writeAt 0 (v.nodes (v.handles k).node).bytes offset input) := by
        rw [← hbytes]
        exact if_pos ⟨h.attached k hused, hkind⟩
      have hnode : view (v.setNode (v.handles k).node
          ((v.nodes (v.handles k).node).written offset input now)) = _ := view_setNode rfl rfl
      rw [view_setCursor hwritten hused, hnode, hfileAfter, ← htok]
      rfl
    rw [hview]
    split
    next hinput =>
      obtain ⟨_, hcurs⟩ := hrest hinput
      subst hinput
      have hsame :
          (some { (v.handles k).describe with cursor := offset + ([] : List UInt8).length }) =
          (view v).handles token := by
        rw [List.length_nil, Nat.add_zero, hcurs]
        exact ((view_handles_eq h).mpr ⟨k, ⟨hused, htok⟩, rfl⟩).symm
      rw [writeAt, if_pos rfl, Posix.setFile_self hfile, Posix.setHandle_self hsame.symm]
      rfl
    · rfl
  · rw [if_pos hkind, file_eq_none hkind]
    exact ⟨rfl, rfl⟩

end AkashicVfs

end ArachKernel
