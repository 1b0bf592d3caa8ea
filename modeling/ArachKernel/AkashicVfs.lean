import ArachKernel.Lib.Prog
import ArachKernel.Lib.Table
import ArachKernel.Process.Lifecycle

/-!
The in-memory file system (`akashic_vfs.rs`): a table of nodes named by absolute
paths, and a table of open handles. A handle is a capability token that only its
owner can use; it points to a node and carries the cursor.

The first call of every operation puts the root node in place, also when the
operation then fails.
-/

namespace ArachKernel

abbrev maximumPathBytes : ℕ := 255

/-- The open intents of the file system. -/
def readIntent : Flags := 1 <<< 0
def writeIntent : Flags := 1 <<< 1
def createIntent : Flags := 1 <<< 2
def exclusive : Flags := 1 <<< 3
def truncate : Flags := 1 <<< 4
def appendOnly : Flags := 1 <<< 5
def ephemeral : Flags := 1 <<< 6
def hologram : Flags := 1 <<< 7
def knownIntents : Flags :=
  readIntent ||| writeIntent ||| createIntent ||| exclusive ||| truncate ||| appendOnly |||
    ephemeral ||| hologram

/-- The origins of a seek. -/
def fromStart : ℕ := 0
def fromCurrent : ℕ := 1
def fromEnd : ℕ := 2

inductive NodeKind
  | file
  | directory
  deriving DecidableEq

structure Stat where
  sizeBytes : ℕ
  createdTicks : ℕ
  modifiedTicks : ℕ
  flags : Flags
  kind : NodeKind
  deriving DecidableEq

/-- A range of a file, with the identity and length of the file. -/
structure FileRangeSnapshot where
  inodeId : ℕ
  fileBytes : ℕ
  bytes : List UInt8
  deriving DecidableEq

structure Dirent where
  name : List UInt8
  kind : NodeKind
  deriving DecidableEq

inductive VfsError
  | notFound
  | alreadyExists
  | permissionDenied
  | notDirectory
  | notFile
  | directoryNotEmpty
  | invalidPath
  | invalidHandle
  | capacity
  | fileTooLarge
  | busy
  | unsupported
  | invalidSeek
  deriving DecidableEq

/-- Capability tokens: 64-bit words. -/
abbrev Token := BitVec 64

structure Node where
  used : Bool
  kind : NodeKind
  path : List UInt8
  content : ℕ → UInt8
  contentLen : ℕ
  flags : Flags
  createdTicks : ℕ
  modifiedTicks : ℕ
  openCount : ℕ

namespace Node

def empty : Node where
  used := false
  kind := .file
  path := []
  content := fun _ => 0
  contentLen := 0
  flags := 0
  createdTicks := 0
  modifiedTicks := 0
  openCount := 0

def root : Node :=
  { empty with used := true, kind := .directory, path := [0x2f], flags := ephemeral }

/-- A new node of either kind. -/
def fresh (kind : NodeKind) (path : List UInt8) (now : ℕ) : Node :=
  { empty with used := true, kind, path, flags := ephemeral, createdTicks := now
               modifiedTicks := now }

def stat (node : Node) : Stat where
  sizeBytes := node.contentLen
  createdTicks := node.createdTicks
  modifiedTicks := node.modifiedTicks
  flags := node.flags
  kind := node.kind

/-- `count` bytes of the content from `offset` on. -/
def range (node : Node) (offset count : ℕ) : List UInt8 :=
  (List.range count).map fun i => node.content (offset + i)

def truncated (node : Node) (now : ℕ) : Node :=
  { node with
    content := fun i => if i < node.contentLen then 0 else node.content i
    contentLen := 0
    modifiedTicks := now }

/-- Overwrite from `offset` on; a gap beyond the old end reads as zeros. -/
def written (node : Node) (offset : ℕ) (input : List UInt8) (now : ℕ) : Node :=
  { node with
    content := fun i =>
      if offset ≤ i ∧ i < offset + input.length then input.getD (i - offset) 0
      else if node.contentLen ≤ i ∧ i < offset then 0
      else node.content i
    contentLen := max node.contentLen (offset + input.length)
    modifiedTicks := now }

end Node

structure OpenHandle (nodeCount : ℕ) where
  used : Bool
  token : Token
  owner : ProcessHandle
  node : Fin nodeCount
  cursor : ℕ
  openFlags : Flags

def OpenHandle.empty {nodeCount : ℕ} [NeZero nodeCount] : OpenHandle nodeCount where
  used := false
  token := 0
  owner := .empty
  node := 0
  cursor := 0
  openFlags := 0

structure AkashicVfs (nodeCount handleCount : ℕ) where
  nodes : Fin nodeCount → Node
  handles : Fin handleCount → OpenHandle nodeCount
  initialized : Bool
  nextCapability : Token

namespace AkashicVfs

open Table

/-! ### Paths -/

def slash : UInt8 := 0x2f

def rootPath : List UInt8 := [slash]

/-- The ranges of the continuation bytes that a leading byte of UTF-8 asks for. -/
def utf8Tail (lead : UInt8) : Option (List (UInt8 × UInt8)) :=
  if lead ≤ 0x7f then some []
  else if 0xc2 ≤ lead ∧ lead ≤ 0xdf then some [(0x80, 0xbf)]
  else if lead = 0xe0 then some [(0xa0, 0xbf), (0x80, 0xbf)]
  else if lead = 0xed then some [(0x80, 0x9f), (0x80, 0xbf)]
  else if 0xe1 ≤ lead ∧ lead ≤ 0xef then some [(0x80, 0xbf), (0x80, 0xbf)]
  else if lead = 0xf0 then some [(0x90, 0xbf), (0x80, 0xbf), (0x80, 0xbf)]
  else if 0xf1 ≤ lead ∧ lead ≤ 0xf3 then some [(0x80, 0xbf), (0x80, 0xbf), (0x80, 0xbf)]
  else if lead = 0xf4 then some [(0x80, 0x8f), (0x80, 0xbf), (0x80, 0xbf)]
  else none

/-- The rest of a text, given the continuation bytes that are still due. -/
def utf8From : List (UInt8 × UInt8) → List UInt8 → Bool
  | [], [] => true
  | _ :: _, [] => false
  | (low, high) :: due, byte :: bytes => decide (low ≤ byte ∧ byte ≤ high) && utf8From due bytes
  | [], byte :: bytes =>
    match utf8Tail byte with
    | none => false
    | some due => utf8From due bytes

def isUtf8 (text : List UInt8) : Bool := utf8From [] text

variable (path : List UInt8)

def validatePath : Except VfsError Unit :=
  if path.isEmpty ∨ path.length > maximumPathBytes ∨ path.head? ≠ some slash ∨ 0 ∈ path ∨
      !isUtf8 path then .error .invalidPath
  else if path = rootPath then .ok ()
  else if path.getLast? = some slash then .error .invalidPath
  else if (path.tail.splitOn slash).any
      (fun component => component.isEmpty || component == [0x2e] || component == [0x2e, 0x2e]) then
    .error .invalidPath
  else .ok ()

def validateOwner (owner : ProcessHandle) : Except VfsError Unit :=
  if owner.pid = 0 ∨ owner.generation = 0 then .error .permissionDenied else .ok ()

def validateOpenFlags (openFlags : Flags) : Except VfsError Unit :=
  if openFlags &&& ~~~knownIntents ≠ 0 ∨ openFlags &&& (readIntent ||| writeIntent) = 0 ∨
      openFlags &&& exclusive ≠ 0 ∧ openFlags &&& createIntent = 0 ∨
      openFlags &&& (truncate ||| appendOnly) ≠ 0 ∧ openFlags &&& writeIntent = 0 then
    .error .permissionDenied
  else if openFlags &&& hologram ≠ 0 then .error .unsupported
  else .ok ()

/-- The position of the last slash of a path. -/
def lastSlash : Option ℕ :=
  (path.reverse.findIdx? (· == slash)).map fun i => path.length - 1 - i

def parentPath : Option (List UInt8) :=
  if path = rootPath then none
  else (lastSlash path).map fun i => if i = 0 then rootPath else path.take i

def isDescendant (parent candidate : List UInt8) : Bool :=
  if parent = rootPath then decide (1 < candidate.length) && candidate.head? == some slash
  else decide (parent.length < candidate.length) && parent.isPrefixOf candidate &&
    candidate[parent.length]? == some slash

/-- What follows a leading part of a text. -/
def strip (lead text : List UInt8) : Option (List UInt8) :=
  if lead.isPrefixOf text then some (text.drop lead.length) else none

def directChildName (parent candidate : List UInt8) : Option (List UInt8) :=
  let remainder :=
    if parent = rootPath then strip rootPath candidate
    else (strip parent candidate).bind (strip rootPath)
  remainder.filter fun name => !name.isEmpty && !name.contains slash

def renamedPath (old new current : List UInt8) : Except VfsError (List UInt8) :=
  match strip old current with
  | none => .error .invalidPath
  | some suffix =>
    if maximumPathBytes < new.length + suffix.length then .error .invalidPath
    else .ok (new ++ suffix)

/-- The proper parents of a path other than the root, shortest first. -/
def parents : List (List UInt8) :=
  (List.range path.length).filterMap fun i =>
    if 1 ≤ i ∧ path[i]? = some slash then some (path.take i) else none

/-! ### Tables -/

section Tables

variable {nodeCount handleCount : ℕ} [NeZero nodeCount]

def new : AkashicVfs nodeCount handleCount where
  nodes := fun _ => .empty
  handles := fun _ => .empty
  initialized := false
  nextCapability := 1

def setNode (i : Fin nodeCount) (node : Node) (v : AkashicVfs nodeCount handleCount) :
    AkashicVfs nodeCount handleCount :=
  { v with nodes := Function.update v.nodes i node }

def setHandle (i : Fin handleCount) (handle : OpenHandle nodeCount)
    (v : AkashicVfs nodeCount handleCount) : AkashicVfs nodeCount handleCount :=
  { v with handles := Function.update v.handles i handle }

def setCursor (i : Fin handleCount) (cursor : ℕ) (v : AkashicVfs nodeCount handleCount) :
    AkashicVfs nodeCount handleCount :=
  v.setHandle i { v.handles i with cursor }

variable (fileBytes : ℕ) (owner : ProcessHandle) (token : Token) (path : List UInt8)
  (v : AkashicVfs nodeCount handleCount)

def ensureInitialized : AkashicVfs nodeCount handleCount :=
  if v.initialized then v else { v.setNode 0 .root with initialized := true }

def findNode : Option (Fin nodeCount) :=
  position fun i => (v.nodes i).used && (v.nodes i).path == path

def requireParentDirectory : Except VfsError (Fin nodeCount) :=
  match parentPath path with
  | none => .error .invalidPath
  | some parent =>
    match v.findNode parent with
    | none => .error .notFound
    | some index =>
      if (v.nodes index).kind ≠ .directory then .error .notDirectory else .ok index

/-- The handle that `token` names for `owner`. -/
def findHandle : Except VfsError (Fin handleCount) :=
  match validateOwner owner with
  | .error error => .error error
  | .ok () =>
    if token = 0 then .error .invalidHandle
    else
      match position fun i => (v.handles i).used && (v.handles i).token == token &&
          (v.handles i).owner == owner with
      | none => .error .invalidHandle
      | some index => .ok index

def mix64 (value : Token) : Token :=
  let value := value ^^^ (value >>> 30)
  let value := value * 0xbf58476d1ce4e5b9
  let value := value ^^^ (value >>> 27)
  let value := value * 0x94d049bb133111eb
  value ^^^ (value >>> 31)

/-- The token made from a capability number. -/
def capabilityToken (node : Fin nodeCount) (now : ℕ) (capability : Token) : Token :=
  let ownerIdentity : Token := BitVec.ofNat 64 owner.pid <<< 32 ||| BitVec.ofNat 64 owner.generation
  mix64 (capability ^^^ ownerIdentity.rotateLeft 17 ^^^ (BitVec.ofNat 64 now).rotateLeft 31 ^^^
    (BitVec.ofNat 64 node).rotateLeft 47) &&& 0x7fffffffffffffff

/-- `wrapping_add(1)`, skipping zero. -/
def bumpCapability (capability : Token) : Token :=
  if capability + 1 = 0 then 1 else capability + 1

/-- Try capability numbers until one makes a token that no open handle has. -/
def allocateCapabilityLoop (owner : ProcessHandle) (node : Fin nodeCount) (now : ℕ) :
    ℕ → AkashicVfs nodeCount handleCount → Except VfsError Token × AkashicVfs nodeCount handleCount
  | 0, v => (.error .capacity, v)
  | attempts + 1, v =>
    let v := { v with nextCapability := bumpCapability v.nextCapability }
    let token := capabilityToken owner node now v.nextCapability
    match position fun i => (v.handles i).used && (v.handles i).token == token with
    | some _ => allocateCapabilityLoop owner node now attempts v
    | none =>
      if token ≠ 0 then (.ok token, v)
      else allocateCapabilityLoop owner node now attempts v

def allocateCapability (node : Fin nodeCount) (now : ℕ) (v : AkashicVfs nodeCount handleCount) :
    Except VfsError Token × AkashicVfs nodeCount handleCount :=
  allocateCapabilityLoop owner node now (handleCount + 1) v

def closeIndex (i : Fin handleCount) (v : AkashicVfs nodeCount handleCount) :
    AkashicVfs nodeCount handleCount :=
  let handle := v.handles i
  if handle.used then
    (v.setNode handle.node
      { v.nodes handle.node with openCount := (v.nodes handle.node).openCount - 1 }).setHandle i
      .empty
  else v

/-! ### Operations -/

/-- The checks of `open` on the node that a path names, or the free node that a
created file takes. -/
def openTarget (openFlags : Flags) (v : AkashicVfs nodeCount handleCount) :
    Except VfsError (Fin nodeCount) :=
  match v.findNode path with
  | some index =>
    if openFlags &&& createIntent ≠ 0 ∧ openFlags &&& exclusive ≠ 0 then .error .alreadyExists
    else if (v.nodes index).kind = .directory ∧
        openFlags &&& (writeIntent ||| createIntent ||| truncate ||| appendOnly) ≠ 0 then
      .error .notFile
    else .ok index
  | none =>
    if openFlags &&& createIntent = 0 then .error .notFound
    else
      match v.requireParentDirectory path with
      | .error error => .error error
      | .ok _ =>
        match position fun i => !(v.nodes i).used with
        | none => .error .capacity
        | some index => .ok index

/-- The node of an open once its token is allocated: made, cut, or as it was. -/
def openedNode (existing : Bool) (path : List UInt8) (openFlags : Flags) (now : ℕ) (node : Node) :
    Node :=
  if !existing then .fresh .file path now
  else if openFlags &&& truncate ≠ 0 then node.truncated now
  else node

/-- The part of `open` that follows the checks: take a token, prepare the node, and
fill the free handle. -/
def openNode (openFlags : Flags) (now : ℕ)
    (slot : Fin handleCount) (index : Fin nodeCount) (v : AkashicVfs nodeCount handleCount) :
    Except VfsError Token × AkashicVfs nodeCount handleCount :=
  match v.allocateCapability owner index now with
  | (.error error, allocated) => (.error error, allocated)
  | (.ok token, allocated) =>
    let node := openedNode (v.findNode path).isSome path openFlags now (allocated.nodes index)
    match checkedAdd u16Max node.openCount 1 with
    | none => (.error .capacity, allocated.setNode index node)
    | some openCount =>
      let cursor := if openFlags &&& appendOnly ≠ 0 then node.contentLen else 0
      (.ok token, (allocated.setNode index { node with openCount }).setHandle slot
        { used := true, token, owner, node := index, cursor, openFlags })

/-- The checks of `open` on its arguments. -/
def validateOpen (openFlags : Flags) : Except VfsError Unit := do
  validateOwner owner
  validatePath path
  validateOpenFlags openFlags

/-- `open`. -/
def openPath (openFlags : Flags) (now : ℕ) (v : AkashicVfs nodeCount handleCount) :
    Except VfsError Token × AkashicVfs nodeCount handleCount :=
  let v := v.ensureInitialized
  match validateOpen owner path openFlags with
  | .error error => (.error error, v)
  | .ok () =>
    match position fun i => !(v.handles i).used with
    | none => (.error .capacity, v)
    | some slot =>
      match v.openTarget path openFlags with
      | .error error => (.error error, v)
      | .ok index => v.openNode owner path openFlags now slot index

def close : Except VfsError Unit × AkashicVfs nodeCount handleCount :=
  let v := v.ensureInitialized
  match v.findHandle owner token with
  | .error error => (.error error, v)
  | .ok index => (.ok (), v.closeIndex index)

/-- Close one handle of a sweep, when `owner` has it. -/
def sweepHandle (swept : ℕ × AkashicVfs nodeCount handleCount)
    (i : Fin handleCount) : ℕ × AkashicVfs nodeCount handleCount :=
  if (swept.2.handles i).used ∧ (swept.2.handles i).owner = owner then
    (swept.1 + 1, swept.2.closeIndex i)
  else swept

def closeAll : ℕ × AkashicVfs nodeCount handleCount :=
  (List.finRange handleCount).foldl (sweepHandle owner) (0, v.ensureInitialized)

def read (size : ℕ) (v : AkashicVfs nodeCount handleCount) :
    Except VfsError (List UInt8) × AkashicVfs nodeCount handleCount :=
  let v := v.ensureInitialized
  match v.findHandle owner token with
  | .error error => (.error error, v)
  | .ok i =>
    let handle := v.handles i
    let node := v.nodes handle.node
    if handle.openFlags &&& readIntent = 0 then (.error .permissionDenied, v)
    else if node.kind ≠ .file then (.error .notFile, v)
    else if node.contentLen < handle.cursor then (.error .invalidSeek, v)
    else
      let copied := min size (node.contentLen - handle.cursor)
      (.ok (node.range handle.cursor copied), v.setCursor i (handle.cursor + copied))

def readHandleRangeSnapshot (offset size : ℕ) (v : AkashicVfs nodeCount handleCount) :
    Except VfsError FileRangeSnapshot × AkashicVfs nodeCount handleCount :=
  let v := v.ensureInitialized
  match v.findHandle owner token with
  | .error error => (.error error, v)
  | .ok i =>
    let handle := v.handles i
    let node := v.nodes handle.node
    if handle.openFlags &&& readIntent = 0 then (.error .permissionDenied, v)
    else if node.kind ≠ .file then (.error .notFile, v)
    else if node.contentLen < offset then (.error .invalidSeek, v)
    else
      (.ok { inodeId := handle.node + 1, fileBytes := node.contentLen
             bytes := node.range offset (min size (node.contentLen - offset)) }, v)

def write (input : List UInt8) (now : ℕ) (v : AkashicVfs nodeCount handleCount) :
    Except VfsError ℕ × AkashicVfs nodeCount handleCount :=
  let v := v.ensureInitialized
  match v.findHandle owner token with
  | .error error => (.error error, v)
  | .ok i =>
    let handle := v.handles i
    let node := v.nodes handle.node
    if handle.openFlags &&& writeIntent = 0 then (.error .permissionDenied, v)
    else if node.kind ≠ .file then (.error .notFile, v)
    else
      let offset := if handle.openFlags &&& appendOnly ≠ 0 then node.contentLen else handle.cursor
      if fileBytes < offset + input.length then (.error .fileTooLarge, v)
      else
        (.ok input.length, (v.setNode handle.node (node.written offset input now)).setCursor i
          (offset + input.length))

/-- Where a seek starts from. -/
def seekBase (whence cursor length : ℕ) : Option ℤ :=
  if whence = fromStart then some 0
  else if whence = fromCurrent then some cursor
  else if whence = fromEnd then some length
  else none

def seek (offset : ℤ) (whence : ℕ) (v : AkashicVfs nodeCount handleCount) :
    Except VfsError ℕ × AkashicVfs nodeCount handleCount :=
  let v := v.ensureInitialized
  match v.findHandle owner token with
  | .error error => (.error error, v)
  | .ok i =>
    let handle := v.handles i
    let node := v.nodes handle.node
    if node.kind ≠ .file then (.error .notFile, v)
    else
      match seekBase whence handle.cursor node.contentLen with
      | none => (.error .invalidSeek, v)
      | some base =>
        let next := base + offset
        if next < 0 ∨ (fileBytes : ℤ) < next then (.error .invalidSeek, v)
        else (.ok next.toNat, v.setCursor i next.toNat)

def stat : Except VfsError Stat × AkashicVfs nodeCount handleCount :=
  let v := v.ensureInitialized
  match validatePath path with
  | .error error => (.error error, v)
  | .ok () =>
    match v.findNode path with
    | none => (.error .notFound, v)
    | some index => (.ok (v.nodes index).stat, v)

def statHandle : Except VfsError Stat × AkashicVfs nodeCount handleCount :=
  let v := v.ensureInitialized
  match v.findHandle owner token with
  | .error error => (.error error, v)
  | .ok i => (.ok (v.nodes (v.handles i).node).stat, v)

def mkdir (now : ℕ) (v : AkashicVfs nodeCount handleCount) :
    Except VfsError Unit × AkashicVfs nodeCount handleCount :=
  let v := v.ensureInitialized
  match validatePath path with
  | .error error => (.error error, v)
  | .ok () =>
    if path = rootPath ∨ (v.findNode path).isSome then (.error .alreadyExists, v)
    else
      match v.requireParentDirectory path with
      | .error error => (.error error, v)
      | .ok _ =>
        match position fun i => !(v.nodes i).used with
        | none => (.error .capacity, v)
        | some index => (.ok (), v.setNode index (.fresh .directory path now))

def unlink : Except VfsError Unit × AkashicVfs nodeCount handleCount :=
  let v := v.ensureInitialized
  match validatePath path with
  | .error error => (.error error, v)
  | .ok () =>
    if path = rootPath then (.error .permissionDenied, v)
    else
      match v.findNode path with
      | none => (.error .notFound, v)
      | some index =>
        if (v.nodes index).openCount ≠ 0 then (.error .busy, v)
        else if (v.nodes index).kind = .directory ∧
            (position fun i => (v.nodes i).used && isDescendant path (v.nodes i).path).isSome
          then (.error .directoryNotEmpty, v)
        else (.ok (), v.setNode index .empty)

/-- The node has the old path of a rename, or lies below it. -/
def moves (old : List UInt8) (node : Node) : Bool :=
  node.used && (node.path == old || isDescendant old node.path)

/-- The checks of `rename` on the node that the new path names already. -/
def checkReplaced (kind : NodeKind) (new : List UInt8) (target : Option (Fin nodeCount))
    (v : AkashicVfs nodeCount handleCount) : Except VfsError Unit :=
  match target with
  | none => .ok ()
  | some index =>
    if (v.nodes index).openCount ≠ 0 then .error .busy
    else if (v.nodes index).kind ≠ kind then
      if (v.nodes index).kind = .directory then .error .notFile else .error .notDirectory
    else if (v.nodes index).kind = .directory ∧
        (position fun i => (v.nodes i).used && isDescendant new (v.nodes i).path).isSome then
      .error .directoryNotEmpty
    else .ok ()

/-- The checks of `rename` on one node that moves: its path fits and no other node has it. -/
def checkMoved (old new : List UInt8) (target : Option (Fin nodeCount))
    (v : AkashicVfs nodeCount handleCount) (index : Fin nodeCount) : Except VfsError Unit :=
  if !moves old (v.nodes index) then .ok ()
  else
    match renamedPath old new (v.nodes index).path with
    | .error error => .error error
    | .ok candidate =>
      if (position fun other => decide (other ≠ index) && some other != target &&
          (v.nodes other).used && !moves old (v.nodes other) &&
          (v.nodes other).path == candidate).isSome then .error .alreadyExists
      else .ok ()

/-- The second loop of `rename`. -/
def renameLoop (old new : List UInt8) (now : ℕ) : List (Fin nodeCount) →
    AkashicVfs nodeCount handleCount → Except VfsError Unit × AkashicVfs nodeCount handleCount
  | [], v => (.ok (), v)
  | index :: indices, v =>
    if !moves old (v.nodes index) then renameLoop old new now indices v
    else
      match renamedPath old new (v.nodes index).path with
      | .error error => (.error error, v)
      | .ok path =>
        renameLoop old new now indices
          (v.setNode index { v.nodes index with path, modifiedTicks := now })

/-- The checks of `rename` on its arguments. -/
def validateRename (old new : List UInt8) : Except VfsError Unit := do
  validatePath old
  validatePath new
  if old = rootPath ∨ new = rootPath then .error .permissionDenied else .ok ()

/-- The part of `rename` that follows the checks on the source. -/
def renameNode (old new : List UInt8) (now : ℕ) (source : Fin nodeCount)
    (v : AkashicVfs nodeCount handleCount) :
    Except VfsError Unit × AkashicVfs nodeCount handleCount :=
  let target := v.findNode new
  match v.checkReplaced (v.nodes source).kind new target with
  | .error error => (.error error, v)
  | .ok () =>
    match (List.finRange nodeCount).forM (v.checkMoved old new target) with
    | .error error => (.error error, v)
    | .ok () =>
      renameLoop old new now (List.finRange nodeCount)
        (target.elim v fun index => v.setNode index .empty)

def rename (old new : List UInt8) (now : ℕ) (v : AkashicVfs nodeCount handleCount) :
    Except VfsError Unit × AkashicVfs nodeCount handleCount :=
  let v := v.ensureInitialized
  match validateRename old new with
  | .error error => (.error error, v)
  | .ok () =>
    if old = new then (.ok (), v)
    else
      match v.findNode old with
      | none => (.error .notFound, v)
      | some source =>
        match v.requireParentDirectory new with
        | .error error => (.error error, v)
        | .ok _ =>
          if (v.nodes source).kind = .directory ∧ isDescendant old new then
            (.error .invalidPath, v)
          else v.renameNode old new now source

/-- The loop of `seed_file` over the parents of its path. -/
def seedParents (now : ℕ) : List (List UInt8) → AkashicVfs nodeCount handleCount →
    Except VfsError Unit × AkashicVfs nodeCount handleCount
  | [], v => (.ok (), v)
  | parent :: parents, v =>
    if (v.findNode parent).isSome then seedParents now parents v
    else
      match v.mkdir parent now with
      | (.error error, v) => (.error error, v)
      | (.ok (), v) => seedParents now parents v

/-- The checks of `seed_file` on its arguments. -/
def validateSeed (path contents : List UInt8) : Except VfsError Unit := do
  validateOwner owner
  validatePath path
  if fileBytes < contents.length then .error .fileTooLarge else .ok ()

def seedFile (path contents : List UInt8) (now : ℕ) (v : AkashicVfs nodeCount handleCount) :
    Except VfsError Unit × AkashicVfs nodeCount handleCount :=
  let v := v.ensureInitialized
  match validateSeed fileBytes owner path contents with
  | .error error => (.error error, v)
  | .ok () =>
    match v.seedParents now (parents path) with
    | (.error error, v) => (.error error, v)
    | (.ok (), v) =>
      match v.openPath owner path
          (readIntent ||| writeIntent ||| createIntent ||| exclusive) now with
      | (.error error, v) => (.error error, v)
      | (.ok token, v) =>
        let written := v.write fileBytes owner token contents now
        let closed := written.2.close owner token
        (written.1.map (fun _ => ()) >>= fun _ => closed.1, closed.2)

/-- The next entry of an open directory. -/
def readdir : Except VfsError (Option Dirent) × AkashicVfs nodeCount handleCount :=
  let v := v.ensureInitialized
  match v.findHandle owner token with
  | .error error => (.error error, v)
  | .ok i =>
    let handle := v.handles i
    let directory := v.nodes handle.node
    let childName (j : Fin nodeCount) := directChildName directory.path (v.nodes j).path
    if directory.kind ≠ .directory then (.error .notDirectory, v)
    else
      match position fun j => decide (handle.cursor ≤ j) && (v.nodes j).used &&
          (childName j).isSome with
      | none => (.ok none, v.setCursor i nodeCount)
      | some j =>
        (.ok (some { name := (childName j).getD [], kind := (v.nodes j).kind }),
          v.setCursor i (j + 1))

end Tables

end AkashicVfs

end ArachKernel
