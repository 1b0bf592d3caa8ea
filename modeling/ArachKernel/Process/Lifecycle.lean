import ArachKernel.Lib.Align
import Mathlib.Data.BitVec

/-!
What the kernel tables name things by: processes, open objects and local sockets. Flag words
and event masks are bit vectors.
-/

namespace ArachKernel

/-- A process or thread: its number, and how often the number has been reused. -/
structure ProcessHandle where
  pid : ℕ
  generation : ℕ
  deriving DecidableEq

namespace ProcessHandle

/-- The handle no process has. -/
def empty : ProcessHandle := { pid := 0, generation := 0 }

/-- A handle that a process can have. -/
def valid (owner : ProcessHandle) : Bool := owner.pid != 0 && owner.generation != 0

end ProcessHandle

/-- Flag words, event masks and readiness sets. -/
abbrev Flags := BitVec 32

def readyIn : Flags := 0x001
def readyOut : Flags := 0x004
def readyErr : Flags := 0x008
def readyHup : Flags := 0x010

/-! ### Open objects -/

abbrev maximumFileDescriptors : ℕ := 128
abbrev maximumDescriptorSpaces : ℕ := 64
abbrev maximumOpenObjects : ℕ := maximumDescriptorSpaces * maximumFileDescriptors
def maximumTransferDescriptors : ℕ := 8

/-- A key names one occupant of an object slot; the generation tells it apart from earlier and
later occupants. Epoll watches and descriptors in transit hold keys. -/
structure ObjectKey where
  index : Fin maximumOpenObjects
  generation : ℕ
  deriving DecidableEq

namespace ObjectKey

/-- The key of nothing: objects have positive generations. -/
def empty : ObjectKey := { index := 0, generation := 0 }

def isEmpty (key : ObjectKey) : Bool := key.generation == 0

end ObjectKey

/-- One retained open description on its way through a socket queue. -/
abbrev TransferToken := ObjectKey

/-! ### Local sockets -/

def unixPathBytes : ℕ := 108

/-- The name of a local socket: at most `unixPathBytes` bytes, none for an unnamed
socket. -/
structure UnixAddress where
  bytes : List UInt8
  length_le : bytes.length ≤ unixPathBytes
  deriving DecidableEq

namespace UnixAddress

def unnamed : UnixAddress := { bytes := [], length_le := Nat.zero_le _ }

def isUnnamed (address : UnixAddress) : Bool := address.bytes.isEmpty

end UnixAddress

end ArachKernel
