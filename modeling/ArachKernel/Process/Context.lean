import ArachKernel.Process.Lifecycle

/-!
The register state of a user task (`process/context.rs`): what is saved when the
task enters the kernel, and what the return path needs to resume it.
-/

namespace ArachKernel.Process

/-- A 64-bit machine word. -/
abbrev Word := BitVec 64

def userAddressMinimum : Word := 0x1000
def userAddressLimit : Word := 0x0000800000000000
def kernelAddressMinimum : Word := 0xffff800000000000
def initialUserFlags : Word := (1 <<< 1) ||| (1 <<< 9)

def pageMask : Word := 0xfff
def physicalAddressMask : Word := 0x000ffffffffff000

/-- The flags a user task may have: bits 0, 1, 2, 4, 6 to 11, 16, 18 and 21. -/
def userFlagsAllowed : Word := 0x250fd7

inductive ContextError
  | invalidInstructionPointer
  | invalidStackPointer
  | invalidFlags
  | invalidAddressSpaceRoot
  | invalidKernelStackPointer
  | invalidFsBase
  | invalidDispatchAuthority
  deriving DecidableEq

def validUserAddress (address : Word) : Bool :=
  decide (userAddressMinimum ≤ address) && decide (address < userAddressLimit)

def validPageTableRoot (root : Word) : Bool :=
  root != 0 && root &&& pageMask == 0 && root &&& ~~~physicalAddressMask == 0

def validKernelStackPointer (pointer : Word) : Bool :=
  decide (kernelAddressMinimum ≤ pointer) && pointer &&& 0xf == 0

/-- The FS base may be null, and may lie in the first page. -/
def validUserTlsBase (address : Word) : Bool := decide (address < userAddressLimit)

structure SavedUserContext where
  r15 : Word
  r14 : Word
  r13 : Word
  r12 : Word
  r11 : Word
  r10 : Word
  r9 : Word
  r8 : Word
  rbp : Word
  rdi : Word
  rsi : Word
  rdx : Word
  rcx : Word
  rbx : Word
  rax : Word
  instructionPointer : Word
  flags : Word
  stackPointer : Word
  deriving DecidableEq

namespace SavedUserContext

def empty : SavedUserContext where
  r15 := 0
  r14 := 0
  r13 := 0
  r12 := 0
  r11 := 0
  r10 := 0
  r9 := 0
  r8 := 0
  rbp := 0
  rdi := 0
  rsi := 0
  rdx := 0
  rcx := 0
  rbx := 0
  rax := 0
  instructionPointer := 0
  flags := 0
  stackPointer := 0

/-- The first context of a newly installed process. -/
def initial (instructionPointer stackPointer : Word) : SavedUserContext :=
  { empty with
    r11 := initialUserFlags
    rcx := instructionPointer
    instructionPointer
    flags := initialUserFlags
    stackPointer }

def validate (context : SavedUserContext) : Except ContextError Unit :=
  if !validUserAddress context.instructionPointer then .error .invalidInstructionPointer
  else if !validUserAddress context.stackPointer then .error .invalidStackPointer
  else if context.flags &&& (1 <<< 1) = 0 ∨ context.flags &&& ~~~userFlagsAllowed ≠ 0 then
    .error .invalidFlags
  else .ok ()

/-- The value the task sees in `rax` when it resumes after a system call. -/
def setSyscallResult (context : SavedUserContext) (result : ℤ) : SavedUserContext :=
  { context with rax := BitVec.ofInt 64 result }

end SavedUserContext

/-- What the return path loads: the registers, the page tables, the kernel stack of
the next entry, and the FS base. -/
structure DispatchContext where
  user : SavedUserContext
  addressSpaceRoot : Word
  kernelStackPointer : Word
  fsBase : Word
  deriving DecidableEq

def DispatchContext.validate (context : DispatchContext) : Except ContextError Unit :=
  match context.user.validate with
  | .error e => .error e
  | .ok () =>
    if !validPageTableRoot context.addressSpaceRoot then .error .invalidAddressSpaceRoot
    else if !validKernelStackPointer context.kernelStackPointer then
      .error .invalidKernelStackPointer
    else if !validUserTlsBase context.fsBase then .error .invalidFsBase
    else .ok ()

/-- The authority to return to user mode, as the return path presents it. -/
structure AuthorizedUserReturn where
  dispatch : DispatchContext
  pid : ℕ
  generation : ℕ
  schedulerEpoch : ℕ
  deriving DecidableEq

def AuthorizedUserReturn.validate (authority : AuthorizedUserReturn) : Except ContextError Unit :=
  if authority.pid = 0 ∨ authority.generation = 0 ∨ authority.schedulerEpoch = 0 then
    .error .invalidDispatchAuthority
  else authority.dispatch.validate

end ArachKernel.Process
