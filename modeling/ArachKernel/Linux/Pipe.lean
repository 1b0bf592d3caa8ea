import ArachKernel.Lib.Handle
import ArachKernel.Lib.Prog
import ArachKernel.Lib.Ring
import ArachKernel.Lib.Table
import ArachKernel.Process.Lifecycle

/-!
Anonymous pipes (`linux_pipe.rs`). A registry holds the pipes, each a ring of
`PIPE_BUF` bytes, and the endpoints, through which a process reads or writes a
pipe. Endpoint handles carry the generation of their slot; an endpoint carries
the generation of its pipe. Every public function is one section under the
registry lock.
-/

namespace ArachKernel.LinuxPipe

open Table

def pipeBuf : ℕ := 4096
abbrev maximumPipes : ℕ := 32
abbrev maximumEndpoints : ℕ := maximumPipes * 2
abbrev EndpointIndex := Fin maximumEndpoints
def endpointIndexBits : ℕ := 8
def maximumEndpointGeneration : ℕ := u32Max >>> endpointIndexBits

inductive PipeError
  | invalidArgument
  | badFileDescriptor
  | wouldBlock
  | brokenPipe
  | capacity
  deriving DecidableEq

inductive Direction
  | read
  | write
  deriving DecidableEq

structure EndpointSlot where
  occupied : Bool
  generation : ℕ
  owner : ProcessHandle
  pipeIndex : Fin maximumPipes
  pipeGeneration : ℕ
  direction : Direction

def EndpointSlot.empty : EndpointSlot where
  occupied := false
  generation := 0
  owner := .empty
  pipeIndex := 0
  pipeGeneration := 0
  direction := .read

/-- A pipe. `head`, `length` and `bytes` are the ring; `readinessAdvances` counts
the advances of the 64-bit readiness generation, which is read out modulo its
width. -/
structure PipeSlot where
  occupied : Bool
  generation : ℕ
  owner : ProcessHandle
  readOpen : Bool
  writeOpen : Bool
  ring : Ring UInt8
  readinessAdvances : ℕ

def PipeSlot.empty : PipeSlot where
  occupied := false
  generation := 0
  owner := .empty
  readOpen := false
  writeOpen := false
  ring := .empty 0
  readinessAdvances := 0

structure PipeRegistry where
  pipes : Fin maximumPipes → PipeSlot
  endpoints : EndpointIndex → EndpointSlot

def PipeRegistry.new : PipeRegistry where
  pipes := fun _ => .empty
  endpoints := fun _ => .empty

variable (r : PipeRegistry) (owner : ProcessHandle) (handle : ℕ)

def PipeRegistry.setPipe (i : Fin maximumPipes) (p : PipeSlot) : PipeRegistry :=
  { r with pipes := Function.update r.pipes i p }

def PipeRegistry.setEndpoint (i : EndpointIndex) (e : EndpointSlot) : PipeRegistry :=
  { r with endpoints := Function.update r.endpoints i e }

def encodeEndpoint (index generation : ℕ) : Option ℕ :=
  Handle.encode endpointIndexBits maximumEndpoints maximumEndpointGeneration index generation

def decodeEndpoint : Option (EndpointIndex × ℕ) :=
  Handle.decode endpointIndexBits maximumEndpoints handle

def nextGeneration (current : ℕ) : Option ℕ :=
  (checkedAdd u32Max current 1).filter (· ≤ maximumEndpointGeneration)

/-- The pipe an endpoint handle of `owner` names, and the endpoint. -/
def resolvedEndpoint : Except PipeError (Fin maximumPipes × EndpointSlot) :=
  match decodeEndpoint handle with
  | none => .error .badFileDescriptor
  | some (endpointIndex, generation) =>
    let endpoint := r.endpoints endpointIndex
    if !endpoint.occupied || endpoint.generation != generation || endpoint.owner != owner then
      .error .badFileDescriptor
    else
      let pipe := r.pipes endpoint.pipeIndex
      if !pipe.occupied || pipe.generation != endpoint.pipeGeneration || pipe.owner != owner then
        .error .badFileDescriptor
      else .ok (endpoint.pipeIndex, endpoint)

/-- The slots and generations a new pipe takes. -/
structure Allocation where
  pipeIndex : Fin maximumPipes
  pipeGeneration : ℕ
  readIndex : EndpointIndex
  readGeneration : ℕ
  readHandle : ℕ
  writeIndex : EndpointIndex
  writeGeneration : ℕ
  writeHandle : ℕ

/-- Choose the first free pipe and the first two free endpoints. -/
def allocate : Option Allocation := do
  let pipeIndex ← position fun i => !(r.pipes i).occupied
  let readIndex ← position fun i => !(r.endpoints i).occupied
  let writeIndex ← position fun i => i != readIndex && !(r.endpoints i).occupied
  let pipeGeneration ← checkedAdd u32Max (r.pipes pipeIndex).generation 1
  let readGeneration ← nextGeneration (r.endpoints readIndex).generation
  let writeGeneration ← nextGeneration (r.endpoints writeIndex).generation
  let readHandle ← encodeEndpoint readIndex readGeneration
  let writeHandle ← encodeEndpoint writeIndex writeGeneration
  pure { pipeIndex, pipeGeneration, readIndex, readGeneration, readHandle,
         writeIndex, writeGeneration, writeHandle }

def newPipe (a : Allocation) : PipeSlot where
  occupied := true
  generation := a.pipeGeneration
  owner := owner
  readOpen := true
  writeOpen := true
  ring := .empty 0
  readinessAdvances := 1

def newEndpoint (a : Allocation) (generation : ℕ) (direction : Direction) : EndpointSlot where
  occupied := true
  generation := generation
  owner := owner
  pipeIndex := a.pipeIndex
  pipeGeneration := a.pipeGeneration
  direction := direction

/-- Create a pipe with one read and one write endpoint. -/
def create (r : PipeRegistry) : Except PipeError (ℕ × ℕ) × PipeRegistry :=
  if owner.pid = 0 ∨ owner.generation = 0 then (.error .invalidArgument, r)
  else
    match allocate r with
    | none => (.error .capacity, r)
    | some a =>
      (.ok (a.readHandle, a.writeHandle),
        ((r.setPipe a.pipeIndex (newPipe owner a)).setEndpoint a.readIndex
          (newEndpoint owner a a.readGeneration .read)).setEndpoint a.writeIndex
          (newEndpoint owner a a.writeGeneration .write))

/-- Read up to `size` bytes; the bytes copied to the caller's buffer are the answer. -/
def read (handle size : ℕ) (r : PipeRegistry) : Except PipeError (List UInt8) × PipeRegistry :=
  if size = 0 then (.ok [], r)
  else
    match resolvedEndpoint r owner handle with
    | .error e => (.error e, r)
    | .ok (pipeIndex, endpoint) =>
      if endpoint.direction ≠ .read then (.error .badFileDescriptor, r)
      else
        let pipe := r.pipes pipeIndex
        if pipe.ring.length = 0 then
          (if pipe.writeOpen then .error .wouldBlock else .ok [], r)
        else
          let copied := min size pipe.ring.length
          let moved := pipe.ring.popMany pipeBuf copied
          (.ok moved.1, r.setPipe pipeIndex
            { pipe with ring := moved.2, readinessAdvances := pipe.readinessAdvances + 1 })

/-- Write all of `input`, or nothing. -/
def write (input : List UInt8) (r : PipeRegistry) : Except PipeError ℕ × PipeRegistry :=
  if input.isEmpty then (.ok 0, r)
  else if pipeBuf < input.length then (.error .invalidArgument, r)
  else
    match resolvedEndpoint r owner handle with
    | .error e => (.error e, r)
    | .ok (pipeIndex, endpoint) =>
      if endpoint.direction ≠ .write then (.error .badFileDescriptor, r)
      else
        let pipe := r.pipes pipeIndex
        if !pipe.readOpen then (.error .brokenPipe, r)
        else
          let available := pipeBuf - pipe.ring.length
          if available < input.length then (.error .wouldBlock, r)
          else
            (.ok input.length, r.setPipe pipeIndex
              { pipe with
                ring := pipe.ring.pushAll pipeBuf input
                readinessAdvances := pipe.readinessAdvances + 1 })

/-- The readiness of one end of a pipe. -/
def endReadiness (pipe : PipeSlot) : Direction → Flags
  | .read =>
    (if pipe.ring.length ≠ 0 then readyIn else 0) |||
      (if !pipe.writeOpen then readyHup else 0)
  | .write =>
    if !pipe.readOpen then readyErr
    else if pipe.ring.length < pipeBuf then readyOut
    else 0

def readiness (r : PipeRegistry) : Except PipeError Flags :=
  match resolvedEndpoint r owner handle with
  | .error e => .error e
  | .ok (pipeIndex, endpoint) => .ok (endReadiness (r.pipes pipeIndex) endpoint.direction)

def readinessGeneration (r : PipeRegistry) : Except PipeError ℕ :=
  match resolvedEndpoint r owner handle with
  | .error e => .error e
  | .ok (pipeIndex, _) => .ok ((r.pipes pipeIndex).readinessAdvances % 2 ^ 64)

/-- The pipe after one of its ends was closed; it is emptied with the second one. -/
def closeEnd (pipe : PipeSlot) (direction : Direction) : PipeSlot :=
  let pipe := match direction with
    | .read => { pipe with readOpen := false }
    | .write => { pipe with writeOpen := false }
  let pipe := { pipe with readinessAdvances := pipe.readinessAdvances + 1 }
  if !pipe.readOpen && !pipe.writeOpen then
    { pipe with occupied := false, owner := .empty, ring := .empty 0 }
  else pipe

def close (r : PipeRegistry) : Except PipeError Unit × PipeRegistry :=
  match resolvedEndpoint r owner handle with
  | .error e => (.error e, r)
  | .ok (pipeIndex, endpoint) =>
    match decodeEndpoint handle with
    | none => (.error .badFileDescriptor, r)
    | some (endpointIndex, _) =>
      (.ok (), (r.setEndpoint endpointIndex
        { r.endpoints endpointIndex with occupied := false }).setPipe pipeIndex
        (closeEnd (r.pipes pipeIndex) endpoint.direction))

/-- The calls of the module, one per public function. -/
inductive PipeCall : Type → Type
  | create (owner : ProcessHandle) : PipeCall (Except PipeError (ℕ × ℕ))
  | read (owner : ProcessHandle) (handle size : ℕ) : PipeCall (Except PipeError (List UInt8))
  | write (owner : ProcessHandle) (handle : ℕ) (input : List UInt8) : PipeCall (Except PipeError ℕ)
  | readiness (owner : ProcessHandle) (handle : ℕ) : PipeCall (Except PipeError Flags)
  | readinessGeneration (owner : ProcessHandle) (handle : ℕ) : PipeCall (Except PipeError ℕ)
  | close (owner : ProcessHandle) (handle : ℕ) : PipeCall (Except PipeError Unit)

def exec : Handler PipeCall PipeRegistry
  | _, .create owner, r => create owner r
  | _, .read owner handle size, r => read owner handle size r
  | _, .write owner handle input, r => write owner handle input r
  | _, .readiness owner handle, r => (readiness owner handle r, r)
  | _, .readinessGeneration owner handle, r => (readinessGeneration owner handle r, r)
  | _, .close owner handle, r => close owner handle r

end ArachKernel.LinuxPipe
