import ArachKernel.Lib.Handle
import ArachKernel.Lib.Prog
import ArachKernel.Lib.Ring
import ArachKernel.Lib.Table
import ArachKernel.Process.Lifecycle

/-!
Unix-domain datagram sockets (`linux_unix_dgram.rs`). Each endpoint has a queue of
whole messages; a send goes to the endpoint bound to the destination address.
-/

namespace ArachKernel.LinuxDatagram

open Table Function

def msgPeek : Flags := 0x2
def msgDontwait : Flags := 0x40
def msgNosignal : Flags := 0x4000
def sendFlags : Flags := msgDontwait ||| msgNosignal
def receiveFlags : Flags := msgPeek ||| msgDontwait
def maximumDatagramBytes : ℕ := 4096

abbrev maximumEndpoints : ℕ := 32
abbrev EndpointIndex := Fin maximumEndpoints
def maximumQueueLength : ℕ := 32
def endpointIndexBits : ℕ := 8
def maximumEndpointGeneration : ℕ := u32Max >>> endpointIndexBits

inductive DatagramError
  | invalidArgument
  | badFileDescriptor
  | addressInUse
  | connectionRefused
  | notConnected
  | wouldBlock
  | capacity
  | operationNotSupported
  deriving DecidableEq

/-- A received message: the bytes copied out, who sent it, and whether the buffer
was too small for it. -/
structure ReceivedDatagram where
  bytes : List UInt8
  sender : ProcessHandle
  senderAddress : UnixAddress
  truncated : Bool

structure Datagram where
  sender : ProcessHandle
  senderAddress : UnixAddress
  bytes : List UInt8

def Datagram.empty : Datagram := { sender := .empty, senderAddress := .unnamed, bytes := [] }

structure Endpoint where
  owner : ProcessHandle
  generation : ℕ
  address : UnixAddress
  bound : Bool
  passcred : Bool
  queue : Ring Datagram
  readinessAdvances : ℕ

def Endpoint.empty : Endpoint where
  owner := .empty
  generation := 0
  address := .unnamed
  bound := false
  passcred := false
  queue := .empty .empty
  readinessAdvances := 0

def Endpoint.occupied (slot : Endpoint) : Bool := slot.owner.valid

abbrev DatagramTable := EndpointIndex → Endpoint

def nextGeneration (current : ℕ) : Option ℕ :=
  (checkedAdd u32Max current 1).filter (· ≤ maximumEndpointGeneration)

def encode (index generation : ℕ) : Option ℕ :=
  Handle.encode endpointIndexBits maximumEndpoints maximumEndpointGeneration index generation

variable (owner : ProcessHandle) (handle : ℕ) (t : DatagramTable)

def decode : Option (EndpointIndex × ℕ) :=
  Handle.decode endpointIndexBits maximumEndpoints handle

/-- The endpoint a handle names for `owner`. -/
def endpoint : Except DatagramError EndpointIndex :=
  match decode handle with
  | none => .error .badFileDescriptor
  | some (index, generation) =>
    let slot := t index
    if !slot.occupied || slot.generation != generation || slot.owner != owner then
      .error .badFileDescriptor
    else .ok index

def create : Except DatagramError ℕ × DatagramTable :=
  if owner.pid = 0 ∨ owner.generation = 0 then (.error .invalidArgument, t)
  else
    match position fun i => !(t i).occupied with
    | none => (.error .capacity, t)
    | some index =>
      match nextGeneration (t index).generation with
      | none => (.error .capacity, t)
      | some generation =>
        let t := update t index { Endpoint.empty with owner, generation }
        match encode index generation with
        | none => (.error .capacity, t)
        | some handle => (.ok handle, t)

/-- The endpoint bound to an address. -/
def findBound (address : UnixAddress) (t : DatagramTable) : Option EndpointIndex :=
  position fun i => (t i).occupied && (t i).bound && (t i).address == address

def bind (address : UnixAddress) (t : DatagramTable) : Except DatagramError Unit × DatagramTable :=
  if address.isUnnamed then (.error .invalidArgument, t)
  else
    match endpoint owner handle t with
    | .error e => (.error e, t)
    | .ok index =>
      if (t index).bound then (.error .invalidArgument, t)
      else
        match findBound address t with
        | some _ => (.error .addressInUse, t)
        | none => (.ok (), update t index { t index with address, bound := true })

def setPasscred (enabled : Bool) (t : DatagramTable) : Except DatagramError Unit × DatagramTable :=
  match endpoint owner handle t with
  | .error e => (.error e, t)
  | .ok index => (.ok (), update t index { t index with passcred := enabled })

def passcred : Except DatagramError Bool :=
  match endpoint owner handle t with
  | .error e => .error e
  | .ok index => .ok (t index).passcred

def send (destination : UnixAddress) (input : List UInt8)
    (flags : Flags) (t : DatagramTable) : Except DatagramError ℕ × DatagramTable :=
  if flags &&& ~~~sendFlags ≠ 0 ∨ maximumDatagramBytes < input.length then
    (.error .invalidArgument, t)
  else
    match endpoint owner handle t with
    | .error e => (.error e, t)
    | .ok index =>
      let sender := t index
      if sender.bound && destination == sender.address then (.error .connectionRefused, t)
      else
        let senderAddress := if sender.bound then sender.address else .unnamed
        match findBound destination t with
        | none => (.error .connectionRefused, t)
        | some destinationIndex =>
          let target := t destinationIndex
          if maximumQueueLength ≤ target.queue.length then (.error .wouldBlock, t)
          else
            (.ok input.length, update t destinationIndex
              { target with
                queue := target.queue.push maximumQueueLength
                  { sender := owner, senderAddress, bytes := input }
                readinessAdvances :=
                  if target.queue.length = 0 then target.readinessAdvances + 1
                  else target.readinessAdvances })

def receive (handle size : ℕ) (flags : Flags) (t : DatagramTable) :
    Except DatagramError ReceivedDatagram × DatagramTable :=
  if flags &&& ~~~receiveFlags ≠ 0 then (.error .invalidArgument, t)
  else
    match endpoint owner handle t with
    | .error e => (.error e, t)
    | .ok index =>
      let slot := t index
      if slot.queue.length = 0 then (.error .wouldBlock, t)
      else
        let datagram := slot.queue.cells slot.queue.head
        let received : ReceivedDatagram :=
          { bytes := datagram.bytes.take size, sender := datagram.sender,
            senderAddress := datagram.senderAddress,
            truncated := decide (min datagram.bytes.length size < datagram.bytes.length) }
        if flags &&& msgPeek ≠ 0 then (.ok received, t)
        else
          let queue := (slot.queue.popMany maximumQueueLength 1).2
          (.ok received, update t index
            { slot with
              queue
              readinessAdvances :=
                if queue.length = 0 then slot.readinessAdvances + 1
                else slot.readinessAdvances })

def slotReadiness (slot : Endpoint) : Flags :=
  readyOut ||| if slot.queue.length ≠ 0 then readyIn else 0

def readiness : Except DatagramError Flags :=
  match endpoint owner handle t with
  | .error e => .error e
  | .ok index => .ok (slotReadiness (t index))

def readinessGeneration : Except DatagramError ℕ :=
  match endpoint owner handle t with
  | .error e => .error e
  | .ok index => .ok ((t index).readinessAdvances % 2 ^ 64)

def localAddress : Except DatagramError UnixAddress :=
  match endpoint owner handle t with
  | .error e => .error e
  | .ok index => .ok (t index).address

def peerAddress : Except DatagramError UnixAddress :=
  match endpoint owner handle t with
  | .error e => .error e
  | .ok index => if (t index).bound then .ok .unnamed else .error .notConnected

def close : Except DatagramError Unit × DatagramTable :=
  match endpoint owner handle t with
  | .error e => (.error e, t)
  | .ok index =>
    (.ok (), update t index { Endpoint.empty with generation := (t index).generation })

inductive DatagramCall : Type → Type
  | create (owner : ProcessHandle) : DatagramCall (Except DatagramError ℕ)
  | bind (owner : ProcessHandle) (handle : ℕ) (address : UnixAddress) :
      DatagramCall (Except DatagramError Unit)
  | setPasscred (owner : ProcessHandle) (handle : ℕ) (enabled : Bool) :
      DatagramCall (Except DatagramError Unit)
  | passcred (owner : ProcessHandle) (handle : ℕ) : DatagramCall (Except DatagramError Bool)
  | send (owner : ProcessHandle) (handle : ℕ) (destination : UnixAddress) (input : List UInt8)
      (flags : Flags) : DatagramCall (Except DatagramError ℕ)
  | receive (owner : ProcessHandle) (handle size : ℕ) (flags : Flags) :
      DatagramCall (Except DatagramError ReceivedDatagram)
  | readiness (owner : ProcessHandle) (handle : ℕ) : DatagramCall (Except DatagramError Flags)
  | readinessGeneration (owner : ProcessHandle) (handle : ℕ) :
      DatagramCall (Except DatagramError ℕ)
  | localAddress (owner : ProcessHandle) (handle : ℕ) :
      DatagramCall (Except DatagramError UnixAddress)
  | peerAddress (owner : ProcessHandle) (handle : ℕ) :
      DatagramCall (Except DatagramError UnixAddress)
  | close (owner : ProcessHandle) (handle : ℕ) : DatagramCall (Except DatagramError Unit)

def exec : Handler DatagramCall DatagramTable
  | _, .create owner, t => create owner t
  | _, .bind owner handle address, t => bind owner handle address t
  | _, .setPasscred owner handle enabled, t => setPasscred owner handle enabled t
  | _, .passcred owner handle, t => (passcred owner handle t, t)
  | _, .send owner handle destination input flags, t => send owner handle destination input flags t
  | _, .receive owner handle size flags, t => receive owner handle size flags t
  | _, .readiness owner handle, t => (readiness owner handle t, t)
  | _, .readinessGeneration owner handle, t => (readinessGeneration owner handle t, t)
  | _, .localAddress owner handle, t => (localAddress owner handle t, t)
  | _, .peerAddress owner handle, t => (peerAddress owner handle t, t)
  | _, .close owner handle, t => close owner handle t

end ArachKernel.LinuxDatagram
