import ArachKernel.Lib.Handle
import ArachKernel.Lib.Prog
import ArachKernel.Lib.Ring
import ArachKernel.Lib.Table
import ArachKernel.Process.Lifecycle

/-!
Unix-domain stream sockets (`linux_socket.rs`). Three tables refer to each other:
endpoints, the connections between two endpoints, and the queue of not yet
accepted endpoints that a listening endpoint carries. Each direction of a
connection is a ring of bytes and a ring of rights records; a record is tied to
the stream position at which it was sent.

Every public function is one section under the registry lock; the tokens that
`receive`, `shutdown` and `close` give up are part of the answer and are released
by the caller afterwards.
-/

namespace ArachKernel.LinuxSocket

open Table Function

def afUnix : ℕ := 1
def sockStream : Flags := 1
def sockDgram : Flags := 2
def sockNonblock : Flags := 0x800
def sockCloexec : Flags := 0x80000
def socketTypeMask : Flags := 0xf
def socketAllowedFlags : Flags := sockNonblock ||| sockCloexec

def shutRd : ℕ := 0
def shutWr : ℕ := 1
def shutRdwr : ℕ := 2

def msgPeek : Flags := 0x2
def msgDontwait : Flags := 0x40
def msgNosignal : Flags := 0x4000
def sendFlags : Flags := msgDontwait ||| msgNosignal
def receiveFlags : Flags := msgPeek ||| msgDontwait

def socketBufferBytes : ℕ := 4096
def maximumListenBacklog : ℕ := 8
def maximumRightsRecords : ℕ := 8
abbrev maximumEndpoints : ℕ := 64
abbrev maximumConnections : ℕ := 32
abbrev EndpointIndex := Fin maximumEndpoints
abbrev ConnectionIndex := Fin maximumConnections
def endpointIndexBits : ℕ := 8
def maximumEndpointGeneration : ℕ := u32Max >>> endpointIndexBits

inductive SocketError
  | invalidArgument
  | badFileDescriptor
  | addressFamilyNotSupported
  | addressInUse
  | connectionRefused
  | alreadyConnected
  | notConnected
  | wouldBlock
  | brokenPipe
  | capacity
  | operationNotSupported
  deriving DecidableEq

structure PeerCredentials where
  pid : ℕ
  uid : ℕ
  gid : ℕ
  deriving DecidableEq

inductive EndpointState
  | unbound
  | bound
  | listening
  | connected
  deriving DecidableEq

/-- The two ends of a connection. -/
abbrev Side := Fin 2

/-- An endpoint. `connectionIndex` is `none` where the source stores `u8::MAX`;
`pending` holds the handles waiting to be accepted; `readinessAdvances` counts the
advances of the readiness generation. -/
structure EndpointSlot where
  occupied : Bool
  generation : ℕ
  owner : ProcessHandle
  state : EndpointState
  address : UnixAddress
  connectionIndex : Option ConnectionIndex
  connectionGeneration : ℕ
  side : Side
  backlog : ℕ
  pending : Ring ℕ
  readinessAdvances : ℕ

def EndpointSlot.empty : EndpointSlot where
  occupied := false
  generation := 0
  owner := .empty
  state := .unbound
  address := .unnamed
  connectionIndex := none
  connectionGeneration := 0
  side := 0
  backlog := 0
  pending := .empty 0
  readinessAdvances := 0

/-! ### Byte and rights queues -/

/-- The bytes in flight in one direction; `sequence` is the stream position of the
head. -/
structure ByteQueue where
  ring : Ring UInt8
  sequence : ℕ

namespace ByteQueue

def empty : ByteQueue := { ring := .empty 0, sequence := 0 }

/-- Drop the contents; the stream position moves past them. -/
def clear (q : ByteQueue) : ByteQueue :=
  { ring := .empty 0, sequence := (q.sequence + q.ring.length) % 2 ^ 64 }

def tailSequence (q : ByteQueue) : Option ℕ := checkedAdd u64Max q.sequence q.ring.length

end ByteQueue

/-- The descriptors sent with one message. `sequence` is the stream position of
the message's first byte; the number of tokens is the record's `count`. -/
structure RightsRecord where
  sequence : ℕ
  tokens : List TransferToken

def RightsRecord.empty : RightsRecord := { sequence := 0, tokens := [] }

abbrev RightsQueue := Ring RightsRecord

namespace RightsQueue

def empty : RightsQueue := Ring.empty .empty

def push (sequence : ℕ) (tokens : List TransferToken) (q : RightsQueue) :
    Except SocketError RightsQueue :=
  if tokens.isEmpty ∨ maximumTransferDescriptors < tokens.length ∨
      maximumRightsRecords ≤ q.length ∨ tokens.any (·.isEmpty) then
    .error .capacity
  else .ok (Ring.push maximumRightsRecords { sequence, tokens } q)

def record (offset : ℕ) (q : RightsQueue) : Option RightsRecord :=
  if q.length ≤ offset then none
  else some (q.cells ((q.head + offset) % maximumRightsRecords))

/-- Remove the first record. `room` is the space left in the caller's buffer:
tokens beyond it are not handed out. -/
def pop (room : ℕ) (q : RightsQueue) : List TransferToken × RightsQueue :=
  if q.length = 0 then ([], q)
  else ((q.cells q.head).tokens.take room, Ring.pop maximumRightsRecords .empty q)

/-- Remove `count` records into one buffer. -/
def drainLoop : ℕ → ℕ → RightsQueue → List TransferToken × RightsQueue
  | 0, _, q => ([], q)
  | count + 1, room, q =>
    let first := pop room q
    let rest := drainLoop count (room - first.1.length) first.2
    (first.1 ++ rest.1, rest.2)

/-- Remove all records into a buffer of `room` tokens. -/
def drain (room : ℕ) (q : RightsQueue) : List TransferToken × RightsQueue :=
  let drained := drainLoop q.length room q
  (drained.1, { drained.2 with head := 0 })

end RightsQueue

/-! ### Connections -/

/-- A connection; index `side` of each pair belongs to the endpoint of that side,
and `outgoing side` is what that endpoint has sent. -/
structure ConnectionSlot where
  occupied : Bool
  generation : ℕ
  endpointHandles : Side → ℕ
  owners : Side → ProcessHandle
  addresses : Side → UnixAddress
  endpointOpen : Side → Bool
  readOpen : Side → Bool
  writeOpen : Side → Bool
  outgoing : Side → ByteQueue
  outgoingRights : Side → RightsQueue
  readinessAdvances : ℕ

namespace ConnectionSlot

/-- An unused slot at a generation. -/
def vacant (generation : ℕ) : ConnectionSlot where
  occupied := false
  generation := generation
  endpointHandles := fun _ => 0
  owners := fun _ => .empty
  addresses := fun _ => .unnamed
  endpointOpen := fun _ => false
  readOpen := fun _ => false
  writeOpen := fun _ => false
  outgoing := fun _ => .empty
  outgoingRights := fun _ => .empty
  readinessAdvances := 0

def empty : ConnectionSlot := vacant 0

/-- A fresh connection between two endpoints. -/
def initialized (generation : ℕ) (handles : Side → ℕ) (owners : Side → ProcessHandle)
    (addresses : Side → UnixAddress) : ConnectionSlot where
  occupied := true
  generation := generation
  endpointHandles := handles
  owners := owners
  addresses := addresses
  endpointOpen := fun _ => true
  readOpen := fun _ => true
  writeOpen := fun _ => true
  outgoing := fun _ => .empty
  outgoingRights := fun _ => .empty
  readinessAdvances := 1

variable (c : ConnectionSlot)

def resetPreservingGeneration : ConnectionSlot := vacant c.generation

def setOutgoing (side : Side) (q : ByteQueue) : ConnectionSlot :=
  { c with outgoing := update c.outgoing side q }

def setRights (side : Side) (q : RightsQueue) : ConnectionSlot :=
  { c with outgoingRights := update c.outgoingRights side q }

def advanceGeneration : ConnectionSlot :=
  { c with readinessAdvances := c.readinessAdvances + 1 }

end ConnectionSlot

structure SocketRegistry where
  endpoints : EndpointIndex → EndpointSlot
  connections : ConnectionIndex → ConnectionSlot

namespace SocketRegistry

def new : SocketRegistry := { endpoints := fun _ => .empty, connections := fun _ => .empty }

def setEndpoint (r : SocketRegistry) (i : EndpointIndex) (e : EndpointSlot) : SocketRegistry :=
  { r with endpoints := update r.endpoints i e }

def setConnection (r : SocketRegistry) (i : ConnectionIndex) (c : ConnectionSlot) :
    SocketRegistry :=
  { r with connections := update r.connections i c }

end SocketRegistry

/-- The 64-bit readiness generation after a number of advances from zero: it wraps
around from its maximum to one. -/
def readinessValue (advances : ℕ) : ℕ :=
  if advances = 0 then 0 else (advances - 1) % (2 ^ 64 - 1) + 1

def nextEndpointGeneration (current : ℕ) : Option ℕ :=
  (checkedAdd u32Max current 1).filter (· ≤ maximumEndpointGeneration)

def nextConnectionGeneration (current : ℕ) : Option ℕ :=
  (checkedAdd u32Max current 1).filter (· ≠ 0)

def encodeEndpoint (index generation : ℕ) : Option ℕ :=
  Handle.encode endpointIndexBits maximumEndpoints maximumEndpointGeneration index generation

variable (c : ConnectionSlot) (r : SocketRegistry) (owner : ProcessHandle) (handle : ℕ)

def decodeEndpoint : Option (EndpointIndex × ℕ) :=
  Handle.decode endpointIndexBits maximumEndpoints handle

/-- The endpoint a handle names for `owner`. -/
def resolvedEndpoint : Except SocketError (EndpointIndex × EndpointSlot) :=
  match decodeEndpoint handle with
  | none => .error .badFileDescriptor
  | some (index, generation) =>
    let endpoint := r.endpoints index
    if !endpoint.occupied || endpoint.generation != generation || endpoint.owner != owner then
      .error .badFileDescriptor
    else .ok (index, endpoint)

/-- The connection and side of a connected endpoint. -/
def resolvedConnection (endpoint : EndpointSlot) (handle : ℕ) :
    Except SocketError (ConnectionIndex × Side) :=
  if endpoint.state ≠ .connected then .error .notConnected
  else
    match endpoint.connectionIndex with
    | none => .error .badFileDescriptor
    | some connectionIndex =>
      let connection := r.connections connectionIndex
      if connection.occupied && connection.generation == endpoint.connectionGeneration &&
          connection.endpointHandles endpoint.side == handle &&
          connection.owners endpoint.side == endpoint.owner then
        .ok (connectionIndex, endpoint.side)
      else .error .badFileDescriptor

/-- Both lookups, as most functions make them. -/
def resolved : Except SocketError (ConnectionIndex × Side) :=
  match resolvedEndpoint r owner handle with
  | .error e => .error e
  | .ok (_, endpoint) => resolvedConnection r endpoint handle

def retireEndpoint (i : EndpointIndex) : SocketRegistry :=
  r.setEndpoint i { EndpointSlot.empty with generation := (r.endpoints i).generation }

/-! ### Creating endpoints -/

def initializeEndpoint (i : EndpointIndex) (owner : ProcessHandle) :
    Except SocketError ℕ × SocketRegistry :=
  match nextEndpointGeneration (r.endpoints i).generation with
  | none => (.error .capacity, r)
  | some generation =>
    match encodeEndpoint i generation with
    | none => (.error .capacity, r)
    | some handle =>
      (.ok handle, r.setEndpoint i
        { EndpointSlot.empty with
          occupied := true, generation, owner, readinessAdvances := 1 })

def initializeConnectedEndpoint (i : EndpointIndex)
    (owner : ProcessHandle) (connectionIndex : ConnectionIndex)
    (connectionGeneration : ℕ) (side : Side) : Except SocketError ℕ × SocketRegistry :=
  match initializeEndpoint r i owner with
  | (.error e, r) => (.error e, r)
  | (.ok handle, r) =>
    (.ok handle, r.setEndpoint i
      { r.endpoints i with
        state := .connected, connectionIndex := some connectionIndex, connectionGeneration,
        side })

def validateCreate (domain : ℕ) (socketType : Flags) (protocol : ℕ) : Except SocketError Unit :=
  if domain ≠ afUnix then .error .addressFamilyNotSupported
  else if socketType &&& ~~~(socketTypeMask ||| socketAllowedFlags) ≠ 0 then .error .invalidArgument
  else if socketType &&& socketTypeMask ≠ sockStream ∨ protocol ≠ 0 then
    .error .operationNotSupported
  else .ok ()

def create (domain : ℕ) (socketType : Flags) (protocol : ℕ)
    (r : SocketRegistry) : Except SocketError ℕ × SocketRegistry :=
  if !owner.valid then (.error .invalidArgument, r)
  else
    match validateCreate domain socketType protocol with
    | .error e => (.error e, r)
    | .ok () =>
      match position fun i => !(r.endpoints i).occupied with
      | none => (.error .capacity, r)
      | some i => initializeEndpoint r i owner

def createPair (domain : ℕ) (socketType : Flags) (protocol : ℕ)
    (r : SocketRegistry) : Except SocketError (ℕ × ℕ) × SocketRegistry :=
  if !owner.valid then (.error .invalidArgument, r)
  else
    match validateCreate domain socketType protocol with
    | .error e => (.error e, r)
    | .ok () =>
      match position fun i => !(r.endpoints i).occupied with
      | none => (.error .capacity, r)
      | some firstIndex =>
        match position fun i => i != firstIndex && !(r.endpoints i).occupied with
        | none => (.error .capacity, r)
        | some secondIndex =>
          match position fun i => !(r.connections i).occupied with
          | none => (.error .capacity, r)
          | some connectionIndex =>
            match nextConnectionGeneration (r.connections connectionIndex).generation with
            | none => (.error .capacity, r)
            | some connectionGeneration =>
              match initializeConnectedEndpoint r firstIndex owner connectionIndex
                  connectionGeneration 0 with
              | (.error e, r) => (.error e, r)
              | (.ok first, r) =>
                match initializeConnectedEndpoint r secondIndex owner connectionIndex
                    connectionGeneration 1 with
                | (.error e, r) => (.error e, retireEndpoint r firstIndex)
                | (.ok second, r) =>
                  (.ok (first, second), r.setConnection connectionIndex
                    (.initialized connectionGeneration ![first, second]
                      (fun _ => owner) fun _ => .unnamed))

/-! ### Naming and connecting -/

def bind (address : UnixAddress) (r : SocketRegistry) : Except SocketError Unit × SocketRegistry :=
  if address.isUnnamed then (.error .invalidArgument, r)
  else
    match resolvedEndpoint r owner handle with
    | .error e => (.error e, r)
    | .ok (index, endpoint) =>
      if endpoint.state ≠ .unbound then (.error .invalidArgument, r)
      else
        match position fun other => other != index && (r.endpoints other).occupied &&
            !(r.endpoints other).address.isUnnamed && (r.endpoints other).address == address with
        | some _ => (.error .addressInUse, r)
        | none =>
          (.ok (), r.setEndpoint index
            { endpoint with
              state := .bound, address,
              readinessAdvances := endpoint.readinessAdvances + 1 })

def listen (handle backlog : ℕ) (r : SocketRegistry) : Except SocketError Unit × SocketRegistry :=
  match resolvedEndpoint r owner handle with
  | .error e => (.error e, r)
  | .ok (index, endpoint) =>
    if endpoint.state ≠ .bound ∧ endpoint.state ≠ .listening then (.error .invalidArgument, r)
    else
      (.ok (), r.setEndpoint index
        { endpoint with
          state := .listening
          backlog := max 1 (min backlog maximumListenBacklog)
          readinessAdvances := endpoint.readinessAdvances + 1 })

/-- The listening endpoint bound to an address. -/
def findListener (address : UnixAddress) : Option EndpointIndex :=
  position fun i => (r.endpoints i).occupied && (r.endpoints i).state == .listening &&
    (r.endpoints i).address == address

def connect (address : UnixAddress) (r : SocketRegistry) :
    Except SocketError Unit × SocketRegistry :=
  if address.isUnnamed then (.error .invalidArgument, r)
  else
    match resolvedEndpoint r owner handle with
    | .error e => (.error e, r)
    | .ok (clientIndex, client) =>
      match client.state with
      | .connected => (.error .alreadyConnected, r)
      | .listening => (.error .invalidArgument, r)
      | .unbound | .bound =>
        match findListener r address with
        | none => (.error .connectionRefused, r)
        | some listenerIndex =>
          let listener := r.endpoints listenerIndex
          if listener.backlog ≤ listener.pending.length then (.error .wouldBlock, r)
          else
            match position fun i => !(r.endpoints i).occupied with
            | none => (.error .capacity, r)
            | some serverIndex =>
              match position fun i => !(r.connections i).occupied with
              | none => (.error .capacity, r)
              | some connectionIndex =>
                match nextConnectionGeneration
                    (r.connections connectionIndex).generation with
                | none => (.error .capacity, r)
                | some connectionGeneration =>
                  match initializeConnectedEndpoint r serverIndex listener.owner
                      connectionIndex connectionGeneration 1 with
                  | (.error e, r) => (.error e, r)
                  | (.ok serverHandle, r) =>
                    let clientEndpoint := r.endpoints clientIndex
                    let r := r.setEndpoint clientIndex
                      { clientEndpoint with
                        state := .connected
                        connectionIndex := some connectionIndex
                        connectionGeneration
                        side := 0
                        readinessAdvances := clientEndpoint.readinessAdvances + 1 }
                    let r := r.setConnection connectionIndex
                      (.initialized connectionGeneration ![handle, serverHandle]
                        ![owner, listener.owner] ![client.address, listener.address])
                    let listener := r.endpoints listenerIndex
                    (.ok (), r.setEndpoint listenerIndex
                      { listener with
                        pending := listener.pending.push maximumListenBacklog serverHandle
                        readinessAdvances := listener.readinessAdvances + 1 })

def accept (r : SocketRegistry) : Except SocketError (ℕ × UnixAddress) × SocketRegistry :=
  match resolvedEndpoint r owner handle with
  | .error e => (.error e, r)
  | .ok (listenerIndex, listener) =>
    if listener.state ≠ .listening then (.error .invalidArgument, r)
    else if listener.pending.length = 0 then (.error .wouldBlock, r)
    else
      let accepted := listener.pending.cells listener.pending.head
      match resolved r owner accepted with
      | .error e => (.error e, r)
      | .ok (connectionIndex, side) =>
        let peer := (r.connections connectionIndex).addresses (1 - side)
        (.ok (accepted, peer), r.setEndpoint listenerIndex
          { listener with
            pending := listener.pending.pop maximumListenBacklog 0
            readinessAdvances := listener.readinessAdvances + 1 })

/-! ### Sending and receiving -/

/-- How many bytes a receive takes, and whether it delivers the first rights
record. A receive that delivers a record stops before the next record's position. -/
def receivePlan (queue : ByteQueue) (rights : RightsQueue) (size : ℕ) (flags : Flags)
    (room : ℕ) : Except SocketError (ℕ × Bool) :=
  let copied := min size queue.ring.length
  match rights.record 0 with
  | none => .ok (copied, false)
  | some first =>
    match checkedAdd u64Max queue.sequence copied with
    | none => .error .capacity
    | some initialEnd =>
      if first.sequence < queue.sequence then .error .badFileDescriptor
      else
        match queue.tailSequence with
        | none => .error .capacity
        | some tail =>
          if tail ≤ first.sequence then .error .badFileDescriptor
          else if first.sequence < initialEnd ∧ flags &&& msgPeek = 0 then
            if room < first.tokens.length then .error .capacity
            else
              match rights.record 1 with
              | none => .ok (copied, true)
              | some second =>
                if second.sequence < initialEnd then
                  .ok (second.sequence - queue.sequence, true)
                else .ok (copied, true)
          else .ok (copied, false)

/-- Receive up to `size` bytes and, into a buffer of `room` tokens, at most one
rights record. -/
def receiveMessage (handle size : ℕ) (flags : Flags) (room : ℕ)
    (r : SocketRegistry) : Except SocketError (List UInt8 × List TransferToken) × SocketRegistry :=
  if flags &&& ~~~receiveFlags ≠ 0 then (.error .operationNotSupported, r)
  else
    match resolved r owner handle with
    | .error e => (.error e, r)
    | .ok (connectionIndex, side) =>
      let connection := r.connections connectionIndex
      if !connection.readOpen side then (.ok ([], []), r)
      else if size = 0 then (.ok ([], []), r)
      else
        let incoming := 1 - side
        let queue := connection.outgoing incoming
        let rights := connection.outgoingRights incoming
        if queue.ring.length = 0 then
          (if connection.writeOpen incoming then .error .wouldBlock else .ok ([], []), r)
        else
          match receivePlan queue rights size flags room with
          | .error e => (.error e, r)
          | .ok (copied, deliverRights) =>
            if flags &&& msgPeek ≠ 0 then
              (.ok ((List.range copied).map fun offset =>
                queue.ring.cells ((queue.ring.head + offset) % socketBufferBytes), []), r)
            else
              let moved := queue.ring.popMany socketBufferBytes copied
              match checkedAdd u64Max queue.sequence copied with
              | none =>
                -- the bytes have left the ring, but the position was not moved
                (.error .capacity, r.setConnection connectionIndex
                  (connection.setOutgoing incoming { queue with ring := moved.2 }))
              | some sequence =>
                let popped := if deliverRights then rights.pop room else ([], rights)
                (.ok (moved.1, popped.1), r.setConnection connectionIndex
                  ((connection.setOutgoing incoming { ring := moved.2, sequence }).setRights
                    incoming popped.2).advanceGeneration)

/-- Send a prefix of `input`, with a rights record at its first byte when there
are tokens. The answer says how many bytes went, and which tokens are still the
caller's. -/
def sendMessage (input : List UInt8) (flags : Flags) (tokens : List TransferToken)
    (r : SocketRegistry) : (Except SocketError ℕ × List TransferToken) × SocketRegistry :=
  if flags &&& ~~~sendFlags ≠ 0 then ((.error .operationNotSupported, tokens), r)
  else
    match resolved r owner handle with
    | .error e => ((.error e, tokens), r)
    | .ok (connectionIndex, side) =>
      let connection := r.connections connectionIndex
      if !connection.writeOpen side || !connection.readOpen (1 - side) then
        ((.error .brokenPipe, tokens), r)
      else if input.isEmpty then
        ((if tokens.isEmpty then .ok 0 else .error .invalidArgument, tokens), r)
      else
        let queue := connection.outgoing side
        let available := socketBufferBytes - queue.ring.length
        if available = 0 then ((.error .wouldBlock, tokens), r)
        else
          let copied := min input.length available
          match queue.tailSequence with
          | none => ((.error .capacity, tokens), r)
          | some rightsSequence =>
            let pushed := if tokens.isEmpty then .ok (connection.outgoingRights side)
              else (connection.outgoingRights side).push rightsSequence tokens
            match pushed with
            | .error e => ((.error e, tokens), r)
            | .ok rights =>
              let ring := queue.ring.pushAll socketBufferBytes (input.take copied)
              ((.ok copied, []), r.setConnection connectionIndex
                ((connection.setRights side rights).setOutgoing side
                  { queue with ring }).advanceGeneration)

/-! ### Shutting down and closing -/

/-- Stop receiving on one side: the incoming queues are emptied. -/
def discardIncoming (side : Side) (room : ℕ) : List TransferToken × ConnectionSlot :=
  let incoming := 1 - side
  let drained := (c.outgoingRights incoming).drain room
  (drained.1, ({ c with readOpen := update c.readOpen side false }.setOutgoing incoming
    (c.outgoing incoming).clear).setRights incoming drained.2)

def shutdown (handle how : ℕ) (r : SocketRegistry) :
    Except SocketError (List TransferToken) × SocketRegistry :=
  if shutRdwr < how then (.error .invalidArgument, r)
  else
    match resolved r owner handle with
    | .error e => (.error e, r)
    | .ok (connectionIndex, side) =>
      let connection := r.connections connectionIndex
      let discarded :=
        if how = shutRd ∨ how = shutRdwr then
          discardIncoming connection side (maximumRightsRecords * maximumTransferDescriptors)
        else ([], connection)
      let connection :=
        if how = shutWr ∨ how = shutRdwr then
          { discarded.2 with writeOpen := update discarded.2.writeOpen side false }
        else discarded.2
      (.ok discarded.1, r.setConnection connectionIndex connection.advanceGeneration)

/-- Give a connection up: both rights queues are emptied. -/
def retireConnection (room : ℕ) : List TransferToken × ConnectionSlot :=
  let first := (c.outgoingRights 0).drain room
  let second := (c.outgoingRights 1).drain (room - first.1.length)
  (first.1 ++ second.1, c.resetPreservingGeneration)

/-- The connection after the endpoint of `side` went away. -/
def closeSide (side : Side) (room : ℕ) : List TransferToken × ConnectionSlot :=
  let c := { c with
    endpointOpen := update c.endpointOpen side false
    writeOpen := update c.writeOpen side false }
  let discarded := discardIncoming c side room
  let c := discarded.2.advanceGeneration
  if !c.endpointOpen 0 && !c.endpointOpen 1 then
    let retired := retireConnection c (room - discarded.1.length)
    (discarded.1 ++ retired.1, retired.2)
  else (discarded.1, c)

def closeConnectedEndpoint (index : EndpointIndex) (room : ℕ) :
    List TransferToken × SocketRegistry :=
  let endpoint := r.endpoints index
  match endpoint.connectionIndex with
  | some connectionIndex =>
    let entry := r.connections connectionIndex
    if endpoint.state == EndpointState.connected && entry.occupied &&
        entry.generation == endpoint.connectionGeneration &&
        entry.endpointHandles endpoint.side ==
          (encodeEndpoint index endpoint.generation).getD 0 then
      let closed := closeSide entry endpoint.side room
      (closed.1, retireEndpoint (r.setConnection connectionIndex closed.2) index)
    else ([], retireEndpoint r index)
  | none => ([], retireEndpoint r index)

/-- Close the endpoints that wait in a listener's queue. -/
def closePending (owner : ProcessHandle) :
    List ℕ → ℕ → SocketRegistry → List TransferToken × SocketRegistry
  | [], _, r => ([], r)
  | handle :: rest, room, r =>
    let closed := match decodeEndpoint handle with
      | none => ([], r)
      | some (index, generation) =>
        let queued := r.endpoints index
        if queued.occupied && queued.generation == generation && queued.owner == owner &&
            queued.state == EndpointState.connected then
          closeConnectedEndpoint r index room
        else ([], r)
    let others := closePending owner rest (room - closed.1.length) closed.2
    (closed.1 ++ others.1, others.2)

def maximumCloseDiscards : ℕ :=
  maximumListenBacklog * maximumRightsRecords * maximumTransferDescriptors

def close (r : SocketRegistry) : Except SocketError (List TransferToken) × SocketRegistry :=
  match resolvedEndpoint r owner handle with
  | .error e => (.error e, r)
  | .ok (index, endpoint) =>
    let closed :=
      if endpoint.state = .listening then
        closePending owner (endpoint.pending.toList maximumListenBacklog) maximumCloseDiscards
          (retireEndpoint r index)
      else closeConnectedEndpoint r index maximumCloseDiscards
    (.ok closed.1, closed.2)

/-! ### Queries -/

/-- The readiness of one side of a connection. -/
def sideReadiness (side : Side) : Flags :=
  let peer := 1 - side
  (if (c.outgoing peer).ring.length ≠ 0 ∨ !c.writeOpen peer then readyIn else 0) |||
    (if c.writeOpen side ∧ c.readOpen peer ∧ (c.outgoing side).ring.length < socketBufferBytes
      then readyOut else 0) |||
    (if !c.readOpen peer then readyErr else 0) |||
    (if !c.writeOpen peer then readyHup else 0)

def readiness (r : SocketRegistry) : Except SocketError Flags :=
  match resolvedEndpoint r owner handle with
  | .error e => .error e
  | .ok (_, endpoint) =>
    if endpoint.state = .listening then
      .ok (if endpoint.pending.length = 0 then 0 else readyIn)
    else
      match resolvedConnection r endpoint handle with
      | .error e => .error e
      | .ok (connectionIndex, side) => .ok (sideReadiness (r.connections connectionIndex) side)

def readinessGeneration (r : SocketRegistry) : Except SocketError ℕ :=
  match resolvedEndpoint r owner handle with
  | .error e => .error e
  | .ok (_, endpoint) =>
    if endpoint.state = .listening then .ok (readinessValue endpoint.readinessAdvances)
    else
      match resolvedConnection r endpoint handle with
      | .error e => .error e
      | .ok (connectionIndex, _) =>
        .ok (readinessValue (r.connections connectionIndex).readinessAdvances)

def localAddress (r : SocketRegistry) : Except SocketError UnixAddress :=
  match resolvedEndpoint r owner handle with
  | .error e => .error e
  | .ok (_, endpoint) =>
    if endpoint.state = .connected then
      match resolvedConnection r endpoint handle with
      | .error e => .error e
      | .ok (connectionIndex, side) => .ok ((r.connections connectionIndex).addresses side)
    else .ok endpoint.address

def peerAddress (r : SocketRegistry) : Except SocketError UnixAddress :=
  match resolved r owner handle with
  | .error e => .error e
  | .ok (connectionIndex, side) => .ok ((r.connections connectionIndex).addresses (1 - side))

def peerCredentials (r : SocketRegistry) : Except SocketError PeerCredentials :=
  match resolved r owner handle with
  | .error e => .error e
  | .ok (connectionIndex, side) =>
    .ok { pid := ((r.connections connectionIndex).owners (1 - side)).pid, uid := 0, gid := 0 }

def isListener (r : SocketRegistry) : Except SocketError Bool :=
  match resolvedEndpoint r owner handle with
  | .error e => .error e
  | .ok (_, endpoint) => .ok (endpoint.state == .listening)

inductive SocketCall : Type → Type
  | create (owner : ProcessHandle) (domain : ℕ) (socketType : Flags) (protocol : ℕ) :
      SocketCall (Except SocketError ℕ)
  | createPair (owner : ProcessHandle) (domain : ℕ) (socketType : Flags) (protocol : ℕ) :
      SocketCall (Except SocketError (ℕ × ℕ))
  | bind (owner : ProcessHandle) (handle : ℕ) (address : UnixAddress) :
      SocketCall (Except SocketError Unit)
  | listen (owner : ProcessHandle) (handle backlog : ℕ) : SocketCall (Except SocketError Unit)
  | connect (owner : ProcessHandle) (handle : ℕ) (address : UnixAddress) :
      SocketCall (Except SocketError Unit)
  | accept (owner : ProcessHandle) (handle : ℕ) :
      SocketCall (Except SocketError (ℕ × UnixAddress))
  | receiveMessage (owner : ProcessHandle) (handle size : ℕ) (flags : Flags) (room : ℕ) :
      SocketCall (Except SocketError (List UInt8 × List TransferToken))
  | sendMessage (owner : ProcessHandle) (handle : ℕ) (input : List UInt8) (flags : Flags)
      (tokens : List TransferToken) : SocketCall (Except SocketError ℕ × List TransferToken)
  | shutdown (owner : ProcessHandle) (handle how : ℕ) :
      SocketCall (Except SocketError (List TransferToken))
  | close (owner : ProcessHandle) (handle : ℕ) :
      SocketCall (Except SocketError (List TransferToken))
  | readiness (owner : ProcessHandle) (handle : ℕ) : SocketCall (Except SocketError Flags)
  | readinessGeneration (owner : ProcessHandle) (handle : ℕ) : SocketCall (Except SocketError ℕ)
  | localAddress (owner : ProcessHandle) (handle : ℕ) :
      SocketCall (Except SocketError UnixAddress)
  | peerAddress (owner : ProcessHandle) (handle : ℕ) : SocketCall (Except SocketError UnixAddress)
  | peerCredentials (owner : ProcessHandle) (handle : ℕ) :
      SocketCall (Except SocketError PeerCredentials)
  | isListener (owner : ProcessHandle) (handle : ℕ) : SocketCall (Except SocketError Bool)

def exec : Handler SocketCall SocketRegistry
  | _, .create owner domain socketType protocol, r => create owner domain socketType protocol r
  | _, .createPair owner domain socketType protocol, r =>
    createPair owner domain socketType protocol r
  | _, .bind owner handle address, r => bind owner handle address r
  | _, .listen owner handle backlog, r => listen owner handle backlog r
  | _, .connect owner handle address, r => connect owner handle address r
  | _, .accept owner handle, r => accept owner handle r
  | _, .receiveMessage owner handle size flags room, r =>
    receiveMessage owner handle size flags room r
  | _, .sendMessage owner handle input flags tokens, r =>
    sendMessage owner handle input flags tokens r
  | _, .shutdown owner handle how, r => shutdown owner handle how r
  | _, .close owner handle, r => close owner handle r
  | _, .readiness owner handle, r => (readiness owner handle r, r)
  | _, .readinessGeneration owner handle, r => (readinessGeneration owner handle r, r)
  | _, .localAddress owner handle, r => (localAddress owner handle r, r)
  | _, .peerAddress owner handle, r => (peerAddress owner handle r, r)
  | _, .peerCredentials owner handle, r => (peerCredentials owner handle r, r)
  | _, .isListener owner handle, r => (isListener owner handle r, r)

end ArachKernel.LinuxSocket
