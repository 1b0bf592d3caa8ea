import ArachKernel.Linux.Fd

/-!
Descriptor operations on one backend (`linux_fd.rs`): creating descriptors, and the sockets.
At the end, what the kernel can come to from boot.
-/

namespace ArachKernel.LinuxFd

open KernelProg

/-! ### Creating descriptors -/

/-- Install a new backend; if the registry has no room for it, undo its creation. -/
def installOr {α : Type} (install : KernelProg (Answer α)) (undo : KernelProg Unit) :
    KernelProg (Answer α) := do
  match ← install with
  | .ok fd => pure (.ok fd)
  | .error error =>
    undo
    pure (.error error)

variable (owner : ProcessHandle) (fd : ℕ)

def installObject (kind : OpenObjectKind) (statusFlags : Flags)
    (closeOnExec : Bool) : KernelProg (Answer ℕ) :=
  registry (.installBackendObject owner owner kind statusFlags closeOnExec)

/-- Create a backend and install it. -/
def createObject {ε : Type} (create : KernelProg (Except ε ℕ))
    (f : ε → DescriptorError) (kind : ℕ → OpenObjectKind) (statusFlags : Flags)
    (closeOnExec : Bool) : KernelProg (Answer ℕ) := do
  match ← create with
  | .error error => pure (.error (f error))
  | .ok backend =>
    installOr (installObject owner (kind backend) statusFlags closeOnExec)
      (closeBackendWith finalize owner (kind backend))

/-- The errors of creating an event counter. -/
def eventfdCreateError : LinuxEventfd.EventFdError → DescriptorError
  | .invalidArgument => .invalidArgument
  | .capacity => .capacity
  | _ => .io

def eventfdCreate (initial : ℕ) (flags : Flags) : KernelProg (Answer ℕ) :=
  createObject owner (eventfd (.create owner.pid initial flags)) eventfdCreateError .eventFd
    (LinuxFile.oRdwr ||| (flags &&& LinuxEventfd.efdNonblock))
    (flags &&& LinuxEventfd.efdCloexec != 0)

/-- When the new epoll object cannot be installed, the watches its closing returns
are ignored. -/
def epollCreate (flags : Flags) : KernelProg (Answer ℕ) := do
  match ← epoll (.create owner flags) with
  | .error error => pure (.error (mapEpollError error))
  | .ok backend =>
    installOr (installObject owner (.epoll backend) LinuxFile.oRdwr
        (flags &&& LinuxEpoll.epollCloexec != 0)) do
      let _ ← epoll (.close owner backend LinuxEpoll.maximumEpollWatches)

/-- Install two new backends, or undo the creation of both. -/
def installPair (first : OpenObjectKind) (firstFlags : Flags) (second : OpenObjectKind)
    (secondFlags : Flags) (closeOnExec : Bool) : KernelProg (Answer (ℕ × ℕ)) :=
  installOr (registry (.installObjectPair owner first firstFlags second secondFlags closeOnExec)) do
      closeBackendWith finalize owner first
      closeBackendWith finalize owner second

/-- The status flags of a new socket. -/
def socketStatus (flags : Flags) : Flags :=
  LinuxFile.oRdwr ||| (if flags &&& LinuxSocket.sockNonblock ≠ 0 then LinuxFile.oNonblock else 0)

def socketCreate (domain : ℕ) (socketType : Flags) (protocol : ℕ) : KernelProg (Answer ℕ) :=
  let closeOnExec := socketType &&& LinuxSocket.sockCloexec != 0
  if socketType &&& ~~~(LinuxSocket.socketTypeMask ||| LinuxSocket.socketAllowedFlags) ≠ 0 then
    pure (.error .invalidArgument)
  else if socketType &&& LinuxSocket.socketTypeMask = LinuxSocket.sockStream then
    createObject owner (socket (.create owner domain socketType protocol)) mapSocketError
      .unixSocket (socketStatus socketType) closeOnExec
  else if socketType &&& LinuxSocket.socketTypeMask = LinuxSocket.sockDgram then
    if domain ≠ LinuxSocket.afUnix ∨ protocol ≠ 0 then pure (.error .operationNotSupported)
    else createObject owner (datagram (.create owner)) mapDatagramError .unixDatagram
      (socketStatus socketType) closeOnExec
  else pure (.error .operationNotSupported)

def socketPair (domain : ℕ) (socketType : Flags) (protocol : ℕ) : KernelProg (Answer (ℕ × ℕ)) := do
  match ← socket (.createPair owner domain socketType protocol) with
  | .error error => pure (.error (mapSocketError error))
  | .ok (first, second) =>
    installPair owner (.unixSocket first) (socketStatus socketType) (.unixSocket second)
      (socketStatus socketType) (socketType &&& LinuxSocket.sockCloexec != 0)

/-! ### Sockets -/

/-- Work on the stream socket of a descriptor. -/
def withSocket {α : Type}
    (body : ProcessHandle → ℕ → KernelProg (Except LinuxSocket.SocketError α)) :
    KernelProg (Answer α) :=
  withDescriptor owner fd fun lease =>
    match lease.kind with
    | .unixSocket handle => mapped mapSocketError (body lease.owner handle)
    | _ => pure (.error .notSocket)

/-- Work on the stream or datagram socket of a descriptor. -/
def withAnySocket {α : Type} (stream : ProcessHandle → ℕ → KernelProg (Answer α))
    (dgram : ProcessHandle → ℕ → KernelProg (Answer α)) : KernelProg (Answer α) :=
  withDescriptor owner fd fun lease =>
    match lease.kind with
    | .unixSocket handle => stream lease.owner handle
    | .unixDatagram handle => dgram lease.owner handle
    | _ => pure (.error .notSocket)

def bindSocket (address : UnixAddress) : KernelProg (Answer Unit) :=
  withAnySocket owner fd
    (fun owner handle => mapped mapSocketError (socket (.bind owner handle address)))
    (fun owner handle => mapped mapDatagramError (datagram (.bind owner handle address)))

def listenSocket (fd backlog : ℕ) : KernelProg (Answer Unit) :=
  withSocket owner fd fun owner handle => socket (.listen owner handle backlog)

def connectSocket (address : UnixAddress) : KernelProg (Answer Unit) :=
  withSocket owner fd fun owner handle => socket (.connect owner handle address)

/-- The part of `accept_socket` under the lease on the listener: the accepted
endpoint, its owner, and the peer's address. -/
def acceptBackend : KernelProg (Answer (ProcessHandle × ℕ × UnixAddress)) :=
  withSocket owner fd fun owner handle => do
    let accepted ← socket (.accept owner handle)
    pure (accepted.map fun accepted => (owner, accepted))

def acceptSocket (flags : Flags) : KernelProg (Answer (ℕ × UnixAddress)) :=
  if flags &&& ~~~(LinuxSocket.sockNonblock ||| LinuxSocket.sockCloexec) ≠ 0 then
    pure (.error .invalidArgument)
  else do
    match ← acceptBackend owner fd with
    | .error error => pure (.error error)
    | .ok (backendOwner, backend, peer) =>
      let installed ← installOr
        (registry (.installBackendObject owner backendOwner (.unixSocket backend)
          (socketStatus flags) (flags &&& LinuxSocket.sockCloexec != 0)))
        (closeSocket backendOwner backend)
      pure (installed.map fun accepted => (accepted, peer))

/-- `linux_socket::send`: a message without descriptors. -/
def sendPlain (handle : ℕ) (input : List UInt8) (flags : Flags) :
    KernelProg (Except LinuxSocket.SocketError ℕ) := do
  let (result, _) ← socket (.sendMessage owner handle input flags [])
  pure result

/-- `linux_socket::receive`: received descriptors are released. -/
def receivePlain (handle size : ℕ) (flags : Flags) :
    KernelProg (Except LinuxSocket.SocketError (List UInt8)) := do
  match ← socket (.receiveMessage owner handle size flags maximumTransferDescriptors) with
  | .error error => pure (.error error)
  | .ok (bytes, discarded) =>
    releaseTransfers discarded
    pure (.ok bytes)

/-- `linux_unix_dgram::receive`, for the bytes only. -/
def receiveBytes (handle size : ℕ) (flags : Flags) : KernelProg (Answer (List UInt8)) := do
  let received ← datagram (.receive owner handle size flags)
  pure ((received.map (·.bytes)).mapError mapDatagramError)

def sendSocket (input : List UInt8) (flags : Flags) : KernelProg (Answer ℕ) :=
  withSocket owner fd fun owner handle => sendPlain owner handle input flags

/-- Send under the lease; the second answer are the tokens still to be released. -/
def sendLeased (lease : ObjectLease) (input : List UInt8) (flags : Flags)
    (tokens : List TransferToken) : KernelProg (Answer ℕ × List TransferToken) :=
  match lease.kind with
  | .unixSocket handle => do
    let (result, leftover) ← socket (.sendMessage lease.owner handle input flags tokens)
    pure (result.mapError mapSocketError, leftover)
  | _ => pure (.error .notSocket, tokens)

def sendSocketWithRights (input : List UInt8) (flags : Flags)
    (descriptors : List ℕ) : KernelProg (Answer ℕ) := do
  match ← registry (.captureTransfers owner descriptors) with
  | .error error => pure (.error error)
  | .ok tokens =>
    match ← registry (.acquireDescriptor owner fd) with
    | .error error =>
      releaseTransfers tokens
      pure (.error error)
    | .ok lease =>
      let (result, leftover) ← sendLeased lease input flags tokens
      releaseLease lease
      releaseTransfers leftover
      pure result

structure ReceivedSocketMessage where
  bytes : List UInt8
  descriptors : List ℕ
  controlTruncated : Bool
  deriving DecidableEq

/-- Install what fits of the received tokens, and release the others. -/
def installReceived (closeOnExec : Bool) (room : ℕ) (bytes : List UInt8)
    (tokens : List TransferToken) : KernelProg (Answer ReceivedSocketMessage) := do
  match ← registry (.installTransfers owner (tokens.take room) closeOnExec room) with
  | .error error =>
    releaseTransfers tokens
    pure (.error error)
  | .ok descriptors =>
    releaseTransfers (tokens.drop room)
    pure (.ok { bytes, descriptors, controlTruncated := descriptors.length != tokens.length })

def receiveSocketWithRights (fd size : ℕ) (flags : Flags)
    (closeOnExec : Bool) (room : ℕ) : KernelProg (Answer ReceivedSocketMessage) := do
  let received ← withSocket owner fd fun owner handle =>
    socket (.receiveMessage owner handle size flags maximumTransferDescriptors)
  match received with
  | .error error => pure (.error error)
  | .ok (bytes, tokens) => installReceived owner closeOnExec room bytes tokens

def receiveSocket (fd size : ℕ) (flags : Flags) : KernelProg (Answer (List UInt8)) :=
  withAnySocket owner fd
    (fun owner handle => mapped mapSocketError (receivePlain owner handle size flags))
    (fun owner handle => receiveBytes owner handle size flags)

/-! ### Runs -/

namespace Kernel

/-- The kernel before the first event. -/
def boot (now : ℕ) (files : LinuxFile.FileAnswers LinuxFile.FileError)
    (memfds : LinuxFile.FileAnswers LinuxMemfd.MemfdError) : Kernel where
  registry := .empty
  epolls := LinuxEpoll.EpollTable.new
  sockets := .new
  datagrams := fun _ => .empty
  pipes := .new
  eventfds := fun _ => .empty
  timerfds := fun _ => .empty
  signalfds := fun _ => .empty
  signals := .new
  now := now
  files := files
  memfds := memfds
  journal := .empty
  exhausted := false

/-- The states reached from boot, by sections of any operations in any order. -/
def Reached (s : Kernel) : Prop :=
  ∃ now files memfds, Reachable exec (boot now files memfds) s

theorem Reached.run {β : Type} {s : Kernel} (hs : Reached s) (p : KernelProg β) :
    Reached (p.run exec s).2 := by
  obtain ⟨now, files, memfds, hs⟩ := hs
  exact ⟨now, files, memfds, hs.run p⟩

end Kernel

/-! ### The states of the examples -/

/-- The kernel after boot. There are no files yet, so every question about one is refused. -/
def idle : Kernel :=
  .boot 0 ⟨fun _ _ => .error .badFileDescriptor, fun _ _ => .error .badFileDescriptor⟩
    ⟨fun _ _ => .error .badFileDescriptor, fun _ _ => .error .badFileDescriptor⟩

theorem Kernel.reached_idle : Reached idle := ⟨_, _, _, .start⟩

def caller : ProcessHandle := { pid := 1, generation := 1 }

end ArachKernel.LinuxFd
