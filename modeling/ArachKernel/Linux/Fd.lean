import ArachKernel.Linux.Kernel

/-!
The descriptor operations that move references (`linux_fd.rs`): finalization,
leases, closing, duplicating, transfers and epoll. Each function is a program over
the sections of the kernel, in the order in which the source takes and leaves the
locks.
-/

namespace ArachKernel.LinuxFd

open LinuxEpoll KernelProg

abbrev Answer (α : Type) := Except DescriptorError α

/-! ### Errors -/

def mapFileError : LinuxFile.FileError → DescriptorError := .file

def mapMemfdError : LinuxMemfd.MemfdError → DescriptorError
  | .invalidArgument => .invalidArgument
  | .badFileDescriptor => .badFileDescriptor
  | .capacity => .capacity
  | .permissionDenied => .permissionDenied
  | .operationNotSupported => .operationNotSupported

def mapEventfdError : LinuxEventfd.EventFdError → DescriptorError
  | .invalidArgument => .invalidArgument
  | .badFileDescriptor => .badFileDescriptor
  | .wouldBlock | .overflow => .wouldBlock
  | .capacity => .capacity
  | .permissionDenied => .permissionDenied

def mapTimerfdError : LinuxTimerfd.TimerFdError → DescriptorError
  | .invalidArgument => .invalidArgument
  | .badFileDescriptor => .badFileDescriptor
  | .wouldBlock => .wouldBlock
  | .capacity => .capacity

def mapSignalfdError : LinuxSignalfd.SignalFdError → DescriptorError
  | .invalidArgument => .invalidArgument
  | .badFileDescriptor => .badFileDescriptor
  | .wouldBlock => .wouldBlock
  | .capacity => .capacity

def mapPipeError : LinuxPipe.PipeError → DescriptorError
  | .invalidArgument => .invalidArgument
  | .badFileDescriptor => .badFileDescriptor
  | .wouldBlock => .wouldBlock
  | .brokenPipe => .brokenPipe
  | .capacity => .capacity

def mapSocketError : LinuxSocket.SocketError → DescriptorError
  | .invalidArgument => .invalidArgument
  | .badFileDescriptor => .badFileDescriptor
  | .addressFamilyNotSupported => .addressFamilyNotSupported
  | .addressInUse => .addressInUse
  | .connectionRefused => .connectionRefused
  | .alreadyConnected => .alreadyConnected
  | .notConnected => .notConnected
  | .wouldBlock => .wouldBlock
  | .brokenPipe => .brokenPipe
  | .capacity => .capacity
  | .operationNotSupported => .operationNotSupported

def mapDatagramError : LinuxDatagram.DatagramError → DescriptorError
  | .invalidArgument => .invalidArgument
  | .badFileDescriptor => .badFileDescriptor
  | .addressInUse => .addressInUse
  | .connectionRefused => .connectionRefused
  | .wouldBlock => .wouldBlock
  | .capacity => .capacity
  | .notConnected => .notConnected
  | .operationNotSupported => .operationNotSupported

def mapEpollError : EpollError → DescriptorError
  | .invalidArgument => .invalidArgument
  | .badFileDescriptor => .badFileDescriptor
  | .capacity => .capacity
  | .alreadyExists => .alreadyExists
  | .notFound => .notFound

/-- A backend's answer, with its error mapped. -/
def mapped {ε α : Type} (f : ε → DescriptorError) (p : KernelProg (Except ε α)) :
    KernelProg (Answer α) := do
  let result ← p
  pure (result.mapError f)

/-! ### Finalization

Finalizing an object can drop the last reference to another one: an epoll object
drops its watches, a socket the descriptors queued in it. The functions take what
finalizes such an object as an argument; `finalizeObject` ties the knot, and bounds
the nesting. -/

section Finalize

variable (finalize : FinalObject → KernelProg Unit)

def dropKeyReferenceWith (key : ObjectKey) : KernelProg Unit := do
  let pending ← registry (.dropKeyReference key)
  Prog.each finalize pending.toList

def detachEpollWatchesWith (key : ObjectKey) : KernelProg Unit := do
  let detached ← epoll (.removeTarget key)
  Prog.each (dropKeyReferenceWith finalize) (List.replicate detached key)

/-- What follows a section that dropped descriptors. -/
def settleWith (leftover : Registry.Leftover) : KernelProg Unit := do
  Prog.each (detachEpollWatchesWith finalize) leftover.2.toList
  Prog.each finalize leftover.1.toList

def releaseTransferWith (token : TransferToken) : KernelProg Unit :=
  if token.isEmpty then pure ()
  else do
    let leftover ← registry (.releaseTransfer token)
    settleWith finalize leftover

def releaseTransfersWith (tokens : List TransferToken) : KernelProg Unit :=
  Prog.each (releaseTransferWith finalize) tokens

/-- `linux_socket::close`, with the release of what was queued. -/
def closeSocketWith (owner : ProcessHandle) (handle : ℕ) : KernelProg Unit := do
  match ← socket (.close owner handle) with
  | .error _ => pure ()
  | .ok discarded => releaseTransfersWith finalize discarded

/-- Close the backend of an object. -/
def closeBackendWith (owner : ProcessHandle) : OpenObjectKind → KernelProg Unit
  | .empty | .consoleInput | .consoleOutput | .consoleError => pure ()
  | .file fd => do let _ ← file (.close owner fd)
  | .memFd fd => do let _ ← memfd (.close owner fd)
  | .eventFd fd => do let _ ← eventfd (.close owner.pid fd)
  | .timerFd fd => do let _ ← timerfd (.close owner.pid fd)
  | .signalFd fd => do let _ ← signalfd (.close owner fd)
  | .pipeRead handle | .pipeWrite handle => do let _ ← pipe (.close owner handle)
  | .unixSocket handle => closeSocketWith finalize owner handle
  | .unixDatagram handle => do let _ ← datagram (.close owner handle)
  | .epoll fd => do
    match ← epoll (.close owner fd maximumEpollWatches) with
    | .error _ => pure ()
    | .ok watched => Prog.each (dropKeyReferenceWith finalize) watched

end Finalize

def finalizeObject : ℕ → FinalObject → KernelProg Unit
  | 0, _ => environment .exhaust
  | depth + 1, pending => do
    environment (.finalize pending)
    closeBackendWith (finalizeObject depth) pending.owner pending.kind

/-- How deep finalizations can nest: each but the first is of an object that had a reference
when the one around it began. -/
def finalizationDepth : ℕ := maximumOpenObjects + 1

abbrev finalize : FinalObject → KernelProg Unit := finalizeObject finalizationDepth

def dropKeyReference : ObjectKey → KernelProg Unit := dropKeyReferenceWith finalize

def releaseTransfers : List TransferToken → KernelProg Unit := releaseTransfersWith finalize

def closeSocket : ProcessHandle → ℕ → KernelProg Unit := closeSocketWith finalize

/-! ### Leases -/

def releaseLease (lease : ObjectLease) : KernelProg Unit := do
  let pending ← registry (.releaseLease lease.key)
  Prog.each finalize pending.toList

variable (owner : ProcessHandle)

/-- Work on the object of a descriptor under a lease. -/
def withDescriptor {α : Type} (fd : ℕ)
    (body : ObjectLease → KernelProg (Answer α)) : KernelProg (Answer α) := do
  match ← registry (.acquireDescriptor owner fd) with
  | .error error => pure (.error error)
  | .ok lease =>
    let result ← body lease
    releaseLease lease
    pure result

/-! ### Closing and duplicating -/

def close (fd : ℕ) : KernelProg (Answer Unit) := do
  match ← registry (.close owner fd) with
  | .error error => pure (.error error)
  | .ok leftover =>
    settleWith finalize leftover
    pure (.ok ())

def duplicate (oldFd minimum : ℕ) (closeOnExec : Bool) : KernelProg (Answer ℕ) :=
  registry (.duplicate owner oldFd minimum closeOnExec)

/-! ### Readiness -/

/-- A readiness and its generation, each from its own section. -/
def readyPair {ε : Type} (f : ε → DescriptorError) (ready : KernelProg (Except ε Flags))
    (generation : KernelProg (Except ε ℕ)) : KernelProg (Answer (Flags × ℕ)) := do
  match ← ready with
  | .error error => pure (.error (f error))
  | .ok flags =>
    match ← generation with
    | .error error => pure (.error (f error))
    | .ok value => pure (.ok (flags, value))

/-- `readiness_for_lease` for the kinds other than epoll. -/
def readinessOf (lease : ObjectLease) (nowNs : ℕ) : KernelProg (Answer (Flags × ℕ)) :=
  match lease.kind with
  | .consoleInput => pure (.ok (0, lease.key.generation))
  | .consoleOutput | .consoleError => pure (.ok (readyOut, lease.key.generation))
  | .file fd => do
    let ready ← file (.readiness lease.owner fd)
    pure ((ready.map (·, lease.key.generation)).mapError mapFileError)
  | .memFd fd => do
    let ready ← memfd (.readiness lease.owner fd)
    pure ((ready.map (·, lease.key.generation)).mapError mapMemfdError)
  | .eventFd fd => readyPair mapEventfdError (eventfd (.readiness lease.owner.pid fd))
      (eventfd (.readinessGeneration lease.owner.pid fd))
  | .timerFd fd => readyPair mapTimerfdError (timerfd (.readiness lease.owner.pid fd nowNs))
      (timerfd (.readinessGeneration lease.owner.pid fd nowNs))
  | .signalFd fd => readyPair mapSignalfdError (signalfd (.readiness lease.owner fd))
      (signalfd (.readinessGeneration lease.owner fd))
  | .pipeRead handle | .pipeWrite handle =>
    readyPair mapPipeError (pipe (.readiness lease.owner handle))
      (pipe (.readinessGeneration lease.owner handle))
  | .unixSocket handle => readyPair mapSocketError (socket (.readiness lease.owner handle))
      (socket (.readinessGeneration lease.owner handle))
  | .unixDatagram handle =>
    readyPair mapDatagramError (datagram (.readiness lease.owner handle))
      (datagram (.readinessGeneration lease.owner handle))
  | .epoll _ | .empty => pure (.error .invalidArgument)

def readinessByKey (key : ObjectKey) : KernelProg (Answer (Flags × ℕ)) := do
  match ← registry (.acquireKey key) with
  | .error error => pure (.error error)
  | .ok lease =>
    let nowNs ← environment .now
    let result ← readinessOf lease nowNs
    releaseLease lease
    pure result

/-- `target_readiness`. -/
def targetReadiness (target : ObjectKey) : KernelProg Observation := do
  let result ← readinessByKey target
  pure result.toOption

/-- The watches of an epoll object, in order. -/
def watchList (watches : Fin maximumEpollWatches → Watch) : List Watch :=
  (List.finRange maximumEpollWatches).map watches

/-! ### Epoll -/

/-- `linux_epoll::ctl`: the target is asked for its readiness before the table is
locked, except when its watch is removed. -/
def epollTableCtl (epfd operation : ℕ) (target : ObjectKey)
    (events : Flags) (data : ℕ) : KernelProg (Except EpollError Unit) :=
  if events &&& ~~~epollInterestMask ≠ 0 then pure (.error .invalidArgument)
  else if operation = epollCtlDel then
    epoll (.ctlLocked owner epfd operation target events data)
  else do
    match ← targetReadiness target with
    | none => pure (.error .invalidArgument)
    | some _ => epoll (.ctlLocked owner epfd operation target events data)

/-- What `epoll_ctl` does to the reference count of the target after the table
section succeeded: an added watch retains the target, or is taken back. -/
def epollCtlReference (epfd operation : ℕ) (target : ObjectKey) : KernelProg (Answer Unit) :=
  if operation = epollCtlAdd then do
    match ← registry (.retainKey target) with
    | .ok () => pure (.ok ())
    | .error _ =>
      let _ ← Prog.perform (KernelCall.rollback (.ctlLocked owner epfd epollCtlDel target 0 0))
      pure (.error .capacity)
  else if operation = epollCtlDel then do
    dropKeyReference target
    pure (.ok ())
  else pure (.ok ())

/-- `epoll_ctl` under the two leases. -/
def epollCtlLeased (epollLease targetLease : ObjectLease) (operation : ℕ) (events : Flags)
    (data : ℕ) : KernelProg (Answer Unit) :=
  match epollLease.kind with
  | .epoll backend =>
    match targetLease.kind with
    | .file _ | .memFd _ => pure (.error .operationNotPermitted)
    | .epoll _ => pure (.error .invalidArgument)
    | _ =>
      if targetLease.key = epollLease.key then pure (.error .invalidArgument)
      else do
        match ← epollTableCtl epollLease.owner backend operation targetLease.key events data with
        | .error error => pure (.error (mapEpollError error))
        | .ok () => epollCtlReference epollLease.owner backend operation targetLease.key
  | _ => pure (.error .badFileDescriptor)

def epollCtl (epfd operation targetFd : ℕ) (events : Flags) (data : ℕ) : KernelProg (Answer Unit) :=
  withDescriptor owner epfd fun epollLease =>
    withDescriptor owner targetFd fun targetLease =>
      epollCtlLeased epollLease targetLease operation events data

/-- The scan of `wait` over the copied watches; `output` are the events so far. -/
def scanWatches (room : ℕ) :
    List Watch → List ReadyEvent → KernelProg (List Watch × List ReadyEvent)
  | [], output => pure ([], output)
  | watch :: watches, output =>
    if watch.occupied then do
      let observed ← targetReadiness watch.target
      let (scanned, event) := scanWatch watch observed (decide (output.length < room))
      let (rest, output) ← scanWatches room watches (output ++ event.toList)
      pure (scanned :: rest, output)
    else do
      let (rest, output) ← scanWatches room watches output
      pure (watch :: rest, output)

/-- `linux_epoll::wait`. -/
def epollTableWait (epfd room : ℕ) : KernelProg (Except EpollError (List ReadyEvent)) :=
  if room = 0 then pure (.error .invalidArgument)
  else do
    match ← epoll (.watchesOf owner epfd) with
    | .error error => pure (.error error)
    | .ok watches =>
      let (scanned, output) ← scanWatches room (watchList watches) []
      let stored ← epoll (.storeWatches owner epfd scanned)
      pure (stored.map fun () => output)

def epollWait (epfd room : ℕ) : KernelProg (Answer (List ReadyEvent)) :=
  withDescriptor owner epfd fun lease =>
    match lease.kind with
    | .epoll backend => mapped mapEpollError (epollTableWait lease.owner backend room)
    | _ => pure (.error .badFileDescriptor)

end ArachKernel.LinuxFd
