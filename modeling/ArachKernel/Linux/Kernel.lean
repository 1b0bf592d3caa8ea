import ArachKernel.Linux.Datagram
import ArachKernel.Linux.Epoll
import ArachKernel.Linux.Eventfd
import ArachKernel.Linux.Pipe
import ArachKernel.Linux.Registry
import ArachKernel.Linux.Signalfd
import ArachKernel.Linux.Socket
import ArachKernel.Linux.Timerfd

/-!
The state behind the descriptor operations: the registry, the backends, and the
parts of the kernel that are seen only through their answers (the clock, regular files
and memory files). Finalization and epoll only ask files for their readiness and to close,
and the answers may be any. Every call of the alphabet is one section under one lock.

The journal is not in the source: it writes down which objects were finalized and
which transfer tokens were captured, installed and released, so that theorems can
speak about it.
-/

namespace ArachKernel

namespace LinuxFile

variable {ε : Type}

/-- What a table of files (`linux_file.rs`, `linux_memfd.rs`) answers. -/
structure FileAnswers (ε : Type) where
  readiness : ProcessHandle → ℕ → Except ε Flags
  close : ProcessHandle → ℕ → Except ε Unit

inductive FileCall (ε : Type) : Type → Type
  | readiness (owner : ProcessHandle) (fd : ℕ) : FileCall ε (Except ε Flags)
  | close (owner : ProcessHandle) (fd : ℕ) : FileCall ε (Except ε Unit)

def FileAnswers.ask (answers : FileAnswers ε) : {β : Type} → FileCall ε β → β
  | _, .readiness owner fd => answers.readiness owner fd
  | _, .close owner fd => answers.close owner fd

end LinuxFile

inductive LinuxMemfd.MemfdError
  | invalidArgument
  | badFileDescriptor
  | capacity
  | permissionDenied
  | operationNotSupported
  deriving DecidableEq

namespace LinuxFd

open LinuxFile (FileAnswers FileCall FileError)
open LinuxMemfd (MemfdError)

/-- What has been done to objects and tokens so far. -/
structure Journal where
  finalized : List FinalObject
  captured : List TransferToken
  installed : List TransferToken
  released : List TransferToken

namespace Journal

def empty : Journal := { finalized := [], captured := [], installed := [], released := [] }

/-- Write down what a registry section did, given its answer. -/
def record : {β : Type} → RegistryCall β → β → Journal → Journal
  | _, .captureTransfers _ _, .ok tokens, j => { j with captured := j.captured ++ tokens }
  | _, .installTransfers _ tokens _ _, .ok _, j => { j with installed := j.installed ++ tokens }
  | _, .releaseTransfer token, _, j => { j with released := j.released ++ [token] }
  | _, _, _, j => j

end Journal

structure Kernel where
  registry : Registry
  epolls : LinuxEpoll.EpollTable
  sockets : LinuxSocket.SocketRegistry
  datagrams : LinuxDatagram.DatagramTable
  pipes : LinuxPipe.PipeRegistry
  eventfds : LinuxEventfd.EventFdTable
  timerfds : LinuxTimerfd.TimerFdTable
  signalfds : LinuxSignalfd.SignalFdTable
  signals : LinuxSignal.SignalTable
  now : ℕ
  files : FileAnswers FileError
  memfds : FileAnswers MemfdError
  journal : Journal
  exhausted : Bool

/-- Calls that are no section of a table: reading the clock, a change of what the
rest of the kernel answers, the start of a finalization, and the end of the bound on
nested finalizations. -/
inductive EnvironmentCall : Type → Type
  | now : EnvironmentCall ℕ
  | changeAnswers (now : ℕ) (files : FileAnswers FileError) (memfds : FileAnswers MemfdError) :
      EnvironmentCall Unit
  | finalize (pending : FinalObject) : EnvironmentCall Unit
  | exhaust : EnvironmentCall Unit

/-- The sections of the kernel, by the table they lock. The second `ctl` of
`epoll_ctl`, which takes a watch back, stands apart from the first. -/
inductive KernelCall (β : Type) : Type
  | registry (c : RegistryCall β)
  | epoll (c : LinuxEpoll.EpollCall β)
  | rollback (c : LinuxEpoll.EpollCall β)
  | socket (c : LinuxSocket.SocketCall β)
  | datagram (c : LinuxDatagram.DatagramCall β)
  | pipe (c : LinuxPipe.PipeCall β)
  | eventfd (c : LinuxEventfd.EventfdCall β)
  | timerfd (c : LinuxTimerfd.TimerfdCall β)
  | signalfd (c : LinuxSignalfd.SignalfdCall β)
  | memfd (c : FileCall MemfdError β)
  | file (c : FileCall FileError β)
  | signal (c : LinuxSignal.SignalCall β)
  | environment (c : EnvironmentCall β)

namespace Kernel

def execEnvironment : Handler EnvironmentCall Kernel
  | _, .now, s => (s.now, s)
  | _, .changeAnswers now files memfds, s => ((), { s with now, files, memfds })
  | _, .finalize pending, s =>
    ((), { s with journal := { s.journal with finalized := s.journal.finalized ++ [pending] } })
  | _, .exhaust, s => ((), { s with exhausted := true })

/-- Execute one section. -/
def exec : Handler KernelCall Kernel
  | β, .registry c, s =>
    let (answer, registry) := execRegistry β c s.registry
    (answer, { s with registry, journal := s.journal.record c answer })
  | β, .epoll c, s | β, .rollback c, s =>
    let (answer, epolls) := LinuxEpoll.exec β c s.epolls
    (answer, { s with epolls })
  | β, .socket c, s =>
    let (answer, sockets) := LinuxSocket.exec β c s.sockets
    (answer, { s with sockets })
  | β, .datagram c, s =>
    let (answer, datagrams) := LinuxDatagram.exec β c s.datagrams
    (answer, { s with datagrams })
  | β, .pipe c, s =>
    let (answer, pipes) := LinuxPipe.exec β c s.pipes
    (answer, { s with pipes })
  | β, .eventfd c, s =>
    let (answer, eventfds) := LinuxEventfd.exec β c s.eventfds
    (answer, { s with eventfds })
  | β, .timerfd c, s =>
    let (answer, timerfds) := LinuxTimerfd.exec β c s.timerfds
    (answer, { s with timerfds })
  | β, .signalfd c, s =>
    let (answer, signalfds) := LinuxSignalfd.exec s.signals β c s.signalfds
    (answer, { s with signalfds })
  | _, .memfd c, s => (s.memfds.ask c, s)
  | _, .file c, s => (s.files.ask c, s)
  | β, .signal c, s =>
    let (answer, signals) := LinuxSignal.exec β c s.signals
    (answer, { s with signals })
  | β, .environment c, s => execEnvironment β c s

end Kernel

/-- Programs over the sections of the kernel. -/
abbrev KernelProg := Prog KernelCall

namespace KernelProg

variable {β : Type}

def registry (c : RegistryCall β) : KernelProg β := .perform (.registry c)
def epoll (c : LinuxEpoll.EpollCall β) : KernelProg β := .perform (.epoll c)
def socket (c : LinuxSocket.SocketCall β) : KernelProg β := .perform (.socket c)
def datagram (c : LinuxDatagram.DatagramCall β) : KernelProg β := .perform (.datagram c)
def pipe (c : LinuxPipe.PipeCall β) : KernelProg β := .perform (.pipe c)
def eventfd (c : LinuxEventfd.EventfdCall β) : KernelProg β := .perform (.eventfd c)
def timerfd (c : LinuxTimerfd.TimerfdCall β) : KernelProg β := .perform (.timerfd c)
def signalfd (c : LinuxSignalfd.SignalfdCall β) : KernelProg β := .perform (.signalfd c)
def memfd (c : FileCall MemfdError β) : KernelProg β := .perform (.memfd c)
def file (c : FileCall FileError β) : KernelProg β := .perform (.file c)
def environment (c : EnvironmentCall β) : KernelProg β := .perform (.environment c)

end KernelProg

end LinuxFd

end ArachKernel
