import ArachKernel.Abyss.FrameRuns
import ArachKernel.Aether.WitnessChain
import ArachKernel.Hw.IovaSafety
import ArachKernel.Hw.SlptRuns
import ArachKernel.Lease.Attenuation
import ArachKernel.Lease.Revocation
import ArachKernel.Linux.DatagramDelivery
import ArachKernel.Linux.FailedCalls
import ArachKernel.Linux.FutexRuns
import ArachKernel.Linux.PipeStream
import ArachKernel.Linux.SectionRuns
import ArachKernel.Linux.SignalDelivery
import ArachKernel.Linux.SocketRuns
import ArachKernel.Mmio
import ArachKernel.Module.LoadPlanWellFormed
import ArachKernel.Process.MmapPlacement
import ArachKernel.Process.Wraparound
import ArachKernel.RingAuthority.Isolation
import ArachKernel.RuntimeLinker.Order
import ArachKernel.Sheaf.Certificates
import ArachKernel.Storage.ExtentMap
import ArachKernel.Storage.HostileDisk
import ArachKernel.Storage.Partitions
import ArachKernel.Syscalls.Boot
import ArachKernel.Syscalls.UserCopySafety
import ArachKernel.Vfs.ContentRuns
