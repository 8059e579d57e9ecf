import Minos.Lib.Run
import Minos.Lib.Word
import Minos.Lib.Numeral
import Minos.Lib.Window
import Minos.Lib.Count
import Minos.Lib.Bytes
import Minos.Lib.Cover
import Minos.Lib.Ring
import Minos.Lib.Object
import Minos.Core.Errno
import Minos.Core.FindBit
import Minos.Core.Bitmap
import Minos.Core.Memory
import Minos.Core.PageRuns
import Minos.Core.Mutex
import Minos.Core.Sched
import Minos.Core.TaskReady
import Minos.Core.CallContext
import Minos.Core.Timer
import Minos.Core.WakeUp
import Minos.Core.Event
import Minos.Core.Queue
import Minos.Core.Sem
import Minos.Core.Mbox
import Minos.Core.Flag
import Minos.Core.Ramdisk
import Minos.Arch.Stage2
import Minos.Arch.Stage2Walk
import Minos.Arch.Stage2Map
import Minos.Arch.Stage2Unmap
import Minos.Arch.Stage2Teardown
import Minos.Arch.Stage2Translate
import Minos.Arch.Stage1
import Minos.Arch.Stage1Translate
import Minos.Virt.Memblock
import Minos.Virt.Shmem
import Minos.Virt.ShmemPages
import Minos.Virt.VmmArea
import Minos.Virt.Vdev
import Minos.Virt.VirtioMmio
import Minos.Virt.Virq
import Minos.Virt.Vgic
import Minos.Virt.VgicEntry
import Minos.Virt.VirqDelivery
import Minos.Virt.Vmbox
import Minos.Virt.VmboxEvent
import Minos.Virt.VirqMask
import Minos.Virt.VirqHwMask
import Minos.Virt.VgicSgi
import Minos.Virt.Vmcs
import Minos.Virt.VcpuIdle
import Minos.Virt.VmSuspend
import Minos.Virt.VmSuspendCheck
import Minos.Virt.VcpuTask
import Minos.Virt.CpuOn
import Minos.Virt.Hypercall
import Minos.Virt.Vwdt
import Minos.Virt.VwdtHistory
import Minos.Virt.VwdtTimeout
import Minos.Driver.DeviceTree
import Minos.Driver.OfTree
import Minos.Virt.GuestMapping
import Minos.Virt.CopyFromGuest
import Minos.Virt.VmMmInit
import Minos.Virt.Passthrough
import Minos.Core.MemRegion
import Minos.Core.Irq
import Minos.Virt.VcpuAffinity
import Minos.Arch.Vtimer
import Minos.Virt.DebugConsole
import Minos.Virt.ConsoleDelivery
import Minos.Virt.NativeMemory
import Minos.Driver.VmboxVirtq
import Minos.Driver.VmboxReclaim
import Minos.Driver.UsedBatch
import Minos.Driver.VmboxKick
import Minos.Driver.VmboxLayout
import Minos.Driver.VmboxConsole
import Minos.Mvm.Virtio
import Minos.Mvm.UsedEvent
import Minos.Mvm.NotifySuppress
import Minos.Mvm.QueueSelect
import Minos.Core.NumToStr
import Minos.Core.Vsprintf
import Minos.Core.FormatText
import Minos.Core.Bootarg
