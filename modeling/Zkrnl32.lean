import Zkrnl32.Machine.Exec
import Zkrnl32.Machine.Loop
import Zkrnl32.Machine.Bytes
import Zkrnl32.Multiboot.MemoryMap
import Zkrnl32.Multiboot.Walk
import Zkrnl32.Utils.Bits
import Zkrnl32.Memory.Address
import Zkrnl32.Memory.Frame
import Zkrnl32.Memory.Frame.Bitmap
import Zkrnl32.Machine.Ownership
import Zkrnl32.Memory.Frame.Allocate
import Zkrnl32.Memory.Frame.Init
import Zkrnl32.Memory.Frame.PerFrame
import Zkrnl32.Memory.Frame.Invariant
import Zkrnl32.Memory.Frame.Ownership
import Zkrnl32.Memory.Usable
import Zkrnl32.Machine.Mmu
import Zkrnl32.Memory.Paging
import Zkrnl32.Memory.Paging.Entry
import Zkrnl32.Memory.Paging.Build
import Zkrnl32.Memory.Paging.Calls
import Zkrnl32.Memory.Paging.Init
import Zkrnl32.Memory.Paging.Progress
import Zkrnl32.Memory.Paging.Footprint
import Zkrnl32.Memory.Paging.Translate
import Zkrnl32.Memory.Handoff
import Zkrnl32.Volatile
import Zkrnl32.Machine.Screen
import Zkrnl32.Vga
import Zkrnl32.Stack
import Zkrnl32.Machine.Run
import Zkrnl32.Machine.Cpu
import Zkrnl32.Machine.Cpu.Flat
import Zkrnl32.Gdt
import Zkrnl32.Boot
import Zkrnl32.Machine.Simulation
import Zkrnl32.Machine.Effect
import Zkrnl32.Machine.Format
import Zkrnl32.Machine.Screen.Rows
import Zkrnl32.Console
import Zkrnl32.Kernel
import Zkrnl32.Kernel.Report
import Zkrnl32.Kernel.Main
import Zkrnl32.Kernel.Outcome
import Zkrnl32.Machine.Builds
import Zkrnl32.Kernel.Builds
import Zkrnl32.Kernel.Inventory
import Zkrnl32.Kernel.Clients
import Zkrnl32.Gdt.Protection
import Zkrnl32.Startup
import Zkrnl32.Kernel.Rights
