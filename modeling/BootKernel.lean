import BootKernel.Lib.Loop
import BootKernel.Lib.Memory
import BootKernel.Lib.Radix
import BootKernel.Lib.BitArray
import BootKernel.Common
import BootKernel.Pmm.Defs
import BootKernel.Pmm.Lemmas.Bitmap
import BootKernel.Pmm.Lemmas.Init
import BootKernel.Lib.Refinement
import BootKernel.Pmm.FreeSet
import BootKernel.Pmm.Theorems
import BootKernel.Pmm.Entries
import BootKernel.Vmm.Defs
import BootKernel.Vmm.Lemmas.Machine
import BootKernel.Vmm.Lemmas.Walkers
import BootKernel.Vmm.Theorems
import BootKernel.Vmm.Owned
import BootKernel.Vmm.Balance
import BootKernel.Vmm.FailedInit
import BootKernel.Vmm.Lemmas.Hhdm
import BootKernel.Vmm.Lemmas.Boot
import BootKernel.Vmm.Lemmas.Room
import BootKernel.Vmm.Calls
import BootKernel.Vmm.Lemmas.Access
import BootKernel.Vmm.Ownership
import BootKernel.Vmm.Lemmas.Detour
import BootKernel.Pmm.Exhaust
import BootKernel.Vmm.Accounts
import BootKernel.Vmm.Failures
import BootKernel.Vmm.Demand
import BootKernel.Vmm.Orphans
import BootKernel.Vmm.Unmap
import BootKernel.Boot.Paging
import BootKernel.Boot.Theorems
import BootKernel.Vmm.Supply
import BootKernel.Vmm.Wrap
import BootKernel.Vmm.Restore
import BootKernel.Boot.Reserved
import BootKernel.Vmm.Rights
import BootKernel.Lib.AddressSpace
import BootKernel.Vmm.Forest
import BootKernel.Vmm.Spaces
import BootKernel.Vmm.SpaceCalls
import BootKernel.Vmm.Offline
import BootKernel.Ata.Irq.Defs
import BootKernel.Ata.Irq.Lemmas.Steps
import BootKernel.Ata.Irq.Wait
import BootKernel.Ata.Irq.Theorems
import BootKernel.Ata.Irq.Transfer
import BootKernel.Lib.Interleaving
import BootKernel.Ata.Irq.Interrupts
import BootKernel.Ata.Irq.LostStatus
import BootKernel.Ata.Irq.LostError
import BootKernel.Lib.Between
import BootKernel.Ata.Irq.Settle
import BootKernel.Ata.Irq.Lemmas.Busy
import BootKernel.Ata.Irq.Busy
import BootKernel.Ata.Poll.Defs
import BootKernel.Ata.Poll.Original
import BootKernel.Ata.Poll.Trace
import BootKernel.Ata.Poll.Init
import BootKernel.Ata.Irq.Addresses
import BootKernel.Ata.Poll.Theorems
import BootKernel.Loader.Defs
import BootKernel.Loader.Theorems
import BootKernel.Lib.LongMode
import BootKernel.Lib.TextScreen
import BootKernel.Loader.Idt.Defs
import BootKernel.Loader.Idt.Table
import BootKernel.Loader.Idt.Theorems
import BootKernel.Loader.Start
import BootKernel.Lib.X86
import BootKernel.Io.Defs
import BootKernel.Io.Theorems
import BootKernel.Io.Drive
import BootKernel.Ata.Data
import BootKernel.Lib.Preemption
import BootKernel.Ata.Irq.Preemption
import BootKernel.Ata.Irq.Integrity
import BootKernel.Lib.Fairness
import BootKernel.Ata.Irq.Liveness
import BootKernel.Lib.Pic8259
import BootKernel.Ata.Irq.Pic.Defs
import BootKernel.Ata.Irq.Pic.Lemmas
import BootKernel.Ata.Irq.Pic.Theorems
import BootKernel.Boot.Switch
import BootKernel.Boot.E820
import BootKernel.Boot.Firmware
import BootKernel.Boot.Vbe
import BootKernel.Lib.Spill
import BootKernel.Boot.Bss
import BootKernel.Lib.CachedWalk
import BootKernel.Vmm.Tlb.Lemmas
import BootKernel.Vmm.Tlb.Theorems
