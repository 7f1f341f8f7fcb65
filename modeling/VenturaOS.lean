import VenturaOS.Library.Runs
import VenturaOS.Library.Bitmap
import VenturaOS.Library.Forest
import VenturaOS.Library.ByteMemory
import VenturaOS.Library.BoundedMemory
import VenturaOS.Library.Reads
import VenturaOS.Library.Registers
import VenturaOS.Library.Serving
import VenturaOS.Library.Fields
import VenturaOS.Library.Stack
import VenturaOS.Library.Interference
import VenturaOS.Library.Cache
import VenturaOS.Memory.PhysicalMap
import VenturaOS.Memory.Uefi
import VenturaOS.Memory.Decoding
import VenturaOS.Pmm.Allocator
import VenturaOS.Pmm.Calls
import VenturaOS.Pmm.Accounting
import VenturaOS.Pmm.Exclusivity
import VenturaOS.Pmm.Reserved
import VenturaOS.Pmm.Frames
import VenturaOS.Pmm.Scan
import VenturaOS.Paging.Entry
import VenturaOS.Paging.Address
import VenturaOS.Paging.Tables
import VenturaOS.Paging.Ownership
import VenturaOS.Paging.Growth
import VenturaOS.Paging.Leaves
import VenturaOS.Paging.Refinement
import VenturaOS.Paging.Hardware
import VenturaOS.Paging.Translation
import VenturaOS.Paging.Unmapping
import VenturaOS.Paging.Permissions
import VenturaOS.Paging.LargePages
import VenturaOS.Paging.Insertion
import VenturaOS.Vmm.Regions
import VenturaOS.Kernel.State
import VenturaOS.Vmm.Mapping
import VenturaOS.Vmm.KernelTables
import VenturaOS.Vmm.Transfers
import VenturaOS.Vmm.RegionCalls
import VenturaOS.Vmm.KernelCalls
import VenturaOS.Vmm.Init
import VenturaOS.Vmm.LowMemory
import VenturaOS.Vmm.Boot
import VenturaOS.Vmm.RegionTable
import VenturaOS.Vmm.Registration
import VenturaOS.Vmm.Rollback
import VenturaOS.Vmm.Supply
import VenturaOS.Vmm.BootRegions
import VenturaOS.Vmm.BootPlan
import VenturaOS.Vmm.BootTables
import VenturaOS.Vmm.BootDrawing
import VenturaOS.Vmm.NullPage
import VenturaOS.Vmm.RegionFailure
import VenturaOS.Vmm.Obstacles
import VenturaOS.Vmm.Demand
import VenturaOS.Vmm.Outcome
import VenturaOS.AddressSpace.Model
import VenturaOS.AddressSpace.Private
import VenturaOS.AddressSpace.Teardown
import VenturaOS.AddressSpace.LeafCount
import VenturaOS.Heap.Model
import VenturaOS.Heap.Tables
import VenturaOS.Heap.Blocks
import VenturaOS.Heap.Operations
import VenturaOS.Heap.Invariant
import VenturaOS.Heap.Freeing
import VenturaOS.Heap.Payloads
import VenturaOS.Heap.FirstFit
import VenturaOS.Heap.Stale
import VenturaOS.Heap.Growth
import VenturaOS.Machine.State
import VenturaOS.Machine.Invariant
import VenturaOS.Machine.Steps
import VenturaOS.Machine.Isolation
import VenturaOS.Machine.OneRoot
import VenturaOS.Machine.BootMapping
import VenturaOS.Machine.Destroy
import VenturaOS.Machine.Discipline
import VenturaOS.Machine.Extents
import VenturaOS.Machine.HeapRuns
import VenturaOS.Machine.HeapSafety
import VenturaOS.Machine.FreeOrder
import VenturaOS.Machine.DoubleFree
import VenturaOS.Machine.FailedMapping
import VenturaOS.Machine.Persistence
import VenturaOS.Machine.Visibility
import VenturaOS.Machine.Owners
import VenturaOS.Context.Model
import VenturaOS.Context.Switch
import VenturaOS.Context.Coroutines
import VenturaOS.Context.Interrupts
import VenturaOS.Thread.Model
import VenturaOS.Thread.Entry
import VenturaOS.Machine.HeapGrowth
import VenturaOS.Machine.HeapRegions
import VenturaOS.Machine.NullRoot
import VenturaOS.Process.Model
import VenturaOS.Process.Termination
import VenturaOS.Process.Running
import VenturaOS.Process.Lifetime
import VenturaOS.Machine.Disposal
import VenturaOS.Framebuffer.Font
import VenturaOS.Framebuffer.Model
import VenturaOS.Framebuffer.Terminal
import VenturaOS.Framebuffer.Refinement
import VenturaOS.Framebuffer.Safety
import VenturaOS.Acpi.Model
import VenturaOS.Acpi.TableReads
import VenturaOS.Acpi.MadtReads
import VenturaOS.Acpi.MadtTable
import VenturaOS.Acpi.RoundTrip
import VenturaOS.Acpi.RootWalk
import VenturaOS.Acpi.Corruption
import VenturaOS.Apic.Model
import VenturaOS.Apic.Entries
import VenturaOS.Apic.Routing
import VenturaOS.Apic.Frames
import VenturaOS.Gdt.Model
import VenturaOS.Gdt.Selectors
import VenturaOS.Idt.Table
import VenturaOS.Idt.Gates
import VenturaOS.Idt.Dispatch
import VenturaOS.Idt.Stubs
import VenturaOS.Idt.Saving
import VenturaOS.Idt.Delivery
import VenturaOS.Idt.Returns
import VenturaOS.Idt.Service
import VenturaOS.Idt.Accounting
import VenturaOS.Idt.Transparency
import VenturaOS.Timer.Model
import VenturaOS.Timer.Starting
import VenturaOS.Timer.Ticks
import VenturaOS.Tlb.Model
import VenturaOS.Tlb.PageCalls
import VenturaOS.Tlb.Calls
import VenturaOS.Tlb.Coherence
import VenturaOS.Boot.Firmware
import VenturaOS.Boot.Handoff
import VenturaOS.Boot.Outcome
import VenturaOS.Boot.Tables
import VenturaOS.Logger.Interrupts
