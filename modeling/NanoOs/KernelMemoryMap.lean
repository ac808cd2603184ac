import NanoOs.FrameSupply

/-!
# The page map of the kernel

How the kernel maps RAM, devices, itself and the trampoline at boot, and the
part of it in which the images of processes are loaded.
-/

namespace NanoOs.KernelMemoryMap

open PageMapping
open Memory (Region pageSize)

inductive CpuType
  | unknown
  | qemu
  | licheeRVNano
  deriving Repr, DecidableEq

def highHalfPhysStart : Nat := 0xffffffff00000000

def kernelStackStart : Nat := highHalfPhysStart + 0xffe00000

def kernelStackStartingSize : Nat := 0x10000

def trampolineTrapFrame : Nat := highHalfPhysStart + 0xffe00000

def trapFrameSize : Nat := 0x1000

def kernelHeapStart : Nat := 0xffffffffc0000000

def kernelHeapSize : Nat := 4 * pageSize

structure Symbols where
  text : Region
  rodata : Region
  data : Region
  bss : Region
  procTramp : Region
  procTrampLma : Nat

/-- The mapper of the kernel, and the lowest table that all processes share with
it. -/
structure Kernel where
  pageMapper : PageMapper
  lastL1Pte : Nat

def readWrite : PageFlags :=
  ((PageFlags.read.bitor PageFlags.write).bitor PageFlags.accessed).bitor PageFlags.dirty

def readExecute : PageFlags :=
  (PageFlags.read.bitor PageFlags.execute).bitor PageFlags.accessed

def theadMemFlags (cpu : CpuType) : PageFlags :=
  if cpu = .licheeRVNano then PageFlags.theadMemory else PageFlags.empty

section Mapping

variable (supply : FrameSupply) (mapper : PageMapper)

def mapRange (machine : Machine) (virtStart physStart stop : Nat) (flags : PageFlags)
    (size : PageSize) : Checked Machine := do
  let machine ← mapper.mapRange supply.frames machine virtStart physStart stop flags size
  supply.ensureTables machine

def identityMapMemory (machine : Machine) (memory : Region) : Checked Machine :=
  mapRange supply mapper machine memory.start memory.start memory.stop
    (((PageFlags.read.bitor PageFlags.write).bitor PageFlags.execute).bitor
      (PageFlags.accessed.bitor PageFlags.dirty)) .size2M

def mapDevices (machine : Machine) : CpuType → Checked Machine
  | .qemu => do
      let machine ← mapRange supply mapper machine 0x10000000 0x10000000 0x1000a000 readWrite
        .size4K
      mapRange supply mapper machine 0x0c000000 0x0c000000 0x0c400000 readWrite .size4K
  | .licheeRVNano => do
      let flags := readWrite.bitor PageFlags.theadSo
      let machine ← mapRange supply mapper machine 0x04140000 0x04140000 (0x04140000 + pageSize)
        flags .size4K
      let machine ← mapRange supply mapper machine 0x70000000 0x70000000 0x70400000 flags .size4K
      mapRange supply mapper machine 0x04310000 0x04310000 (0x04310000 + pageSize) flags .size4K
  | .unknown => .ok machine

def mapKernelSegment (machine : Machine) (segment : Region) (flags : PageFlags) :
    Checked Machine := do
  let physStart ← checkedSub segment.start highHalfPhysStart
  let stop ← Memory.alignUp segment.stop
  mapRange supply mapper machine segment.start physStart stop flags .size4K

def mapKernelSegments (machine : Machine) (symbols : Symbols) (cpu : CpuType) :
    Checked Machine := do
  let machine ← mapKernelSegment supply mapper machine symbols.text readExecute
  let machine ← mapKernelSegment supply mapper machine symbols.rodata
    (PageFlags.read.bitor PageFlags.accessed)
  let machine ← mapKernelSegment supply mapper machine symbols.data
    (readWrite.bitor (theadMemFlags cpu))
  mapKernelSegment supply mapper machine symbols.bss (readWrite.bitor (theadMemFlags cpu))

def mapKernelStack (machine : Machine) (cpu : CpuType) : Checked Machine := do
  let kernelStackEnd ← checkedSub kernelStackStart kernelStackStartingSize
  mapper.allocateAndMapPages supply machine kernelStackEnd kernelStackStartingSize
    (readWrite.bitor (theadMemFlags cpu))

def mapKernelHeap (machine : Machine) (cpu : CpuType) : Checked Machine :=
  mapper.allocateAndMapPages supply machine kernelHeapStart kernelHeapSize
    (readWrite.bitor (theadMemFlags cpu))

def mapLastL1Pte (machine : Machine) (symbols : Symbols) (cpu : CpuType) :
    Checked (Nat × Machine) := do
  let procTrampEnd ← Memory.alignUp symbols.procTramp.stop
  let machine ← mapRange supply mapper machine symbols.procTramp.start symbols.procTrampLma
    procTrampEnd (readExecute.bitor PageFlags.global) .size4K
  let machine ← mapper.allocateAndMapPages supply machine trampolineTrapFrame trapFrameSize
    (readWrite.bitor (theadMemFlags cpu))
  .ok (mapper.l1PageTableFromPhys machine.memory trampolineTrapFrame, machine)

end Mapping

/-- `kernel_memory_map::init`, up to the switch to the new map. -/
def init (supply : FrameSupply) (machine : Machine) (memory : Region) (symbols : Symbols)
    (cpu : CpuType) : Checked (Kernel × Machine) := do
  let (mapper, machine) ← PageMapper.create supply machine
  let machine ← identityMapMemory supply mapper machine memory
  let machine ← mapDevices supply mapper machine cpu
  let machine ← mapKernelSegments supply mapper machine symbols cpu
  let machine ← mapKernelStack supply mapper machine cpu
  let machine ← mapKernelHeap supply mapper machine cpu
  let (lastL1Pte, machine) ← mapLastL1Pte supply mapper machine symbols cpu
  .ok (⟨mapper, lastL1Pte⟩, machine)

/-- `allocate_and_map_process_load_area_range`. -/
def allocateAndMapProcessLoadAreaRange (supply : FrameSupply) (kernel : Kernel)
    (machine : Machine) (start size : Nat) (flags : PageFlags) : Checked Machine :=
  kernel.pageMapper.allocateAndMapPages supply machine start size flags

end NanoOs.KernelMemoryMap
