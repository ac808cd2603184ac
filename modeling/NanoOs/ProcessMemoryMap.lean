import NanoOs.KernelMemoryMap
import NanoOs.ReadElf

/-!
# Building the address space of a process

The segments of an ELF file are loaded at an offset into the address space of
the kernel; the tables for the first gigabyte there then become the first
gigabyte of the process.
-/

namespace NanoOs.ProcessMemoryMap

open Files KernelMemoryMap PageMapping ReadElf
open Memory (pageSize)

def processLoadArea : Nat := 0xffffffc000000000

def processLoadAreaEntry : Nat := 0x100

def processStackStart : Nat := 0xffe00000

def processStackStartingSize : Nat := 0x4000

def processMmapStart : Nat := 0x100000000

/-- The registers of a process that loading and the memory calls use. -/
structure TrapFrame where
  pc : Nat
  sp : Nat
  a0 : Nat
  a1 : Nat
  a2 : Nat
  a3 : Nat
  deriving Repr, DecidableEq

/-- `process::Context`, as far as memory is concerned. -/
structure Context where
  pageMap : PageMapper
  heapBegin : Nat
  heapEnd : Nat
  mmapNext : Nat
  trapFrame : TrapFrame
  deriving Repr, DecidableEq

/-- Store bytes at a virtual address of the kernel, one after the other. -/
def storeBytes (mapper : PageMapper) (bytes : Nat → UInt8) :
    Nat → Nat → Nat → ByteMemory → Checked ByteMemory
  | 0, _, _, memory => .ok memory
  | remaining + 1, index, virt, memory =>
      match if virt < wordLimit then mapper.virtToPhys memory virt else none with
      | none => .error (.assertion "page fault")
      | some phys =>
          storeBytes mapper bytes remaining (index + 1) (virt + 1)
            (Function.update memory phys (bytes index))

/-- What `load_elf` has done so far. -/
structure LoadState where
  machine : Machine
  file : File ByteMemory
  baseVaddr : Nat
  heapStart : Nat

section Loading

variable (supply : FrameSupply) (kernel : Kernel)

def loadFlags : PageFlags :=
  ((PageFlags.read.bitor PageFlags.write).bitor PageFlags.execute).bitor
    (PageFlags.accessed.bitor PageFlags.dirty)

/-- The part of an iteration of `load_elf` that maps the pages of a segment. -/
def mapSegment (ph : Elf64ProgramHeader) (state : LoadState) : Checked LoadState := do
  let baseVaddr := if ph.pOffset = 0 then ph.pVaddr else state.baseVaddr
  let virtAddrStart ← checkedAdd ph.pVaddr processLoadArea
  let segmentEnd ← checkedAdd ph.pVaddr ph.pMemsz
  let virtAddrEnd ← Memory.alignUp segmentEnd
  let virtAddrLoadStart := Memory.alignDown virtAddrStart
  let virtAddrLoadEnd ← checkedAdd virtAddrEnd processLoadArea
  let heapStart := if virtAddrEnd > state.heapStart then virtAddrEnd else state.heapStart
  let size ← checkedSub virtAddrLoadEnd virtAddrLoadStart
  let machine ← allocateAndMapProcessLoadAreaRange supply kernel state.machine virtAddrLoadStart
    size loadFlags
  .ok { machine := machine, file := state.file, baseVaddr := baseVaddr, heapStart := heapStart }

/-- The part of an iteration of `load_elf` that fills a segment, with the
message if the file ends early. -/
def fillSegment (ph : Elf64ProgramHeader) (state : LoadState) :
    Checked (LoadState × Except String Unit) := do
  let virtAddrStart ← checkedAdd ph.pVaddr processLoadArea
  let outcome ← vfsReadExact (seekStart state.file ph.pOffset) ph.pFilesz
  let memory ← storeBytes kernel.pageMapper outcome.buf outcome.filled 0 virtAddrStart
    state.machine.memory
  match outcome.result with
  | .error _ =>
      .ok ({ state with machine := { state.machine with memory := memory }, file := outcome.file },
        .error "Failed to read ELF segment data")
  | .ok _ => do
      let zeroStart ← checkedAdd virtAddrStart ph.pFilesz
      let zeroSize ← checkedSub ph.pMemsz ph.pFilesz
      let memory ← storeBytes kernel.pageMapper (fun _ => 0) zeroSize 0 zeroStart memory
      .ok ({ state with machine := { state.machine with memory := memory }, file := outcome.file },
        .ok ())

/-- The loop of `load_elf`. -/
def loadSegments : List Elf64ProgramHeader → LoadState →
    Checked (LoadState × Except String (Nat × Nat))
  | [], state => .ok (state, .ok (state.baseVaddr, state.heapStart))
  | ph :: rest, state =>
      if ph.pType = ptLoad then do
        let state ← mapSegment supply kernel ph state
        let (state, result) ← fillSegment kernel ph state
        match result with
        | .error message => .ok (state, .error message)
        | .ok _ => loadSegments rest state
      else
        loadSegments rest state

def unwrap {α ε : Type} (result : Except ε α) (message : String) : Checked α :=
  match result with
  | .error _ => .error (.assertion message)
  | .ok value => .ok value

def loadElf (file : File ByteMemory) (header : Elf64Header) (machine : Machine) :
    Checked (LoadState × Except String (Nat × Nat)) := do
  let (programHeaders, file) ← readProgramHeaders file header
  let programHeaders ← unwrap programHeaders "called `Result::unwrap()` on an `Err` value"
  loadSegments supply kernel programHeaders
    { machine := machine, file := file, baseVaddr := wordLimit - 1, heapStart := 0 }

/-- The body of the inner loop of `switch_pages_to_user`. -/
def switchEntry (table : Nat) (memory : ByteMemory) (index : Nat) : ByteMemory :=
  let raw := entry memory table index
  if PageTableEntry.isValid raw then
    setEntry memory table index (PageTableEntry.setUserFlag raw)
  else memory

def switchTable (memory : ByteMemory) (table : Nat) : ByteMemory :=
  (List.range pageEntries).foldl (switchEntry table) memory

def switchPagesToUser (memory : ByteMemory) (table : Nat) : ByteMemory :=
  (List.range pageEntries).foldl (fun memory index =>
    let raw := entry memory table index
    if PageTableEntry.isValid raw then switchTable memory (PageTableEntry.addr raw) else memory)
    memory

def pushWords (memory : ByteMemory) (sp : Nat) (words : List Nat) : ByteMemory × Nat :=
  words.foldl (fun (memory, sp) word => (memory.writeWord (sp - 8) 8 word, sp - 8)) (memory, sp)

/-- The words on the first stack page in the order in which they are pushed: the
auxiliary vector, each value before its key, then `envp`, `argv` and `argc`. -/
def stackWords (header : Elf64Header) (phdrAddr : Nat) : List Nat :=
  [0, 0, 0, 23, 0, 7, pageSize, 6, header.ePhentsize, 4, header.ePhnum, 5, phdrAddr, 3,
    0, 0, 0, 1]

/-- The flags of the stack, the heap and mappings of a process. -/
def userFlags : PageFlags := readWrite.bitor PageFlags.user

def graftLoadArea (machine : Machine) (pageMap : PageMapper) : Checked Machine := do
  let kernelRoot := kernel.pageMapper.rootTable
  let processLoadAreaPageTable :=
    PageTableEntry.addr (entry machine.memory kernelRoot processLoadAreaEntry)
  ensure (processLoadAreaPageTable ≠ 0) "page fault"
  let memory := switchPagesToUser machine.memory processLoadAreaPageTable
  let memory := setEntry memory pageMap.rootTable 0
    (PageTableEntry.set processLoadAreaPageTable PageFlags.valid)
  let memory := setEntry memory kernelRoot processLoadAreaEntry 0
  .ok { machine with memory := memory }

/-- Fill and map the stack of a process; its stack pointer is returned. -/
def mapStack (machine : Machine) (pageMap : PageMapper) (header : Elf64Header)
    (baseVaddr : Nat) : Checked (Nat × Machine) := do
  let processStackEnd := processStackStart - pageSize
  let (firstStackPage, machine) ←
    supply.alloc machine "Failed to allocate process first stack page"
  let phdrAddr ← checkedAdd header.ePhoff baseVaddr
  let (memory, sp) := pushWords machine.memory (firstStackPage + pageSize)
    (stackWords header phdrAddr)
  let machine := { machine with memory := memory }
  let machine ← pageMap.mapRange supply.frames machine processStackEnd firstStackPage
    processStackStart userFlags .size4K
  let machine ← supply.ensureTables machine
  let remainingProcessStackEnd := processStackEnd - (processStackStartingSize - pageSize)
  let machine ← pageMap.allocateAndMapPages supply machine remainingProcessStackEnd
    (processStackStartingSize - pageSize) userFlags
  .ok (processStackStart - (firstStackPage + pageSize - sp), machine)

def initFromElf (file : File ByteMemory) (context : Context) (machine : Machine) :
    Checked (Context × Machine) := do
  let (header, file) ← readElf64Header file
  let header ← unwrap header "called `Result::unwrap()` on an `Err` value"
  let (state, loaded) ← loadElf supply kernel file header machine
  let (baseVaddr, heapStart) ← unwrap loaded "Failed to load ELF file"
  let machine ← graftLoadArea kernel state.machine context.pageMap
  let (sp, machine) ← mapStack supply machine context.pageMap header baseVaddr
  let machine ← context.pageMap.setL1PageTableForPhys supply machine trampolineTrapFrame
    kernel.lastL1Pte
  .ok (
    { context with
      heapBegin := heapStart
      heapEnd := heapStart
      trapFrame := { context.trapFrame with pc := header.eEntry, sp := sp, a0 := 1, a1 := 0 } },
    machine)

end Loading

/-- `Context::new`. -/
def Context.new (supply : FrameSupply) (trapFrame : TrapFrame) (machine : Machine) :
    Checked (Context × Machine) := do
  let (pageMap, machine) ← PageMapper.create supply machine
  .ok (⟨pageMap, 0, 0, processMmapStart, trapFrame⟩, machine)

end NanoOs.ProcessMemoryMap
