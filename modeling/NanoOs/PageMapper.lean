import NanoOs.ByteMemory
import NanoOs.PageTableEntry

/-!
# The page mapper

Three-level page tables in memory.  The page allocator is given by the frames
it returns, one after the other.
-/

namespace NanoOs.PageMapping

inductive PageSize
  | size4K
  | size2M
  | size1G
  deriving Repr, DecidableEq

namespace PageSize

def size : PageSize → Nat
  | .size4K => 4 * 1024
  | .size2M => 2 * 1024 * 1024
  | .size1G => 1024 * 1024 * 1024

def level : PageSize → Nat
  | .size4K => 0
  | .size2M => 1
  | .size1G => 2

end PageSize

def pageEntries : Nat := 512

def vpn2 (address : Nat) : Nat := (address >>> 30) &&& 0x1ff

def vpn1 (address : Nat) : Nat := (address >>> 21) &&& 0x1ff

def vpn0 (address : Nat) : Nat := (address >>> 12) &&& 0x1ff

def entry (memory : ByteMemory) (table index : Nat) : Nat := memory.readWord (table + 8 * index) 8

def setEntry (memory : ByteMemory) (table index raw : Nat) : ByteMemory :=
  memory.writeWord (table + 8 * index) 8 raw

def zeroPageTable (memory : ByteMemory) (table : Nat) : ByteMemory := fun location =>
  if table ≤ location ∧ location < table + 8 * pageEntries then 0 else memory location

/-- The memory, and how many frames the page allocator has returned. -/
structure Machine where
  memory : ByteMemory
  allocated : Nat

structure PageMapper where
  rootTable : Nat
  deriving Repr, DecidableEq

section Frames

variable (frames : Nat → Nat)

/-- `page_allocator::alloc`, which does not run out. -/
def allocFrame (machine : Machine) : Nat × Machine :=
  (frames machine.allocated, { machine with allocated := machine.allocated + 1 })

def allocNextLevel (machine : Machine) (table index : Nat) : Nat × Machine :=
  let (newFrame, machine) := allocFrame frames machine
  let memory := zeroPageTable machine.memory newFrame
  let memory := setEntry memory table index (PageTableEntry.set newFrame PageFlags.empty)
  (newFrame, { machine with memory := memory })

/-- The table below an entry, created if the entry is not valid. -/
def nextLevel (machine : Machine) (table index : Nat) : Nat × Machine :=
  if ¬ PageTableEntry.isValid (entry machine.memory table index) then
    allocNextLevel frames machine table index
  else
    (PageTableEntry.addr (entry machine.memory table index), machine)

namespace PageMapper

def new (machine : Machine) : PageMapper × Machine :=
  let (rootFrame, machine) := allocFrame frames machine
  (⟨rootFrame⟩, { machine with memory := zeroPageTable machine.memory rootFrame })

/-- One iteration of the loop of `map_range`. -/
def mapPage (mapper : PageMapper) (machine : Machine) (virt phys : Nat) (flags : PageFlags)
    (leafLevel : Nat) : Machine :=
  let table := mapper.rootTable
  if leafLevel = 2 then
    { machine with
      memory := setEntry machine.memory table (vpn2 virt) (PageTableEntry.set phys flags) }
  else
    let (table, machine) := nextLevel frames machine table (vpn2 virt)
    if leafLevel = 1 then
      { machine with
        memory := setEntry machine.memory table (vpn1 virt) (PageTableEntry.set phys flags) }
    else
      let (table, machine) := nextLevel frames machine table (vpn1 virt)
      { machine with
        memory := setEntry machine.memory table (vpn0 virt) (PageTableEntry.set phys flags) }

def mapLoop (mapper : PageMapper) (virtStart physStart size : Nat) (flags : PageFlags)
    (pageSize : PageSize) : Nat → Machine → Nat → Checked Machine
  | 0, _, _ => .error .diverged
  | fuel + 1, machine, offset =>
      if offset < size then do
        let virt ← checkedAdd virtStart offset
        let phys ← checkedAdd physStart offset
        let machine := mapper.mapPage frames machine virt phys flags pageSize.level
        let offset ← checkedAdd offset pageSize.size
        mapLoop mapper virtStart physStart size flags pageSize fuel machine offset
      else
        .ok machine

def mapRange (mapper : PageMapper) (machine : Machine) (virtStart physStart stop : Nat)
    (flags : PageFlags) (pageSize : PageSize) : Checked Machine := do
  let step := pageSize.size
  ensure (virtStart % step = 0) "virtual address not aligned"
  ensure (physStart % step = 0) "physical address not aligned"
  ensure (stop % step = 0) "end address not aligned"
  let size ← checkedSub stop virtStart
  mapper.mapLoop frames virtStart physStart size flags pageSize (size / step + 1) machine 0

end PageMapper

end Frames

def PageMapper.virtToPhys (mapper : PageMapper) (memory : ByteMemory) (virtAddr : Nat) :
    Option Nat :=
  let entry2 := entry memory mapper.rootTable (vpn2 virtAddr)
  if ¬ PageTableEntry.isValid entry2 then
    none
  else if PageTableEntry.isLeaf entry2 then
    some ((PageTableEntry.addr entry2 &&& complement 0x3fff) ||| (virtAddr &&& 0x3fff))
  else
    let entry1 := entry memory (PageTableEntry.addr entry2) (vpn1 virtAddr)
    if ¬ PageTableEntry.isValid entry1 then
      none
    else if PageTableEntry.isLeaf entry1 then
      some ((PageTableEntry.addr entry1 &&& complement 0x1fffff) ||| (virtAddr &&& 0x1fffff))
    else
      let entry0 := entry memory (PageTableEntry.addr entry1) (vpn0 virtAddr)
      if ¬ PageTableEntry.isValid entry0 then
        none
      else
        some ((PageTableEntry.addr entry0 &&& complement 0xfff) ||| (virtAddr &&& 0xfff))

end NanoOs.PageMapping
