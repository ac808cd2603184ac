import NanoOs.Memory
import NanoOs.PageMapper

/-!
# Mapping frames of the page allocator

The parts of the page mapper that take the pages themselves from the page
allocator, with the frames the allocator owns and the failures when it has none
left.
-/

namespace NanoOs.PageMapping

open Memory (pageSize)

/-- The frames a page allocator owns, in the order in which it returns them. -/
structure FrameSource where
  frames : Nat → Nat
  owned : Nat
  aligned : ∀ count < owned, frames count % 4096 = 0
  small : ∀ count < owned, frames count < 2 ^ 48
  distinct : ∀ first < owned, ∀ second < owned, frames first = frames second → first = second

/-- The frames the page allocator owns.  The kernel reaches each of them through the
identity map of its low half. -/
structure FrameSupply extends FrameSource where
  lower : ∀ count < owned, 2 ^ 21 ≤ frames count
  upper : ∀ count < owned, frames count < 2 ^ 38
  small := fun count isOwned => (upper count isOwned).trans (by decide)

instance : Coe FrameSupply FrameSource := ⟨FrameSupply.toFrameSource⟩

/-- `core::ptr::write_bytes` with zeros. -/
def writeZeros (memory : ByteMemory) (address count : Nat) : ByteMemory := fun location =>
  if address ≤ location ∧ location < address + count then 0 else memory location

variable (supply : FrameSupply)

/-- `page_allocator::alloc`, with the message of the caller if no frame is left. -/
def FrameSupply.alloc (machine : Machine) (message : String) : Checked (Nat × Machine) := do
  ensure (machine.allocated < supply.owned) message
  .ok (allocFrame supply.frames machine)

def FrameSupply.ensureTables (machine : Machine) : Checked Machine := do
  ensure (machine.allocated ≤ supply.owned) "Out of memory for page table"
  .ok machine

namespace PageMapper

/-- `PageMapper::new` as long as the allocator has a frame. -/
def create (machine : Machine) : Checked (PageMapper × Machine) := do
  ensure (machine.allocated < supply.owned) "Failed to allocate root page table"
  .ok (PageMapper.new supply.frames machine)

/-- The loop of `allocate_and_map_pages_impl`, from an index on. -/
def allocateLoop (mapper : PageMapper) (virt : Nat) (flags : PageFlags) (zero : Bool) :
    Nat → Nat → Machine → Checked Machine
  | 0, _, machine => .ok machine
  | remaining + 1, index, machine => do
      let (phys, machine) ← supply.alloc machine "Out of memory for page"
      let machine :=
        if zero then { machine with memory := writeZeros machine.memory phys pageSize } else machine
      let virtAddr ← checkedAdd virt (index * pageSize)
      let stop ← checkedAdd virtAddr pageSize
      let machine ← mapper.mapRange supply.frames machine virtAddr phys stop flags .size4K
      let machine ← supply.ensureTables machine
      allocateLoop mapper virt flags zero remaining (index + 1) machine

def allocateAndMapPagesImpl (mapper : PageMapper) (machine : Machine) (virt size : Nat)
    (flags : PageFlags) (zero : Bool) : Checked Machine :=
  let pageCount := size / pageSize
  mapper.allocateLoop supply virt flags zero pageCount 0 machine

def allocateAndMapPages (mapper : PageMapper) (machine : Machine) (virt size : Nat)
    (flags : PageFlags) : Checked Machine :=
  mapper.allocateAndMapPagesImpl supply machine virt size flags false

def allocateAndMapPagesZeroed (mapper : PageMapper) (machine : Machine) (virt size : Nat)
    (flags : PageFlags) : Checked Machine :=
  mapper.allocateAndMapPagesImpl supply machine virt size flags true

def setL1PageTableForPhys (mapper : PageMapper) (machine : Machine) (physAddr l1Table : Nat) :
    Checked Machine :=
  let (l1PageTable, machine) :=
    nextLevel supply.frames machine mapper.rootTable (vpn2 physAddr)
  supply.ensureTables
    { machine with
      memory := setEntry machine.memory l1PageTable (vpn1 physAddr)
        (PageTableEntry.set l1Table PageFlags.valid) }

def l1PageTableFromPhys (mapper : PageMapper) (memory : ByteMemory) (physAddr : Nat) : Nat :=
  let l1Table := PageTableEntry.addr (entry memory mapper.rootTable (vpn2 physAddr))
  PageTableEntry.addr (entry memory l1Table (vpn1 physAddr))

end PageMapper

/-- `PageTableEntry::set_user_flag`. -/
def PageTableEntry.setUserFlag (raw : Nat) : Nat := raw ||| PageFlags.user.bits

end NanoOs.PageMapping
