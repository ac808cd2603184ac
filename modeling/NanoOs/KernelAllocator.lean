import NanoOs.KernelAllocatorBlockHeader
import NanoOs.Memory

/-!
# The linked-list kernel allocator

Blocks of the heap lie next to each other and carry a link to their physical
predecessor; free blocks are threaded on a second, doubly linked list.  The
definitions follow the allocator's methods statement by statement, with the
allocator's cells and the heap memory passed explicitly and a pointer
represented by its address, zero being null.
-/

namespace NanoOs.KernelAllocator

def minAllocSize : Nat := 16

def minBlockSize : Nat := blockHeaderSize + minAllocSize

def alignUp (address align : Nat) : Checked Nat := do
  let raised ← checkedAdd address align
  let last ← checkedSub raised 1
  let mask ← checkedSub align 1
  .ok (last &&& complement mask)

/-- A memory request: a non-zero size and a power-of-two alignment whose
rounding stays within the signed address range. -/
structure Layout where
  size : Nat
  align : Nat
  nonzero : 0 < size
  powerOfTwo : ∃ exponent, align = 2 ^ exponent
  bounded : size + align ≤ 2 ^ 63

/-- The answer of `grow_heap_fn` to a request for more bytes: the start and
the length of the new region, or nothing. -/
abbrev GrowHeap := Nat → Option (Nat × Nat)

/-- The allocator's cells together with the memory that holds its headers. -/
structure LinkedListAllocator where
  memory : ByteMemory
  head : Nat
  tail : Nat
  heapEnd : Nat
  freeHead : Nat

namespace LinkedListAllocator

def header (heap : LinkedListAllocator) (this : Nat) : BlockHeader :=
  BlockHeader.load heap.memory this

def putHeader (heap : LinkedListAllocator) (this : Nat) (header : BlockHeader) :
    LinkedListAllocator :=
  { heap with memory := BlockHeader.store heap.memory this header }

def editHeader (heap : LinkedListAllocator) (this : Nat)
    (edit : BlockHeader → Checked BlockHeader) : Checked LinkedListAllocator := do
  let header ← edit (heap.header this)
  .ok (heap.putHeader this header)

def init (memory : ByteMemory) (start heapSize : Nat) : Checked LinkedListAllocator := do
  let size ← checkedSub heapSize blockHeaderSize
  let heapEnd ← checkedAdd start heapSize
  .ok { memory := BlockHeader.store memory start (BlockHeader.new size false)
        head := start, tail := start, heapEnd := heapEnd, freeHead := start }

def insertFreeBlock (heap : LinkedListAllocator) (this : Nat) :
    Checked LinkedListAllocator := do
  let heap ← heap.editHeader this (·.setFreeNext heap.freeHead)
  let heap ← heap.editHeader this (·.setFreePrev 0)
  let heap ← (if heap.freeHead ≠ 0 then
      heap.editHeader heap.freeHead (·.setFreePrev this)
    else
      .ok heap)
  .ok { heap with freeHead := this }

def removeFreeBlock (heap : LinkedListAllocator) (this : Nat) :
    Checked LinkedListAllocator := do
  let before ← (heap.header this).freePrev
  let heap ← (if before ≠ 0 then do
      let after ← (heap.header this).freeNext
      heap.editHeader before (·.setFreeNext after)
    else do
      let after ← (heap.header this).freeNext
      .ok { heap with freeHead := after })
  let after ← (heap.header this).freeNext
  let heap ← (if after ≠ 0 then do
      let before ← (heap.header this).freePrev
      heap.editHeader after (·.setFreePrev before)
    else
      .ok heap)
  let heap ← heap.editHeader this (·.setFreeNext 0)
  heap.editHeader this (·.setFreePrev 0)

def appendToList (heap : LinkedListAllocator) (this : Nat) :
    Checked LinkedListAllocator := do
  let last := heap.tail
  let heap ← heap.editHeader this (·.setPrev last)
  .ok { heap with tail := this }

def insertAfter (heap : LinkedListAllocator) (this newBlock : Nat) :
    Checked LinkedListAllocator := do
  let next ← (heap.header this).next this
  let heap ← (if this ≠ heap.tail then
      heap.editHeader next (·.setPrev newBlock)
    else
      .ok { heap with tail := newBlock })
  heap.editHeader newBlock (·.setPrev this)

def removeFromList (heap : LinkedListAllocator) (this : Nat) :
    Checked LinkedListAllocator := do
  let next ← (heap.header this).next this
  let prev ← (heap.header this).prev
  ensure (prev ≠ 0) "Head will never be removed"
  if this ≠ heap.tail then
    heap.editHeader next (·.setPrev prev)
  else
    .ok { heap with tail := prev }

end LinkedListAllocator

/-- The search of `check_aligned_fit` from a candidate address on, with the
block given by its header address and its end. -/
def alignedFitFrom (block stop allocSize align : Nat) : Nat → Nat → Checked (Option Nat)
  | 0, _ => .error .diverged
  | fuel + 1, aligned => do
      let finish ← checkedAdd aligned allocSize
      let rounded ← alignUp finish 8
      let needed ← checkedAdd rounded blockHeaderSize
      if needed ≤ stop then do
        let header ← checkedSub aligned blockHeaderSize
        let padding ← checkedSub header block
        if padding = 0 ∨ minBlockSize ≤ padding then
          .ok (some header)
        else do
          let candidate ← checkedAdd aligned align
          alignedFitFrom block stop allocSize align fuel candidate
      else
        .ok none

/-- The candidates of `check_aligned_fit` for a block that ends at `stop`.
They increase and stay below `stop`, which bounds the iterations. -/
def alignedFit (block stop allocSize align : Nat) : Checked (Option Nat) := do
  let aligned ← alignUp (BlockHeader.allocAreaStart block) align
  alignedFitFrom block stop allocSize align (stop + 1) aligned

namespace LinkedListAllocator

def checkAlignedFit (heap : LinkedListAllocator) (block allocSize align : Nat) :
    Checked (Option Nat) := do
  let stop ← (heap.header block).endPtr block
  alignedFit block stop allocSize align

/-- The location `find_fit` would use inside a free block, if any. -/
def fitIn (heap : LinkedListAllocator) (layout : Layout) (block : Nat) :
    Checked (Option Nat) :=
  if layout.align ≤ 8 then do
    let totalNeeded ← alignUp layout.size 8
    .ok (if totalNeeded ≤ (heap.header block).size then some block else none)
  else
    heap.checkAlignedFit block layout.size layout.align

def searchFree (heap : LinkedListAllocator) (layout : Layout) :
    Nat → Nat → Checked (Option (Nat × Nat))
  | 0, _ => .error .diverged
  | fuel + 1, currentFree =>
      if currentFree = 0 then
        .ok none
      else do
        match ← heap.fitIn layout currentFree with
        | some location => .ok (some (currentFree, location))
        | none => do
            let following ← (heap.header currentFree).freeNext
            heap.searchFree layout fuel following

/-- The part of `find_fit` that looks at existing blocks.  A walk that ends
meets no address twice, so `heapEnd` bounds its length. -/
def findExisting (heap : LinkedListAllocator) (layout : Layout) :
    Checked (Option (Nat × Nat)) :=
  heap.searchFree layout heap.heapEnd heap.freeHead

def expectFit : Option Nat → Checked Nat
  | some location => .ok location
  | none => .error (.assertion "Failed to find aligned fit")

/-- The number of bytes `find_fit` asks `grow_heap_fn` for. -/
def growRequest (layout : Layout) : Nat :=
  max (blockHeaderSize + layout.align + layout.size) Memory.pageSize

/-- The part of `find_fit` after a new region has been added to the heap. -/
def useNewRegion (heap : LinkedListAllocator) (layout : Layout) (newHeap actualSize : Nat) :
    Checked ((Nat × Nat) × LinkedListAllocator) := do
  let heapEnd ← checkedAdd newHeap actualSize
  let heap := { heap with heapEnd := heapEnd }
  let last := heap.tail
  if (heap.header last).isFree then do
    let heap ← heap.editHeader last (·.addSize actualSize)
    let location ← expectFit (← heap.checkAlignedFit last layout.size layout.align)
    .ok ((last, location), heap)
  else do
    let size ← checkedSub actualSize blockHeaderSize
    let heap := heap.putHeader newHeap (BlockHeader.new size false)
    let heap ← heap.insertFreeBlock newHeap
    let heap ← heap.appendToList newHeap
    let location ← expectFit (← heap.checkAlignedFit newHeap layout.size layout.align)
    .ok ((newHeap, location), heap)

def findFit (heap : LinkedListAllocator) (grow : GrowHeap) (layout : Layout) :
    Checked (Option (Nat × Nat) × LinkedListAllocator) := do
  match ← heap.findExisting layout with
  | some found => .ok (some found, heap)
  | none =>
      match grow (growRequest layout) with
      | none => .ok (none, heap)
      | some (newHeap, actualSize) => do
          let (found, heap) ← heap.useNewRegion layout newHeap actualSize
          .ok (some found, heap)

/-- `split_block` when the block itself is suitably aligned. -/
def splitInPlace (heap : LinkedListAllocator) (this : Nat) (layout : Layout) :
    Checked (Nat × LinkedListAllocator) := do
  let totalNeeded ← alignUp (max layout.size minAllocSize) 8
  let excess ← checkedSub (heap.header this).size totalNeeded
  let heap ← (if minBlockSize ≤ excess then do
      let newBlock := BlockHeader.allocAreaStart this + totalNeeded
      let heap := heap.putHeader newBlock (BlockHeader.new (excess - blockHeaderSize) false)
      let heap ← heap.insertFreeBlock newBlock
      let heap ← heap.insertAfter this newBlock
      heap.editHeader this (fun header => .ok (header.setSize totalNeeded))
    else
      .ok heap)
  let heap ← heap.removeFreeBlock this
  let heap ← heap.editHeader this (fun header => .ok header.setUsed)
  .ok (BlockHeader.allocAreaStart this, heap)

/-- `split_block` when an aligned block is carved out of the middle. -/
def splitAligned (heap : LinkedListAllocator) (this alignedBlock : Nat) (layout : Layout) :
    Checked (Nat × LinkedListAllocator) := do
  let thisSize := (heap.header this).size
  let precedingSize ← checkedSub alignedBlock (BlockHeader.allocAreaStart this)
  let rounded ← alignUp layout.size 8
  let alignedBlockSize := max rounded (minBlockSize - blockHeaderSize)
  let afterPreceding ← checkedSub thisSize (precedingSize + blockHeaderSize)
  let excess ← checkedSub afterPreceding (alignedBlockSize + blockHeaderSize)
  let heap ← heap.editHeader this (fun header => .ok (header.setSize precedingSize))
  let heap := heap.putHeader alignedBlock (BlockHeader.new alignedBlockSize true)
  let heap ← heap.insertAfter this alignedBlock
  let heap ← (if minAllocSize ≤ excess then do
      let newBlock ← (heap.header alignedBlock).endPtr alignedBlock
      let heap := heap.putHeader newBlock (BlockHeader.new excess false)
      let heap ← heap.insertFreeBlock newBlock
      heap.insertAfter alignedBlock newBlock
    else
      .ok heap)
  .ok (BlockHeader.allocAreaStart alignedBlock, heap)

def splitBlock (heap : LinkedListAllocator) (this alignedBlock : Nat) (layout : Layout) :
    Checked (Nat × LinkedListAllocator) :=
  if this = alignedBlock then
    heap.splitInPlace this layout
  else
    heap.splitAligned this alignedBlock layout

def alloc (heap : LinkedListAllocator) (grow : GrowHeap) (layout : Layout) :
    Checked (Nat × LinkedListAllocator) := do
  match ← heap.findFit grow layout with
  | (some (block, alignedBlock), heap) => heap.splitBlock block alignedBlock layout
  | (none, heap) => .ok (0, heap)

/-- First half of `dealloc_and_coalesce`: free the block and absorb a free
physical successor. -/
def coalesceNext (heap : LinkedListAllocator) (block : Nat) :
    Checked LinkedListAllocator := do
  let heap ← heap.editHeader block (fun header => .ok header.setFree)
  let next ← (heap.header block).next block
  if block ≠ heap.tail ∧ (heap.header next).isFree then do
    let nextSize := (heap.header next).size
    let heap ← heap.editHeader block (·.addSize (blockHeaderSize + nextSize))
    let heap ← heap.removeFreeBlock next
    heap.removeFromList next
  else
    .ok heap

/-- Second half of `dealloc_and_coalesce`: join a free physical predecessor or
enter the free list. -/
def coalescePrev (heap : LinkedListAllocator) (block : Nat) :
    Checked LinkedListAllocator := do
  let prev ← (heap.header block).prev
  if prev ≠ 0 ∧ (heap.header prev).isFree then do
    let heap ← heap.removeFromList block
    let size := (heap.header block).size
    heap.editHeader prev (·.addSize (blockHeaderSize + size))
  else
    heap.insertFreeBlock block

def deallocAndCoalesce (heap : LinkedListAllocator) (ptr : Nat) :
    Checked LinkedListAllocator := do
  let block ← checkedSub ptr blockHeaderSize
  let heap ← heap.coalesceNext block
  heap.coalescePrev block

def dealloc (heap : LinkedListAllocator) (ptr : Nat) : Checked LinkedListAllocator :=
  if ptr = 0 then .ok heap else heap.deallocAndCoalesce ptr

end LinkedListAllocator

end NanoOs.KernelAllocator
