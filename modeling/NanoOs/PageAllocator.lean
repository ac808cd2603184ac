import NanoOs.ByteMemory
import NanoOs.LinkedLists
import NanoOs.Memory

/-!
# The page allocator

A list of blocks of free pages.  Each block carries its node in the first bytes
of its own first page.  An optional reference to a node is one word, with the
null address for an absent one.
-/

namespace NanoOs

open Memory

structure PageAllocator where
  head : Nat
  freePages : Nat
  totalPages : Nat
  deriving Repr, DecidableEq

namespace PageAllocator

/-- The field `next` of the node at an address. -/
def next (memory : ByteMemory) (node : Nat) : Nat := memory.readWord node 8

/-- The field `page_count` of the node at an address. -/
def pageCount (memory : ByteMemory) (node : Nat) : Nat := memory.readWord (node + 8) 8

def setNext (memory : ByteMemory) (node value : Nat) : ByteMemory := memory.writeWord node 8 value

def setPageCount (memory : ByteMemory) (node value : Nat) : ByteMemory :=
  memory.writeWord (node + 8) 8 value

def new : PageAllocator := ⟨0, 0, 0⟩

def dealloc (allocator : PageAllocator) (memory : ByteMemory) (ptr pageCount : Nat) :
    Checked (PageAllocator × ByteMemory) := do
  let freePages ← checkedAdd allocator.freePages pageCount
  let memory := setNext memory ptr allocator.head
  let memory := setPageCount memory ptr pageCount
  .ok ({ allocator with head := ptr, freePages := freePages }, memory)

def alloc (allocator : PageAllocator) (memory : ByteMemory) :
    Checked (Option Nat × PageAllocator × ByteMemory) :=
  if allocator.head = 0 then
    .ok (none, allocator, memory)
  else do
    let node := allocator.head
    let remaining ← checkedSub (pageCount memory node) 1
    let memory := setPageCount memory node remaining
    let offset ← checkedMul remaining pageSize
    let address ← checkedAdd node offset
    let (head, memory) :=
      if remaining = 0 then (next memory node, setNext memory node 0) else (node, memory)
    let freePages ← checkedSub allocator.freePages 1
    .ok (some address, { allocator with head := head, freePages := freePages }, memory)

/-- The loop of `init` over the usable regions. -/
def initFrom (allocator : PageAllocator) (memory : ByteMemory) :
    List Region → Checked (PageAllocator × ByteMemory)
  | [] => .ok (allocator, memory)
  | region :: rest => do
      ensure (region.start &&& (pageSize - 1) = 0) "Page allocator start address not page-aligned."
      ensure (region.stop &&& (pageSize - 1) = 0) "Page allocator end address not page-aligned."
      let length ← checkedSub region.stop region.start
      ensure (region.start % pageSize = 0) "assertion `left == right` failed"
      ensure (region.stop % pageSize = 0) "assertion `left == right` failed"
      let (allocator, memory) ← allocator.dealloc memory region.start (length / pageSize)
      initFrom allocator memory rest

def init (allocator : PageAllocator) (memory : ByteMemory) (usableMemory : List Region) :
    Checked (PageAllocator × ByteMemory) := do
  let (allocator, memory) ←
    initFrom { allocator with head := 0, freePages := 0 } memory usableMemory
  .ok ({ allocator with totalPages := allocator.freePages }, memory)

end PageAllocator

end NanoOs
