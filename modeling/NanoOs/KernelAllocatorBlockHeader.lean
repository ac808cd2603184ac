import NanoOs.ByteMemory
import NanoOs.CheckedArithmetic

/-!
# Block headers of the kernel heap

Every heap block starts with a sixteen-byte header of four 32-bit words.  Links
are stored as offsets from the start of the kernel heap, with one reserved
offset for the null pointer, and the lowest bit of the backward free link
records whether the block is in use.
-/

namespace NanoOs.KernelAllocator

open ByteMemory

/-- `KERNEL_HEAP_START`, the base of all stored offsets. -/
def heapStart : Nat := 0xffffffffc0000000

def blockHeaderSize : Nat := 16

def nullOffset : Nat := 0xfffffffe

/-- `!NULL_OFFSET` on 32-bit words. -/
def offsetLowerBitsMask : Nat := 2 ^ 32 - 1 - nullOffset

/-- Values are truncated to 32 bits when they are stored in a header word. -/
def asU32 (value : Nat) : Nat := value % 2 ^ 32

def fromOffset (offset : Nat) : Checked Nat :=
  if offset = nullOffset then .ok 0 else checkedAdd heapStart offset

def toOffset (pointer : Nat) : Checked Nat :=
  if pointer = 0 then
    .ok nullOffset
  else do
    let offset ← checkedSub pointer heapStart
    .ok (asU32 offset)

structure BlockHeader where
  rawSize : Nat
  rawPrev : Nat
  rawFreeNext : Nat
  rawFreePrev : Nat
  deriving Repr, DecidableEq

namespace BlockHeader

def new (size : Nat) (used : Bool) : BlockHeader where
  rawSize := asU32 size
  rawPrev := nullOffset
  rawFreeNext := nullOffset
  rawFreePrev := nullOffset ||| (if used then 1 else 0)

def allocAreaStart (this : Nat) : Nat := this + blockHeaderSize

def next (header : BlockHeader) (this : Nat) : Checked Nat := do
  let sized ← checkedAdd this header.rawSize
  checkedAdd sized blockHeaderSize

def prev (header : BlockHeader) : Checked Nat := fromOffset header.rawPrev

def setPrev (header : BlockHeader) (pointer : Nat) : Checked BlockHeader := do
  let offset ← toOffset pointer
  .ok { header with rawPrev := offset }

def freeNext (header : BlockHeader) : Checked Nat := fromOffset header.rawFreeNext

def setFreeNext (header : BlockHeader) (pointer : Nat) : Checked BlockHeader := do
  let offset ← toOffset pointer
  .ok { header with rawFreeNext := offset }

def freePrev (header : BlockHeader) : Checked Nat :=
  let freePrevOffset := header.rawFreePrev &&& nullOffset
  if freePrevOffset = nullOffset then .ok 0 else checkedAdd heapStart freePrevOffset

def setFreePrev (header : BlockHeader) (pointer : Nat) : Checked BlockHeader :=
  let lowerBits := header.rawFreePrev &&& offsetLowerBitsMask
  if pointer = 0 then
    .ok { header with rawFreePrev := lowerBits ||| nullOffset }
  else do
    let offset ← checkedSub pointer heapStart
    .ok { header with rawFreePrev := lowerBits ||| asU32 offset }

def size (header : BlockHeader) : Nat := header.rawSize

def setSize (header : BlockHeader) (size : Nat) : BlockHeader :=
  { header with rawSize := asU32 size }

def addSize (header : BlockHeader) (size : Nat) : Checked BlockHeader :=
  if header.rawSize + asU32 size < 2 ^ 32 then
    .ok { header with rawSize := header.rawSize + asU32 size }
  else
    .error .overflow

def isUsed (header : BlockHeader) : Bool := header.rawFreePrev &&& 1 != 0

def setUsed (header : BlockHeader) : BlockHeader :=
  { header with rawFreePrev := header.rawFreePrev ||| 1 }

def isFree (header : BlockHeader) : Bool := header.rawFreePrev &&& 1 == 0

def setFree (header : BlockHeader) : BlockHeader :=
  { header with rawFreePrev := header.rawFreePrev &&& (2 ^ 32 - 1 - 1) }

def endPtr (header : BlockHeader) (this : Nat) : Checked Nat := do
  let start ← checkedAdd this blockHeaderSize
  checkedAdd start header.rawSize

def load (memory : ByteMemory) (this : Nat) : BlockHeader where
  rawSize := memory.readWord this 4
  rawPrev := memory.readWord (this + 4) 4
  rawFreeNext := memory.readWord (this + 8) 4
  rawFreePrev := memory.readWord (this + 12) 4

def store (memory : ByteMemory) (this : Nat) (header : BlockHeader) : ByteMemory :=
  let sized := memory.writeWord this 4 header.rawSize
  let linked := sized.writeWord (this + 4) 4 header.rawPrev
  let threaded := linked.writeWord (this + 8) 4 header.rawFreeNext
  threaded.writeWord (this + 12) 4 header.rawFreePrev

structure Fits (header : BlockHeader) : Prop where
  size : header.rawSize < 2 ^ 32
  prev : header.rawPrev < 2 ^ 32
  freeNext : header.rawFreeNext < 2 ^ 32
  freePrev : header.rawFreePrev < 2 ^ 32

theorem load_store_same (memory : ByteMemory) (this : Nat) {header : BlockHeader}
    (fits : header.Fits) :
    load (store memory this header) this = header := by
  obtain ⟨size, prev, freeNext, freePrev⟩ := fits
  unfold load store
  congr 1
  · rw [readWord_writeWord_disjoint _ (by omega),
      readWord_writeWord_disjoint _ (by omega),
      readWord_writeWord_disjoint _ (by omega),
      readWord_writeWord_of_lt _ size]
  · rw [readWord_writeWord_disjoint _ (by omega),
      readWord_writeWord_disjoint _ (by omega),
      readWord_writeWord_of_lt _ prev]
  · rw [readWord_writeWord_disjoint _ (by omega),
      readWord_writeWord_of_lt _ freeNext]
  · rw [readWord_writeWord_of_lt _ freePrev]

theorem store_outside (memory : ByteMemory) {this location : Nat} (header : BlockHeader)
    (outside : location < this ∨ this + 16 ≤ location) :
    store memory this header location = memory location := by
  unfold store
  rw [writeWord_outside _ (by omega), writeWord_outside _ (by omega),
    writeWord_outside _ (by omega), writeWord_outside _ (by omega)]

theorem load_congr {first second : ByteMemory} {this : Nat}
    (agree : ∀ location, this ≤ location → location < this + 16 →
      first location = second location) :
    load first this = load second this := by
  unfold load
  congr 1 <;> apply readWord_congr <;> intro location lower upper <;>
    exact agree location (by omega) (by omega)

theorem load_store_apart (memory : ByteMemory) {this other : Nat} (header : BlockHeader)
    (apart : this + 16 ≤ other ∨ other + 16 ≤ this) :
    load (store memory this header) other = load memory other :=
  load_congr fun _ _ _ => store_outside memory header (by omega)

end BlockHeader

end NanoOs.KernelAllocator
