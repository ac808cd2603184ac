import NanoOs.KernelAllocatorListOperations
import Mathlib.Data.List.Chain

/-!
# The heap as a map of blocks

The abstract heap is the list of block addresses with their sizes and use
bits.  `Represents` says that the concrete heap, its physical links and its
free list included, stores this map up to the address `stop`; blocks in `held`
are marked free but are not on the free list, which happens inside an
operation.  The operations of the allocator are then edits of the map.
-/

namespace NanoOs.KernelAllocator

open LinkedLists Function List

/-- Block addresses in order, with the size and the use bit of each. -/
structure BlockMap where
  blocks : List Nat
  size : Nat → Nat
  used : Nat → Bool

namespace BlockMap

def IsUsed (map : BlockMap) (this : Nat) : Prop := this ∈ map.blocks ∧ map.used this = true

def Coalesced (map : BlockMap) : Prop :=
  map.blocks.IsChain fun first second => map.used first = true ∨ map.used second = true

/-- The blocks handed out, and their sizes, are the same in both maps. -/
structure SameUsed (map later : BlockMap) : Prop where
  used : ∀ this, later.IsUsed this ↔ map.IsUsed this
  size : ∀ this, map.IsUsed this → later.size this = map.size this

theorem SameUsed.refl (map : BlockMap) : map.SameUsed map :=
  ⟨fun _ => Iff.rfl, fun _ _ => rfl⟩

theorem Coalesced.append {front : List Nat} {this fresh : Nat} {size changed : Nat → Nat}
    {used : Nat → Bool} {isUsed : Bool} (coalesced : Coalesced ⟨front ++ [this], size, used⟩)
    (separated : used this = true ∨ isUsed = true) (new : fresh ∉ front ++ [this]) :
    Coalesced ⟨front ++ [this, fresh], changed, update used fresh isUsed⟩ := by
  have others : ∀ other ∈ front ++ [this], other ≠ fresh := by
    rintro other member rfl
    exact new member
  refine isChain_append_cons_cons.mpr ⟨List.IsChain.imp_of_mem_imp ?_ coalesced, ?_,
    by simp⟩
  · intro first second firstMember secondMember
    simp [others first firstMember, others second secondMember]
  · simpa [others this (by simp)] using separated

end BlockMap

def Headers.following (headers : Headers) (this : Nat) : Nat :=
  this + headers.size this + 16

/-- The heap holds the listed blocks and free list, described by the decoded
headers. -/
structure Represents (heap : LinkedListAllocator) (stop : Nat) (held blocks frees : List Nat)
    (headers : Headers) : Prop where
  agrees : Agrees heap.memory blocks headers
  tiles : Segment headers.following heap.head blocks stop
  lastIsTail : blocks.getLast? = some heap.tail
  sizes : ∀ this ∈ blocks, 16 ≤ headers.size this ∧ headers.size this % 8 = 0
  back : BackLinked headers.prev 0 blocks
  threads : (headers.freeLinks heap.freeHead).Threads 0 frees
  free : ∀ this, this ∈ frees ↔ this ∈ blocks ∧ headers.used this = false ∧ this ∉ held
  stopBound : stop < 2 ^ 64

/-- The heap holds a block map, with some free list and some links. -/
def Holds (heap : LinkedListAllocator) (stop : Nat) (held : List Nat) (map : BlockMap) : Prop :=
  ∃ frees headers, Represents heap stop held map.blocks frees headers ∧
    headers.size = map.size ∧ headers.used = map.used

theorem Represents.holds {heap : LinkedListAllocator} {stop : Nat}
    {held blocks frees : List Nat} {headers : Headers}
    (represents : Represents heap stop held blocks frees headers) :
    Holds heap stop held ⟨blocks, headers.size, headers.used⟩ :=
  ⟨frees, headers, represents, rfl, rfl⟩

/-- The call returns a heap that holds the given map, with the same bounds and
with nothing changed outside the touched headers. -/
def Becomes (outcome : Checked LinkedListAllocator) (heap : LinkedListAllocator)
    (touched : List Nat) (stop : Nat) (held : List Nat) (map : BlockMap) : Prop :=
  ∃ after, outcome = .ok after ∧ Holds after stop held map ∧ after.head = heap.head ∧
    after.heapEnd = heap.heapEnd ∧ KeepsPayload touched heap.memory after.memory

variable {heap : LinkedListAllocator} {stop : Nat} {held blocks frees front back : List Nat}
  {headers : Headers} {map : BlockMap} {this : Nat}

theorem Headers.le_following (headers : Headers) (this : Nat) :
    this ≤ headers.following this := by
  unfold Headers.following
  omega

theorem KeepsPayload.mono {fewer more : List Nat} {before after : ByteMemory}
    (keeps : KeepsPayload fewer before after) (included : ∀ this ∈ fewer, this ∈ more) :
    KeepsPayload more before after :=
  fun location outside => keeps location fun this member => outside this (included this member)

namespace Represents

section

variable (represents : Represents heap stop held blocks frees headers)

include represents

theorem nodup : blocks.Nodup := represents.agrees.nodup

theorem following_le (member : this ∈ blocks) : headers.following this ≤ stop :=
  ((represents.tiles.bounds headers.le_following).2 this member).2

theorem pointer (member : this ∈ blocks) : HeapPointer this :=
  represents.agrees.inHeap this member

theorem free_subset (member : this ∈ frees) : this ∈ blocks :=
  ((represents.free this).mp member).1

theorem size_lt (member : this ∈ blocks) : headers.size this < 2 ^ 30 := by
  have upper := represents.following_le member
  have lower := (represents.pointer member).1
  have bound := represents.stopBound
  unfold Headers.following at upper
  unfold heapStart at lower
  omega

end

theorem around (represents : Represents heap stop held (front ++ this :: back) frees headers) :
    Segment headers.following heap.head front this ∧
      Segment headers.following (headers.following this) back stop := by
  obtain ⟨middle, left, rfl, right⟩ := segment_append.mp represents.tiles
  exact ⟨left, right⟩

theorem linkInto_freeHead (represents : Represents heap stop held blocks frees headers) :
    LinkInto blocks heap.freeHead := by
  have forward := represents.threads.forward
  cases frees with
  | nil => exact Or.inl forward
  | cons first rest =>
    right
    have firstEq : heap.freeHead = first := forward.1
    rw [firstEq]
    exact represents.free_subset (by simp)

theorem inner_or_tail
    (represents : Represents heap stop held (front ++ this :: back) frees headers) :
    (back = [] ∧ this = heap.tail) ∨
      (∃ rest, back = headers.following this :: rest) ∧ this ≠ heap.tail := by
  have last := represents.lastIsTail
  have nodup := represents.nodup
  obtain ⟨-, backTiles⟩ := represents.around
  cases back with
  | nil =>
    left
    refine ⟨rfl, ?_⟩
    simpa using last
  | cons successor rest =>
    right
    refine ⟨⟨rest, by rw [backTiles.1]⟩, ?_⟩
    rintro rfl
    have tailMember : heap.tail ∈ successor :: rest := by
      have lastOfRest : (successor :: rest).getLast? = some heap.tail := by
        simpa [getLast?_append] using last
      exact mem_of_getLast? lastOfRest
    have fresh := (nodup_cons.mp (nodup_append.mp nodup).2.1).1
    exact fresh tailMember

end Represents

section

variable (holds : Holds heap stop held map)

include holds

theorem Holds.nodup : map.blocks.Nodup := by
  obtain ⟨frees, headers, represents, -, -⟩ := holds
  exact represents.nodup

section

variable (member : this ∈ map.blocks)

include member

theorem Holds.sizes : 16 ≤ map.size this ∧ map.size this % 8 = 0 := by
  obtain ⟨frees, headers, represents, sizeEq, -⟩ := holds
  rw [← sizeEq]
  exact represents.sizes this member

theorem Holds.pointer : HeapPointer this := by
  obtain ⟨frees, headers, represents, -, -⟩ := holds
  exact represents.pointer member

theorem Holds.following_le : this + map.size this + 16 ≤ stop := by
  obtain ⟨frees, headers, represents, sizeEq, -⟩ := holds
  rw [← sizeEq]
  exact represents.following_le member

theorem Holds.header_size : (heap.header this).size = map.size this := by
  obtain ⟨frees, headers, represents, sizeEq, -⟩ := holds
  rw [← sizeEq]
  exact represents.agrees.header_size member

end

theorem Holds.stopBound : stop < 2 ^ 64 := by
  obtain ⟨frees, headers, represents, -, -⟩ := holds
  exact represents.stopBound

section

variable (member : this ∈ map.blocks)

include member

theorem Holds.header_endPtr : (heap.header this).endPtr this = .ok (this + 16 + map.size this) := by
  have finish := holds.following_le member
  have bound := holds.stopBound
  obtain ⟨frees, headers, represents, sizeEq, -⟩ := holds
  rw [← sizeEq] at finish ⊢
  exact represents.agrees.header_endPtr member (by omega)

theorem Holds.header_isFree : (heap.header this).isFree = !map.used this := by
  obtain ⟨frees, headers, represents, -, usedEq⟩ := holds
  rw [← usedEq]
  exact represents.agrees.header_isFree member

theorem Holds.header_isUsed : (heap.header this).isUsed = map.used this := by
  obtain ⟨frees, headers, represents, -, usedEq⟩ := holds
  rw [← usedEq]
  exact represents.agrees.header_isUsed member

theorem Holds.header_next : (heap.header this).next this = .ok (this + map.size this + 16) := by
  have finish := holds.following_le member
  have bound := holds.stopBound
  obtain ⟨frees, headers, represents, sizeEq, -⟩ := holds
  rw [← sizeEq] at finish ⊢
  exact represents.agrees.header_next member (by omega)

end

theorem Holds.header_prev (position : map.blocks = front ++ this :: back) :
    (heap.header this).prev = .ok (front.getLastD 0) := by
  obtain ⟨frees, headers, represents, -, -⟩ := holds
  rw [represents.agrees.header_prev (by simp [position])]
  have linked := represents.back
  rw [position] at linked
  rw [linked.previous_eq]

theorem Holds.inner_or_tail (position : map.blocks = front ++ this :: back) :
    (back = [] ∧ this = heap.tail) ∨
      (∃ rest, back = (this + map.size this + 16) :: rest) ∧ this ≠ heap.tail := by
  obtain ⟨frees, headers, represents, sizeEq, -⟩ := holds
  rw [← sizeEq]
  rw [position] at represents
  exact represents.inner_or_tail

end

/-- The neighbours of a listed block on the free list are blocks or null. -/
theorem Represents.freeNeighbours {former latter : List Nat}
    (represents : Represents heap stop held blocks (former ++ this :: latter) headers) :
    LinkInto blocks (headers.freePrev this) ∧ LinkInto blocks (headers.freeNext this) ∧
      headers.freePrev this ≠ this := by
  have threads := represents.threads
  have fresh := (nodup_cons.mp (nodup_middle.mp threads.nodup)).1
  have member : this ∈ blocks := represents.free_subset (by simp)
  have prevCases : headers.freePrev this = 0 ∨ headers.freePrev this ∈ former :=
    threads.previous_mem
  have nextCases : headers.freeNext this = 0 ∨ headers.freeNext this ∈ latter :=
    threads.next_mem
  refine ⟨?_, ?_, ?_⟩
  · exact prevCases.imp id fun inFront => represents.free_subset (by simp [inFront])
  · exact nextCases.imp id fun inBack => represents.free_subset (by simp [inBack])
  · intro equal
    rw [equal] at prevCases
    rcases prevCases with null | inFront
    · exact (represents.pointer member).ne_zero null
    · exact fresh (by simp [inFront])

theorem mem_removed {removed : Nat} {former latter : List Nat}
    (nodup : (former ++ removed :: latter).Nodup)
    (free : ∀ this, this ∈ former ++ removed :: latter ↔
      this ∈ blocks ∧ headers.used this = false ∧ this ∉ held) (this : Nat) :
    this ∈ former ++ latter ↔
      this ∈ blocks ∧ headers.used this = false ∧ this ∉ removed :: held := by
  have fresh : removed ∉ former ++ latter := (nodup_cons.mp (nodup_middle.mp nodup)).1
  have split : this ∈ former ++ removed :: latter ↔ this = removed ∨ this ∈ former ++ latter := by
    simp only [mem_append, mem_cons]
    tauto
  have whole := free this
  rw [split] at whole
  constructor
  · intro member
    obtain ⟨inBlocks, isFree, notHeld⟩ := whole.mp (Or.inr member)
    refine ⟨inBlocks, isFree, ?_⟩
    rintro (_ | ⟨_, inHeld⟩)
    · exact fresh member
    · exact notHeld inHeld
  · rintro ⟨inBlocks, isFree, notHeld⟩
    simp only [mem_cons, not_or] at notHeld
    exact (whole.mpr ⟨inBlocks, isFree, notHeld.2⟩).resolve_left notHeld.1

theorem Holds.removeFreeBlock (holds : Holds heap stop held map) (member : this ∈ map.blocks)
    (isFree : map.used this = false) (notHeld : this ∉ held) :
    Becomes (heap.removeFreeBlock this) heap map.blocks stop (this :: held) map := by
  obtain ⟨blocks, size, used⟩ := map
  obtain ⟨frees, headers, represents, rfl, rfl⟩ := holds
  have listed : this ∈ frees := (represents.free this).mpr ⟨member, isFree, notHeld⟩
  obtain ⟨former, latter, rfl⟩ := append_of_mem listed
  have threads := represents.threads
  obtain ⟨prevLink, nextLink, prevNe⟩ := represents.freeNeighbours
  obtain ⟨memory, outcome, agrees, keeps⟩ :=
    represents.agrees.removeFreeBlock member prevLink nextLink prevNe
  have result : Represents
      { heap with
        memory := memory
        freeHead := ((headers.freeLinks heap.freeHead).unlink 0 this).first }
      stop (this :: held) blocks (former ++ latter)
      (headers.withFreeLinks ((headers.freeLinks heap.freeHead).unlink 0 this)) :=
    { represents with
      agrees := agrees
      threads := threads.unlink
      free := mem_removed threads.nodup represents.free }
  exact ⟨_, outcome, result.holds, rfl, rfl, keeps⟩

theorem Holds.insertFreeBlock (holds : Holds heap stop (this :: held) map)
    (member : this ∈ map.blocks) (isFree : map.used this = false) (notHeld : this ∉ held) :
    Becomes (heap.insertFreeBlock this) heap map.blocks stop held map := by
  obtain ⟨blocks, size, used⟩ := map
  obtain ⟨frees, headers, represents, rfl, rfl⟩ := holds
  obtain ⟨memory, outcome, agrees, keeps⟩ :=
    represents.agrees.insertFreeBlock member represents.linkInto_freeHead
  have unlisted : this ∉ frees := fun listed =>
    ((represents.free this).mp listed).2.2 (by simp)
  have listing : ∀ other, other ∈ this :: frees ↔
      other ∈ blocks ∧ headers.used other = false ∧ other ∉ held := by
    intro other
    rw [mem_cons, represents.free other]
    by_cases equal : other = this
    · subst equal
      simp only [true_or, true_iff]
      exact ⟨member, isFree, notHeld⟩
    · simp [equal]
  have result : Represents { heap with memory := memory, freeHead := this } stop held blocks
      (this :: frees)
      (headers.withFreeLinks ((headers.freeLinks heap.freeHead).insertFront 0 this)) :=
    { represents with
      agrees := agrees
      threads := represents.threads.insertFront unlisted (represents.pointer member).ne_zero
      free := listing }
  exact ⟨_, outcome, result.holds, rfl, rfl, keeps⟩

/-- A block changes its used bit, and the free list stays as it is. -/
theorem Holds.mark {outcome : Checked LinkedListAllocator} {bit : Bool} {heldAfter : List Nat}
    (holds : Holds heap stop held map)
    (yields : ∀ headers, Agrees heap.memory map.blocks headers →
      Yields outcome heap map.blocks (headers.setUsed this bit))
    (listing : ∀ other, map.used other = false ∧ other ∉ held ↔
      update map.used this bit other = false ∧ other ∉ heldAfter) :
    Becomes outcome heap map.blocks stop heldAfter
      { map with used := update map.used this bit } := by
  obtain ⟨blocks, size, used⟩ := map
  obtain ⟨frees, headers, represents, rfl, rfl⟩ := holds
  obtain ⟨memory, outcomeEq, agrees, keeps⟩ := yields headers represents.agrees
  have result : Represents { heap with memory := memory } stop heldAfter blocks frees
      (headers.setUsed this bit) :=
    { represents with
      agrees := agrees
      free := fun other => (represents.free other).trans (and_congr_right' (listing other)) }
  exact ⟨_, outcomeEq, result.holds, rfl, rfl, keeps⟩

theorem Holds.setUsed (holds : Holds heap stop (this :: held) map)
    (member : this ∈ map.blocks) :
    Becomes (heap.editHeader this (fun header => .ok header.setUsed)) heap map.blocks stop held
      { map with used := update map.used this true } := by
  refine holds.mark (fun _ agrees => agrees.setUsed member) fun other => ?_
  by_cases equal : other = this <;> simp [equal]

theorem Holds.setFree (holds : Holds heap stop held map) (member : this ∈ map.blocks)
    (isUsed : map.used this = true) :
    Becomes (heap.editHeader this (fun header => .ok header.setFree)) heap map.blocks stop
      (this :: held) { map with used := update map.used this false } := by
  refine holds.mark (fun _ agrees => agrees.setFree member) fun other => ?_
  by_cases equal : other = this <;> simp [equal, isUsed]

end NanoOs.KernelAllocator
