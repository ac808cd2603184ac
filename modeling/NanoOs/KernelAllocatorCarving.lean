import NanoOs.KernelAllocatorAlignedFit
import NanoOs.KernelAllocatorRelinking
import NanoOs.KernelAllocatorSafety

/-!
# Dividing a free block

`split_block` divides a free block at the place that `check_aligned_fit` found. The two
agree unless an aligned allocation leaves a rest behind it that is too short for a block
of its own.
-/

namespace NanoOs.KernelAllocator

open LinkedListAllocator BlockHeader

def LeadsOut (block stop pointer : Nat) : Prop :=
  pointer = 0 ∨ HeapPointer pointer ∧ (pointer + 16 ≤ block ∨ stop ≤ pointer)

/-- A free block and its place in the free list. Nothing is said about the rest of the
heap. -/
structure FreeBlock (heap : LinkedListAllocator) (block stop : Nat) : Prop where
  pointer : HeapPointer block
  isFree : (heap.header block).isFree = true
  size : block + 16 + (heap.header block).size = stop
  large : minAllocSize ≤ (heap.header block).size
  whole : (heap.header block).size % 8 = 0
  bounded : stop < 2 ^ 64
  listed : ∃ before after, (heap.header block).freePrev = .ok before ∧
    (heap.header block).freeNext = .ok after ∧ LeadsOut block stop before ∧
    LeadsOut block stop after ∧
    (heap.freeHead = block ∨ before ≠ 0 ∧ LeadsOut block stop heap.freeHead)

/-- The size that `split_block` gives to the allocated block. -/
def allocatedSize (layout : Layout) : Nat := max (roundedSize layout.size) minAllocSize

/-- The call leaves a used block at the location, a free block in front of it unless
that is the start, and maybe a free block behind it, which together are the block. -/
structure Divides (after : LinkedListAllocator) (layout : Layout) (block location stop : Nat)
    (rear : Option Nat) : Prop where
  tiles : Walks (fun this => (after.header this).next this) block
    ((if location = block then [] else [block]) ++ location :: rear.toList) stop
  front : location ≠ block → (after.header block).isFree = true
  used : (after.header location).isUsed = true
  enough : layout.size ≤ (after.header location).size
  aligned : (location + 16) % layout.align = 0
  rest : ∀ this ∈ rear, (after.header this).isFree = true ∧ after.freeHead = this

variable {memory : ByteMemory} {size this : Nat} {used : Bool}

section Parts

variable {heap : LinkedListAllocator} {layout : Layout} {block stop : Nat}

theorem LeadsOut.storable {pointer : Nat} (leads : LeadsOut block stop pointer) :
    StorableLink pointer :=
  leads.imp_right And.left

theorem LeadsOut.apart {pointer this : Nat} (leads : LeadsOut block stop pointer)
    (lower : block ≤ this) (upper : this + 16 ≤ stop) : pointer = 0 ∨ Apart pointer this := by
  rcases leads with null | ⟨-, outside⟩
  · exact Or.inl null
  · refine Or.inr ?_
    unfold Apart
    omega

theorem FreeBlock.head_cases (free : FreeBlock heap block stop) :
    heap.freeHead = block ∨ LeadsOut block stop heap.freeHead := by
  obtain ⟨_, _, -, -, -, -, head⟩ := free.listed
  exact head.imp_right And.right

theorem FreeBlock.head_storable (free : FreeBlock heap block stop) :
    StorableLink heap.freeHead := by
  rcases free.head_cases with isBlock | leads
  · rw [isBlock]
    exact free.pointer.storable
  · exact leads.storable

theorem FreeBlock.head_apart (free : FreeBlock heap block stop) (lower : block + 16 ≤ this)
    (upper : this + 16 ≤ stop) : heap.freeHead = 0 ∨ Apart heap.freeHead this := by
  rcases free.head_cases with isBlock | leads
  · rw [isBlock]
    exact Or.inr (Or.inl lower)
  · exact leads.apart (by omega) upper

theorem apart_zero (valid : HeapPointer this) : Apart 0 this := by
  have lower := valid.1
  unfold heapStart at lower
  exact Or.inl (by omega)

theorem apart_of_link {pointer : Nat} (valid : HeapPointer this)
    (link : pointer = 0 ∨ Apart pointer this) : Apart pointer this := by
  rcases link with rfl | apart
  · exact apart_zero valid
  · exact apart

theorem FreeBlock.inside (free : FreeBlock heap block stop) (lower : block ≤ this)
    (upper : this < stop) (whole : this % 8 = 0) : HeapPointer this :=
  ⟨free.pointer.1.trans lower, upper.trans free.bounded, whole⟩

theorem BlockHeader.new_size (small : size < 2 ^ 32) (used : Bool) :
    (BlockHeader.new size used).rawSize = size :=
  Nat.mod_eq_of_lt small

theorem BlockHeader.new_isUsed (size : Nat) (used : Bool) :
    (BlockHeader.new size used).isUsed = used := by
  unfold isUsed BlockHeader.new
  dsimp only
  cases used <;> decide

theorem BlockHeader.setUsed_isUsed (header : BlockHeader) : header.setUsed.isUsed = true := by
  unfold isUsed setUsed
  rw [Nat.and_or_distrib_right, Nat.and_one_is_mod]
  rcases Nat.mod_two_eq_zero_or_one header.rawFreePrev with even | odd
  · rw [even]
    rfl
  · rw [odd]
    rfl

theorem next_of_size {header : BlockHeader} (sizeEq : header.rawSize = size)
    (bounded : this + size + 16 < 2 ^ 64) : header.next this = .ok (this + size + 16) := by
  unfold next blockHeaderSize
  rw [sizeEq, checkedAdd_bind (by omega), checkedAdd_of_lt bounded]

theorem allocatedSize_whole (layout : Layout) :
    allocatedSize layout % 8 = 0 ∧ 16 ≤ allocatedSize layout ∧
      roundedSize layout.size ≤ allocatedSize layout ∧ layout.size ≤ allocatedSize layout := by
  unfold allocatedSize roundedSize minAllocSize
  omega

theorem roundedSize_max (layout : Layout) :
    roundedSize (max layout.size minAllocSize) = allocatedSize layout := by
  unfold allocatedSize roundedSize minAllocSize
  omega

theorem Layout.alignUp_size (layout : Layout) :
    alignUp layout.size 8 = .ok (roundedSize layout.size) := by
  have bounded := layout.bounded
  exact alignUp_eight_of_lt (by omega)

def HasBlock (memory : ByteMemory) (this size : Nat) (used : Bool) : Prop :=
  (BlockHeader.load memory this).rawSize = size ∧ (BlockHeader.load memory this).isUsed = used

theorem Relinks.hasBlock {before after : ByteMemory} {touched : List Nat}
    (relinks : Relinks before after touched) (has : HasBlock before this size used)
    (clear : ∀ other ∈ touched, other = this ∨ Apart other this) :
    HasBlock after this size used := by
  have same := relinks.clear this clear
  exact ⟨same.1.trans has.1, same.isUsed.trans has.2⟩

theorem HasBlock.store_apart {other : Nat} {header : BlockHeader}
    (has : HasBlock memory this size used) (apart : Apart other this) :
    HasBlock (store memory other header) this size used := by
  unfold HasBlock
  rw [load_store_apart memory header apart]
  exact has

theorem editHeader_ok (heap : LinkedListAllocator) (this : Nat) (edit : BlockHeader → BlockHeader) :
    heap.editHeader this (fun header => .ok (edit header)) =
      .ok (heap.putHeader this (edit (heap.header this))) :=
  rfl

theorem putHeader_freeHead (heap : LinkedListAllocator) (this : Nat) (header : BlockHeader) :
    (heap.putHeader this header).freeHead = heap.freeHead :=
  rfl

theorem hasBlock_new (memory : ByteMemory) (this : Nat) (small : size < 2 ^ 32) (used : Bool) :
    HasBlock (store memory this (BlockHeader.new size used)) this size
      used := by
  unfold HasBlock
  rw [load_store_same memory this (new_fits size used)]
  exact ⟨new_size small used, new_isUsed size used⟩

theorem hasBlock_setSize (small : size < 2 ^ 32)
    (same : (load memory this).isUsed = used) :
    HasBlock (store memory this ((load memory this).setSize size)) this size
      used := by
  have old := load_fits memory this
  have value : asU32 size = size := Nat.mod_eq_of_lt small
  have fits : ((load memory this).setSize size).Fits :=
    ⟨Nat.mod_lt _ (by decide), old.prev, old.freeNext, old.freePrev⟩
  unfold HasBlock
  rw [load_store_same memory this fits]
  exact ⟨value, same⟩

/-- A new free block is written, entered into the free list and linked behind a block
that ends at `following`. -/
theorem linkFree {fresh size following freeSize : Nat} {used : Bool}
    (has : HasBlock heap.memory block size used) (isBlock : HeapPointer block)
    (valid : HeapPointer fresh) (next : block + size + 16 = following)
    (bounded : following < 2 ^ 64)
    (small : freeSize < 2 ^ 32) (link : StorableLink heap.freeHead)
    (headApart : Apart heap.freeHead fresh) (headClear : heap.freeHead = block ∨
      Apart heap.freeHead block) (apart : Apart fresh block)
    (clear : following = fresh ∨ Apart following fresh) :
    ∃ memory tail, (do
        let heap := heap.putHeader fresh (BlockHeader.new freeSize false)
        let heap ← heap.insertFreeBlock fresh
        heap.insertAfter block fresh) =
      Except.ok { heap with memory := memory, tail := tail, freeHead := fresh } ∧
      HasBlock memory fresh freeSize false ∧
      (∀ this sizeThis usedThis, HasBlock heap.memory this sizeThis usedThis → Apart fresh this →
        (heap.freeHead = this ∨ Apart heap.freeHead this) →
        (following = this ∨ Apart following this) → HasBlock memory this sizeThis usedThis) ∧
      (Apart following block →
        (load memory block).freeNext = (heap.header block).freeNext ∧
        (load memory block).freePrev =
          if heap.freeHead = block then .ok fresh else (heap.header block).freePrev) := by
  obtain ⟨first, firstEq, firstRelinks, -, -, firstLinks⟩ :=
    @insertFreeBlock_relinks (heap.putHeader fresh (BlockHeader.new freeSize false))
      fresh valid link
      (Or.inr headApart)
  have stored : HasBlock (heap.putHeader fresh (BlockHeader.new freeSize false)).memory block size
      used := has.store_apart apart
  have blockFirst : HasBlock first block size used :=
    firstRelinks.hasBlock stored (by simpa using ⟨Or.inr apart, headClear⟩)
  obtain ⟨second, tail, secondEq, secondRelinks⟩ := @insertAfter_relinks
    { heap with memory := first, freeHead := fresh } block following fresh
    ((next_of_size blockFirst.1 (by omega)).trans (by rw [next])) isBlock.storable valid.storable
  refine ⟨second, tail, ?_, ?_, ?_, ?_⟩
  · dsimp only
    rw [firstEq, ok_bind]
    exact secondEq
  · have new : HasBlock first fresh freeSize false :=
      firstRelinks.hasBlock (hasBlock_new heap.memory fresh small false)
        (by simpa [putHeader_freeHead] using Or.inr headApart)
    exact secondRelinks.hasBlock new (by simpa using clear)
  · intro this sizeThis usedThis hasThis freshApart headThis followingThis
    have kept : HasBlock first this sizeThis usedThis :=
      firstRelinks.hasBlock (hasThis.store_apart freshApart)
        (by simpa using ⟨Or.inr freshApart, headThis⟩)
    exact secondRelinks.hasBlock kept (by simpa using ⟨followingThis, Or.inr freshApart⟩)
  · intro followingApart
    have same : load second block = load first block :=
      secondRelinks.apart block (by simpa using ⟨followingApart, apart⟩)
    have old : (heap.putHeader fresh (BlockHeader.new freeSize false)).header block =
        heap.header block := load_store_apart heap.memory _ apart
    rw [same]
    by_cases isHead : heap.freeHead = block
    · have changed := firstLinks (by rw [← isHead] at isBlock; exact isBlock.ne_zero)
      dsimp only [putHeader] at changed
      rw [isHead] at changed
      rw [if_pos isHead, changed.1, changed.2]
      exact ⟨congrArg freeNext old, rfl⟩
    · have kept : load first block = heap.header block :=
        (firstRelinks.apart block (by simpa using ⟨apart, headClear.resolve_left isHead⟩)).trans old
      rw [if_neg isHead, kept]
      exact ⟨rfl, rfl⟩

end Parts

section Splits

variable {heap : LinkedListAllocator} {layout : Layout} {block location stop : Nat}

structure Carved (heap after : LinkedListAllocator) (block location stop size : Nat) : Prop where
  front : HasBlock after.memory block (location - block - 16) false
  middle : HasBlock after.memory location size true
  rest : location + 48 + size ≤ stop →
    HasBlock after.memory (location + 16 + size) (stop - location - 32 - size) false ∧
      after.freeHead = location + 16 + size
  lost : stop < location + 48 + size → after.freeHead = heap.freeHead

section

variable (free : FreeBlock heap block stop) (behind : block + 32 ≤ location)

include free behind

/-- The block is cut to its front part, and the allocated block is written and linked
behind it. -/
theorem FreeBlock.cut (whole : location % 8 = 0) (room : location + 32 + size ≤ stop) :
    ∃ memory tail, (do
        let heap ← heap.editHeader block
          (fun header => .ok (header.setSize (location - (block + 16))))
        let heap := heap.putHeader location (BlockHeader.new size true)
        heap.insertAfter block location) =
      Except.ok { heap with memory := memory, tail := tail } ∧
      HasBlock memory block (location - block - 16) false ∧ HasBlock memory location size true := by
  have bounded := free.bounded
  have reached := free.pointer.1
  unfold heapStart at reached
  have valid := free.inside (by omega) (by omega) whole
  have apart : Apart location block := Or.inr (by omega)
  have isFree : (load heap.memory block).isUsed = false := by
    have isFree := free.isFree
    rwa [isFree_eq, Bool.not_eq_true'] at isFree
  obtain ⟨cut, cutEq⟩ : ∃ cut, cut = store (store heap.memory block
    ((heap.header block).setSize (location - (block + 16)))) location (BlockHeader.new size true) :=
    ⟨_, rfl⟩
  have front : HasBlock cut block (location - (block + 16)) false := by
    rw [cutEq]
    exact HasBlock.store_apart (hasBlock_setSize (by omega) isFree) apart
  have middle : HasBlock cut location size true := by
    rw [cutEq]
    exact hasBlock_new _ _ (by omega) true
  obtain ⟨memory, tail, memoryEq, relinks⟩ := @insertAfter_relinks { heap with memory := cut } block
    location location ((next_of_size front.1 (by omega)).trans (congrArg Except.ok (by omega)))
    free.pointer.storable valid.storable
  refine ⟨memory, tail, ?_, relinks.hasBlock front (by simpa using Or.inr apart),
    relinks.hasBlock middle (by simp)⟩
  rw [editHeader_ok, ok_bind, ← memoryEq, cutEq]
  dsimp only [putHeader]

/-- Behind the allocated block, a rest that is long enough becomes a free block. -/
theorem FreeBlock.carve (whole : location % 8 = 0) {size tail : Nat} {memory : ByteMemory}
    (sizeWhole : size % 8 = 0) (large : 16 ≤ size) (room : location + 32 + size ≤ stop)
    (front : HasBlock memory block (location - block - 16) false)
    (middle : HasBlock memory location size true) :
    ∃ after, (if minAllocSize ≤ stop - location - 32 - size then do
        let newBlock ← (load memory location).endPtr location
        let heap := putHeader { heap with memory := memory, tail := tail }
          newBlock (BlockHeader.new (stop - location - 32 - size) false)
        let heap ← heap.insertFreeBlock newBlock
        heap.insertAfter location newBlock
      else
        .ok { heap with memory := memory, tail := tail }) = Except.ok after ∧
      Carved heap after block location stop size := by
  have bounded := free.bounded
  have reached := free.pointer.1
  unfold heapStart at reached
  unfold minAllocSize
  by_cases enough : 16 ≤ stop - location - 32 - size
  · have valid := free.inside (by omega) (by omega) whole
    have validFresh := free.inside (show block ≤ location + 16 + size by omega)
      (by omega) (by omega)
    have endEq : (load memory location).endPtr location = .ok (location + 16 + size) := by
      unfold BlockHeader.endPtr blockHeaderSize
      rw [middle.1, checkedAdd_bind (by omega), checkedAdd_of_lt (by omega)]
    have headApart : ∀ this, block + 16 ≤ this → this + 16 ≤ stop → HeapPointer this →
        Apart heap.freeHead this := fun this lower upper isPointer =>
      apart_of_link isPointer (free.head_apart lower upper)
    have headFront : heap.freeHead = block ∨ Apart heap.freeHead block :=
      free.head_cases.imp_right fun leads =>
        apart_of_link free.pointer (leads.apart le_rfl (by omega))
    obtain ⟨last, lastTail, linkedEq, fresh, kept, -⟩ := @linkFree
      { heap with memory := memory, tail := tail } location (location + 16 + size) size
      (location + 16 + size) (stop - location - 32 - size) true middle valid validFresh (by omega)
      (by omega) (by omega) free.head_storable (headApart _ (by omega) (by omega) validFresh)
      (Or.inr (headApart _ (by omega) (by omega) valid)) (Or.inr (by omega)) (Or.inl rfl)
    rw [if_pos enough, endEq, ok_bind]
    refine ⟨_, linkedEq, ?_, ?_, fun _ => ⟨fresh, rfl⟩, fun _ => by omega⟩
    · exact kept _ _ _ front (Or.inr (by omega)) headFront (Or.inr (Or.inr (by omega)))
    · exact kept _ _ _ middle (Or.inr (by omega))
        (Or.inr (headApart _ (by omega) (by omega) valid)) (Or.inr (Or.inr (by omega)))
  · rw [if_neg enough]
    exact ⟨_, rfl, front, middle, fun _ => by omega, fun _ => rfl⟩

theorem FreeBlock.splitAligned_ok (whole : location % 8 = 0)
    (room : location + 32 + allocatedSize layout ≤ stop) :
    ∃ after, heap.splitAligned block location layout = .ok (location + 16, after) ∧
      Carved heap after block location stop (allocatedSize layout) := by
  obtain ⟨sizeWhole, large, -, -⟩ := allocatedSize_whole layout
  have sizeEq := free.size
  obtain ⟨memory, tail, cutEq, front, middle⟩ := free.cut behind whole room
  obtain ⟨after, carvedEq, carved⟩ := @FreeBlock.carve heap block location stop free behind whole
    _ tail memory sizeWhole large room front middle
  refine ⟨after, ?_, carved⟩
  have afterPreceding : checkedSub (heap.header block).size (location - (block + 16) + 16) =
      .ok (stop - location - 16) := by
    rw [checkedSub_of_le (by omega)]
    exact congrArg Except.ok (by omega)
  have excess : checkedSub (stop - location - 16) (allocatedSize layout + 16) =
      .ok (stop - location - 32 - allocatedSize layout) := by
    rw [checkedSub_of_le (by omega)]
    exact congrArg Except.ok (by omega)
  unfold splitAligned allocAreaStart blockHeaderSize
  dsimp only
  rw [checkedSub_bind (by omega), layout.alignUp_size, ok_bind, afterPreceding, ok_bind]
  have sizeIs : max (roundedSize layout.size) (minBlockSize - 16) = allocatedSize layout := rfl
  obtain ⟨edited, editedEq, insertedEq⟩ := bind_eq_ok.mp cutEq
  rw [sizeIs, excess, ok_bind, editedEq, ok_bind, insertedEq, ok_bind]
  exact (congrArg (· >>= _) carvedEq).trans (ok_bind _ _)

theorem FreeBlock.splitAligned_short (short : stop < location + 32 + allocatedSize layout)
    (result : Nat × LinkedListAllocator) :
    heap.splitAligned block location layout ≠ .ok result := by
  intro outcome
  have sizeEq := free.size
  obtain ⟨-, outcome⟩ := checkedSub_bind_eq_ok.mp outcome
  obtain ⟨rounded, roundedEq, outcome⟩ := bind_eq_ok.mp outcome
  obtain ⟨-, outcome⟩ := checkedSub_bind_eq_ok.mp outcome
  obtain ⟨enough, -⟩ := checkedSub_bind_eq_ok.mp outcome
  rw [layout.alignUp_size] at roundedEq
  cases roundedEq
  unfold allocAreaStart minBlockSize blockHeaderSize at enough
  unfold allocatedSize at short
  omega

end

structure Taken (after : LinkedListAllocator) (block stop size : Nat) : Prop where
  all : stop < block + 48 + size → HasBlock after.memory block (stop - block - 16) true
  front : block + 48 + size ≤ stop → HasBlock after.memory block size true
  rest : block + 48 + size ≤ stop →
    HasBlock after.memory (block + 16 + size) (stop - block - 32 - size) false ∧
      after.freeHead = block + 16 + size

theorem takeBlock {before after size : Nat} {used : Bool}
    (prev : (heap.header block).freePrev = .ok before)
    (next : (heap.header block).freeNext = .ok after)
    (beforeLink : StorableLink before) (afterLink : StorableLink after)
    (beforeApart : before = 0 ∨ Apart before block) (afterApart : after = 0 ∨ Apart after block)
    (valid : HeapPointer block) (has : HasBlock heap.memory block size used) :
    ∃ memory freeHead, (do
        let heap ← heap.removeFreeBlock block
        heap.editHeader block (fun header => .ok header.setUsed)) =
      Except.ok { heap with memory := memory, freeHead := freeHead } ∧
      (before ≠ 0 → freeHead = heap.freeHead) ∧ HasBlock memory block size true ∧
      ∀ this sizeThis usedThis, HasBlock heap.memory this sizeThis usedThis →
        (before = this ∨ Apart before this) → Apart after this → Apart block this →
        HasBlock memory this sizeThis usedThis := by
  obtain ⟨first, freeHead, removedEq, relinks, sameHead⟩ :=
    removeFreeBlock_relinks prev next beforeLink afterLink beforeApart afterApart
  have old := load_fits first block
  have fits : (load first block).setUsed.Fits :=
    ⟨old.size, old.prev, old.freeNext, Nat.or_lt_two_pow old.freePrev (by decide)⟩
  have kept : HasBlock first block size used := relinks.hasBlock has (by
    simpa using ⟨Or.inr (apart_of_link valid beforeApart), Or.inr (apart_of_link valid afterApart)⟩)
  refine ⟨store first block (load first block).setUsed, freeHead, ?_, sameHead,
    ?_, ?_⟩
  · rw [removedEq]
    rfl
  · unfold HasBlock
    rw [load_store_same first block fits]
    exact ⟨kept.1, setUsed_isUsed _⟩
  · intro this sizeThis usedThis hasThis beforeThis afterThis blockThis
    exact (relinks.hasBlock hasThis
      (by simpa using ⟨beforeThis, Or.inr afterThis, Or.inr blockThis⟩)
      ).store_apart blockThis

theorem FreeBlock.hasBlock (free : FreeBlock heap block stop) :
    HasBlock heap.memory block (stop - block - 16) false := by
  have sizeEq := free.size
  have isFree := free.isFree
  rw [isFree_eq, Bool.not_eq_true'] at isFree
  refine ⟨?_, isFree⟩
  change (heap.header block).size = _
  omega

theorem FreeBlock.shrink (free : FreeBlock heap block stop) (sizeWhole : size % 8 = 0)
    (room : block + 48 + size ≤ stop) :
    ∃ memory tail, (do
        let heap := heap.putHeader (block + 16 + size)
          (BlockHeader.new (stop - block - 16 - size - 16) false)
        let heap ← heap.insertFreeBlock (block + 16 + size)
        let heap ← heap.insertAfter block (block + 16 + size)
        heap.editHeader block (fun header => .ok (header.setSize size))) =
      Except.ok { heap with memory := memory, tail := tail, freeHead := block + 16 + size } ∧
      HasBlock memory block size false ∧
      HasBlock memory (block + 16 + size) (stop - block - 32 - size) false ∧
      (load memory block).freeNext = (heap.header block).freeNext ∧
      (load memory block).freePrev =
        if heap.freeHead = block then .ok (block + 16 + size)
        else (heap.header block).freePrev := by
  have bounded := free.bounded
  have reached := free.pointer.1
  have blockWhole := free.pointer.2.2
  have freeSize : stop - block - 16 - size - 16 = stop - block - 32 - size := by omega
  unfold heapStart at reached
  obtain ⟨fresh, freshEq⟩ : ∃ fresh, fresh = block + 16 + size := ⟨_, rfl⟩
  rw [← freshEq, freeSize]
  have valid := free.inside (show block ≤ fresh by omega) (by omega) (by omega)
  have headFront : heap.freeHead = block ∨ Apart heap.freeHead block :=
    free.head_cases.imp_right fun leads =>
      apart_of_link free.pointer (leads.apart le_rfl (by omega))
  have freshHead : Apart heap.freeHead fresh :=
    apart_of_link valid (free.head_apart (by omega) (by omega))
  have apart : Apart fresh block := Or.inr (by omega)
  obtain ⟨memory, tail, linkedEq, hasFresh, kept, links⟩ := @linkFree heap block fresh _ stop
    (stop - block - 32 - size) false free.hasBlock free.pointer valid (by omega) bounded (by omega)
    free.head_storable freshHead headFront apart (Or.inr (Or.inr (by omega)))
  obtain ⟨nextSame, prevSame⟩ := links (Or.inr (by omega))
  have hasBlock := kept block _ _ free.hasBlock apart headFront (Or.inr (Or.inr (by omega)))
  have old := load_fits memory block
  have same : load (store memory block
      ((load memory block).setSize size)) block =
      (load memory block).setSize size :=
    load_store_same memory block
      ⟨Nat.mod_lt _ (by decide), old.prev, old.freeNext, old.freePrev⟩
  refine ⟨store memory block ((load memory block).setSize size), tail, ?_,
    hasBlock_setSize (by omega) hasBlock.2, hasFresh.store_apart (Or.inl (by omega)), ?_, ?_⟩
  · obtain ⟨inserted, insertedEq, followedEq⟩ := bind_eq_ok.mp linkedEq
    dsimp only at insertedEq followedEq ⊢
    rw [insertedEq, ok_bind, followedEq, ok_bind, editHeader_ok]
    rfl
  · rw [same]
    exact nextSame
  · rw [same]
    exact prevSame

theorem FreeBlock.splitInPlace_ok (free : FreeBlock heap block stop)
    (room : block + 16 + allocatedSize layout ≤ stop) :
    ∃ after, heap.splitInPlace block layout = .ok (block + 16, after) ∧
      Taken after block stop (allocatedSize layout) := by
  obtain ⟨sizeWhole, large, -, -⟩ := allocatedSize_whole layout
  have sizeEq := free.size
  have layoutBound := layout.bounded
  have total : alignUp (max layout.size minAllocSize) 8 = .ok (allocatedSize layout) := by
    rw [← roundedSize_max]
    exact alignUp_eight_of_lt (by unfold minAllocSize; omega)
  have excess : checkedSub (heap.header block).size (allocatedSize layout) =
      .ok (stop - block - 16 - allocatedSize layout) := by
    rw [checkedSub_of_le (by omega)]
    exact congrArg Except.ok (by omega)
  obtain ⟨before, next, prevEq, nextEq, beforeOut, nextOut, head⟩ := free.listed
  have beforeApart := beforeOut.apart le_rfl (by omega)
  have nextApart := nextOut.apart le_rfl (by omega)
  unfold splitInPlace
  rw [total, ok_bind, excess, ok_bind]
  unfold minBlockSize minAllocSize allocAreaStart blockHeaderSize
  by_cases enough : 16 + 16 ≤ stop - block - 16 - allocatedSize layout
  · have valid := free.inside (show block ≤ block + 16 + allocatedSize layout by omega) (by omega)
      (by have whole := free.pointer.2.2; omega)
    obtain ⟨memory, tail, shrunkEq, front, rest, nextSame, prevSame⟩ :=
      free.shrink sizeWhole (by omega)
    obtain ⟨link, linkEq, proper, storable, linkFront, linkRest⟩ :
        ∃ link, (load memory block).freePrev = .ok link ∧ link ≠ 0 ∧ StorableLink link ∧
          Apart link block ∧ (link = block + 16 + allocatedSize layout ∨
            Apart link (block + 16 + allocatedSize layout)) := by
      by_cases isHead : heap.freeHead = block
      · rw [if_pos isHead] at prevSame
        exact ⟨_, prevSame, valid.ne_zero, valid.storable, Or.inr (by omega), Or.inl rfl⟩
      · obtain ⟨proper, -⟩ := head.resolve_left isHead
        rw [if_neg isHead, prevEq] at prevSame
        exact ⟨before, prevSame, proper, beforeOut.storable, beforeApart.resolve_left proper,
          Or.inr ((beforeOut.apart (by omega) (by omega)).resolve_left proper)⟩
    obtain ⟨last, freeHead, takenEq, sameHead, has, kept⟩ := @takeBlock
      { heap with memory := memory, tail := tail, freeHead := block + 16 + allocatedSize layout }
      block link next _ false linkEq (nextSame.trans nextEq) storable nextOut.storable
      (Or.inr linkFront) nextApart free.pointer front
    obtain ⟨removed, removedEq, usedEq⟩ := bind_eq_ok.mp takenEq
    rw [if_pos enough, shrunkEq, ok_bind, removedEq, ok_bind, usedEq, ok_bind]
    refine ⟨_, rfl, fun _ => by omega, fun _ => has, fun _ => ⟨?_, sameHead proper⟩⟩
    exact kept _ _ _ rest linkRest (apart_of_link valid (nextOut.apart (by omega) (by omega)))
      (Or.inl (by omega))
  · obtain ⟨memory, freeHead, takenEq, -, has, -⟩ := takeBlock prevEq nextEq beforeOut.storable
      nextOut.storable beforeApart nextApart free.pointer free.hasBlock
    obtain ⟨removed, removedEq, usedEq⟩ := bind_eq_ok.mp takenEq
    rw [if_neg enough, ok_bind, removedEq, ok_bind, usedEq, ok_bind]
    exact ⟨_, rfl, fun _ => has, fun _ => by omega, fun _ => by omega⟩

end Splits

/-- The block itself is aligned, or there is room for a block behind the aligned
allocation. -/
def SplitRoom (layout : Layout) (block stop : Nat) : Prop :=
  layout.align ∣ block + 16 ∨
    multipleFrom layout.align (block + 48) + allocatedSize layout + 32 ≤ stop

section Divisions

variable {heap after : LinkedListAllocator} {layout : Layout} {block location stop : Nat}

theorem HasBlock.next (has : HasBlock after.memory this size used)
    (bounded : this + size + 16 < 2 ^ 64) :
    (after.header this).next this = .ok (this + size + 16) :=
  next_of_size has.1 bounded

theorem HasBlock.isFree (has : HasBlock after.memory this size false) :
    (after.header this).isFree = true := by
  rw [isFree_eq, Bool.not_eq_true']
  exact has.2

theorem FreeBlock.endPtr (free : FreeBlock heap block stop) :
    (heap.header block).endPtr block = .ok stop := by
  have sizeEq := free.size
  have bounded := free.bounded
  unfold BlockHeader.size at sizeEq
  unfold BlockHeader.endPtr blockHeaderSize
  rw [checkedAdd_bind (by omega), checkedAdd_of_lt (by omega), sizeEq]

theorem FreeBlock.fit_eq (free : FreeBlock heap block stop)
    (found : heap.checkAlignedFit block layout.size layout.align = .ok (some location)) :
    location + 16 = alignedStart block layout.align ∧
      alignedStart block layout.align + roundedSize layout.size + 16 ≤ stop := by
  unfold checkAlignedFit at found
  rw [free.endPtr, ok_bind] at found
  exact alignedFit_some free.pointer.2.2 free.bounded found

theorem Taken.divides (taken : Taken after block stop (allocatedSize layout))
    (room : block + 16 + allocatedSize layout ≤ stop) (bounded : stop < 2 ^ 64)
    (aligned : (block + 16) % layout.align = 0) :
    ∃ rear, Divides after layout block block stop rear := by
  obtain ⟨-, -, -, enough⟩ := allocatedSize_whole layout
  by_cases split : block + 48 + allocatedSize layout ≤ stop
  · have front := taken.front split
    obtain ⟨rest, head⟩ := taken.rest split
    have endEq : block + allocatedSize layout + 16 = block + 16 + allocatedSize layout := by omega
    have stopEq : block + 16 + allocatedSize layout +
        (stop - block - 32 - allocatedSize layout) + 16 = stop := by omega
    refine ⟨some (block + 16 + allocatedSize layout), ?_, fun different => absurd rfl different,
      front.2, ?_, aligned, ?_⟩
    · rw [if_pos rfl]
      exact ⟨rfl, _, front.next (by omega), endEq, _, rest.next (by omega), stopEq⟩
    · exact enough.trans front.1.ge
    · rintro this ⟨⟩
      exact ⟨rest.isFree, head⟩
  · have all := taken.all (by omega)
    have stopEq : block + (stop - block - 16) + 16 = stop := by omega
    refine ⟨none, ?_, fun different => absurd rfl different, all.2, ?_, aligned, nofun⟩
    · rw [if_pos rfl]
      exact ⟨rfl, _, all.next (by omega), stopEq⟩
    · refine le_trans ?_ all.1.ge
      omega

theorem Carved.divides (carved : Carved heap after block location stop (allocatedSize layout))
    (behind : block + 32 ≤ location) (room : location + 48 + allocatedSize layout ≤ stop)
    (bounded : stop < 2 ^ 64) (aligned : (location + 16) % layout.align = 0) :
    ∃ rear, Divides after layout block location stop rear := by
  obtain ⟨-, -, -, enough⟩ := allocatedSize_whole layout
  obtain ⟨rest, head⟩ := carved.rest room
  have different : location ≠ block := by omega
  have locationEq : block + (location - block - 16) + 16 = location := by omega
  have endEq : location + allocatedSize layout + 16 = location + 16 + allocatedSize layout := by
    omega
  have stopEq : location + 16 + allocatedSize layout +
      (stop - location - 32 - allocatedSize layout) + 16 = stop := by omega
  refine ⟨some (location + 16 + allocatedSize layout), ?_, fun _ => carved.front.isFree,
    carved.middle.2, enough.trans carved.middle.1.ge, aligned, ?_⟩
  · rw [if_neg different]
    exact ⟨rfl, _, carved.front.next (by omega), locationEq, _, carved.middle.next (by omega),
      endEq, _, rest.next (by omega), stopEq⟩
  · rintro this ⟨⟩
    exact ⟨rest.isFree, head⟩

theorem Carved.not_divides (carved : Carved heap after block location stop (allocatedSize layout))
    (free : FreeBlock heap block stop) (behind : block + 32 ≤ location)
    (room : location + 32 + allocatedSize layout ≤ stop)
    (short : stop < location + 48 + allocatedSize layout) (rear : Option Nat) :
    ¬ Divides after layout block location stop rear := by
  intro divides
  have bounded := free.bounded
  have different : location ≠ block := by omega
  have tiles := divides.tiles
  rw [if_neg different] at tiles
  obtain ⟨-, first, firstEq, rfl, second, secondEq, rest⟩ := tiles
  dsimp only at secondEq
  rw [carved.middle.next (by omega)] at secondEq
  cases secondEq
  cases rear with
  | none =>
    have same : first + allocatedSize layout + 16 = stop := rest
    omega
  | some this =>
    obtain ⟨rfl, -⟩ := rest
    obtain ⟨-, head⟩ := divides.rest _ rfl
    rw [carved.lost short] at head
    rcases free.head_cases with isBlock | null | ⟨-, outside⟩
    · omega
    · omega
    · omega

end Divisions

/-- Where `check_aligned_fit` finds a place, `split_block` divides the block without
losing bytes exactly if there is room behind the place. -/
theorem splitBlock_divides_iff {heap : LinkedListAllocator} {layout : Layout}
    {block location stop : Nat} (free : FreeBlock heap block stop)
    (found : heap.checkAlignedFit block layout.size layout.align = .ok (some location)) :
    (∃ after rear, heap.splitBlock block location layout = .ok (location + 16, after) ∧
      Divides after layout block location stop rear) ↔ SplitRoom layout block stop := by
  obtain ⟨start, fits⟩ := free.fit_eq found
  have bounded := free.bounded
  have aligned : (location + 16) % layout.align = 0 := by
    rw [start]
    exact Nat.mod_eq_zero_of_dvd dvd_alignedStart
  have whole := layout.alignedStart_whole free.pointer.2.2
  have sizes : allocatedSize layout ≤ roundedSize layout.size + 16 := by
    unfold allocatedSize minAllocSize
    omega
  unfold splitBlock SplitRoom
  by_cases divides : layout.align ∣ block + 16
  · have same : location = block := by
      unfold alignedStart at start
      rw [if_pos divides] at start
      omega
    subst same
    refine ⟨fun _ => Or.inl divides, fun _ => ?_⟩
    obtain ⟨after, splitEq, taken⟩ := @FreeBlock.splitInPlace_ok heap layout _ stop free (by omega)
    obtain ⟨rear, parts⟩ := taken.divides (by omega) bounded aligned
    rw [if_pos rfl]
    exact ⟨after, rear, splitEq, parts⟩
  · have startEq : alignedStart block layout.align = multipleFrom layout.align (block + 48) :=
      if_neg divides
    have behind := @le_multipleFrom layout.align (block + 48) layout.align_pos
    rw [if_neg (by omega), or_iff_right divides, ← startEq, ← start]
    constructor
    · rintro ⟨after, rear, splitEq, parts⟩
      by_contra short
      by_cases room : location + 32 + allocatedSize layout ≤ stop
      · obtain ⟨other, otherEq, carved⟩ := free.splitAligned_ok (by omega) (by omega) room
        obtain ⟨-, rfl⟩ := Prod.mk.inj (Except.ok.inj (splitEq.symm.trans otherEq))
        exact carved.not_divides free (by omega) room (by omega) rear parts
      · exact free.splitAligned_short (by omega) (by omega) _ splitEq
    · intro room
      obtain ⟨after, splitEq, carved⟩ := @FreeBlock.splitAligned_ok heap layout block location stop
        free (by omega) (by omega) (by omega)
      obtain ⟨rear, parts⟩ := carved.divides (by omega) (by omega) bounded aligned
      exact ⟨after, rear, splitEq, parts⟩

theorem HeapRegion.freeBlock_init (region : HeapRegion) {heap : LinkedListAllocator}
    (started : init memory region.start region.size = .ok heap) :
    FreeBlock heap region.start (region.start + region.size) := by
  have enough := region.enough
  have bounded := region.bounded
  have reached := region.reached
  have whole := region.whole
  unfold minBlockSize minAllocSize blockHeaderSize at enough
  unfold wordLimit at bounded
  obtain ⟨-, started⟩ := checkedSub_bind_eq_ok.mp started
  obtain ⟨heapEnd, heapEndEq, started⟩ := bind_eq_ok.mp started
  cases started
  have small : region.size - 16 < 2 ^ 32 := by
    unfold heapStart at reached
    omega
  have has := hasBlock_new memory region.start small false
  have stored : load (store memory region.start
      (BlockHeader.new (region.size - 16) false)) region.start =
      BlockHeader.new (region.size - 16) false :=
    load_store_same _ _ (new_fits _ _)
  have sizeIs : (load (store memory region.start
      (BlockHeader.new (region.size - 16) false)) region.start).size = region.size - 16 := has.1
  refine ⟨⟨reached, by omega, region.aligned⟩, HasBlock.isFree has, ?_, ?_, ?_, bounded,
    0, 0, ?_, ?_, Or.inl rfl, Or.inl rfl, Or.inl rfl⟩
  all_goals unfold header blockHeaderSize
  · rw [sizeIs]
    omega
  · rw [sizeIs]
    unfold minAllocSize
    omega
  · rw [sizeIs]
    omega
  · rw [stored]
    refine freePrev_of_eq storableLink_zero ?_
    change nullOffset ||| 0 = linkOffset 0 + (nullOffset ||| 0) % 2
    decide
  · rw [stored]
    exact fromOffset_linkOffset storableLink_zero

/-- A line is taken from the middle of the small heap. -/
theorem smallHeap_line_divides : ∃ after rear,
    smallHeap.checkAlignedFit heapStart 64 64 = .ok (some (heapStart + 48)) ∧
    smallHeap.splitBlock heapStart (heapStart + 48) lineLayout = .ok (heapStart + 64, after) ∧
    Divides after lineLayout heapStart (heapStart + 48) (heapStart + 1024) rear := by
  have found : smallHeap.checkAlignedFit heapStart 64 64 = .ok (some (heapStart + 48)) := by
    decide +kernel
  have room : SplitRoom lineLayout heapStart (heapStart + 1024) := Or.inr (by decide)
  obtain ⟨after, rear, splitEq, parts⟩ :=
    (@splitBlock_divides_iff smallHeap lineLayout heapStart (heapStart + 48) (heapStart + 1024)
      (smallRegion.freeBlock_init rfl) found).mpr room
  exact ⟨after, rear, found, splitEq, parts⟩

def tightRegion : HeapRegion where
  start := heapStart
  size := 88
  aligned := smallRegion.aligned
  whole := by decide
  enough := by decide
  reached := Nat.le_refl heapStart
  bounded := by decide

theorem byteLayout_bounded : 1 + 64 ≤ 2 ^ 63 := by decide

def byteLayout : Layout where
  size := 1
  align := 64
  nonzero := Nat.one_pos
  powerOfTwo := lineLayout.powerOfTwo
  bounded := byteLayout_bounded

/-- The place is found, but the rest of the block is shorter than the block and the
header that `split_block` subtracts. -/
theorem tightHeap_underflows : ∃ heap,
    LinkedListAllocator.init (fun _ => 0) tightRegion.start tightRegion.size = .ok heap ∧
    FreeBlock heap heapStart (heapStart + 88) ∧
    heap.checkAlignedFit heapStart byteLayout.size byteLayout.align = .ok (some (heapStart + 48)) ∧
    ∀ result, heap.splitBlock heapStart (heapStart + 48) byteLayout ≠ .ok result := by
  refine ⟨_, rfl, tightRegion.freeBlock_init rfl, by decide +kernel, ?_⟩
  intro result
  exact (tightRegion.freeBlock_init rfl).splitAligned_short (by decide) (by decide) result

end NanoOs.KernelAllocator
