import Mathlib.Data.List.Perm.Subperm
import NanoOs.KernelAllocatorCarving

/-!
# Allocations that grow the heap

`find_fit` asks for a header, the alignment and the size. In every well-formed heap that
calls can reach, an allocation succeeds exactly if the first free block that fits can be
divided, or, if none fits, the block at the end of the grown heap has room.
-/

namespace NanoOs.KernelAllocator

open LinkedLists LinkedListAllocator LinkedListAllocator BlockHeader

/-- The heap still reaches from the same start to the same end. -/
def SameEnds (heap after : LinkedListAllocator) : Prop :=
  after.head = heap.head ∧ after.heapEnd = heap.heapEnd

variable {size : Nat}

section Ends

variable {heap middle after : LinkedListAllocator} {this : Nat}

theorem SameEnds.trans (first : SameEnds heap middle) (second : SameEnds middle after) :
    SameEnds heap after :=
  ⟨second.1.trans first.1, second.2.trans first.2⟩

theorem returns_sameEnds {first : Checked LinkedListAllocator}
    {rest : LinkedListAllocator → Checked LinkedListAllocator}
    (firstKeeps : Returns (SameEnds heap) first)
    (restKeeps : ∀ middle, Returns (SameEnds middle) (rest middle)) :
    Returns (SameEnds heap) (first >>= rest) :=
  returns_bind fun middle ran last rests =>
    (firstKeeps middle ran).trans (restKeeps middle last rests)

theorem SameEnds.andThen {call : Checked LinkedListAllocator} (same : SameEnds heap middle)
    (keeps : Returns (SameEnds middle) call) : Returns (SameEnds heap) call :=
  fun after ran => same.trans (keeps after ran)

theorem putHeader_sameEnds (heap : LinkedListAllocator) (this : Nat) (header : BlockHeader) :
    SameEnds heap (heap.putHeader this header) :=
  ⟨rfl, rfl⟩

theorem editHeader_sameEnds (heap : LinkedListAllocator) (this : Nat)
    (edit : BlockHeader → Checked BlockHeader) :
    Returns (SameEnds heap) (heap.editHeader this edit) :=
  returns_bind fun _ _ => returns_ok ⟨rfl, rfl⟩

theorem insertFreeBlock_sameEnds (heap : LinkedListAllocator) (this : Nat) :
    Returns (SameEnds heap) (heap.insertFreeBlock this) := by
  refine returns_sameEnds (editHeader_sameEnds _ _ _) fun first => ?_
  refine returns_sameEnds (editHeader_sameEnds _ _ _) fun second => ?_
  refine returns_sameEnds ?_ fun third => returns_ok ⟨rfl, rfl⟩
  exact returns_ite (editHeader_sameEnds _ _ _) (returns_ok ⟨rfl, rfl⟩)

theorem removeFreeBlock_sameEnds (heap : LinkedListAllocator) (this : Nat) :
    Returns (SameEnds heap) (heap.removeFreeBlock this) := by
  refine returns_bind fun before _ => ?_
  refine returns_sameEnds ?_ fun first => returns_bind fun next _ => ?_
  · exact returns_ite (returns_bind fun _ _ => editHeader_sameEnds _ _ _)
      (returns_bind fun _ _ => returns_ok ⟨rfl, rfl⟩)
  refine returns_sameEnds ?_ fun second => ?_
  · exact returns_ite (returns_bind fun _ _ => editHeader_sameEnds _ _ _) (returns_ok ⟨rfl, rfl⟩)
  exact returns_sameEnds (editHeader_sameEnds _ _ _) fun third => editHeader_sameEnds _ _ _

theorem insertAfter_sameEnds (heap : LinkedListAllocator) (this fresh : Nat) :
    Returns (SameEnds heap) (heap.insertAfter this fresh) := by
  refine returns_bind fun next _ => ?_
  refine returns_sameEnds ?_ fun first => editHeader_sameEnds _ _ _
  exact returns_ite (editHeader_sameEnds _ _ _) (returns_ok ⟨rfl, rfl⟩)

theorem removeFromList_sameEnds (heap : LinkedListAllocator) (this : Nat) :
    Returns (SameEnds heap) (heap.removeFromList this) := by
  refine returns_bind fun next _ => returns_bind fun prev _ => returns_bind fun _ _ => ?_
  exact returns_ite (editHeader_sameEnds _ _ _) (returns_ok ⟨rfl, rfl⟩)

theorem splitInPlace_sameEnds (heap : LinkedListAllocator) (this : Nat) (layout : Layout) :
    Returns (fun result => SameEnds heap result.2) (heap.splitInPlace this layout) := by
  refine returns_bind fun needed _ => returns_bind fun excess _ => ?_
  refine returns_bind fun first firstEq => returns_bind fun second secondEq => ?_
  refine returns_bind fun third thirdEq => returns_ok ?_
  have keeps : SameEnds heap first := by
    refine returns_ite ?_ (returns_ok ⟨rfl, rfl⟩) first firstEq
    refine (putHeader_sameEnds heap (allocAreaStart this + needed)
      (BlockHeader.new (excess - blockHeaderSize) false)).andThen ?_
    refine returns_sameEnds (insertFreeBlock_sameEnds _ _) fun inserted => ?_
    exact returns_sameEnds (insertAfter_sameEnds _ _ _) fun linked => editHeader_sameEnds _ _ _
  exact (keeps.trans (removeFreeBlock_sameEnds _ _ second secondEq)).trans
    (editHeader_sameEnds _ _ _ third thirdEq)

theorem splitAligned_sameEnds (heap : LinkedListAllocator) (this location : Nat) (layout : Layout) :
    Returns (fun result => SameEnds heap result.2) (heap.splitAligned this location layout) := by
  refine returns_bind fun preceding _ => returns_bind fun rounded _ => ?_
  refine returns_bind fun left _ => returns_bind fun excess _ => ?_
  refine returns_bind fun first firstEq => returns_bind fun second secondEq => ?_
  refine returns_bind fun third thirdEq => returns_ok ?_
  have keeps : SameEnds second third := by
    refine returns_ite ?_ (returns_ok ⟨rfl, rfl⟩) third thirdEq
    refine returns_bind fun fresh _ => ?_
    refine (putHeader_sameEnds second fresh (BlockHeader.new excess false)).andThen ?_
    exact returns_sameEnds (insertFreeBlock_sameEnds _ _) fun inserted => insertAfter_sameEnds _ _ _
  have linked : SameEnds first second :=
    (putHeader_sameEnds first location
      (BlockHeader.new (max rounded (minBlockSize - blockHeaderSize)) true)).andThen
        (insertAfter_sameEnds _ _ _) second secondEq
  exact ((editHeader_sameEnds _ _ _ first firstEq).trans linked).trans keeps

theorem splitBlock_sameEnds (heap : LinkedListAllocator) (this location : Nat) (layout : Layout) :
    Returns (fun result => SameEnds heap result.2) (heap.splitBlock this location layout) :=
  returns_ite (splitInPlace_sameEnds heap this layout)
    (splitAligned_sameEnds heap this location layout)

theorem dealloc_sameEnds (heap : LinkedListAllocator) (ptr : Nat) :
    Returns (SameEnds heap) (heap.dealloc ptr) := by
  refine returns_ite (returns_ok ⟨rfl, rfl⟩) (returns_bind fun block _ => ?_)
  refine returns_sameEnds ?_ fun freed => ?_
  · refine returns_sameEnds (editHeader_sameEnds _ _ _) fun first => returns_bind fun next _ => ?_
    refine returns_ite ?_ (returns_ok ⟨rfl, rfl⟩)
    refine returns_sameEnds (editHeader_sameEnds _ _ _) fun second => ?_
    exact returns_sameEnds (removeFreeBlock_sameEnds _ _) fun third => removeFromList_sameEnds _ _
  · refine returns_bind fun prev _ => returns_ite ?_ (insertFreeBlock_sameEnds _ _)
    exact returns_sameEnds (removeFromList_sameEnds _ _) fun removed => editHeader_sameEnds _ _ _

/-- The heap starts at a given address and ends at a multiple of eight. -/
structure Spans (start : Nat) (heap : LinkedListAllocator) : Prop where
  head : heap.head = start
  whole : heap.heapEnd % 8 = 0
  bounded : heap.heapEnd < 2 ^ 64

variable {start : Nat} {layout : Layout}

theorem Spans.sameEnds (spans : Spans start heap) (same : SameEnds heap after) :
    Spans start after := by
  obtain ⟨sameHead, sameEnd⟩ := same
  exact ⟨sameHead.trans spans.head, by rw [sameEnd]; exact spans.whole,
    by rw [sameEnd]; exact spans.bounded⟩

theorem Spans.useNewRegion (spans : Spans start heap) (whole : size % Memory.pageSize = 0) :
    Returns (fun result => Spans start result.2)
      (heap.useNewRegion layout heap.heapEnd size) := by
  unfold Memory.pageSize at whole
  have oldWhole := spans.whole
  refine returns_bind fun stop stopEq => ?_
  obtain ⟨bounded, rfl⟩ := checkedAdd_eq_ok.mp stopEq
  have grown : Spans start { heap with heapEnd := heap.heapEnd + size } :=
    ⟨spans.head, by dsimp only; omega, bounded⟩
  refine returns_ite ?_ ?_
  · refine returns_bind fun edited editedEq => returns_bind fun fit _ => ?_
    refine returns_bind fun location _ => returns_ok ?_
    exact grown.sameEnds (editHeader_sameEnds _ _ _ edited editedEq)
  · refine returns_bind fun rest restEq => returns_bind fun listed listedEq => ?_
    refine returns_bind fun linked linkedEq => returns_bind fun fit _ => ?_
    refine returns_bind fun location _ => returns_ok ?_
    have inserted : SameEnds { heap with heapEnd := heap.heapEnd + size } listed :=
      (putHeader_sameEnds _ heap.heapEnd (BlockHeader.new rest false)).andThen
        (insertFreeBlock_sameEnds _ _) listed listedEq
    have appended : SameEnds listed linked := by
      obtain ⟨edited, editedEq, linkedEq⟩ := bind_eq_ok.mp linkedEq
      cases linkedEq
      exact editHeader_sameEnds _ _ _ edited editedEq
    exact grown.sameEnds (inserted.trans appended)

theorem Spans.findFit {pages : Option Nat} (spans : Spans start heap) :
    Returns (fun result => Spans start result.2)
      (heap.findFit (growBy heap.heapEnd pages) layout) := by
  refine returns_bind fun existing _ => ?_
  cases existing with
  | some found => exact returns_ok spans
  | none =>
    cases pages with
    | none => exact returns_ok spans
    | some count =>
      refine returns_bind fun result resultEq => returns_ok ?_
      exact spans.useNewRegion (Nat.mul_mod_left count _) result resultEq

theorem Spans.alloc {pages : Option Nat} (spans : Spans start heap) :
    Returns (fun result => Spans start result.2)
      (heap.alloc (growBy heap.heapEnd pages) layout) := by
  refine returns_bind fun result resultEq => ?_
  obtain ⟨found, grown⟩ := result
  have middle : Spans start grown := spans.findFit _ resultEq
  cases found with
  | none => exact returns_ok middle
  | some place => exact fun last lastEq => middle.sameEnds (splitBlock_sameEnds _ _ _ _ last lastEq)

end Ends

theorem Reaches.spans {allowed : Client → Call → Prop} {region : HeapRegion} {memory : ByteMemory}
    {client : Client} (reached : Reaches allowed region memory client) :
    Spans region.start client.heap := by
  induction reached with
  | boot started =>
    obtain ⟨size, -, started⟩ := bind_eq_ok.mp started
    obtain ⟨bounded, started⟩ := checkedAdd_bind_eq_ok.mp started
    cases started
    have aligned := region.aligned
    have whole := region.whole
    exact ⟨rfl, by dsimp only; omega, bounded⟩
  | @call client next call _ _ performed ih =>
    cases call with
    | alloc pages layout =>
      obtain ⟨⟨ptr, heap⟩, ran, performed⟩ := Option.bind_eq_some_iff.mp performed
      cases performed
      exact ih.alloc _ (toOption_eq_some ran)
    | dealloc ptr =>
      dsimp only [Client.perform] at performed
      split at performed
      · obtain ⟨heap, ran, performed⟩ := Option.bind_eq_some_iff.mp performed
        cases performed
        exact ih.sameEnds (dealloc_sameEnds _ _ _ (toOption_eq_some ran))
      · cases performed
    | store address value =>
      dsimp only [Client.perform] at performed
      split at performed
      · cases performed
        exact ih.sameEnds ⟨rfl, rfl⟩
      · cases performed

section Walks

variable {next previous : Nat → Checked Nat} {first target node before : Nat}
  {nodes front back : List Nat}

theorem Walks.segment {step : Nat → Nat} (walks : Walks next first nodes target)
    (agrees : ∀ node following, next node = .ok following → following = step node) :
    Segment step first nodes target := by
  induction nodes generalizing first with
  | nil => exact walks
  | cons node rest ih =>
    obtain ⟨isFirst, following, nextEq, walks⟩ := walks
    obtain rfl := agrees node following nextEq
    exact ⟨isFirst, ih walks⟩

theorem Walks.split (walks : Walks next first (front ++ node :: back) target) :
    first = (front.head?).getD node ∧
      ∃ following, next node = .ok following ∧ Walks next following back target := by
  induction front generalizing first with
  | nil => exact ⟨walks.1, walks.2⟩
  | cons other rest ih =>
    obtain ⟨isFirst, following, -, walks⟩ := walks
    exact ⟨isFirst, (ih walks).2⟩

theorem Walks.first_eq (walks : Walks next first nodes target) :
    first = (nodes.head?).getD target := by
  cases nodes with
  | nil => exact walks
  | cons node rest => exact walks.1

theorem NamesPrevious.split (names : NamesPrevious previous before (front ++ node :: back)) :
    previous node = .ok ((front.getLast?).getD before) := by
  induction front generalizing before with
  | nil => exact names.1
  | cons other rest ih =>
    rw [ih names.2, List.getLast?_cons]
    rfl

end Walks

section Blocks

variable {heap : LinkedListAllocator} {blocks frees : List Nat} {start this other pointer : Nat}

def LinkedListAllocator.stopOf (heap : LinkedListAllocator) (this : Nat) : Nat :=
  this + 16 + (heap.header this).size

theorem next_eq_stopOf {following : Nat} (outcome : (heap.header this).next this = .ok following) :
    following = heap.stopOf this := by
  obtain ⟨-, outcome⟩ := checkedAdd_bind_eq_ok.mp outcome
  obtain ⟨-, rfl⟩ := checkedAdd_eq_ok.mp outcome
  unfold stopOf BlockHeader.size blockHeaderSize
  omega

theorem le_stopOf (this : Nat) : this ≤ heap.stopOf this := by
  unfold stopOf
  omega

variable (wellFormed : WellFormedWith heap blocks frees) (spans : Spans start heap)
  (reached : heapStart ≤ start)

include wellFormed

theorem WellFormedWith.segment : Segment heap.stopOf heap.head blocks heap.heapEnd :=
  wellFormed.tiles.segment fun _ _ outcome => next_eq_stopOf outcome

theorem WellFormedWith.bounds (member : this ∈ blocks) :
    heap.head ≤ this ∧ heap.stopOf this ≤ heap.heapEnd :=
  (wellFormed.segment.bounds le_stopOf).2 this member

theorem WellFormedWith.apart (member : this ∈ blocks) (otherMember : other ∈ blocks)
    (different : this ≠ other) : heap.stopOf this ≤ other ∨ heap.stopOf other ≤ this :=
  wellFormed.segment.apart le_stopOf member otherMember different

include spans

theorem WellFormedWith.whole (member : this ∈ blocks) : (heap.header this).size % 8 = 0 := by
  obtain ⟨front, back, rfl⟩ := List.append_of_mem member
  obtain ⟨-, following, nextEq, walks⟩ := wellFormed.tiles.split
  have stopEq := next_eq_stopOf nextEq
  have aligned := wellFormed.aligned this member
  have stopWhole : following % 8 = 0 := by
    cases back with
    | nil =>
      rw [show following = heap.heapEnd from walks]
      exact spans.whole
    | cons second rest =>
      rw [walks.1]
      exact wellFormed.aligned second (by simp)
  unfold stopOf at stopEq
  omega

include reached

theorem WellFormedWith.heapPointer (member : this ∈ blocks) : HeapPointer this := by
  obtain ⟨lower, upper⟩ := wellFormed.bounds member
  have bounded := spans.bounded
  have later : this ≤ heap.stopOf this := le_stopOf this
  rw [spans.head] at lower
  exact ⟨reached.trans lower, by omega, wellFormed.aligned this member⟩

theorem WellFormedWith.leadsOut (member : this ∈ blocks) (isFree : pointer ∈ frees)
    (different : pointer ≠ this) : LeadsOut this (heap.stopOf this) pointer := by
  obtain ⟨inBlocks, -⟩ := (wellFormed.free pointer).mp isFree
  refine Or.inr ⟨wellFormed.heapPointer spans reached inBlocks, ?_⟩
  rcases wellFormed.apart inBlocks member different with before | after
  · left
    unfold stopOf at before
    omega
  · exact Or.inr after

omit spans reached in
theorem WellFormedWith.freeLinks (isFree : this ∈ frees) : ∃ before after,
    (heap.header this).freePrev = .ok before ∧ (heap.header this).freeNext = .ok after ∧
      (before = 0 ∨ before ∈ frees ∧ before ≠ this) ∧ (after = 0 ∨ after ∈ frees ∧ after ≠ this) ∧
      (heap.freeHead = this ∨ before ≠ 0 ∧ heap.freeHead ∈ frees ∧ heap.freeHead ≠ this) := by
  obtain ⟨front, back, rfl⟩ := List.append_of_mem isFree
  obtain ⟨headEq, following, nextEq, walks⟩ := wellFormed.freeWalk.split
  have prevEq := wellFormed.freePrevs.split
  obtain ⟨-, restNodup, frontApart⟩ := List.nodup_append.mp wellFormed.nodup
  obtain ⟨thisNew, -⟩ := List.nodup_cons.mp restNodup
  have nonnull := wellFormed.nonnull
  have frontNe : ∀ other ∈ front, other ≠ this := fun other inFront =>
    frontApart other inFront this (by simp)
  refine ⟨_, following, prevEq, nextEq, ?_, ?_, ?_⟩
  · cases last : front.getLast? with
    | none => exact Or.inl rfl
    | some before =>
      have inFront := List.mem_of_getLast? last
      exact Or.inr ⟨by simp [inFront], frontNe before inFront⟩
  · cases back with
    | nil => exact Or.inl walks
    | cons second rest =>
      right
      rw [walks.1]
      exact ⟨by simp, fun same => thisNew (by simp [← same])⟩
  · cases front with
    | nil => exact Or.inl headEq
    | cons head rest =>
      right
      have isHead : heap.freeHead = head := headEq
      refine ⟨fun isNull => nonnull ?_, by simp [isHead], ?_⟩
      · rw [List.getLast?_cons] at isNull
        have inFront : rest.getLast?.getD head ∈ head :: rest :=
          List.mem_of_getLast? List.getLast?_cons
        rw [← isNull]
        exact List.mem_append_left _ inFront
      · rw [isHead]
        exact frontNe head (by simp)

theorem WellFormedWith.freeBlock (isFree : this ∈ frees) :
    FreeBlock heap this (heap.stopOf this) := by
  obtain ⟨member, unused⟩ := (wellFormed.free this).mp isFree
  obtain ⟨before, after, prevEq, nextEq, beforeIs, afterIs, headIs⟩ := wellFormed.freeLinks isFree
  have leads : ∀ pointer, pointer = 0 ∨ pointer ∈ frees ∧ pointer ≠ this →
      LeadsOut this (heap.stopOf this) pointer := by
    rintro pointer (null | ⟨listed, different⟩)
    · exact Or.inl null
    · exact wellFormed.leadsOut spans reached member listed different
  refine ⟨wellFormed.heapPointer spans reached member, ?_, rfl, wellFormed.sizes this member,
    wellFormed.whole spans member, (wellFormed.bounds member).2.trans_lt spans.bounded, before,
    after, prevEq, nextEq, leads before beforeIs, leads after afterIs, ?_⟩
  · rw [isFree_eq, unused]
    rfl
  · exact headIs.imp_right fun ⟨proper, listed⟩ => ⟨proper, leads _ (Or.inr listed)⟩

end Blocks

/-- The room behind an allocation that `find_fit` asks for in a free block: a header,
except for small alignments. -/
def Layout.rearRoom (layout : Layout) : Nat := if layout.align ≤ 8 then 0 else 16

/-- The test of `find_fit` for a free block that ends at `stop`. -/
def FitsIn (layout : Layout) (block stop : Nat) : Prop :=
  alignedStart block layout.align + roundedSize layout.size + layout.rearRoom ≤ stop

instance (layout : Layout) (block stop : Nat) : Decidable (FitsIn layout block stop) :=
  inferInstanceAs (Decidable (_ ≤ _))

section Search

variable {heap : LinkedListAllocator} {layout : Layout} {block stop : Nat}

theorem FreeBlock.fitIn_eq (free : FreeBlock heap block stop)
    (bounded : stop + layout.align + roundedSize layout.size < 2 ^ 64) :
    heap.fitIn layout block = .ok (if FitsIn layout block stop then
      some (alignedStart block layout.align - 16) else none) := by
  have sizeEq := free.size
  have large := free.large
  unfold minAllocSize at large
  unfold fitIn
  by_cases small : layout.align ≤ 8
  · have startEq := layout.alignedStart_small small free.pointer.2.2
    have roomEq : layout.rearRoom = 0 := if_pos small
    have iff : roundedSize layout.size ≤ (heap.header block).size ↔ FitsIn layout block stop := by
      unfold FitsIn
      omega
    rw [if_pos small, layout.alignUp_size, ok_bind, startEq, Nat.add_sub_cancel]
    exact congrArg Except.ok (if_congr iff rfl rfl)
  · have raised := @multipleFrom_lt layout.align (block + 16) layout.align_pos
    have roomEq : layout.rearRoom = 16 := if_neg small
    have iff : alignedStart block layout.align + roundedSize layout.size + 16 ≤ stop ↔
        FitsIn layout block stop := by
      unfold FitsIn
      rw [roomEq]
    unfold checkAlignedFit
    rw [if_neg small, free.endPtr, ok_bind,
      alignedFit_eq free.pointer.2.2 (by omega) (by omega) (Or.inl (by omega))]
    exact congrArg Except.ok (if_congr iff rfl rfl)

theorem searchFree_eq {rest : List Nat} {fuel current : Nat}
    (walks : Walks (fun this => (heap.header this).freeNext) current rest 0)
    (isFree : ∀ this ∈ rest, FreeBlock heap this (heap.stopOf this))
    (bounded : ∀ this ∈ rest, heap.stopOf this + layout.align + roundedSize layout.size < 2 ^ 64)
    (fuelled : rest.length < fuel) :
    heap.searchFree layout fuel current =
      .ok ((rest.find? fun this => FitsIn layout this (heap.stopOf this)).map
        fun this => (this, alignedStart this layout.align - 16)) := by
  induction rest generalizing fuel current with
  | nil =>
    obtain ⟨fuel, rfl⟩ := Nat.exists_eq_succ_of_ne_zero (Nat.ne_of_gt fuelled)
    rw [searchFree]
    exact if_pos walks
  | cons this rest ih =>
    obtain ⟨rfl, following, nextEq, walks⟩ := walks
    obtain ⟨fuel, rfl⟩ := Nat.exists_eq_succ_of_ne_zero (Nat.ne_of_gt (Nat.zero_lt_of_lt fuelled))
    have free := isFree current List.mem_cons_self
    rw [searchFree, if_neg free.pointer.ne_zero,
      free.fitIn_eq (bounded current List.mem_cons_self), ok_bind]
    by_cases fits : FitsIn layout current (heap.stopOf current)
    · rw [if_pos fits, List.find?_cons_of_pos (by simpa using fits)]
      rfl
    · rw [if_neg fits, List.find?_cons_of_neg (by simpa using fits)]
      dsimp only at nextEq ⊢
      rw [nextEq, ok_bind]
      exact ih walks (fun other member => isFree other (List.mem_cons_of_mem _ member))
        (fun other member => bounded other (List.mem_cons_of_mem _ member))
        (Nat.lt_of_succ_lt_succ fuelled)

def CanSplit (layout : Layout) (block stop : Nat) : Prop :=
  layout.align ∣ block + 16 ∨
    alignedStart block layout.align + allocatedSize layout + 16 ≤ stop

theorem FreeBlock.splitBlock_iff (free : FreeBlock heap block stop)
    (fits : alignedStart block layout.align + roundedSize layout.size ≤ stop) :
    (∃ ptr after, heap.splitBlock block (alignedStart block layout.align - 16) layout =
      .ok (ptr, after) ∧ ptr ≠ 0) ↔ CanSplit layout block stop := by
  have sizeEq := free.size
  have large := free.large
  have whole := layout.alignedStart_whole free.pointer.2.2
  unfold splitBlock CanSplit
  by_cases divides : layout.align ∣ block + 16
  · have startEq : alignedStart block layout.align = block + 16 := if_pos divides
    rw [startEq, Nat.add_sub_cancel, if_pos rfl]
    obtain ⟨after, splitEq, -⟩ := @FreeBlock.splitInPlace_ok heap layout block stop free (by
      unfold allocatedSize
      omega)
    exact ⟨fun _ => Or.inl divides, fun _ => ⟨_, after, splitEq, by omega⟩⟩
  · have startEq : alignedStart block layout.align = multipleFrom layout.align (block + 48) :=
      if_neg divides
    have behind := @le_multipleFrom layout.align (block + 48) layout.align_pos
    rw [if_neg (by omega), or_iff_right divides]
    constructor
    · rintro ⟨ptr, after, splitEq, -⟩
      by_contra short
      exact free.splitAligned_short (by omega) (by omega) _ splitEq
    · intro room
      obtain ⟨after, splitEq, -⟩ := @FreeBlock.splitAligned_ok heap layout block
        (alignedStart block layout.align - 16) stop free (by omega) (by omega) (by omega)
      exact ⟨_, after, splitEq, by omega⟩

end Search

/-- The block at the end of the heap after it grew: the last block if that is free, or
the new region. -/
def LinkedListAllocator.growTarget (heap : LinkedListAllocator) : Nat :=
  if (heap.header heap.tail).isFree then heap.tail else heap.heapEnd

/-- What `grow_heap_fn` adds: whole pages for the request. -/
def growth (layout : Layout) : Nat := multipleFrom Memory.pageSize (growRequest layout)

section Growth

variable {layout : Layout}

theorem growth_bounds (layout : Layout) :
    growth layout % 4096 = 0 ∧ 4096 ≤ growth layout ∧
      16 + layout.align + layout.size ≤ growth layout := by
  have whole := Nat.mod_eq_zero_of_dvd (@dvd_multipleFrom Memory.pageSize (growRequest layout))
  have lower := @le_multipleFrom Memory.pageSize (growRequest layout) (by decide)
  have request : growRequest layout = max (16 + layout.align + layout.size) 4096 := rfl
  unfold growth
  unfold Memory.pageSize at whole lower ⊢
  omega

theorem growth_rounded (layout : Layout) :
    layout.align + roundedSize layout.size ≤ growth layout := by
  obtain ⟨-, -, enough⟩ := growth_bounds layout
  unfold roundedSize
  omega

variable {heap : LinkedListAllocator} {blocks frees : List Nat} {start : Nat}
  (wellFormed : WellFormedWith heap blocks frees) (spans : Spans start heap)
  (reached : heapStart ≤ start)

include wellFormed

theorem WellFormedWith.tail_mem : heap.tail ∈ blocks :=
  List.mem_of_getLast? wellFormed.lastIsTail

theorem WellFormedWith.tail_stop : heap.stopOf heap.tail = heap.heapEnd := by
  obtain ⟨front, rfl⟩ := List.getLast?_eq_some_iff.mp wellFormed.lastIsTail
  obtain ⟨-, following, nextEq, isEnd⟩ := wellFormed.tiles.split
  rw [← next_eq_stopOf nextEq]
  exact isEnd

theorem WellFormedWith.freeHead_cases : heap.freeHead = 0 ∨ heap.freeHead ∈ frees := by
  have first := wellFormed.freeWalk.first_eq
  cases frees with
  | nil => exact Or.inl first
  | cons head rest =>
    right
    rw [first]
    simp

include spans reached

theorem WellFormedWith.leadsOut_tail {pointer : Nat} (stop : Nat)
    (link : pointer = 0 ∨ pointer ∈ frees ∧ pointer ≠ heap.tail) :
    LeadsOut heap.tail stop pointer := by
  rcases link with null | ⟨listed, different⟩
  · exact Or.inl null
  · obtain ⟨member, -⟩ := (wellFormed.free pointer).mp listed
    have inside := (wellFormed.bounds member).2
    have later : pointer + 16 ≤ heap.stopOf pointer := by
      unfold stopOf
      omega
    have tailStop := wellFormed.tail_stop
    refine Or.inr ⟨wellFormed.heapPointer spans reached member, ?_⟩
    rcases wellFormed.apart member wellFormed.tail_mem different with before | after
    · omega
    · omega

theorem WellFormedWith.growTail (isFree : (heap.header heap.tail).isFree = true)
    (whole : size % 4096 = 0) (bounded : heap.heapEnd + size < 2 ^ 64) : ∃ grown,
    editHeader { heap with heapEnd := heap.heapEnd + size } heap.tail
      (·.addSize size) = .ok grown ∧ FreeBlock grown heap.tail (heap.heapEnd + size) := by
  have member := wellFormed.tail_mem
  have tailStop := wellFormed.tail_stop
  have valid := wellFormed.heapPointer spans reached member
  have lower := valid.1
  have sizeWhole := wellFormed.whole spans member
  have large := wellFormed.sizes heap.tail member
  have listed : heap.tail ∈ frees := by
    rw [isFree_eq, Bool.not_eq_true'] at isFree
    exact (wellFormed.free heap.tail).mpr ⟨member, isFree⟩
  obtain ⟨before, after, prevEq, nextEq, beforeIs, afterIs, headIs⟩ := wellFormed.freeLinks listed
  unfold stopOf BlockHeader.size at tailStop
  unfold BlockHeader.size at sizeWhole large
  unfold heapStart at lower
  have small : asU32 size = size := Nat.mod_eq_of_lt (by omega)
  have old := load_fits heap.memory heap.tail
  obtain ⟨changed, changedEq⟩ : ∃ changed : BlockHeader, changed =
    { heap.header heap.tail with rawSize := (heap.header heap.tail).rawSize + size } := ⟨_, rfl⟩
  have added : (heap.header heap.tail).addSize size = .ok changed := by
    unfold addSize
    rw [small, if_pos (by omega), changedEq]
  have fits : changed.Fits := by
    rw [changedEq]
    exact ⟨by dsimp only; omega, old.prev, old.freeNext, old.freePrev⟩
  have stored : load (store heap.memory heap.tail changed) heap.tail =
      changed := load_store_same _ _ fits
  refine ⟨putHeader { heap with heapEnd := heap.heapEnd + size } heap.tail changed,
    ?_, valid, ?_, ?_, ?_, ?_, bounded, before, after, ?_, ?_,
    wellFormed.leadsOut_tail spans reached _ beforeIs,
      wellFormed.leadsOut_tail spans reached _ afterIs,
    headIs.imp_right fun ⟨proper, head⟩ =>
      ⟨proper, wellFormed.leadsOut_tail spans reached _ (Or.inr head)⟩⟩
  · unfold editHeader
    change ((heap.header heap.tail).addSize size).bind _ = _
    rw [added]
    rfl
  all_goals
    unfold header putHeader
    rw [stored, changedEq]
  · exact isFree
  · unfold BlockHeader.size
    dsimp only
    omega
  · unfold BlockHeader.size
    dsimp only
    omega
  · unfold BlockHeader.size
    dsimp only
    omega
  · exact prevEq
  · exact nextEq

theorem WellFormedWith.growNew (whole : size % 4096 = 0) (large : 4096 ≤ size)
    (bounded : heap.heapEnd + size < 2 ^ 64) : ∃ listed grown,
    insertFreeBlock
      (putHeader { heap with heapEnd := heap.heapEnd + size } heap.heapEnd
        (BlockHeader.new (size - 16) false)) heap.heapEnd = .ok listed ∧
      listed.appendToList heap.heapEnd = .ok grown ∧
      FreeBlock grown heap.heapEnd (heap.heapEnd + size) := by
  have tailValid := wellFormed.heapPointer spans reached wellFormed.tail_mem
  have tailStop := wellFormed.tail_stop
  have endWhole := spans.whole
  have lower : heapStart ≤ heap.heapEnd := by
    have first := tailValid.1
    have later : heap.tail ≤ heap.stopOf heap.tail := le_stopOf heap.tail
    omega
  have valid : HeapPointer heap.heapEnd := ⟨lower, by omega, endWhole⟩
  have headLeads : LeadsOut heap.heapEnd (heap.heapEnd + size) heap.freeHead := by
    rcases wellFormed.freeHead_cases with null | listed
    · exact Or.inl null
    · obtain ⟨member, -⟩ := (wellFormed.free heap.freeHead).mp listed
      have inside := (wellFormed.bounds member).2
      unfold stopOf at inside
      exact Or.inr ⟨wellFormed.heapPointer spans reached member, Or.inl (by omega)⟩
  have headApart := headLeads.apart le_rfl (by omega)
  obtain ⟨first, firstEq, firstRelinks, nextEq, prevEq, -⟩ := @insertFreeBlock_relinks
    (putHeader { heap with heapEnd := heap.heapEnd + size } heap.heapEnd
      (BlockHeader.new (size - 16) false)) heap.heapEnd valid headLeads.storable headApart
  unfold heapStart at lower
  have new : HasBlock first heap.heapEnd (size - 16) false :=
    firstRelinks.hasBlock (hasBlock_new heap.memory heap.heapEnd (by omega) false)
      (by simpa [putHeader_freeHead] using Or.inr (apart_of_link valid headApart))
  obtain ⟨second, secondEq, secondRelinks, secondHeader⟩ := @edits_setPrev
    { heap with memory := first, heapEnd := heap.heapEnd + size, freeHead := heap.heapEnd }
    heap.heapEnd heap.tail tailValid.storable
  have last : HasBlock second heap.heapEnd (size - 16) false :=
    secondRelinks.hasBlock new (by simp)
  refine ⟨_, ⟨second, heap.head, heap.heapEnd, heap.heapEnd + size, heap.heapEnd⟩, firstEq, ?_,
    valid, HasBlock.isFree last, ?_, ?_, ?_, bounded, 0,
    heap.freeHead, ?_, ?_, Or.inl rfl, headLeads, Or.inl rfl⟩
  · unfold appendToList
    exact (congrArg (· >>= _) secondEq).trans (ok_bind _ _)
  · have sizeIs : (load second heap.heapEnd).size = size - 16 := last.1
    unfold header
    rw [sizeIs]
    omega
  · refine le_trans ?_ last.1.ge
    unfold minAllocSize
    omega
  · have sizeIs : (load second heap.heapEnd).size = size - 16 := last.1
    unfold header
    rw [sizeIs]
    omega
  · unfold header
    rw [secondHeader]
    exact prevEq
  · unfold header
    rw [secondHeader]
    exact nextEq

/-- The heap with the new region, before the allocation looks for its place there. -/
theorem WellFormedWith.useNewRegion_eq {size : Nat} (whole : size % 4096 = 0) (large : 4096 ≤ size)
    (bounded : heap.heapEnd + size < 2 ^ 64) : ∃ grown,
    FreeBlock grown heap.growTarget (heap.heapEnd + size) ∧
      heap.useNewRegion layout heap.heapEnd size = (do
        let location ← expectFit
          (← grown.checkAlignedFit heap.growTarget layout.size layout.align)
        .ok ((heap.growTarget, location), grown)) := by
  unfold useNewRegion growTarget
  rw [checkedAdd_bind bounded]
  by_cases isFree : (heap.header heap.tail).isFree = true
  · obtain ⟨grown, grownEq, free⟩ := wellFormed.growTail spans reached isFree whole bounded
    refine ⟨grown, by rwa [if_pos isFree], ?_⟩
    rw [if_pos isFree]
    exact (if_pos isFree).trans (congrArg (· >>= _) grownEq)
  · obtain ⟨listed, grown, listedEq, grownEq, free⟩ :=
      wellFormed.growNew spans reached whole large bounded
    refine ⟨grown, by rwa [if_neg isFree], ?_⟩
    dsimp only
    rw [if_neg isFree]
    refine (if_neg isFree).trans ?_
    unfold blockHeaderSize
    rw [checkedSub_bind (by omega), listedEq, ok_bind, grownEq, ok_bind]

end Growth

/-- The first free block that fits can be divided; if none fits, the block at the end of
the grown heap has room for the allocation and a header behind it. -/
def Serves (heap : LinkedListAllocator) (frees : List Nat) (layout : Layout) : Prop :=
  match frees.find? fun this => FitsIn layout this (heap.stopOf this) with
  | some this => CanSplit layout this (heap.stopOf this)
  | none => alignedStart heap.growTarget layout.align + roundedSize layout.size + 16 ≤
      heap.heapEnd + growth layout

section Allocations

variable {heap : LinkedListAllocator} {blocks frees : List Nat} {start block stop : Nat}
  {layout : Layout}

theorem WellFormedWith.findExisting_eq (wellFormed : WellFormedWith heap blocks frees)
    (spans : Spans start heap) (reached : heapStart ≤ start)
    (bounded : heap.heapEnd + layout.align + roundedSize layout.size < 2 ^ 64) :
    heap.findExisting layout =
      .ok ((frees.find? fun this => FitsIn layout this (heap.stopOf this)).map
        fun this => (this, alignedStart this layout.align - 16)) := by
  have inside : ∀ this ∈ frees, heap.stopOf this ≤ heap.heapEnd := fun this listed =>
    (wellFormed.bounds ((wellFormed.free this).mp listed).1).2
  refine searchFree_eq wellFormed.freeWalk
    (fun this listed => wellFormed.freeBlock spans reached listed) ?_ ?_
  · intro this listed
    have upper := inside this listed
    omega
  · -- Null and the free blocks are different addresses below the end of the heap.
    have subset : 0 :: frees ⊆ List.range heap.heapEnd := by
      intro this member
      rw [List.mem_range]
      rcases List.mem_cons.mp member with rfl | listed
      · have upper := (wellFormed.bounds wellFormed.tail_mem).2
        unfold stopOf at upper
        omega
      · have upper := inside this listed
        unfold stopOf at upper
        omega
    have nodup : (0 :: frees).Nodup := List.nodup_cons.mpr ⟨wellFormed.nonnull, wellFormed.nodup⟩
    have shorter := (nodup.subperm subset).length_le
    rwa [List.length_range, List.length_cons] at shorter

theorem FreeBlock.checkAlignedFit_room (free : FreeBlock heap block stop)
    (raised : block + 16 + layout.align < 2 ^ 64)
    (room : alignedStart block layout.align + roundedSize layout.size + 16 ≤ stop) :
    heap.checkAlignedFit block layout.size layout.align =
      .ok (some (alignedStart block layout.align - 16)) := by
  have bounded := free.bounded
  have positive := layout.align_pos
  have place := @alignedStart_cases layout.align block positive
  have reach : multipleFrom layout.align (block + 16) ≤ alignedStart block layout.align :=
    multipleFrom_le positive dvd_alignedStart (by omega)
  unfold checkAlignedFit
  rw [free.endPtr, ok_bind, alignedFit_eq free.pointer.2.2 raised (by omega) (Or.inr (by omega)),
    if_pos room]

theorem growth_canSplit (small : layout.align ≤ 4096) (lower : block ≤ heap.heapEnd)
    (room : alignedStart block layout.align + roundedSize layout.size + 16 ≤
      heap.heapEnd + growth layout) : CanSplit layout block (heap.heapEnd + growth layout) := by
  obtain ⟨whole, large, enough⟩ := growth_bounds layout
  have sizes : layout.align ≤ 2048 ∨ layout.align = 4096 := by
    obtain ⟨exponent, powerEq⟩ := layout.powerOfTwo
    rw [powerEq] at small ⊢
    have bound : exponent ≤ 12 := (Nat.pow_le_pow_iff_right (by decide : 1 < 2)).mp small
    rcases Nat.lt_or_eq_of_le bound with less | rfl
    · exact Or.inl (Nat.pow_le_pow_right (by decide) (Nat.le_of_lt_succ less))
    · exact Or.inr rfl
  have place : alignedStart block layout.align ≤ block + 48 + layout.align := by
    unfold alignedStart
    split
    · omega
    · exact (multipleFrom_lt layout.align_pos).le
  right
  unfold allocatedSize minAllocSize
  omega

end Allocations

/-- An allocation in a well-formed heap, with a heap that grows by whole pages, returns
memory exactly if the first free block that fits can be divided, or, if none fits, the
block at the end of the grown heap has room. -/
theorem alloc_serves_iff {region : HeapRegion} {memory : ByteMemory} {client : Client}
    (reached : Reaches (fun _ _ => True) region memory client) {blocks frees : List Nat}
    (wellFormed : WellFormedWith client.heap blocks frees) {layout : Layout}
    (small : layout.align ≤ 4096) {grow : GrowHeap}
    (grows : grow (growRequest layout) = some (client.heap.heapEnd, growth layout))
    (bounded : client.heap.heapEnd + growth layout < 2 ^ 64) :
    (∃ ptr after, client.heap.alloc grow layout = .ok (ptr, after) ∧ ptr ≠ 0) ↔
      Serves client.heap frees layout := by
  have spans := reached.spans
  have rounded := growth_rounded layout
  obtain ⟨whole, large, enough⟩ := growth_bounds layout
  have existing := @WellFormedWith.findExisting_eq client.heap blocks frees _ layout
    wellFormed spans region.reached (by omega)
  unfold Serves alloc findFit
  rw [existing, ok_bind]
  cases found : frees.find? fun this => FitsIn layout this (client.heap.stopOf this) with
  | some block =>
    have free := wellFormed.freeBlock spans region.reached (List.mem_of_find?_eq_some found)
    have fits : FitsIn layout block (client.heap.stopOf block) := by
      simpa using List.find?_some found
    unfold FitsIn at fits
    dsimp only [Option.map_some]
    rw [ok_bind]
    exact free.splitBlock_iff (by omega)
  | none =>
    obtain ⟨grown, free, regionEq⟩ := @WellFormedWith.useNewRegion_eq layout client.heap blocks
      frees _ wellFormed spans region.reached _ whole large bounded
    have target : client.heap.growTarget ≤ client.heap.heapEnd := by
      have sizeEq := wellFormed.tail_stop
      have later : client.heap.tail ≤ client.heap.stopOf client.heap.tail := le_stopOf _
      unfold growTarget
      split
      · omega
      · omega
    dsimp only [Option.map_none]
    rw [grows]
    dsimp only
    rw [regionEq]
    constructor
    · rintro ⟨ptr, after, outcome, -⟩
      obtain ⟨⟨place, middle⟩, outcome, -⟩ := bind_eq_ok.mp outcome
      obtain ⟨⟨found, last⟩, outcome, -⟩ := bind_eq_ok.mp outcome
      obtain ⟨answer, answerEq, outcome⟩ := bind_eq_ok.mp outcome
      obtain ⟨location, locationEq, -⟩ := bind_eq_ok.mp outcome
      rw [expectFit_eq_ok locationEq] at answerEq
      exact (free.fit_eq answerEq).2
    · intro room
      rw [free.checkAlignedFit_room (by omega) room, ok_bind]
      exact (free.splitBlock_iff (by omega)).mpr (growth_canSplit small target room)

theorem smallHeap_wellFormed : WellFormedWith smallHeap [heapStart] [heapStart] where
  tiles := ⟨rfl, heapStart + 1024, by decide +kernel, rfl⟩
  aligned := by decide
  sizes := by decide +kernel
  prevs := ⟨by decide +kernel, trivial⟩
  lastIsTail := rfl
  freeWalk := ⟨rfl, 0, by decide +kernel, rfl⟩
  freePrevs := ⟨by decide +kernel, trivial⟩
  nodup := by decide
  nonnull := by decide
  free := by
    intro this
    rw [List.mem_singleton]
    refine ⟨fun isStart => ⟨isStart, ?_⟩, And.left⟩
    rw [isStart]
    decide +kernel

/-- A request that is larger than the small heap makes it grow by a page. -/
theorem smallHeap_grows : ∃ ptr after,
    smallHeap.alloc (growBy smallHeap.heapEnd (some 1)) (wordLayout 2000 (by decide) (by decide)) =
      .ok (ptr, after) ∧ ptr ≠ 0 := by
  have pages : growth (wordLayout 2000 (by decide) (by decide)) = 4096 := by decide
  have serves : Serves smallHeap [heapStart] (wordLayout 2000 (by decide) (by decide)) := by
    have none : [heapStart].find? (fun this => FitsIn (wordLayout 2000 (by decide) (by decide)) this
        (smallHeap.stopOf this)) = none := by
      decide +kernel
    unfold Serves
    rw [none]
    decide +kernel
  refine (@alloc_serves_iff smallRegion (fun _ => 0) ⟨smallHeap, []⟩ (smallHeap_boot _) _ _
    smallHeap_wellFormed _ (by decide) _ ?_ ?_).mpr serves
  · rw [pages]
    rfl
  · rw [pages]
    decide

def kernelRegion : HeapRegion where
  start := heapStart
  size := 4 * 4096
  aligned := smallRegion.aligned
  whole := by decide
  enough := by decide
  reached := Nat.le_refl heapStart
  bounded := by decide

def kernelHeap : LinkedListAllocator where
  memory := BlockHeader.store (fun _ => 0) heapStart (BlockHeader.new 16368 false)
  head := heapStart
  tail := heapStart
  heapEnd := heapStart + 16384
  freeHead := heapStart

/-- When the whole heap of the kernel is in use, a request of almost a page gets a page
that has no room for a header behind the allocation. -/
theorem kernelHeap_fails : ∃ client, Reaches (fun _ _ => True) kernelRegion (fun _ => 0) client ∧
    WellFormed client.heap ∧
    growBy client.heap.heapEnd (some 1) (growRequest (wordLayout 4072 (by decide) (by decide))) =
      some (client.heap.heapEnd, growth (wordLayout 4072 (by decide) (by decide))) ∧
    client.heap.alloc (growBy client.heap.heapEnd (some 1))
      (wordLayout 4072 (by decide) (by decide)) =
      .error (.assertion "Failed to find aligned fit") := by
  have evaluated : (Client.run ⟨kernelHeap, []⟩ [.alloc none (wordLayout 16368 (by decide)
      (by decide))]).any (fun client => decide ((client.heap.alloc
        (growBy client.heap.heapEnd (some 1)) (wordLayout 4072 (by decide) (by decide))).map
          (fun _ => ()) = .error (.assertion "Failed to find aligned fit"))) = true := by
    decide +kernel
  obtain ⟨client, ran, fails⟩ := (Option.any_eq_true _ _).mp evaluated
  have fails := of_decide_eq_true fails
  have aligned := (@Reaches.boot (fun _ call => call.WordAligned) kernelRegion
    (fun _ => 0) kernelHeap
    rfl).run (fun _ call _ member => by
      rw [List.mem_singleton.mp member]
      exact le_refl 8) ran
  obtain ⟨blocks, frees, wellFormed, -⟩ := coalesced_of_reaches aligned
  refine ⟨client, (Reaches.boot rfl).run (fun _ _ _ _ => trivial) ran, ⟨blocks, frees, wellFormed⟩,
    ?_, ?_⟩
  · have pages : growth (wordLayout 4072 (by decide) (by decide)) = 4096 := by decide
    rw [pages]
    rfl
  · cases outcome : client.heap.alloc (growBy client.heap.heapEnd (some 1))
      (wordLayout 4072 (by decide) (by decide)) with
    | ok result =>
      rw [outcome] at fails
      cases fails
    | error fault =>
      rw [outcome] at fails
      exact congrArg Except.error (Except.error.inj fails)

end NanoOs.KernelAllocator
