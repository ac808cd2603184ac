import NanoOs.KernelAllocatorCoalescing
import NanoOs.KernelAllocatorSearch

/-!
# Allocation and release on the block map

Specifications of `alloc` and `dealloc`: the heap keeps holding a block map, the
blocks in use change by exactly the block handed out or released, and bytes of
other used blocks are left alone.
-/

namespace NanoOs.KernelAllocator

open Function List

variable {heap after : LinkedListAllocator} {stop : Nat} {held front back : List Nat}
  {map : BlockMap} {layout : Layout} {this block fresh : Nat}

theorem Becomes.bind {outcome : Checked LinkedListAllocator}
    {rest : LinkedListAllocator → Checked LinkedListAllocator} {touched all : List Nat}
    {stopAfter : Nat} {heldAfter : List Nat} {later : BlockMap}
    (first : Becomes outcome heap touched stop held map)
    (second : ∀ middle, Holds middle stop held map →
      Becomes (rest middle) middle all stopAfter heldAfter later)
    (included : ∀ this ∈ touched, this ∈ all) :
    Becomes (outcome >>= rest) heap all stopAfter heldAfter later := by
  obtain ⟨middle, rfl, holds, sameHead, sameEnd, keeps⟩ := first
  obtain ⟨after, outcomeEq, holdsAfter, headAfter, endAfter, keepsAfter⟩ := second middle holds
  exact ⟨after, outcomeEq, holdsAfter, headAfter.trans sameHead, endAfter.trans sameEnd,
    (keeps.mono included).trans keepsAfter⟩

theorem Holds.handOut (holds : Holds heap stop [] map) (member : this ∈ map.blocks)
    (isFree : map.used this = false) :
    Becomes
      (do
        let heap ← heap.removeFreeBlock this
        heap.editHeader this (fun header => .ok header.setUsed))
      heap map.blocks stop [] { map with used := update map.used this true } :=
  (holds.removeFreeBlock member isFree not_mem_nil).bind
    (fun _ middleHolds => middleHolds.setUsed member) (fun _ inTouched => inTouched)

/-- The effect of a successful allocation in `block` on the heap. -/
structure HandsOut (heap after : LinkedListAllocator) (stop : Nat) (map later : BlockMap)
    (layout : Layout) (block : Nat) : Prop where
  holds : Holds after stop [] later
  sameHead : after.head = heap.head
  sameEnd : after.heapEnd = heap.heapEnd
  used : ∀ this, later.IsUsed this ↔ this = block ∨ map.IsUsed this
  fresh : ¬ map.IsUsed block
  size : ∀ this, map.IsUsed this → later.size this = map.size this
  enough : layout.size ≤ later.size block
  grows : ∀ this ∈ map.blocks, this ∈ later.blocks
  keeps : KeepsPayload later.blocks heap.memory after.memory
  coalesced : map.Coalesced → later.Coalesced

theorem le_roundedSize (size : Nat) : size ≤ roundedSize size := by
  unfold roundedSize
  omega

/-- Using a free block makes it one more reason for its neighbours to be
separated. -/
theorem BlockMap.Coalesced.handOut (coalesced : map.Coalesced) (this : Nat) :
    BlockMap.Coalesced { map with used := update map.used this true } := by
  refine coalesced.imp ?_
  intro first second
  by_cases firstThis : first = this <;> by_cases secondThis : second = this <;>
    simp [firstThis, secondThis]

theorem BlockMap.Coalesced.carve {size changed : Nat → Nat} {used : Nat → Bool}
    (coalesced : BlockMap.Coalesced ⟨front ++ this :: back, size, used⟩)
    (isFree : used this = false) (nodup : (front ++ this :: fresh :: back).Nodup) :
    BlockMap.Coalesced ⟨front ++ this :: fresh :: back, changed,
      update (update used fresh false) this true⟩ := by
  unfold BlockMap.Coalesced at coalesced ⊢
  dsimp only at coalesced ⊢
  obtain ⟨-, restNodup, frontApart⟩ := nodup_append.mp nodup
  obtain ⟨thisNew, freshNodup⟩ := nodup_cons.mp restNodup
  obtain ⟨freshNew, -⟩ := nodup_cons.mp freshNodup
  obtain ⟨frontChain, backChain⟩ := isChain_split.mp coalesced
  obtain ⟨backHead, backChain⟩ := isChain_cons.mp backChain
  have backNe : ∀ other ∈ back, other ≠ this ∧ other ≠ fresh := by
    intro other inBack
    refine ⟨?_, ?_⟩
    · rintro rfl
      exact thisNew (by simp [inBack])
    · rintro rfl
      exact freshNew inBack
  have backSame : ∀ other ∈ back,
      update (update used fresh false) this true other = used other := by
    intro other inBack
    simp [backNe other inBack]
  refine isChain_append_cons_cons.mpr ⟨frontChain.imp_of_mem_imp ?_, by simp, ?_⟩
  · intro first second firstMember secondMember
    have firstNe : first ≠ fresh := by
      rintro rfl
      rcases mem_append.mp firstMember with inFront | isThis
      · exact frontApart first inFront first (by simp) rfl
      · exact thisNew (by simp [mem_singleton.mp isThis])
    have secondNe : second ≠ fresh := by
      rintro rfl
      rcases mem_append.mp secondMember with inFront | isThis
      · exact frontApart second inFront second (by simp) rfl
      · exact thisNew (by simp [mem_singleton.mp isThis])
    by_cases firstThis : first = this <;> by_cases secondThis : second = this <;>
      simp [firstThis, secondThis, firstNe, secondNe]
  · refine isChain_cons.mpr ⟨?_, backChain.imp_of_mem_imp ?_⟩
    · intro successor isHead
      right
      rw [backSame successor (mem_of_mem_head? isHead)]
      have separated := backHead successor isHead
      rw [isFree] at separated
      exact separated.resolve_left Bool.false_ne_true
    · intro first second firstMember secondMember
      rw [backSame first firstMember, backSame second secondMember]
      exact id

variable {ptr excess preceding size : Nat} {grow : GrowHeap}

section

variable (holds : Holds heap stop [] map) (member : block ∈ map.blocks)
  (isFree : map.used block = false)

include holds member isFree

private theorem Holds.handsOut_whole (enough : layout.size ≤ map.size block)
    (outcome : (do
      let heap ← heap.removeFreeBlock block
      heap.editHeader block (fun header => .ok header.setUsed)) = .ok after) :
    ∃ later, HandsOut heap after stop map later layout block := by
  obtain ⟨final, outcomeEq, finalHolds, sameHead, sameEnd, keeps⟩ :=
    holds.handOut member isFree
  obtain rfl := Except.ok.inj (outcome.symm.trans outcomeEq)
  refine ⟨_, finalHolds, sameHead, sameEnd, ?_, ?_, fun _ _ => rfl, enough,
    fun _ inBlocks => inBlocks, keeps, fun coalesced => coalesced.handOut block⟩
  · intro this
    unfold BlockMap.IsUsed
    by_cases equal : this = block
    · simp [equal, member]
    · simp [equal]
  · rintro ⟨-, used⟩
    rw [isFree] at used
    cases used

private theorem Holds.handsOut_front {middle : LinkedListAllocator} {needed : Nat}
    (neededOk : 16 ≤ needed ∧ needed % 8 = 0) (enough : layout.size ≤ needed)
    (room : needed + 32 ≤ map.size block) (freshEq : fresh = block + 16 + needed)
    (carved : (do
      let heap := heap.putHeader fresh (BlockHeader.new (map.size block - needed - 16) false)
      let heap ← heap.insertFreeBlock fresh
      let heap ← heap.insertAfter block fresh
      heap.editHeader block (fun header => .ok (header.setSize needed))) = .ok middle)
    (outcome : (do
      let heap ← middle.removeFreeBlock block
      heap.editHeader block (fun header => .ok header.setUsed)) = .ok after) :
    ∃ later, HandsOut heap after stop map later layout block := by
  obtain ⟨blocks, size, used⟩ := map
  obtain ⟨front, back, rfl⟩ := append_of_mem member
  dsimp only at isFree room
  have freshNe : fresh ≠ block := by omega
  have becomes := holds.carve rfl neededOk room freshEq not_mem_nil
  rw [carved] at becomes
  have carvedFree : update used fresh false block = false := by
    simp [freshNe.symm, isFree]
  have finished := becomes.bind (fun _ middleHolds => middleHolds.handOut (by simp) carvedFree)
    (fun _ touched => touched)
  obtain ⟨final, outcomeEq, finalHolds, sameHead, sameEnd, keeps⟩ := finished
  obtain rfl := Except.ok.inj (outcome.symm.trans outcomeEq)
  have nodup : (front ++ block :: fresh :: back).Nodup := finalHolds.nodup
  have unlisted : fresh ∉ front ++ block :: back := by
    have rearranged : front ++ block :: fresh :: back = (front ++ [block]) ++ fresh :: back := by
      simp
    rw [rearranged] at nodup
    simpa using (nodup_cons.mp (nodup_middle.mp nodup)).1
  refine ⟨_, finalHolds, sameHead, sameEnd, ?_, ?_, ?_, ?_, ?_, keeps,
    fun coalesced => coalesced.carve isFree nodup⟩
  · intro this
    unfold BlockMap.IsUsed
    by_cases isBlock : this = block
    · simp [isBlock]
    · by_cases isFresh : this = fresh
      · subst isFresh
        simp [isBlock, unlisted]
      · simp [isBlock, isFresh]
  · rintro ⟨-, isUsed⟩
    have isUsed : used block = true := isUsed
    rw [isFree] at isUsed
    cases isUsed
  · rintro this ⟨inBlocks, isUsed⟩
    have notBlock : this ≠ block := by
      rintro rfl
      have isUsed : used this = true := isUsed
      rw [isFree] at isUsed
      cases isUsed
    have notFresh : this ≠ fresh := by
      rintro rfl
      exact unlisted inBlocks
    simp [notBlock, notFresh]
  · simpa using enough
  · intro other inBlocks
    simp only [mem_append, mem_cons] at inBlocks ⊢
    exact inBlocks.imp_right (Or.imp_right Or.inr)

theorem Holds.splitInPlace (outcome : heap.splitInPlace block layout = .ok (ptr, after)) :
    ptr = block + 16 ∧ ∃ later, HandsOut heap after stop map later layout block := by
  obtain ⟨needed, neededEq, outcome⟩ := bind_eq_ok.mp outcome
  obtain ⟨neededLe, outcome⟩ := checkedSub_bind_eq_ok.mp outcome
  obtain ⟨divided, dividedEq, outcome⟩ := bind_eq_ok.mp outcome
  obtain ⟨removed, removedEq, outcome⟩ := bind_eq_ok.mp outcome
  obtain ⟨used, usedEq, outcome⟩ := bind_eq_ok.mp outcome
  obtain ⟨rfl, rfl⟩ := Prod.mk.inj (Except.ok.inj outcome)
  refine ⟨rfl, ?_⟩
  have handedOut : (do
      let heap ← divided.removeFreeBlock block
      heap.editHeader block (fun header => .ok header.setUsed)) = .ok used :=
    bind_eq_ok.mpr ⟨removed, removedEq, usedEq⟩
  obtain rfl := alignUp_eight neededEq
  rw [holds.header_size member] at neededLe dividedEq
  have enough : layout.size ≤ roundedSize (max layout.size minAllocSize) :=
    (Nat.le_max_left _ _).trans (le_roundedSize _)
  have atLeast : 16 ≤ roundedSize (max layout.size minAllocSize) :=
    (Nat.le_max_right layout.size 16).trans (le_roundedSize _)
  have multiple : roundedSize (max layout.size minAllocSize) % 8 = 0 := by
    unfold roundedSize
    omega
  split at dividedEq
  · rename_i large
    unfold minBlockSize blockHeaderSize minAllocSize at large
    exact holds.handsOut_front member isFree ⟨atLeast, multiple⟩ enough
      (by unfold minAllocSize at neededLe ⊢; omega) rfl dividedEq handedOut
  · cases dividedEq
    exact holds.handsOut_whole member isFree (enough.trans neededLe) handedOut

end

/-- The aligned split leaves a well-formed heap when the divided block is the
last one and what follows the allocation is large enough to be a block. -/
def AlignedSplitFits (heap : LinkedListAllocator) (this alignedBlock : Nat) (layout : Layout) :
    Prop :=
  this = heap.tail ∧
    alignedBlock + blockHeaderSize + max (roundedSize layout.size) minAllocSize + minBlockSize ≤
      this + blockHeaderSize + (heap.header this).size

private theorem mem_appended {first rest : List Nat} {other : Nat}
    (member : other ∈ front ++ first) : other ∈ front ++ (first ++ rest) :=
  append_assoc front first rest ▸ mem_append_left rest member

private theorem Holds.divideTail (holds : Holds heap stop [] map)
    (position : map.blocks = front ++ [this]) (precedingOk : 16 ≤ preceding ∧ preceding % 8 = 0)
    (sizeOk : 16 ≤ size ∧ size % 8 = 0) (excessOk : 16 ≤ excess ∧ excess % 8 = 0)
    (blockEq : block = this + preceding + 16) (freshEq : fresh = block + size + 16)
    (stopEq : stop = fresh + excess + 16) :
    Becomes
      (do
        let heap ← heap.editHeader this (fun header => .ok (header.setSize preceding))
        let heap ← (heap.putHeader block (BlockHeader.new size true)).insertAfter this block
        let newBlock ← (heap.header block).endPtr block
        let heap ← (heap.putHeader newBlock (BlockHeader.new excess false)).insertFreeBlock
          newBlock
        heap.insertAfter block newBlock)
      heap (front ++ [this, block, fresh]) stop []
      { blocks := front ++ [this, block, fresh]
        size := update (update (update map.size this preceding)
          block size) fresh excess
        used := update (update map.used block true) fresh false } := by
  have bound := holds.stopBound
  have member : this ∈ map.blocks := by simp [position]
  have lower := (holds.pointer member).1
  unfold heapStart at lower
  have shortened := holds.resizeTail position precedingOk (by omega)
    (fun headers agrees _ => agrees.setSize member (by omega))
  rw [← blockEq] at shortened
  refine shortened.bind (fun second secondHolds => ?_) ?_
  swap
  · intro other member
    rw [position] at member
    exact mem_appended member
  have appended := secondHolds.appendUsed position sizeOk (by omega) not_mem_nil
  rw [← freshEq] at appended
  refine appended.bind (fun third thirdHolds => ?_) ?_
  swap
  · intro other
    exact mem_appended
  have endEq : (third.header block).endPtr block = .ok fresh := by
    rw [thirdHolds.header_endPtr (by simp)]
    simp [freshEq]
    omega
  rw [endEq, ok_bind]
  have rearranged : front ++ [this, block] = (front ++ [this]) ++ [block] := by simp
  have ended := thirdHolds.appendFree rearranged excessOk (by omega) not_mem_nil
    (fun _ headers agrees atTail followingEq =>
      agrees.linksAfter_insertAfter (Or.inl ⟨rfl, atTail⟩) (by simp [atTail]) (by omega))
  simpa [stopEq] using ended

private theorem Holds.handsOut_middle (holds : Holds heap stop [] map)
    (position : map.blocks = front ++ [this]) (isFree : map.used this = false)
    (enough : layout.size ≤ size) (precedingOk : 16 ≤ preceding ∧ preceding % 8 = 0)
    (sizeOk : 16 ≤ size ∧ size % 8 = 0) (excessOk : 16 ≤ excess ∧ excess % 8 = 0)
    (blockEq : block = this + preceding + 16) (freshEq : fresh = block + size + 16)
    (stopEq : stop = fresh + excess + 16)
    (outcome : (do
      let heap ← heap.editHeader this (fun header => .ok (header.setSize preceding))
      let heap ← (heap.putHeader block (BlockHeader.new size true)).insertAfter this block
      let newBlock ← (heap.header block).endPtr block
      let heap ← (heap.putHeader newBlock (BlockHeader.new excess false)).insertFreeBlock
        newBlock
      heap.insertAfter block newBlock) = .ok after) :
    ∃ later, HandsOut heap after stop map later layout block := by
  obtain ⟨final, outcomeEq, finalHolds, sameHead, sameEnd, keeps⟩ :=
    holds.divideTail position precedingOk sizeOk excessOk blockEq freshEq stopEq
  obtain rfl := Except.ok.inj (outcome.symm.trans outcomeEq)
  have blockNe : block ≠ fresh := by omega
  have others : ∀ other ∈ map.blocks, other ≠ block ∧ other ≠ fresh := by
    intro other member
    simp only [position, mem_append, mem_singleton] at member
    rcases member with inFront | rfl
    · have apart := (nodup_append.mp finalHolds.nodup).2.2 other inFront
      exact ⟨apart block (by simp), apart fresh (by simp)⟩
    · omega
  refine ⟨_, finalHolds, sameHead, sameEnd, ?_, ?_, ?_, ?_, ?_, keeps, ?_⟩
  · intro other
    unfold BlockMap.IsUsed
    by_cases isBlock : other = block
    · simp [isBlock, blockNe]
    · by_cases isFresh : other = fresh
      · have unlisted : other ∉ map.blocks := fun inBlocks => (others other inBlocks).2 isFresh
        subst isFresh
        simp [unlisted, isBlock]
      · simp [isBlock, isFresh, position]
  · rintro ⟨inBlocks, -⟩
    exact (others block inBlocks).1 rfl
  · rintro other ⟨inBlocks, isUsed⟩
    have notThis : other ≠ this := by
      rintro rfl
      rw [isFree] at isUsed
      cases isUsed
    simp [others other inBlocks, notThis]
  · simpa [blockNe] using enough
  · intro other member
    rw [position] at member
    exact mem_appended member
  · intro coalesced
    obtain ⟨blocks, oldSize, used⟩ := map
    obtain rfl : blocks = front ++ [this] := position
    have middle : BlockMap.Coalesced ⟨(front ++ [this]) ++ [block], oldSize,
        update used block true⟩ := by
      simpa using coalesced.append (Or.inr rfl) fun inBlocks => (others block inBlocks).1 rfl
    have unlisted : fresh ∉ (front ++ [this]) ++ [block] := by
      intro inBlocks
      rcases mem_append.mp inBlocks with inBlocks | isBlock
      · exact (others _ inBlocks).2 rfl
      · exact blockNe (mem_singleton.mp isBlock).symm
    simpa using middle.append (Or.inl (update_self _ _ _)) unlisted

theorem Holds.splitAligned (holds : Holds heap stop [] map) (member : this ∈ map.blocks)
    (isFree : map.used this = false) (padding : this + 32 ≤ block) (multiple : block % 8 = 0)
    (fits : AlignedSplitFits heap this block layout)
    (outcome : heap.splitAligned this block layout = .ok (ptr, after)) :
    ptr = block + 16 ∧ ∃ later, HandsOut heap after stop map later layout block := by
  obtain ⟨atTail, room⟩ := fits
  obtain ⟨front, position, tailEnd, -, -⟩ := holds.tail_split
  rw [← atTail] at position tailEnd
  rw [holds.header_size member] at room
  obtain ⟨preceding, precedingEq, outcome⟩ := bind_eq_ok.mp outcome
  obtain ⟨rounded, roundedEq, outcome⟩ := bind_eq_ok.mp outcome
  obtain ⟨remaining, remainingEq, outcome⟩ := bind_eq_ok.mp outcome
  obtain ⟨excess, excessEq, outcome⟩ := bind_eq_ok.mp outcome
  obtain ⟨shortened, shortenedEq, outcome⟩ := bind_eq_ok.mp outcome
  obtain ⟨appended, appendedEq, outcome⟩ := bind_eq_ok.mp outcome
  obtain ⟨final, finalEq, outcome⟩ := bind_eq_ok.mp outcome
  cases outcome
  refine ⟨rfl, ?_⟩
  obtain rfl := alignUp_eight roundedEq
  rw [holds.header_size member] at remainingEq
  obtain ⟨-, precedingValue⟩ := checkedSub_eq_ok.mp precedingEq
  obtain ⟨-, remainingValue⟩ := checkedSub_eq_ok.mp remainingEq
  obtain ⟨-, excessValue⟩ := checkedSub_eq_ok.mp excessEq
  obtain ⟨size, sizeValue⟩ : ∃ size,
      size = max (roundedSize layout.size) (minBlockSize - blockHeaderSize) := ⟨_, rfl⟩
  rw [← sizeValue] at appendedEq excessValue
  have pointerMod := (holds.pointer member).2.2
  have thisMod := (holds.sizes member).2
  have enough : layout.size ≤ size := by
    rw [sizeValue]
    exact (le_roundedSize layout.size).trans (Nat.le_max_left _ _)
  have sizeOk : 16 ≤ size ∧ size % 8 = 0 := by
    unfold minBlockSize minAllocSize blockHeaderSize roundedSize at sizeValue
    omega
  unfold BlockHeader.allocAreaStart blockHeaderSize at precedingValue
  unfold blockHeaderSize at remainingValue excessValue
  unfold minBlockSize minAllocSize blockHeaderSize at room sizeValue
  have precedingOk : 16 ≤ preceding ∧ preceding % 8 = 0 := by omega
  have excessOk : 16 ≤ excess ∧ excess % 8 = 0 := by omega
  rw [if_pos (show minAllocSize ≤ excess from excessOk.1)] at finalEq
  refine holds.handsOut_middle position isFree enough precedingOk sizeOk excessOk
    (by omega) rfl (by omega) ?_
  rw [shortenedEq, ok_bind, appendedEq, ok_bind]
  exact finalEq

/-- The aligned split is only taken where it keeps the heap well formed. -/
def AllocFits (heap : LinkedListAllocator) (grow : GrowHeap) (layout : Layout) : Prop :=
  ∀ block location middle, heap.findFit grow layout = .ok (some (block, location), middle) →
    block ≠ location → AlignedSplitFits middle block location layout

/-- The effect of a call of `alloc` that returns memory behind `block`. -/
structure Allocates (heap after : LinkedListAllocator) (map later : BlockMap) (layout : Layout)
    (block : Nat) : Prop where
  holds : Holds after after.heapEnd [] later
  sameHead : after.head = heap.head
  longer : heap.heapEnd ≤ after.heapEnd
  used : ∀ this, later.IsUsed this ↔ this = block ∨ map.IsUsed this
  fresh : ¬ map.IsUsed block
  size : ∀ this, map.IsUsed this → later.size this = map.size this
  enough : layout.size ≤ later.size block
  aligned : (block + 16) % layout.align = 0
  keeps : KeepsPayload later.blocks heap.memory after.memory
  coalesced : map.Coalesced → later.Coalesced

theorem Holds.splitBlock {location : Nat} (holds : Holds heap stop [] map)
    (member : block ∈ map.blocks) (isFree : map.used block = false)
    (fits : FitsAt layout block (block + map.size block + 16) location)
    (split : block ≠ location → AlignedSplitFits heap block location layout)
    (outcome : heap.splitBlock block location layout = .ok (ptr, after)) :
    ptr = location + 16 ∧ ∃ later, HandsOut heap after stop map later layout location := by
  unfold LinkedListAllocator.splitBlock at outcome
  split at outcome
  · rename_i equal
    subst equal
    exact holds.splitInPlace member isFree outcome
  · rename_i different
    have padding : block + 32 ≤ location := fits.padding.resolve_left (Ne.symm different)
    exact holds.splitAligned member isFree padding fits.multiple (split different) outcome

/-- A call of `alloc` returns null and changes nothing, or hands out one more
block. -/
theorem Holds.alloc (holds : Holds heap heap.heapEnd [] map)
    (contiguous : Contiguous grow heap.heapEnd) (fits : AllocFits heap grow layout)
    (outcome : heap.alloc grow layout = .ok (ptr, after)) :
    (ptr = 0 ∧ after = heap) ∨
      ∃ block later, ptr = block + 16 ∧ Allocates heap after map later layout block := by
  obtain ⟨⟨answer, middle⟩, findEq, outcome⟩ := bind_eq_ok.mp outcome
  cases answer with
  | none =>
    left
    cases outcome
    exact ⟨rfl, findFit_none findEq⟩
  | some pair =>
    right
    obtain ⟨block, location⟩ := pair
    obtain ⟨middleMap, found⟩ := holds.findFit contiguous findEq
    obtain ⟨ptrEq, later, handsOut⟩ := found.holds.splitBlock found.member found.isFree
      found.fits (fits block location middle findEq) outcome
    refine ⟨location, later, ptrEq, ?_⟩
    constructor
    · rw [handsOut.sameEnd]
      exact handsOut.holds
    · exact handsOut.sameHead.trans found.sameHead
    · rw [handsOut.sameEnd]
      exact found.longer
    · intro this
      rw [handsOut.used, found.sameUsed.used]
    · rw [← found.sameUsed.used]
      exact handsOut.fresh
    · intro this isUsed
      rw [handsOut.size this ((found.sameUsed.used this).mpr isUsed),
        found.sameUsed.size this isUsed]
    · exact handsOut.enough
    · exact found.fits.aligned
    · exact (found.keeps.mono handsOut.grows).trans handsOut.keeps
    · exact fun coalesced => handsOut.coalesced (found.coalesced coalesced)

/-- Word-aligned requests never take the aligned split. -/
theorem Holds.allocFits_of_small (holds : Holds heap heap.heapEnd [] map)
    (contiguous : Contiguous grow heap.heapEnd) (small : layout.align ≤ 8) :
    AllocFits heap grow layout := by
  intro block location middle outcome different
  obtain ⟨later, found⟩ := holds.findFit contiguous outcome
  exact absurd (found.fits.inPlace small).symm different

end NanoOs.KernelAllocator
