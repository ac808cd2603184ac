import NanoOs.KernelAllocatorHeaders

/-!
# Editing links in raw memory

The list operations of the allocator write link words of a few headers. Every other
header stays as it is, and also the edited ones keep their size and their use bit.
Nothing is assumed here about the rest of the heap.
-/

namespace NanoOs.KernelAllocator

open LinkedListAllocator BlockHeader

def Apart (first second : Nat) : Prop := first + 16 ≤ second ∨ second + 16 ≤ first

def SameBlock (before after : BlockHeader) : Prop :=
  after.rawSize = before.rawSize ∧ after.rawFreePrev % 2 = before.rawFreePrev % 2

/-- From one memory to the other, only links of the given headers change. -/
structure Relinks (before after : ByteMemory) (touched : List Nat) : Prop where
  apart : ∀ other, (∀ this ∈ touched, Apart this other) →
    BlockHeader.load after other = BlockHeader.load before other
  clear : ∀ other, (∀ this ∈ touched, this = other ∨ Apart this other) →
    SameBlock (BlockHeader.load before other) (BlockHeader.load after other)

section Headers

variable {header changed : BlockHeader} {pointer : Nat}

theorem SameBlock.refl (header : BlockHeader) : SameBlock header header := ⟨rfl, rfl⟩

theorem SameBlock.trans {last : BlockHeader} (first : SameBlock header changed)
    (second : SameBlock changed last) : SameBlock header last :=
  ⟨second.1.trans first.1, second.2.trans first.2⟩

theorem BlockHeader.isUsed_eq (header : BlockHeader) :
    header.isUsed = decide (header.rawFreePrev % 2 = 1) := by
  unfold isUsed
  rw [Nat.and_one_is_mod]
  rcases Nat.mod_two_eq_zero_or_one header.rawFreePrev with even | odd
  · rw [even]
    rfl
  · rw [odd]
    rfl

theorem BlockHeader.isFree_eq (header : BlockHeader) : header.isFree = !header.isUsed := by
  unfold isFree isUsed
  rw [bne, Bool.not_not]

theorem SameBlock.isUsed (same : SameBlock header changed) : changed.isUsed = header.isUsed := by
  rw [isUsed_eq, isUsed_eq, same.2]

theorem BlockHeader.load_fits (memory : ByteMemory) (this : Nat) :
    (load memory this).Fits :=
  ⟨memory.readWord_lt _ _, memory.readWord_lt _ _, memory.readWord_lt _ _, memory.readWord_lt _ _⟩

theorem BlockHeader.new_fits (size : Nat) (used : Bool) : (BlockHeader.new size used).Fits := by
  have null : nullOffset < 2 ^ 32 := by decide
  refine ⟨Nat.mod_lt _ (by decide), null, null, ?_⟩
  cases used with
  | false => exact null
  | true => exact (by decide : nullOffset ||| 1 < 2 ^ 32)

theorem setPrev_eq (link : StorableLink pointer) :
    header.setPrev pointer = .ok { header with rawPrev := linkOffset pointer } := by
  unfold setPrev
  rw [toOffset_eq link, ok_bind]

theorem setFreeNext_eq (link : StorableLink pointer) :
    header.setFreeNext pointer = .ok { header with rawFreeNext := linkOffset pointer } := by
  unfold setFreeNext
  rw [toOffset_eq link, ok_bind]

theorem setFreePrev_eq (link : StorableLink pointer) :
    header.setFreePrev pointer =
      .ok { header with rawFreePrev := linkOffset pointer + header.rawFreePrev % 2 } := by
  have encoded := toOffset_eq link
  have merged := Headers.or_even (linkOffset_even link) (Nat.mod_lt header.rawFreePrev two_pos)
  have mask : offsetLowerBitsMask = 1 := rfl
  unfold setFreePrev
  rw [mask, Nat.and_one_is_mod]
  unfold toOffset at encoded
  by_cases null : pointer = 0
  · rw [if_pos null] at encoded ⊢
    rw [Except.ok.inj encoded, merged]
  · rw [if_neg null] at encoded ⊢
    obtain ⟨offset, subtracted, truncated⟩ := bind_eq_ok.mp encoded
    rw [subtracted, ok_bind, Except.ok.inj truncated, merged]

theorem freePrev_of_eq (link : StorableLink pointer)
    (stored : header.rawFreePrev = linkOffset pointer + header.rawFreePrev % 2) :
    header.freePrev = .ok pointer := by
  have bound := linkOffset_lt link
  have decoded := fromOffset_linkOffset link
  have masked : header.rawFreePrev &&& nullOffset = linkOffset pointer := by
    have mask : nullOffset = 2 ^ 32 - 2 ^ 1 := rfl
    rw [mask, and_highMask (by omega) (by omega)]
    omega
  unfold freePrev
  simp only [masked]
  exact decoded

end Headers

section Memory

variable {before middle after : ByteMemory} {this : Nat} {changed : BlockHeader}
  {touched more : List Nat}

theorem Relinks.refl (memory : ByteMemory) : Relinks memory memory touched :=
  ⟨fun _ _ => rfl, fun _ _ => SameBlock.refl _⟩

theorem Relinks.trans (first : Relinks before middle touched) (second : Relinks middle after more) :
    Relinks before after (touched ++ more) := by
  constructor
  · intro other apart
    rw [second.apart other fun this member => apart this (List.mem_append_right _ member),
      first.apart other fun this member => apart this (List.mem_append_left _ member)]
  · intro other clear
    exact (first.clear other fun this member => clear this (List.mem_append_left _ member)).trans
      (second.clear other fun this member => clear this (List.mem_append_right _ member))

theorem Relinks.mono (relinks : Relinks before after touched) (subset : touched ⊆ more) :
    Relinks before after more :=
  ⟨fun other apart => relinks.apart other fun this member => apart this (subset member),
    fun other clear => relinks.clear other fun this member => clear this (subset member)⟩

theorem relinks_store (fits : changed.Fits)
    (same : SameBlock (load before this) changed) :
    Relinks before (store before this changed) [this] := by
  constructor
  · intro other apart
    exact load_store_apart before changed (apart this (List.mem_singleton_self this))
  · intro other clear
    rcases clear this (List.mem_singleton_self this) with rfl | apart
    · rw [load_store_same before this fits]
      exact same
    · rw [load_store_apart before changed apart]
      exact SameBlock.refl _

end Memory

section Edits

variable {heap : LinkedListAllocator} {this pointer : Nat}

/-- The call returns a heap whose memory has only changed links of the given headers,
where the header at an address is as given. -/
def Edits (outcome : Checked LinkedListAllocator) (heap : LinkedListAllocator)
    (touched : List Nat) (this : Nat) (changed : BlockHeader) : Prop :=
  ∃ memory, outcome = .ok { heap with memory := memory } ∧ Relinks heap.memory memory touched ∧
    BlockHeader.load memory this = changed

theorem edits_of_links {edit : BlockHeader → Checked BlockHeader} {changed : BlockHeader}
    (edited : edit (heap.header this) = .ok changed) (fits : changed.Fits)
    (same : SameBlock (heap.header this) changed) :
    Edits (heap.editHeader this edit) heap [this] this changed := by
  refine ⟨_, ?_, relinks_store fits same, load_store_same _ _ fits⟩
  unfold editHeader
  rw [edited, ok_bind]
  rfl

theorem edits_setPrev (link : StorableLink pointer) :
    Edits (heap.editHeader this (·.setPrev pointer)) heap [this] this
      { heap.header this with rawPrev := linkOffset pointer } := by
  have old := load_fits heap.memory this
  have bound := linkOffset_lt link
  exact edits_of_links (setPrev_eq link)
    ⟨old.size, Nat.lt_of_lt_of_le bound (by decide), old.freeNext, old.freePrev⟩ ⟨rfl, rfl⟩

theorem edits_setFreeNext (link : StorableLink pointer) :
    Edits (heap.editHeader this (·.setFreeNext pointer)) heap [this] this
      { heap.header this with rawFreeNext := linkOffset pointer } := by
  have old := load_fits heap.memory this
  have bound := linkOffset_lt link
  exact edits_of_links (setFreeNext_eq link)
    ⟨old.size, old.prev, Nat.lt_of_lt_of_le bound (by decide), old.freePrev⟩ ⟨rfl, rfl⟩

theorem edits_setFreePrev (link : StorableLink pointer) :
    Edits (heap.editHeader this (·.setFreePrev pointer)) heap [this] this
      { heap.header this with
        rawFreePrev := linkOffset pointer + (heap.header this).rawFreePrev % 2 } := by
  have old := load_fits heap.memory this
  have bound := linkOffset_lt link
  have even := linkOffset_even link
  refine edits_of_links (setFreePrev_eq link) ⟨old.size, old.prev, old.freeNext, ?_⟩ ⟨rfl, ?_⟩
  · dsimp only
    omega
  · dsimp only
    omega

theorem Relinks.header_apart {memory : ByteMemory} {edited other : Nat}
    (relinks : Relinks heap.memory memory [edited]) (apart : Apart edited other) :
    load memory other = heap.header other := by
  refine relinks.apart other fun this member => ?_
  rwa [List.mem_singleton.mp member]

theorem insertFreeBlock_relinks (valid : HeapPointer this) (link : StorableLink heap.freeHead)
    (apart : heap.freeHead = 0 ∨ Apart heap.freeHead this) : ∃ memory,
    heap.insertFreeBlock this = .ok { heap with memory := memory, freeHead := this } ∧
      Relinks heap.memory memory [this, heap.freeHead] ∧
      (load memory this).freeNext = .ok heap.freeHead ∧
      (load memory this).freePrev = .ok 0 ∧
      (heap.freeHead ≠ 0 →
        (load memory heap.freeHead).freePrev = .ok this ∧
        (load memory heap.freeHead).freeNext = (heap.header heap.freeHead).freeNext) := by
  obtain ⟨first, firstEq, firstRelinks, firstHeader⟩ := edits_setFreeNext link
  obtain ⟨second, secondEq, secondRelinks, secondHeader⟩ :=
    @edits_setFreePrev { heap with memory := first } this 0 storableLink_zero
  have both := firstRelinks.trans secondRelinks
  have next : (load second this).freeNext = .ok heap.freeHead := by
    rw [secondHeader]
    unfold header
    rw [firstHeader]
    exact fromOffset_linkOffset link
  have prev : (load second this).freePrev = .ok 0 := by
    refine freePrev_of_eq storableLink_zero ?_
    rw [secondHeader]
    dsimp only
    have even := linkOffset_even storableLink_zero
    omega
  unfold insertFreeBlock
  rw [firstEq, ok_bind]
  rw [secondEq, ok_bind]
  by_cases null : heap.freeHead = 0
  · rw [if_neg (not_not_intro null), ok_bind]
    exact ⟨second, rfl, both.mono (by simp), next, prev, fun proper => absurd null proper⟩
  · obtain ⟨third, thirdEq, thirdRelinks, thirdHeader⟩ :=
      @edits_setFreePrev { heap with memory := second } heap.freeHead this valid.storable
    have same := thirdRelinks.header_apart (apart.resolve_left null)
    have even := linkOffset_even valid.storable
    have headApart : Apart this heap.freeHead := (apart.resolve_left null).symm
    rw [if_pos null, thirdEq, ok_bind]
    refine ⟨third, rfl, (both.trans thirdRelinks).mono (by simp), ?_, ?_, fun _ => ⟨?_, ?_⟩⟩
    · rw [same]
      exact next
    · rw [same]
      exact prev
    · refine freePrev_of_eq valid.storable ?_
      rw [thirdHeader]
      dsimp only
      omega
    · rw [thirdHeader]
      unfold freeNext header
      rw [both.apart _ (by simpa using headApart)]

theorem insertAfter_relinks {next fresh : Nat} (following : (heap.header this).next this = .ok next)
    (thisLink : StorableLink this) (freshLink : StorableLink fresh) : ∃ memory tail,
    heap.insertAfter this fresh = .ok { heap with memory := memory, tail := tail } ∧
      Relinks heap.memory memory [next, fresh] := by
  unfold insertAfter
  rw [following, ok_bind]
  by_cases isTail : this = heap.tail
  · obtain ⟨memory, memoryEq, relinks, -⟩ :=
      @edits_setPrev { heap with tail := fresh } fresh this thisLink
    rw [if_neg (not_not_intro isTail), ok_bind]
    exact ⟨memory, fresh, memoryEq, relinks.mono (by simp)⟩
  · obtain ⟨first, firstEq, firstRelinks, -⟩ := @edits_setPrev heap next fresh freshLink
    obtain ⟨second, secondEq, secondRelinks, -⟩ :=
      @edits_setPrev { heap with memory := first } fresh this thisLink
    rw [if_pos isTail, firstEq, ok_bind]
    exact ⟨second, heap.tail, secondEq, firstRelinks.trans secondRelinks⟩

private theorem unlinkBefore {before after : Nat} (next : (heap.header this).freeNext = .ok after)
    (afterLink : StorableLink after) (apart : before = 0 ∨ Apart before this) :
    ∃ memory freeHead, (before ≠ 0 → freeHead = heap.freeHead) ∧
      (if before ≠ 0 then do
          let after ← (heap.header this).freeNext
          heap.editHeader before (·.setFreeNext after)
        else do
          let after ← (heap.header this).freeNext
          .ok { heap with freeHead := after }) =
        Except.ok { heap with memory := memory, freeHead := freeHead } ∧
      Relinks heap.memory memory [before] ∧ load memory this = heap.header this := by
  rw [next, ok_bind, ok_bind]
  by_cases null : before = 0
  · rw [if_neg (not_not_intro null)]
    exact ⟨heap.memory, after, fun proper => absurd null proper, rfl, Relinks.refl _, rfl⟩
  · obtain ⟨memory, memoryEq, relinks, -⟩ := @edits_setFreeNext heap before after afterLink
    rw [if_pos null]
    exact ⟨memory, heap.freeHead, fun _ => rfl, memoryEq, relinks,
      relinks.header_apart (apart.resolve_left null)⟩

private theorem unlinkAfter {before after : Nat} (prev : (heap.header this).freePrev = .ok before)
    (beforeLink : StorableLink before) (apart : after = 0 ∨ Apart after this) : ∃ memory,
      (if after ≠ 0 then do
          let before ← (heap.header this).freePrev
          heap.editHeader after (·.setFreePrev before)
        else
          .ok heap) = Except.ok { heap with memory := memory } ∧
      Relinks heap.memory memory [after] ∧ load memory this = heap.header this := by
  rw [prev, ok_bind]
  by_cases null : after = 0
  · rw [if_neg (not_not_intro null)]
    exact ⟨heap.memory, rfl, Relinks.refl _, rfl⟩
  · obtain ⟨memory, memoryEq, relinks, -⟩ := @edits_setFreePrev heap after before beforeLink
    rw [if_pos null]
    exact ⟨memory, memoryEq, relinks, relinks.header_apart (apart.resolve_left null)⟩

theorem removeFreeBlock_relinks {before after : Nat}
    (prev : (heap.header this).freePrev = .ok before)
    (next : (heap.header this).freeNext = .ok after)
    (beforeLink : StorableLink before) (afterLink : StorableLink after)
    (beforeApart : before = 0 ∨ Apart before this) (afterApart : after = 0 ∨ Apart after this) :
    ∃ memory freeHead, heap.removeFreeBlock this =
        .ok { heap with memory := memory, freeHead := freeHead } ∧
      Relinks heap.memory memory [before, after, this] ∧
      (before ≠ 0 → freeHead = heap.freeHead) := by
  obtain ⟨first, freeHead, sameHead, firstEq, firstRelinks, firstHeader⟩ :=
    unlinkBefore next afterLink beforeApart
  obtain ⟨second, secondEq, secondRelinks, -⟩ :=
    @unlinkAfter { heap with memory := first, freeHead := freeHead } this before after
      (by rw [← prev, ← firstHeader]; rfl) beforeLink afterApart
  obtain ⟨third, thirdEq, thirdRelinks, -⟩ :=
    @edits_setFreeNext { heap with memory := second, freeHead := freeHead } this 0 storableLink_zero
  obtain ⟨fourth, fourthEq, fourthRelinks, -⟩ :=
    @edits_setFreePrev { heap with memory := third, freeHead := freeHead } this 0 storableLink_zero
  have nextAgain : (header
      { heap with memory := first, freeHead := freeHead } this).freeNext = .ok after := by
    rw [← next, ← firstHeader]
    rfl
  refine ⟨fourth, freeHead, ?_,
    (((firstRelinks.trans secondRelinks).trans thirdRelinks).trans fourthRelinks).mono (by simp),
    sameHead⟩
  unfold removeFreeBlock
  rw [prev, ok_bind, firstEq, ok_bind, nextAgain, ok_bind, secondEq, ok_bind, thirdEq, ok_bind,
    fourthEq]

end Edits

end NanoOs.KernelAllocator
