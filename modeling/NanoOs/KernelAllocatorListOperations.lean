import NanoOs.KernelAllocatorHeaders
import Mathlib.Data.List.Pairwise

/-!
# Effect of the allocator's list operations

`Agrees` connects the bytes of the heap with decoded headers, and `Yields`
describes the outcome of an operation by the expected cells and the decoded
headers it leaves.  The operations on the two lists of the allocator are shown
never to fault on listed blocks and to have exactly the effect of the
corresponding linked-list edit.
-/

namespace NanoOs.KernelAllocator

open LinkedLists Function LinkedListAllocator Headers

/-- The stored headers of the listed blocks decode to `headers`.  Blocks are
listed in address order and their headers do not overlap. -/
structure Agrees (memory : ByteMemory) (blocks : List Nat) (headers : Headers) : Prop where
  loads : ∀ this ∈ blocks, BlockHeader.load memory this = headers.raw this
  storable : ∀ this ∈ blocks, headers.Storable this
  apart : blocks.Pairwise fun first second => first + 16 ≤ second
  inHeap : ∀ this ∈ blocks, HeapPointer this

def KeepsPayload (blocks : List Nat) (before after : ByteMemory) : Prop :=
  ∀ location, (∀ this ∈ blocks, location < this ∨ this + 16 ≤ location) →
    after location = before location

/-- The call returns the expected cells, up to memory, and leaves the decoded
headers, changing nothing outside the listed headers. -/
def Yields (outcome : Checked LinkedListAllocator) (expected : LinkedListAllocator)
    (blocks : List Nat) (headers : Headers) : Prop :=
  ∃ memory, outcome = .ok { expected with memory := memory } ∧
    Agrees memory blocks headers ∧ KeepsPayload blocks expected.memory memory

variable {memory : ByteMemory} {heap : LinkedListAllocator} {blocks : List Nat}
  {headers changed : Headers} {this pointer : Nat}

theorem KeepsPayload.trans {first second third : ByteMemory}
    (former : KeepsPayload blocks first second) (latter : KeepsPayload blocks second third) :
    KeepsPayload blocks first third := by
  intro location outside
  rw [latter location outside, former location outside]

theorem Agrees.apart_of_ne {other : Nat} (agrees : Agrees memory blocks headers)
    (member : this ∈ blocks) (otherMember : other ∈ blocks) (different : this ≠ other) :
    this + 16 ≤ other ∨ other + 16 ≤ this := by
  have symmetric : Std.Symm fun first second : Nat =>
      first + 16 ≤ second ∨ second + 16 ≤ first :=
    ⟨fun _ _ => Or.symm⟩
  have eitherWay : blocks.Pairwise fun first second =>
      first + 16 ≤ second ∨ second + 16 ≤ first :=
    agrees.apart.imp Or.inl
  exact eitherWay.forall member otherMember different

theorem Agrees.nodup (agrees : Agrees memory blocks headers) : blocks.Nodup :=
  agrees.apart.imp fun {first second} apart => by omega

theorem Yields.ok (agrees : Agrees heap.memory blocks headers) :
    Yields (.ok heap) heap blocks headers :=
  ⟨heap.memory, rfl, agrees, fun _ _ => rfl⟩

theorem Yields.bind {outcome : Checked LinkedListAllocator}
    {rest : LinkedListAllocator → Checked LinkedListAllocator}
    {expected final : LinkedListAllocator}
    (first : Yields outcome expected blocks headers)
    (second : ∀ memory, Agrees memory blocks headers →
      Yields (rest { expected with memory := memory }) { final with memory := memory }
        blocks changed)
    (sameStart : final.memory = expected.memory) :
    Yields (outcome >>= rest) final blocks changed := by
  obtain ⟨middle, outcomeEq, agrees, keeps⟩ := first
  obtain ⟨last, restEq, agreesLast, keepsLast⟩ := second middle agrees
  refine ⟨last, ?_, agreesLast, ?_⟩
  · rw [outcomeEq, ok_bind, restEq]
  · rw [sameStart]
    exact keeps.trans keepsLast

def Headers.SameElsewhere (headers changed : Headers) (this : Nat) : Prop :=
  ∀ other, other ≠ this →
    changed.size other = headers.size other ∧ changed.prev other = headers.prev other ∧
      changed.freeNext other = headers.freeNext other ∧
      changed.freePrev other = headers.freePrev other ∧
      changed.used other = headers.used other

theorem Agrees.put (agrees : Agrees memory blocks headers) (member : this ∈ blocks)
    (same : headers.SameElsewhere changed this) (storable : changed.Storable this) :
    Agrees (BlockHeader.store memory this (changed.raw this)) blocks changed := by
  refine ⟨?_, ?_, agrees.apart, agrees.inHeap⟩
  · intro other otherMember
    by_cases equal : other = this
    · subst equal
      exact BlockHeader.load_store_same memory other storable.fits
    · obtain ⟨sizeEq, prevEq, freeNextEq, freePrevEq, usedEq⟩ := same other equal
      rw [BlockHeader.load_store_apart memory _
        (agrees.apart_of_ne member otherMember (Ne.symm equal)), agrees.loads other otherMember]
      simp only [raw, sizeEq, prevEq, freeNextEq, freePrevEq, usedEq]
  · intro other otherMember
    by_cases equal : other = this
    · exact equal ▸ storable
    · obtain ⟨sizeEq, prevEq, freeNextEq, freePrevEq, -⟩ := same other equal
      obtain ⟨size, prev, freeNext, freePrev⟩ := agrees.storable other otherMember
      exact ⟨sizeEq ▸ size, prevEq ▸ prev, freeNextEq ▸ freeNext, freePrevEq ▸ freePrev⟩

theorem keepsPayload_store (member : this ∈ blocks) (header : BlockHeader) :
    KeepsPayload blocks memory (BlockHeader.store memory this header) := by
  intro location outside
  exact BlockHeader.store_outside memory header (outside this member)

section

variable (agrees : Agrees heap.memory blocks headers) (member : this ∈ blocks)

include agrees member

theorem Agrees.yieldsPut (same : headers.SameElsewhere changed this)
    (storable : changed.Storable this) :
    Yields (.ok (heap.putHeader this (changed.raw this))) heap blocks changed :=
  ⟨_, rfl, agrees.put member same storable, keepsPayload_store member _⟩

theorem Agrees.yieldsEdit {edit : BlockHeader → Checked BlockHeader}
    (edited : edit (headers.raw this) = .ok (changed.raw this))
    (same : headers.SameElsewhere changed this) (storable : changed.Storable this) :
    Yields (heap.editHeader this edit) heap blocks changed := by
  have outcome : heap.editHeader this edit = .ok (heap.putHeader this (changed.raw this)) := by
    unfold editHeader header
    rw [agrees.loads this member, edited, ok_bind]
  rw [outcome]
  exact agrees.yieldsPut member same storable

theorem Agrees.setPrev (link : StorableLink pointer) :
    Yields (heap.editHeader this (·.setPrev pointer)) heap blocks
      (headers.setPrev this pointer) := by
  have storable := agrees.storable this member
  apply agrees.yieldsEdit member (setPrev_raw link)
  · intro other different
    simp [Headers.setPrev, different]
  · exact ⟨storable.size, by simpa [Headers.setPrev] using link, storable.freeNext,
      storable.freePrev⟩

theorem Agrees.setFreeNext (link : StorableLink pointer) :
    Yields (heap.editHeader this (·.setFreeNext pointer)) heap blocks
      (headers.setFreeNext this pointer) := by
  have storable := agrees.storable this member
  apply agrees.yieldsEdit member (setFreeNext_raw link)
  · intro other different
    simp [Headers.setFreeNext, different]
  · exact ⟨storable.size, storable.prev, by simpa [Headers.setFreeNext] using link,
      storable.freePrev⟩

theorem Agrees.setFreePrev (link : StorableLink pointer) :
    Yields (heap.editHeader this (·.setFreePrev pointer)) heap blocks
      (headers.setFreePrev this pointer) := by
  have storable := agrees.storable this member
  apply agrees.yieldsEdit member (setFreePrev_raw storable link)
  · intro other different
    simp [Headers.setFreePrev, different]
  · exact ⟨storable.size, storable.prev, storable.freeNext,
      by simpa [Headers.setFreePrev] using link⟩

theorem Agrees.setSize {size : Nat} (fits : size < 2 ^ 32) :
    Yields (heap.editHeader this (fun header => .ok (header.setSize size))) heap blocks
      (headers.setSize this size) := by
  have storable := agrees.storable this member
  apply agrees.yieldsEdit member
  · exact congrArg Except.ok (setSize_raw fits)
  · intro other different
    simp [Headers.setSize, different]
  · exact ⟨by simpa [Headers.setSize] using fits, storable.prev, storable.freeNext,
      storable.freePrev⟩

theorem Agrees.addSize {size : Nat} (fits : headers.size this + size < 2 ^ 32) :
    Yields (heap.editHeader this (·.addSize size)) heap blocks
      (headers.setSize this (headers.size this + size)) := by
  have storable := agrees.storable this member
  apply agrees.yieldsEdit member (addSize_raw fits)
  · intro other different
    simp [Headers.setSize, different]
  · exact ⟨by simpa [Headers.setSize] using fits, storable.prev, storable.freeNext,
      storable.freePrev⟩

theorem Agrees.setUsed :
    Yields (heap.editHeader this (fun header => .ok header.setUsed)) heap blocks
      (headers.setUsed this true) := by
  have storable := agrees.storable this member
  apply agrees.yieldsEdit member
  · exact congrArg Except.ok (setUsed_raw storable)
  · intro other different
    simp [Headers.setUsed, different]
  · exact ⟨storable.size, storable.prev, storable.freeNext, storable.freePrev⟩

theorem Agrees.setFree :
    Yields (heap.editHeader this (fun header => .ok header.setFree)) heap blocks
      (headers.setUsed this false) := by
  have storable := agrees.storable this member
  apply agrees.yieldsEdit member
  · exact congrArg Except.ok (setFree_raw storable)
  · intro other different
    simp [Headers.setUsed, different]
  · exact ⟨storable.size, storable.prev, storable.freeNext, storable.freePrev⟩

theorem Agrees.header_freePrev : (heap.header this).freePrev = .ok (headers.freePrev this) := by
  unfold header
  rw [agrees.loads this member, (agrees.storable this member).freePrev_raw]

theorem Agrees.header_freeNext : (heap.header this).freeNext = .ok (headers.freeNext this) := by
  unfold header
  rw [agrees.loads this member, (agrees.storable this member).freeNext_raw]

theorem Agrees.header_prev : (heap.header this).prev = .ok (headers.prev this) := by
  unfold header
  rw [agrees.loads this member, (agrees.storable this member).prev_raw]

theorem Agrees.header_size : (heap.header this).size = headers.size this := by
  unfold header
  rw [agrees.loads this member]
  rfl

theorem Agrees.header_isFree : (heap.header this).isFree = !headers.used this := by
  unfold header
  rw [agrees.loads this member, (agrees.storable this member).isFree_raw]

theorem Agrees.header_isUsed : (heap.header this).isUsed = headers.used this := by
  unfold header
  rw [agrees.loads this member, (agrees.storable this member).isUsed_raw]

theorem Agrees.header_next (fits : this + headers.size this + 16 < 2 ^ 64) :
    (heap.header this).next this = .ok (this + headers.size this + 16) := by
  unfold header BlockHeader.next
  rw [agrees.loads this member]
  simp only [raw]
  rw [checkedAdd_bind (by omega)]
  exact checkedAdd_of_lt fits

theorem Agrees.header_endPtr (fits : this + 16 + headers.size this < 2 ^ 64) :
    (heap.header this).endPtr this = .ok (this + 16 + headers.size this) := by
  unfold header BlockHeader.endPtr blockHeaderSize
  rw [agrees.loads this member]
  rw [checkedAdd_bind (by omega)]
  exact checkedAdd_of_lt fits

end

def LinkInto (blocks : List Nat) (pointer : Nat) : Prop := pointer = 0 ∨ pointer ∈ blocks

theorem Agrees.storableLink (agrees : Agrees memory blocks headers)
    (link : LinkInto blocks pointer) : StorableLink pointer := by
  rcases link with rfl | member
  · exact storableLink_zero
  · exact (agrees.inHeap pointer member).storable

section

variable (agrees : Agrees heap.memory blocks headers) (member : this ∈ blocks)

include agrees member

theorem Agrees.insertFreeBlock (freeLink : LinkInto blocks heap.freeHead) :
    Yields (heap.insertFreeBlock this) { heap with freeHead := this } blocks
      (headers.withFreeLinks ((headers.freeLinks heap.freeHead).insertFront 0 this)) := by
  refine (agrees.setFreeNext member (agrees.storableLink freeLink)).bind
    (fun second agreesSecond => ?_) rfl
  refine Yields.bind (Agrees.setFreePrev agreesSecond member storableLink_zero)
    (fun third agreesThird => ?_) rfl
  by_cases empty : heap.freeHead = 0
  · simp only [empty, ne_eq, not_true_eq_false, if_false, ok_bind]
    apply Yields.ok
    simpa [withFreeLinks, freeLinks, DoubleLinks.insertFront, empty,
      Headers.setFreeNext, Headers.setFreePrev] using agreesThird
  · simp only [ne_eq, empty, not_false_eq_true, if_true]
    refine Yields.bind (Agrees.setFreePrev agreesThird (freeLink.resolve_left empty)
      (agrees.inHeap this member).storable) (fun fourth agreesFourth => ?_) rfl
    apply Yields.ok
    simpa [withFreeLinks, freeLinks, DoubleLinks.insertFront, empty,
      Headers.setFreeNext, Headers.setFreePrev] using agreesFourth

theorem Agrees.removeFreeBlock (prevLink : LinkInto blocks (headers.freePrev this))
    (nextLink : LinkInto blocks (headers.freeNext this)) (prevNe : headers.freePrev this ≠ this) :
    Yields (heap.removeFreeBlock this)
      { heap with freeHead := ((headers.freeLinks heap.freeHead).unlink 0 this).first }
      blocks (headers.withFreeLinks ((headers.freeLinks heap.freeHead).unlink 0 this)) := by
  unfold LinkedListAllocator.removeFreeBlock
  rw [agrees.header_freePrev member, ok_bind, agrees.header_freeNext member]
  let bypassed : Headers := { headers with
    freeNext := if headers.freePrev this = 0 then headers.freeNext
      else update headers.freeNext (headers.freePrev this) (headers.freeNext this) }
  have firstStep : Yields
      (if headers.freePrev this ≠ 0 then
        heap.editHeader (headers.freePrev this) (·.setFreeNext (headers.freeNext this))
      else .ok { heap with freeHead := headers.freeNext this })
      { heap with freeHead := ((headers.freeLinks heap.freeHead).unlink 0 this).first }
      blocks bypassed := by
    by_cases atFront : headers.freePrev this = 0
    · simp only [atFront, ne_eq, not_true_eq_false, if_false, bypassed, if_true,
        freeLinks, DoubleLinks.unlink]
      exact Yields.ok agrees
    · simp only [ne_eq, atFront, not_false_eq_true, if_true, bypassed, if_false,
        freeLinks, DoubleLinks.unlink]
      exact agrees.setFreeNext (prevLink.resolve_left atFront) (agrees.storableLink nextLink)
  have bypassedNext : bypassed.freeNext this = headers.freeNext this := by
    simp only [bypassed]
    split
    · rfl
    · exact update_of_ne (Ne.symm prevNe) _ _
  refine firstStep.bind (fun second agreesSecond => ?_) rfl
  rw [Agrees.header_freeNext agreesSecond member, ok_bind, bypassedNext,
    Agrees.header_freePrev agreesSecond member]
  let detached : Headers := { bypassed with
    freePrev := if headers.freeNext this = 0 then headers.freePrev
      else update headers.freePrev (headers.freeNext this) (headers.freePrev this) }
  have secondStep : Yields
      (if headers.freeNext this ≠ 0 then
        editHeader
          { heap with
            memory := second
            freeHead := ((headers.freeLinks heap.freeHead).unlink 0 this).first }
          (headers.freeNext this) (·.setFreePrev (headers.freePrev this))
      else .ok
        { heap with
          memory := second
          freeHead := ((headers.freeLinks heap.freeHead).unlink 0 this).first })
      { heap with
        memory := second
        freeHead := ((headers.freeLinks heap.freeHead).unlink 0 this).first }
      blocks detached := by
    by_cases atBack : headers.freeNext this = 0
    · simp only [atBack, ne_eq, not_true_eq_false, if_false, detached, if_true]
      exact Yields.ok agreesSecond
    · simp only [ne_eq, atBack, not_false_eq_true, if_true, detached, if_false]
      exact Agrees.setFreePrev agreesSecond (nextLink.resolve_left atBack)
        (agrees.storableLink prevLink)
  refine secondStep.bind (fun third agreesThird => ?_) rfl
  refine Yields.bind (Agrees.setFreeNext agreesThird member storableLink_zero)
    (fun fourth agreesFourth => ?_) rfl
  change Yields _ _ blocks ((detached.setFreeNext this 0).setFreePrev this 0)
  exact Agrees.setFreePrev agreesFourth member storableLink_zero

theorem Agrees.appendToList (tailMember : heap.tail ∈ blocks) :
    Yields (heap.appendToList this) { heap with tail := this } blocks
      (headers.setPrev this heap.tail) := by
  refine (agrees.setPrev member (agrees.inHeap heap.tail tailMember).storable).bind
    (fun second agreesSecond => ?_) rfl
  exact Yields.ok agreesSecond

theorem Agrees.insertAfter_tail {fresh : Nat} (freshMember : fresh ∈ blocks)
    (atTail : this = heap.tail) (fits : this + headers.size this + 16 < 2 ^ 64) :
    Yields (heap.insertAfter this fresh) { heap with tail := fresh } blocks
      (headers.setPrev fresh this) := by
  unfold insertAfter
  rw [agrees.header_next member fits, ok_bind, if_neg (not_not_intro atTail), ok_bind]
  exact Agrees.setPrev agrees freshMember (agrees.inHeap this member).storable

theorem Agrees.insertAfter_inner {fresh : Nat} (freshMember : fresh ∈ blocks)
    (inner : this ≠ heap.tail) (nextMember : this + headers.size this + 16 ∈ blocks) :
    Yields (heap.insertAfter this fresh) heap blocks
      ((headers.setPrev (this + headers.size this + 16) fresh).setPrev fresh this) := by
  have fits := (agrees.inHeap _ nextMember).2.1
  unfold insertAfter
  rw [agrees.header_next member fits, ok_bind, if_pos inner]
  refine (agrees.setPrev nextMember (agrees.inHeap fresh freshMember).storable).bind
    (fun second agreesSecond => ?_) rfl
  exact Agrees.setPrev agreesSecond freshMember (agrees.inHeap this member).storable

theorem Agrees.removeFromList_tail (prevMember : headers.prev this ∈ blocks)
    (atTail : this = heap.tail) (fits : this + headers.size this + 16 < 2 ^ 64) :
    Yields (heap.removeFromList this) { heap with tail := headers.prev this } blocks
      headers := by
  have prevNe := (agrees.inHeap _ prevMember).ne_zero
  unfold removeFromList
  rw [agrees.header_next member fits, ok_bind, agrees.header_prev member, ok_bind,
    ensure_bind prevNe, if_neg (not_not_intro atTail)]
  exact Yields.ok agrees

theorem Agrees.removeFromList_inner (prevMember : headers.prev this ∈ blocks)
    (inner : this ≠ heap.tail) (nextMember : this + headers.size this + 16 ∈ blocks) :
    Yields (heap.removeFromList this) heap blocks
      (headers.setPrev (this + headers.size this + 16) (headers.prev this)) := by
  have prevNe := (agrees.inHeap _ prevMember).ne_zero
  have fits := (agrees.inHeap _ nextMember).2.1
  unfold removeFromList
  rw [agrees.header_next member fits, ok_bind, agrees.header_prev member, ok_bind,
    ensure_bind prevNe, if_pos inner]
  exact agrees.setPrev nextMember (agrees.inHeap _ prevMember).storable

end

end NanoOs.KernelAllocator
