import NanoOs.KernelAllocatorSplitting

/-!
# The search for a block

What `find_fit` returns: a free block of the heap, possibly grown, and a
location inside it where the requested memory fits.
-/

namespace NanoOs.KernelAllocator

open LinkedLists Function LinkedListAllocator

def roundedSize (size : Nat) : Nat := (size + 7) / 8 * 8

variable {address value fuel actualSize : Nat}

theorem alignUp_eq_ok {exponent : Nat} (small : exponent ≤ 64)
    (outcome : alignUp address (2 ^ exponent) = .ok value) :
    value = (address + 2 ^ exponent - 1) / 2 ^ exponent * 2 ^ exponent := by
  obtain ⟨raisedLt, outcome⟩ := checkedAdd_bind_eq_ok.mp outcome
  obtain ⟨-, outcome⟩ := checkedSub_bind_eq_ok.mp outcome
  obtain ⟨-, outcome⟩ := checkedSub_bind_eq_ok.mp outcome
  rw [and_complement_two_pow (by omega) small] at outcome
  exact (Except.ok.inj outcome).symm

theorem alignUp_eight (outcome : alignUp address 8 = .ok value) : value = roundedSize address := by
  have power := alignUp_eq_ok (show 3 ≤ 64 by omega) outcome
  unfold roundedSize
  omega

/-- A location inside a free block that ends at `finish` where the requested
memory fits behind a header.  Either the block itself is used or enough room
is left in front of the location for another block. -/
structure FitsAt (layout : Layout) (block finish location : Nat) : Prop where
  aligned : (location + 16) % layout.align = 0
  padding : location = block ∨ block + 32 ≤ location
  room : location + 16 + roundedSize layout.size ≤ finish
  multiple : location % 8 = 0
  inPlace : layout.align ≤ 8 → location = block

variable {heap after : LinkedListAllocator} {stop : Nat} {held blocks frees front : List Nat}
  {headers : Headers} {map : BlockMap} {layout : Layout} {block location : Nat}

theorem Layout.align_cases (layout : Layout) :
    (layout.align ≤ 8 ∧ layout.align ∣ 8) ∨ (8 < layout.align ∧ 16 ∣ layout.align) := by
  obtain ⟨exponent, powerEq⟩ := layout.powerOfTwo
  rw [powerEq]
  by_cases small : exponent ≤ 3
  · left
    have divides : 2 ^ exponent ∣ 2 ^ 3 := Nat.pow_dvd_pow 2 small
    exact ⟨Nat.le_of_dvd (by omega) divides, divides⟩
  · right
    have divides : 2 ^ 4 ∣ 2 ^ exponent := Nat.pow_dvd_pow 2 (by omega)
    have positive : 0 < 2 ^ exponent := Nat.two_pow_pos exponent
    exact ⟨by omega, divides⟩

theorem Layout.align_pos (layout : Layout) : 0 < layout.align := by
  obtain ⟨exponent, powerEq⟩ := layout.powerOfTwo
  rw [powerEq]
  exact Nat.two_pow_pos exponent

theorem Layout.alignUp_dvd (layout : Layout) (outcome : alignUp address layout.align = .ok value) :
    layout.align ∣ value := by
  obtain ⟨exponent, powerEq⟩ := layout.powerOfTwo
  have bounded := layout.bounded
  rw [powerEq] at outcome bounded ⊢
  have small : exponent ≤ 64 := by
    by_contra large
    have bigger : 2 ^ 64 ≤ 2 ^ exponent := Nat.pow_le_pow_right (by omega) (by omega)
    omega
  rw [alignUp_eq_ok small outcome]
  exact Dvd.intro_left _ rfl

/-- Every answer of the candidate search is aligned, leaves room for a leading
block unless it is the block itself, and fits with a trailing header. -/
theorem alignedFitFrom_spec {allocSize align aligned : Nat} (divides : align ∣ aligned)
    (outcome : alignedFitFrom block stop allocSize align fuel aligned = .ok (some location)) :
    align ∣ location + 16 ∧ (location = block ∨ block + 32 ≤ location) ∧
      roundedSize (location + 16 + allocSize) + 16 ≤ stop ∧ aligned ≤ location + 16 := by
  induction fuel generalizing aligned with
  | zero => cases outcome
  | succ fuel ih =>
    obtain ⟨-, outcome⟩ := checkedAdd_bind_eq_ok.mp outcome
    obtain ⟨rounded, roundedEq, outcome⟩ := bind_eq_ok.mp outcome
    obtain ⟨-, outcome⟩ := checkedAdd_bind_eq_ok.mp outcome
    obtain rfl := alignUp_eight roundedEq
    split at outcome
    · rename_i room
      obtain ⟨headerLe, outcome⟩ := checkedSub_bind_eq_ok.mp outcome
      obtain ⟨paddingLe, outcome⟩ := checkedSub_bind_eq_ok.mp outcome
      unfold blockHeaderSize at *
      have restored : aligned - 16 + 16 = aligned := by omega
      split at outcome
      · rename_i enough
        obtain rfl := Option.some.inj (Except.ok.inj outcome)
        unfold minBlockSize minAllocSize blockHeaderSize at enough
        refine ⟨by rwa [restored], by omega, by rwa [restored], by omega⟩
      · obtain ⟨-, outcome⟩ := checkedAdd_bind_eq_ok.mp outcome
        obtain ⟨dividesLocation, padding, fits, later⟩ :=
          ih (Nat.dvd_add divides (Nat.dvd_refl align)) outcome
        exact ⟨dividesLocation, padding, fits, by omega⟩
    · cases outcome

private theorem alignedFitFrom_self {allocSize align : Nat}
    (outcome : alignedFitFrom block stop allocSize align fuel (block + 16) =
      .ok (some location)) : location = block := by
  cases fuel with
  | zero => cases outcome
  | succ fuel =>
    obtain ⟨finish, -, outcome⟩ := bind_eq_ok.mp outcome
    obtain ⟨rounded, -, outcome⟩ := bind_eq_ok.mp outcome
    obtain ⟨needed, -, outcome⟩ := bind_eq_ok.mp outcome
    split at outcome
    · have headerEq : checkedSub (block + 16) blockHeaderSize = .ok block :=
        checkedSub_of_le (by unfold blockHeaderSize; omega)
      have paddingEq : checkedSub block block = .ok (block - block) :=
        checkedSub_of_le (Nat.le_refl block)
      rw [headerEq, ok_bind, paddingEq, ok_bind, if_pos (Or.inl (Nat.sub_self block))] at outcome
      exact (Option.some.inj (Except.ok.inj outcome)).symm
    · cases outcome

theorem Layout.alignUp_of_dvd (layout : Layout) (divides : layout.align ∣ address)
    (outcome : alignUp address layout.align = .ok value) : value = address := by
  obtain ⟨exponent, powerEq⟩ := layout.powerOfTwo
  have bounded := layout.bounded
  have positive := layout.align_pos
  obtain ⟨quotient, rfl⟩ := divides
  have small : exponent ≤ 64 := by
    by_contra large
    have bigger : 2 ^ 64 ≤ 2 ^ exponent := Nat.pow_le_pow_right (by omega) (by omega)
    omega
  have value := alignUp_eq_ok small (powerEq ▸ outcome)
  rw [← powerEq] at value
  have numerator : layout.align * quotient + layout.align - 1 =
      (layout.align - 1) + layout.align * quotient := by omega
  rw [value, numerator, Nat.add_mul_div_left _ _ positive,
    Nat.div_eq_of_lt (by omega), Nat.zero_add, Nat.mul_comm]

theorem alignedFit_spec (multiple : block % 8 = 0)
    (outcome : alignedFit block stop layout.size layout.align = .ok (some location)) :
    FitsAt layout block stop location := by
  obtain ⟨first, firstEq, search⟩ := bind_eq_ok.mp outcome
  obtain ⟨divides, padding, room, -⟩ := alignedFitFrom_spec (layout.alignUp_dvd firstEq) search
  have inPlace : layout.align ≤ 8 → location = block := by
    intro small
    have divisor : layout.align ∣ 8 := by
      rcases layout.align_cases with ⟨-, divisor⟩ | ⟨large, -⟩
      · exact divisor
      · omega
    have start : first = block + 16 := by
      apply layout.alignUp_of_dvd _ firstEq
      exact divisor.trans (Nat.dvd_of_mod_eq_zero
        (by unfold BlockHeader.allocAreaStart blockHeaderSize; omega))
    rw [start] at search
    exact alignedFitFrom_self search
  have locationMultiple : location % 8 = 0 := by
    rcases layout.align_cases with ⟨small, -⟩ | ⟨-, divisor⟩
    · rw [inPlace small]
      exact multiple
    · have sixteen := Nat.mod_eq_zero_of_dvd (divisor.trans divides)
      omega
  refine ⟨Nat.mod_eq_zero_of_dvd divides, padding, ?_, locationMultiple, inPlace⟩
  unfold roundedSize at room ⊢
  omega

theorem Agrees.fitIn_spec (agrees : Agrees heap.memory blocks headers) (member : block ∈ blocks)
    (fits : headers.following block < 2 ^ 64)
    (outcome : heap.fitIn layout block = .ok (some location)) :
    FitsAt layout block (headers.following block) location := by
  have multiple := (agrees.inHeap block member).2.2
  unfold fitIn at outcome
  split at outcome
  · rename_i small
    obtain ⟨needed, neededEq, outcome⟩ := bind_eq_ok.mp outcome
    obtain rfl := alignUp_eight neededEq
    rw [agrees.header_size member] at outcome
    have divides : layout.align ∣ block + 16 := by
      rcases layout.align_cases with ⟨-, divisor⟩ | ⟨large, -⟩
      · exact divisor.trans (Nat.dvd_of_mod_eq_zero (by omega))
      · omega
    split at outcome
    · rename_i enough
      obtain rfl := Option.some.inj (Except.ok.inj outcome)
      refine ⟨Nat.mod_eq_zero_of_dvd divides, Or.inl rfl, ?_, multiple, fun _ => rfl⟩
      unfold Headers.following
      omega
    · cases outcome
  · have endEq : block + 16 + headers.size block = headers.following block := by
      unfold Headers.following
      omega
    unfold LinkedListAllocator.checkAlignedFit at outcome
    rw [agrees.header_endPtr member (by omega), ok_bind, endEq] at outcome
    exact alignedFit_spec multiple outcome

theorem Agrees.searchFree_spec {current found : Nat} (agrees : Agrees heap.memory blocks headers)
    (walk : Segment headers.freeNext current frees 0)
    (listed : ∀ this ∈ frees, this ∈ blocks ∧ headers.following this < 2 ^ 64)
    (outcome : heap.searchFree layout fuel current = .ok (some (found, location))) :
    found ∈ frees ∧ FitsAt layout found (headers.following found) location := by
  induction frees generalizing current fuel with
  | nil =>
    cases fuel with
    | zero => cases outcome
    | succ fuel =>
      rw [segment_nil.mp walk] at outcome
      cases outcome
  | cons block rest ih =>
    obtain ⟨rfl, walk⟩ := walk
    obtain ⟨member, fits⟩ := listed current (by simp)
    cases fuel with
    | zero => cases outcome
    | succ fuel =>
      have nonzero := (agrees.inHeap current member).ne_zero
      unfold searchFree at outcome
      rw [if_neg nonzero] at outcome
      obtain ⟨answer, fitOutcome, outcome⟩ := bind_eq_ok.mp outcome
      cases answer with
      | some place =>
        obtain ⟨rfl, rfl⟩ := Prod.mk.inj (Option.some.inj (Except.ok.inj outcome))
        exact ⟨by simp, agrees.fitIn_spec member fits fitOutcome⟩
      | none =>
        rw [agrees.header_freeNext member, ok_bind] at outcome
        obtain ⟨inRest, fit⟩ :=
          ih walk (fun this inRest => listed this (by simp [inRest])) outcome
        exact ⟨by simp [inRest], fit⟩

/-- `grow_heap_fn` returns whole pages that continue the heap. -/
def Contiguous (grow : GrowHeap) (heapEnd : Nat) : Prop :=
  ∀ request newHeap actualSize, grow request = some (newHeap, actualSize) →
    newHeap = heapEnd ∧ actualSize % Memory.pageSize = 0

/-- What a search leaves behind: a heap with the same allocations, possibly
longer, and a free block with a fitting location in it. -/
structure Found (heap after : LinkedListAllocator) (map later : BlockMap) (layout : Layout)
    (block location : Nat) : Prop where
  holds : Holds after after.heapEnd [] later
  sameHead : after.head = heap.head
  longer : heap.heapEnd ≤ after.heapEnd
  sameUsed : map.SameUsed later
  coalesced : map.Coalesced → later.Coalesced
  keeps : KeepsPayload later.blocks heap.memory after.memory
  member : block ∈ later.blocks
  isFree : later.used block = false
  fits : FitsAt layout block (block + later.size block + 16) location

theorem Holds.withHeapEnd (holds : Holds heap stop held map) (heapEnd : Nat) :
    Holds { heap with heapEnd := heapEnd } stop held map := by
  obtain ⟨frees, headers, represents, sizeEq, usedEq⟩ := holds
  exact ⟨frees, headers, { represents with }, sizeEq, usedEq⟩

theorem Holds.findExisting (holds : Holds heap heap.heapEnd [] map)
    (outcome : heap.findExisting layout = .ok (some (block, location))) :
    Found heap heap map map layout block location := by
  have whole := holds
  obtain ⟨blocks, size, used⟩ := map
  obtain ⟨frees, headers, represents, rfl, rfl⟩ := holds
  have listed : ∀ this ∈ frees, this ∈ blocks ∧ headers.following this < 2 ^ 64 := by
    intro this inFrees
    have member := represents.free_subset inFrees
    exact ⟨member, lt_of_le_of_lt (represents.following_le member) represents.stopBound⟩
  obtain ⟨inFrees, fits⟩ :=
    represents.agrees.searchFree_spec represents.threads.forward listed outcome
  obtain ⟨member, isFree, -⟩ := (represents.free block).mp inFrees
  exact ⟨whole, rfl, Nat.le_refl _, BlockMap.SameUsed.refl _, id, fun _ _ => rfl, member, isFree,
    fits⟩

theorem expectFit_eq_ok {answer : Option Nat}
    (outcome : expectFit answer = .ok location) : answer = some location := by
  cases answer with
  | none => cases outcome
  | some place => exact congrArg some (Except.ok.inj outcome)

theorem Holds.checkAlignedFit (holds : Holds heap stop held map) (member : block ∈ map.blocks)
    (outcome : heap.checkAlignedFit block layout.size layout.align = .ok (some location)) :
    FitsAt layout block (block + map.size block + 16) location := by
  have endEq : block + 16 + map.size block = block + map.size block + 16 := by omega
  unfold LinkedListAllocator.checkAlignedFit at outcome
  rw [holds.header_endPtr member, ok_bind, endEq] at outcome
  exact alignedFit_spec (holds.pointer member).2.2 outcome

theorem Holds.tail_split (holds : Holds heap stop held map) :
    ∃ front, map.blocks = front ++ [heap.tail] ∧ heap.tail + map.size heap.tail + 16 = stop ∧
      (heap.header heap.tail).isFree = !map.used heap.tail ∧ heapStart ≤ heap.tail := by
  obtain ⟨blocks, size, used⟩ := map
  obtain ⟨frees, headers, represents, rfl, rfl⟩ := holds
  obtain ⟨front, split⟩ := List.getLast?_eq_some_iff.mp represents.lastIsTail
  subst split
  exact ⟨front, rfl, represents.stop_valid.2, represents.agrees.header_isFree (by simp),
    (represents.pointer (by simp)).1⟩

private theorem Holds.extendTail (holds : Holds heap stop [] map)
    (position : map.blocks = front ++ [heap.tail])
    (tailEnd : heap.tail + map.size heap.tail + 16 = stop) (lower : heapStart ≤ heap.tail)
    (whole : actualSize % Memory.pageSize = 0) (bound : stop + actualSize < 2 ^ 64) :
    Becomes (heap.editHeader heap.tail (·.addSize actualSize)) heap map.blocks
      (stop + actualSize) []
      { map with
        size := update map.size heap.tail (map.size heap.tail + actualSize) } := by
  have member : heap.tail ∈ map.blocks := by simp [position]
  have sizeOk := holds.sizes member
  unfold Memory.pageSize at whole
  unfold heapStart at lower
  rw [← tailEnd] at bound ⊢
  have stopEq : heap.tail + map.size heap.tail + 16 + actualSize =
      heap.tail + (map.size heap.tail + actualSize) + 16 := by omega
  rw [stopEq]
  refine holds.resizeTail position ⟨by omega, by omega⟩ (by omega) ?_
  intro headers agrees sizeEq
  have fits : headers.size heap.tail + actualSize < 2 ^ 32 := by
    rw [sizeEq]
    omega
  have added := agrees.addSize member fits
  rwa [sizeEq] at added

section

variable (holds : Holds heap heap.heapEnd [] map) (whole : actualSize % Memory.pageSize = 0)

include holds whole

private theorem Holds.extendRegion (bound : heap.heapEnd + actualSize < 2 ^ 64)
    (isFree : map.used heap.tail = false)
    (grownEq : editHeader
      { heap with heapEnd := heap.heapEnd + actualSize } heap.tail (·.addSize actualSize) =
        .ok after)
    (fitEq : after.checkAlignedFit heap.tail layout.size layout.align = .ok (some location)) :
    ∃ later, Found heap after map later layout heap.tail location := by
  have extended := holds.withHeapEnd (heap.heapEnd + actualSize)
  obtain ⟨front, position, tailEnd, -, lower⟩ := extended.tail_split
  obtain ⟨later, laterEq, laterHolds, laterHead, laterEnd, keeps⟩ :=
    extended.extendTail position tailEnd lower whole bound
  obtain rfl := Except.ok.inj (grownEq.symm.trans laterEq)
  have member : heap.tail ∈ map.blocks := by simp [position]
  refine ⟨{ map with
      size := update map.size heap.tail (map.size heap.tail + actualSize) },
    ?_, laterHead, ?_, ⟨fun _ => Iff.rfl, ?_⟩, id, keeps, member, isFree,
    laterHolds.checkAlignedFit member fitEq⟩
  · rw [laterEnd]
    exact laterHolds
  · rw [laterEnd]
    exact Nat.le_add_right _ _
  · rintro this ⟨-, used⟩
    apply update_of_ne
    rintro rfl
    rw [isFree] at used
    cases used

private theorem Holds.appendRegion {listed : LinkedListAllocator}
    (bound : heap.heapEnd + actualSize < 2 ^ 64) (headerLe : 16 ≤ actualSize)
    (isUsed : map.used heap.tail = true)
    (listedEq : LinkedListAllocator.insertFreeBlock
      (putHeader { heap with heapEnd := heap.heapEnd + actualSize } heap.heapEnd
        (BlockHeader.new (actualSize - 16) false)) heap.heapEnd = .ok listed)
    (linkedEq : listed.appendToList heap.heapEnd = .ok after)
    (fitEq : after.checkAlignedFit heap.heapEnd layout.size layout.align = .ok (some location)) :
    ∃ later, Found heap after map later layout heap.heapEnd location := by
  have extended := holds.withHeapEnd (heap.heapEnd + actualSize)
  obtain ⟨front, position, -, -, -⟩ := extended.tail_split
  unfold Memory.pageSize at whole
  have appended := extended.appendFree position
    (show 16 ≤ actualSize - 16 ∧ (actualSize - 16) % 8 = 0 by omega) (by omega)
    List.not_mem_nil (fun other headers agrees atTail _ => by
      rw [atTail] at agrees ⊢
      exact agrees.linksAfter_appendToList)
  obtain ⟨later, laterEq, laterHolds, laterHead, laterEnd, keeps⟩ := appended
  rw [listedEq, ok_bind] at laterEq
  obtain rfl := Except.ok.inj (linkedEq.symm.trans laterEq)
  have stopEq : heap.heapEnd + (actualSize - 16) + 16 = heap.heapEnd + actualSize := by omega
  rw [stopEq] at laterHolds
  have fresh : heap.heapEnd ∉ map.blocks := by
    intro member
    have := holds.following_le member
    omega
  refine ⟨_, ?_, laterHead, ?_, ⟨?_, ?_⟩, ?_, keeps, by simp, by simp,
    laterHolds.checkAlignedFit (by simp) fitEq⟩
  · rw [laterEnd]
    exact laterHolds
  · rw [laterEnd]
    exact Nat.le_add_right _ _
  · intro this
    unfold BlockMap.IsUsed
    by_cases equal : this = heap.heapEnd
    · simp [equal, fresh]
    · simp [equal, position]
  · rintro this ⟨member, -⟩
    apply update_of_ne
    rintro rfl
    exact fresh member
  · intro coalesced
    obtain ⟨blocks, size, used⟩ := map
    obtain rfl : blocks = front ++ [heap.tail] := position
    exact coalesced.append (Or.inl isUsed) fresh

theorem Holds.useNewRegion
    (outcome : heap.useNewRegion layout heap.heapEnd actualSize =
      .ok ((block, location), after)) :
    ∃ later, Found heap after map later layout block location := by
  obtain ⟨bound, outcome⟩ := checkedAdd_bind_eq_ok.mp outcome
  obtain ⟨front, -, -, tailFree, -⟩ := (holds.withHeapEnd (heap.heapEnd + actualSize)).tail_split
  dsimp only at outcome tailFree
  rw [tailFree] at outcome
  split at outcome
  · rename_i isFree
    obtain ⟨grown, grownEq, outcome⟩ := bind_eq_ok.mp outcome
    obtain ⟨answer, answerEq, outcome⟩ := bind_eq_ok.mp outcome
    obtain ⟨place, placeEq, outcome⟩ := bind_eq_ok.mp outcome
    cases outcome
    rw [expectFit_eq_ok placeEq] at answerEq
    exact holds.extendRegion whole bound (by simpa using isFree) grownEq answerEq
  · rename_i isUsed
    obtain ⟨headerLe, outcome⟩ := checkedSub_bind_eq_ok.mp outcome
    obtain ⟨listed, listedEq, outcome⟩ := bind_eq_ok.mp outcome
    obtain ⟨linked, linkedEq, outcome⟩ := bind_eq_ok.mp outcome
    obtain ⟨answer, answerEq, outcome⟩ := bind_eq_ok.mp outcome
    obtain ⟨place, placeEq, outcome⟩ := bind_eq_ok.mp outcome
    cases outcome
    rw [expectFit_eq_ok placeEq] at answerEq
    exact holds.appendRegion whole bound headerLe (by simpa using isUsed) listedEq linkedEq
      answerEq

end

theorem Holds.findFit {grow : GrowHeap} (holds : Holds heap heap.heapEnd [] map)
    (contiguous : Contiguous grow heap.heapEnd)
    (outcome : heap.findFit grow layout = .ok (some (block, location), after)) :
    ∃ later, Found heap after map later layout block location := by
  obtain ⟨existing, existingEq, outcome⟩ := bind_eq_ok.mp outcome
  cases existing with
  | some found =>
    obtain ⟨foundEq, rfl⟩ := Prod.mk.inj (Except.ok.inj outcome)
    cases foundEq
    exact ⟨map, holds.findExisting existingEq⟩
  | none =>
    dsimp only at outcome
    split at outcome
    · cases outcome
    · rename_i newHeap actualSize grown
      obtain ⟨rfl, whole⟩ := contiguous _ _ _ grown
      obtain ⟨⟨found, later⟩, regionEq, outcome⟩ := bind_eq_ok.mp outcome
      obtain ⟨foundEq, rfl⟩ := Prod.mk.inj (Except.ok.inj outcome)
      cases foundEq
      exact holds.useNewRegion whole regionEq

theorem findFit_none {grow : GrowHeap} (outcome : heap.findFit grow layout = .ok (none, after)) :
    after = heap := by
  obtain ⟨existing, -, outcome⟩ := bind_eq_ok.mp outcome
  cases existing with
  | some found => cases outcome
  | none =>
    dsimp only at outcome
    split at outcome
    · exact (Prod.mk.inj (Except.ok.inj outcome)).2.symm
    · obtain ⟨⟨found, later⟩, -, outcome⟩ := bind_eq_ok.mp outcome
      cases outcome

end NanoOs.KernelAllocator
