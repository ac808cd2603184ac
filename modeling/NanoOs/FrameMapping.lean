import NanoOs.PageSpaces
import Mathlib.Algebra.Order.BigOperators.Group.Finset
import Mathlib.Data.Finset.Card
import Mathlib.Order.Interval.Finset.Nat

/-!
# Mapping consecutive pages to frames of the allocator

`allocate_and_map_pages` gives every page of the range a frame of its own, that
no table and no earlier page has.  Every other page keeps its leaf.
-/

namespace NanoOs.PageMapping

open RadixTables

/-- Pages are mapped to frames returned since, each to one of its own. -/
structure MappedPages (supply : FrameSupply) (shared : Nat → Prop) (machine after : Machine)
    (rank grown : Nat → Option Nat) (root : Nat) (flags : PageFlags) (pages : Nat → Prop)
    (frame : Nat → Nat) : Prop where
  spaces : Spaces supply shared after grown
  extends' : Extends supply machine after rank grown
  bounded : ∀ page, pages page → page < pageLimit
  fresh : ∀ page, pages page → ∃ number, machine.allocated ≤ number ∧
    number < after.allocated ∧ frame page = supply.frames number ∧ grown (frame page) = none
  distinct : ∀ page, pages page → ∀ other, pages other → frame page = frame other → page = other
  hit : ∀ other, rank other = some 2 → ∀ page, pages page →
    Sees shared machine.memory other root page →
      view after.memory other page = some (PageTableEntry.set (frame page) flags, 0)
  miss : ∀ other, rank other = some 2 → ∀ page < pageLimit,
    (pages page → ¬ Sees shared machine.memory other root page) →
      view after.memory other page = view machine.memory other page
  shares : ∀ other, rank other = some 2 → ∀ page < pageLimit, ∀ table, shared table →
    (reach (slots after.memory) other (upperPath page) = some table ↔
      reach (slots machine.memory) other (upperPath page) = some table)
  rootEntries : ∀ other, rank other = some 2 → ∀ index < pageEntries,
    (other = root → ∀ page, pages page → index ≠ page / 2 ^ 18) →
      entry after.memory other index = entry machine.memory other index

def OutsideFresh (supply : FrameSupply) (machine after : Machine) (location : Nat) : Prop :=
  ∀ number, machine.allocated ≤ number → number < after.allocated →
    location < supply.frames number ∨ supply.frames number + 4096 ≤ location

/-- The frames of the pages hold zeros, or what they held before. -/
structure FreshContents (supply : FrameSupply) (machine after : Machine)
    (grown : Nat → Option Nat) (pages : Nat → Prop) (zero : Bool) (frame : Nat → Nat) : Prop where
  contents : ∀ page, pages page → ∀ offset < 4096,
    after.memory (frame page + offset) = if zero then 0 else machine.memory (frame page + offset)
  elsewhere : ∀ location, OutsideTables grown location →
    OutsideFresh supply machine after location →
    after.memory location = machine.memory location

theorem FrameSupply.apart (supply : FrameSupply) {first second offset : Nat}
    (firstOwned : first < supply.owned) (secondOwned : second < supply.owned)
    (different : first ≠ second) (inFrame : offset < 4096) :
    supply.frames first + offset < supply.frames second ∨
      supply.frames second + 4096 ≤ supply.frames first + offset := by
  have aligned := supply.aligned first firstOwned
  have otherAligned := supply.aligned second secondOwned
  have framesApart : supply.frames first ≠ supply.frames second := fun same =>
    different (supply.distinct first firstOwned second secondOwned same)
  omega

/-- There is no room for more frames between two megabytes and the end of the low
half. -/
theorem FrameSupply.owned_le (supply : FrameSupply) : supply.owned ≤ 2 ^ 26 - 512 := by
  have inside : ∀ number ∈ Finset.range supply.owned,
      supply.frames number / 4096 - 512 ∈ Finset.range (2 ^ 26 - 512) := by
    intro number isOwned
    rw [Finset.mem_range] at isOwned ⊢
    have upper := supply.upper number isOwned
    omega
  have injective : Set.InjOn (fun number => supply.frames number / 4096 - 512)
      (Finset.range supply.owned) := by
    intro first firstOwned second secondOwned same
    rw [Finset.mem_coe, Finset.mem_range] at firstOwned secondOwned
    have aligned := supply.aligned first firstOwned
    have otherAligned := supply.aligned second secondOwned
    have lower := supply.lower first firstOwned
    have otherLower := supply.lower second secondOwned
    dsimp only at same
    exact supply.distinct first firstOwned second secondOwned (by omega)
  have counted := Finset.card_le_card_of_injOn _ inside injective
  rwa [Finset.card_range, Finset.card_range] at counted

variable {after machine : Machine} {index remaining virt : Nat}

section Loop

variable {supply : FrameSupply} {mapper : PageMapper} {flags : PageFlags} {zero : Bool}

def takeFrame (supply : FrameSupply) (machine : Machine) (zero : Bool) : Machine :=
  if zero then
    ⟨writeZeros machine.memory (supply.frames machine.allocated) 4096, machine.allocated + 1⟩
  else
    ⟨machine.memory, machine.allocated + 1⟩

theorem mapRange_page {number : Nat} (left : number < supply.owned)
    (virtAligned : virt % 4096 = 0) (fits : virt + 4096 < 2 ^ 64) :
    mapper.mapRange supply.frames machine virt (supply.frames number) (virt + 4096) flags .size4K =
      .ok (mapper.mapPage supply.frames machine virt (supply.frames number) flags 0) := by
  have physAligned := supply.aligned number left
  have physBelow := supply.upper number left
  have size : PageSize.size4K.size = 4096 := rfl
  have stopAligned : (virt + 4096) % 4096 = 0 := by omega
  have difference : virt + 4096 - virt = 4096 := by omega
  unfold PageMapper.mapRange
  simp only [size, ensure, virtAligned, physAligned, stopAligned, if_true, ok_bind,
    checkedSub_of_le (Nat.le_add_right virt 4096), difference]
  have fuel : 4096 / 4096 + 1 = 2 := rfl
  rw [fuel, PageMapper.mapLoop, if_pos (by omega), checkedAdd_bind (by omega),
    checkedAdd_bind (by omega)]
  rfl

theorem allocateLoop_succ :
    mapper.allocateLoop supply virt flags zero (remaining + 1) index machine = .ok after ↔
      let address := virt + index * 4096
      let mapped := mapper.mapPage supply.frames (takeFrame supply machine zero) address
        (supply.frames machine.allocated) flags 0
      machine.allocated < supply.owned ∧ address % 4096 = 0 ∧ address + 4096 < 2 ^ 64 ∧
        mapped.allocated ≤ supply.owned ∧
        mapper.allocateLoop supply virt flags zero remaining (index + 1) mapped = .ok after := by
  have pageSizeEq : Memory.pageSize = 4096 := rfl
  rw [PageMapper.allocateLoop, FrameSupply.alloc, pageSizeEq]
  constructor
  · intro ran
    obtain ⟨⟨phys, taken⟩, allocRan, ran⟩ := bind_eq_ok.mp ran
    obtain ⟨left, allocated⟩ := ensure_bind_eq_ok.mp allocRan
    cases allocated
    obtain ⟨-, ran⟩ := checkedAdd_bind_eq_ok.mp ran
    obtain ⟨fits, ran⟩ := checkedAdd_bind_eq_ok.mp ran
    obtain ⟨mapped, mapRan, ran⟩ := bind_eq_ok.mp ran
    obtain ⟨checked, checkRan, ran⟩ := bind_eq_ok.mp ran
    obtain ⟨enough, checkedEq⟩ := ensure_bind_eq_ok.mp checkRan
    cases checkedEq
    have aligned : (virt + index * 4096) % 4096 = 0 := by
      obtain ⟨isAligned, -⟩ := ensure_bind_eq_ok.mp mapRan
      exact isAligned
    rw [mapRange_page left aligned fits] at mapRan
    cases mapRan
    exact ⟨left, aligned, fits, enough, ran⟩
  · rintro ⟨left, aligned, fits, enough, ran⟩
    rw [ensure_bind left]
    dsimp only [allocFrame]
    rw [ok_bind, checkedAdd_bind (by omega), checkedAdd_bind fits,
      mapRange_page left aligned fits, ok_bind]
    have taken : (if zero = true then
          { machine with
            memory := writeZeros machine.memory (supply.frames machine.allocated) 4096
            allocated := machine.allocated + 1 }
        else { machine with allocated := machine.allocated + 1 }) =
        takeFrame supply machine zero := rfl
    rw [taken, FrameSupply.ensureTables, ensure_bind enough, ok_bind]
    exact ran

theorem allocateLoop_zero :
    mapper.allocateLoop supply virt flags zero 0 index machine = .ok after ↔ after = machine := by
  rw [PageMapper.allocateLoop, Except.ok.injEq, eq_comm]

end Loop

section Take

variable {supply : FrameSupply} {shared : Nat → Prop} {machine : Machine}
  {rank : Nat → Option Nat}

theorem takeFrame_allocated (zero : Bool) :
    (takeFrame supply machine zero).allocated = machine.allocated + 1 := by
  unfold takeFrame
  split <;> rfl

theorem takeFrame_memory (zero : Bool) (location : Nat) :
    (takeFrame supply machine zero).memory location =
      if zero = true ∧ supply.frames machine.allocated ≤ location ∧
        location < supply.frames machine.allocated + 4096 then 0 else machine.memory location := by
  unfold takeFrame
  cases zero with
  | false => simp
  | true => simp [writeZeros]

structure Taken (supply : FrameSupply) (machine taken : Machine) : Prop where
  left : machine.allocated < supply.owned
  allocated : taken.allocated = machine.allocated + 1
  same : ∀ location, location < supply.frames machine.allocated ∨
    supply.frames machine.allocated + 4096 ≤ location →
      taken.memory location = machine.memory location

theorem takeFrame_taken (left : machine.allocated < supply.owned) (zero : Bool) :
    Taken supply machine (takeFrame supply machine zero) := by
  refine ⟨left, takeFrame_allocated zero, ?_⟩
  intro location apart
  rw [takeFrame_memory, if_neg]
  rintro ⟨-, lower, upper⟩
  omega

variable {taken : Machine}

theorem Taken.tables (step : Taken supply machine taken)
    (spaces : Spaces supply shared machine rank) {location : Nat}
    (inside : ¬ OutsideTables rank location) : taken.memory location = machine.memory location := by
  refine step.same location ?_
  by_contra within
  rw [not_or, Nat.not_lt, Nat.not_le] at within
  obtain ⟨lower, upper⟩ := within
  refine inside ?_
  have outside := @Spaces.outside_of_frame supply shared machine rank spaces machine.allocated
    (location - supply.frames machine.allocated) step.left (spaces.unused le_rfl step.left)
    (by omega)
  rwa [Nat.add_sub_cancel' lower] at outside

theorem Taken.spaces (step : Taken supply machine taken)
    (spaces : Spaces supply shared machine rank) :
    Spaces supply shared taken rank ∧
      Similar rank { machine with allocated := machine.allocated + 1 } taken := by
  have advanced : Spaces supply shared { machine with allocated := machine.allocated + 1 }
      rank := by
    refine ⟨spaces.forest, ?_, step.left, spaces.corner⟩
    intro table isRanked
    obtain ⟨count, bound, tableEq⟩ := spaces.used table isRanked
    exact ⟨count, Nat.lt_succ_of_lt bound, tableEq⟩
  have similar : Similar rank { machine with allocated := machine.allocated + 1 } taken := by
    refine ⟨step.allocated, ?_⟩
    intro table isRanked location lower upper
    refine step.tables spaces ?_
    intro outside
    have apart := outside table isRanked
    omega
  exact ⟨advanced.of_similar similar, similar⟩

theorem Similar.take (spaces : Spaces supply shared machine rank) {second secondTaken : Machine}
    (similar : Similar rank machine second) (step : Taken supply machine taken)
    (secondStep : Taken supply second secondTaken) : Similar rank taken secondTaken := by
  have advanced : Similar rank { machine with allocated := machine.allocated + 1 }
      { second with allocated := second.allocated + 1 } :=
    ⟨congrArg (· + 1) similar.allocated, similar.tables⟩
  exact (step.spaces spaces).2.symm.trans
    (advanced.trans (secondStep.spaces (spaces.of_similar similar)).2)

end Take

section Pages

variable {supply : FrameSupply} {shared : Nat → Prop} {machine middle after : Machine}
  {rank grown final : Nat → Option Nat} {root : Nat} {flags : PageFlags} {zero : Bool}
  {pages others : Nat → Prop} {frame rest : Nat → Nat}

theorem MappedPages.none (spaces : Spaces supply shared machine rank)
    (empty : ∀ page, ¬ pages page) :
    MappedPages supply shared machine machine rank rank root flags pages frame :=
  ⟨spaces, Extends.refl, fun page isMapped => absurd isMapped (empty page),
    fun page isMapped => absurd isMapped (empty page),
    fun page isMapped => absurd isMapped (empty page),
    fun _ _ page isMapped => absurd isMapped (empty page), fun _ _ _ _ _ => rfl,
    fun _ _ _ _ _ _ => Iff.rfl, fun _ _ _ _ _ => rfl⟩

theorem FreshContents.none (empty : ∀ page, ¬ pages page) :
    FreshContents supply machine machine rank pages zero frame :=
  ⟨fun page isMapped => absurd isMapped (empty page), fun _ _ _ => rfl⟩

theorem MappedPages.similar
    (mapped : MappedPages supply shared machine middle rank grown root flags pages frame)
    (similar : Similar grown middle after) :
    MappedPages supply shared machine after rank grown root flags pages frame := by
  have kept : ∀ other, rank other = some 2 → grown other = some 2 :=
    fun other otherRoot => mapped.extends'.kept other 2 otherRoot
  have allocated := similar.allocated
  refine ⟨mapped.spaces.of_similar similar, ⟨mapped.extends'.kept, ?_, ?_⟩, mapped.bounded,
    ?_, mapped.distinct, ?_, ?_, ?_, ?_⟩
  · rw [allocated]
    exact mapped.extends'.new
  · rw [allocated]
    exact mapped.extends'.monotone
  · rw [allocated]
    exact mapped.fresh
  · intro other otherRoot page isMapped seen
    rw [mapped.spaces.view_similar similar (kept other otherRoot) (mapped.bounded page isMapped)]
    exact mapped.hit other otherRoot page isMapped seen
  · intro other otherRoot page inRange aside
    rw [mapped.spaces.view_similar similar (kept other otherRoot) inRange]
    exact mapped.miss other otherRoot page inRange aside
  · intro other otherRoot page inRange table isShared
    rw [(mapped.spaces.walk_similar similar (kept other otherRoot) (upperPath_within inRange)).1]
    exact mapped.shares other otherRoot page inRange table isShared
  · intro other otherRoot index inRange aside
    rw [similar.entry_eq (RadixTables.ranked (kept other otherRoot)) inRange]
    exact mapped.rootEntries other otherRoot index inRange aside

theorem Spaces.mapTaken (spaces : Spaces supply shared machine rank) {mapper : PageMapper}
    (isRoot : rank mapper.rootTable = some 2) {virt : Nat}
    (clear : ∀ raw level, view machine.memory mapper.rootTable (pageOf virt) = some (raw, level) →
      level = 0)
    (permitted : flags.intersects PageFlags.permissions = true) {taken : Machine}
    (step : Taken supply machine taken)
    (enough : (mapper.mapPage supply.frames taken virt (supply.frames machine.allocated) flags
      0).allocated ≤ supply.owned) :
    let phys := supply.frames machine.allocated
    let after := mapper.mapPage supply.frames taken virt phys flags 0
    ∃ grown, MappedPages supply shared machine after rank grown mapper.rootTable flags
        (· = pageOf virt) (fun _ => phys) ∧
      (∀ offset < 4096, after.memory (phys + offset) = taken.memory (phys + offset)) ∧
      (∀ location, OutsideTables grown location → location < phys ∨ phys + 4096 ≤ location →
        after.memory location = machine.memory location) ∧
      ∀ second, Similar rank taken second →
        Similar grown after (mapper.mapPage supply.frames second virt phys flags 0) := by
  intro phys after
  have left := step.left
  obtain ⟨takenSpaces, takenSimilar⟩ := step.spaces spaces
  have unused : rank phys = Option.none := spaces.unused le_rfl left
  have takenAllocated := step.allocated
  have advanced : Spaces supply shared { machine with allocated := machine.allocated + 1 } rank :=
    takenSpaces.of_similar takenSimilar.symm
  have viewSame : ∀ other, rank other = some 2 → ∀ page < pageLimit,
      view taken.memory other page = view machine.memory other page :=
    fun other otherRoot page inRange => advanced.view_similar takenSimilar otherRoot inRange
  have reachSame : ∀ other, rank other = some 2 → ∀ page < pageLimit,
      reach (slots taken.memory) other (upperPath page) =
        reach (slots machine.memory) other (upperPath page) :=
    fun other otherRoot page inRange =>
      (advanced.walk_similar takenSimilar otherRoot (upperPath_within inRange)).1
  obtain ⟨grown, mapped, mappedSimilar⟩ := takenSpaces.mapPage isRoot
    (fun raw level found => clear raw level
      ((viewSame _ isRoot _ (pageOf_lt virt)).symm.trans found))
    permitted enough
  have sees : ∀ other, rank other = some 2 →
      (Sees shared taken.memory other mapper.rootTable (pageOf virt) ↔
        Sees shared machine.memory other mapper.rootTable (pageOf virt)) := by
    intro other otherRoot
    unfold Sees
    rw [reachSame other otherRoot _ (pageOf_lt virt), reachSame _ isRoot _ (pageOf_lt virt)]
  have monotone : taken.allocated ≤ after.allocated := mapped.extends'.monotone
  have physGrown : grown phys = Option.none := by
    by_contra isRanked
    obtain ⟨count, lower, upper, same⟩ := mapped.extends'.new phys isRanked unused
    have equal := supply.distinct _ left _ (upper.trans_le mapped.spaces.owned) same
    omega
  refine ⟨grown, ⟨mapped.spaces, ⟨mapped.extends'.kept, ?_, by omega⟩, ?_, ?_, ?_, ?_, ?_, ?_, ?_⟩,
    ?_, ?_, mappedSimilar⟩
  · intro table isRanked wasUnused
    obtain ⟨count, lower, upper, tableEq⟩ := mapped.extends'.new table isRanked wasUnused
    exact ⟨count, by omega, upper, tableEq⟩
  · rintro page rfl
    exact pageOf_lt virt
  · intro page _
    exact ⟨machine.allocated, le_rfl, by omega, rfl, physGrown⟩
  · rintro page rfl other rfl _
    rfl
  · rintro other otherRoot page rfl seen
    exact mapped.hit other otherRoot ((sees other otherRoot).mpr seen)
  · intro other otherRoot page inRange aside
    rw [mapped.miss other otherRoot page inRange, viewSame other otherRoot page inRange]
    exact fun samePage seen => aside samePage (samePage ▸ (sees other otherRoot).mp seen)
  · intro other otherRoot page inRange table isShared
    rw [mapped.shares other otherRoot page inRange table isShared,
      reachSame other otherRoot page inRange]
  · intro other otherRoot index inRange aside
    rw [mapped.rootEntries other otherRoot index inRange]
    · exact takenSimilar.entry_eq (RadixTables.ranked otherRoot) inRange
    · rintro ⟨isSame, indexEq⟩
      exact aside isSame (pageOf virt) rfl indexEq
  · intro offset inFrame
    exact mapped.elsewhere _ (mapped.spaces.outside_of_frame left physGrown inFrame)
  · intro location outside apart
    rw [mapped.elsewhere location outside, step.same location apart]

variable {page : Nat}

theorem MappedPages.kept_low (spaces : Spaces supply shared machine rank)
    (mapped : MappedPages supply shared machine after rank grown root flags pages frame)
    {other : Nat} (otherRoot : rank other = some 2) (different : other ≠ root)
    (low : page < pageLimit - 512) :
    view after.memory other page = view machine.memory other page := by
  refine mapped.miss other otherRoot page (by omega) fun _ seen => ?_
  have corner := spaces.sees_corner otherRoot (by omega) different seen
  omega

theorem Spaces.allocatePage (spaces : Spaces supply shared machine rank) {mapper : PageMapper}
    (isRoot : rank mapper.rootTable = some 2)
    (clear : ∀ raw level, view machine.memory mapper.rootTable (pageOf virt) = some (raw, level) →
      level = 0) (permitted : flags.intersects PageFlags.permissions = true)
    (left : machine.allocated < supply.owned) (zero : Bool)
    (enough : (mapper.mapPage supply.frames (takeFrame supply machine zero) virt
      (supply.frames machine.allocated) flags 0).allocated ≤ supply.owned) :
    let after := mapper.mapPage supply.frames (takeFrame supply machine zero) virt
      (supply.frames machine.allocated) flags 0
    ∃ grown, MappedPages supply shared machine after rank grown mapper.rootTable flags
        (· = pageOf virt) (fun _ => supply.frames machine.allocated) ∧
      FreshContents supply machine after grown (· = pageOf virt) zero
        (fun _ => supply.frames machine.allocated) ∧
      ∀ second, Similar rank machine second →
        Similar grown after
          (mapper.mapPage supply.frames (takeFrame supply second zero) virt
            (supply.frames second.allocated) flags 0) := by
  intro after
  have step := takeFrame_taken left zero
  obtain ⟨grown, mapped, contents, elsewhere, again⟩ :=
    spaces.mapTaken isRoot clear permitted step enough
  refine ⟨grown, mapped, ⟨?_, ?_⟩, ?_⟩
  · intro page _ offset inFrame
    rw [contents offset inFrame, takeFrame_memory]
    exact if_congr ⟨fun taken => taken.1, fun isZero => ⟨isZero, by omega, by omega⟩⟩ rfl rfl
  · intro location outside apart
    obtain ⟨number, lower, upper, frameEq, -⟩ := mapped.fresh (pageOf virt) rfl
    refine elsewhere location outside ?_
    rw [frameEq]
    exact apart number lower upper
  · intro second similar
    have secondStep := takeFrame_taken (show second.allocated < supply.owned by
      rwa [similar.allocated]) zero
    rw [similar.allocated]
    exact again _ (similar.take spaces step secondStep)

section Union

variable (isRoot : rank root = some 2)
  (mapped : MappedPages supply shared machine middle rank grown root flags pages frame)
  (further : MappedPages supply shared middle after grown final root flags others rest)

include mapped further

theorem MappedPages.frame_final (isMapped : pages page) :
    final (frame page) = Option.none ∧ ∃ number, machine.allocated ≤ number ∧
      number < middle.allocated ∧ number < supply.owned ∧ frame page = supply.frames number := by
  obtain ⟨number, lower, upper, frameEq, isFrame⟩ := mapped.fresh page isMapped
  have owned := mapped.spaces.owned
  have finalOwned := further.spaces.owned
  refine ⟨?_, number, lower, upper, by omega, frameEq⟩
  rw [frameEq] at isFrame ⊢
  exact further.extends'.frame_kept finalOwned upper isFrame

theorem MappedPages.rest_unused (isOther : others page) :
    grown (rest page) = Option.none ∧ ∃ number, middle.allocated ≤ number ∧
      number < after.allocated ∧ number < supply.owned ∧ rest page = supply.frames number := by
  obtain ⟨number, lower, upper, frameEq, -⟩ := further.fresh page isOther
  have finalOwned := further.spaces.owned
  refine ⟨?_, number, lower, upper, by omega, frameEq⟩
  rw [frameEq]
  exact mapped.spaces.unused lower (by omega)

theorem MappedPages.frames_apart {other : Nat} (isMapped : pages page) (isOther : others other) :
    frame page ≠ rest other := by
  obtain ⟨-, number, -, upper, owned, frameEq⟩ := mapped.frame_final further isMapped
  obtain ⟨-, another, lower, -, anotherOwned, restEq⟩ := mapped.rest_unused further isOther
  rw [frameEq, restEq]
  intro same
  have equal := supply.distinct number owned another anotherOwned same
  omega

include isRoot in
/-- Pages mapped after others; a page mapped twice has its later frame. -/
theorem MappedPages.union [DecidablePred others] :
    MappedPages supply shared machine after rank final root flags
      (fun page => others page ∨ pages page)
      (fun page => if others page then rest page else frame page) := by
  have kept : ∀ other, rank other = some 2 → grown other = some 2 :=
    fun other otherRoot => mapped.extends'.kept other 2 otherRoot
  have sees : ∀ other, rank other = some 2 → ∀ page < pageLimit,
      (Sees shared middle.memory other root page ↔ Sees shared machine.memory other root page) := by
    intro other otherRoot page inRange
    refine or_congr Iff.rfl (exists_congr fun table => and_congr_right fun isShared => ?_)
    rw [mapped.shares other otherRoot page inRange table isShared,
      mapped.shares root isRoot page inRange table isShared]
  have middleMonotone := mapped.extends'.monotone
  have afterMonotone := further.extends'.monotone
  refine ⟨further.spaces, mapped.extends'.trans further.extends', ?_, ?_, ?_, ?_, ?_, ?_, ?_⟩
  · rintro page (isOther | isMapped)
    · exact further.bounded page isOther
    · exact mapped.bounded page isMapped
  · intro page isEither
    by_cases isOther : others page
    · obtain ⟨number, lower, upper, frameEq, isFrame⟩ := further.fresh page isOther
      simp only [isOther, if_true]
      exact ⟨number, by omega, upper, frameEq, isFrame⟩
    · obtain ⟨isFrame, number, lower, upper, -, frameEq⟩ :=
        mapped.frame_final further (isEither.resolve_left isOther)
      simp only [isOther, if_false]
      exact ⟨number, lower, by omega, frameEq, isFrame⟩
  · intro page isEither other otherEither same
    by_cases isOther : others page <;> by_cases otherOther : others other <;>
      simp only [isOther, otherOther, if_true, if_false] at same
    · exact further.distinct page isOther other otherOther same
    · exact absurd same.symm
        (mapped.frames_apart further (otherEither.resolve_left otherOther) isOther)
    · exact absurd same (mapped.frames_apart further (isEither.resolve_left isOther) otherOther)
    · exact mapped.distinct page (isEither.resolve_left isOther) other
        (otherEither.resolve_left otherOther) same
  · intro other otherRoot page isEither seen
    by_cases isOther : others page
    · simp only [isOther, if_true]
      exact further.hit other (kept other otherRoot) page isOther
        ((sees other otherRoot page (further.bounded page isOther)).mpr seen)
    · have isMapped := isEither.resolve_left isOther
      simp only [isOther, if_false]
      rw [further.miss other (kept other otherRoot) page (mapped.bounded page isMapped)
        fun isOther' => absurd isOther' isOther]
      exact mapped.hit other otherRoot page isMapped seen
  · intro other otherRoot page inRange aside
    rw [further.miss other (kept other otherRoot) page inRange,
      mapped.miss other otherRoot page inRange fun isMapped => aside (Or.inr isMapped)]
    exact fun isOther seen => aside (Or.inl isOther) ((sees other otherRoot page inRange).mp seen)
  · intro other otherRoot page inRange table isShared
    rw [further.shares other (kept other otherRoot) page inRange table isShared,
      mapped.shares other otherRoot page inRange table isShared]
  · intro other otherRoot index inRange aside
    rw [further.rootEntries other (kept other otherRoot) index inRange
        fun isSame page isOther => aside isSame page (Or.inl isOther),
      mapped.rootEntries other otherRoot index inRange
        fun isSame page isMapped => aside isSame page (Or.inr isMapped)]

theorem FreshContents.union [DecidablePred others]
    (kept : FreshContents supply machine middle grown pages zero frame)
    (keptFurther : FreshContents supply middle after final others zero rest) :
    FreshContents supply machine after final (fun page => others page ∨ pages page) zero
      (fun page => if others page then rest page else frame page) := by
  have middleMonotone := mapped.extends'.monotone
  have afterMonotone := further.extends'.monotone
  refine ⟨?_, ?_⟩
  · intro page isEither offset inFrame
    by_cases isOther : others page
    · obtain ⟨isFrame, number, lower, -, owned, restEq⟩ := mapped.rest_unused further isOther
      simp only [isOther, if_true]
      rw [keptFurther.contents page isOther offset inFrame]
      refine ite_congr rfl (fun _ => rfl) fun _ => ?_
      rw [restEq] at isFrame ⊢
      refine kept.elsewhere _ (mapped.spaces.outside_of_frame owned isFrame inFrame) ?_
      intro other otherLower otherUpper
      exact supply.apart owned (by omega) (by omega) inFrame
    · have isMapped := isEither.resolve_left isOther
      obtain ⟨isFrame, number, -, upper, owned, frameEq⟩ := mapped.frame_final further isMapped
      simp only [isOther, if_false]
      rw [← kept.contents page isMapped offset inFrame]
      rw [frameEq] at isFrame ⊢
      refine keptFurther.elsewhere _ (further.spaces.outside_of_frame owned isFrame inFrame) ?_
      intro other otherLower otherUpper
      exact supply.apart owned (otherUpper.trans_le further.spaces.owned) (by omega) inFrame
  · intro location outside apart
    rw [keptFurther.elsewhere location outside fun number lower upper =>
        apart number (by omega) upper,
      kept.elsewhere location (outside.of_extends further.extends') fun number lower upper =>
        apart number lower (by omega)]

end Union

end Pages

section Counting

variable {supply : FrameSupply} {mapper : PageMapper} {flags : PageFlags} {zero : Bool}
  {virt : Nat}

theorem mapPage_allocated (frames : Nat → Nat) (machine : Machine) (virt phys level : Nat) :
    machine.allocated ≤ (mapper.mapPage frames machine virt phys flags level).allocated ∧
      (mapper.mapPage frames machine virt phys flags level).allocated ≤ machine.allocated + 2 := by
  have first := nextLevel_allocated frames machine mapper.rootTable (vpn2 virt)
  have second := nextLevel_allocated frames (nextLevel frames machine mapper.rootTable
    (vpn2 virt)).2 (nextLevel frames machine mapper.rootTable (vpn2 virt)).1 (vpn1 virt)
  unfold PageMapper.mapPage
  split
  · exact ⟨le_rfl, Nat.le_add_right _ _⟩
  · split
    · exact ⟨first.1, first.2.trans (Nat.le_succ _)⟩
    · exact ⟨first.1.trans second.1, second.2.trans (Nat.add_le_add_right first.2 1)⟩

theorem allocateLoop_allocated
    (ran : mapper.allocateLoop supply virt flags zero remaining index machine = .ok after)
    (owned : machine.allocated ≤ supply.owned) :
    machine.allocated + remaining ≤ after.allocated ∧ after.allocated ≤ supply.owned := by
  induction remaining generalizing index machine with
  | zero =>
    rw [allocateLoop_zero] at ran
    subst ran
    exact ⟨le_rfl, owned⟩
  | succ remaining ih =>
    obtain ⟨left, -, -, enough, rest⟩ := allocateLoop_succ.mp ran
    have step := @mapPage_allocated mapper flags supply.frames (takeFrame supply machine zero)
      (virt + index * 4096) (supply.frames machine.allocated) 0
    rw [takeFrame_allocated] at step
    have restCounted := ih rest enough
    omega

theorem allocateLoop_total {remaining index : Nat} {machine : Machine}
    (enough : machine.allocated + 3 * remaining ≤ supply.owned) (aligned : virt % 4096 = 0)
    (fits : virt + (index + remaining) * 4096 < 2 ^ 64) :
    ∃ after, mapper.allocateLoop supply virt flags zero remaining index machine = .ok after ∧
      after.allocated ≤ machine.allocated + 3 * remaining := by
  induction remaining generalizing index machine with
  | zero => exact ⟨machine, allocateLoop_zero.mpr rfl, le_rfl⟩
  | succ remaining ih =>
    have step := @mapPage_allocated mapper flags supply.frames (takeFrame supply machine zero)
      (virt + index * 4096) (supply.frames machine.allocated) 0
    rw [takeFrame_allocated] at step
    obtain ⟨mapped, mappedEq⟩ : ∃ mapped, mapped = mapper.mapPage supply.frames
      (takeFrame supply machine zero) (virt + index * 4096) (supply.frames machine.allocated)
      flags 0 := ⟨_, rfl⟩
    rw [← mappedEq] at step
    have restFits : virt + (index + 1 + remaining) * 4096 < 2 ^ 64 := by
      rwa [Nat.add_assoc, Nat.add_comm 1 remaining]
    obtain ⟨after, ran, bounded⟩ := @ih (index + 1) mapped (by omega) restFits
    refine ⟨after, allocateLoop_succ.mpr ⟨by omega, by omega, by omega, ?_, ?_⟩, by omega⟩
    · rw [← mappedEq]
      omega
    · rw [← mappedEq]
      exact ran

end Counting

def pagesFrom (first count page : Nat) : Prop := first ≤ page ∧ page < first + count

instance (first count : Nat) : DecidablePred (pagesFrom first count) :=
  fun _ => inferInstanceAs (Decidable (_ ∧ _))

theorem Spaces.allocateLoop {supply : FrameSupply} {shared : Nat → Prop} {rank : Nat → Option Nat}
    (spaces : Spaces supply shared machine rank) {mapper : PageMapper} {flags : PageFlags}
    {zero : Bool} (isRoot : rank mapper.rootTable = some 2)
    (permitted : flags.intersects PageFlags.permissions = true)
    (bound : pageOf virt + index + remaining ≤ pageLimit)
    (clear : ∀ page, pagesFrom (pageOf virt + index) remaining page → ∀ raw level,
      view machine.memory mapper.rootTable page = some (raw, level) → level = 0)
    (ran : mapper.allocateLoop supply virt flags zero remaining index machine = .ok after) :
    ∃ grown frame, MappedPages supply shared machine after rank grown mapper.rootTable flags
        (pagesFrom (pageOf virt + index) remaining) frame ∧
      FreshContents supply machine after grown (pagesFrom (pageOf virt + index) remaining) zero
        frame ∧
      ∀ second, Similar rank machine second → ∃ secondAfter,
        mapper.allocateLoop supply virt flags zero remaining index second = .ok secondAfter ∧
          Similar grown after secondAfter := by
  induction remaining generalizing index machine rank with
  | zero =>
    have empty : ∀ page, ¬ pagesFrom (pageOf virt + index) 0 page := by
      intro page isMapped
      unfold pagesFrom at isMapped
      omega
    rw [allocateLoop_zero] at ran
    subst ran
    exact ⟨rank, fun _ => 0, MappedPages.none spaces empty, FreshContents.none empty,
      fun second similar => ⟨second, allocateLoop_zero.mpr rfl, similar⟩⟩
  | succ remaining ih =>
    obtain ⟨left, aligned, fits, enough, rest⟩ := allocateLoop_succ.mp ran
    have pageEq : pageOf (virt + index * 4096) = pageOf virt + index := by
      unfold pageOf pageLimit at bound ⊢
      omega
    have split : pagesFrom (pageOf virt + index) (remaining + 1) = fun page =>
        pagesFrom (pageOf virt + (index + 1)) remaining page ∨ page = pageOf virt + index := by
      funext page
      apply propext
      unfold pagesFrom
      omega
    obtain ⟨middleRank, page, contents, pageSimilar⟩ := spaces.allocatePage isRoot
      (fun raw level found => clear (pageOf virt + index) ⟨le_rfl, by omega⟩ raw level
        (by rwa [pageEq] at found)) permitted left zero enough
    rw [pageEq] at page contents
    have rootMiddle := page.extends'.kept _ 2 isRoot
    have clearRest : ∀ another, pagesFrom (pageOf virt + (index + 1)) remaining another →
        ∀ raw level, view (mapper.mapPage supply.frames (takeFrame supply machine zero)
          (virt + index * 4096) (supply.frames machine.allocated) flags 0).memory
            mapper.rootTable another = some (raw, level) → level = 0 := by
      rintro another ⟨lower, upper⟩ raw level found
      rw [page.miss _ isRoot another (by omega) fun same => by omega] at found
      exact clear another ⟨by omega, by omega⟩ raw level found
    obtain ⟨grown, frame, pages, furtherContents, pagesSimilar⟩ :=
      ih page.spaces rootMiddle (by omega) clearRest rest
    rw [split]
    refine ⟨grown, _, page.union isRoot pages, contents.union page pages furtherContents, ?_⟩
    intro second similar
    obtain ⟨secondAfter, secondRan, secondSimilar⟩ := pagesSimilar _ (pageSimilar second similar)
    refine ⟨secondAfter, allocateLoop_succ.mpr ⟨?_, aligned, fits, ?_, secondRan⟩, secondSimilar⟩
    · rwa [similar.allocated]
    · rwa [(pageSimilar second similar).allocated]

/-- The places of the tables that lead to consecutive pages. -/
def tablePaths (first count : Nat) : Finset (List Nat) :=
  (Finset.Ico first (first + count)).biUnion fun page => {[page / 2 ^ 18], upperPath page}

/-- How many tables have to be added for consecutive pages. -/
def missingTables (memory : ByteMemory) (root first count : Nat) : Nat :=
  ((tablePaths first count).filter (reach (slots memory) root · = none)).card

section Tables

variable {first count root : Nat} {path : List Nat}

theorem mem_tablePaths : path ∈ tablePaths first count ↔
    ∃ page, (first ≤ page ∧ page < first + count) ∧
      (path = [page / 2 ^ 18] ∨ path = upperPath page) := by
  simp only [tablePaths, Finset.mem_biUnion, Finset.mem_Ico, Finset.mem_insert,
    Finset.mem_singleton]

theorem tablePaths_within (bound : first + count ≤ pageLimit)
    (isPath : path ∈ tablePaths first count) : Within pageEntries path := by
  obtain ⟨page, inRange, isPath⟩ := mem_tablePaths.mp isPath
  have within := @upperPath_within page (by omega)
  rcases isPath with rfl | rfl
  · exact within_cons.mpr ⟨(within_cons.mp within).1, nofun⟩
  · exact within

theorem tablePaths_succ (first count : Nat) : tablePaths first (count + 1) =
    {[first / 2 ^ 18], upperPath first} ∪ tablePaths (first + 1) count := by
  have split : Finset.Ico first (first + (count + 1)) =
      insert first (Finset.Ico (first + 1) (first + 1 + count)) := by
    ext page
    simp only [Finset.mem_insert, Finset.mem_Ico]
    omega
  rw [tablePaths, split, Finset.biUnion_insert]
  rfl

theorem missingTables_le (memory : ByteMemory) (root first count : Nat) :
    missingTables memory root first count ≤ 2 * count := by
  refine (Finset.card_filter_le _ _).trans ((Finset.card_biUnion_le_card_mul _ _ 2
    fun _ _ => Finset.card_le_two).trans ?_)
  rw [Nat.card_Ico, Nat.add_sub_cancel_left, Nat.mul_comm]
theorem card_lacking (memory : ByteMemory) (root page : Nat) :
    (({[page / 2 ^ 18], upperPath page} : Finset (List Nat)).filter
      (reach (slots memory) root · = none)).card = lacking memory root page := by
  have different : [page / 2 ^ 18] ≠ upperPath page := by simp [upperPath]
  unfold lacking
  rw [Finset.filter_insert, Finset.filter_singleton]
  split <;> split
  · exact Finset.card_pair different
  all_goals rfl

theorem card_filter_union {α : Type} [DecidableEq α] {first rest : Finset α}
    {before after : α → Prop} [DecidablePred before] [DecidablePred after]
    (opened : ∀ path ∈ rest, after path ↔ before path ∧ path ∉ first) :
    ((first ∪ rest).filter before).card =
      (first.filter before).card + (rest.filter after).card := by
  have split : (first ∪ rest).filter before = first.filter before ∪ rest.filter after := by
    ext path
    simp only [Finset.mem_union, Finset.mem_filter]
    have opened := opened path
    tauto
  rw [split, Finset.card_union_of_disjoint]
  rw [Finset.disjoint_left]
  intro path isFirst isRest
  rw [Finset.mem_filter] at isFirst isRest
  exact ((opened path isRest.1).mp isRest.2).2 isFirst.1

theorem missingTables_succ {before after : ByteMemory}
    (opens : OpensTables before after root first) (bound : first + (count + 1) ≤ pageLimit) :
    missingTables before root first (count + 1) =
      lacking before root first + missingTables after root (first + 1) count := by
  have opened : ∀ path ∈ tablePaths (first + 1) count, reach (slots after) root path = none ↔
      reach (slots before) root path = none ∧
        path ∉ ({[first / 2 ^ 18], upperPath first} : Finset (List Nat)) := by
    intro path isRest
    rw [Finset.mem_insert, Finset.mem_singleton, not_or]
    exact opens path (tablePaths_within (by omega) isRest)
  unfold missingTables
  rw [tablePaths_succ, card_filter_union opened, card_lacking]

end Tables

section Enough

variable {supply : FrameSupply} {shared : Nat → Prop} {machine : Machine}
  {rank : Nat → Option Nat} {mapper : PageMapper} {flags : PageFlags} {zero : Bool} {virt : Nat}

theorem Spaces.allocatePage_count (spaces : Spaces supply shared machine rank)
    (isRoot : rank mapper.rootTable = some 2)
    (clear : ∀ raw level, view machine.memory mapper.rootTable (pageOf virt) = some (raw, level) →
      level = 0) (permitted : flags.intersects PageFlags.permissions = true)
    (left : machine.allocated < supply.owned) (zero : Bool) :
    let after := mapper.mapPage supply.frames (takeFrame supply machine zero) virt
      (supply.frames machine.allocated) flags 0
    let needed := machine.allocated + 1 + lacking machine.memory mapper.rootTable (pageOf virt)
    after.allocated ≤ needed ∧ (after.allocated ≤ supply.owned → after.allocated = needed ∧
      OpensTables machine.memory after.memory mapper.rootTable (pageOf virt)) := by
  intro after needed
  obtain ⟨takenSpaces, similar⟩ := (takeFrame_taken left zero).spaces spaces
  have advanced := takenSpaces.of_similar similar.symm
  have reachSame : ∀ path, Within pageEntries path →
      reach (slots (takeFrame supply machine zero).memory) mapper.rootTable path =
        reach (slots machine.memory) mapper.rootTable path :=
    fun path within => (advanced.walk_similar similar isRoot within).1
  have lackingSame : lacking (takeFrame supply machine zero).memory mapper.rootTable
      (pageOf virt) = lacking machine.memory mapper.rootTable (pageOf virt) := by
    have within := upperPath_within (pageOf_lt virt)
    unfold lacking
    rw [reachSame _ within, reachSame [_] (within_cons.mpr ⟨(within_cons.mp within).1, nofun⟩)]
  refine ⟨?_, fun enough => ?_⟩
  · have most := openThird_allocated_le supply.frames (takeFrame supply machine zero)
      mapper.rootTable virt
    rwa [takeFrame_allocated, lackingSame] at most
  · obtain ⟨grown, mapped, -⟩ := takenSpaces.mapPage isRoot (fun raw level found =>
      clear raw level ((advanced.view_similar similar isRoot (pageOf_lt virt)).symm.trans found))
      permitted enough
    refine ⟨?_, fun path within => ?_⟩
    · rw [mapped.count, takeFrame_allocated, lackingSame]
    · rw [← reachSame path within]
      exact mapped.opens path within

theorem Spaces.allocateLoop_returns_iff (spaces : Spaces supply shared machine rank)
    (isRoot : rank mapper.rootTable = some 2)
    (permitted : flags.intersects PageFlags.permissions = true) {index remaining : Nat}
    (aligned : virt % 4096 = 0) (fits : virt + (index + remaining) * 4096 < 2 ^ 64)
    (bound : pageOf virt + index + remaining ≤ pageLimit)
    (clear : ∀ page, pagesFrom (pageOf virt + index) remaining page → ∀ raw level,
      view machine.memory mapper.rootTable page = some (raw, level) → level = 0) :
    (∃ after, mapper.allocateLoop supply virt flags zero remaining index machine = .ok after) ↔
      machine.allocated + remaining +
        missingTables machine.memory mapper.rootTable (pageOf virt + index) remaining ≤
          supply.owned := by
  induction remaining generalizing index machine rank with
  | zero =>
    have none := missingTables_le machine.memory mapper.rootTable (pageOf virt + index) 0
    have owned := spaces.owned
    exact ⟨fun _ => by omega, fun _ => ⟨machine, allocateLoop_zero.mpr rfl⟩⟩
  | succ remaining ih =>
    have pageEq : pageOf (virt + index * 4096) = pageOf virt + index := by
      unfold pageOf pageLimit at bound ⊢
      omega
    have clearFirst : ∀ raw level, view machine.memory mapper.rootTable
        (pageOf (virt + index * 4096)) = some (raw, level) → level = 0 := by
      rw [pageEq]
      exact clear (pageOf virt + index) ⟨le_rfl, by omega⟩
    simp only [allocateLoop_succ, exists_and_left]
    by_cases left : machine.allocated < supply.owned
    swap
    · exact ⟨fun ran => absurd ran.1 left, fun enough => absurd enough (by omega)⟩
    obtain ⟨most, counted⟩ := spaces.allocatePage_count isRoot clearFirst permitted left zero
    obtain ⟨mapped, mappedEq⟩ : ∃ mapped, mapped = mapper.mapPage supply.frames
      (takeFrame supply machine zero) (virt + index * 4096) (supply.frames machine.allocated)
      flags 0 := ⟨_, rfl⟩
    rw [← mappedEq] at most counted ⊢
    rw [pageEq] at most counted
    have lackingLe : lacking machine.memory mapper.rootTable (pageOf virt + index) ≤
        missingTables machine.memory mapper.rootTable (pageOf virt + index) (remaining + 1) := by
      rw [← card_lacking, missingTables, tablePaths_succ]
      exact Finset.card_le_card (Finset.filter_subset_filter _ Finset.subset_union_left)
    by_cases enough : mapped.allocated ≤ supply.owned
    swap
    · exact ⟨fun ran => absurd ran.2.2.2.1 enough, fun few => absurd few (by omega)⟩
    obtain ⟨countEq, opens⟩ := counted enough
    obtain ⟨grown, page, -⟩ := spaces.allocatePage isRoot clearFirst permitted left zero
      (by rwa [← mappedEq])
    rw [← mappedEq, pageEq] at page
    have clearRest : ∀ another, pagesFrom (pageOf virt + (index + 1)) remaining another →
        ∀ raw level, view mapped.memory mapper.rootTable another = some (raw, level) →
          level = 0 := by
      rintro another ⟨lower, upper⟩ raw level found
      rw [page.miss _ isRoot another (by omega) fun same => by omega] at found
      exact clear another ⟨by omega, by omega⟩ raw level found
    have rest := @ih mapped grown page.spaces (page.extends'.kept _ 2 isRoot) (index + 1)
      (by rwa [Nat.add_assoc, Nat.add_comm 1 remaining]) (by omega) clearRest
    rw [rest, missingTables_succ opens (by omega), Nat.add_assoc (pageOf virt)]
    omega

end Enough

end NanoOs.PageMapping
