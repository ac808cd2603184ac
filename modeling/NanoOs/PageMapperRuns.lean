import NanoOs.PageSpaces
import Mathlib.Data.Finset.Card

/-!
# Sequences of `map_range` calls

The address map that a sequence of calls describes, in which the last call that
covers an address decides.  The page tables give the same translation.
-/

namespace NanoOs.PageMapping

open RadixTables

def tableLimit : Nat := 1 + pageEntries + pageEntries * pageEntries

/-- The frames the page allocator returns, as far as a mapper can need them:
page-aligned physical addresses, each returned once. -/
structure FreshFrames (frames : Nat → Nat) : Prop where
  aligned : ∀ count < tableLimit, frames count % 4096 = 0
  below : ∀ count < tableLimit, frames count < 2 ^ 48
  distinct : ∀ first < tableLimit, ∀ second < tableLimit,
    frames first = frames second → first = second

/-- The frames as far as they are needed. -/
def FreshFrames.source {frames : Nat → Nat} (fresh : FreshFrames frames) : FrameSource :=
  ⟨frames, tableLimit, fresh.aligned, fresh.below, fresh.distinct⟩

/-- A call of `map_range`. -/
structure MapCall where
  virtStart : Nat
  physStart : Nat
  stop : Nat
  flags : PageFlags
  pageSize : PageSize

namespace MapCall

/-- The call passes the assertions of `map_range`, for a canonical range. -/
structure Valid (call : MapCall) : Prop where
  virtAligned : call.virtStart % call.pageSize.size = 0
  physAligned : call.physStart % call.pageSize.size = 0
  stopAligned : call.stop % call.pageSize.size = 0
  ordered : call.virtStart ≤ call.stop
  canonical : call.stop ≤ 2 ^ 38 ∨ 2 ^ 64 - 2 ^ 38 ≤ call.virtStart ∧ call.stop < 2 ^ 64
  physical : call.physStart + (call.stop - call.virtStart) ≤ 2 ^ 48
  permitted : call.flags.intersects PageFlags.permissions = true
  sized : call.pageSize ≠ .size1G

def Covers (call : MapCall) (virt : Nat) : Prop := call.virtStart ≤ virt ∧ virt < call.stop

instance (call : MapCall) (virt : Nat) : Decidable (call.Covers virt) :=
  inferInstanceAs (Decidable (_ ∧ _))

def pageBase (call : MapCall) (virt : Nat) : Nat :=
  call.virtStart + (virt - call.virtStart) / call.pageSize.size * call.pageSize.size

def pagePhys (call : MapCall) (base : Nat) : Nat := call.physStart + (base - call.virtStart)

/-- The entry for the page of an address, and its level. -/
def leaf (call : MapCall) (virt : Nat) : Nat × Nat :=
  (PageTableEntry.set (call.pagePhys (call.pageBase virt)) call.flags, call.pageSize.level)

end MapCall

/-- The most recent call that covers an address, for calls listed from the last
to the first. -/
def recent (calls : List MapCall) (virt : Nat) : Option MapCall :=
  calls.find? fun call => call.Covers virt

def translation (calls : List MapCall) (virt : Nat) : Option Nat :=
  (recent calls virt).map fun call =>
    call.pagePhys (call.pageBase virt) + (virt - call.pageBase virt)

/-- Valid calls, listed from the last to the first, that map no small page under
a large one. -/
def Admissible : List MapCall → Prop
  | [] => True
  | call :: earlier => Admissible earlier ∧ call.Valid ∧
      (call.pageSize = .size4K → ∀ virt, call.Covers virt → ∀ previous,
        recent earlier virt = some previous → previous.pageSize ≠ .size2M)

def run (frames : Nat → Nat) (memory : ByteMemory) : List MapCall → Checked (PageMapper × Machine)
  | [] => .ok (PageMapper.new frames ⟨memory, 0⟩)
  | call :: earlier => do
      let (mapper, machine) ← run frames memory earlier
      let machine ← mapper.mapRange frames machine call.virtStart call.physStart call.stop
        call.flags call.pageSize
      .ok (mapper, machine)

section Pages

variable {virt base : Nat} (virtCanonical : Canonical virt) (baseCanonical : Canonical base)

include virtCanonical baseCanonical

theorem same_small (aligned : base % 2 ^ 12 = 0) :
    pageOf virt = pageOf base ↔ base ≤ virt ∧ virt < base + 2 ^ 12 := by
  unfold Canonical at virtCanonical baseCanonical
  unfold pageOf pageLimit
  omega

theorem same_large (aligned : base % 2 ^ 21 = 0) :
    upperPath (pageOf virt) = upperPath (pageOf base) ↔ base ≤ virt ∧ virt < base + 2 ^ 21 := by
  unfold Canonical at virtCanonical baseCanonical
  unfold upperPath pageOf pageLimit
  simp only [List.cons.injEq, and_true]
  omega

end Pages

section Room

variable {memory : ByteMemory} {root page : Nat}

/-- The block has no lowest table, and no large page. -/
abbrev Unopened (memory : ByteMemory) (root block : Nat) : Prop :=
  reach (slots memory) root (upperPath (block * 512)) = none ∧ view memory root (block * 512) = none

/-- How many tables may still be created. -/
def unopened (memory : ByteMemory) (root : Nat) : Nat :=
  ((Finset.range 512).filter fun high => reach (slots memory) root [high] = none).card +
    ((Finset.range (512 * 512)).filter (Unopened memory root)).card

theorem card_filter_add_le {chosen kept : Nat → Prop} [DecidablePred chosen] [DecidablePred kept]
    {elements : Finset Nat} {element : Nat} (isElement : element ∈ elements)
    (fewer : ∀ other ∈ elements, kept other → chosen other ∧ other ≠ element) :
    (elements.filter kept).card + (if chosen element then 1 else 0) ≤
      (elements.filter chosen).card := by
  have subset : elements.filter kept ⊆ (elements.filter chosen).erase element := by
    intro other isKept
    obtain ⟨isIn, isKept⟩ := Finset.mem_filter.mp isKept
    obtain ⟨wasChosen, different⟩ := fewer other isIn isKept
    exact Finset.mem_erase.mpr ⟨different, Finset.mem_filter.mpr ⟨isIn, wasChosen⟩⟩
  have smaller := Finset.card_le_card subset
  split
  · rename_i wasChosen
    rw [← Finset.card_erase_add_one (Finset.mem_filter.mpr ⟨isElement, wasChosen⟩)]
    exact Nat.add_le_add_right smaller 1
  · exact smaller.trans (Finset.card_le_card (Finset.erase_subset _ _))

theorem upperPath_block (page : Nat) : upperPath (page / 512 * 512) = upperPath page := by
  unfold upperPath
  simp only [List.cons.injEq, and_true]
  omega

theorem physical_large (virt raw : Nat) : physical virt (raw, 1) =
    PageTableEntry.addr raw / 2 ^ 21 * 2 ^ 21 + virt % 2 ^ 21 := by
  have mask : (0x1fffff : Nat) = 2 ^ 21 - 1 := by norm_num
  unfold physical
  rw [if_neg Nat.one_ne_zero, if_pos rfl, mask]
  exact or_mask_two_pow virt 21 (PageTableEntry.addr_lt raw) (by omega)

theorem reach_of_view {raw : Nat} (found : view memory root page = some (raw, 0)) :
    reach (slots memory) root (upperPath page) ≠ none := by
  obtain ⟨second, link, found⟩ := pointer_of_lookup found (Nat.succ_pos _)
  obtain ⟨third, lower, -⟩ := pointer_of_lookup found (Nat.succ_pos _)
  rw [upperPath, reach_cons_pointer link, reach_cons_pointer lower]
  exact Option.some_ne_none third

theorem unopened_iff
    (clear : ∀ raw level, view memory root page = some (raw, level) → level = 0) :
    Unopened memory root (page / 512) ↔ reach (slots memory) root (upperPath page) = none := by
  unfold Unopened
  rw [upperPath_block]
  refine ⟨And.left, fun unreached => ⟨unreached, ?_⟩⟩
  have same : view memory root (page / 512 * 512) = view memory root page := by
    unfold view pagePath
    rw [upperPath_block]
    exact lookup_of_unreached unreached _ _
  rw [same]
  cases found : view memory root page with
  | none => rfl
  | some leaf =>
    obtain ⟨raw, level⟩ := leaf
    obtain rfl := clear raw level found
    exact absurd unreached (reach_of_view found)

/-- Where fewer tables and blocks are left, the tables for a page were among them. -/
theorem opened_le_unopened (inRange : page < pageLimit) {first second : Nat → Prop}
    [DecidablePred first] [DecidablePred second]
    (fewer : ∀ high < 512, first high →
      reach (slots memory) root [high] = none ∧ high ≠ page / 2 ^ 18)
    (fewerBlocks : ∀ block < 512 * 512, second block →
      Unopened memory root block ∧ block ≠ page / 512) :
    ((Finset.range 512).filter first).card + ((Finset.range (512 * 512)).filter second).card +
      ((if reach (slots memory) root [page / 2 ^ 18] = none then 1 else 0) +
        if Unopened memory root (page / 512) then 1 else 0) ≤ unopened memory root := by
  unfold pageLimit at inRange
  have tables := card_filter_add_le (Finset.mem_range.mpr (show page / 2 ^ 18 < 512 by omega))
    fun high isHigh => fewer high (Finset.mem_range.mp isHigh)
  have blocks := card_filter_add_le (Finset.mem_range.mpr (show page / 512 < 512 * 512 by omega))
    fun block isBlock => fewerBlocks block (Finset.mem_range.mp isBlock)
  unfold unopened
  omega

theorem unopened_drop {after : ByteMemory} (inRange : page < pageLimit)
    (fewer : ∀ high < 512, reach (slots after) root [high] = none →
      reach (slots memory) root [high] = none ∧ high ≠ page / 2 ^ 18)
    (fewerBlocks : ∀ block < 512 * 512, Unopened after root block →
      Unopened memory root block ∧ block ≠ page / 512) :
    unopened after root + ((if reach (slots memory) root [page / 2 ^ 18] = none then 1 else 0) +
      if Unopened memory root (page / 512) then 1 else 0) ≤ unopened memory root :=
  opened_le_unopened inRange fewer fewerBlocks

theorem lacking_le_unopened (inRange : page < pageLimit)
    (clear : ∀ raw level, view memory root page = some (raw, level) → level = 0) :
    lacking memory root page ≤ unopened memory root := by
  have least := @opened_le_unopened memory root page inRange (fun _ => False) (fun _ => False) _ _
    nofun nofun
  rw [lacking, ← if_congr (unopened_iff clear) rfl rfl]
  omega

end Room

/-- The tables of a mapper, with frames for all that may still be created. -/
structure Maps (source : FrameSource) (mapper : PageMapper) (machine : Machine)
    (rank : Nat → Option Nat) : Prop where
  spaces : Spaces source (fun _ => False) machine rank
  isRoot : rank mapper.rootTable = some 2
  room : machine.allocated + unopened machine.memory mapper.rootTable ≤ source.owned

/-- The first part of a call is mapped over earlier leaves. -/
def Mapped (call : MapCall) (before : Nat → Option (Nat × Nat)) (mapper : PageMapper)
    (machine : Machine) (offset : Nat) : Prop :=
  ∀ virt, Canonical virt → view machine.memory mapper.rootTable (pageOf virt) =
    if call.virtStart ≤ virt ∧ virt < call.virtStart + offset then some (call.leaf virt)
    else before virt

theorem ite_extend {Value : Type} {start offset size virt : Nat} {value other : Value} :
    (if start + offset ≤ virt ∧ virt < start + offset + size then value
      else if start ≤ virt ∧ virt < start + offset then value else other) =
      if start ≤ virt ∧ virt < start + (offset + size) then value else other := by
  by_cases inPage : start + offset ≤ virt ∧ virt < start + offset + size
  · rw [if_pos inPage, if_pos (by omega)]
  · rw [if_neg inPage]
    by_cases covered : start ≤ virt ∧ virt < start + offset
    · rw [if_pos covered, if_pos (by omega)]
    · rw [if_neg covered, if_neg (by omega)]

section Steps

variable {source : FrameSource} {mapper : PageMapper} {machine : Machine}
  {rank : Nat → Option Nat} {virt phys : Nat} {flags : PageFlags}

theorem Maps.mapSmall (maps : Maps source mapper machine rank)
    (clear : ∀ raw level, view machine.memory mapper.rootTable (pageOf virt) = some (raw, level) →
      level = 0)
    (permitted : flags.intersects PageFlags.permissions = true) :
    let after := mapper.mapPage source.frames machine virt phys flags 0
    ∃ grown, Maps source mapper after grown ∧ ∀ page < pageLimit,
      view after.memory mapper.rootTable page =
        if page = pageOf virt then some (PageTableEntry.set phys flags, 0)
        else view machine.memory mapper.rootTable page := by
  intro after
  have room := maps.room
  have few : after.allocated ≤ machine.allocated + _ :=
    openThird_allocated_le source.frames machine mapper.rootTable virt
  have least := lacking_le_unopened (pageOf_lt virt) clear
  obtain ⟨grown, mapped, -⟩ := maps.spaces.mapPage maps.isRoot clear permitted
    (show after.allocated ≤ source.owned by omega)
  have views : ∀ page < pageLimit, view after.memory mapper.rootTable page =
      if page = pageOf virt then some (PageTableEntry.set phys flags, 0)
      else view machine.memory mapper.rootTable page := by
    intro page inRange
    split
    · rename_i same
      rw [same]
      exact mapped.hit _ maps.isRoot (Or.inl rfl)
    · rename_i different
      exact mapped.miss _ maps.isRoot page inRange fun same => absurd same different
  refine ⟨grown, ⟨mapped.spaces, mapped.extends'.kept _ 2 maps.isRoot, ?_⟩, views⟩
  have dropped := @unopened_drop machine.memory mapper.rootTable _ after.memory (pageOf_lt virt)
    ?_ ?_
  · rw [if_congr (unopened_iff clear) rfl rfl] at dropped
    have counted : after.allocated = _ := mapped.count
    unfold lacking at counted
    omega
  · intro high inRange unreached
    obtain ⟨wasNone, different, -⟩ := (mapped.opens [high] (within_cons.mpr ⟨inRange, nofun⟩)).mp
      unreached
    exact ⟨wasNone, fun same => different (by rw [same])⟩
  · rintro block inRange ⟨unreached, unmapped⟩
    have blockRange : block * 512 < pageLimit := by
      unfold pageLimit
      omega
    obtain ⟨wasNone, -, different⟩ := (mapped.opens _ (upperPath_within blockRange)).mp unreached
    rw [views _ blockRange, if_neg fun same => different (by rw [same])] at unmapped
    refine ⟨⟨wasNone, unmapped⟩, ?_⟩
    rintro rfl
    exact different (upperPath_block _)

theorem Maps.mapLarge (maps : Maps source mapper machine rank)
    (clear : ∀ raw, view machine.memory mapper.rootTable (pageOf virt) ≠ some (raw, 2))
    (permitted : flags.intersects PageFlags.permissions = true) :
    let after := mapper.mapPage source.frames machine virt phys flags 1
    ∃ grown, Maps source mapper after grown ∧ ∀ page < pageLimit,
      view after.memory mapper.rootTable page =
        if upperPath page = upperPath (pageOf virt) then some (PageTableEntry.set phys flags, 1)
        else view machine.memory mapper.rootTable page := by
  intro after
  have room := maps.room
  have highEq : pageOf virt / 2 ^ 18 = vpn2 virt := (List.cons.inj (upperPath_pageOf virt).1).1
  have few : after.allocated ≤ machine.allocated + _ :=
    nextLevel_allocated_le source.frames machine mapper.rootTable (vpn2 virt)
  have least := @opened_le_unopened machine.memory mapper.rootTable _ (pageOf_lt virt)
    (fun _ => False) (fun _ => False) _ _ nofun nofun
  rw [highEq] at least
  obtain ⟨grown, mapped⟩ := maps.spaces.mapLarge maps.isRoot clear permitted
    (show after.allocated ≤ source.owned by omega)
  have views : ∀ page < pageLimit, view after.memory mapper.rootTable page =
      if upperPath page = upperPath (pageOf virt) then some (PageTableEntry.set phys flags, 1)
      else view machine.memory mapper.rootTable page := by
    intro page inRange
    split
    · rename_i same
      exact mapped.hit page inRange same
    · rename_i different
      exact (mapped.miss page inRange different).1
  refine ⟨grown, ⟨mapped.spaces, mapped.extends'.kept _ 2 maps.isRoot, ?_⟩, views⟩
  have dropped := @unopened_drop machine.memory mapper.rootTable _ after.memory (pageOf_lt virt)
    mapped.opens ?_
  · have counted : after.allocated = _ := mapped.count
    omega
  · rintro block inRange ⟨unreached, unmapped⟩
    have blockRange : block * 512 < pageLimit := by
      unfold pageLimit
      omega
    have different : upperPath (block * 512) ≠ upperPath (pageOf virt) := by
      intro same
      rw [mapped.hit _ blockRange same] at unmapped
      cases unmapped
    obtain ⟨viewEq, reachEq⟩ := mapped.miss _ blockRange different
    refine ⟨⟨reachEq.symm.trans unreached, viewEq.symm.trans unmapped⟩, ?_⟩
    rintro rfl
    exact different (upperPath_block _)

end Steps

section Calls

variable {source : FrameSource} {mapper : PageMapper} {machine : Machine}
  {rank : Nat → Option Nat} {call : MapCall} {before : Nat → Option (Nat × Nat)} {offset virt : Nat}

theorem MapCall.leaf_eq (aligned : offset % call.pageSize.size = 0)
    (inPage : call.virtStart + offset ≤ virt ∧
      virt < call.virtStart + offset + call.pageSize.size) :
    call.leaf virt =
      (PageTableEntry.set (call.physStart + offset) call.flags, call.pageSize.level) := by
  obtain ⟨count, rfl⟩ := Nat.dvd_of_mod_eq_zero aligned
  have base : (virt - call.virtStart) / call.pageSize.size = count := by
    rw [Nat.div_eq_iff (by omega)]
    have product := Nat.mul_comm count call.pageSize.size
    omega
  unfold leaf pagePhys pageBase
  rw [base, Nat.add_sub_cancel_left, Nat.mul_comm]

theorem Mapped.extend {after : Machine} (mapped : Mapped call before mapper machine offset)
    (aligned : offset % call.pageSize.size = 0)
    (views : ∀ virt, Canonical virt → view after.memory mapper.rootTable (pageOf virt) =
      if call.virtStart + offset ≤ virt ∧ virt < call.virtStart + offset + call.pageSize.size then
        some (PageTableEntry.set (call.physStart + offset) call.flags, call.pageSize.level)
      else view machine.memory mapper.rootTable (pageOf virt)) :
    Mapped call before mapper after (offset + call.pageSize.size) := by
  intro virt canonical
  rw [views virt canonical, mapped virt canonical, ← ite_extend]
  refine ite_congr rfl (fun inPage => ?_) fun _ => rfl
  rw [call.leaf_eq aligned inPage]

section Loop

variable (valid : call.Valid)
  (levels : ∀ virt, Canonical virt → ∀ raw level, before virt = some (raw, level) →
    level ≠ 2 ∧ (call.pageSize = .size4K → call.Covers virt → level = 0))

include valid levels

theorem Maps.mapPage (maps : Maps source mapper machine rank)
    (mapped : Mapped call before mapper machine offset) (aligned : offset % call.pageSize.size = 0)
    (inRange : call.virtStart + offset < call.stop) :
    let after := mapper.mapPage source.frames machine (call.virtStart + offset)
      (call.physStart + offset) call.flags call.pageSize.level
    ∃ grown, Maps source mapper after grown ∧
      Mapped call before mapper after (offset + call.pageSize.size) := by
  intro after
  obtain ⟨virtAligned, -, stopAligned, ordered, canonical, -, permitted, sized⟩ := valid
  have isCanonical : Canonical (call.virtStart + offset) := by
    unfold Canonical
    omega
  have earlier : ∀ raw level, view machine.memory mapper.rootTable
      (pageOf (call.virtStart + offset)) = some (raw, level) →
        level ≠ 2 ∧ (call.pageSize = .size4K → level = 0) := by
    intro raw level found
    rw [mapped _ isCanonical, if_neg (by omega)] at found
    obtain ⟨notHuge, small⟩ := levels _ isCanonical raw level found
    exact ⟨notHuge, fun isSmall => small isSmall ⟨by omega, inRange⟩⟩
  have extended := @Mapped.extend mapper machine call before offset after mapped aligned
  cases size : call.pageSize with
  | size1G => exact absurd size sized
  | size2M =>
    rw [size] at aligned virtAligned extended
    simp only [PageSize.size, PageSize.level, Nat.reduceMul] at aligned virtAligned extended
    obtain ⟨grown, mapsAfter, views⟩ := @Maps.mapLarge _ _ _ _ (call.virtStart + offset)
      (call.physStart + offset) call.flags maps (fun raw found => (earlier raw 2 found).1 rfl)
        permitted
    have afterEq : after = mapper.mapPage source.frames machine (call.virtStart + offset)
        (call.physStart + offset) call.flags 1 := by
      rw [← show PageSize.size2M.level = 1 from rfl, ← size]
    rw [← afterEq] at mapsAfter views
    refine ⟨grown, mapsAfter, extended fun virt virtCanonical => ?_⟩
    rw [views _ (pageOf_lt virt)]
    exact if_congr (same_large virtCanonical isCanonical (by omega)) rfl rfl
  | size4K =>
    rw [size] at aligned virtAligned extended
    simp only [PageSize.size, PageSize.level, Nat.reduceMul] at aligned virtAligned extended
    obtain ⟨grown, mapsAfter, views⟩ := @Maps.mapSmall _ _ _ _ (call.virtStart + offset)
      (call.physStart + offset) call.flags maps (fun raw level found =>
        (earlier raw level found).2 size)
      permitted
    have afterEq : after = mapper.mapPage source.frames machine (call.virtStart + offset)
        (call.physStart + offset) call.flags 0 := by
      rw [← show PageSize.size4K.level = 0 from rfl, ← size]
    rw [← afterEq] at mapsAfter views
    refine ⟨grown, mapsAfter, extended fun virt virtCanonical => ?_⟩
    rw [views _ (pageOf_lt virt)]
    exact if_congr (same_small virtCanonical isCanonical (by omega)) rfl rfl

theorem Maps.mapLoop {remaining : Nat} (maps : Maps source mapper machine rank)
    (mapped : Mapped call before mapper machine offset) (aligned : offset % call.pageSize.size = 0)
    (left : offset + remaining * call.pageSize.size = call.stop - call.virtStart) :
    ∃ done grown,
      mapper.mapLoop source.frames call.virtStart call.physStart (call.stop - call.virtStart)
        call.flags call.pageSize (remaining + 1) machine offset = .ok done ∧
      Maps source mapper done grown ∧
      Mapped call before mapper done (call.stop - call.virtStart) := by
  induction remaining generalizing machine rank offset with
  | zero =>
    have atEnd : offset = call.stop - call.virtStart := by omega
    refine ⟨machine, rank, ?_, maps, atEnd ▸ mapped⟩
    unfold PageMapper.mapLoop
    rw [if_neg (by omega)]
  | succ remaining ih =>
    have positive : 0 < call.pageSize.size := by cases call.pageSize <;> decide
    have stepped : (remaining + 1) * call.pageSize.size =
        remaining * call.pageSize.size + call.pageSize.size := Nat.succ_mul _ _
    have canonical := valid.canonical
    have physical := valid.physical
    obtain ⟨grown, mapsAfter, mappedAfter⟩ :=
      maps.mapPage valid levels mapped aligned (by omega)
    obtain ⟨done, final, looped, mapsDone, mappedDone⟩ :=
      ih mapsAfter mappedAfter (by rw [Nat.add_mod_right, aligned]) (by omega)
    refine ⟨done, final, ?_, mapsDone, mappedDone⟩
    rw [PageMapper.mapLoop, if_pos (by omega), checkedAdd_bind (by omega),
      checkedAdd_bind (by omega), checkedAdd_bind (by omega)]
    exact looped

theorem Maps.mapRange (maps : Maps source mapper machine rank)
    (mapped : Mapped call before mapper machine 0) :
    ∃ done grown,
      mapper.mapRange source.frames machine call.virtStart call.physStart call.stop call.flags
        call.pageSize = .ok done ∧
      Maps source mapper done grown ∧
      Mapped call before mapper done (call.stop - call.virtStart) := by
  have whole : (call.stop - call.virtStart) / call.pageSize.size * call.pageSize.size =
      call.stop - call.virtStart :=
    Nat.div_mul_cancel (Nat.dvd_sub (Nat.dvd_of_mod_eq_zero valid.stopAligned)
      (Nat.dvd_of_mod_eq_zero valid.virtAligned))
  obtain ⟨done, grown, looped, mapsDone, mappedDone⟩ := maps.mapLoop valid levels mapped
    (Nat.zero_mod _) (by rw [whole, Nat.zero_add])
  refine ⟨done, grown, ?_, mapsDone, mappedDone⟩
  dsimp only [PageMapper.mapRange]
  rw [ensure_bind valid.virtAligned, ensure_bind valid.physAligned,
    ensure_bind valid.stopAligned, checkedSub_bind valid.ordered]
  exact looped

end Loop

theorem recent_cons {earlier : List MapCall} (virt : Nat) :
    recent (call :: earlier) virt =
      if call.Covers virt then some call else recent earlier virt := by
  unfold recent
  by_cases covers : call.Covers virt
  · simp [covers]
  · simp [covers]

theorem Admissible.valid {calls : List MapCall} (admissible : Admissible calls) :
    ∀ call ∈ calls, call.Valid := by
  induction calls with
  | nil => nofun
  | cons call earlier ih =>
    intro other isCall
    rcases List.mem_cons.mp isCall with rfl | isEarlier
    · exact admissible.2.1
    · exact ih admissible.1 other isEarlier

theorem recent_facts {calls : List MapCall} (admissible : Admissible calls)
    (isRecent : recent calls virt = some call) : call.Valid ∧ call.Covers virt :=
  ⟨admissible.valid call (List.mem_of_find?_eq_some isRecent),
    by simpa using List.find?_some isRecent⟩

/-- The leaves are those of the most recent calls. -/
def Describes (calls : List MapCall) (mapper : PageMapper) (machine : Machine) : Prop :=
  ∀ virt, Canonical virt → view machine.memory mapper.rootTable (pageOf virt) =
    (recent calls virt).map fun call => call.leaf virt

theorem run_describes {frames : Nat → Nat} {calls : List MapCall} (fresh : FreshFrames frames)
    (memory : ByteMemory) (admissible : Admissible calls) :
    ∃ mapper machine rank, run frames memory calls = .ok (mapper, machine) ∧
      Maps fresh.source mapper machine rank ∧ Describes calls mapper machine := by
  induction calls with
  | nil =>
    have left : (⟨memory, 0⟩ : Machine).allocated < fresh.source.owned := Nat.succ_pos _
    obtain ⟨added, -, -, empty⟩ := (spaces_none left.le).add left 2
    refine ⟨_, _, _, rfl, ⟨added, Function.update_self .., ?_⟩, ?_⟩
    · have highs := Finset.card_filter_le (Finset.range 512) fun high =>
        reach (slots (zeroPageTable memory (frames 0))) (frames 0) [high] = none
      have blocks := Finset.card_filter_le (Finset.range (512 * 512))
        (Unopened (zeroPageTable memory (frames 0)) (frames 0))
      rw [Finset.card_range] at highs blocks
      exact Nat.add_le_add_left (Nat.add_le_add highs blocks) 1
    · intro virt _
      exact lookup_cons_invalid (empty _ (within_cons.mp (pagePath_within (pageOf_lt virt))).1)
  | cons call earlier ih =>
    obtain ⟨earlierAdmissible, valid, clear⟩ := admissible
    obtain ⟨mapper, machine, rank, ran, maps, describes⟩ := ih earlierAdmissible
    have levels : ∀ virt, Canonical virt → ∀ raw level,
        ((recent earlier virt).map fun call => call.leaf virt) = some (raw, level) →
          level ≠ 2 ∧ (call.pageSize = .size4K → call.Covers virt → level = 0) := by
      intro virt _ raw level found
      obtain ⟨previous, isRecent, leafEq⟩ := Option.map_eq_some_iff.mp found
      have sized := (recent_facts earlierAdmissible isRecent).1.sized
      obtain rfl : previous.pageSize.level = level := congrArg Prod.snd leafEq
      have notLarge := fun isSmall covers => clear isSmall virt covers previous isRecent
      cases size : previous.pageSize with
      | size4K => exact ⟨nofun, fun _ _ => rfl⟩
      | size2M => exact ⟨nofun, fun isSmall covers => absurd size (notLarge isSmall covers)⟩
      | size1G => exact absurd size sized
    obtain ⟨done, grown, mapped, mapsDone, mappedDone⟩ := maps.mapRange valid levels
      fun virt canonical => by rw [if_neg (by omega), describes virt canonical]
    refine ⟨mapper, done, grown, bind_eq_ok.mpr ⟨(mapper, machine), ran,
      bind_eq_ok.mpr ⟨done, mapped, rfl⟩⟩, mapsDone, ?_⟩
    intro virt canonical
    have covers : (call.virtStart ≤ virt ∧
        virt < call.virtStart + (call.stop - call.virtStart)) ↔ call.Covers virt := by
      unfold MapCall.Covers
      omega
    rw [mappedDone virt canonical, recent_cons, if_congr covers rfl rfl]
    split <;> rfl

/-- `virt_to_phys` ends at the address that the call maps there. -/
theorem MapCall.Valid.physical_leaf (valid : call.Valid) (covers : call.Covers virt) :
    PageMapping.physical virt (call.leaf virt) =
      call.pagePhys (call.pageBase virt) + (virt - call.pageBase virt) := by
  obtain ⟨virtAligned, physAligned, -, -, -, physical, -, sized⟩ := valid
  obtain ⟨lower, upper⟩ := covers
  have below := Nat.div_mul_le_self (virt - call.virtStart) call.pageSize.size
  unfold MapCall.leaf MapCall.pagePhys MapCall.pageBase
  cases size : call.pageSize with
  | size1G => exact absurd size sized
  | size2M =>
    rw [size] at virtAligned physAligned below
    simp only [PageSize.size, PageSize.level, Nat.reduceMul] at virtAligned physAligned below ⊢
    rw [physical_large, PageTableEntry.addr_set (by omega) (by omega)]
    omega
  | size4K =>
    rw [size] at virtAligned physAligned below
    simp only [PageSize.size, PageSize.level, Nat.reduceMul] at virtAligned physAligned below ⊢
    rw [physical_small, PageTableEntry.addr_set (by omega) (by omega)]
    omega

/-- Over a page allocator with fresh frames, every sequence of valid calls that
maps no small page under a large one returns, and `virt_to_phys` then gives each
canonical address what the last call covering it mapped, and nothing to an
address that no call covers. -/
theorem virtToPhys_last_writer {frames : Nat → Nat} {calls : List MapCall}
    (fresh : FreshFrames frames) (admissible : Admissible calls) (memory : ByteMemory) :
    ∃ mapper machine, run frames memory calls = .ok (mapper, machine) ∧
      ∀ virt, Canonical virt →
        mapper.virtToPhys machine.memory virt = translation calls virt := by
  obtain ⟨mapper, machine, rank, ran, maps, describes⟩ := run_describes fresh memory admissible
  refine ⟨mapper, machine, ran, ?_⟩
  intro virt canonical
  rw [maps.spaces.virtToPhys_eq maps.isRoot, describes virt canonical, translation, Option.map_map]
  refine Option.map_congr fun call isRecent => ?_
  obtain ⟨valid, covers⟩ := recent_facts admissible isRecent
  exact valid.physical_leaf covers

/-- Frames handed out in order from the base of memory. -/
def countingFrames (count : Nat) : Nat := 0x8000_0000 + count * 4096

theorem freshFrames_counting : FreshFrames countingFrames := by
  refine ⟨?_, ?_, ?_⟩
  · intro count inRange
    unfold countingFrames
    omega
  · intro count inRange
    have upper : count < 262657 := inRange
    unfold countingFrames
    omega
  · intro first second firstIn secondIn same
    unfold countingFrames at same
    omega

def overlappingCalls : List MapCall :=
  [⟨0x4020_0000, 0x8060_0000, 0x4040_0000, PageFlags.read, .size2M⟩,
    ⟨0x4020_1000, 0x9000_0000, 0x4020_2000, PageFlags.write, .size4K⟩]

theorem admissible_overlappingCalls : Admissible overlappingCalls := by
  refine ⟨⟨trivial, ?_, ?_⟩, ?_, ?_⟩
  · exact ⟨by decide, by decide, by decide, by decide, by decide, by decide, by decide, by decide⟩
  · intro _ virt _ previous isRecent
    cases isRecent
  · exact ⟨by decide, by decide, by decide, by decide, by decide, by decide, by decide, by decide⟩
  · intro isSmall
    cases isSmall

theorem largePage_over_smallPage : ∃ mapper machine,
    run countingFrames (fun _ => 0) overlappingCalls = .ok (mapper, machine) ∧
      mapper.virtToPhys machine.memory 0x4020_1234 = some 0x8060_1234 ∧
      mapper.virtToPhys machine.memory 0x4040_0000 = none := by
  obtain ⟨mapper, machine, ran, translated⟩ :=
    virtToPhys_last_writer freshFrames_counting admissible_overlappingCalls fun _ => 0
  refine ⟨mapper, machine, ran, ?_, ?_⟩
  · exact (translated _ (Or.inl (by decide))).trans (by decide)
  · exact (translated _ (Or.inl (by decide))).trans (by decide)

end Calls

end NanoOs.PageMapping
