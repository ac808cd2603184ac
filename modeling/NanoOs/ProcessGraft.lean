import NanoOs.ElfSegments
import NanoOs.PageSwitching

/-!
# Handing the load area over to a process

The second-level table of the load area is switched to the user and moves from
the root of the kernel to the root of the process.  The process then has the
pages of the load area as its first gigabyte, and the kernel has none of them.
-/

namespace NanoOs.ProcessMemoryMap

open KernelMemoryMap PageMapping RadixTables

def areaPages : Nat := 2 ^ 18

def userLeaf (found : Nat × Nat) : Nat × Nat := (PageTableEntry.setUserFlag found.1, found.2)

/-- The load area of the kernel has become the first pages of a process. -/
structure Grafted (supply : FrameSupply) (shared : Nat → Prop) (machine after : Machine)
    (rank : Nat → Option Nat) (kernelRoot root : Nat) : Prop where
  spaces : Spaces supply shared after rank
  allocated : after.allocated = machine.allocated
  image : ∀ page < areaPages, view after.memory root page =
    (view machine.memory kernelRoot (highPage + page)).map userLeaf
  vacant : entry after.memory kernelRoot processLoadAreaEntry = 0
  kept : ∀ other, rank other = some 2 → ∀ page < pageLimit,
    ¬ (other = root ∧ page < areaPages) →
    ¬ (other = kernelRoot ∧ page / areaPages = processLoadAreaEntry) →
      view after.memory other page = view machine.memory other page
  shares : ∀ other, rank other = some 2 → ∀ page < pageLimit, ∀ table, shared table →
    (reach (slots after.memory) other (upperPath page) = some table ↔
      reach (slots machine.memory) other (upperPath page) = some table)
  rootEntries : ∀ other, rank other = some 2 → ∀ index < pageEntries,
    ¬ (other = root ∧ index = 0) → ¬ (other = kernelRoot ∧ index = processLoadAreaEntry) →
      entry after.memory other index = entry machine.memory other index
  elsewhere : ∀ location, OutsideTables rank location →
    after.memory location = machine.memory location

section Paths

variable {page : Nat}

theorem pagePath_cons (page : Nat) :
    pagePath page = page / 2 ^ 18 :: [page / 2 ^ 9 % 512, page % 512] := rfl

theorem upperPath_low (small : page < areaPages) : upperPath page = [0, page / 2 ^ 9 % 512] := by
  unfold areaPages at small
  unfold upperPath
  rw [Nat.div_eq_of_lt small]

theorem upperPath_area (small : page < areaPages) :
    upperPath (highPage + page) = [processLoadAreaEntry, page / 2 ^ 9 % 512] ∧
      (highPage + page) % 512 = page % 512 := by
  unfold areaPages at small
  unfold upperPath highPage processLoadAreaEntry
  refine ⟨?_, by omega⟩
  have first : (2 ^ 26 + page) / 2 ^ 18 = 0x100 := by omega
  have second : (2 ^ 26 + page) / 2 ^ 9 % 512 = page / 2 ^ 9 % 512 := by omega
  rw [first, second]

theorem area_page (inArea : page / areaPages = processLoadAreaEntry) :
    ∃ offset < areaPages, page = highPage + offset := by
  unfold areaPages processLoadAreaEntry at inArea
  unfold areaPages highPage
  exact ⟨page - 2 ^ 26, by omega, by omega⟩

theorem area_below (small : page < areaPages) : highPage + page < pageLimit - 512 := by
  unfold areaPages at small
  unfold highPage pageLimit
  omega

end Paths

section Area

variable {supply : FrameSupply} {kernel : Kernel} {machine : Machine} {rank : Nat → Option Nat}
  {second : Nat} (space : KernelSpace supply kernel machine rank)
  (linked : slots machine.memory kernel.pageMapper.rootTable processLoadAreaEntry = .pointer second)

include space linked

theorem KernelSpace.area_ranked : rank second = some 1 := by
  obtain ⟨below, belowEq, secondRanked⟩ := space.spaces.forest.lower _ 2 space.isRoot
    processLoadAreaEntry (by decide) second linked
  obtain rfl : below = 1 := by omega
  exact secondRanked

theorem KernelSpace.area_noLeaf {index : Nat} (inRange : index < pageEntries) (raw : Nat) :
    slots machine.memory second index ≠ .leaf raw := by
  intro leaf
  unfold pageEntries at inRange
  have small : index * 512 < areaPages := by
    unfold areaPages
    omega
  have indexEq : index * 512 / 2 ^ 9 % 512 = index := by omega
  have found : view machine.memory kernel.pageMapper.rootTable (highPage + index * 512) =
      some (raw, 1) := by
    unfold view pagePath
    rw [(upperPath_area small).1, indexEq, List.cons_append, List.cons_append,
      lookup_cons_pointer linked, lookup_cons_leaf leaf]
    rfl
  have below := area_below small
  have isSmall := (space.high _ (Nat.le_add_right ..) (by omega) raw 1 found).1
  omega

theorem KernelSpace.area_only {root page child index : Nat} (isRoot : rank root = some 2)
    (inRange : page < pageLimit) (indexRange : index < pageEntries)
    (link : slots machine.memory second index = .pointer child)
    (reached : reach (slots machine.memory) root (upperPath page) = some child) :
    root = kernel.pageMapper.rootTable ∧ page / areaPages = processLoadAreaEntry := by
  unfold pageEntries at indexRange
  have small : index * 512 < areaPages := by
    unfold areaPages
    omega
  have indexEq : index * 512 / 2 ^ 9 % 512 = index := by omega
  have below := area_below small
  have areaRange : highPage + index * 512 < pageLimit := by omega
  have areaReached : reach (slots machine.memory) kernel.pageMapper.rootTable
      (upperPath (highPage + index * 512)) = some child := by
    rw [(upperPath_area small).1, indexEq, reach_cons_pointer linked, reach_cons_pointer link]
    rfl
  have notShared : ¬ child = kernel.lastL1Pte := by
    intro isShared
    have corner := space.spaces.corner _ space.isRoot _ areaRange child isShared areaReached
    omega
  obtain ⟨sameRoot, samePath⟩ := space.spaces.forest.reach_unique isRoot (upperPath_within inRange)
    space.isRoot (upperPath_within areaRange) rfl notShared reached areaReached
  refine ⟨sameRoot, ?_⟩
  rw [(upperPath_area small).1] at samePath
  exact (List.cons.inj samePath).1

theorem KernelSpace.switchArea :
    let after : Machine := { machine with memory := switchPagesToUser machine.memory second }
    (∀ page < areaPages, view after.memory kernel.pageMapper.rootTable (highPage + page) =
      (view machine.memory kernel.pageMapper.rootTable (highPage + page)).map userLeaf) ∧
    ∀ root, rank root = some 2 → ∀ page < pageLimit,
      ¬ (root = kernel.pageMapper.rootTable ∧ page / areaPages = processLoadAreaEntry) →
        view after.memory root page = view machine.memory root page := by
  intro after
  have switched := space.spaces.switchPages (space.area_ranked linked)
    fun index inRange raw => space.area_noLeaf linked inRange raw
  refine ⟨?_, ?_⟩
  · intro page small
    have below := area_below small
    have inRange : highPage + page < pageLimit := by omega
    have indexRange : page / 2 ^ 9 % 512 < pageEntries := Nat.mod_lt _ (by decide)
    obtain ⟨upperEq, -⟩ := upperPath_area small
    cases found : slots machine.memory second (page / 2 ^ 9 % 512) with
    | leaf raw => exact absurd found (space.area_noLeaf linked indexRange raw)
    | pointer child =>
      refine switched.switched _ space.isRoot _ inRange child ⟨_, indexRange, found⟩ ?_
      rw [upperEq, reach_cons_pointer linked, reach_cons_pointer found]
      rfl
    | invalid =>
      have unmapped : view machine.memory kernel.pageMapper.rootTable (highPage + page) = none := by
        unfold view pagePath
        rw [upperEq, List.cons_append, List.cons_append, lookup_cons_pointer linked,
          lookup_cons_invalid found]
      rw [switched.kept _ space.isRoot _ inRange, unmapped]
      · rfl
      · intro child reached
        rw [upperEq, reach_cons_pointer linked, reach_cons_invalid found] at reached
        cases reached
  · intro root isRoot page inRange aside
    refine switched.kept root isRoot page inRange ?_
    rintro child reached ⟨index, indexRange, link⟩
    exact aside (space.area_only linked isRoot inRange indexRange link reached)

theorem KernelSpace.switched_space : KernelSpace supply kernel
    { machine with memory := switchPagesToUser machine.memory second } rank := by
  have switched := space.spaces.switchPages (space.area_ranked linked)
    fun index inRange raw => space.area_noLeaf linked inRange raw
  obtain ⟨area, others⟩ := space.switchArea linked
  refine ⟨switched.spaces, space.isRoot, ?_⟩
  intro page lower upper raw level found
  by_cases inArea : page / areaPages = processLoadAreaEntry
  · obtain ⟨offset, small, rfl⟩ := area_page inArea
    rw [area offset small] at found
    obtain ⟨⟨before, beforeLevel⟩, beforeFound, leafEq⟩ := Option.map_eq_some_iff.mp found
    obtain ⟨rfl, rfl⟩ := Prod.mk.inj leafEq
    rw [PageTableEntry.addr_setUserFlag]
    exact space.high _ lower upper before beforeLevel beforeFound
  · rw [others _ space.isRoot page upper fun same => inArea same.2] at found
    exact space.high page lower upper raw level found

end Area

section Graft

variable {supply : FrameSupply} {kernel : Kernel} {machine after : Machine}
  {rank : Nat → Option Nat} {second : Nat} {pageMap : PageMapper}

theorem graftLoadArea_eq_ok (space : KernelSpace supply kernel machine rank)
    (linked : slots machine.memory kernel.pageMapper.rootTable processLoadAreaEntry =
      .pointer second) :
    graftLoadArea kernel machine pageMap = .ok after ↔ after = { machine with
      memory := setEntry (setEntry (switchPagesToUser machine.memory second) pageMap.rootTable 0
        (PageTableEntry.set second PageFlags.valid)) kernel.pageMapper.rootTable
        processLoadAreaEntry 0 } := by
  have addrEq : PageTableEntry.addr
      (entry machine.memory kernel.pageMapper.rootTable processLoadAreaEntry) = second :=
    (PageTableEntry.classify_pointer linked).2.2
  have lower := (space.spaces.frame_of_ranked (ranked (space.area_ranked linked))).2
  unfold graftLoadArea
  dsimp only
  rw [addrEq, ensure_bind (by omega), Except.ok.injEq, eq_comm]

section Move

variable (space : KernelSpace supply kernel machine rank)
  (linked : slots machine.memory kernel.pageMapper.rootTable processLoadAreaEntry =
    .pointer second)
  (isRoot : rank pageMap.rootTable = some 2)
  (apart : pageMap.rootTable ≠ kernel.pageMapper.rootTable)
  (memoryEq : after.memory = setEntry (setEntry machine.memory pageMap.rootTable 0
    (PageTableEntry.set second PageFlags.valid)) kernel.pageMapper.rootTable
    processLoadAreaEntry 0)

include memoryEq in
theorem move_vacant : entry after.memory kernel.pageMapper.rootTable processLoadAreaEntry = 0 := by
  rw [memoryEq]
  exact entry_setEntry_same (by decide)

include memoryEq in
theorem move_cleared :
    slots after.memory kernel.pageMapper.rootTable processLoadAreaEntry = .invalid := by
  unfold slots
  rw [move_vacant memoryEq, PageTableEntry.classify_zero]

include space isRoot memoryEq in
theorem KernelSpace.move_entries {other index : Nat} (isRanked : rank other ≠ none)
    (inRange : index < pageEntries) (notRoot : ¬ (other = pageMap.rootTable ∧ index = 0))
    (notKernel : ¬ (other = kernel.pageMapper.rootTable ∧ index = processLoadAreaEntry)) :
    entry after.memory other index = entry machine.memory other index := by
  have aligned := fun table (isRanked : rank table ≠ none) =>
    (space.spaces.aligned_of_ranked isRanked)
  have rootAligned := aligned _ (ranked isRoot)
  have kernelAligned := aligned _ (ranked space.isRoot)
  rw [memoryEq,
    entry_setEntry_ne kernelAligned (aligned _ isRanked) (by decide) inRange notKernel,
    entry_setEntry_ne rootAligned (aligned _ isRanked) (by decide) inRange notRoot]

include space linked isRoot apart memoryEq in
theorem KernelSpace.move_linked : slots after.memory pageMap.rootTable 0 = .pointer second := by
  have aligned := fun table (isRanked : rank table ≠ none) =>
    (space.spaces.aligned_of_ranked isRanked)
  have rootAligned := aligned _ (ranked isRoot)
  have kernelAligned := aligned _ (ranked space.isRoot)
  have isTable := ranked (space.area_ranked linked)
  have upper := (space.spaces.frame_of_ranked isTable).1
  have entryEq : entry after.memory pageMap.rootTable 0 =
      PageTableEntry.set second PageFlags.valid := by
    rw [memoryEq, entry_setEntry_ne kernelAligned rootAligned (by decide) (by decide)
      fun same => apart same.1]
    exact entry_setEntry_same (set_lt _ _)
  unfold slots
  rw [entryEq]
  exact PageTableEntry.classify_set_empty (by omega) (aligned _ isTable)

include space isRoot memoryEq in
theorem KernelSpace.move_lower (table height : Nat) (isRanked : rank table = some height)
    (bounded : height ≤ 1) (index : Nat) (inRange : index < pageEntries) :
    slots after.memory table index = slots machine.memory table index := by
  refine slots_congr (space.move_entries isRoot memoryEq (ranked isRanked) inRange ?_ ?_)
  · rintro ⟨rfl, -⟩
    rw [isRoot] at isRanked
    cases isRanked
    omega
  · rintro ⟨rfl, -⟩
    rw [space.isRoot] at isRanked
    cases isRanked
    omega

include space isRoot memoryEq in
theorem KernelSpace.move_walk {other page : Nat} (otherRoot : rank other = some 2)
    (inRange : page < pageLimit) (notRoot : ¬ (other = pageMap.rootTable ∧ page < areaPages))
    (notKernel : ¬ (other = kernel.pageMapper.rootTable ∧
      page / areaPages = processLoadAreaEntry)) :
    reach (slots after.memory) other (upperPath page) =
        reach (slots machine.memory) other (upperPath page) ∧
      view after.memory other page = view machine.memory other page := by
  have within := pagePath_within inRange
  have lower := space.move_lower isRoot memoryEq
  have firstEntry : slots after.memory other (page / 2 ^ 18) =
      slots machine.memory other (page / 2 ^ 18) := by
    refine slots_congr (space.move_entries isRoot memoryEq (ranked otherRoot)
      (within_cons.mp within).1 ?_ notKernel)
    rintro ⟨isProcess, isFirst⟩
    refine notRoot ⟨isProcess, ?_⟩
    unfold areaPages
    omega
  exact ⟨(space.spaces.forest.walk_keep lower otherRoot le_rfl (upperPath_within inRange)
      firstEntry).1,
    (space.spaces.forest.walk_keep lower otherRoot le_rfl within firstEntry).2⟩

include space linked isRoot apart memoryEq in
theorem KernelSpace.move_moved {page : Nat} (small : page < areaPages) :
    reach (slots after.memory) pageMap.rootTable (upperPath page) =
        reach (slots machine.memory) kernel.pageMapper.rootTable (upperPath (highPage + page)) ∧
      view after.memory pageMap.rootTable page =
        view machine.memory kernel.pageMapper.rootTable (highPage + page) := by
  have grafted := space.move_linked linked isRoot apart memoryEq
  have middleRange : page / 2 ^ 9 % 512 < pageEntries := Nat.mod_lt _ (by decide)
  have lowRange : page % 512 < pageEntries := Nat.mod_lt _ (by decide)
  obtain ⟨upperEq, lowEq⟩ := upperPath_area small
  have below : ∀ path, Within pageEntries path →
      reach (slots after.memory) second path = reach (slots machine.memory) second path ∧
        lookup (slots after.memory) second path = lookup (slots machine.memory) second path :=
    fun path within => space.spaces.forest.walk_congr (space.move_lower isRoot memoryEq)
      (space.area_ranked linked) le_rfl within
  unfold view pagePath
  rw [upperPath_low small, upperEq, lowEq]
  simp only [List.cons_append, List.nil_append]
  rw [reach_cons_pointer grafted, reach_cons_pointer linked, lookup_cons_pointer grafted,
    lookup_cons_pointer linked]
  refine ⟨(below _ ?_).1, (below _ ?_).2⟩
  · rw [within_cons]
    exact ⟨middleRange, nofun⟩
  · rw [within_cons, within_cons]
    exact ⟨middleRange, lowRange, nofun⟩

include space linked isRoot apart memoryEq in
theorem KernelSpace.move_shares (free : slots machine.memory pageMap.rootTable 0 = .invalid)
    {other page table : Nat} (otherRoot : rank other = some 2) (inRange : page < pageLimit)
    (isShared : table = kernel.lastL1Pte) :
    reach (slots after.memory) other (upperPath page) = some table ↔
      reach (slots machine.memory) other (upperPath page) = some table := by
  have corner : ∀ offset < areaPages, reach (slots machine.memory) kernel.pageMapper.rootTable
      (upperPath (highPage + offset)) ≠ some table := by
    intro offset small reached
    have below := area_below small
    have atCorner := space.spaces.corner _ space.isRoot _ (by omega) table isShared reached
    omega
  by_cases inImage : other = pageMap.rootTable ∧ page < areaPages
  · obtain ⟨rfl, small⟩ := inImage
    rw [(space.move_moved linked isRoot apart memoryEq small).1, upperPath_low small,
      reach_cons_invalid free]
    exact iff_of_false (corner page small) nofun
  · by_cases inArea : other = kernel.pageMapper.rootTable ∧ page / areaPages = processLoadAreaEntry
    · obtain ⟨rfl, areaEq⟩ := inArea
      obtain ⟨offset, small, rfl⟩ := area_page areaEq
      refine iff_of_false ?_ (corner offset small)
      rw [(upperPath_area small).1, reach_cons_invalid (move_cleared memoryEq)]
      nofun
    · rw [(space.move_walk isRoot memoryEq otherRoot inRange inImage inArea).1]

include space linked isRoot apart memoryEq in
theorem KernelSpace.move_spaces (free : slots machine.memory pageMap.rootTable 0 = .invalid)
    (allocated : after.allocated = machine.allocated) :
    Spaces supply (· = kernel.lastL1Pte) after rank := by
  refine ⟨?_, ?_, ?_, ?_⟩
  · refine space.spaces.forest.move space.isRoot isRoot (by decide) linked (move_cleared memoryEq)
      (space.move_linked linked isRoot apart memoryEq) ?_
    intro other isRanked slot slotRange notRoot notKernel
    exact slots_congr (space.move_entries isRoot memoryEq isRanked slotRange notRoot notKernel)
  · rw [allocated]
    exact space.spaces.used
  · rw [allocated]
    exact space.spaces.owned
  · intro other otherRoot page inRange table isShared reached
    exact space.spaces.corner other otherRoot page inRange table isShared
      ((space.move_shares linked isRoot apart memoryEq free otherRoot inRange isShared).mp reached)

end Move

variable (space : KernelSpace supply kernel machine rank)
  (linked : slots machine.memory kernel.pageMapper.rootTable processLoadAreaEntry =
    .pointer second)
  (isRoot : rank pageMap.rootTable = some 2)

include space linked isRoot

theorem KernelSpace.graft (apart : pageMap.rootTable ≠ kernel.pageMapper.rootTable)
    (free : slots machine.memory pageMap.rootTable 0 = .invalid)
    (ran : graftLoadArea kernel machine pageMap = .ok after) :
    Grafted supply (· = kernel.lastL1Pte) machine after rank kernel.pageMapper.rootTable
      pageMap.rootTable := by
  have switched := space.spaces.switchPages (space.area_ranked linked)
    fun index inRange raw => space.area_noLeaf linked inRange raw
  obtain ⟨area, others⟩ := space.switchArea linked
  have switchedSpace := space.switched_space linked
  have afterEq := (graftLoadArea_eq_ok space linked).mp ran
  obtain ⟨middle, middleEq⟩ : ∃ middle : Machine, middle =
    { machine with memory := switchPagesToUser machine.memory second } := ⟨_, rfl⟩
  have middleMemory : switchPagesToUser machine.memory second = middle.memory := by rw [middleEq]
  have middleAllocated : middle.allocated = machine.allocated := by rw [middleEq]
  rw [← middleEq] at switched switchedSpace
  rw [middleMemory] at afterEq
  rw [middleMemory] at area others
  have upper : ∀ root, rank root = some 2 → ∀ index < pageEntries,
      entry middle.memory root index = entry machine.memory root index := by
    intro root rootRanked index inRange
    refine switched.upper root (ranked rootRanked) ?_ index inRange
    rw [rootRanked]
    exact fun same => absurd (Option.some.inj same) (by decide)
  have stillLinked : slots middle.memory kernel.pageMapper.rootTable processLoadAreaEntry =
      .pointer second := by
    rw [slots_congr (upper _ space.isRoot _ (by decide)), linked]
  have stillFree : slots middle.memory pageMap.rootTable 0 = .invalid := by
    rw [slots_congr (upper _ isRoot _ (by decide)), free]
  have memoryEq : after.memory = setEntry (setEntry middle.memory pageMap.rootTable 0
      (PageTableEntry.set second PageFlags.valid)) kernel.pageMapper.rootTable
      processLoadAreaEntry 0 := by
    rw [afterEq]
  have allocated : after.allocated = middle.allocated := by
    rw [afterEq, middleAllocated]
  refine ⟨switchedSpace.move_spaces stillLinked isRoot apart memoryEq stillFree allocated,
    allocated.trans middleAllocated, ?_, move_vacant memoryEq, ?_, ?_, ?_, ?_⟩
  · intro page small
    rw [(switchedSpace.move_moved stillLinked isRoot apart memoryEq small).2, area page small]
  · intro other otherRoot page inRange notRoot notKernel
    rw [(switchedSpace.move_walk isRoot memoryEq otherRoot inRange notRoot notKernel).2,
      others other otherRoot page inRange notKernel]
  · intro other otherRoot page inRange table isShared
    rw [switchedSpace.move_shares stillLinked isRoot apart memoryEq stillFree otherRoot inRange
      isShared, switched.reaches other 2 otherRoot _ (upperPath_within inRange)]
  · intro other otherRoot index inRange notRoot notKernel
    rw [switchedSpace.move_entries isRoot memoryEq (ranked otherRoot) inRange notRoot
      notKernel, upper other otherRoot index inRange]
  · intro location outside
    rw [memoryEq, setEntry_outside (ranked space.isRoot) (by decide) outside,
      setEntry_outside (ranked isRoot) (by decide) outside,
      switched.elsewhere location outside]

omit isRoot in
theorem KernelSpace.graft_similar (ran : graftLoadArea kernel machine pageMap = .ok after)
    {other : Machine} (similar : Similar rank machine other) :
    ∃ otherAfter, graftLoadArea kernel other pageMap = .ok otherAfter ∧
      Similar rank after otherAfter := by
  have otherLinked : slots other.memory kernel.pageMapper.rootTable processLoadAreaEntry =
      .pointer second := by
    rw [similar.slots_eq (ranked space.isRoot) (by decide), linked]
  refine ⟨_, (graftLoadArea_eq_ok (space.of_similar similar) otherLinked).mpr rfl, ?_⟩
  rw [(graftLoadArea_eq_ok space linked).mp ran]
  have switched := similar.switchPages space.spaces (space.area_ranked linked)
    fun index inRange raw => space.area_noLeaf linked inRange raw
  have written := (switched.setEntry pageMap.rootTable 0
    (PageTableEntry.set second PageFlags.valid)).setEntry kernel.pageMapper.rootTable
    processLoadAreaEntry 0
  dsimp only at written
  exact written

end Graft

end NanoOs.ProcessMemoryMap
