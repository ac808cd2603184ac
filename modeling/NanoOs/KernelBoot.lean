import NanoOs.ProcessInit

/-!
# The page map after boot

`kernel_memory_map::init` maps RAM by large pages of the low half and the kernel
by small pages of the high half.  The last pages, with the trampoline and its
trap frame, are in the table that all processes will share.
-/

namespace NanoOs

namespace KernelMemoryMap

open PageMapping ProcessMemoryMap RadixTables
open Memory (Region)

/-- Where the boot loader and the linker place things: RAM lies in the low half
above the devices, the trampoline in the high half, and the page allocator owns
no frame of the kernel. -/
structure Layout (supply : FrameSupply) (memory : Region) (symbols : Symbols) : Prop where
  ramStart : 2 ^ 31 ≤ memory.start
  ramStop : memory.stop ≤ 2 ^ 38
  image : ∀ segment ∈ [symbols.text, symbols.rodata, symbols.data, symbols.bss],
    ∀ address, segment.start ≤ address → address < (segment.stop + 4095) / 4096 * 4096 →
      ∀ number < supply.owned, address ≠ highHalfPhysStart + supply.frames number
  trampoline : highHalfPhysStart ≤ symbols.procTramp.start
  trampolineLow : symbols.procTrampLma + (symbols.procTramp.stop - symbols.procTramp.start) ≤ 2 ^ 38
  trampolineImage : ∀ offset,
    symbols.procTramp.start + offset < (symbols.procTramp.stop + 4095) / 4096 * 4096 →
      ∀ number < supply.owned, symbols.procTrampLma + offset ≠ supply.frames number

variable {fuel offset phys size start virt stop : Nat} {memory : Region} {cpu : CpuType}

section Ram

structure RamMapped (supply : FrameSupply) (machine : Machine) (rank : Nat → Option Nat)
    (root : Nat) : Prop where
  spaces : Spaces supply (fun _ => False) machine rank
  isRoot : rank root = some 2
  noHuge : ∀ page < pageLimit, ∀ raw, view machine.memory root page ≠ some (raw, 2)
  low : ∀ page < pageLimit, page < 2 ^ 19 ∨ highPage ≤ page → view machine.memory root page = none
  vacant : entry machine.memory root processLoadAreaEntry = 0

variable {supply : FrameSupply} {machine after : Machine} {rank : Nat → Option Nat}
  {mapper : PageMapper} {flags : PageFlags}

theorem RamMapped.create (ran : PageMapper.create supply machine = .ok (mapper, after)) :
    ∃ rank, RamMapped supply after rank mapper.rootTable := by
  obtain ⟨left, created⟩ := ensure_bind_eq_ok.mp ran
  cases created
  obtain ⟨added, -, -, empty⟩ := (spaces_none left.le).add left 2
  have unmapped : ∀ page < pageLimit, view _ (supply.frames machine.allocated) page = none :=
    fun page inRange =>
      lookup_cons_invalid (empty _ (within_cons.mp (pagePath_within inRange)).1)
  refine ⟨_, added, Function.update_self .., ?_, fun page inRange _ => unmapped page inRange, ?_⟩
  · intro page inRange raw
    exact (unmapped page inRange).trans_ne nofun
  · exact entry_zeroPageTable_same (by decide)

theorem mapLoop_keeps {keeps : Machine → Prop} {pageSize : PageSize}
    (step : ∀ machine offset, keeps machine → offset < size → offset % pageSize.size = 0 →
      let after := mapper.mapPage supply.frames machine (start + offset) (phys + offset) flags
        pageSize.level
      after.allocated ≤ supply.owned → keeps after)
    (whole : offset % pageSize.size = 0)
    (ran : mapper.mapLoop supply.frames start phys size flags pageSize fuel machine offset =
      .ok after) :
    machine.allocated ≤ after.allocated ∧
      (after.allocated ≤ supply.owned → keeps machine → keeps after) := by
  induction fuel generalizing machine offset with
  | zero => cases ran
  | succ fuel ih =>
    rw [PageMapper.mapLoop] at ran
    split at ran
    · rename_i inside
      obtain ⟨-, ran⟩ := checkedAdd_bind_eq_ok.mp ran
      obtain ⟨-, ran⟩ := checkedAdd_bind_eq_ok.mp ran
      obtain ⟨-, ran⟩ := checkedAdd_bind_eq_ok.mp ran
      obtain ⟨monotone, kept⟩ := ih (by rw [Nat.add_mod_right, whole]) ran
      refine ⟨(mapPage_allocated ..).1.trans monotone, fun enough holds => kept enough ?_⟩
      exact step machine offset holds inside whole (monotone.trans enough)
    · cases ran
      exact ⟨le_rfl, fun _ => id⟩

theorem mapRange_keeps {keeps : Machine → Prop} {pageSize : PageSize}
    (step : start % pageSize.size = 0 → phys % pageSize.size = 0 → start ≤ stop →
      ∀ machine offset, keeps machine → start + offset < stop → offset % pageSize.size = 0 →
        let after := mapper.mapPage supply.frames machine (start + offset) (phys + offset) flags
          pageSize.level
        after.allocated ≤ supply.owned → keeps after) (holds : keeps machine) :
    Returns keeps (mapRange supply mapper machine start phys stop flags pageSize) := by
  refine returns_bind fun mapped ran => returns_bind fun _ enough => returns_ok ?_
  obtain ⟨startAligned, ran⟩ := ensure_bind_eq_ok.mp ran
  obtain ⟨physAligned, ran⟩ := ensure_bind_eq_ok.mp ran
  obtain ⟨-, ran⟩ := ensure_bind_eq_ok.mp ran
  obtain ⟨ordered, ran⟩ := checkedSub_bind_eq_ok.mp ran
  refine (mapLoop_keeps (fun machine offset kept inside => ?_) (Nat.zero_mod _) ran).2
    (ensure_eq_ok.mp enough) holds
  exact step startAligned physAligned ordered machine offset kept (by omega)

section

variable (ram : RamMapped supply machine rank mapper.rootTable)

include ram

theorem RamMapped.mapLarge (permitted : flags.intersects PageFlags.permissions = true)
    (lower : 2 ^ 31 ≤ virt) (upper : virt < 2 ^ 38)
    (enough : (mapper.mapPage supply.frames machine virt virt flags 1).allocated ≤ supply.owned) :
    ∃ grown, RamMapped supply (mapper.mapPage supply.frames machine virt virt flags 1) grown
      mapper.rootTable := by
  have pageEq : pageOf virt = virt / 4096 := by
    unfold pageOf pageLimit
    omega
  obtain ⟨grown, mapped⟩ := ram.spaces.mapLarge ram.isRoot (ram.noHuge _ (pageOf_lt virt)) permitted
    enough
  refine ⟨grown, mapped.spaces, mapped.extends'.kept _ 2 ram.isRoot, ?_, ?_, ?_⟩
  · intro page inRange raw
    by_cases same : upperPath page = upperPath (pageOf virt)
    · rw [mapped.hit page inRange same]
      simp
    · rw [(mapped.miss page inRange same).1]
      exact ram.noHuge page inRange raw
  · intro page inRange outside
    rw [(mapped.miss page inRange _).1, ram.low page inRange outside]
    intro same
    obtain ⟨high, rest⟩ := List.cons.inj same
    unfold highPage at outside
    omega
  · rw [mapped.rootEntries _ (by decide), ram.vacant]
    unfold processLoadAreaEntry
    omega

theorem RamMapped.identityMapMemory (lower : 2 ^ 31 ≤ memory.start) (upper : memory.stop ≤ 2 ^ 38) :
    Returns (fun after => ∃ grown, RamMapped supply after grown mapper.rootTable)
      (identityMapMemory supply mapper machine memory) := by
  have sizeEq : PageSize.size2M.size = 2 ^ 21 := rfl
  refine mapRange_keeps ?_ ⟨rank, ram⟩
  rintro aligned - - machine offset ⟨rank, ram⟩ inside whole _ enough
  rw [sizeEq] at aligned whole
  exact ram.mapLarge rfl (by omega) (by omega) enough

end

end Ram

section Small

/-- Besides RAM, small pages are mapped: those of devices below RAM, and in the
high half those of the kernel, which are not for the user. -/
structure Booting (supply : FrameSupply) (machine : Machine) (rank : Nat → Option Nat)
    (root : Nat) : Prop where
  spaces : Spaces supply (fun _ => False) machine rank
  isRoot : rank root = some 2
  devices : ∀ page < 2 ^ 19, ∀ raw level, view machine.memory root page = some (raw, level) →
    level = 0
  high : HighHalf supply machine rank root
  quiet : ∀ page < pageLimit, highPage ≤ page → ∀ raw level,
    view machine.memory root page = some (raw, level) → ¬ PageTableEntry.has raw PageFlags.user
  vacant : entry machine.memory root processLoadAreaEntry = 0

variable {supply : FrameSupply} {machine after : Machine} {rank : Nat → Option Nat}
  {mapper : PageMapper} {flags : PageFlags}

theorem RamMapped.booting {root : Nat} (ram : RamMapped supply machine rank root) :
    Booting supply machine rank root := by
  have limit : 2 ^ 19 < pageLimit := by decide
  refine ⟨ram.spaces, ram.isRoot, ?_, ?_, ?_, ram.vacant⟩
  · intro page low raw level found
    rw [ram.low page (by omega) (Or.inl low)] at found
    cases found
  · intro page lower upper raw level found
    rw [ram.low page upper (Or.inr lower)] at found
    cases found
  · intro page upper lower raw level found
    rw [ram.low page upper (Or.inr lower)] at found
    cases found

def Private (flags : PageFlags) : Prop :=
  flags.intersects PageFlags.permissions = true ∧
    ¬ PageTableEntry.has (flags.bits ||| PageFlags.valid.bits) PageFlags.user

/-- A page that boot may map there: a device, or a page of the kernel outside the
frames of the allocator. -/
def Placed (supply : FrameSupply) (page phys : Nat) : Prop :=
  page < 2 ^ 19 ∨ highPage + areaPages ≤ page ∧ ∀ number < supply.owned, phys ≠ supply.frames number

section

variable (booting : Booting supply machine rank mapper.rootTable)

include booting

theorem Placed.small {page : Nat} (placed : Placed supply page phys) (inRange : page < pageLimit)
    (raw level : Nat) (found : view machine.memory mapper.rootTable page = some (raw, level)) :
    level = 0 := by
  rcases placed with device | ⟨kernelPage, -⟩
  · exact booting.devices page device raw level found
  · exact (booting.high page (by omega) inRange raw level found).1

theorem Booting.mapSmall (isPrivate : Private flags) (placed : Placed supply (pageOf virt) phys)
    (small : phys < 2 ^ 48) (aligned : phys % 4096 = 0)
    (enough : (mapper.mapPage supply.frames machine virt phys flags 0).allocated ≤ supply.owned) :
    ∃ grown, Booting supply (mapper.mapPage supply.frames machine virt phys flags 0) grown
      mapper.rootTable := by
  have pageRange := pageOf_lt virt
  have limit : 2 ^ 19 < pageLimit := by decide
  obtain ⟨grown, mapped, -⟩ := booting.spaces.mapPage booting.isRoot
    (placed.small booting pageRange) isPrivate.1 enough
  have addrEq : PageTableEntry.addr (PageTableEntry.set phys flags) = phys :=
    PageTableEntry.addr_set small aligned
  have hit := mapped.hit _ booting.isRoot (Or.inl rfl)
  have miss : ∀ page < pageLimit, page ≠ pageOf virt →
      view (mapper.mapPage supply.frames machine virt phys flags 0).memory mapper.rootTable page =
        view machine.memory mapper.rootTable page :=
    fun page inRange different => mapped.miss _ booting.isRoot page inRange
      fun same => absurd same different
  refine ⟨grown, mapped.spaces, mapped.extends'.kept _ 2 booting.isRoot, ?_, ?_, ?_, ?_⟩
  · intro page low raw level found
    by_cases same : page = pageOf virt
    · rw [same, hit] at found
      exact (Prod.mk.inj (Option.some.inj found)).2.symm
    · rw [miss page (by omega) same] at found
      exact booting.devices page low raw level found
  · refine booting.high.extend mapped.extends' mapped.spaces.owned ?_
    intro page lower upper raw level found
    by_cases same : page = pageOf virt
    · have unowned : ∀ number < supply.owned, phys ≠ supply.frames number := by
        rcases placed with device | ⟨-, unowned⟩
        · unfold highPage at lower
          omega
        · exact unowned
      rw [same, hit] at found
      cases found
      rw [addrEq]
      refine Or.inr ⟨rfl, ?_, fun number _ => unowned number⟩
      by_contra isRanked
      obtain ⟨number, bound, physEq⟩ := mapped.spaces.used phys isRanked
      exact unowned number (bound.trans_le mapped.spaces.owned) physEq
    · rw [miss page upper same] at found
      exact Or.inl found
  · intro page upper lower raw level found
    by_cases same : page = pageOf virt
    · rw [same, hit] at found
      cases found
      rw [PageTableEntry.has_set (by decide)]
      exact isPrivate.2
    · rw [miss page upper same] at found
      exact booting.quiet page upper lower raw level found
  · rw [mapped.rootEntries _ booting.isRoot _ (by decide), booting.vacant]
    rintro ⟨-, indexEq⟩
    unfold processLoadAreaEntry at indexEq
    unfold Placed highPage areaPages at placed
    omega

end

def Boots (supply : FrameSupply) (root : Nat) (machine : Machine) : Prop :=
  ∃ rank, Booting supply machine rank root

section

variable (boots : Boots supply mapper.rootTable machine)

include boots

theorem mapRange_boots (isPrivate : Private flags)
    (placed : ∀ step, start + step < stop → Placed supply (pageOf (start + step)) (phys + step))
    (small : start ≤ stop → phys + (stop - start) ≤ 2 ^ 48) :
    Returns (Boots supply mapper.rootTable)
      (mapRange supply mapper machine start phys stop flags .size4K) := by
  have sizeEq : PageSize.size4K.size = 4096 := rfl
  refine mapRange_keeps ?_ boots
  rintro - aligned ordered machine offset ⟨rank, booting⟩ inside whole _ enough
  rw [sizeEq] at aligned whole
  exact booting.mapSmall isPrivate (placed offset inside) (by omega) (by omega) enough

theorem mapDevice_boots (isPrivate : Private flags) (low : stop ≤ 2 ^ 31) :
    Returns (Boots supply mapper.rootTable)
      (mapRange supply mapper machine start start stop flags .size4K) := by
  refine mapRange_boots boots isPrivate ?_ fun _ => by omega
  intro step inside
  refine Or.inl ?_
  unfold pageOf pageLimit
  omega

theorem mapDevices_boots :
    Returns (Boots supply mapper.rootTable) (mapDevices supply mapper machine cpu) := by
  cases cpu with
  | unknown => exact returns_ok boots
  | qemu =>
    refine returns_bind fun first firstRan => ?_
    have firstMapped := mapDevice_boots boots ⟨rfl, by decide⟩ (by decide) first firstRan
    exact mapDevice_boots firstMapped ⟨rfl, by decide⟩ (by decide)
  | licheeRVNano =>
    refine returns_bind fun first firstRan => returns_bind fun second secondRan => ?_
    have firstMapped := mapDevice_boots boots ⟨rfl, by decide⟩ (by decide) first firstRan
    have secondMapped := mapDevice_boots firstMapped ⟨rfl, by decide⟩ (by decide) second secondRan
    exact mapDevice_boots secondMapped ⟨rfl, by decide⟩ (by decide)

end

theorem pageOf_kernel (lower : highHalfPhysStart ≤ virt) (upper : virt < wordLimit) :
    highPage + areaPages ≤ pageOf virt := by
  unfold highHalfPhysStart at lower
  unfold wordLimit at upper
  unfold highPage areaPages pageOf pageLimit
  omega

theorem mapKernelSegment_boots (boots : Boots supply mapper.rootTable machine)
    (isPrivate : Private flags) {segment : Region}
    (image : ∀ address, segment.start ≤ address →
      address < (segment.stop + 4095) / 4096 * 4096 →
        ∀ number < supply.owned, address ≠ highHalfPhysStart + supply.frames number) :
    Returns (Boots supply mapper.rootTable)
      (mapKernelSegment supply mapper machine segment flags) := by
  refine returns_bind fun phys physEq => returns_bind fun stop stopEq => ?_
  have startEq : segment.start = highHalfPhysStart + phys := by
    obtain ⟨high, physEq⟩ := checkedSub_eq_ok.mp physEq
    rw [physEq, Nat.add_sub_cancel' high]
  obtain ⟨fits, rfl⟩ := Memory.alignUp_eq_ok.mp stopEq
  refine mapRange_boots boots isPrivate ?_ ?_
  · intro step inside
    refine Or.inr ⟨pageOf_kernel (by omega) (by unfold wordLimit; omega), ?_⟩
    intro number bound same
    exact image _ (Nat.le_add_right ..) inside number bound (by omega)
  · intro ordered
    unfold highHalfPhysStart at startEq
    omega

theorem Booting.allocate (booting : Booting supply machine rank mapper.rootTable)
    (isPrivate : Private flags) (lower : highHalfPhysStart ≤ virt)
    (bound : pageOf virt + size / 4096 ≤ pageLimit) (inSpace : virt < wordLimit)
    (ran : mapper.allocateAndMapPages supply machine virt size flags = .ok after) :
    ∃ grown frame, Booting supply after grown mapper.rootTable ∧
      MappedPages supply (fun _ => False) machine after rank grown mapper.rootTable flags
        (pagesFrom (pageOf virt) (size / 4096)) frame := by
  have first := pageOf_kernel lower inSpace
  have limit : 2 ^ 19 < highPage := by decide
  have loopRan : mapper.allocateLoop supply virt flags false (size / 4096) 0 machine = .ok after :=
    ran
  have clear : ∀ page, pagesFrom (pageOf virt + 0) (size / 4096) page → ∀ raw level,
      view machine.memory mapper.rootTable page = some (raw, level) → level = 0 := by
    rintro page ⟨pageLower, pageUpper⟩ raw level found
    exact (booting.high page (by omega) (by omega) raw level found).1
  obtain ⟨grown, frame, mapped, -, -⟩ :=
    booting.spaces.allocateLoop booting.isRoot isPrivate.1 bound
    clear loopRan
  have outside : ∀ page, page < highPage + areaPages →
      ¬ pagesFrom (pageOf virt) (size / 4096) page := by
    intro page small isMapped
    have pageLower := isMapped.1
    omega
  refine ⟨grown, frame, ⟨mapped.spaces, mapped.extends'.kept _ 2 booting.isRoot, ?_,
    booting.high.mapped booting.isRoot mapped, ?_, ?_⟩, mapped⟩
  · intro page low raw level found
    rw [mapped.miss _ booting.isRoot page (by unfold pageLimit; omega)
      fun isMapped => absurd isMapped (outside page (by omega))] at found
    exact booting.devices page low raw level found
  · intro page upper highLower raw level found
    by_cases isMapped : pagesFrom (pageOf virt) (size / 4096) page
    · rw [mapped.hit _ booting.isRoot page isMapped (Or.inl rfl)] at found
      cases found
      rw [PageTableEntry.has_set (by decide)]
      exact isPrivate.2
    · rw [mapped.miss _ booting.isRoot page upper fun isMapped' =>
        absurd isMapped' isMapped] at found
      exact booting.quiet page upper highLower raw level found
  · rw [mapped.rootEntries _ booting.isRoot _ (by decide), booting.vacant]
    intro _ page isMapped indexEq
    have pageLower := isMapped.1
    unfold processLoadAreaEntry at indexEq
    unfold highPage areaPages at first
    omega

end Small

section Init

variable {supply : FrameSupply} {machine after : Machine} {rank : Nat → Option Nat}
  {mapper : PageMapper}

theorem private_memory (cpu : CpuType) : Private (readWrite.bitor (theadMemFlags cpu)) := by
  cases cpu <;> exact ⟨rfl, by decide⟩

variable {symbols : Symbols}

section

variable (boots : Boots supply mapper.rootTable machine)

include boots

theorem mapKernelSegments_boots (layout : Layout supply memory symbols) :
    Returns (Boots supply mapper.rootTable)
      (mapKernelSegments supply mapper machine symbols cpu) := by
  refine returns_bind fun first firstRan => returns_bind fun second secondRan =>
    returns_bind fun third thirdRan => ?_
  have text := mapKernelSegment_boots boots ⟨rfl, by decide⟩
    (layout.image symbols.text (by simp)) first firstRan
  have rodata := mapKernelSegment_boots text ⟨rfl, by decide⟩
    (layout.image symbols.rodata (by simp)) second secondRan
  have data := mapKernelSegment_boots rodata (private_memory cpu)
    (layout.image symbols.data (by simp)) third thirdRan
  exact mapKernelSegment_boots data (private_memory cpu) (layout.image symbols.bss (by simp))

theorem allocate_boots (lower : highHalfPhysStart ≤ virt)
    (bound : pageOf virt + size / 4096 ≤ pageLimit) (inSpace : virt < wordLimit) :
    Returns (Boots supply mapper.rootTable)
      (mapper.allocateAndMapPages supply machine virt size
        (readWrite.bitor (theadMemFlags cpu))) := by
  intro after ran
  obtain ⟨rank, booting⟩ := boots
  obtain ⟨grown, _, mapped, -⟩ := booting.allocate (private_memory cpu) lower bound inSpace ran
  exact ⟨grown, mapped⟩

theorem mapTrampoline_boots (layout : Layout supply memory symbols)
    (stopEq : Memory.alignUp symbols.procTramp.stop = .ok stop) :
    Returns (Boots supply mapper.rootTable)
      (mapRange supply mapper machine symbols.procTramp.start symbols.procTrampLma stop
        (readExecute.bitor PageFlags.global) .size4K) := by
  obtain ⟨fits, rfl⟩ := Memory.alignUp_eq_ok.mp stopEq
  have start := layout.trampoline
  have low := layout.trampolineLow
  refine mapRange_boots boots ⟨rfl, by decide⟩ ?_ fun ordered => by omega
  intro step inside
  exact Or.inr ⟨pageOf_kernel (by omega) (by unfold wordLimit; omega),
    layout.trampolineImage step inside⟩

end

/-- The shared table is the one that the last pages were mapped in. -/
theorem Booting.idle {raw : Nat} (booting : Booting supply machine rank mapper.rootTable)
    (found : view machine.memory mapper.rootTable (pageLimit - 512) = some (raw, 0)) :
    IdleKernel supply ⟨mapper, mapper.l1PageTableFromPhys machine.memory trampolineTrapFrame⟩
      machine
      rank := by
  have inRange : pageLimit - 512 < pageLimit := by decide
  have pathEq : pagePath (pageLimit - 512) = [511, 511, 0] := by decide
  have high : vpn2 trampolineTrapFrame = 511 := by decide
  have middle : vpn1 trampolineTrapFrame = 511 := by decide
  have mapped : view machine.memory mapper.rootTable (pageLimit - 512) ≠ none := by
    rw [found]
    nofun
  unfold view at found
  rw [pathEq] at found
  obtain ⟨second, rootLink, rest⟩ := pointer_of_lookup found (Nat.succ_pos _)
  obtain ⟨third, secondLink, -⟩ := pointer_of_lookup rest (Nat.succ_pos _)
  have lastEq : mapper.l1PageTableFromPhys machine.memory trampolineTrapFrame = third := by
    unfold PageMapper.l1PageTableFromPhys
    rw [high, middle, (PageTableEntry.classify_pointer rootLink).2.2,
      (PageTableEntry.classify_pointer secondLink).2.2]
  have linked : LinksLast machine.memory mapper.rootTable third := by
    rw [linksLast_iff inRange le_rfl, (upperPath_last inRange).mpr le_rfl,
      reach_cons_pointer rootLink, reach_cons_pointer secondLink]
    rfl
  obtain ⟨below, belowEq, thirdRanked⟩ := booting.spaces.forest.reach_rank booting.isRoot
    (upperPath_within (by decide : pageLimit - 1 < pageLimit)) linked
  have lengthEq : (upperPath (pageLimit - 1)).length = 2 := rfl
  obtain rfl : below = 0 := by omega
  have forest := booting.spaces.forest
  have spaces : Spaces supply (· = third) machine rank := by
    refine ⟨⟨forest.lower, ?_, ?_⟩, booting.spaces.used, booting.spaces.owned, ?_⟩
    · exact fun first second firstRanked secondRanked index indexRange slot slotRange target _ =>
        forest.parent first second firstRanked secondRanked index indexRange slot
          slotRange target id
    · rintro table rfl
      exact thirdRanked
    · rintro root isRoot page pageRange table rfl reached
      obtain ⟨-, samePath⟩ := forest.reach_unique isRoot (upperPath_within pageRange) booting.isRoot
        (upperPath_within (by decide : pageLimit - 1 < pageLimit)) rfl id reached linked
      refine (upperPath_last pageRange).mp ?_
      rw [samePath]
      exact (upperPath_last (by decide)).mpr (by decide)
  rw [lastEq]
  refine ⟨⟨spaces, booting.isRoot, booting.high⟩, linked, booting.vacant, ?_, mapped⟩
  intro page upper corner
  exact booting.quiet page upper (by unfold highPage; unfold pageLimit at corner; omega)

theorem init_idle {kernel : Kernel} (layout : Layout supply memory symbols)
    (ran : init supply machine memory symbols cpu = .ok (kernel, after)) :
    ∃ rank, IdleKernel supply kernel after rank := by
  obtain ⟨⟨mapper, created⟩, createRan, ran⟩ := bind_eq_ok.mp ran
  obtain ⟨_, empty⟩ := RamMapped.create createRan
  obtain ⟨identity, identityRan, ran⟩ := bind_eq_ok.mp ran
  obtain ⟨_, ram⟩ := empty.identityMapMemory layout.ramStart layout.ramStop identity identityRan
  obtain ⟨devices, devicesRan, ran⟩ := bind_eq_ok.mp ran
  have withDevices := mapDevices_boots ⟨_, ram.booting⟩ devices devicesRan
  obtain ⟨segments, segmentsRan, ran⟩ := bind_eq_ok.mp ran
  have withSegments := mapKernelSegments_boots withDevices layout segments segmentsRan
  obtain ⟨stack, stackRan, ran⟩ := bind_eq_ok.mp ran
  obtain ⟨-, stackRan⟩ := checkedSub_bind_eq_ok.mp stackRan
  have withStack := allocate_boots withSegments (by decide) (by decide) (by decide) stack stackRan
  obtain ⟨heap, heapRan, ran⟩ := bind_eq_ok.mp ran
  have withHeap := allocate_boots withStack (by decide) (by decide) (by decide) heap heapRan
  obtain ⟨⟨last, final⟩, lastRan, ran⟩ := bind_eq_ok.mp ran
  obtain ⟨stop, stopEq, lastRan⟩ := bind_eq_ok.mp lastRan
  obtain ⟨trampoline, trampolineRan, lastRan⟩ := bind_eq_ok.mp lastRan
  obtain ⟨_, withTrampoline⟩ := mapTrampoline_boots withHeap layout stopEq trampoline trampolineRan
  obtain ⟨trapFrame, trapFrameRan, lastRan⟩ := bind_eq_ok.mp lastRan
  obtain ⟨rank, _, booted, mapped⟩ := withTrampoline.allocate (private_memory cpu) (by decide)
    (by decide) (by decide) trapFrameRan
  cases lastRan
  cases ran
  exact ⟨rank, booted.idle (mapped.hit _ withTrampoline.isRoot (pageLimit - 512) (by decide)
    (Or.inl rfl))⟩

end Init

end KernelMemoryMap

end NanoOs
