import NanoOs.KernelBoot

/-!
# Boot returns

With the regions aligned as the linker script aligns them, and with frames for
all pages and tables, `kernel_memory_map::init` returns.
-/

namespace NanoOs

namespace PageMapping

section MapRange

variable {mapper : PageMapper} {flags : PageFlags} {frames : Nat → Nat} {machine : Machine}
  {start phys size : Nat} {pageSize : PageSize}

theorem mapLoop_total {count offset : Nat} (last : size ≤ offset + count * pageSize.size)
    (fits : start + size + pageSize.size < 2 ^ 64) (physFits : phys + size < 2 ^ 64) :
    ∃ after, mapper.mapLoop frames start phys size flags pageSize (count + 1) machine offset =
        .ok after ∧ after.allocated ≤ machine.allocated + 2 * count := by
  induction count generalizing machine offset with
  | zero =>
    rw [PageMapper.mapLoop, if_neg (by omega)]
    exact ⟨machine, rfl, le_rfl⟩
  | succ count ih =>
    rw [PageMapper.mapLoop]
    by_cases more : offset < size
    · rw [if_pos more, checkedAdd_bind (by omega), checkedAdd_bind (by omega)]
      rw [checkedAdd_bind (by omega)]
      have few := (@mapPage_allocated mapper flags frames machine (start + offset)
        (phys + offset) pageSize.level).2
      have rest : size ≤ offset + pageSize.size + count * pageSize.size := by
        rw [Nat.succ_mul] at last
        omega
      obtain ⟨after, ran, bounded⟩ := @ih (mapper.mapPage frames machine (start + offset)
        (phys + offset) flags pageSize.level) _ rest
      exact ⟨after, ran, by omega⟩
    · rw [if_neg more]
      exact ⟨machine, rfl, Nat.le_add_right _ _⟩

end MapRange

end PageMapping

namespace KernelMemoryMap

open PageMapping
open Memory (Region)

def regionPages (region : Region) : Nat :=
  (region.stop + 4095) / 4096 - region.start / 4096

def bootFrames (memory : Region) (symbols : Symbols) : Nat :=
  2 * ((memory.stop - memory.start) / 2 ^ 21) +
    2 * (regionPages symbols.text + regionPages symbols.rodata + regionPages symbols.data +
      regionPages symbols.bss + regionPages symbols.procTramp) + 2132

/-- The region starts at a page and ends below the end of the address space. -/
structure PageAligned (region : Region) : Prop where
  aligned : region.start % 4096 = 0
  ordered : region.start ≤ region.stop
  fits : region.stop + 8192 < 2 ^ 64

/-- What the linker script aligns, and the boot loader with it. -/
structure Linked (memory : Region) (symbols : Symbols) : Prop where
  ramStart : memory.start % 2 ^ 21 = 0
  ramStop : memory.stop % 2 ^ 21 = 0
  ramOrdered : memory.start ≤ memory.stop
  segments : ∀ segment ∈ [symbols.text, symbols.rodata, symbols.data, symbols.bss],
    PageAligned segment ∧ highHalfPhysStart ≤ segment.start
  trampoline : PageAligned symbols.procTramp
  trampolineLma : symbols.procTrampLma % 4096 = 0

section Total

/-- With so many frames left, the step returns and takes at most so many. -/
def Takes (supply : FrameSupply) (count : Nat) (step : Machine → Checked Machine) : Prop :=
  ∀ machine, machine.allocated + count ≤ supply.owned →
    ∃ after, step machine = .ok after ∧ after.allocated ≤ machine.allocated + count

variable {supply : FrameSupply} {mapper : PageMapper} {flags : PageFlags}

theorem Takes.bind {first second : Nat} {step rest : Machine → Checked Machine}
    (takes : Takes supply first step) (restTakes : Takes supply second rest) :
    Takes supply (first + second) fun machine => step machine >>= rest := by
  intro machine enough
  obtain ⟨middle, ran, few⟩ := takes machine (by omega)
  obtain ⟨after, restRan, fewer⟩ := restTakes middle (by omega)
  refine ⟨after, ?_, by omega⟩
  dsimp only
  rw [ran, ok_bind, restRan]

theorem mapRange_takes {start phys stop : Nat} {pageSize : PageSize}
    (startAligned : start % pageSize.size = 0) (physAligned : phys % pageSize.size = 0)
    (stopAligned : stop % pageSize.size = 0) (ordered : start ≤ stop)
    (fits : stop + pageSize.size < 2 ^ 64) (physFits : phys + (stop - start) < 2 ^ 64) :
    Takes supply (2 * ((stop - start) / pageSize.size))
      (mapRange supply mapper · start phys stop flags pageSize) := by
  intro machine enough
  have whole : (stop - start) / pageSize.size * pageSize.size = stop - start :=
    Nat.div_mul_cancel (Nat.dvd_sub (Nat.dvd_of_mod_eq_zero stopAligned)
      (Nat.dvd_of_mod_eq_zero startAligned))
  obtain ⟨after, ran, few⟩ := @mapLoop_total mapper flags supply.frames machine start phys
    (stop - start) pageSize ((stop - start) / pageSize.size) 0 (by omega) (by omega) physFits
  refine ⟨after, ?_, few⟩
  unfold mapRange PageMapper.mapRange
  dsimp only
  rw [ensure_bind startAligned, ensure_bind physAligned, ensure_bind stopAligned,
    checkedSub_bind ordered, ran, ok_bind, FrameSupply.ensureTables, ensure_bind (by omega)]

theorem mapDevices_takes (cpu : CpuType) : Takes supply 2068 (mapDevices supply mapper · cpu) := by
  have device : ∀ start stop flags, start % 4096 = 0 → stop % 4096 = 0 → start ≤ stop →
      stop < 2 ^ 32 → Takes supply (2 * ((stop - start) / 4096))
        (mapRange supply mapper · start start stop flags .size4K) :=
    fun start stop flags startAligned stopAligned ordered small =>
      @mapRange_takes supply mapper flags start start stop .size4K startAligned startAligned
        stopAligned ordered (by dsimp only [PageSize.size]; omega) (by omega)
  cases cpu with
  | unknown => exact fun machine _ => ⟨machine, rfl, Nat.le_add_right _ _⟩
  | qemu =>
    exact (device 0x10000000 0x1000a000 readWrite rfl rfl (by decide) (by decide)).bind
      (device 0x0c000000 0x0c400000 readWrite rfl rfl (by decide) (by decide))
  | licheeRVNano =>
    have takes : Takes supply 2052 (mapDevices supply mapper · .licheeRVNano) :=
      (device 0x04140000 0x04141000 _ rfl rfl (by decide) (by decide)).bind
        ((device 0x70000000 0x70400000 _ rfl rfl (by decide) (by decide)).bind
          (device 0x04310000 0x04311000 _ rfl rfl (by decide) (by decide)))
    exact fun machine enough => (takes machine (by omega)).imp fun _ ran => ⟨ran.1, by omega⟩

theorem region_takes {region : Region} (isAligned : PageAligned region) {phys : Nat}
    (physAligned : phys % 4096 = 0) (physFits : phys ≤ region.start) :
    Takes supply (2 * regionPages region) (mapRange supply mapper · region.start phys
      ((region.stop + 4095) / 4096 * 4096) flags .size4K) := by
  have aligned := isAligned.aligned
  have ordered := isAligned.ordered
  have fits := isAligned.fits
  have size : PageSize.size4K.size = 4096 := rfl
  have counted : ((region.stop + 4095) / 4096 * 4096 - region.start) / 4096 =
      regionPages region := by
    unfold regionPages
    omega
  have takes := @mapRange_takes supply mapper flags region.start phys
    ((region.stop + 4095) / 4096 * 4096) .size4K
  rw [size, counted] at takes
  exact takes aligned physAligned (Nat.mul_mod_left _ _) (by omega) (by omega) (by omega)

theorem mapKernelSegment_takes {segment : Region}
    (isPlaced : PageAligned segment ∧ highHalfPhysStart ≤ segment.start) :
    Takes supply (2 * regionPages segment) (mapKernelSegment supply mapper · segment flags) := by
  intro machine enough
  obtain ⟨isAligned, high⟩ := isPlaced
  have aligned := isAligned.aligned
  have fits := isAligned.fits
  have half : highHalfPhysStart % 4096 = 0 := by decide
  unfold mapKernelSegment
  dsimp only
  rw [checkedSub_bind high, Memory.alignUp_eq_ok.mpr ⟨by omega, rfl⟩, ok_bind]
  exact region_takes isAligned (by omega) (by omega) machine enough

theorem mapKernelSegments_takes {memory : Region} {symbols : Symbols} (cpu : CpuType)
    (linked : Linked memory symbols) :
    Takes supply (2 * regionPages symbols.text + (2 * regionPages symbols.rodata +
        (2 * regionPages symbols.data + 2 * regionPages symbols.bss)))
      (mapKernelSegments supply mapper · symbols cpu) := by
  have segments := linked.segments
  simp only [List.forall_mem_cons] at segments
  obtain ⟨text, rodata, data, bss, -⟩ := segments
  exact (mapKernelSegment_takes text).bind ((mapKernelSegment_takes rodata).bind
    ((mapKernelSegment_takes data).bind (mapKernelSegment_takes bss)))

theorem init_total {machine : Machine} {memory : Region} {symbols : Symbols} (cpu : CpuType)
    (layout : Layout supply memory symbols) (linked : Linked memory symbols)
    (enough : machine.allocated + bootFrames memory symbols ≤ supply.owned) :
    ∃ kernel after, init supply machine memory symbols cpu = .ok (kernel, after) ∧
      after.allocated ≤ machine.allocated + bootFrames memory symbols := by
  unfold bootFrames at enough ⊢
  rw [← Nat.add_assoc, ← Nat.add_assoc] at enough ⊢
  have ramStop := layout.ramStop
  have ramOrdered := linked.ramOrdered
  have trampolineFits := linked.trampoline.fits
  have trampolineLow := layout.trampolineLow
  rcases createdEq : PageMapper.new supply.frames machine with ⟨mapper, created⟩
  have createdAllocated : created.allocated = machine.allocated + 1 := by
    cases createdEq
    rfl
  have ramSize : PageSize.size2M.size = 2 ^ 21 := rfl
  have identity : Takes supply (2 * ((memory.stop - memory.start) / PageSize.size2M.size))
      (identityMapMemory supply mapper · memory) :=
    mapRange_takes linked.ramStart linked.ramStart linked.ramStop ramOrdered
      (by rw [ramSize]; omega) (by omega)
  rw [ramSize] at identity
  obtain ⟨ram, ramRan, ramFew⟩ := identity created (by omega)
  obtain ⟨devices, devicesRan, devicesFew⟩ := @mapDevices_takes supply mapper cpu ram (by omega)
  obtain ⟨segments, segmentsRan, segmentsFew⟩ :=
    @mapKernelSegments_takes supply mapper memory symbols cpu linked devices (by omega)
  obtain ⟨stack, stackRan, stackFew⟩ := @allocateLoop_total supply mapper
    (readWrite.bitor (theadMemFlags cpu)) false (kernelStackStart - kernelStackStartingSize) 16 0
    segments (by omega) (by decide) (by decide)
  obtain ⟨heap, heapRan, heapFew⟩ := @allocateLoop_total supply mapper
    (readWrite.bitor (theadMemFlags cpu)) false kernelHeapStart 4 0 stack (by omega) (by decide)
    (by decide)
  obtain ⟨tramp, trampRan, trampFew⟩ := @region_takes supply mapper
    (readExecute.bitor PageFlags.global) symbols.procTramp linked.trampoline symbols.procTrampLma
    linked.trampolineLma (layout.trampoline.trans' (by unfold highHalfPhysStart; omega)) heap
    (by omega)
  obtain ⟨last, lastRan, lastFew⟩ := @allocateLoop_total supply mapper
    (readWrite.bitor (theadMemFlags cpu)) false trampolineTrapFrame 1 0 tramp (by omega) (by decide)
    (by decide)
  dsimp only at ramRan devicesRan segmentsRan trampRan
  refine ⟨⟨mapper, mapper.l1PageTableFromPhys last.memory trampolineTrapFrame⟩, last, ?_, by omega⟩
  have stackStep : mapKernelStack supply mapper segments cpu = .ok stack := by
    exact stackRan
  have heapStep : mapKernelHeap supply mapper stack cpu = .ok heap := heapRan
  have lastStep : mapLastL1Pte supply mapper heap symbols cpu =
      .ok (mapper.l1PageTableFromPhys last.memory trampolineTrapFrame, last) := by
    unfold mapLastL1Pte
    rw [Memory.alignUp_eq_ok.mpr ⟨by omega, rfl⟩, ok_bind, trampRan, ok_bind]
    change (mapper.allocateLoop supply trampolineTrapFrame (readWrite.bitor (theadMemFlags cpu))
      false 1 0 tramp).bind _ = _
    rw [lastRan]
    rfl
  unfold init PageMapper.create
  rw [ensure_bind (by omega), createdEq, ok_bind]
  dsimp only
  rw [ramRan, ok_bind, devicesRan, ok_bind, segmentsRan, ok_bind, stackStep, ok_bind, heapStep,
    ok_bind, lastStep, ok_bind]

end Total

end KernelMemoryMap

end NanoOs
