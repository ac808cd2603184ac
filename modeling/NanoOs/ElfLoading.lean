import NanoOs.FrameMapping
import NanoOs.ProcessMemoryMap

/-!
# What loading an ELF file does to the kernel's page map

The high half of the kernel is mapped by small pages, to frames that are taken
and hold no table.  Loading a segment maps fresh frames there and stores bytes
through them, so it never changes a table by a store.
-/

namespace NanoOs.ProcessMemoryMap

open Files KernelMemoryMap PageMapping ReadElf Function

def highPage : Nat := 2 ^ 26

/-- The high half has small pages, in frames that are taken and hold no table. -/
def HighHalf (supply : FrameSupply) (machine : Machine) (rank : Nat → Option Nat) (root : Nat) :
    Prop :=
  ∀ page, highPage ≤ page → page < pageLimit → ∀ raw level,
    view machine.memory root page = some (raw, level) →
      level = 0 ∧ rank (PageTableEntry.addr raw) = none ∧
        ∀ number, machine.allocated ≤ number → number < supply.owned →
          PageTableEntry.addr raw ≠ supply.frames number

structure KernelSpace (supply : FrameSupply) (kernel : Kernel) (machine : Machine)
    (rank : Nat → Option Nat) : Prop where
  spaces : Spaces supply (· = kernel.lastL1Pte) machine rank
  isRoot : rank kernel.pageMapper.rootTable = some 2
  high : HighHalf supply machine rank kernel.pageMapper.rootTable

variable {flags : PageFlags} {frame : Nat → Nat} {pages : Nat → Prop}

section HighHalf

variable {supply : FrameSupply} {machine after : Machine} {rank grown : Nat → Option Nat}
  {root : Nat}

theorem HighHalf.extend (high : HighHalf supply machine rank root)
    (extends' : Extends supply machine after rank grown) (owned : after.allocated ≤ supply.owned)
    (views : ∀ page, highPage ≤ page → page < pageLimit → ∀ raw level,
      view after.memory root page = some (raw, level) →
        view machine.memory root page = some (raw, level) ∨
          level = 0 ∧ grown (PageTableEntry.addr raw) = none ∧
            ∀ number, after.allocated ≤ number → number < supply.owned →
              PageTableEntry.addr raw ≠ supply.frames number) :
    HighHalf supply after grown root := by
  have monotone := extends'.monotone
  intro page lower upper raw level found
  rcases views page lower upper raw level found with before | now
  · obtain ⟨isSmall, isFrame, untaken⟩ := high page lower upper raw level before
    refine ⟨isSmall, ?_, fun number numberLower => untaken number (by omega)⟩
    by_contra isRanked
    obtain ⟨number, numberLower, numberUpper, same⟩ := extends'.new _ isRanked isFrame
    exact untaken number numberLower (by omega) same
  · exact now

theorem HighHalf.mapped {shared : Nat → Prop} (high : HighHalf supply machine rank root)
    (isRoot : rank root = some 2)
    (mapped : MappedPages supply shared machine after rank grown root flags pages frame) :
    HighHalf supply after grown root := by
  have owned := mapped.spaces.owned
  refine high.extend mapped.extends' owned ?_
  intro page lower upper raw level found
  by_cases isMapped : pages page
  · obtain ⟨number, -, numberUpper, frameEq, isFrame⟩ := mapped.fresh page isMapped
    rw [mapped.hit _ isRoot page isMapped (Or.inl rfl)] at found
    cases found
    have bound : number < supply.owned := by omega
    rw [supply.addr_set bound frameEq]
    refine Or.inr ⟨rfl, isFrame, ?_⟩
    intro other otherLower otherUpper same
    have equal := supply.distinct number bound other otherUpper (frameEq.symm.trans same)
    omega
  · rw [mapped.miss _ isRoot page upper fun isMapped' => absurd isMapped' isMapped] at found
    exact Or.inl found

end HighHalf

variable {second : Machine}

section KernelSpace

variable {supply : FrameSupply} {kernel : Kernel} {machine : Machine} {rank : Nat → Option Nat}

theorem KernelSpace.of_similar (space : KernelSpace supply kernel machine rank)
    (similar : Similar rank machine second) : KernelSpace supply kernel second rank := by
  refine ⟨space.spaces.of_similar similar, space.isRoot, ?_⟩
  intro page lower upper raw level found
  rw [space.spaces.view_similar similar space.isRoot upper] at found
  rw [similar.allocated]
  exact space.high page lower upper raw level found

theorem KernelSpace.mapped (space : KernelSpace supply kernel machine rank) {after : Machine}
    {grown : Nat → Option Nat}
    (mapped : MappedPages supply (· = kernel.lastL1Pte) machine after rank grown
      kernel.pageMapper.rootTable flags pages frame) : KernelSpace supply kernel after grown :=
  ⟨mapped.spaces, mapped.extends'.kept _ 2 space.isRoot,
    space.high.mapped space.isRoot mapped⟩

variable {virt : Nat}

theorem pageOf_high (lower : processLoadArea ≤ virt) (upper : virt < wordLimit) :
    pageOf virt = highPage + (virt - processLoadArea) / 4096 := by
  unfold processLoadArea at lower ⊢
  unfold wordLimit at upper
  unfold pageOf pageLimit highPage
  omega

theorem pageOf_high_ge (lower : processLoadArea ≤ virt) (upper : virt < wordLimit) :
    highPage ≤ pageOf virt := by
  rw [pageOf_high lower upper]
  exact Nat.le_add_right ..

section

variable (space : KernelSpace supply kernel machine rank)

include space

theorem KernelSpace.target {phys : Nat} (lower : processLoadArea ≤ virt)
    (translated : (if virt < wordLimit then kernel.pageMapper.virtToPhys machine.memory virt
      else none) = some phys) :
    OutsideTables rank phys := by
  split at translated
  · rename_i upper
    rw [space.spaces.virtToPhys_eq space.isRoot] at translated
    obtain ⟨⟨raw, level⟩, found, physEq⟩ := Option.map_eq_some_iff.mp translated
    obtain ⟨rfl, isFrame, -⟩ := space.high _ (pageOf_high_ge lower upper) (pageOf_lt virt) raw level
      found
    rw [physical_small] at physEq
    rw [← physEq]
    exact space.spaces.outside_of_aligned (PageTableEntry.addr_aligned raw) isFrame
      (Nat.mod_lt _ (by decide))
  · cases translated

theorem KernelSpace.translate_similar (similar : Similar rank machine second) (virt : Nat) :
    kernel.pageMapper.virtToPhys second.memory virt =
      kernel.pageMapper.virtToPhys machine.memory virt := by
  rw [(space.of_similar similar).spaces.virtToPhys_eq space.isRoot,
    space.spaces.virtToPhys_eq space.isRoot,
    space.spaces.view_similar similar space.isRoot (pageOf_lt virt)]

theorem KernelSpace.storeBytes {bytes : Nat → UInt8} {remaining index : Nat} {memory : ByteMemory}
    (lower : processLoadArea ≤ virt)
    (ran : storeBytes kernel.pageMapper bytes remaining index virt machine.memory = .ok memory) :
    Similar rank machine { machine with memory := memory } ∧
      ∀ second, Similar rank machine second → ∃ secondMemory,
        ProcessMemoryMap.storeBytes kernel.pageMapper bytes remaining index virt second.memory =
          .ok secondMemory := by
  induction remaining generalizing index virt machine with
  | zero =>
    cases ran
    exact ⟨PageMapping.Similar.refl, fun second similar => ⟨second.memory, rfl⟩⟩
  | succ remaining ih =>
    rw [ProcessMemoryMap.storeBytes] at ran
    cases translated : (if virt < wordLimit then kernel.pageMapper.virtToPhys machine.memory virt
        else none) with
    | none =>
      rw [translated] at ran
      cases ran
    | some phys =>
      rw [translated] at ran
      have outside := space.target lower translated
      have stored := Similar.update machine outside (bytes index)
      obtain ⟨kept, again⟩ := ih (space.of_similar stored) (by omega) ran
      refine ⟨stored.trans kept, ?_⟩
      intro second similar
      have secondStored := Similar.update second outside (bytes index)
      obtain ⟨secondMemory, secondRan⟩ := again _
        (stored.symm.trans (similar.trans secondStored))
      refine ⟨secondMemory, ?_⟩
      rw [ProcessMemoryMap.storeBytes, space.translate_similar similar, translated]
      exact secondRan

theorem KernelSpace.storeBytes_places {bytes : Nat → UInt8} {place : Nat → Nat}
    {remaining index virt : Nat} (lower : processLoadArea ≤ virt)
    (placed : ∀ step < remaining,
      (if virt + step < wordLimit then kernel.pageMapper.virtToPhys machine.memory (virt + step)
        else none) = some (place step))
    (apart : ∀ step < remaining, ∀ other < remaining, place step = place other → step = other) :
    ∃ memory, ProcessMemoryMap.storeBytes kernel.pageMapper bytes remaining index virt
        machine.memory = .ok memory ∧
      (∀ step < remaining, memory (place step) = bytes (index + step)) ∧
      ∀ location, (∀ step < remaining, location ≠ place step) →
        memory location = machine.memory location := by
  induction remaining generalizing index virt machine place with
  | zero =>
    refine ⟨machine.memory, rfl, ?_, fun _ _ => rfl⟩
    intro step bound
    omega
  | succ remaining ih =>
    have here := placed 0 (by omega)
    rw [Nat.add_zero] at here
    have outside := space.target lower here
    have stored := Similar.update machine outside (bytes index)
    have restPlaced : ∀ step < remaining, (if virt + 1 + step < wordLimit then
        kernel.pageMapper.virtToPhys
          (update machine.memory (place 0) (bytes index)) (virt + 1 + step)
        else none) = some (place (step + 1)) := by
      intro step bound
      have next := placed (step + 1) (by omega)
      rw [← Nat.add_assoc, Nat.add_right_comm] at next
      rw [space.translate_similar stored]
      exact next
    have restApart : ∀ step < remaining, ∀ other < remaining,
        place (step + 1) = place (other + 1) → step = other := by
      intro step bound other otherBound same
      have equal := apart (step + 1) (by omega) (other + 1) (by omega) same
      omega
    obtain ⟨memory, ran, filled, kept⟩ := @ih _ (space.of_similar stored)
      (fun step => place (step + 1)) (index + 1) (virt + 1) (by omega) restPlaced restApart
    refine ⟨memory, ?_, ?_, ?_⟩
    · rw [ProcessMemoryMap.storeBytes, here]
      exact ran
    · intro step bound
      cases step with
      | zero =>
        rw [kept (place 0)]
        · exact update_self ..
        · intro other otherBound same
          have equal := apart 0 (by omega) (other + 1) (by omega) same
          omega
      | succ step =>
        rw [filled step (by omega), Nat.add_assoc, Nat.add_comm 1 step]
    · intro location elsewhere
      rw [kept location fun step bound => elsewhere (step + 1) (by omega)]
      exact update_of_ne (elsewhere 0 (by omega)) _ _

end

end KernelSpace

def segmentFirst (ph : Elf64ProgramHeader) : Nat := ph.pVaddr / 4096

def segmentStop (ph : Elf64ProgramHeader) : Nat := (ph.pVaddr + ph.pMemsz + 4095) / 4096

def segmentPages (ph : Elf64ProgramHeader) (page : Nat) : Prop :=
  highPage + segmentFirst ph ≤ page ∧ page < highPage + segmentStop ph

instance (ph : Elf64ProgramHeader) : DecidablePred (segmentPages ph) :=
  fun _ => inferInstanceAs (Decidable (_ ∧ _))

def loadPages (done : List Elf64ProgramHeader) (page : Nat) : Prop :=
  ∃ ph ∈ done, segmentPages ph page

def InSegment (ph : Elf64ProgramHeader) (position : Nat) : Prop :=
  ph.pVaddr ≤ position ∧ position < ph.pVaddr + ph.pMemsz

instance (ph : Elf64ProgramHeader) (position : Nat) : Decidable (InSegment ph position) :=
  inferInstanceAs (Decidable (_ ∧ _))

def segmentByte (inode : Inode ByteMemory) (ph : Elf64ProgramHeader) (position : Nat) :
    Option UInt8 :=
  if InSegment ph position then
    if position < ph.pVaddr + ph.pFilesz then
      some (inode.fsData (ph.pOffset + (position - ph.pVaddr)))
    else some 0
  else none

/-- The position in the process of a place in a page of the load area. -/
def positionOf (page offset : Nat) : Nat := (page - highPage) * 4096 + offset

/-- The byte that loading stores at a place: that of the last segment with the
page, for segments listed from the last to the first. -/
def imageByte (inode : Inode ByteMemory) (done : List Elf64ProgramHeader) (page offset : Nat) :
    Option UInt8 :=
  (done.find? fun ph => segmentPages ph page).bind fun ph =>
    segmentByte inode ph (positionOf page offset)

def Readable (inode : Inode ByteMemory) (ph : Elf64ProgramHeader) : Prop :=
  min ph.pOffset inode.len + ph.pFilesz ≤ inode.len

instance (inode : Inode ByteMemory) (ph : Elf64ProgramHeader) : Decidable (Readable inode ph) :=
  inferInstanceAs (Decidable (_ ≤ _))

section Segment

variable {supply : FrameSupply} {kernel : Kernel} {ph : Elf64ProgramHeader}
  {state after : LoadState}

theorem segment_rounding (inside : segmentStop ph < highPage) :
    ph.pVaddr + ph.pMemsz + 4096 < 2 ^ 64 ∧ ph.pVaddr + processLoadArea < 2 ^ 64 ∧
      segmentStop ph * 4096 + processLoadArea < 2 ^ 64 ∧ segmentFirst ph ≤ segmentStop ph ∧
      Memory.alignDown (ph.pVaddr + processLoadArea) =
        processLoadArea + segmentFirst ph * 4096 := by
  unfold segmentStop highPage at inside
  have start : ph.pVaddr + processLoadArea < 2 ^ 64 := by
    unfold processLoadArea
    omega
  refine ⟨by omega, start, ?_, ?_, ?_⟩
  · unfold processLoadArea segmentStop
    omega
  · unfold segmentFirst segmentStop
    omega
  · rw [Memory.alignDown_eq start]
    unfold processLoadArea segmentFirst
    omega

theorem mapSegment_eq_ok : mapSegment supply kernel ph state = .ok after ↔
    segmentStop ph < highPage ∧ ∃ machine,
      kernel.pageMapper.allocateLoop supply (processLoadArea + segmentFirst ph * 4096) loadFlags
        false (segmentStop ph - segmentFirst ph) 0 state.machine = .ok machine ∧
      after = ⟨machine, state.file, if ph.pOffset = 0 then ph.pVaddr else state.baseVaddr,
        max state.heapStart (segmentStop ph * 4096)⟩ := by
  have heapEq : (if segmentStop ph * 4096 > state.heapStart then segmentStop ph * 4096
      else state.heapStart) = max state.heapStart (segmentStop ph * 4096) := by
    split <;> omega
  have loopEq : segmentStop ph < highPage → ∀ machine,
      allocateAndMapProcessLoadAreaRange supply kernel machine
        (processLoadArea + segmentFirst ph * 4096)
        (segmentStop ph * 4096 + processLoadArea - (processLoadArea + segmentFirst ph * 4096))
        loadFlags =
      kernel.pageMapper.allocateLoop supply (processLoadArea + segmentFirst ph * 4096) loadFlags
        false (segmentStop ph - segmentFirst ph) 0 machine := by
    intro inside machine
    have count : (segmentStop ph * 4096 + processLoadArea -
        (processLoadArea + segmentFirst ph * 4096)) / Memory.pageSize =
        segmentStop ph - segmentFirst ph := by
      unfold Memory.pageSize
      omega
    unfold allocateAndMapProcessLoadAreaRange PageMapper.allocateAndMapPages
      PageMapper.allocateAndMapPagesImpl
    rw [count]
  dsimp only [mapSegment]
  constructor
  · intro ran
    obtain ⟨-, ran⟩ := checkedAdd_bind_eq_ok.mp ran
    obtain ⟨-, ran⟩ := checkedAdd_bind_eq_ok.mp ran
    obtain ⟨rounded, roundedEq, ran⟩ := bind_eq_ok.mp ran
    obtain ⟨fits, ran⟩ := checkedAdd_bind_eq_ok.mp ran
    obtain ⟨-, rfl⟩ := Memory.alignUp_eq_ok.mp roundedEq
    have inside : segmentStop ph < highPage := by
      unfold processLoadArea at fits
      unfold segmentStop highPage
      omega
    obtain ⟨-, -, -, ordered, downEq⟩ := segment_rounding inside
    have stopEq : (ph.pVaddr + ph.pMemsz + 4095) / 4096 = segmentStop ph := rfl
    rw [downEq, stopEq, heapEq] at ran
    obtain ⟨-, ran⟩ := checkedSub_bind_eq_ok.mp ran
    rw [loopEq inside] at ran
    obtain ⟨machine, loopRan, ran⟩ := bind_eq_ok.mp ran
    cases ran
    exact ⟨inside, machine, loopRan, rfl⟩
  · rintro ⟨inside, machine, loopRan, rfl⟩
    obtain ⟨endFits, startFits, loadFits, ordered, downEq⟩ := segment_rounding inside
    have stopEq : (ph.pVaddr + ph.pMemsz + 4095) / 4096 = segmentStop ph := rfl
    rw [checkedAdd_bind startFits, checkedAdd_bind (by omega),
      Memory.alignUp_eq_ok.mpr ⟨endFits, rfl⟩, ok_bind, stopEq, checkedAdd_bind loadFits,
      downEq, heapEq, checkedSub_bind (by omega), loopEq inside, loopRan]
    rfl

variable {result : Except String Unit}

section

variable (start : ph.pVaddr + processLoadArea < 2 ^ 64)

include start

theorem fillSegment_eq_ok :
    fillSegment kernel ph state = .ok (after, result) ↔
      ∃ outcome memory, vfsReadExact (seekStart state.file ph.pOffset) ph.pFilesz = .ok outcome ∧
        storeBytes kernel.pageMapper outcome.buf outcome.filled 0 (ph.pVaddr + processLoadArea)
          state.machine.memory = .ok memory ∧
        ((∃ error, outcome.result = .error error ∧
          result = .error "Failed to read ELF segment data" ∧
            after = { state with
              machine := { state.machine with memory := memory }, file := outcome.file }) ∨
          (outcome.result = .ok () ∧ ph.pVaddr + processLoadArea + ph.pFilesz < 2 ^ 64 ∧
            ph.pFilesz ≤ ph.pMemsz ∧ result = .ok () ∧ ∃ zeroed,
              storeBytes kernel.pageMapper (fun _ => 0) (ph.pMemsz - ph.pFilesz) 0
                (ph.pVaddr + processLoadArea + ph.pFilesz) memory = .ok zeroed ∧
              after = { state with
                machine := { state.machine with memory := zeroed }, file := outcome.file })) := by
  unfold fillSegment
  rw [checkedAdd_bind start]
  constructor
  · intro ran
    obtain ⟨outcome, outcomeEq, ran⟩ := bind_eq_ok.mp ran
    obtain ⟨memory, memoryEq, ran⟩ := bind_eq_ok.mp ran
    refine ⟨outcome, memory, outcomeEq, memoryEq, ?_⟩
    cases resultEq : outcome.result with
    | error error =>
      rw [resultEq] at ran
      cases ran
      exact Or.inl ⟨error, rfl, rfl, rfl⟩
    | ok value =>
      rw [resultEq] at ran
      obtain ⟨fits, ran⟩ := checkedAdd_bind_eq_ok.mp ran
      obtain ⟨ordered, ran⟩ := checkedSub_bind_eq_ok.mp ran
      obtain ⟨zeroed, zeroedEq, ran⟩ := bind_eq_ok.mp ran
      cases ran
      exact Or.inr ⟨rfl, fits, ordered, rfl, zeroed, zeroedEq, rfl⟩
  · rintro ⟨outcome, memory, outcomeEq, memoryEq, failed | succeeded⟩
    · obtain ⟨error, resultEq, rfl, rfl⟩ := failed
      rw [outcomeEq, ok_bind, memoryEq, ok_bind, resultEq]
    · obtain ⟨resultEq, fits, ordered, rfl, zeroed, zeroedEq, rfl⟩ := succeeded
      rw [outcomeEq, ok_bind, memoryEq, ok_bind, resultEq]
      rw [checkedAdd_bind fits, checkedSub_bind ordered, zeroedEq]
      rfl

theorem fillSegment_values (ran : fillSegment kernel ph state = .ok (after, result)) :
    after.baseVaddr = state.baseVaddr ∧ after.heapStart = state.heapStart := by
  obtain ⟨outcome, memory, -, -, cases'⟩ := (fillSegment_eq_ok start).mp ran
  rcases cases' with ⟨_, -, -, rfl⟩ | ⟨-, -, -, -, _, -, rfl⟩
  · exact ⟨rfl, rfl⟩
  · exact ⟨rfl, rfl⟩

theorem fillSegment_result (ran : fillSegment kernel ph state = .ok (after, result)) :
    (result = .ok () ↔ Readable state.file.inode ph) ∧
      (result = .ok () → ph.pFilesz ≤ ph.pMemsz) := by
  obtain ⟨outcome, memory, outcomeEq, -, cases'⟩ := (fillSegment_eq_ok start).mp ran
  by_cases readable : Readable state.file.inode ph
  · have readEq := @vfsReadExact_of_le (seekStart state.file ph.pOffset) ph.pFilesz readable
    rw [readEq] at outcomeEq
    cases outcomeEq
    rcases cases' with ⟨error, resultEq, -⟩ | ⟨-, -, ordered, rfl, -⟩
    · cases resultEq
    · exact ⟨iff_of_true rfl readable, fun _ => ordered⟩
  · obtain ⟨short, shortEq, -, resultEq⟩ :=
      @vfsReadExact_of_lt (seekStart state.file ph.pOffset) ph.pFilesz (Nat.min_le_right ..)
        (Nat.lt_of_not_le readable)
    rw [shortEq] at outcomeEq
    cases outcomeEq
    rcases cases' with ⟨error, -, rfl, -⟩ | ⟨resultOk, -⟩
    · exact ⟨iff_of_false nofun readable, nofun⟩
    · rw [resultEq] at resultOk
      cases resultOk

end

section Fill

variable {rank : Nat → Option Nat}

theorem KernelSpace.fillSegment (space : KernelSpace supply kernel state.machine rank)
    (inside : segmentStop ph < highPage) (ran : fillSegment kernel ph state = .ok (after, result)) :
    Similar rank state.machine after.machine ∧
      ∀ second, Similar rank state.machine second → ∃ secondAfter,
        ProcessMemoryMap.fillSegment kernel ph { state with machine := second } =
          .ok (secondAfter, result) ∧ Similar rank after.machine secondAfter.machine ∧
        secondAfter = { after with machine := secondAfter.machine } := by
  have start : ph.pVaddr + processLoadArea < 2 ^ 64 := (segment_rounding inside).2.1
  have high : processLoadArea ≤ ph.pVaddr + processLoadArea := Nat.le_add_left ..
  obtain ⟨outcome, memory, outcomeEq, memoryEq, cases'⟩ := (fillSegment_eq_ok start).mp ran
  obtain ⟨stored, storedAgain⟩ := space.storeBytes high memoryEq
  rcases cases' with ⟨error, resultEq, rfl, rfl⟩ |
    ⟨resultEq, fits, ordered, rfl, zeroed, zeroedEq, rfl⟩
  · refine ⟨stored, ?_⟩
    intro second similar
    obtain ⟨secondMemory, secondEq⟩ := storedAgain second similar
    have secondStored :=
      ((space.of_similar similar).storeBytes high secondEq).1
    refine ⟨{ state with
      machine := { second with memory := secondMemory }, file := outcome.file }, ?_,
      stored.symm.trans (similar.trans secondStored), rfl⟩
    exact (fillSegment_eq_ok start).mpr
      ⟨outcome, secondMemory, outcomeEq, secondEq, Or.inl ⟨error, resultEq, rfl, rfl⟩⟩
  · have zeroHigh : processLoadArea ≤ ph.pVaddr + processLoadArea + ph.pFilesz := by omega
    obtain ⟨cleared, clearedAgain⟩ := (space.of_similar stored).storeBytes zeroHigh zeroedEq
    refine ⟨stored.trans cleared, ?_⟩
    intro second similar
    obtain ⟨secondMemory, secondEq⟩ := storedAgain second similar
    have secondSpace := space.of_similar similar
    have secondStored := (secondSpace.storeBytes high secondEq).1
    obtain ⟨secondZeroed, secondZeroedEq⟩ := clearedAgain _
      (stored.symm.trans (similar.trans secondStored))
    have secondCleared :=
      ((secondSpace.of_similar secondStored).storeBytes zeroHigh secondZeroedEq).1
    refine ⟨{ state with
      machine := { second with memory := secondZeroed }, file := outcome.file }, ?_,
      (stored.trans cleared).symm.trans (similar.trans (secondStored.trans secondCleared)), rfl⟩
    exact (fillSegment_eq_ok start).mpr ⟨outcome, secondMemory, outcomeEq, secondEq,
      Or.inr ⟨resultEq, fits, ordered, rfl, secondZeroed, secondZeroedEq, rfl⟩⟩

/-- The pages of a segment are mapped to distinct frames of the allocator. -/
structure SegmentFrames (supply : FrameSupply) (kernel : Kernel) (memory : ByteMemory)
    (ph : Elf64ProgramHeader) (frame : Nat → Nat) : Prop where
  found : ∀ page, segmentPages ph page → view memory kernel.pageMapper.rootTable page =
    some (PageTableEntry.set (frame page) loadFlags, 0)
  isFrame : ∀ page, segmentPages ph page → ∃ number < supply.owned,
    frame page = supply.frames number
  distinct : ∀ page, segmentPages ph page → ∀ other, segmentPages ph other →
    frame page = frame other → page = other

def placeOf (frame : Nat → Nat) (position : Nat) : Nat :=
  frame (highPage + position / 4096) + position % 4096

variable {position : Nat}

theorem segmentPages_of_inSegment (inSegment : InSegment ph position) :
    segmentPages ph (highPage + position / 4096) := by
  unfold InSegment at inSegment
  unfold segmentPages segmentFirst segmentStop
  omega

section Frames

variable {frame : Nat → Nat} {offset page : Nat}

section

variable (frames : SegmentFrames supply kernel state.machine.memory ph frame)

include frames

theorem SegmentFrames.translate (space : KernelSpace supply kernel state.machine rank)
    (inside : segmentStop ph < highPage) (inSegment : InSegment ph position) :
    (if position + processLoadArea < wordLimit then
        kernel.pageMapper.virtToPhys state.machine.memory (position + processLoadArea)
      else none) = some (placeOf frame position) := by
  have pageMapped := segmentPages_of_inSegment inSegment
  have upper : position + processLoadArea < wordLimit := by
    unfold InSegment at inSegment
    unfold segmentStop highPage at inside
    unfold processLoadArea wordLimit
    omega
  have pageEq : pageOf (position + processLoadArea) = highPage + position / 4096 := by
    rw [pageOf_high (Nat.le_add_left ..) upper, Nat.add_sub_cancel]
  have offsetEq : (position + processLoadArea) % 4096 = position % 4096 := by
    unfold processLoadArea
    omega
  obtain ⟨number, bound, frameEq⟩ := frames.isFrame _ pageMapped
  rw [if_pos upper, space.spaces.virtToPhys_eq space.isRoot, pageEq, frames.found _ pageMapped,
    Option.map_some, physical_small, supply.addr_set bound frameEq, offsetEq]
  rfl

theorem SegmentFrames.place_injective (pageMapped : segmentPages ph page)
    (inFrame : offset < 4096) (inSegment : InSegment ph position)
    (same : frame page + offset = placeOf frame position) :
    page = highPage + position / 4096 ∧ offset = position % 4096 := by
  have otherMapped := segmentPages_of_inSegment inSegment
  obtain ⟨number, bound, frameEq⟩ := frames.isFrame page pageMapped
  obtain ⟨other, otherBound, otherEq⟩ := frames.isFrame _ otherMapped
  have aligned := supply.aligned number bound
  have otherAligned := supply.aligned other otherBound
  unfold placeOf at same
  refine ⟨frames.distinct page pageMapped _ otherMapped ?_, ?_⟩ <;> omega

theorem SegmentFrames.similar (space : KernelSpace supply kernel state.machine rank)
    (similar : Similar rank state.machine second) (inside : segmentStop ph < highPage) :
    SegmentFrames supply kernel second.memory ph frame := by
  refine ⟨?_, frames.isFrame, frames.distinct⟩
  intro page pageMapped
  have inRange : page < pageLimit := by
    unfold segmentPages at pageMapped
    unfold highPage at inside pageMapped
    unfold pageLimit
    omega
  rw [space.spaces.view_similar similar space.isRoot inRange]
  exact frames.found page pageMapped

end

theorem KernelSpace.storeSegment (space : KernelSpace supply kernel state.machine rank)
    (frames : SegmentFrames supply kernel state.machine.memory ph frame)
    (inside : segmentStop ph < highPage) (bytes : Nat → UInt8) {skip count : Nat}
    (fits : skip + count ≤ ph.pMemsz) :
    ∃ memory, ProcessMemoryMap.storeBytes kernel.pageMapper bytes count 0
        (ph.pVaddr + processLoadArea + skip) state.machine.memory = .ok memory ∧
      (∀ step < count, memory (placeOf frame (ph.pVaddr + skip + step)) = bytes step) ∧
      ∀ location, (∀ step < count, location ≠ placeOf frame (ph.pVaddr + skip + step)) →
        memory location = state.machine.memory location := by
  have inSegment : ∀ step < count, InSegment ph (ph.pVaddr + skip + step) := by
    intro step bound
    unfold InSegment
    omega
  have placed : ∀ step < count, (if ph.pVaddr + processLoadArea + skip + step < wordLimit then
      kernel.pageMapper.virtToPhys state.machine.memory
        (ph.pVaddr + processLoadArea + skip + step) else none) =
      some (placeOf frame (ph.pVaddr + skip + step)) := by
    intro step bound
    have addressEq : ph.pVaddr + processLoadArea + skip + step =
        ph.pVaddr + skip + step + processLoadArea := by omega
    rw [addressEq]
    exact frames.translate space inside (inSegment step bound)
  have apart : ∀ step < count, ∀ other < count,
      placeOf frame (ph.pVaddr + skip + step) = placeOf frame (ph.pVaddr + skip + other) →
        step = other := by
    intro step bound other otherBound same
    have equal := frames.place_injective (segmentPages_of_inSegment (inSegment step bound))
      (Nat.mod_lt _ (by decide)) (inSegment other otherBound) same
    omega
  obtain ⟨memory, ran, filled, kept⟩ := @KernelSpace.storeBytes_places supply kernel state.machine
    rank space bytes (fun step => placeOf frame (ph.pVaddr + skip + step)) count 0 _
    (by omega) placed apart
  refine ⟨memory, ran, ?_, kept⟩
  intro step bound
  rw [filled step bound, Nat.zero_add]

theorem KernelSpace.storeWhole (space : KernelSpace supply kernel state.machine rank)
    (frames : SegmentFrames supply kernel state.machine.memory ph frame)
    (inside : segmentStop ph < highPage) (ordered : ph.pFilesz ≤ ph.pMemsz)
    (bytes : Nat → UInt8) :
    ∃ memory zeroed, ProcessMemoryMap.storeBytes kernel.pageMapper bytes ph.pFilesz 0
        (ph.pVaddr + processLoadArea) state.machine.memory = .ok memory ∧
      ProcessMemoryMap.storeBytes kernel.pageMapper (fun _ => 0) (ph.pMemsz - ph.pFilesz) 0
        (ph.pVaddr + processLoadArea + ph.pFilesz) memory = .ok zeroed ∧
      (∀ position, InSegment ph position → zeroed (placeOf frame position) =
        if position < ph.pVaddr + ph.pFilesz then bytes (position - ph.pVaddr) else 0) ∧
      ∀ location, (∀ position, InSegment ph position → location ≠ placeOf frame position) →
        zeroed location = state.machine.memory location := by
  obtain ⟨memory, memoryEq, filled, kept⟩ := @KernelSpace.storeSegment supply kernel ph state rank
    frame space frames inside bytes 0 ph.pFilesz (by omega)
  rw [Nat.add_zero] at memoryEq filled kept
  have stored := (space.storeBytes (Nat.le_add_left ..) memoryEq).1
  obtain ⟨zeroed, zeroedEq, cleared, zeroKept⟩ := @KernelSpace.storeSegment supply kernel ph
    { state with machine := { state.machine with memory := memory } } rank frame
    (space.of_similar stored) (frames.similar space stored inside) inside (fun _ => 0) ph.pFilesz
    (ph.pMemsz - ph.pFilesz) (by omega)
  refine ⟨memory, zeroed, memoryEq, zeroedEq, ?_, ?_⟩
  · rintro position ⟨lower, upper⟩
    by_cases fromFile : position < ph.pVaddr + ph.pFilesz
    · have byte := filled (position - ph.pVaddr) (by omega)
      rw [Nat.add_sub_cancel' lower] at byte
      rw [if_pos fromFile]
      refine (zeroKept _ ?_).trans byte
      intro step bound same
      have equal := frames.place_injective (segmentPages_of_inSegment ⟨lower, upper⟩)
        (Nat.mod_lt _ (by decide)) (show InSegment ph (ph.pVaddr + ph.pFilesz + step) from
          ⟨by omega, by omega⟩) same
      omega
    · have byte := cleared (position - ph.pVaddr - ph.pFilesz) (by omega)
      have positionEq : ph.pVaddr + ph.pFilesz + (position - ph.pVaddr - ph.pFilesz) =
          position := by
        omega
      rw [positionEq] at byte
      rw [if_neg fromFile, byte]
  · intro location elsewhere
    rw [zeroKept location fun step bound => elsewhere _ ⟨by omega, by omega⟩]
    exact kept location fun step bound => elsewhere _ ⟨by omega, by omega⟩

theorem placeOf_positionOf (high : highPage ≤ page) (inFrame : offset < 4096) :
    placeOf frame (positionOf page offset) = frame page + offset := by
  have divided : positionOf page offset / 4096 = page - highPage := by
    unfold positionOf
    omega
  have rest : positionOf page offset % 4096 = offset := by
    unfold positionOf
    omega
  rw [placeOf, divided, rest, Nat.add_sub_cancel' high]

theorem SegmentFrames.positionOf_eq
    (frames : SegmentFrames supply kernel state.machine.memory ph frame)
    (pageMapped : segmentPages ph page) (inFrame : offset < 4096)
    (inSegment : InSegment ph position) (same : frame page + offset = placeOf frame position) :
    positionOf page offset = position := by
  obtain ⟨pageEq, offsetEq⟩ := frames.place_injective pageMapped inFrame inSegment same
  unfold positionOf
  omega

theorem KernelSpace.fillSegment_bytes (space : KernelSpace supply kernel state.machine rank)
    (frames : SegmentFrames supply kernel state.machine.memory ph frame)
    (inside : segmentStop ph < highPage) (readable : Readable state.file.inode ph)
    (ordered : ph.pFilesz ≤ ph.pMemsz) :
    ∃ after, ProcessMemoryMap.fillSegment kernel ph state = .ok (after, .ok ()) ∧
      after.file.inode = state.file.inode ∧
      (∀ page, segmentPages ph page → ∀ offset < 4096,
        after.machine.memory (frame page + offset) =
          (segmentByte state.file.inode ph (positionOf page offset)).getD
            (state.machine.memory (frame page + offset))) ∧
      ∀ location, (∀ page, segmentPages ph page →
          location < frame page ∨ frame page + 4096 ≤ location) →
        after.machine.memory location = state.machine.memory location := by
  have start : ph.pVaddr + processLoadArea < 2 ^ 64 := (segment_rounding inside).2.1
  have readEq := @vfsReadExact_of_le (seekStart state.file ph.pOffset) ph.pFilesz readable
  set outcome : ExactOutcome := ⟨{ seekStart state.file ph.pOffset with
    offset := (seekStart state.file ph.pOffset).offset + ph.pFilesz },
    ByteMemory.writeBytes (fun _ => 0) 0 ph.pFilesz fun index =>
      (seekStart state.file ph.pOffset).inode.fsData
        ((seekStart state.file ph.pOffset).offset + index), ph.pFilesz, .ok ()⟩
  obtain ⟨memory, zeroed, memoryEq, zeroedEq, written, untouched⟩ :=
    space.storeWhole frames inside ordered outcome.buf
  have fits : ph.pVaddr + processLoadArea + ph.pFilesz < 2 ^ 64 := by
    unfold segmentStop highPage at inside
    unfold processLoadArea
    omega
  refine ⟨{ state with machine := { state.machine with memory := zeroed }, file := outcome.file },
    (fillSegment_eq_ok start).mpr ⟨outcome, memory, readEq, memoryEq,
      Or.inr ⟨rfl, fits, ordered, rfl, zeroed, zeroedEq, rfl⟩⟩, rfl, ?_, ?_⟩
  · intro page pageMapped offset inFrame
    have high : highPage ≤ page := (Nat.le_add_right ..).trans pageMapped.1
    dsimp only
    unfold segmentByte
    by_cases inSegment : InSegment ph (positionOf page offset)
    · rw [← placeOf_positionOf high inFrame, written _ inSegment, if_pos inSegment]
      split
      · rename_i fromFile
        have lower := inSegment.1
        have offsetEq : min ph.pOffset state.file.inode.len = ph.pOffset := by
          unfold Readable at readable
          omega
        have byte := @ByteMemory.writeBytes_inside (fun _ => 0) 0 ph.pFilesz
          (positionOf page offset - ph.pVaddr) (fun index => state.file.inode.fsData
            (min ph.pOffset state.file.inode.len + index)) (by omega)
        rw [Nat.zero_add] at byte
        refine byte.trans ?_
        rw [offsetEq]
        rfl
      · rfl
    · rw [if_neg inSegment]
      refine untouched _ ?_
      intro position otherSegment same
      rw [frames.positionOf_eq pageMapped inFrame otherSegment same] at inSegment
      exact inSegment otherSegment
  · intro location elsewhere
    refine untouched location ?_
    rintro position inSegment rfl
    have apart := elsewhere _ (segmentPages_of_inSegment inSegment)
    unfold placeOf at apart
    omega

end Frames

end Fill

end Segment

end NanoOs.ProcessMemoryMap
