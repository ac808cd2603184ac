import NanoOs.KernelAllocator
import NanoOs.KernelHeapGrowth
import NanoOs.ProcessIsolation

/-!
# What loading changes in the kernel's address space

`load_elf` keeps the program headers in a vector, for which the heap of the kernel may
have to grow.  Then it maps the pages of the segments at an offset into the address
space of the kernel, without looking at how large the addresses of the segments are.
-/

namespace NanoOs.ProcessMemoryMap

open Files KernelAllocator KernelMemoryMap PageMapping ReadElf

/-- The machine with the end of the kernel's heap and the blocks in it. -/
structure KernelMemory where
  machine : Machine
  heapEnd : Nat
  allocator : LinkedListAllocator

theorem eight_powerOfTwo : ∃ exponent, 8 = 2 ^ exponent := ⟨3, rfl⟩

section Model

variable (supply : FrameSupply) (kernel : Kernel) (cpu : CpuType)

/-- An allocation of the kernel, which grows the heap if no free block is large enough. -/
def KernelMemory.alloc (memory : KernelMemory) (layout : Layout) :
    Checked (Nat × KernelMemory) := do
  let (grown, heap) ← (match ← memory.allocator.findExisting layout with
    | some _ => .ok (none, ⟨memory.machine, memory.heapEnd⟩)
    | none => growKernelHeap supply kernel.pageMapper cpu ⟨memory.machine, memory.heapEnd⟩
        (LinkedListAllocator.growRequest layout))
  let (ptr, allocator) ← memory.allocator.alloc (fun _ => grown) layout
  ensure (ptr ≠ 0) "memory allocation failed"
  .ok (ptr, ⟨heap.machine, heap.heapEnd, allocator⟩)

/-- `Vec::with_capacity` for program headers; without headers nothing is allocated. -/
def KernelMemory.withCapacity (memory : KernelMemory) (count : Nat) :
    Checked (Option Nat × KernelMemory) :=
  if nonzero : 0 < count * elf64ProgramHeaderSize then
    if bounded : count * elf64ProgramHeaderSize + 8 ≤ 2 ^ 63 then do
      let (ptr, memory) ← memory.alloc supply kernel cpu ⟨_, 8, nonzero, eight_powerOfTwo, bounded⟩
      .ok (some ptr, memory)
    else
      .error (.assertion "capacity overflow")
  else
    .ok (none, memory)

/-- `load_elf` with the vector of the headers, which is dropped in the end. -/
def KernelMemory.loadElf (memory : KernelMemory) (file : File ByteMemory) (header : Elf64Header) :
    Checked (KernelMemory × LoadState × Except String (Nat × Nat)) := do
  let (headers, memory) ← memory.withCapacity supply kernel cpu header.ePhnum
  let (state, result) ← ProcessMemoryMap.loadElf supply kernel file header memory.machine
  let allocator ← (match headers with
    | some ptr => memory.allocator.dealloc ptr
    | none => .ok memory.allocator)
  .ok (⟨state.machine, memory.heapEnd, allocator⟩, state, result)

end Model

/-- A free block is large enough for the headers. -/
def KernelMemory.HasRoom (memory : KernelMemory) (count : Nat) : Prop :=
  ∀ layout : Layout, layout.size = count * elf64ProgramHeaderSize → layout.align = 8 →
    ∃ found, memory.allocator.findExisting layout = .ok (some found)

/-- The translation of an address, with a fault for one that is no address of
Sv39. -/
def translate (mapper : PageMapper) (memory : ByteMemory) (virt : Nat) : Option Nat :=
  if Canonical virt then mapper.virtToPhys memory virt else none

/-- The address lies in the gigabyte that is handed over to processes. -/
def InLoadArea (virt : Nat) : Prop :=
  processLoadArea ≤ virt ∧ virt < processLoadArea + 2 ^ 30

def WithinArea (ph : Elf64ProgramHeader) : Prop :=
  segmentFirst ph < segmentStop ph → segmentStop ph ≤ areaPages

instance (ph : Elf64ProgramHeader) : Decidable (WithinArea ph) :=
  inferInstanceAs (Decidable (_ → _))

section Bounds

variable {supply : FrameSupply} {kernel : Kernel} {cpu : CpuType} {machine after : Machine}
  {rank grown : Nat → Option Nat} {done : List Elf64ProgramHeader} {frame : Nat → Nat} {virt : Nat}

/-- A vector finds room, or the heap grows by at least a page. -/
theorem withCapacity_cases {memory later : KernelMemory} {count : Nat} {headers : Option Nat}
    (ran : memory.withCapacity supply kernel cpu count = .ok (headers, later)) :
    memory.HasRoom count ∧ later.machine = memory.machine ∨
      ¬ memory.HasRoom count ∧ ∃ pages, 0 < pages ∧ memory.heapEnd + pages * 4096 < 2 ^ 64 ∧
        kernel.pageMapper.allocateLoop supply memory.heapEnd (heapFlags cpu) false pages 0
          memory.machine = .ok later.machine := by
  unfold KernelMemory.withCapacity at ran
  split at ran
  case isFalse isEmpty =>
    cases ran
    exact Or.inl ⟨fun layout sizeEq _ => absurd (sizeEq ▸ layout.nonzero) isEmpty, rfl⟩
  split at ran
  case isFalse => cases ran
  rename_i nonzero bounded
  obtain ⟨layout, layoutEq⟩ : ∃ layout : Layout,
    layout = ⟨_, 8, nonzero, eight_powerOfTwo, bounded⟩ := ⟨_, rfl⟩
  rw [← layoutEq] at ran
  have only : memory.HasRoom count ↔
      ∃ found, memory.allocator.findExisting layout = .ok (some found) := by
    rw [layoutEq]
    refine ⟨fun room => room _ rfl rfl, ?_⟩
    rintro found ⟨_, _, _, _, _⟩ rfl rfl
    exact found
  obtain ⟨⟨ptr, after⟩, ran, same⟩ := bind_eq_ok.mp ran
  cases same
  obtain ⟨existing, searched, ran⟩ := bind_eq_ok.mp ran
  obtain ⟨⟨answer, heap⟩, heapRan, ran⟩ := bind_eq_ok.mp ran
  obtain ⟨⟨ptr, allocator⟩, allocated, ran⟩ := bind_eq_ok.mp ran
  obtain ⟨isPointer, ran⟩ := ensure_bind_eq_ok.mp ran
  cases ran
  rw [only, searched]
  cases existing with
  | some found =>
    cases heapRan
    exact Or.inl ⟨⟨found, rfl⟩, rfl⟩
  | none =>
    refine Or.inr ⟨nofun, ?_⟩
    obtain ⟨size, sizeEq, heapRan⟩ := bind_eq_ok.mp heapRan
    obtain ⟨-, rfl⟩ := Memory.alignUp_eq_ok.mp sizeEq
    dsimp only at heapRan
    split at heapRan
    · rename_i fits
      obtain ⟨mapped, mapRan, heapRan⟩ := bind_eq_ok.mp heapRan
      cases heapRan
      have whole : (LinkedListAllocator.growRequest layout + 4095) / 4096 * 4096 / 4096 =
        (LinkedListAllocator.growRequest layout + 4095) / 4096 := Nat.mul_div_cancel _ (by decide)
      have least : 4096 ≤ LinkedListAllocator.growRequest layout := Nat.le_max_right ..
      refine ⟨_, by omega, fits, ?_⟩
      change kernel.pageMapper.allocateLoop supply _ _ false (_ / 4096) 0 _ = _ at mapRan
      rwa [whole] at mapRan
    · -- the allocator gives up without a region
      cases heapRan
      unfold LinkedListAllocator.alloc LinkedListAllocator.findFit at allocated
      rw [searched] at allocated
      cases allocated
      exact absurd rfl isPointer

/-- An address that gets a frame that was free is translated to another address. -/
theorem KernelSpace.moves (space : KernelSpace supply kernel machine rank)
    (loaded : KernelSpace supply kernel after grown) (lower : processLoadArea ≤ virt)
    (upper : virt < wordLimit) {number : Nat} (free : machine.allocated ≤ number)
    (bound : number < supply.owned) {flags : PageFlags}
    (found : view after.memory kernel.pageMapper.rootTable (pageOf virt) =
      some (PageTableEntry.set (supply.frames number) flags, 0)) :
    translate kernel.pageMapper after.memory virt ≠
      translate kernel.pageMapper machine.memory virt := by
  have canonical : Canonical virt := by
    unfold processLoadArea at lower
    exact Or.inr ⟨by omega, upper⟩
  unfold translate
  rw [if_pos canonical, if_pos canonical, loaded.spaces.virtToPhys_eq loaded.isRoot,
    space.spaces.virtToPhys_eq space.isRoot, found, Option.map_some, physical_small,
    supply.addr_set bound rfl]
  cases before : view machine.memory kernel.pageMapper.rootTable (pageOf virt) with
  | none => nofun
  | some leaf =>
    obtain ⟨raw, level⟩ := leaf
    obtain ⟨rfl, -, untaken⟩ := space.high _ (pageOf_high_ge lower upper) (pageOf_lt virt) raw level
      before
    rw [Option.map_some, physical_small]
    intro same
    have sameAddress := Option.some.inj same
    exact untaken number free bound (by omega)

theorem KernelSpace.grow (space : KernelSpace supply kernel machine rank) {heapEnd pages : Nat}
    (aligned : heapEnd % 4096 = 0) (lower : kernelHeapStart ≤ heapEnd)
    (fits : heapEnd + pages * 4096 < 2 ^ 64)
    (ran : kernel.pageMapper.allocateLoop supply heapEnd (heapFlags cpu) false pages 0 machine =
      .ok after) :
    ∃ grown frame, MappedPages supply (· = kernel.lastL1Pte) machine after rank grown
      kernel.pageMapper.rootTable (heapFlags cpu) (pagesFrom (pageOf heapEnd) pages) frame := by
  replace lower : 2 ^ 64 - 2 ^ 30 ≤ heapEnd := lower
  have bound : 2 ^ 26 ≤ pageOf heapEnd ∧ pageOf heapEnd + 0 + pages ≤ 2 ^ 27 := by
    unfold pageOf pageLimit
    omega
  obtain ⟨grown, frame, mapped, -, -⟩ := space.spaces.allocateLoop space.isRoot
    (heapFlags_permitted cpu) bound.2 (fun page isNew raw level found => (space.high page
      (bound.1.trans isNew.1) (isNew.2.trans_le bound.2) raw level found).1) ran
  exact ⟨grown, frame, mapped⟩

theorem KernelSpace.load_moves (space : KernelSpace supply kernel machine rank)
    (mapped : MappedPages supply (· = kernel.lastL1Pte) machine after rank grown
      kernel.pageMapper.rootTable loadFlags (loadPages done) frame)
    (lower : processLoadArea ≤ virt) (upper : virt < wordLimit)
    (isLoaded : loadPages done (pageOf virt)) :
    translate kernel.pageMapper after.memory virt ≠
      translate kernel.pageMapper machine.memory virt := by
  obtain ⟨number, free, taken, frameEq, -⟩ := mapped.fresh _ isLoaded
  have found := mapped.hit _ space.isRoot _ isLoaded (Or.inl rfl)
  rw [frameEq] at found
  exact space.moves (space.mapped mapped) lower upper free (taken.trans_le mapped.spaces.owned)
    found

theorem KernelSpace.load_keeps (space : KernelSpace supply kernel machine rank)
    (mapped : MappedPages supply (· = kernel.lastL1Pte) machine after rank grown
      kernel.pageMapper.rootTable loadFlags (loadPages done) frame)
    (aside : ¬ loadPages done (pageOf virt)) :
    translate kernel.pageMapper after.memory virt =
      translate kernel.pageMapper machine.memory virt := by
  have loaded := space.mapped mapped
  unfold translate
  rw [loaded.spaces.virtToPhys_eq loaded.isRoot, space.spaces.virtToPhys_eq space.isRoot,
    mapped.miss _ space.isRoot _ (pageOf_lt virt) fun isLoaded => absurd isLoaded aside]

/-- Outside the load area there are only pages of segments that leave it. -/
theorem not_loadPages_of_within (within : ∀ ph ∈ done, WithinArea ph)
    (canonical : Canonical virt) (outside : ¬ InLoadArea virt) :
    ¬ loadPages done (pageOf virt) := by
  rintro ⟨ph, isSegment, lower, upper⟩
  unfold Canonical at canonical
  have inArea := within ph isSegment (by unfold highPage at *; omega)
  unfold InLoadArea processLoadArea at outside
  unfold pageOf pageLimit highPage at lower upper
  unfold areaPages at inArea
  omega

/-- Loading keeps to the load area exactly if no segment it attempts has a page above the
first gigabyte. -/
theorem KernelSpace.load_keeps_area_iff (space : KernelSpace supply kernel machine rank)
    {file : File ByteMemory} {header : Elf64Header} {state : LoadState}
    {result : Except String (Nat × Nat)}
    (ran : loadElf supply kernel file header machine = .ok (state, result)) :
    (∀ virt < 2 ^ 64, ¬ InLoadArea virt →
      translate kernel.pageMapper state.machine.memory virt =
        translate kernel.pageMapper machine.memory virt) ↔
      ∀ ph ∈ attempted file.inode (fileHeaders file.inode header), WithinArea ph := by
  obtain ⟨grown, frame, run⟩ := space.load_run ran
  have mapped := run.mapped
  rw [List.append_nil] at mapped
  constructor
  · intro confined ph isSegment nonempty
    by_contra large
    have inside : segmentStop ph < highPage := run.inside ph isSegment
    have upper : processLoadArea + (segmentStop ph - 1) * 4096 < wordLimit := by
      unfold highPage at inside
      unfold processLoadArea wordLimit
      omega
    have pageEq := pageOf_high (Nat.le_add_right processLoadArea _) upper
    rw [Nat.add_sub_cancel_left, Nat.mul_div_cancel _ (by decide)] at pageEq
    have isLoaded : loadPages (attempted file.inode (fileHeaders file.inode header)).reverse
        (pageOf (processLoadArea + (segmentStop ph - 1) * 4096)) :=
      ⟨ph, List.mem_reverse.mpr isSegment, by rw [pageEq]; unfold segmentPages; omega⟩
    refine space.load_moves mapped (Nat.le_add_right ..) upper isLoaded (confined _ upper ?_)
    unfold areaPages at large
    unfold InLoadArea
    omega
  · intro within virt _ outside
    by_cases canonical : Canonical virt
    · refine space.load_keeps mapped (not_loadPages_of_within ?_ canonical outside)
      intro ph isSegment
      exact within ph (List.mem_reverse.mp isSegment)
    · unfold translate
      rw [if_neg canonical, if_neg canonical]

end Bounds

/-- Loading keeps to the load area exactly if no segment it attempts has a page above the
first gigabyte, and the heap has room for the headers. -/
theorem load_confined_iff {supply : FrameSupply} {kernel : Kernel} {world : World}
    (reached : Reached supply kernel world) {trapFrame : TrapFrame} {context : Context}
    {machine : Machine} (created : Context.new supply trapFrame world.machine =
      .ok (context, machine))
    {heapEnd : Nat} (aligned : heapEnd % 4096 = 0) (lower : kernelHeapStart ≤ heapEnd)
    {allocator : LinkedListAllocator} {cpu : CpuType} {file : File ByteMemory}
    {header : Elf64Header} {after : KernelMemory} {result : LoadState × Except String (Nat × Nat)}
    (ran : KernelMemory.loadElf supply kernel cpu ⟨machine, heapEnd, allocator⟩ file header =
      .ok (after, result)) :
    (∀ virt < 2 ^ 64, ¬ InLoadArea virt →
      translate kernel.pageMapper after.machine.memory virt =
        translate kernel.pageMapper machine.memory virt) ↔
      (∀ ph ∈ attempted file.inode (fileHeaders file.inode header), WithinArea ph) ∧
        KernelMemory.HasRoom ⟨machine, heapEnd, allocator⟩ header.ePhnum := by
  obtain ⟨_, sound⟩ := reached.sound
  obtain ⟨rank, emptied, -⟩ := sound.idle.emptied created
  have space := emptied.idle.space
  obtain ⟨⟨headers, memory⟩, capacityRan, ran⟩ := bind_eq_ok.mp ran
  obtain ⟨⟨state, values⟩, loadRan, ran⟩ := bind_eq_ok.mp ran
  obtain ⟨last, -, ran⟩ := bind_eq_ok.mp ran
  cases ran
  rcases withCapacity_cases capacityRan with ⟨room, same⟩ | ⟨full, pages, positive, fits, grew⟩
  · rw [and_iff_left room, ← space.load_keeps_area_iff (same ▸ loadRan)]
  · dsimp only at fits grew
    refine iff_of_false (fun confined => ?_) fun within => full within.2
    obtain ⟨grown, frame, mapped⟩ := space.grow aligned lower fits grew
    obtain ⟨final, loadFrame, run⟩ := (space.mapped mapped).load_run loadRan
    have loaded := run.mapped
    have owned := loaded.spaces.owned
    have monotone := loaded.extends'.monotone
    have rootGrown := (space.mapped mapped).isRoot
    have area : processLoadArea ≤ heapEnd ∧ heapEnd < wordLimit ∧ ¬ InLoadArea heapEnd := by
      unfold kernelHeapStart at lower
      unfold InLoadArea processLoadArea wordLimit
      omega
    obtain ⟨number, free, taken, frameEq, -⟩ := mapped.fresh _ ⟨le_rfl, by omega⟩
    have hit := mapped.hit _ space.isRoot _ ⟨le_rfl, by omega⟩ (Or.inl rfl)
    -- the page of the old end has the frame of the heap, or that of a segment
    have found : ∃ number flags, machine.allocated ≤ number ∧ number < supply.owned ∧
        view state.machine.memory kernel.pageMapper.rootTable (pageOf heapEnd) =
          some (PageTableEntry.set (supply.frames number) flags, 0) := by
      by_cases isLoaded : loadPages ((attempted file.inode (fileHeaders file.inode
          header)).reverse ++ []) (pageOf heapEnd)
      · obtain ⟨other, otherFree, otherTaken, otherEq, -⟩ := loaded.fresh _ isLoaded
        exact ⟨other, loadFlags, mapped.extends'.monotone.trans otherFree, by omega,
          otherEq ▸ loaded.hit _ rootGrown _ isLoaded (Or.inl rfl)⟩
      · refine ⟨number, heapFlags cpu, free, by omega, ?_⟩
        rw [loaded.miss _ rootGrown _ (pageOf_lt _) fun isPage => absurd isPage isLoaded, hit,
          frameEq]
    obtain ⟨_, _, numberFree, bound, seen⟩ := found
    exact space.moves ((space.mapped mapped).mapped loaded) area.1 area.2.1 numberFree bound seen
      (confined _ area.2.1 area.2.2)

def headerLayout : Layout :=
  ⟨1 * elf64ProgramHeaderSize, 8, by decide, eight_powerOfTwo, by decide⟩

theorem bootHeap_serves : ∃ allocator found ptr later last,
    LinkedListAllocator.init (fun _ => 0) kernelHeapStart kernelHeapSize = .ok allocator ∧
      allocator.findExisting headerLayout = .ok (some found) ∧
      allocator.alloc (fun _ => none) headerLayout = .ok (ptr, later) ∧ ptr ≠ 0 ∧
      later.dealloc ptr = .ok last := by
  have evaluated : (do
      let allocator ← LinkedListAllocator.init (fun _ => 0) kernelHeapStart kernelHeapSize
      let found ← allocator.findExisting headerLayout
      let (ptr, later) ← allocator.alloc (fun _ => none) headerLayout
      let _ ← later.dealloc ptr
      .ok (found.isSome && ptr ≠ 0) : Checked Bool) = .ok true := by
    decide +kernel
  obtain ⟨allocator, started, evaluated⟩ := bind_eq_ok.mp evaluated
  obtain ⟨found, searched, evaluated⟩ := bind_eq_ok.mp evaluated
  obtain ⟨⟨ptr, later⟩, allocated, evaluated⟩ := bind_eq_ok.mp evaluated
  obtain ⟨last, freed, evaluated⟩ := bind_eq_ok.mp evaluated
  rw [Except.ok.injEq, Bool.and_eq_true, decide_eq_true_eq] at evaluated
  obtain ⟨block, rfl⟩ := Option.isSome_iff_exists.mp evaluated.1
  exact ⟨allocator, block, ptr, later, last, started, searched, allocated, evaluated.2, freed⟩

/-- A file with one program header is loaded by a kernel that has just booted. -/
theorem board_loads {inode : Inode ByteMemory}
    (readable : HeadersReadable inode (headerOf ⟨0, inode⟩))
    (fits : ∀ ph ∈ segmentsOf ⟨0, inode⟩, Fits inode ph)
    (small : pageTotal (segmentsOf ⟨0, inode⟩) ≤ 1000)
    (single : (headerOf ⟨0, inode⟩).ePhnum = 1) :
    ∃ kernel world context machine allocator after state values, Reached boardSupply kernel world ∧
      Context.new boardSupply ⟨0, 0, 0, 0, 0, 0⟩ world.machine = .ok (context, machine) ∧
      KernelMemory.HasRoom ⟨machine, kernelHeapStart + kernelHeapSize, allocator⟩
        (headerOf ⟨0, inode⟩).ePhnum ∧
      loadElf boardSupply kernel ⟨elf64HeaderSize, inode⟩ (headerOf ⟨0, inode⟩) machine =
        .ok (state, .ok values) ∧ after.machine = state.machine ∧
      KernelMemory.loadElf boardSupply kernel .qemu
        ⟨machine, kernelHeapStart + kernelHeapSize, allocator⟩ ⟨elf64HeaderSize, inode⟩
        (headerOf ⟨0, inode⟩) = .ok (after, state, .ok values) := by
  obtain ⟨kernel, world, context, machine, reached, created, few⟩ := board_context
  have owned : boardSupply.owned = 0x7000 := rfl
  obtain ⟨_, sound⟩ := reached.sound
  obtain ⟨_, emptied, -⟩ := sound.idle.emptied created
  have loadFits : ∀ ph ∈ loadable (fileHeaders inode (headerOf ⟨0, inode⟩)), Fits inode ph := fits
  have enough : machine.allocated + 3 * pageTotal (loadable (fileHeaders inode
      (headerOf ⟨0, inode⟩))) ≤ boardSupply.owned := by
    change machine.allocated + 3 * pageTotal (segmentsOf ⟨0, inode⟩) ≤ boardSupply.owned
    omega
  obtain ⟨state, values, ran, -⟩ := @KernelSpace.load_total boardSupply kernel
    ⟨elf64HeaderSize, inode⟩ _ machine _ emptied.idle.space readable loadFits enough
  obtain ⟨allocator, found, ptr, later, last, -, searched, allocated, nonnull, freed⟩ :=
    bootHeap_serves
  have served : KernelMemory.withCapacity boardSupply kernel .qemu
      ⟨machine, kernelHeapStart + kernelHeapSize, allocator⟩ 1 =
        .ok (some ptr, ⟨machine, kernelHeapStart + kernelHeapSize, later⟩) := by
    change (KernelMemory.alloc boardSupply kernel .qemu _ headerLayout).bind _ = _
    unfold KernelMemory.alloc
    rw [searched, ok_bind]
    dsimp only
    rw [ok_bind, allocated, ok_bind]
    rw [ensure_bind nonnull]
    rfl
  refine ⟨kernel, world, context, machine, allocator,
    ⟨state.machine, kernelHeapStart + kernelHeapSize, last⟩, state, values,
    reached, created, ?_, ran, rfl, ?_⟩
  · rw [single]
    rintro ⟨_, _, _, _, _⟩ rfl rfl
    exact ⟨found, searched⟩
  · unfold KernelMemory.loadElf
    rw [single, served, ok_bind]
    dsimp only
    rw [ran, ok_bind]
    rw [freed]
    rfl

theorem smallProgram_confined : ∃ kernel world context machine heapEnd allocator after result,
    Reached boardSupply kernel world ∧
      Context.new boardSupply ⟨0, 0, 0, 0, 0, 0⟩ world.machine = .ok (context, machine) ∧
      KernelMemory.loadElf boardSupply kernel .qemu ⟨machine, heapEnd, allocator⟩
        ⟨elf64HeaderSize, smallProgram⟩ (headerOf ⟨0, smallProgram⟩) = .ok (after, result) ∧
      ∀ virt < 2 ^ 64, ¬ InLoadArea virt →
        translate kernel.pageMapper after.machine.memory virt =
          translate kernel.pageMapper machine.memory virt := by
  obtain ⟨kernel, world, context, machine, allocator, after, state, values, reached, created, room,
    -, -, ran⟩ := board_loads smallProgram_loads.headers smallProgram_loads.fits
      (by rw [smallProgram_pages]; decide) (by decide +kernel)
  have within : ∀ ph ∈ attempted smallProgram (fileHeaders smallProgram
      (headerOf ⟨0, smallProgram⟩)), WithinArea ph := by decide +kernel
  exact ⟨kernel, world, context, machine, _, allocator, after, _, reached, created, ran,
    (load_confined_iff reached created (by decide) (by decide) ran).mpr ⟨within, room⟩⟩

/-- A program whose only page is loaded where the kernel has its heap. -/
def heapProgram : Inode ByteMemory := elfFile 4096 [⟨1, 0, 0x3fc0000000, 0x1000, 0x1000⟩]

theorem heapProgram_segments :
    segmentsOf ⟨0, heapProgram⟩ = [⟨1, 0, 0x3fc0000000, 0x1000, 0x1000⟩] := by
  decide +kernel

theorem heapProgram_moves_heap : ∃ kernel world context machine heapEnd allocator after result,
    Reached boardSupply kernel world ∧
      Context.new boardSupply ⟨0, 0, 0, 0, 0, 0⟩ world.machine = .ok (context, machine) ∧
      KernelMemory.loadElf boardSupply kernel .qemu ⟨machine, heapEnd, allocator⟩
        ⟨elf64HeaderSize, heapProgram⟩ (headerOf ⟨0, heapProgram⟩) = .ok (after, result) ∧
      ¬ InLoadArea kernelHeapStart ∧
      translate kernel.pageMapper after.machine.memory kernelHeapStart ≠
        translate kernel.pageMapper machine.memory kernelHeapStart := by
  have fits : ∀ ph ∈ segmentsOf ⟨0, heapProgram⟩, Fits heapProgram ph := by
    decide +kernel
  obtain ⟨kernel, world, context, machine, allocator, after, state, values, reached, created, -,
    loadRan, same, ran⟩ := board_loads (by decide +kernel) fits
      (by rw [heapProgram_segments]; decide) (by decide +kernel)
  refine ⟨kernel, world, context, machine, _, allocator, after, _, reached, created, ran,
    by unfold InLoadArea; decide, ?_⟩
  obtain ⟨_, sound⟩ := reached.sound
  obtain ⟨rank, emptied, -⟩ := sound.idle.emptied created
  obtain ⟨grown, frame, run⟩ := emptied.idle.space.load_run loadRan
  obtain ⟨-, -, loaded⟩ := run.success _ rfl
  have isLoaded : loadPages ([⟨1, 0, 0x3fc0000000, 0x1000, 0x1000⟩].reverse ++ [])
      (pageOf kernelHeapStart) :=
    ⟨_, List.mem_cons_self, by decide⟩
  rw [same]
  exact emptied.idle.space.load_moves loaded.mapped (by decide) (by decide) isLoaded

end NanoOs.ProcessMemoryMap
