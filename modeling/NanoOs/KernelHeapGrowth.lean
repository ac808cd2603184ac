import NanoOs.KernelBoot

/-!
# Growing the kernel heap

`grow_kernel_heap` maps new pages behind the heap.  It looks neither for the region
of the kernel stack nor for frames.  As long as both are far enough away, every call
of a run maps its pages and no others, or changes nothing.
-/

namespace NanoOs.KernelMemoryMap

open PageMapping RadixTables

/-- `KERNEL_STACK_END` of the memory map, where the region of the kernel stack begins. -/
def kernelStackEnd : Nat := 0xffffffffffc00000

/-- The machine with `KERNEL_HEAP_END`. -/
structure KernelHeap where
  machine : Machine
  heapEnd : Nat

def heapFlags (cpu : CpuType) : PageFlags := readWrite.bitor (theadMemFlags cpu)

def growKernelHeap (supply : FrameSupply) (mapper : PageMapper) (cpu : CpuType)
    (heap : KernelHeap) (size : Nat) : Checked (Option (Nat × Nat) × KernelHeap) := do
  let size ← Memory.alignUp size
  let newEnd := heap.heapEnd + size
  -- `checked_add` with `?`
  if newEnd < wordLimit then
    let machine ← mapper.allocateAndMapPages supply heap.machine heap.heapEnd size (heapFlags cpu)
    .ok (some (heap.heapEnd, size), ⟨machine, newEnd⟩)
  else
    .ok (none, heap)

def pagesOf (size : Nat) : Nat := (size + 4095) / 4096

/-- The lowest tables that start with one of the pages. -/
def tablesFor (first count : Nat) : Nat := (first + count + 511) / 512 - (first + 511) / 512

section

variable (supply : FrameSupply) (shared : Nat → Prop) (mapper : PageMapper) (cpu : CpuType)

/-- The heap ends with a small page, and nothing is mapped up to the region of the stack. -/
structure HeapArea (rank : Nat → Option Nat) (heap : KernelHeap) : Prop where
  spaces : Spaces supply shared heap.machine rank
  isRoot : rank mapper.rootTable = some 2
  aligned : heap.heapEnd % 4096 = 0
  lower : kernelHeapStart ≤ heap.heapEnd
  upper : heap.heapEnd ≤ kernelStackEnd
  last : kernelHeapStart < heap.heapEnd → ∃ raw,
    view heap.machine.memory mapper.rootTable (pageOf heap.heapEnd - 1) = some (raw, 0)
  vacant : ∀ page, pageOf heap.heapEnd ≤ page → page < pageOf kernelStackEnd →
    view heap.machine.memory mapper.rootTable page = none

/-- The size can be rounded, and either the new end is no address, or it is not behind the
begin of the stack and there are frames for the pages and their tables. -/
def Fits (heap : KernelHeap) (size : Nat) : Prop :=
  size + 4096 < 2 ^ 64 ∧ (wordLimit ≤ heap.heapEnd + pagesOf size * 4096 ∨
    heap.heapEnd + pagesOf size * 4096 ≤ kernelStackEnd ∧
      heap.machine.allocated + pagesOf size + tablesFor (pageOf heap.heapEnd) (pagesOf size) ≤
        supply.owned)

/-- The pages behind the heap get frames of their own, and all others stay as they are. -/
structure Grown (heap after : KernelHeap) (count : Nat) (frame : Nat → Nat) : Prop where
  new : ∀ page, pagesFrom (pageOf heap.heapEnd) count page →
    view heap.machine.memory mapper.rootTable page = none ∧
    view after.machine.memory mapper.rootTable page =
      some (PageTableEntry.set (frame page) (heapFlags cpu), 0) ∧
    ∃ number, heap.machine.allocated ≤ number ∧ number < after.machine.allocated ∧
      frame page = supply.frames number
  distinct : ∀ page, pagesFrom (pageOf heap.heapEnd) count page →
    ∀ other, pagesFrom (pageOf heap.heapEnd) count other → frame page = frame other → page = other
  others : ∀ page < pageLimit, ¬ pagesFrom (pageOf heap.heapEnd) count page →
    view after.machine.memory mapper.rootTable page =
      view heap.machine.memory mapper.rootTable page

/-- The call returns, with nothing changed or with the heap grown up to the stack at most. -/
def Grows (heap : KernelHeap) (size : Nat) : Prop :=
  ∃ answer after, growKernelHeap supply mapper cpu heap size = .ok (answer, after) ∧
    (answer = none ∧ after = heap ∨
      answer = some (heap.heapEnd, pagesOf size * 4096) ∧
        after.heapEnd = heap.heapEnd + pagesOf size * 4096 ∧ after.heapEnd ≤ kernelStackEnd ∧
        ∃ frame, Grown supply mapper cpu heap after (pagesOf size) frame)

/-- All calls of a run are as the predicate says of the heap before them. -/
def EveryCall (call : KernelHeap → Nat → Prop) : KernelHeap → List Nat → Prop
  | _, [] => True
  | heap, size :: sizes => call heap size ∧ ∀ answer after,
      growKernelHeap supply mapper cpu heap size = .ok (answer, after) →
        EveryCall call after sizes

end

variable {supply : FrameSupply} {shared : Nat → Prop} {mapper : PageMapper} {cpu : CpuType}
  {rank : Nat → Option Nat} {heap : KernelHeap} {machine : Machine} {sizes : List Nat}
  {raw virt phys size count index : Nat}

theorem heapFlags_permitted (cpu : CpuType) :
    (heapFlags cpu).intersects PageFlags.permissions = true := by
  cases cpu <;> rfl

theorem pageOf_heap (lower : kernelHeapStart ≤ virt) (upper : virt ≤ kernelStackEnd) :
    pageOf virt + (2 ^ 52 - 2 ^ 27) = virt / 4096 := by
  unfold kernelHeapStart at lower
  unfold kernelStackEnd at upper
  unfold pageOf pageLimit
  omega

/-- Behind a page of the last gigabyte, only the first page of a table needs one. -/
theorem missingTables_behind {memory : ByteMemory} {root first : Nat}
    (found : view memory root (first - 1) = some (raw, 0)) (high : pageLimit - 2 ^ 18 < first)
    (bound : first + count ≤ pageLimit) :
    missingTables memory root first count ≤ tablesFor first count := by
  obtain ⟨second, link, found⟩ := pointer_of_lookup found (Nat.succ_pos _)
  obtain ⟨third, lower, -⟩ := pointer_of_lookup found (Nat.succ_pos _)
  unfold pageLimit at high bound
  have inside : (tablePaths first count).filter (reach (slots memory) root · = none) ⊆
      (Finset.Ico ((first + 511) / 512) ((first + count + 511) / 512)).image
        fun table => upperPath (table * 512) := by
    intro path isMissing
    obtain ⟨isPath, missing⟩ := Finset.mem_filter.mp isMissing
    obtain ⟨page, inRange, isPath⟩ := mem_tablePaths.mp isPath
    have highEq : page / 2 ^ 18 = (first - 1) / 2 ^ 18 := by omega
    rcases isPath with rfl | rfl
    · rw [highEq, reach_cons_pointer link] at missing
      cases missing
    · refine Finset.mem_image.mpr ⟨page / 512, Finset.mem_Ico.mpr ⟨?_, by omega⟩, ?_⟩
      · by_contra early
        rw [upperPath, highEq, show page / 2 ^ 9 % 512 = (first - 1) / 2 ^ 9 % 512 by omega,
          reach_cons_pointer link, reach_cons_pointer lower] at missing
        cases missing
      · rw [upperPath, upperPath, show page / 512 * 512 / 2 ^ 18 = page / 2 ^ 18 by omega,
          show page / 512 * 512 / 2 ^ 9 % 512 = page / 2 ^ 9 % 512 by omega]
  have counted := (Finset.card_le_card inside).trans Finset.card_image_le
  rwa [Nat.card_Ico] at counted

theorem HeapArea.extend (area : HeapArea supply shared mapper rank heap)
    (below : heap.heapEnd + count * 4096 ≤ kernelStackEnd)
    (ran : mapper.allocateLoop supply heap.heapEnd (heapFlags cpu) false count 0 heap.machine =
      .ok machine) :
    (∃ frame, Grown supply mapper cpu heap ⟨machine, heap.heapEnd + count * 4096⟩ count frame) ∧
      ∃ grown, HeapArea supply shared mapper grown ⟨machine, heap.heapEnd + count * 4096⟩ := by
  obtain ⟨spaces, isRoot, aligned, lower, upper, last, vacant⟩ := area
  have pageEq := pageOf_heap lower upper
  have afterEq := pageOf_heap (lower.trans (Nat.le_add_right ..)) below
  have stackEq : pageOf kernelStackEnd = 2 ^ 27 - 2 ^ 10 := by decide
  have stackValue : kernelStackEnd = 2 ^ 64 - 2 ^ 22 := by decide
  have limit : pageLimit = 2 ^ 27 := rfl
  have unmapped : ∀ page, pagesFrom (pageOf heap.heapEnd) count page →
      view heap.machine.memory mapper.rootTable page = none :=
    fun page inside => vacant page inside.1 (by have := inside.2; omega)
  obtain ⟨grown, frame, mapped, -, -⟩ := @Spaces.allocateLoop machine heap.machine 0 count
    heap.heapEnd supply shared rank spaces mapper _ false isRoot (heapFlags_permitted cpu)
    (by omega) (fun page inside raw level seen => by simp [unmapped page inside] at seen) ran
  have hit := fun page inside => mapped.hit _ isRoot page inside (Or.inl rfl)
  have miss := fun page inRange outside => mapped.miss _ isRoot page inRange
    fun inside => absurd inside outside
  refine ⟨⟨frame, fun page inside => ⟨unmapped page inside, hit page inside, ?_⟩, mapped.distinct,
    miss⟩, grown, mapped.spaces, mapped.extends'.kept _ 2 isRoot, by dsimp only; omega,
    by dsimp only; omega, below, fun started => ?_, fun page least most => ?_⟩
  · obtain ⟨number, least, most, frameEq, -⟩ := mapped.fresh page inside
    exact ⟨number, least, most, frameEq⟩
  · by_cases some : 0 < count
    · exact ⟨_, hit _ ⟨by dsimp only; omega, by dsimp only; omega⟩⟩
    · obtain rfl : count = 0 := by omega
      obtain ⟨raw, found⟩ := last started
      rw [← miss _ (by omega) (by unfold pagesFrom; omega)] at found
      exact ⟨raw, found⟩
  · dsimp only at least ⊢
    rw [miss page (by omega) (by unfold pagesFrom; omega)]
    exact vacant page (by omega) most

/-- A frame for each page and each table is enough for the loop. -/
theorem HeapArea.loop (area : HeapArea supply shared mapper rank heap)
    (started : kernelHeapStart < heap.heapEnd)
    (below : heap.heapEnd + count * 4096 ≤ kernelStackEnd)
    (enough : heap.machine.allocated + count + tablesFor (pageOf heap.heapEnd) count ≤
      supply.owned) :
    ∃ after, mapper.allocateLoop supply heap.heapEnd (heapFlags cpu) false count 0 heap.machine =
      .ok after := by
  obtain ⟨raw, found⟩ := area.last started
  have aligned := area.aligned
  have pageEq := pageOf_heap area.lower area.upper
  have stackEq : pageOf kernelStackEnd = 2 ^ 27 - 2 ^ 10 := by decide
  replace started : 2 ^ 64 - 2 ^ 30 < heap.heapEnd := started
  replace below : heap.heapEnd + count * 4096 ≤ 2 ^ 64 - 2 ^ 22 := below
  have bound : pageOf heap.heapEnd + 0 + count ≤ 2 ^ 27 - 2 ^ 10 := by omega
  have few := @missingTables_behind raw count _ _ _ found (by unfold pageLimit; omega)
    (bound.trans (by decide))
  refine (area.spaces.allocateLoop_returns_iff area.isRoot (heapFlags_permitted cpu) aligned
    (by omega) (bound.trans (by decide)) fun page isNew raw level seen => ?_).mpr ?_
  · rw [area.vacant page isNew.1 (isNew.2.trans_le (stackEq ▸ bound))] at seen
    cases seen
  · rw [Nat.add_zero]
    omega

theorem HeapArea.grow (area : HeapArea supply shared mapper rank heap)
    (started : kernelHeapStart < heap.heapEnd) (fits : Fits supply heap size) :
    Grows supply mapper cpu heap size ∧ ∀ answer after,
      growKernelHeap supply mapper cpu heap size = .ok (answer, after) →
        kernelHeapStart < after.heapEnd ∧ ∃ grown, HeapArea supply shared mapper grown after := by
  obtain ⟨small, room⟩ := fits
  have rounded : Memory.alignUp size = .ok (pagesOf size * 4096) :=
    Memory.alignUp_eq_ok.mpr ⟨small, rfl⟩
  unfold Grows growKernelHeap
  rw [rounded, ok_bind]
  rcases room with beyond | ⟨below, enough⟩
  · rw [if_neg (Nat.not_lt.mpr beyond)]
    refine ⟨⟨none, heap, rfl, Or.inl ⟨rfl, rfl⟩⟩, ?_⟩
    rintro answer after ⟨⟩
    exact ⟨started, rank, area⟩
  · obtain ⟨machine, ran⟩ := @HeapArea.loop _ _ _ cpu _ _ _ area started below enough
    obtain ⟨grown, after⟩ := area.extend below ran
    have fits : heap.heapEnd + pagesOf size * 4096 < wordLimit := below.trans_lt (by decide)
    have count : pagesOf size * 4096 / Memory.pageSize = pagesOf size :=
      Nat.mul_div_cancel _ (by decide)
    rw [if_pos fits, PageMapper.allocateAndMapPages, PageMapper.allocateAndMapPagesImpl, count, ran,
      ok_bind]
    refine ⟨⟨_, _, rfl, Or.inr ⟨rfl, rfl, below, grown⟩⟩, ?_⟩
    rintro answer after ⟨⟩
    exact ⟨started.trans_le (Nat.le_add_right ..), after⟩

/-- In every run whose calls fit, each call is bounded and all-or-nothing. -/
theorem everyCall_grows (area : HeapArea supply shared mapper rank heap)
    (started : kernelHeapStart < heap.heapEnd)
    (fits : EveryCall supply mapper cpu (Fits supply) heap sizes) :
    EveryCall supply mapper cpu (Grows supply mapper cpu) heap sizes := by
  induction sizes generalizing heap rank with
  | nil => trivial
  | cons size sizes ih =>
    obtain ⟨fit, rest⟩ := fits
    obtain ⟨grows, kept⟩ := area.grow started fit
    refine ⟨grows, fun answer after ran => ?_⟩
    obtain ⟨startedAfter, grown, areaAfter⟩ := kept answer after ran
    exact ih areaAfter startedAfter (rest answer after ran)

def twentyFrames : FrameSupply where
  frames number := 2 ^ 21 + number * 4096
  owned := 20
  aligned number _ := by omega
  lower number _ := by omega
  upper number isOwned := by omega
  distinct first _ second _ same := by omega

theorem twentyFrames_heap : ∃ mapper heap rank,
    HeapArea twentyFrames (fun _ => False) mapper rank heap ∧
      heap.heapEnd = kernelHeapStart + 4 * 4096 ∧ heap.machine.allocated ≤ 13 := by
  let created := PageMapper.new twentyFrames.frames ⟨fun _ => 0, 0⟩
  obtain ⟨rank, ram⟩ := @RamMapped.create twentyFrames ⟨fun _ => 0, 0⟩ created.2 created.1 rfl
  have area : HeapArea twentyFrames (fun _ => False) created.1 rank ⟨created.2, kernelHeapStart⟩ :=
    ⟨ram.spaces, ram.isRoot, by decide, le_rfl, by decide, fun later => absurd later (by simp),
      fun page lower upper =>
        ram.low page (upper.trans (pageOf_lt _)) (Or.inr (le_trans (by decide) lower))⟩
  obtain ⟨machine, ran, few⟩ := @allocateLoop_total twentyFrames created.1 (heapFlags .qemu) false
    kernelHeapStart 4 0 created.2 (by decide) (by decide) (by decide)
  obtain ⟨-, grown, mapped⟩ := area.extend (by decide) ran
  exact ⟨_, _, grown, mapped, rfl, few⟩

theorem page_grows : ∃ mapper heap rank,
    HeapArea twentyFrames (fun _ => False) mapper rank heap ∧ kernelHeapStart < heap.heapEnd ∧
      EveryCall twentyFrames mapper .qemu (Fits twentyFrames) heap [4096] ∧
      EveryCall twentyFrames mapper .qemu (Grows twentyFrames mapper .qemu) heap [4096] := by
  obtain ⟨mapper, heap, rank, area, endEq, few⟩ := twentyFrames_heap
  have started : kernelHeapStart < heap.heapEnd := by
    rw [endEq]
    decide
  have pages : pagesOf 4096 + tablesFor (pageOf (kernelHeapStart + 4 * 4096)) (pagesOf 4096) =
      1 := by
    decide
  have owned : twentyFrames.owned = 20 := rfl
  have fits : EveryCall twentyFrames mapper .qemu (Fits twentyFrames) heap [4096] := by
    refine ⟨⟨by decide, Or.inr ?_⟩, fun _ _ _ => trivial⟩
    rw [endEq]
    exact ⟨by decide, by omega⟩
  exact ⟨mapper, heap, rank, area, started, fits, everyCall_grows area started fits⟩

/-- Without frames for all its pages a call does not return. -/
theorem megabyte_panics : ∃ mapper heap rank,
    HeapArea twentyFrames (fun _ => False) mapper rank heap ∧ kernelHeapStart < heap.heapEnd ∧
      ∀ result, growKernelHeap twentyFrames mapper .qemu heap 0x100000 ≠ .ok result := by
  obtain ⟨mapper, heap, rank, area, endEq, -⟩ := twentyFrames_heap
  refine ⟨mapper, heap, rank, area, by rw [endEq]; decide, fun result ran => ?_⟩
  obtain ⟨size, rounded, ran⟩ := bind_eq_ok.mp ran
  obtain ⟨-, rfl⟩ := Memory.alignUp_eq_ok.mp rounded
  rw [if_pos (by rw [endEq]; decide)] at ran
  obtain ⟨machine, mapped, -⟩ := bind_eq_ok.mp ran
  have counted := allocateLoop_allocated mapped area.spaces.owned
  have pages : (0x100000 + 4095) / 4096 * 4096 / Memory.pageSize = 256 := by decide
  have owned : twentyFrames.owned = 20 := rfl
  omega

end NanoOs.KernelMemoryMap
