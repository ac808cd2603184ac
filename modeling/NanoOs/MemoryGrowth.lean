import NanoOs.ProcessIsolation

/-!
# Growing the memory of processes

`mmap` and `brk` map pages without looking whether something is there already.
What was mapped stays as it is exactly if the new pages keep out of the heap, the
stack and the mappings of the process; the ranges that `mmap` returns never
overlap.
-/

namespace NanoOs.ProcessMemoryMap

open Files KernelMemoryMap MemoryCalls PageMapping List World

/-- The translation of an address by the page map of a process. -/
def World.translate (world : World) (process virt : Nat) : Option Nat :=
  match world.processes[process]? with
  | none => none
  | some ctx => ctx.pageMap.virtToPhys world.machine.memory virt

def KeepsMappings (world : World) (request : Request) (after : World) : Prop :=
  match request with
  | .spawn _ => True
  | _ => ∀ process virt phys, world.translate process virt = some phys →
      after.translate process virt = some phys

/-- A range of addresses that `mmap` returned to a process. -/
structure MmapRange where
  process : Nat
  start : Nat
  size : Nat

/-- The ranges belong to different processes or have no address in common. -/
def MmapRange.Apart (first second : MmapRange) : Prop :=
  first.process = second.process →
    first.start + first.size ≤ second.start ∨ second.start + second.size ≤ first.start

/-- The value that `mmap` returns if it does not support its arguments. -/
def mmapError : Nat := wordLimit - 1 - 37 + 1

/-- The range that a request returns, if it is a call of `mmap` that succeeds. -/
def World.returned (supply : FrameSupply) (world : World) : Request → Option MmapRange
  | .mmap process tf =>
      match world.processes[process]? with
      | none => none
      | some ctx =>
          match MemoryCalls.mmap supply tf ctx world.machine with
          | .error _ => none
          | .ok outcome =>
              if outcome.tf.a0 = mmapError then none
              else some ⟨process, outcome.tf.a0, roundUp tf.a1⟩
  | _ => none

def World.ranges (supply : FrameSupply) (kernel : Kernel) (world : World) :
    List Request → List MmapRange
  | [] => []
  | request :: rest =>
      match world.perform supply kernel request with
      | .error _ => []
      | .ok after => (world.returned supply request).toList ++ after.ranges supply kernel rest

def ZeroFilled (world : World) (range : MmapRange) : Prop :=
  ∀ virt, range.start ≤ virt → virt < range.start + range.size →
    ∃ phys, world.translate range.process virt = some phys ∧ world.machine.memory phys = 0

/-- The request replaces no mapping, and what it returns is filled with zeros. -/
def Grows (supply : FrameSupply) (world : World) (request : Request) (after : World) : Prop :=
  KeepsMappings world request after ∧
    ∀ range, world.returned supply request = some range → ZeroFilled after range

/-- Every step of a run has the property, as far as the run gets. -/
def World.EveryStep (supply : FrameSupply) (kernel : Kernel)
    (property : World → Request → World → Prop) (world : World) : List Request → Prop
  | [] => True
  | request :: rest => ∀ after, world.perform supply kernel request = .ok after →
      property world request after ∧ after.EveryStep supply kernel property rest

def Meet (start stop otherStart otherStop : Nat) : Prop :=
  max start otherStart < min stop otherStop

instance (start stop otherStart otherStop : Nat) :
    Decidable (Meet start stop otherStart otherStop) :=
  inferInstanceAs (Decidable (_ < _))

/-- The pages that a call maps are neither in the heap nor in the stack, and not
mapped by an earlier call. -/
def Careful (world : World) : Request → Prop
  | .spawn _ => True
  | .mmap process tf => ∀ ctx, world.processes[process]? = some ctx → Supported tf →
      ¬ Meet ctx.mmapNext (ctx.mmapNext + roundUp tf.a1) ctx.heapBegin ctx.heapEnd
  | .brk process tf => ∀ ctx, world.processes[process]? = some ctx → tf.a0 ≠ 0 →
      ¬ Meet ctx.heapEnd (roundUp tf.a0) (processStackStart - processStackStartingSize)
        processStackStart ∧
      ¬ Meet ctx.heapEnd (roundUp tf.a0) processMmapStart ctx.mmapNext

variable {outcome : CallOutcome} {tf : TrapFrame}

section Keeps

variable {supply : FrameSupply} {kernel : Kernel} {world : World} {after : Machine}
  {rank grown : Nat → Option Nat} {process : Nat} {ctx changed : Context} {pages : Nat → Prop}
  {frame : Nat → Nat}

theorem World.translate_current (current : world.processes[process]? = some ctx) (virt : Nat) :
    world.translate process virt = ctx.pageMap.virtToPhys world.machine.memory virt := by
  unfold World.translate
  rw [current]

theorem Sound.translate_eq (sound : Sound supply kernel world rank)
    (current : world.processes[process]? = some ctx) (virt : Nat) :
    world.translate process virt =
      (view world.machine.memory ctx.pageMap.rootTable (pageOf virt)).map (physical virt) := by
  rw [translate_current current]
  exact sound.idle.space.spaces.virtToPhys_eq (sound.spaces process ctx current).isRoot virt

theorem pageOf_page {page : Nat} (inRange : page < pageLimit) : pageOf (page * 4096) = page := by
  unfold pageLimit at inRange
  unfold pageOf pageLimit
  omega

section Mapped

variable (sound : Sound supply kernel world rank)
  (current : world.processes[process]? = some ctx)
  (mapped : MappedPages supply (· = kernel.lastL1Pte) world.machine after rank grown
    ctx.pageMap.rootTable userFlags pages frame)
  (low : ∀ page, pages page → page < pageLimit - 512) (same : changed.pageMap = ctx.pageMap)

include sound current mapped same

theorem Sound.translate_own (virt : Nat) :
    (⟨after, world.processes.set process changed⟩ : World).translate process virt =
      (view after.memory ctx.pageMap.rootTable (pageOf virt)).map (physical virt) := by
  obtain ⟨inRange, -⟩ := List.getElem?_eq_some_iff.mp current
  have own := sound.spaces process ctx current
  rw [translate_current (getElem?_set_self inRange), same]
  exact mapped.spaces.virtToPhys_eq (mapped.extends'.kept _ 2 own.isRoot) virt

theorem Sound.replaced {page raw level : Nat} (isMapped : pages page)
    (isLow : page < pageLimit - 512)
    (found : view world.machine.memory ctx.pageMap.rootTable page = some (raw, level)) :
    ∃ phys, world.translate process (page * 4096) = some phys ∧
      (⟨after, world.processes.set process changed⟩ : World).translate process (page * 4096) ≠
        some phys := by
  have inRange : page < pageLimit := by omega
  have leaf := sound.frames.leaves process page raw level
    ((leaf_low current isLow).trans found)
  obtain ⟨another, anotherBound, addrEq⟩ := leaf.taken
  obtain ⟨number, lower, upper, frameEq, -⟩ := mapped.fresh page isMapped
  have owned := mapped.spaces.owned
  refine ⟨physical (page * 4096) (raw, level), ?_, ?_⟩
  · rw [sound.translate_eq current, pageOf_page inRange, found]
    rfl
  · rw [sound.translate_own current mapped same, pageOf_page inRange,
      (sound.view_own current mapped inRange).1 isMapped, leaf.small, Option.map_some,
      physical_small, physical_small, supply.addr_set (by omega) frameEq, frameEq, addrEq]
    intro sameAddress
    have equal := supply.distinct number (by omega) another (by omega)
      (Nat.add_right_cancel (Option.some.inj sameAddress))
    omega

include low

theorem Sound.keeps_iff :
    (∀ other virt phys, world.translate other virt = some phys →
      (⟨after, world.processes.set process changed⟩ : World).translate other virt = some phys) ↔
      ∀ page, pages page → view world.machine.memory ctx.pageMap.rootTable page = none := by
  constructor
  · intro keeps page isMapped
    cases found : view world.machine.memory ctx.pageMap.rootTable page with
    | none => rfl
    | some leaf =>
      obtain ⟨phys, before, replaced⟩ :=
        sound.replaced current mapped same isMapped (low page isMapped) found
      exact absurd (keeps process _ phys before) replaced
  · intro unmapped other virt phys before
    have inRange := pageOf_lt virt
    by_cases isCaller : other = process
    · subst isCaller
      rw [sound.translate_own current mapped same]
      rw [sound.translate_eq current] at before
      by_cases isMapped : pages (pageOf virt)
      · rw [unmapped _ isMapped] at before
        cases before
      · rw [(sound.view_own current mapped inRange).2 isMapped]
        exact before
    · cases otherCurrent : world.processes[other]? with
      | none =>
        unfold World.translate at before
        rw [otherCurrent] at before
        cases before
      | some otherCtx =>
        have otherRoot := (sound.spaces other otherCtx otherCurrent).isRoot
        have afterCurrent : (world.processes.set process changed)[other]? = some otherCtx := by
          rw [getElem?_set_ne (Ne.symm isCaller), otherCurrent]
        rw [translate_current afterCurrent]
        rw [sound.translate_eq otherCurrent] at before
        rw [mapped.spaces.virtToPhys_eq (mapped.extends'.kept _ 2 otherRoot)]
        by_cases isMapped : pages (pageOf virt)
        · rw [sound.view_other current mapped isCaller otherCurrent (low _ isMapped)]
          exact before
        · rw [mapped.miss _ otherRoot _ inRange fun isMapped' => absurd isMapped' isMapped]
          exact before

end Mapped

theorem Sound.unmapped_iff (sound : Sound supply kernel world rank)
    (current : world.processes[process]? = some ctx) {page : Nat} (isLow : page < pageLimit - 512)
    (aboveImage : areaPages ≤ page ∨ ctx.heapBegin ≤ page * 4096) :
    view world.machine.memory ctx.pageMap.rootTable page = none ↔
      ¬ (stackPages page ∨ heapPages ctx page ∨ mmapPages ctx page) := by
  obtain ⟨inode, ⟨-, beginEq⟩, regions⟩ := (sound.spaces process ctx current).regions
  have noImage : ¬ imagePages (segmentsOf ⟨0, inode⟩) page := by
    intro isImage
    have bounds := imagePages_below isImage
    omega
  rw [← Option.not_isSome_iff_eq_none, regions page isLow]
  simp only [noImage, false_or]

theorem Sound.mmap_keeps_iff (sound : Sound supply kernel world rank)
    (current : world.processes[process]? = some ctx) (supported : Supported tf)
    (ran : MemoryCalls.mmap supply tf ctx world.machine = .ok outcome) :
    (∀ other virt phys, world.translate other virt = some phys →
      (⟨outcome.machine, world.processes.set process outcome.ctx⟩ : World).translate other virt =
        some phys) ↔
      ¬ Meet ctx.mmapNext (ctx.mmapNext + roundUp tf.a1) ctx.heapBegin ctx.heapEnd := by
  obtain ⟨-, -, allocated, -, ctxEq⟩ := (mmap_eq_ok supported).mp ran
  have cursors := (sound.spaces process ctx current).cursors
  have beginAligned := cursors.beginAligned
  have nextAligned := cursors.nextAligned
  have nextOrdered := cursors.nextOrdered
  have nextCounted := cursors.nextCounted
  have start : processMmapStart < highPage * 4096 := by decide
  have startPages : processMmapStart = 2 ^ 20 * 4096 := by decide
  have area : areaPages ≤ 2 ^ 20 := by decide
  have whole : roundUp tf.a1 % 4096 = 0 := Nat.mul_mod_left _ _
  obtain ⟨low, -, grown, frame, mapped, -⟩ :=
    sound.allocate current nextAligned (by omega) allocated
  rw [sound.keeps_iff current mapped (fun page isNew => isNew.2.trans_le low) (by rw [ctxEq])]
  have vacant : ∀ page, pagesFrom (ctx.mmapNext / 4096) (roundUp tf.a1 / 4096) page →
      (view world.machine.memory ctx.pageMap.rootTable page = none ↔ ¬ heapPages ctx page) := by
    intro page isNew
    obtain ⟨lower, upper⟩ := isNew
    rw [sound.unmapped_iff current (by omega) (Or.inl (by omega))]
    unfold stackPages pagesFrom mmapPages
    rw [not_iff_not]
    constructor
    · rintro (isStack | isHeap | isMmap)
      · omega
      · exact isHeap
      · omega
    · exact fun isHeap => Or.inr (Or.inl isHeap)
  constructor
  · intro unmapped meet
    unfold Meet at meet
    have isNew : pagesFrom (ctx.mmapNext / 4096) (roundUp tf.a1 / 4096)
        (max ctx.mmapNext ctx.heapBegin / 4096) := by
      unfold pagesFrom
      omega
    refine (vacant _ isNew).mp (unmapped _ isNew) ?_
    unfold heapPages
    omega
  · intro apart page isNew
    refine (vacant page isNew).mpr fun isHeap => apart ?_
    unfold pagesFrom at isNew
    unfold heapPages at isHeap
    unfold Meet
    omega

section

variable (sound : Sound supply kernel world rank) (current : world.processes[process]? = some ctx)

include sound current

/-- The pages that `brk` adds are free exactly if they keep out of the stack and of
the mappings. -/
theorem Sound.brk_vacant_iff {target : Nat} (ordered : ctx.heapEnd ≤ target)
    (aligned : target % 4096 = 0) (low : target / 4096 ≤ pageLimit - 512) :
    (∀ page, pagesFrom (ctx.heapEnd / 4096) ((target - ctx.heapEnd) / 4096) page →
      view world.machine.memory ctx.pageMap.rootTable page = none) ↔
      ¬ Meet ctx.heapEnd target (processStackStart - processStackStartingSize) processStackStart ∧
        ¬ Meet ctx.heapEnd target processMmapStart ctx.mmapNext := by
  have cursors := (sound.spaces process ctx current).cursors
  have endAligned := cursors.endAligned
  have heapOrdered := cursors.heapOrdered
  have stackStart : processStackStart = 0xffe00 * 4096 := by decide
  have stackLow : processStackStart - processStackStartingSize = 0xffdfc * 4096 := by decide
  have startPages : processMmapStart = 2 ^ 20 * 4096 := by decide
  have vacant : ∀ page, pagesFrom (ctx.heapEnd / 4096) ((target - ctx.heapEnd) / 4096) page →
      (view world.machine.memory ctx.pageMap.rootTable page = none ↔
        ¬ (stackPages page ∨ mmapPages ctx page)) := by
    intro page isNew
    obtain ⟨lower, upper⟩ := isNew
    rw [sound.unmapped_iff current (by omega) (Or.inr (by omega)), not_iff_not]
    constructor
    · rintro (isStack | isHeap | isMmap)
      · exact Or.inl isStack
      · unfold heapPages at isHeap
        omega
      · exact Or.inr isMmap
    · rintro (isStack | isMmap)
      · exact Or.inl isStack
      · exact Or.inr (Or.inr isMmap)
  constructor
  · intro unmapped
    refine ⟨fun meet => ?_, fun meet => ?_⟩
    · unfold Meet at meet
      have isNew : pagesFrom (ctx.heapEnd / 4096) ((target - ctx.heapEnd) / 4096)
          (max ctx.heapEnd (0xffdfc * 4096) / 4096) := by
        unfold pagesFrom
        omega
      refine (vacant _ isNew).mp (unmapped _ isNew) (Or.inl ?_)
      unfold stackPages pagesFrom
      omega
    · unfold Meet at meet
      have isNew : pagesFrom (ctx.heapEnd / 4096) ((target - ctx.heapEnd) / 4096)
          (max ctx.heapEnd (2 ^ 20 * 4096) / 4096) := by
        unfold pagesFrom
        omega
      refine (vacant _ isNew).mp (unmapped _ isNew) (Or.inr ?_)
      unfold mmapPages
      omega
  · rintro ⟨noStack, noMmap⟩ page isNew
    refine (vacant page isNew).mpr ?_
    unfold pagesFrom at isNew
    unfold Meet at noStack noMmap
    rintro (isStack | isMmap)
    · unfold stackPages pagesFrom at isStack
      omega
    · unfold mmapPages at isMmap
      omega

theorem Sound.brk_keeps_iff (nonzero : tf.a0 ≠ 0)
    (ran : MemoryCalls.brk supply tf ctx world.machine = .ok outcome) :
    (∀ other virt phys, world.translate other virt = some phys →
      (⟨outcome.machine, world.processes.set process outcome.ctx⟩ : World).translate other virt =
        some phys) ↔
      ¬ Meet ctx.heapEnd (roundUp tf.a0) (processStackStart - processStackStartingSize)
          processStackStart ∧
        ¬ Meet ctx.heapEnd (roundUp tf.a0) processMmapStart ctx.mmapNext := by
  obtain ⟨-, ordered, -, -, ctxEq⟩ := (brk_eq_ok nonzero).mp ran
  have whole : roundUp tf.a0 % 4096 = 0 := Nat.mul_mod_left _ _
  obtain ⟨low, grown, frame, mapped, -, -⟩ := sound.brk_maps current nonzero ran
  rw [sound.keeps_iff current mapped (fun page isNew => by have bound := isNew.2; omega)
    (by rw [ctxEq])]
  exact sound.brk_vacant_iff current ordered whole low

theorem Sound.mmap_zeroFilled (supported : Supported tf)
    (ran : MemoryCalls.mmap supply tf ctx world.machine = .ok outcome) :
    ZeroFilled ⟨outcome.machine, world.processes.set process outcome.ctx⟩
      ⟨process, ctx.mmapNext, roundUp tf.a1⟩ := by
  obtain ⟨-, -, allocated, -, ctxEq⟩ := (mmap_eq_ok supported).mp ran
  have cursors := (sound.spaces process ctx current).cursors
  have nextAligned := cursors.nextAligned
  have nextCounted := cursors.nextCounted
  have start : processMmapStart < highPage * 4096 := by decide
  obtain ⟨low, -, grown, frame, mapped, contents⟩ :=
    sound.allocate current nextAligned (by omega) allocated
  intro virt lower upper
  dsimp only at lower upper
  have whole : roundUp tf.a1 % 4096 = 0 := Nat.mul_mod_left _ _
  have isNew : pagesFrom (ctx.mmapNext / 4096) (roundUp tf.a1 / 4096) (virt / 4096) := by
    unfold pagesFrom
    omega
  have inRange : virt / 4096 < pageLimit := by
    omega
  have pageEq : pageOf virt = virt / 4096 := Nat.mod_eq_of_lt inRange
  obtain ⟨number, -, numberUpper, frameEq, -⟩ := mapped.fresh _ isNew
  have owned := mapped.spaces.owned
  refine ⟨frame (virt / 4096) + virt % 4096, ?_, ?_⟩
  · rw [sound.translate_own current mapped (by rw [ctxEq]), pageEq,
      (sound.view_own current mapped inRange).1 isNew, Option.map_some, physical_small,
      supply.addr_set (by omega) frameEq]
  · exact contents.contents _ isNew _ (Nat.mod_lt _ (by decide))

end

end Keeps

section Steps

variable {supply : FrameSupply} {kernel : Kernel} {world after : World} {rank : Nat → Option Nat}
  {request : Request} {requests : List Request} {ctx : Context}

theorem returned_mmap {process : Nat} (current : world.processes[process]? = some ctx)
    (aligned : ctx.mmapNext % 4096 = 0)
    (ran : MemoryCalls.mmap supply tf ctx world.machine = .ok outcome) :
    world.returned supply (.mmap process tf) =
      if Supported tf then some ⟨process, ctx.mmapNext, roundUp tf.a1⟩ else none := by
  unfold World.returned
  dsimp only
  rw [current]
  dsimp only
  rw [ran]
  dsimp only
  by_cases supported : Supported tf
  · obtain ⟨-, -, -, tfEq, -⟩ := (mmap_eq_ok supported).mp ran
    have success : ctx.mmapNext ≠ mmapError := by
      intro same
      rw [same] at aligned
      exact absurd aligned (by decide)
    rw [tfEq, if_pos supported, if_neg success]
  · rw [mmap_unsupported supported] at ran
    cases ran
    rw [if_neg supported]
    exact if_pos rfl

section

variable (sound : Sound supply kernel world rank)

include sound

theorem Sound.grows_iff (ran : world.perform supply kernel request = .ok after) :
    Grows supply world request after ↔ Careful world request := by
  cases request with
  | spawn inode => exact ⟨fun _ => trivial, fun _ => ⟨trivial, nofun⟩⟩
  | mmap process tf =>
    obtain ⟨ctx, outcome, current, bodyRan, rfl⟩ := call_eq_ok.mp ran
    have aligned := (sound.spaces process ctx current).cursors.nextAligned
    unfold Grows
    rw [returned_mmap current aligned bodyRan]
    by_cases supported : Supported tf
    · have keeps := sound.mmap_keeps_iff current supported bodyRan
      rw [if_pos supported]
      constructor
      · rintro ⟨kept, -⟩ other otherCurrent _
        rw [current] at otherCurrent
        cases otherCurrent
        exact keeps.mp kept
      · intro careful
        refine ⟨keeps.mpr (careful ctx current supported), ?_⟩
        rintro range ⟨⟩
        exact sound.mmap_zeroFilled current supported bodyRan
    · rw [mmap_unsupported supported] at bodyRan
      cases bodyRan
      rw [if_neg supported]
      rw [set_current current]
      exact ⟨fun _ other _ isSupported => absurd isSupported supported,
        fun _ => ⟨fun _ _ _ kept => kept, nofun⟩⟩
  | brk process tf =>
    obtain ⟨ctx, outcome, current, bodyRan, rfl⟩ := call_eq_ok.mp ran
    by_cases isZero : tf.a0 = 0
    · rw [brk_zero isZero] at bodyRan
      cases bodyRan
      rw [set_current current]
      exact ⟨fun _ other _ nonzero => absurd isZero nonzero,
        fun _ => ⟨fun _ _ _ kept => kept, nofun⟩⟩
    · have keeps := sound.brk_keeps_iff current isZero bodyRan
      constructor
      · rintro ⟨kept, -⟩ other otherCurrent _
        rw [current] at otherCurrent
        cases otherCurrent
        exact keeps.mp kept
      · intro careful
        exact ⟨keeps.mpr (careful ctx current isZero), nofun⟩

theorem Sound.everyStep_iff :
    world.EveryStep supply kernel (Grows supply) requests ↔
      world.EveryStep supply kernel (fun before request _ => Careful before request) requests := by
  induction requests generalizing world rank with
  | nil => exact Iff.rfl
  | cons request rest ih =>
    refine forall_congr' fun after => forall_congr' fun performed => ?_
    obtain ⟨grown, afterSound⟩ := sound.perform performed
    exact and_congr (sound.grows_iff performed) (ih afterSound)

theorem Sound.perform_next (ran : world.perform supply kernel request = .ok after) {process : Nat}
    (current : world.processes[process]? = some ctx) :
    ∃ changed, after.processes[process]? = some changed ∧ ctx.mmapNext ≤ changed.mmapNext ∧
      ∀ range, world.returned supply request = some range → range.process = process →
        range.start = ctx.mmapNext ∧ changed.mmapNext = range.start + range.size := by
  obtain ⟨inRange, -⟩ := List.getElem?_eq_some_iff.mp current
  cases request with
  | spawn inode =>
    obtain ⟨⟨context, machine⟩, -, ran⟩ := bind_eq_ok.mp ran
    cases ran
    refine ⟨ctx, ?_, le_rfl, nofun⟩
    rw [getElem?_append_left inRange, current]
  | mmap caller tf =>
    obtain ⟨callerCtx, outcome, callerCurrent, bodyRan, rfl⟩ := call_eq_ok.mp ran
    have aligned := (sound.spaces caller callerCtx callerCurrent).cursors.nextAligned
    rw [returned_mmap callerCurrent aligned bodyRan]
    by_cases isCaller : caller = process
    · subst isCaller
      rw [current] at callerCurrent
      cases callerCurrent
      refine ⟨outcome.ctx, getElem?_set_self inRange, ?_⟩
      by_cases supported : Supported tf
      · obtain ⟨-, -, -, -, ctxEq⟩ := (mmap_eq_ok supported).mp bodyRan
        rw [ctxEq, if_pos supported]
        refine ⟨Nat.le_add_right _ _, ?_⟩
        rintro range ⟨⟩ -
        exact ⟨rfl, rfl⟩
      · rw [mmap_unsupported supported] at bodyRan
        cases bodyRan
        rw [if_neg supported]
        exact ⟨le_rfl, nofun⟩
    · refine ⟨ctx, ?_, le_rfl, ?_⟩
      · rw [getElem?_set_ne isCaller, current]
      · intro range returned isProcess
        split at returned
        · cases returned
          exact absurd isProcess isCaller
        · cases returned
  | brk caller tf =>
    obtain ⟨callerCtx, outcome, callerCurrent, bodyRan, rfl⟩ := call_eq_ok.mp ran
    by_cases isCaller : caller = process
    · subst isCaller
      rw [current] at callerCurrent
      cases callerCurrent
      refine ⟨outcome.ctx, getElem?_set_self inRange, ?_, nofun⟩
      by_cases isZero : tf.a0 = 0
      · rw [brk_zero isZero] at bodyRan
        cases bodyRan
        exact le_rfl
      · obtain ⟨-, -, -, -, ctxEq⟩ := (brk_eq_ok isZero).mp bodyRan
        rw [ctxEq]
    · refine ⟨ctx, ?_, le_rfl, nofun⟩
      rw [getElem?_set_ne isCaller, current]

end

theorem returned_current {range : MmapRange}
    (returned : world.returned supply request = some range) :
    ∃ ctx, world.processes[range.process]? = some ctx := by
  cases request with
  | spawn inode => cases returned
  | brk process tf => cases returned
  | mmap process tf =>
    unfold World.returned at returned
    dsimp only at returned
    cases current : world.processes[process]? with
    | none =>
      rw [current] at returned
      cases returned
    | some ctx =>
      rw [current] at returned
      dsimp only at returned
      split at returned
      · cases returned
      · split at returned
        · cases returned
        · cases returned
          exact ⟨ctx, current⟩

theorem World.ranges_cons (performed : world.perform supply kernel request = .ok after) :
    world.ranges supply kernel (request :: requests) =
      (world.returned supply request).toList ++ after.ranges supply kernel requests := by
  rw [World.ranges, performed]

theorem Sound.ranges_above (sound : Sound supply kernel world rank) {range : MmapRange}
    (isReturned : range ∈ world.ranges supply kernel requests)
    (current : world.processes[range.process]? = some ctx) : ctx.mmapNext ≤ range.start := by
  induction requests generalizing world rank ctx with
  | nil => cases isReturned
  | cons request rest ih =>
    cases performed : world.perform supply kernel request with
    | error fault =>
      rw [World.ranges, performed] at isReturned
      cases isReturned
    | ok after =>
      rw [ranges_cons performed, mem_append, Option.mem_toList] at isReturned
      obtain ⟨changed, afterCurrent, ordered, next⟩ := sound.perform_next performed current
      rcases isReturned with now | later
      · exact (next range now rfl).1.ge
      · obtain ⟨grown, afterSound⟩ := sound.perform performed
        exact ordered.trans (ih afterSound later afterCurrent)

theorem Sound.ranges_apart (sound : Sound supply kernel world rank) :
    (world.ranges supply kernel requests).Pairwise MmapRange.Apart := by
  induction requests generalizing world rank with
  | nil => exact List.Pairwise.nil
  | cons request rest ih =>
    cases performed : world.perform supply kernel request with
    | error fault =>
      rw [World.ranges, performed]
      exact List.Pairwise.nil
    | ok after =>
      obtain ⟨grown, afterSound⟩ := sound.perform performed
      rw [ranges_cons performed, pairwise_append]
      refine ⟨?_, ih afterSound, ?_⟩
      · cases world.returned supply request with
        | none => exact List.Pairwise.nil
        | some range => exact pairwise_singleton _ _
      · intro range now other later sameProcess
        rw [Option.mem_toList] at now
        obtain ⟨ctx, current⟩ := returned_current now
        obtain ⟨changed, afterCurrent, -, next⟩ := sound.perform_next performed current
        rw [sameProcess] at afterCurrent
        rw [← (next range now rfl).2]
        exact Or.inl (afterSound.ranges_above later afterCurrent)

end Steps

/-- A run after boot replaces no mapping by `mmap` and `brk`, and gets zeroed
ranges that do not overlap, exactly if all its steps are careful. -/
theorem growing_safe_iff {supply : FrameSupply} {kernel : Kernel} {machine : Machine}
    (booted : Booted supply kernel machine) (requests : List Request) :
    (World.EveryStep supply kernel (Grows supply) ⟨machine, []⟩ requests ∧
      (World.ranges supply kernel ⟨machine, []⟩ requests).Pairwise MmapRange.Apart) ↔
      World.EveryStep supply kernel (fun world request _ => Careful world request) ⟨machine, []⟩
        requests := by
  obtain ⟨rank, sound⟩ := booted.sound
  rw [sound.everyStep_iff]
  exact and_iff_left sound.ranges_apart

/-- The program maps two pages and then asks for one page of heap. -/
def smallGrowth : List Request :=
  [.spawn smallProgram, .mmap 0 ⟨0, 0, 0, 0x2000, 0x3, 0x22⟩, .brk 0 ⟨0, 0, 0x12000, 0, 0, 0⟩]

theorem smallGrowth_safe : ∃ kernel machine world, Booted boardSupply kernel machine ∧
    World.run boardSupply kernel ⟨machine, []⟩ smallGrowth = .ok world ∧
    World.EveryStep boardSupply kernel (Grows boardSupply) ⟨machine, []⟩ smallGrowth ∧
    (World.ranges boardSupply kernel ⟨machine, []⟩ smallGrowth).Pairwise MmapRange.Apart := by
  obtain ⟨kernel, machine, booted, few⟩ := board_boots fun _ => 0
  have owned : boardSupply.owned = 0x7000 := rfl
  have pages := smallProgram_pages
  obtain ⟨rank, sound⟩ := booted.sound
  obtain ⟨spawned, spawnRan, spawnFew⟩ := sound.idle.spawn_total smallProgram_loads
    (by dsimp only; omega)
  dsimp only at spawnFew
  have heapEq : heapOf (segmentsOf ⟨0, smallProgram⟩) 0 = 0x11000 := by
    decide
  obtain ⟨ctx, ctxEq⟩ : ∃ ctx, ctx = builtContext ⟨0, smallProgram⟩
    (freshContext boardSupply machine) := ⟨_, rfl⟩
  have spawnStep := perform_spawn spawnRan
  rw [← ctxEq] at spawnStep
  have beginEq : ctx.heapBegin = 0x11000 := by rw [ctxEq, ← heapEq]; rfl
  have endEq : ctx.heapEnd = 0x11000 := by rw [ctxEq, ← heapEq]; rfl
  have nextEq : ctx.mmapNext = 0x100000000 := by rw [ctxEq]; rfl
  obtain ⟨mapped, mapRan, mapFew⟩ :=
    @mmap_total boardSupply ctx ⟨0, 0, 0, 0x2000, 0x3, 0x22⟩ spawned
    (by decide) (by decide) (by rw [nextEq]; decide) (by rw [nextEq])
    (by change spawned.allocated + 6 ≤ _; omega)
  change mapped.allocated ≤ spawned.allocated + 6 at mapFew
  obtain ⟨mapCtx, mapCtxEq⟩ : ∃ mapCtx : Context, mapCtx =
    { ctx with mmapNext := ctx.mmapNext + roundUp 0x2000 } := ⟨_, rfl⟩
  have mapStep : perform boardSupply kernel ⟨spawned, [ctx]⟩
      (.mmap 0 ⟨0, 0, 0, 0x2000, 0x3, 0x22⟩) = .ok ⟨mapped, [mapCtx]⟩ := by
    rw [mapCtxEq]
    exact @perform_mmap boardSupply kernel ⟨spawned, [ctx]⟩ 0 _ ctx _ rfl mapRan
  have mapEndEq : mapCtx.heapEnd = 0x11000 := by rw [mapCtxEq, ← endEq]
  have mapNextEq : mapCtx.mmapNext = 0x100002000 := by
    rw [mapCtxEq]
    dsimp only
    rw [nextEq]
    decide
  have rounded : roundUp 0x12000 = 0x12000 := by decide
  obtain ⟨grown, growRan, -⟩ := @brk_total boardSupply mapCtx ⟨0, 0, 0x12000, 0, 0, 0⟩ mapped
    (by decide) (by decide) (by rw [mapEndEq]; decide) (by rw [mapEndEq])
    (by dsimp only; rw [mapEndEq, rounded]; omega)
  have growStep : perform boardSupply kernel ⟨mapped, [mapCtx]⟩
      (.brk 0 ⟨0, 0, 0x12000, 0, 0, 0⟩) =
        .ok ⟨grown, [{ mapCtx with heapEnd := roundUp 0x12000 }]⟩ :=
    @perform_brk boardSupply kernel ⟨mapped, [mapCtx]⟩ 0 _ mapCtx _ rfl growRan
  have careful : World.EveryStep boardSupply kernel (fun world request _ => Careful world request)
      ⟨machine, []⟩ smallGrowth := by
    intro world performed
    rw [spawnStep] at performed
    cases performed
    refine ⟨trivial, fun world performed => ?_⟩
    rw [nil_append, mapStep] at performed
    cases performed
    refine ⟨?_, fun world performed => ⟨?_, trivial⟩⟩
    · rintro _ ⟨⟩ -
      rw [beginEq, endEq, nextEq]
      decide
    · rintro _ ⟨⟩ -
      rw [mapEndEq, mapNextEq]
      decide
  have run : World.run boardSupply kernel ⟨machine, []⟩ smallGrowth = .ok
      ⟨grown, [{ mapCtx with heapEnd := roundUp 0x12000 }]⟩ := by
    unfold smallGrowth
    rw [World.run, spawnStep, ok_bind, nil_append, World.run, mapStep, ok_bind, World.run,
      growStep, ok_bind, World.run]
  exact ⟨kernel, machine, _, booted, run, (growing_safe_iff booted smallGrowth).mpr careful⟩

def tallProgram : Inode ByteMemory :=
  elfFile 4096 [⟨1, 0, 0x10000, 0x1000, 0x1000⟩, ⟨1, 0, 0xffdfb000, 0x1000, 0x1000⟩]

theorem tallProgram_segments : segmentsOf ⟨0, tallProgram⟩ =
    [⟨1, 0, 0x10000, 0x1000, 0x1000⟩, ⟨1, 0, 0xffdfb000, 0x1000, 0x1000⟩] := by
  decide +kernel

theorem tallProgram_loads : Loads ⟨0, tallProgram⟩ := by
  refine ⟨by decide, by decide +kernel, ?_, ⟨0x10, ?_⟩, ?_⟩ <;> rw [tallProgram_segments]
  · decide +kernel
  · decide +kernel
  · decide +kernel

/-- The first page of heap replaces the last page of the stack. -/
theorem tallProgram_loses_stack : ∃ kernel world after phys, Reached boardSupply kernel world ∧
    world.perform boardSupply kernel (.brk 0 ⟨0, 0, 0xffdfd000, 0, 0, 0⟩) = .ok after ∧
    world.translate 0 0xffdfc000 = some phys ∧ after.translate 0 0xffdfc000 ≠ some phys := by
  have owned : boardSupply.owned = 0x7000 := rfl
  obtain ⟨kernel, spawned, ctx, reached, -, endEq, -, spawnFew⟩ := board_spawns tallProgram_loads
    (by rw [tallProgram_segments]; decide)
  replace endEq : ctx.heapEnd = 0xffdfc000 := by
    rw [endEq, tallProgram_segments]
    decide
  have rounded : roundUp 0xffdfd000 = 0xffdfd000 := by decide
  obtain ⟨after, growRan, -⟩ := @brk_total boardSupply ctx ⟨0, 0, 0xffdfd000, 0, 0, 0⟩ spawned
    (by decide) (by decide) (by rw [endEq]; decide) (by rw [endEq])
    (by dsimp only; rw [endEq, rounded]; omega)
  have current : ([ctx] : List Context)[0]? = some ctx := rfl
  obtain ⟨rank, sound⟩ := reached.sound
  obtain ⟨-, -, allocated, -, -⟩ := (brk_eq_ok (by decide)).mp growRan
  have cursors := (sound.spaces 0 ctx current).cursors
  have heapLow := cursors.heapLow
  have heapCounted := cursors.heapCounted
  obtain ⟨-, -, grown, frame, mapped, -⟩ := sound.allocate current cursors.endAligned (by omega)
    allocated
  rw [endEq, rounded] at mapped
  have low : 0xffdfc < pageLimit - 512 := by decide
  have isStack : stackPages 0xffdfc := by decide
  obtain ⟨_, -, regions⟩ := (sound.spaces 0 ctx current).regions
  obtain ⟨⟨raw, level⟩, found⟩ :=
    Option.isSome_iff_exists.mp ((regions 0xffdfc low).mpr (Or.inr (Or.inl isStack)))
  obtain ⟨phys, before, replaced⟩ := @Sound.replaced boardSupply kernel ⟨spawned, [ctx]⟩ after rank
    grown 0 ctx { ctx with heapEnd := roundUp 0xffdfd000 } _ frame sound current mapped rfl 0xffdfc
    raw level (by decide) low found
  exact ⟨kernel, ⟨spawned, [ctx]⟩, _, phys, reached,
    @perform_brk boardSupply kernel ⟨spawned, [ctx]⟩ 0 _ ctx _ current growRan, before, replaced⟩

end NanoOs.ProcessMemoryMap
