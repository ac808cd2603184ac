import NanoOs.KernelBootTotality
import NanoOs.MemoryCalls

/-!
# Processes on one machine

Processes are spawned one after the other, and each of them calls `mmap` and
`brk`.  In every state that this reaches, a frame that a process sees belongs to
no other process and holds no page table.
-/

namespace NanoOs.ProcessMemoryMap

open Files KernelMemoryMap MemoryCalls PageMapping RadixTables ReadElf

/-- The machine and its processes, in the order in which they were spawned. -/
structure World where
  machine : Machine
  processes : List Context

inductive Request
  | spawn (inode : Inode ByteMemory)
  | mmap (process : Nat) (tf : TrapFrame)
  | brk (process : Nat) (tf : TrapFrame)

section Model

variable (supply : FrameSupply) (kernel : Kernel)

/-- The part of `spawn_process` that builds the memory of the process. -/
def spawnProcess (inode : Inode ByteMemory) (machine : Machine) : Checked (Context × Machine) := do
  let (context, machine) ← Context.new supply ⟨0, 0, 0, 0, 0, 0⟩ machine
  initFromElf supply kernel ⟨0, inode⟩ context machine

def World.call (world : World) (process : Nat)
    (body : Context → Machine → Checked CallOutcome) : Checked World :=
  match world.processes[process]? with
  | none => .error (.assertion "page fault")
  | some ctx => do
      let outcome ← body ctx world.machine
      .ok ⟨outcome.machine, world.processes.set process outcome.ctx⟩

def World.perform (world : World) : Request → Checked World
  | .spawn inode => do
      let (context, machine) ← spawnProcess supply kernel inode world.machine
      .ok ⟨machine, world.processes ++ [context]⟩
  | .mmap process tf => world.call process (MemoryCalls.mmap supply tf)
  | .brk process tf => world.call process (MemoryCalls.brk supply tf)

def World.run (world : World) : List Request → Checked World
  | [] => .ok world
  | request :: rest => do
      let world ← world.perform supply kernel request
      world.run rest

end Model

/-- The pages that a process got from `brk`. -/
def heapPages (ctx : Context) (page : Nat) : Prop :=
  ctx.heapBegin ≤ page * 4096 ∧ page * 4096 < ctx.heapEnd

/-- The pages that a process got from `mmap`. -/
def mmapPages (ctx : Context) (page : Nat) : Prop :=
  processMmapStart ≤ page * 4096 ∧ page * 4096 < ctx.mmapNext

/-- The heap and the mappings of a process have as many pages as frames were
taken for them. -/
structure Cursors (machine : Machine) (ctx : Context) : Prop where
  beginAligned : ctx.heapBegin % 4096 = 0
  endAligned : ctx.heapEnd % 4096 = 0
  nextAligned : ctx.mmapNext % 4096 = 0
  heapLow : ctx.heapBegin < highPage * 4096
  heapOrdered : ctx.heapBegin ≤ ctx.heapEnd
  heapCounted : ctx.heapEnd ≤ ctx.heapBegin + machine.allocated * 4096
  nextOrdered : processMmapStart ≤ ctx.mmapNext
  nextCounted : ctx.mmapNext ≤ processMmapStart + machine.allocated * 4096

/-- The pages that a process has: those of the segments of its file, behind which the
heap begins, its stack, its heap and what it mapped. -/
def Regions (memory : ByteMemory) (ctx : Context) : Prop :=
  ∃ inode, (Loads ⟨0, inode⟩ ∧ ctx.heapBegin = heapOf (segmentsOf ⟨0, inode⟩) 0) ∧
    ∀ page < pageLimit - 512, (view memory ctx.pageMap.rootTable page).isSome = true ↔
      imagePages (segmentsOf ⟨0, inode⟩) page ∨ stackPages page ∨ heapPages ctx page ∨
        mmapPages ctx page

theorem imagePages_below {segments : List Elf64ProgramHeader} {page : Nat}
    (isImage : imagePages segments page) :
    page < areaPages ∧ page * 4096 < heapOf segments 0 := by
  obtain ⟨small, ph, isSegment, -, inSegment⟩ := isImage
  refine ⟨small, lt_of_lt_of_le ?_ (segment_le_heapOf 0 isSegment)⟩
  exact Nat.mul_lt_mul_of_pos_right inSegment (by decide)

structure ProcessSpace (kernel : Kernel) (machine : Machine) (rank : Nat → Option Nat)
    (ctx : Context) : Prop where
  isRoot : rank ctx.pageMap.rootTable = some 2
  apart : ctx.pageMap.rootTable ≠ kernel.pageMapper.rootTable
  linked : LinksLast machine.memory ctx.pageMap.rootTable kernel.lastL1Pte
  cursors : Cursors machine ctx
  regions : Regions machine.memory ctx

/-- A leaf of a process: a small page that the process may write, in a frame
that was taken and holds no table. -/
structure UserLeaf (supply : FrameSupply) (machine : Machine) (rank : Nat → Option Nat)
    (raw level : Nat) : Prop where
  small : level = 0
  user : PageTableEntry.has raw PageFlags.user
  write : PageTableEntry.has raw PageFlags.write
  noTable : rank (PageTableEntry.addr raw) = none
  taken : ∃ number < machine.allocated, PageTableEntry.addr raw = supply.frames number

/-- The leaf of a page of a process, below the pages that all processes share. -/
def World.leaf (world : World) (process page : Nat) : Option (Nat × Nat) :=
  match world.processes[process]? with
  | none => none
  | some ctx =>
      if page < pageLimit - 512 then view world.machine.memory ctx.pageMap.rootTable page else none

structure OwnFrames (supply : FrameSupply) (world : World) (rank : Nat → Option Nat) : Prop where
  leaves : ∀ process page raw level, world.leaf process page = some (raw, level) →
    UserLeaf supply world.machine rank raw level
  single : ∀ process page raw level, world.leaf process page = some (raw, level) →
    ∀ other otherPage otherRaw otherLevel,
      world.leaf other otherPage = some (otherRaw, otherLevel) →
        PageTableEntry.addr raw = PageTableEntry.addr otherRaw →
          process = other ∧ page = otherPage

structure Sound (supply : FrameSupply) (kernel : Kernel) (world : World)
    (rank : Nat → Option Nat) : Prop where
  idle : IdleKernel supply kernel world.machine rank
  spaces : ∀ (process : Nat) ctx, world.processes[process]? = some ctx →
    ProcessSpace kernel world.machine rank ctx
  roots : ∀ (process : Nat) ctx, world.processes[process]? = some ctx →
    ∀ (other : Nat) otherCtx, world.processes[other]? = some otherCtx →
      ctx.pageMap.rootTable = otherCtx.pageMap.rootTable → process = other
  frames : OwnFrames supply world rank

section Leaves

variable {world : World} {process page : Nat} {ctx : Context}

theorem World.leaf_low (current : world.processes[process]? = some ctx)
    (low : page < pageLimit - 512) :
    world.leaf process page = view world.machine.memory ctx.pageMap.rootTable page := by
  unfold World.leaf
  rw [current]
  dsimp only
  rw [if_pos low]

theorem World.leaf_eq_some {found : Nat × Nat} : world.leaf process page = some found ↔
    ∃ ctx, world.processes[process]? = some ctx ∧ page < pageLimit - 512 ∧
      view world.machine.memory ctx.pageMap.rootTable page = some found := by
  unfold World.leaf
  cases current : world.processes[process]? with
  | none => simp
  | some ctx => simp

end Leaves

/-- The leaves of the processes are as before, except for pages of one process
that are mapped to frames taken since. -/
structure Grown (supply : FrameSupply) (world after : World) (rank grown : Nat → Option Nat)
    (owner : Nat) (pages : Nat → Prop) (frame : Nat → Nat) : Prop where
  extends' : Extends supply world.machine after.machine rank grown
  owned : after.machine.allocated ≤ supply.owned
  fresh : ∀ page, pages page → ∃ number, world.machine.allocated ≤ number ∧
    number < after.machine.allocated ∧ frame page = supply.frames number ∧
      grown (frame page) = none
  distinct : ∀ page, pages page → ∀ other, pages other → frame page = frame other → page = other
  leaves : ∀ process page raw level, after.leaf process page = some (raw, level) →
    world.leaf process page = some (raw, level) ∨
      process = owner ∧ pages page ∧ level = 0 ∧ PageTableEntry.addr raw = frame page ∧
        PageTableEntry.has raw PageFlags.user ∧ PageTableEntry.has raw PageFlags.write

variable {machine : Machine} {other : Nat} {otherCtx : Context} {processes : List Context}
  {inode : Inode ByteMemory}

section Grown

variable {supply : FrameSupply} {world after : World} {rank grown : Nat → Option Nat}
  {owner : Nat} {pages : Nat → Prop} {frame : Nat → Nat}

theorem UserLeaf.extend {last : Machine} {raw level : Nat}
    (isLeaf : UserLeaf supply machine rank raw level)
    (extends' : Extends supply machine last rank grown) (owned : last.allocated ≤ supply.owned) :
    UserLeaf supply last grown raw level := by
  obtain ⟨number, bound, addrEq⟩ := isLeaf.taken
  have monotone := extends'.monotone
  have noTable := isLeaf.noTable
  refine ⟨isLeaf.small, isLeaf.user, isLeaf.write, ?_, number, by omega, addrEq⟩
  rw [addrEq] at noTable ⊢
  exact extends'.frame_kept owned bound noTable

theorem OwnFrames.grow (own : OwnFrames supply world rank)
    (step : Grown supply world after rank grown owner pages frame) :
    OwnFrames supply after grown := by
  have owned := step.owned
  -- Frames taken before the step are no frames of new pages.
  have apart : ∀ process page raw level, world.leaf process page = some (raw, level) →
      ∀ other, pages other → PageTableEntry.addr raw ≠ frame other := by
    intro process page raw level found other isNew same
    obtain ⟨number, bound, addrEq⟩ := (own.leaves process page raw level found).taken
    obtain ⟨another, lower, upper, frameEq, -⟩ := step.fresh other isNew
    rw [addrEq, frameEq] at same
    have equal := supply.distinct number (by omega) another (by omega) same
    omega
  refine ⟨?_, ?_⟩
  · intro process page raw level found
    rcases step.leaves process page raw level found with
      before | ⟨-, isNew, small, addrEq, user, write⟩
    · exact (own.leaves process page raw level before).extend step.extends' owned
    · obtain ⟨number, -, upper, frameEq, noTable⟩ := step.fresh page isNew
      exact ⟨small, user, write, by rwa [addrEq], number, upper, addrEq.trans frameEq⟩
  · intro process page raw level found other otherPage otherRaw otherLevel otherFound same
    rcases step.leaves process page raw level found with
        before | ⟨isOwner, isNew, -, addrEq, -, -⟩ <;>
      rcases step.leaves other otherPage otherRaw otherLevel otherFound with
        otherBefore | ⟨otherOwner, otherNew, -, otherEq, -, -⟩
    · exact own.single process page raw level before other otherPage otherRaw otherLevel otherBefore
        same
    · exact absurd (same.trans otherEq) (apart process page raw level before otherPage otherNew)
    · exact absurd (same.symm.trans addrEq)
        (apart other otherPage otherRaw otherLevel otherBefore page isNew)
    · rw [addrEq, otherEq] at same
      exact ⟨isOwner.trans otherOwner.symm, step.distinct page isNew otherPage otherNew same⟩

end Grown

section Map

variable {supply : FrameSupply} {kernel : Kernel} {machine after : Machine}
  {rank grown : Nat → Option Nat} {root : Nat} {flags : PageFlags} {pages : Nat → Prop}
  {frame : Nat → Nat}

theorem linksLast_mapped {last : Nat}
    (mapped : MappedPages supply (· = last) machine after rank grown root flags pages frame)
    (otherRoot : rank other = some 2) :
    LinksLast after.memory other last ↔ LinksLast machine.memory other last := by
  have inRange : pageLimit - 1 < pageLimit := by decide
  exact mapped.shares other otherRoot _ inRange last rfl

theorem IdleKernel.map (idle : IdleKernel supply kernel machine rank)
    (apart : root ≠ kernel.pageMapper.rootTable)
    (mapped : MappedPages supply (· = kernel.lastL1Pte) machine after rank grown root flags pages
      frame)
    (low : ∀ page, pages page → page < pageLimit - 512) :
    IdleKernel supply kernel after grown := by
  have kernelRoot := idle.space.isRoot
  have views : ∀ page < pageLimit, view after.memory kernel.pageMapper.rootTable page =
      view machine.memory kernel.pageMapper.rootTable page := by
    intro page inRange
    refine mapped.miss _ kernelRoot page inRange fun isMapped seen => ?_
    have corner := idle.space.spaces.sees_corner kernelRoot inRange apart.symm seen
    have isLow := low page isMapped
    omega
  refine ⟨⟨mapped.spaces, mapped.extends'.kept _ 2 kernelRoot, ?_⟩, ?_, ?_, ?_, ?_⟩
  · refine idle.space.high.extend mapped.extends' mapped.spaces.owned ?_
    intro page lower upper raw level found
    rw [views page upper] at found
    exact Or.inl found
  · exact (linksLast_mapped mapped kernelRoot).mpr idle.linked
  · rw [mapped.rootEntries _ kernelRoot _ (by decide) fun same => absurd same apart.symm]
    exact idle.vacant
  · intro page upper corner raw level found
    rw [views page upper] at found
    exact idle.quiet page upper corner raw level found
  · rw [views _ (by decide)]
    exact idle.trapFrame

end Map

section Calls

variable {supply : FrameSupply} {kernel : Kernel} {world : World} {after : Machine}
  {rank grown : Nat → Option Nat} {process : Nat} {ctx changed : Context} {pages : Nat → Prop}
  {frame : Nat → Nat}

theorem Cursors.later (cursors : Cursors machine ctx)
    (monotone : machine.allocated ≤ after.allocated) : Cursors after ctx := by
  have more := Nat.mul_le_mul_right 4096 monotone
  exact ⟨cursors.beginAligned, cursors.endAligned, cursors.nextAligned, cursors.heapLow,
    cursors.heapOrdered, cursors.heapCounted.trans (Nat.add_le_add_left more _),
    cursors.nextOrdered, cursors.nextCounted.trans (Nat.add_le_add_left more _)⟩

theorem getElem?_set_cases (found : (processes.set process changed)[other]? = some otherCtx) :
    other = process ∧ otherCtx = changed ∨ other ≠ process ∧ processes[other]? = some otherCtx := by
  rw [List.getElem?_set] at found
  split at found
  · split at found
    · exact Or.inl ⟨by omega, (Option.some.inj found).symm⟩
    · cases found
  · exact Or.inr ⟨by omega, found⟩

theorem set_current (current : processes[process]? = some ctx) :
    processes.set process ctx = processes := by
  obtain ⟨inRange, found⟩ := List.getElem?_eq_some_iff.mp current
  rw [← found, List.set_getElem_self]

section Mapped

variable (sound : Sound supply kernel world rank)
  (current : world.processes[process]? = some ctx)
  (mapped : MappedPages supply (· = kernel.lastL1Pte) world.machine after rank grown
    ctx.pageMap.rootTable userFlags pages frame)
  (low : ∀ page, pages page → page < pageLimit - 512) (same : changed.pageMap = ctx.pageMap)

include sound current mapped

theorem Sound.view_own {page : Nat} (inRange : page < pageLimit) :
    (pages page → view after.memory ctx.pageMap.rootTable page =
      some (PageTableEntry.set (frame page) userFlags, 0)) ∧
    (¬ pages page → view after.memory ctx.pageMap.rootTable page =
      view world.machine.memory ctx.pageMap.rootTable page) := by
  have isRoot := (sound.spaces process ctx current).isRoot
  exact ⟨fun isMapped => mapped.hit _ isRoot page isMapped (Or.inl rfl),
    fun unmapped => mapped.miss _ isRoot page inRange fun isMapped => absurd isMapped unmapped⟩

theorem Sound.view_other {page : Nat} (different : other ≠ process)
    (otherCurrent : world.processes[other]? = some otherCtx) (isLow : page < pageLimit - 512) :
    view after.memory otherCtx.pageMap.rootTable page =
      view world.machine.memory otherCtx.pageMap.rootTable page := by
  refine mapped.kept_low sound.idle.space.spaces (sound.spaces other otherCtx otherCurrent).isRoot
    ?_
    isLow
  exact fun sameRoot => different
    (sound.roots other otherCtx otherCurrent process ctx current sameRoot)

include same

theorem Sound.grows : Grown supply world ⟨after, world.processes.set process changed⟩ rank grown
    process pages frame := by
  have owned := mapped.spaces.owned
  refine ⟨mapped.extends', owned, mapped.fresh, mapped.distinct, ?_⟩
  intro other page raw level found
  obtain ⟨otherCtx, otherCurrent, isLow, found⟩ := World.leaf_eq_some.mp found
  rcases getElem?_set_cases otherCurrent with ⟨rfl, rfl⟩ | ⟨different, otherCurrent⟩
  · rw [same] at found
    obtain ⟨hit, miss⟩ := sound.view_own current mapped (show page < pageLimit by omega)
    by_cases isMapped : pages page
    · obtain ⟨number, -, upper, frameEq, -⟩ := mapped.fresh page isMapped
      rw [hit isMapped] at found
      cases found
      refine Or.inr ⟨rfl, isMapped, rfl, supply.addr_set (by omega) frameEq, ?_, ?_⟩
      · rw [PageTableEntry.has_set (by decide)]
        decide
      · rw [PageTableEntry.has_set (by decide)]
        decide
    · rw [miss isMapped] at found
      exact Or.inl (World.leaf_eq_some.mpr ⟨ctx, current, isLow, found⟩)
  · rw [sound.view_other current mapped different otherCurrent isLow] at found
    exact Or.inl (World.leaf_eq_some.mpr ⟨otherCtx, otherCurrent, isLow, found⟩)

include low in
theorem Sound.map (cursors : Cursors after changed) (begin : changed.heapBegin = ctx.heapBegin)
    (extended : ∀ page, heapPages changed page ∨ mmapPages changed page ↔
      (heapPages ctx page ∨ mmapPages ctx page) ∨ pages page) :
    Sound supply kernel ⟨after, world.processes.set process changed⟩ grown := by
  have own := sound.spaces process ctx current
  have monotone := mapped.extends'.monotone
  refine ⟨sound.idle.map own.apart mapped low, ?_, ?_,
    sound.frames.grow (sound.grows current mapped same)⟩
  · intro other otherCtx otherCurrent
    rcases getElem?_set_cases otherCurrent with ⟨rfl, rfl⟩ | ⟨different, otherCurrent⟩
    · refine ⟨?_, ?_, ?_, cursors, ?_⟩
      · rw [same]
        exact mapped.extends'.kept _ 2 own.isRoot
      · rw [same]
        exact own.apart
      · rw [same]
        exact (linksLast_mapped mapped own.isRoot).mpr own.linked
      · obtain ⟨inode, ⟨loads, beginEq⟩, regions⟩ := own.regions
        refine ⟨inode, ⟨loads, begin.trans beginEq⟩, fun page isLow => ?_⟩
        obtain ⟨hit, miss⟩ := sound.view_own current mapped (show page < pageLimit by omega)
        rw [same, extended page]
        by_cases isMapped : pages page
        · rw [hit isMapped]
          simp [isMapped]
        · rw [miss isMapped, regions page isLow]
          simp [isMapped]
    · have space := sound.spaces other otherCtx otherCurrent
      refine ⟨mapped.extends'.kept _ 2 space.isRoot, space.apart,
        (linksLast_mapped mapped space.isRoot).mpr space.linked,
        space.cursors.later monotone, ?_⟩
      obtain ⟨inode, ofFile, regions⟩ := space.regions
      refine ⟨inode, ofFile, fun page isLow => ?_⟩
      rw [sound.view_other current mapped different otherCurrent isLow, regions page isLow]
  · intro first firstCtx firstCurrent second secondCtx secondCurrent sameRoot
    rcases getElem?_set_cases firstCurrent with ⟨rfl, rfl⟩ | ⟨-, firstBefore⟩ <;>
      rcases getElem?_set_cases secondCurrent with ⟨rfl, rfl⟩ | ⟨-, secondBefore⟩
    · rfl
    · rw [same] at sameRoot
      exact sound.roots _ ctx current second secondCtx secondBefore sameRoot
    · rw [same] at sameRoot
      exact sound.roots first firstCtx firstBefore _ ctx current sameRoot
    · exact sound.roots first firstCtx firstBefore second secondCtx secondBefore sameRoot

end Mapped

section

variable (sound : Sound supply kernel world rank) (current : world.processes[process]? = some ctx)

include sound current

/-- Pages that a process takes after those it has are mapped to zeroed frames, and
lie below the pages that all processes share. -/
theorem Sound.allocate {virt size : Nat} (aligned : virt % 4096 = 0)
    (bound : virt < (highPage + world.machine.allocated) * 4096)
    (ran : ctx.pageMap.allocateAndMapPagesZeroed supply world.machine virt size userFlags =
      .ok after) :
    virt / 4096 + size / 4096 ≤ pageLimit - 512 ∧
      world.machine.allocated + size / 4096 ≤ after.allocated ∧
      ∃ grown frame, MappedPages supply (· = kernel.lastL1Pte) world.machine after rank grown
          ctx.pageMap.rootTable userFlags (pagesFrom (virt / 4096) (size / 4096)) frame ∧
        FreshContents supply world.machine after grown (pagesFrom (virt / 4096) (size / 4096)) true
          frame := by
  have spaces := sound.idle.space.spaces
  change ctx.pageMap.allocateLoop supply virt userFlags true (size / 4096) 0 world.machine =
    .ok after
    at ran
  obtain ⟨counted, owned⟩ := allocateLoop_allocated ran spaces.owned
  have most := supply.owned_le
  have low : virt / 4096 + size / 4096 ≤ pageLimit - 512 := by
    unfold highPage at bound
    unfold pageLimit
    omega
  have pageEq : pageOf virt + 0 = virt / 4096 := by
    unfold pageOf
    unfold pageLimit at low ⊢
    omega
  have clear : ∀ page, pagesFrom (virt / 4096) (size / 4096) page → ∀ raw level,
      view world.machine.memory ctx.pageMap.rootTable page = some (raw, level) → level = 0 := by
    intro page isNew raw level found
    have isLow : page < pageLimit - 512 := isNew.2.trans_le low
    exact (sound.frames.leaves process page raw level
      ((World.leaf_low current isLow).trans found)).small
  rw [← pageEq] at clear
  obtain ⟨grown, frame, mapped, contents, -⟩ := spaces.allocateLoop
    (sound.spaces process ctx current).isRoot rfl (by rw [pageEq]; omega) clear ran
  rw [pageEq] at mapped contents
  exact ⟨low, counted, grown, frame, mapped, contents⟩

variable {outcome : CallOutcome} {tf : TrapFrame}

theorem Sound.mmap (ran : MemoryCalls.mmap supply tf ctx world.machine = .ok outcome) :
    ∃ grown, Sound supply kernel ⟨outcome.machine, world.processes.set process outcome.ctx⟩
      grown := by
  by_cases supported : Supported tf
  · obtain ⟨-, -, allocated, -, ctxEq⟩ := (mmap_eq_ok supported).mp ran
    have cursors := (sound.spaces process ctx current).cursors
    have nextAligned := cursors.nextAligned
    have nextOrdered := cursors.nextOrdered
    have nextCounted := cursors.nextCounted
    have start : processMmapStart < highPage * 4096 := by decide
    have whole : roundUp tf.a1 % 4096 = 0 := Nat.mul_mod_left _ _
    obtain ⟨low, counted, grown, frame, mapped, -⟩ := sound.allocate current nextAligned
      (by omega) allocated
    have later := cursors.later mapped.extends'.monotone
    refine ⟨grown, sound.map current mapped (fun page isNew => isNew.2.trans_le low)
      (by rw [ctxEq]) ?_ (by rw [ctxEq]) ?_⟩
    · rw [ctxEq]
      refine ⟨later.beginAligned, later.endAligned, ?_, later.heapLow, later.heapOrdered,
        later.heapCounted, ?_, ?_⟩
      all_goals dsimp only
      · omega
      · omega
      · omega
    · intro page
      rw [ctxEq]
      unfold heapPages mmapPages pagesFrom
      dsimp only
      omega
  · rw [mmap_unsupported supported] at ran
    cases ran
    rw [set_current current]
    exact ⟨rank, sound⟩

theorem Sound.brk_maps (nonzero : tf.a0 ≠ 0)
    (ran : MemoryCalls.brk supply tf ctx world.machine = .ok outcome) :
    roundUp tf.a0 / 4096 ≤ pageLimit - 512 ∧ ∃ grown frame,
      MappedPages supply (· = kernel.lastL1Pte) world.machine outcome.machine rank grown
        ctx.pageMap.rootTable userFlags
        (pagesFrom (ctx.heapEnd / 4096) ((roundUp tf.a0 - ctx.heapEnd) / 4096)) frame ∧
      FreshContents supply world.machine outcome.machine grown
        (pagesFrom (ctx.heapEnd / 4096) ((roundUp tf.a0 - ctx.heapEnd) / 4096)) true frame ∧
      Sound supply kernel ⟨outcome.machine, world.processes.set process outcome.ctx⟩ grown := by
  obtain ⟨-, ordered, allocated, -, ctxEq⟩ := (brk_eq_ok nonzero).mp ran
  have cursors := (sound.spaces process ctx current).cursors
  have endAligned := cursors.endAligned
  have heapLow := cursors.heapLow
  have heapOrdered := cursors.heapOrdered
  have heapCounted := cursors.heapCounted
  have whole : roundUp tf.a0 % 4096 = 0 := Nat.mul_mod_left _ _
  obtain ⟨low, counted, grown, frame, mapped, contents⟩ := sound.allocate current endAligned
    (by omega) allocated
  have later := cursors.later mapped.extends'.monotone
  refine ⟨by omega, grown, frame, mapped, contents, sound.map current mapped
    (fun page isNew => isNew.2.trans_le low) (by rw [ctxEq]) ?_ (by rw [ctxEq]) ?_⟩
  · rw [ctxEq]
    refine ⟨later.beginAligned, ?_, later.nextAligned, later.heapLow, ?_, ?_, later.nextOrdered,
      later.nextCounted⟩
    all_goals dsimp only
    · omega
    · omega
    · omega
  · intro page
    rw [ctxEq]
    unfold heapPages mmapPages pagesFrom
    dsimp only
    omega

theorem Sound.brk (ran : MemoryCalls.brk supply tf ctx world.machine = .ok outcome) :
    ∃ grown, Sound supply kernel ⟨outcome.machine, world.processes.set process outcome.ctx⟩
      grown := by
  by_cases isZero : tf.a0 = 0
  · rw [brk_zero isZero] at ran
    cases ran
    rw [set_current current]
    exact ⟨rank, sound⟩
  · obtain ⟨-, grown, -, -, -, after⟩ := sound.brk_maps current isZero ran
    exact ⟨grown, after⟩

end

theorem mmap_total {tf : TrapFrame} {machine : Machine} (supported : Supported tf)
    (lengthFits : tf.a1 + 4096 < 2 ^ 64) (fits : ctx.mmapNext + roundUp tf.a1 < 2 ^ 64)
    (aligned : ctx.mmapNext % 4096 = 0)
    (enough : machine.allocated + 3 * (roundUp tf.a1 / 4096) ≤ supply.owned) :
    ∃ after, MemoryCalls.mmap supply tf ctx machine =
        .ok ⟨{ tf with a0 := ctx.mmapNext },
          { ctx with mmapNext := ctx.mmapNext + roundUp tf.a1 }, after⟩ ∧
      after.allocated ≤ machine.allocated + 3 * (roundUp tf.a1 / 4096) := by
  obtain ⟨after, ran, few⟩ := @allocateLoop_total supply ctx.pageMap userFlags true ctx.mmapNext
    (roundUp tf.a1 / 4096) 0 machine enough aligned (by omega)
  exact ⟨after, (mmap_eq_ok supported).mpr ⟨lengthFits, fits, ran, rfl, rfl⟩, few⟩

theorem brk_total {tf : TrapFrame} {machine : Machine} (nonzero : tf.a0 ≠ 0)
    (fits : tf.a0 + 4096 < 2 ^ 64) (ordered : ctx.heapEnd ≤ roundUp tf.a0)
    (aligned : ctx.heapEnd % 4096 = 0)
    (enough : machine.allocated + 3 * ((roundUp tf.a0 - ctx.heapEnd) / 4096) ≤ supply.owned) :
    ∃ after, MemoryCalls.brk supply tf ctx machine =
        .ok ⟨{ tf with a0 := roundUp tf.a0 }, { ctx with heapEnd := roundUp tf.a0 }, after⟩ ∧
      after.allocated ≤ machine.allocated + 3 * ((roundUp tf.a0 - ctx.heapEnd) / 4096) := by
  have bound : roundUp tf.a0 < 2 ^ 64 := by
    unfold roundUp
    omega
  obtain ⟨after, ran, few⟩ := @allocateLoop_total supply ctx.pageMap userFlags true ctx.heapEnd
    ((roundUp tf.a0 - ctx.heapEnd) / 4096) 0 machine enough aligned (by omega)
  exact ⟨after, (brk_eq_ok nonzero).mpr ⟨fits, ordered, ran, rfl, rfl⟩, few⟩

end Calls

structure Emptied (supply : FrameSupply) (kernel : Kernel) (machine after : Machine)
    (rank grown : Nat → Option Nat) (root : Nat) : Prop where
  idle : IdleKernel supply kernel after grown
  emptyRoot : EmptyRoot kernel after grown root
  extends' : Extends supply machine after rank grown
  unused : rank root = none
  views : ∀ other, rank other = some 2 → ∀ page < pageLimit,
    view after.memory other page = view machine.memory other page
  shares : ∀ other, rank other = some 2 → ∀ table,
    (LinksLast after.memory other table ↔ LinksLast machine.memory other table)

section Spawn

variable {supply : FrameSupply} {kernel : Kernel} {machine after : Machine}
  {rank : Nat → Option Nat} {trapFrame : TrapFrame} {context : Context}

theorem Context.new_eq_ok : Context.new supply trapFrame machine = .ok (context, after) ↔
    machine.allocated < supply.owned ∧
      context = ⟨⟨supply.frames machine.allocated⟩, 0, 0, processMmapStart, trapFrame⟩ ∧
      after = ⟨zeroPageTable machine.memory (supply.frames machine.allocated),
        machine.allocated + 1⟩ := by
  unfold Context.new PageMapper.create
  constructor
  · intro ran
    obtain ⟨⟨pageMap, created⟩, createRan, ran⟩ := bind_eq_ok.mp ran
    obtain ⟨left, created⟩ := ensure_bind_eq_ok.mp createRan
    cases created
    cases ran
    exact ⟨left, rfl, rfl⟩
  · rintro ⟨left, rfl, rfl⟩
    rw [ensure_bind left]
    rfl

theorem IdleKernel.emptied (idle : IdleKernel supply kernel machine rank)
    (ran : Context.new supply trapFrame machine = .ok (context, after)) :
    ∃ grown, Emptied supply kernel machine after rank grown context.pageMap.rootTable ∧
      ∀ second, Similar rank machine second → ∃ secondAfter,
        Context.new supply trapFrame second = .ok (context, secondAfter) ∧
          Similar grown after secondAfter := by
  obtain ⟨left, rfl, rfl⟩ := Context.new_eq_ok.mp ran
  have spaces := idle.space.spaces
  have unused := spaces.unused le_rfl left
  have kernelRoot := idle.space.isRoot
  obtain ⟨added, extends', entries, empty⟩ := spaces.add left 2
  have apart : supply.frames machine.allocated ≠ kernel.pageMapper.rootTable := by
    intro same
    rw [same, kernelRoot] at unused
    cases unused
  have walks : ∀ other, rank other = some 2 → ∀ path, Within pageEntries path →
      reach (slots (zeroPageTable machine.memory (supply.frames machine.allocated))) other path =
          reach (slots machine.memory) other path ∧
        lookup (slots (zeroPageTable machine.memory (supply.frames machine.allocated))) other path =
          lookup (slots machine.memory) other path := by
    intro other otherRoot path within
    exact spaces.forest.walk_congr (fun table height isRanked _ index inRange =>
      slots_congr (entries table (RadixTables.ranked isRanked) index inRange)) otherRoot
        le_rfl within
  have views : ∀ other, rank other = some 2 → ∀ page < pageLimit,
      view (zeroPageTable machine.memory (supply.frames machine.allocated)) other page =
        view machine.memory other page :=
    fun other otherRoot page inRange => (walks other otherRoot _ (pagePath_within inRange)).2
  have shares : ∀ other, rank other = some 2 → ∀ table,
      (LinksLast (zeroPageTable machine.memory (supply.frames machine.allocated)) other table ↔
        LinksLast machine.memory other table) := by
    intro other otherRoot table
    have inRange : pageLimit - 1 < pageLimit := by decide
    unfold LinksLast
    rw [(walks other otherRoot _ (upperPath_within inRange)).1]
  have emptyRoot : EmptyRoot kernel
      ⟨zeroPageTable machine.memory (supply.frames machine.allocated), machine.allocated + 1⟩
      (Function.update rank (supply.frames machine.allocated) (some 2))
      (supply.frames machine.allocated) :=
    ⟨Function.update_self _ _ _, apart, empty⟩
  refine ⟨_, ⟨⟨⟨added, extends'.kept _ 2 kernelRoot, ?_⟩, ?_, ?_, ?_, ?_⟩, emptyRoot, extends',
    unused, views, shares⟩, ?_⟩
  · refine idle.space.high.extend extends' added.owned ?_
    intro page lower upper raw level found
    rw [views _ kernelRoot page upper] at found
    exact Or.inl found
  · exact (shares _ kernelRoot _).mpr idle.linked
  · rw [entries _ (RadixTables.ranked kernelRoot) _ (by decide)]
    exact idle.vacant
  · intro page upper corner raw level found
    rw [views _ kernelRoot page upper] at found
    exact idle.quiet page upper corner raw level found
  · rw [views _ kernelRoot _ (by decide)]
    exact idle.trapFrame
  · intro second similar
    have secondAllocated := similar.allocated
    refine ⟨⟨zeroPageTable second.memory (supply.frames machine.allocated), second.allocated + 1⟩,
      Context.new_eq_ok.mpr ⟨by omega, by rw [secondAllocated], by rw [secondAllocated]⟩, ?_⟩
    exact similar.add supply.frames 2

theorem Loads.cursors {file : File ByteMemory} (loads : Loads file) (next : context.mmapNext =
    processMmapStart) (machine : Machine) : Cursors machine (builtContext file context) := by
  have heap : heapOf (segmentsOf file) 0 % 4096 = 0 ∧
      heapOf (segmentsOf file) 0 < highPage * 4096 := by
    rcases heapOf_cases (segmentsOf file) 0 with heapEq | ⟨ph, isSegment, heapEq⟩
    · rw [heapEq]
      decide
    · have inside := (loads.fits ph isSegment).1
      omega
  have nextEq : (builtContext file context).mmapNext = processMmapStart := next
  refine ⟨heap.1, heap.1, ?_, heap.2, le_rfl, Nat.le_add_right _ _, nextEq.ge, ?_⟩
  · rw [nextEq]
    decide
  · rw [nextEq]
    exact Nat.le_add_right _ _

theorem Built.leaf {grown : Nat → Option Nat} {root : Nat} {inode : Inode ByteMemory}
    {segments : List Elf64ProgramHeader} {frame : Nat → Nat}
    (built : Built supply kernel machine after rank grown root inode segments frame) {page : Nat}
    (isUser : UserPage segments page) : ∃ raw, view after.memory root page = some (raw, 0) ∧
      PageTableEntry.addr raw = frame page ∧ PageTableEntry.has raw PageFlags.user ∧
      PageTableEntry.has raw PageFlags.write := by
  obtain ⟨number, -, upper, frameEq, -⟩ := built.fresh page isUser
  have owned := built.idle.space.spaces.owned
  have bound : number < supply.owned := by omega
  rcases isUser with isImage | isStack
  · refine ⟨_, built.image page isImage, ?_, ?_, ?_⟩
    · rw [PageTableEntry.addr_setUserFlag]
      exact supply.addr_set bound frameEq
    · exact (PageTableEntry.has_setUserFlag _ _).mpr (Or.inr (by decide))
    · rw [PageTableEntry.has_setUserFlag, PageTableEntry.has_set (by decide)]
      decide
  · refine ⟨_, built.stack page isStack, supply.addr_set bound frameEq, ?_, ?_⟩
    · rw [PageTableEntry.has_set (by decide)]
      decide
    · rw [PageTableEntry.has_set (by decide)]
      decide

theorem getElem?_append_cases (found : (processes ++ [context])[other]? = some otherCtx) :
    other = processes.length ∧ otherCtx = context ∨
      other ≠ processes.length ∧ processes[other]? = some otherCtx := by
  by_cases early : other < processes.length
  · rw [List.getElem?_append_left early] at found
    exact Or.inr ⟨by omega, found⟩
  · rw [List.getElem?_append_right (by omega), List.getElem?_singleton] at found
    split at found
    · exact Or.inl ⟨by omega, (Option.some.inj found).symm⟩
    · cases found

theorem Sound.spawn {world : World} (sound : Sound supply kernel world rank)
    (ran : spawnProcess supply kernel inode world.machine = .ok (context, after)) :
    ∃ grown, Sound supply kernel ⟨after, world.processes ++ [context]⟩ grown := by
  obtain ⟨⟨empty, middle⟩, newRan, initRan⟩ := bind_eq_ok.mp ran
  obtain ⟨middleRank, emptied, -⟩ := sound.idle.emptied newRan
  obtain ⟨-, emptyEq, -⟩ := Context.new_eq_ok.mp newRan
  obtain ⟨loads, rfl, grown, frame, built, -⟩ := emptied.idle.build emptied.emptyRoot initRan
  have rootEq : (builtContext ⟨0, inode⟩ empty).pageMap = empty.pageMap := rfl
  have extends' := emptied.extends'.trans built.extends'
  have owned := built.idle.space.spaces.owned
  have middleRoot : ∀ other, rank other = some 2 → middleRank other = some 2 :=
    fun other otherRoot => emptied.extends'.kept other 2 otherRoot
  have notNew : ∀ other, rank other = some 2 → other ≠ empty.pageMap.rootTable := by
    rintro other otherRoot rfl
    rw [emptied.unused] at otherRoot
    cases otherRoot
  have views : ∀ (other : Nat) otherCtx, world.processes[other]? = some otherCtx →
      ∀ page < pageLimit - 512, view after.memory otherCtx.pageMap.rootTable page =
        view world.machine.memory otherCtx.pageMap.rootTable page := by
    intro other otherCtx otherCurrent page isLow
    have space := sound.spaces other otherCtx otherCurrent
    rw [built.others _ (middleRoot _ space.isRoot) space.apart (notNew _ space.isRoot) page isLow,
      emptied.views _ space.isRoot page (by omega)]
  have grows : Grown supply world ⟨after, world.processes ++ [builtContext ⟨0, inode⟩ empty]⟩ rank
      grown world.processes.length (UserPage (segmentsOf ⟨0, inode⟩)) frame := by
    have monotone := emptied.extends'.monotone
    refine ⟨extends', owned, ?_, built.distinct, ?_⟩
    · intro page isUser
      obtain ⟨number, lower, upper, frameEq, noTable⟩ := built.fresh page isUser
      exact ⟨number, by omega, upper, frameEq, noTable⟩
    · intro other page raw level found
      obtain ⟨otherCtx, otherCurrent, isLow, found⟩ := World.leaf_eq_some.mp found
      rcases getElem?_append_cases otherCurrent with ⟨isNew, rfl⟩ | ⟨-, otherCurrent⟩
      · by_cases isUser : UserPage (segmentsOf ⟨0, inode⟩) page
        · obtain ⟨raw', leaf, addrEq, user, write⟩ := built.leaf isUser
          rw [rootEq, leaf] at found
          cases found
          exact Or.inr ⟨isNew, isUser, rfl, addrEq, user, write⟩
        · rw [rootEq, built.unmapped page isLow isUser] at found
          cases found
      · rw [views other otherCtx otherCurrent page isLow] at found
        exact Or.inl (World.leaf_eq_some.mpr ⟨otherCtx, otherCurrent, isLow, found⟩)
  refine ⟨grown, built.idle, ?_, ?_, sound.frames.grow grows⟩
  · intro other otherCtx otherCurrent
    rcases getElem?_append_cases otherCurrent with ⟨-, rfl⟩ | ⟨-, otherCurrent⟩
    · refine ⟨built.extends'.kept _ 2 emptied.emptyRoot.isRoot, emptied.emptyRoot.apart,
        built.linked, loads.cursors (by rw [emptyEq]) after, inode, ⟨loads, rfl⟩, ?_⟩
      intro page isLow
      have noHeap : ¬ heapPages (builtContext ⟨0, inode⟩ empty) page :=
        fun isHeap => absurd isHeap.2 (Nat.not_lt.mpr isHeap.1)
      have noMmap : ¬ mmapPages (builtContext ⟨0, inode⟩ empty) page := by
        have nextEq : (builtContext ⟨0, inode⟩ empty).mmapNext = processMmapStart := by
          rw [emptyEq]
          rfl
        unfold mmapPages
        rw [nextEq]
        exact fun isMmap => absurd isMmap.2 (Nat.not_lt.mpr isMmap.1)
      by_cases isUser : UserPage (segmentsOf ⟨0, inode⟩) page
      · obtain ⟨raw, leaf, -⟩ := built.leaf isUser
        rw [rootEq, leaf]
        exact ⟨fun _ => isUser.imp_right Or.inl, fun _ => rfl⟩
      · rw [rootEq, built.unmapped page isLow isUser]
        unfold UserPage at isUser
        tauto
    · have space := sound.spaces other otherCtx otherCurrent
      refine ⟨extends'.kept _ 2 space.isRoot, space.apart, ?_,
        space.cursors.later extends'.monotone, ?_⟩
      · exact (built.shares _ (middleRoot _ space.isRoot) (notNew _ space.isRoot)).mpr
          ((emptied.shares _ space.isRoot _).mpr space.linked)
      · obtain ⟨program, ofFile, regions⟩ := space.regions
        refine ⟨program, ofFile, fun page isLow => ?_⟩
        rw [views other otherCtx otherCurrent page isLow, regions page isLow]
  · intro first firstCtx firstCurrent second secondCtx secondCurrent sameRoot
    rcases getElem?_append_cases firstCurrent with ⟨isNew, rfl⟩ | ⟨-, firstBefore⟩ <;>
      rcases getElem?_append_cases secondCurrent with ⟨otherNew, rfl⟩ | ⟨-, secondBefore⟩
    · rw [isNew, otherNew]
    · exact absurd sameRoot.symm (notNew _ (sound.spaces second secondCtx secondBefore).isRoot)
    · exact absurd sameRoot (notNew _ (sound.spaces first firstCtx firstBefore).isRoot)
    · exact sound.roots first firstCtx firstBefore second secondCtx secondBefore sameRoot

/-- The context that `Context::new` makes for a spawned process. -/
def freshContext (supply : FrameSupply) (machine : Machine) : Context :=
  ⟨⟨supply.frames machine.allocated⟩, 0, 0, processMmapStart, ⟨0, 0, 0, 0, 0, 0⟩⟩

theorem IdleKernel.spawn_total (idle : IdleKernel supply kernel machine rank)
    (loads : Loads ⟨0, inode⟩)
    (enough : machine.allocated + 3 * pageTotal (segmentsOf ⟨0, inode⟩) + 14 ≤ supply.owned) :
    ∃ after, spawnProcess supply kernel inode machine =
        .ok (builtContext ⟨0, inode⟩ (freshContext supply machine), after) ∧
      after.allocated ≤ machine.allocated + 3 * pageTotal (segmentsOf ⟨0, inode⟩) + 14 := by
  obtain ⟨context, contextEq⟩ : ∃ context, context = freshContext supply machine := ⟨_, rfl⟩
  obtain ⟨middle, middleEq⟩ : ∃ middle : Machine, middle =
    ⟨zeroPageTable machine.memory (supply.frames machine.allocated), machine.allocated + 1⟩ :=
      ⟨_, rfl⟩
  have newRan : Context.new supply ⟨0, 0, 0, 0, 0, 0⟩ machine = .ok (context, middle) :=
    Context.new_eq_ok.mpr ⟨by omega, contextEq, middleEq⟩
  have middleAllocated : middle.allocated = machine.allocated + 1 := by rw [middleEq]
  obtain ⟨_, emptied, -⟩ := idle.emptied newRan
  obtain ⟨after, initRan, bounded⟩ :=
    @IdleKernel.build_total supply kernel ⟨0, inode⟩ context middle
    _ emptied.idle loads (by omega)
  refine ⟨after, ?_, by omega⟩
  unfold spawnProcess
  rw [newRan, ok_bind, ← contextEq]
  exact initRan

end Spawn

section Runs

variable {supply : FrameSupply} {kernel : Kernel} {world after : World} {rank : Nat → Option Nat}
  {request : Request} {requests : List Request}

theorem World.call_eq_ok {process : Nat} {body : Context → Machine → Checked CallOutcome} :
    world.call process body = .ok after ↔ ∃ ctx outcome,
      world.processes[process]? = some ctx ∧ body ctx world.machine = .ok outcome ∧
        after = ⟨outcome.machine, world.processes.set process outcome.ctx⟩ := by
  unfold World.call
  constructor
  · intro ran
    cases current : world.processes[process]? with
    | none =>
      rw [current] at ran
      cases ran
    | some ctx =>
      rw [current] at ran
      obtain ⟨outcome, bodyRan, ran⟩ := bind_eq_ok.mp ran
      cases ran
      exact ⟨ctx, outcome, rfl, bodyRan, rfl⟩
  · rintro ⟨ctx, outcome, current, bodyRan, rfl⟩
    rw [current]
    dsimp only
    rw [bodyRan]
    rfl

theorem perform_spawn {context : Context}
    (ran : spawnProcess supply kernel inode world.machine = .ok (context, machine)) :
    world.perform supply kernel (.spawn inode) = .ok ⟨machine, world.processes ++ [context]⟩ := by
  unfold World.perform
  dsimp only
  rw [ran, ok_bind]

theorem perform_mmap {process : Nat} {tf : TrapFrame} {ctx : Context} {outcome : CallOutcome}
    (current : world.processes[process]? = some ctx)
    (ran : MemoryCalls.mmap supply tf ctx world.machine = .ok outcome) :
    world.perform supply kernel (.mmap process tf) =
      .ok ⟨outcome.machine, world.processes.set process outcome.ctx⟩ :=
  World.call_eq_ok.mpr ⟨ctx, outcome, current, ran, rfl⟩

theorem perform_brk {process : Nat} {tf : TrapFrame} {ctx : Context} {outcome : CallOutcome}
    (current : world.processes[process]? = some ctx)
    (ran : MemoryCalls.brk supply tf ctx world.machine = .ok outcome) :
    world.perform supply kernel (.brk process tf) =
      .ok ⟨outcome.machine, world.processes.set process outcome.ctx⟩ :=
  World.call_eq_ok.mpr ⟨ctx, outcome, current, ran, rfl⟩

theorem Sound.perform (sound : Sound supply kernel world rank)
    (ran : world.perform supply kernel request = .ok after) :
    ∃ grown, Sound supply kernel after grown := by
  cases request with
  | spawn inode =>
    obtain ⟨⟨context, machine⟩, spawnRan, ran⟩ := bind_eq_ok.mp ran
    cases ran
    exact sound.spawn spawnRan
  | mmap process tf =>
    obtain ⟨ctx, outcome, current, bodyRan, rfl⟩ := World.call_eq_ok.mp ran
    exact sound.mmap current bodyRan
  | brk process tf =>
    obtain ⟨ctx, outcome, current, bodyRan, rfl⟩ := World.call_eq_ok.mp ran
    exact sound.brk current bodyRan

theorem Sound.run (sound : Sound supply kernel world rank)
    (ran : world.run supply kernel requests = .ok after) :
    ∃ grown, Sound supply kernel after grown := by
  induction requests generalizing world rank with
  | nil =>
    cases ran
    exact ⟨rank, sound⟩
  | cons request rest ih =>
    obtain ⟨next, performed, ran⟩ := bind_eq_ok.mp ran
    obtain ⟨grown, nextSound⟩ := sound.perform performed
    exact ih nextSound ran

end Runs

def Booted (supply : FrameSupply) (kernel : Kernel) (machine : Machine) : Prop :=
  ∃ before memory symbols cpu, Layout supply memory symbols ∧
    KernelMemoryMap.init supply before memory symbols cpu = .ok (kernel, machine)

def Reached (supply : FrameSupply) (kernel : Kernel) (world : World) : Prop :=
  ∃ machine requests, Booted supply kernel machine ∧
    World.run supply kernel ⟨machine, []⟩ requests = .ok world

section Reached

variable {supply : FrameSupply} {kernel : Kernel} {machine : Machine} {world after : World}
  {request : Request}

theorem Booted.sound (booted : Booted supply kernel machine) :
    ∃ rank, Sound supply kernel ⟨machine, []⟩ rank := by
  obtain ⟨before, memory, symbols, cpu, layout, ran⟩ := booted
  obtain ⟨rank, idle⟩ := init_idle layout ran
  refine ⟨rank, idle, nofun, nofun, ?_, ?_⟩
  · intro process page raw level found
    cases found
  · intro process page raw level found
    cases found

theorem Reached.sound (reached : Reached supply kernel world) :
    ∃ rank, Sound supply kernel world rank := by
  obtain ⟨machine, requests, booted, ran⟩ := reached
  obtain ⟨rank, sound⟩ := booted.sound
  exact sound.run ran

theorem Booted.reached (booted : Booted supply kernel machine) :
    Reached supply kernel ⟨machine, []⟩ :=
  ⟨machine, [], booted, rfl⟩

theorem World.run_append (first second : List Request) :
    world.run supply kernel (first ++ second) =
      (world.run supply kernel first).bind fun middle => middle.run supply kernel second := by
  induction first generalizing world with
  | nil => rfl
  | cons request rest ih =>
    change (world.perform supply kernel request).bind _ =
      ((world.perform supply kernel request).bind _).bind _
    cases world.perform supply kernel request with
    | error fault => rfl
    | ok next => exact ih

theorem Reached.perform (reached : Reached supply kernel world)
    (ran : world.perform supply kernel request = .ok after) : Reached supply kernel after := by
  obtain ⟨machine, requests, booted, before⟩ := reached
  refine ⟨machine, requests ++ [request], booted, ?_⟩
  rw [World.run_append, before]
  change (world.perform supply kernel request).bind _ = _
  rw [ran]
  rfl

theorem Reached.spawn (reached : Reached supply kernel world) (loads : Loads ⟨0, inode⟩)
    (enough : world.machine.allocated + 3 * pageTotal (segmentsOf ⟨0, inode⟩) + 14 ≤ supply.owned) :
    ∃ machine, Reached supply kernel ⟨machine, world.processes ++
        [builtContext ⟨0, inode⟩ (freshContext supply world.machine)]⟩ ∧
      machine.allocated ≤ world.machine.allocated + 3 * pageTotal (segmentsOf ⟨0, inode⟩) + 14 := by
  obtain ⟨rank, sound⟩ := reached.sound
  obtain ⟨machine, ran, few⟩ := sound.idle.spawn_total loads enough
  exact ⟨machine, reached.perform (perform_spawn ran), few⟩

end Reached

section Board

/-- The frames above the kernel on a QEMU board with 128 MiB. -/
def boardSupply : FrameSupply where
  frames number := 0x81000000 + number * 4096
  owned := 0x7000
  aligned number _ := by omega
  lower number _ := by omega
  upper number isOwned := by omega
  distinct first _ second _ same := by omega

def boardMemory : Memory.Region := ⟨0x80000000, 0x88000000⟩

def boardSymbols : Symbols where
  text := ⟨0xffffffff80201000, 0xffffffff80241000⟩
  rodata := ⟨0xffffffff80241000, 0xffffffff80251000⟩
  data := ⟨0xffffffff80251000, 0xffffffff80255000⟩
  bss := ⟨0xffffffff80255000, 0xffffffff80265000⟩
  procTramp := ⟨0xfffffffffffe0000, 0xfffffffffffe1000⟩
  procTrampLma := 0x80265000

theorem board_layout : Layout boardSupply boardMemory boardSymbols := by
  refine ⟨by decide, by decide, ?_, by decide, by decide, ?_⟩
  · intro segment isSegment address lower upper number isOwned same
    simp only [boardSymbols, List.mem_cons, List.not_mem_nil, or_false] at isSegment
    unfold boardSupply highHalfPhysStart at same
    rcases isSegment with rfl | rfl | rfl | rfl <;> dsimp only at lower upper same <;> omega
  · intro offset inside number isOwned same
    unfold boardSymbols at inside same
    unfold boardSupply at same
    dsimp only at inside same
    omega

theorem board_linked : Linked boardMemory boardSymbols := by
  refine ⟨by decide, by decide, by decide, ?_, ⟨by decide, by decide, by decide⟩, by decide⟩
  intro segment isSegment
  simp only [boardSymbols, List.mem_cons, List.not_mem_nil, or_false] at isSegment
  rcases isSegment with rfl | rfl | rfl | rfl <;>
    exact ⟨⟨by decide, by decide, by decide⟩, by decide⟩

theorem board_boots (memory : ByteMemory) : ∃ kernel machine,
    Booted boardSupply kernel machine ∧ machine.allocated ≤ 2462 := by
  have framesEq : bootFrames boardMemory boardSymbols = 2462 := by decide
  obtain ⟨kernel, machine, ran, few⟩ := @init_total boardSupply ⟨memory, 0⟩ boardMemory boardSymbols
    .qemu board_layout board_linked (by rw [framesEq]; exact (by decide : 0 + 2462 ≤ 0x7000))
  rw [framesEq] at few
  exact ⟨kernel, machine, ⟨_, _, _, _, board_layout, ran⟩, by omega⟩

theorem board_context : ∃ kernel world context machine, Reached boardSupply kernel world ∧
    Context.new boardSupply ⟨0, 0, 0, 0, 0, 0⟩ world.machine = .ok (context, machine) ∧
      machine.allocated ≤ 2463 := by
  obtain ⟨kernel, booted, isBooted, few⟩ := board_boots fun _ => 0
  have owned : boardSupply.owned = 0x7000 := rfl
  have created : Context.new boardSupply ⟨0, 0, 0, 0, 0, 0⟩ booted =
      .ok (freshContext boardSupply booted,
        ⟨zeroPageTable booted.memory (boardSupply.frames booted.allocated),
          booted.allocated + 1⟩) :=
    Context.new_eq_ok.mpr ⟨by omega, rfl, rfl⟩
  exact ⟨kernel, ⟨booted, []⟩, _, _, isBooted.reached, created, Nat.succ_le_succ few⟩

/-- The board runs a program that loads and is small enough, as its first process. -/
theorem board_spawns (loads : Loads ⟨0, inode⟩) (few : pageTotal (segmentsOf ⟨0, inode⟩) ≤ 1000) :
    ∃ kernel machine ctx,
      Reached boardSupply kernel ⟨machine, [ctx]⟩ ∧
      ctx.heapBegin = heapOf (segmentsOf ⟨0, inode⟩) 0 ∧
      ctx.heapEnd = heapOf (segmentsOf ⟨0, inode⟩) 0 ∧ ctx.mmapNext = processMmapStart ∧
      machine.allocated ≤ 5476 := by
  obtain ⟨kernel, booted, isBooted, bootedFew⟩ := board_boots fun _ => 0
  have owned : boardSupply.owned = 0x7000 := rfl
  obtain ⟨machine, reached, spawnFew⟩ := isBooted.reached.spawn loads (by dsimp only; omega)
  dsimp only at spawnFew
  exact ⟨kernel, machine, _, reached, rfl, rfl, rfl, by omega⟩

def writeProgramHeader (bytes : ByteMemory) (position : Nat) (ph : Elf64ProgramHeader) :
    ByteMemory :=
  ((((bytes.writeWord position 4 ph.pType).writeWord (position + 8) 8 ph.pOffset).writeWord
    (position + 16) 8 ph.pVaddr).writeWord (position + 32) 8 ph.pFilesz).writeWord (position + 40) 8
      ph.pMemsz

def writeProgramHeaders (bytes : ByteMemory) : Nat → List Elf64ProgramHeader → ByteMemory
  | _, [] => bytes
  | position, ph :: rest =>
      writeProgramHeaders (writeProgramHeader bytes position ph)
        (position + elf64ProgramHeaderSize) rest

/-- A file of the length with these program headers right after its header, and
zeros elsewhere. -/
def elfFile (len : Nat) (segments : List Elf64ProgramHeader) : Inode ByteMemory where
  ino := 1
  fileType := .regularFile
  len := len
  fsData := writeProgramHeaders
    (ByteMemory.writeWord (ByteMemory.writeWord (ByteMemory.writeWord (fun _ => 0) 32 8 64) 54 2 56)
      56 2 segments.length) 64 segments

end Board

end NanoOs.ProcessMemoryMap
