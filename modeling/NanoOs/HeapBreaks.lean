import NanoOs.MemoryGrowth

/-!
# The heap of a process

`brk` subtracts the end of the heap from the end that is asked for, and maps the
pages in between.  Between its calls the processes write to their pages.  The heap
stays as it should exactly if the end that is asked for does not lie below the page
of the current one, and the new pages keep out of the stack and of the mappings.
-/

namespace NanoOs.ProcessMemoryMap

open KernelMemoryMap MemoryCalls PageMapping

def World.returnTo (world : World) (process : Nat) (outcome : CallOutcome) : World :=
  ⟨outcome.machine, world.processes.set process outcome.ctx⟩

def SameFrame (before after : ByteMemory) (raw : Nat) : Prop :=
  ∀ offset < 4096, after (PageTableEntry.addr raw + offset) =
    before (PageTableEntry.addr raw + offset)

def ZeroFrame (memory : ByteMemory) (raw : Nat) : Prop :=
  ∀ offset < 4096, memory (PageTableEntry.addr raw + offset) = 0

/-- The leaf is a small page that the process may use, and no other page of a
process has its frame. -/
def World.OwnLeaf (world : World) (process page raw : Nat) : Prop :=
  world.leaf process page = some (raw, 0) ∧ PageTableEntry.has raw PageFlags.user ∧
    ∀ other otherPage otherRaw otherLevel,
      world.leaf other otherPage = some (otherRaw, otherLevel) →
        PageTableEntry.addr otherRaw = PageTableEntry.addr raw → other = process ∧ otherPage = page

/-- What a call of `brk` should do. -/
structure BreaksWell (world : World) (process : Nat) (ctx : Context) (tf : TrapFrame)
    (outcome : CallOutcome) : Prop where
  begins : outcome.ctx.heapBegin = ctx.heapBegin
  ordered : outcome.ctx.heapBegin ≤ outcome.ctx.heapEnd
  aligned : outcome.ctx.heapEnd % 4096 = 0
  returned : outcome.tf.a0 = outcome.ctx.heapEnd
  reached : tf.a0 ≤ outcome.ctx.heapEnd
  fixed : tf.a0 ≤ ctx.heapEnd → outcome.ctx.heapEnd = ctx.heapEnd
  mapped : ∀ page, heapPages outcome.ctx page → ∃ raw,
    (world.returnTo process outcome).OwnLeaf process page raw ∧
      (world.leaf process page = none → ZeroFrame outcome.machine.memory raw)
  kept : ∀ page raw level, world.leaf process page = some (raw, level) →
    (world.returnTo process outcome).leaf process page = some (raw, level) ∧
      SameFrame world.machine.memory outcome.machine.memory raw

/-- There are frames for the pages that the call asks for and for the tables that
they lack. -/
def EnoughFrames (supply : FrameSupply) (machine : Machine) (ctx : Context) (tf : TrapFrame) :
    Prop :=
  let count := (roundUp tf.a0 - ctx.heapEnd) / 4096
  machine.allocated + count +
    missingTables machine.memory ctx.pageMap.rootTable (ctx.heapEnd / 4096) count ≤ supply.owned

/-- The call asks for the end of the heap, or for an end not below the page of the
current one, such that the new pages are free. -/
def Extending (ctx : Context) (tf : TrapFrame) : Prop :=
  tf.a0 = 0 ∨ ctx.heapEnd ≤ roundUp tf.a0 ∧
    ¬ Meet ctx.heapEnd (roundUp tf.a0) (processStackStart - processStackStartingSize)
      processStackStart ∧
    ¬ Meet ctx.heapEnd (roundUp tf.a0) processMmapStart ctx.mmapNext

/-- The processes may have written to their pages, and to nothing else. -/
def World.Stored (world after : World) : Prop :=
  after.processes = world.processes ∧ after.machine.allocated = world.machine.allocated ∧
    ∀ location, (∀ process page raw level, world.leaf process page = some (raw, level) →
      location < PageTableEntry.addr raw ∨ PageTableEntry.addr raw + 4096 ≤ location) →
        after.machine.memory location = world.machine.memory location

/-- Every call of a sequence of calls of `brk` by a process has the property if
there are frames for it, whatever the processes write in between. -/
def World.EveryBreak (supply : FrameSupply) (kernel : Kernel) (process : Nat)
    (property : World → Context → TrapFrame → Prop) (world : World) : List TrapFrame → Prop
  | [] => True
  | tf :: rest => ∀ ctx, world.processes[process]? = some ctx →
      (EnoughFrames supply world.machine ctx tf → property world ctx tf) ∧
        ∀ after, world.perform supply kernel (.brk process tf) = .ok after →
          ∀ written, after.Stored written →
            written.EveryBreak supply kernel process property rest

section Breaks

variable {supply : FrameSupply} {kernel : Kernel} {world : World} {rank : Nat → Option Nat}
  {process : Nat} {ctx : Context} {tf : TrapFrame} {outcome : CallOutcome}

theorem EnoughFrames.fits (enough : EnoughFrames supply world.machine ctx tf)
    (sound : Sound supply kernel world rank) (current : world.processes[process]? = some ctx) :
    tf.a0 + 4096 < 2 ^ 64 := by
  have cursors := (sound.spaces process ctx current).cursors
  have heapLow := cursors.heapLow
  have heapCounted := cursors.heapCounted
  have most := supply.owned_le
  unfold EnoughFrames roundUp at enough
  unfold highPage at heapLow
  omega

theorem Sound.stored {after : World} (sound : Sound supply kernel world rank)
    (current : world.processes[process]? = some ctx) (stored : world.Stored after) :
    Sound supply kernel after rank := by
  obtain ⟨machine, processes⟩ := after
  obtain ⟨sameProcesses, allocated, same⟩ := stored
  have spaces := sound.idle.space.spaces
  have owned := spaces.owned
  have similar : Similar rank world.machine machine := by
    refine ⟨allocated, fun table isRanked location lower upper => same location ?_⟩
    intro other page raw level found
    obtain ⟨-, -, -, noTable, number, bound, addrEq⟩ :=
      sound.frames.leaves other page raw level found
    by_contra within
    rw [addrEq] at noTable within
    have outside := @Spaces.outside_of_frame supply (· = kernel.lastL1Pte) world.machine rank spaces
      number (location - supply.frames number) (by omega) noTable (by omega) table isRanked
    omega
  have mapped := (@MappedPages.none supply (· = kernel.lastL1Pte) world.machine rank
    ctx.pageMap.rootTable userFlags (fun _ => False) (fun _ => 0) spaces fun _ => id).similar
      similar
  have cursors := (sound.spaces process ctx current).cursors.later allocated.ge
  have after := sound.map current mapped nofun rfl cursors rfl fun page =>
    (or_iff_left id).symm
  rwa [set_current current, ← sameProcesses] at after

section Returns

variable (sound : Sound supply kernel world rank)
  (current : world.processes[process]? = some ctx) (ordered : ctx.heapEnd ≤ roundUp tf.a0)

include sound current ordered

theorem Sound.allocate_returns_iff (low : roundUp tf.a0 / 4096 ≤ pageLimit - 512) :
    (∃ after, ctx.pageMap.allocateAndMapPagesZeroed supply world.machine ctx.heapEnd
      (roundUp tf.a0 - ctx.heapEnd) userFlags = .ok after) ↔
      EnoughFrames supply world.machine ctx tf := by
  have space := sound.spaces process ctx current
  have endAligned := space.cursors.endAligned
  have pageEq : pageOf ctx.heapEnd + 0 = ctx.heapEnd / 4096 := by
    unfold pageOf
    unfold pageLimit at low ⊢
    omega
  have clear : ∀ page, pagesFrom (pageOf ctx.heapEnd + 0)
      ((roundUp tf.a0 - ctx.heapEnd) / 4096) page → ∀ raw level,
        view world.machine.memory ctx.pageMap.rootTable page = some (raw, level) → level = 0 := by
    rw [pageEq]
    rintro page ⟨-, upper⟩ raw level found
    exact (sound.frames.leaves process page raw level
      ((World.leaf_low current (by omega)).trans found)).small
  have returns := @Spaces.allocateLoop_returns_iff supply _ world.machine rank ctx.pageMap userFlags
    true ctx.heapEnd sound.idle.space.spaces space.isRoot rfl 0 _ endAligned
    (by unfold pageLimit at low; omega) (by rw [pageEq]; omega) clear
  rw [pageEq] at returns
  exact returns

theorem Sound.brk_returns_iff (nonzero : tf.a0 ≠ 0) :
    (∃ outcome, MemoryCalls.brk supply tf ctx world.machine = .ok outcome) ↔
      EnoughFrames supply world.machine ctx tf := by
  constructor
  · rintro ⟨outcome, ran⟩
    obtain ⟨-, -, allocated, -, -⟩ := (brk_eq_ok nonzero).mp ran
    obtain ⟨low, -⟩ := sound.brk_maps current nonzero ran
    exact (sound.allocate_returns_iff current ordered low).mp ⟨_, allocated⟩
  · intro enough
    have low : roundUp tf.a0 / 4096 ≤ pageLimit - 512 := by
      have cursors := (sound.spaces process ctx current).cursors
      have heapLow := cursors.heapLow
      have heapCounted := cursors.heapCounted
      have most := supply.owned_le
      unfold EnoughFrames at enough
      unfold highPage at heapLow
      unfold pageLimit
      omega
    obtain ⟨after, allocated⟩ := (sound.allocate_returns_iff current ordered low).mpr enough
    exact ⟨⟨_, _, after⟩, (brk_eq_ok nonzero).mpr
      ⟨enough.fits sound current, ordered, allocated, rfl, rfl⟩⟩

end Returns

variable {page : Nat} {frame : Nat → Nat} {grown : Nat → Option Nat} {pages : Nat → Prop}

theorem Sound.heap_leaf (sound : Sound supply kernel world rank)
    (current : world.processes[process]? = some ctx) (isHeap : heapPages ctx page) :
    ∃ raw, world.OwnLeaf process page raw := by
  have cursors := (sound.spaces process ctx current).cursors
  have heapLow := cursors.heapLow
  have heapCounted := cursors.heapCounted
  have owned := sound.idle.space.spaces.owned
  have most := supply.owned_le
  have isLow : page < pageLimit - 512 := by
    unfold heapPages at isHeap
    unfold highPage at heapLow
    unfold pageLimit
    omega
  obtain ⟨_, -, regions⟩ := (sound.spaces process ctx current).regions
  obtain ⟨⟨raw, level⟩, found⟩ := Option.isSome_iff_exists.mp
    ((regions page isLow).mpr (Or.inr (Or.inr (Or.inl isHeap))))
  rw [← World.leaf_low current isLow] at found
  have leaf := sound.frames.leaves process page raw level found
  obtain rfl := leaf.small
  refine ⟨raw, found, leaf.user, ?_⟩
  intro other otherPage otherRaw otherLevel otherFound sameAddr
  exact sound.frames.single other otherPage otherRaw otherLevel otherFound process page raw 0 found
    sameAddr

theorem Sound.sameFrame {after : Machine} (sound : Sound supply kernel world rank)
    (mapped : MappedPages supply (· = kernel.lastL1Pte) world.machine after rank grown
      ctx.pageMap.rootTable userFlags pages frame)
    (contents : FreshContents supply world.machine after grown pages true frame) {raw level : Nat}
    (found : world.leaf process page = some (raw, level)) :
    SameFrame world.machine.memory after.memory raw := by
  intro offset inFrame
  have leaf := sound.frames.leaves process page raw level found
  obtain ⟨number, bound, addrEq⟩ := leaf.taken
  have monotone := mapped.extends'.monotone
  have owned := mapped.spaces.owned
  have noTable := (leaf.extend mapped.extends' owned).noTable
  rw [addrEq] at noTable ⊢
  refine contents.elsewhere _ (mapped.spaces.outside_of_frame (by omega) noTable inFrame) ?_
  intro other lower upper
  exact supply.apart (by omega) (by omega) (by omega) inFrame

theorem Sound.breaksWell_zero (sound : Sound supply kernel world rank)
    (current : world.processes[process]? = some ctx) (isZero : tf.a0 = 0) :
    BreaksWell world process ctx tf ⟨{ tf with a0 := ctx.heapEnd }, ctx, world.machine⟩ := by
  have cursors := (sound.spaces process ctx current).cursors
  have same : world.returnTo process ⟨{ tf with a0 := ctx.heapEnd }, ctx, world.machine⟩ =
      world := by
    unfold World.returnTo
    rw [set_current current]
  refine ⟨rfl, cursors.heapOrdered, cursors.endAligned, rfl, isZero.trans_le (Nat.zero_le _),
    fun _ => rfl, ?_, ?_⟩
  · intro page isHeap
    obtain ⟨raw, own⟩ := sound.heap_leaf current isHeap
    rw [same]
    refine ⟨raw, own, fun unmapped => ?_⟩
    rw [own.1] at unmapped
    cases unmapped
  · intro page raw level found
    rw [same]
    exact ⟨found, fun _ _ => rfl⟩

section Ran

variable (sound : Sound supply kernel world rank)
  (current : world.processes[process]? = some ctx) (nonzero : tf.a0 ≠ 0)
  (ran : MemoryCalls.brk supply tf ctx world.machine = .ok outcome)

include sound current nonzero ran

theorem Sound.brk_leaf
    (mapped : MappedPages supply (· = kernel.lastL1Pte) world.machine outcome.machine rank grown
      ctx.pageMap.rootTable userFlags pages frame) (isLow : page < pageLimit - 512) :
    (pages page → (world.returnTo process outcome).leaf process page =
      some (PageTableEntry.set (frame page) userFlags, 0)) ∧
    (¬ pages page → (world.returnTo process outcome).leaf process page =
      world.leaf process page) := by
  obtain ⟨-, -, -, -, ctxEq⟩ := (brk_eq_ok nonzero).mp ran
  obtain ⟨inRange, -⟩ := List.getElem?_eq_some_iff.mp current
  have afterCurrent : (world.returnTo process outcome).processes[process]? = some outcome.ctx :=
    List.getElem?_set_self inRange
  rw [World.leaf_low afterCurrent isLow, World.leaf_low current isLow, ctxEq]
  exact sound.view_own current mapped (by omega)

theorem Sound.vacant_of_kept (well : BreaksWell world process ctx tf outcome)
    (isNew : pagesFrom (ctx.heapEnd / 4096) ((roundUp tf.a0 - ctx.heapEnd) / 4096) page) :
    view world.machine.memory ctx.pageMap.rootTable page = none := by
  obtain ⟨-, ordered, -, -, -⟩ := (brk_eq_ok nonzero).mp ran
  obtain ⟨low, grown, frame, mapped, -, -⟩ := sound.brk_maps current nonzero ran
  have isLow : page < pageLimit - 512 := by
    have bound := isNew.2
    omega
  cases found : view world.machine.memory ctx.pageMap.rootTable page with
  | none => rfl
  | some leaf =>
    obtain ⟨raw, level⟩ := leaf
    rw [← World.leaf_low current isLow] at found
    obtain ⟨number, bound, addrEq⟩ := (sound.frames.leaves process page raw level found).taken
    obtain ⟨another, lower, upper, frameEq, -⟩ := mapped.fresh page isNew
    have owned := mapped.spaces.owned
    have kept := (well.kept page raw level found).1
    rw [(sound.brk_leaf current nonzero ran mapped isLow).1 isNew] at kept
    obtain ⟨rfl, -⟩ := Prod.mk.inj (Option.some.inj kept)
    rw [supply.addr_set (by omega) frameEq, frameEq] at addrEq
    have equal := supply.distinct another (by omega) number (by omega) addrEq
    omega

theorem Sound.breaksWell_of_vacant (vacant : ∀ page,
    pagesFrom (ctx.heapEnd / 4096) ((roundUp tf.a0 - ctx.heapEnd) / 4096) page →
      view world.machine.memory ctx.pageMap.rootTable page = none) :
    BreaksWell world process ctx tf outcome := by
  obtain ⟨-, ordered, -, tfEq, ctxEq⟩ := (brk_eq_ok nonzero).mp ran
  obtain ⟨low, grown, frame, mapped, contents, after⟩ := sound.brk_maps current nonzero ran
  obtain ⟨inRange, -⟩ := List.getElem?_eq_some_iff.mp current
  have cursors := (sound.spaces process ctx current).cursors
  have endAligned := cursors.endAligned
  have heapOrdered := cursors.heapOrdered
  have whole : roundUp tf.a0 % 4096 = 0 := Nat.mul_mod_left _ _
  have endEq : outcome.ctx.heapEnd = roundUp tf.a0 := by rw [ctxEq]
  have beginEq : outcome.ctx.heapBegin = ctx.heapBegin := by rw [ctxEq]
  have afterCurrent : (world.processes.set process outcome.ctx)[process]? = some outcome.ctx :=
    List.getElem?_set_self inRange
  refine ⟨beginEq, by omega, by omega, by rw [tfEq, endEq], ?_, ?_, ?_, ?_⟩
  · rw [endEq]
    unfold roundUp
    omega
  · intro small
    rw [endEq]
    unfold roundUp at ordered ⊢
    omega
  · intro page isHeap
    obtain ⟨raw, own⟩ := after.heap_leaf afterCurrent isHeap
    refine ⟨raw, own, fun unmapped => ?_⟩
    have isLow : page < pageLimit - 512 := by
      unfold heapPages at isHeap
      omega
    have isNew : pagesFrom (ctx.heapEnd / 4096) ((roundUp tf.a0 - ctx.heapEnd) / 4096) page := by
      by_contra notNew
      obtain ⟨_, before⟩ := sound.heap_leaf current (show heapPages ctx page by
        unfold heapPages at isHeap ⊢
        unfold pagesFrom at notNew
        omega)
      rw [before.1] at unmapped
      cases unmapped
    obtain ⟨number, -, upper, frameEq, -⟩ := mapped.fresh page isNew
    have owned := mapped.spaces.owned
    have found := (sound.brk_leaf current nonzero ran mapped isLow).1 isNew
    obtain ⟨rfl, -⟩ := Prod.mk.inj (Option.some.inj (own.1.symm.trans found))
    intro offset inFrame
    rw [supply.addr_set (by omega) frameEq]
    exact contents.contents page isNew offset inFrame
  · intro page raw level found
    obtain ⟨_, otherCurrent, isLow, seen⟩ := World.leaf_eq_some.mp found
    have notNew : ¬ pagesFrom (ctx.heapEnd / 4096) ((roundUp tf.a0 - ctx.heapEnd) / 4096) page := by
      intro isNew
      rw [current] at otherCurrent
      cases otherCurrent
      rw [vacant page isNew] at seen
      cases seen
    exact ⟨((sound.brk_leaf current nonzero ran mapped isLow).2 notNew).trans found,
      sound.sameFrame mapped contents found⟩

end Ran

/-- A call with enough frames does what it should exactly if it is extending. -/
theorem Sound.breaksWell_iff (sound : Sound supply kernel world rank)
    (current : world.processes[process]? = some ctx)
    (enough : EnoughFrames supply world.machine ctx tf) :
    (∃ outcome, MemoryCalls.brk supply tf ctx world.machine = .ok outcome ∧
      BreaksWell world process ctx tf outcome) ↔ Extending ctx tf := by
  by_cases isZero : tf.a0 = 0
  · exact ⟨fun _ => Or.inl isZero,
      fun _ => ⟨_, brk_zero isZero, sound.breaksWell_zero current isZero⟩⟩
  have whole : roundUp tf.a0 % 4096 = 0 := Nat.mul_mod_left _ _
  constructor
  · rintro ⟨outcome, ran, well⟩
    obtain ⟨-, ordered, -, -, -⟩ := (brk_eq_ok isZero).mp ran
    obtain ⟨low, -⟩ := sound.brk_maps current isZero ran
    exact Or.inr ⟨ordered, (sound.brk_vacant_iff current ordered whole low).mp
      fun page isNew => sound.vacant_of_kept current isZero ran well isNew⟩
  · intro extending
    obtain ⟨ordered, apart⟩ := extending.resolve_left isZero
    obtain ⟨outcome, ran⟩ := (sound.brk_returns_iff current ordered isZero).mpr enough
    obtain ⟨low, -⟩ := sound.brk_maps current isZero ran
    exact ⟨_, ran, sound.breaksWell_of_vacant current isZero ran
      ((sound.brk_vacant_iff current ordered whole low).mpr apart)⟩

end Breaks

/-- All calls of `brk` by a process, with arbitrary arguments, return and keep its
heap as it should be exactly if all of them are extending. -/
theorem brk_well_iff {supply : FrameSupply} {kernel : Kernel} {world : World}
    {rank : Nat → Option Nat} (sound : Sound supply kernel world rank) (process : Nat)
    (calls : List TrapFrame) :
    world.EveryBreak supply kernel process
      (fun before ctx tf => ∃ outcome, MemoryCalls.brk supply tf ctx before.machine = .ok outcome ∧
        BreaksWell before process ctx tf outcome) calls ↔
      world.EveryBreak supply kernel process (fun _ ctx tf => Extending ctx tf) calls := by
  induction calls generalizing world rank with
  | nil => exact Iff.rfl
  | cons tf rest ih =>
    refine forall_congr' fun ctx => forall_congr' fun current => and_congr
      (forall_congr' fun enough => sound.breaksWell_iff current enough) ?_
    refine forall_congr' fun after => forall_congr' fun performed => forall_congr' fun written =>
      forall_congr' fun stored => ?_
    obtain ⟨grown, afterSound⟩ := sound.perform performed
    obtain ⟨_, outcome, -, -, rfl⟩ := World.call_eq_ok.mp performed
    obtain ⟨inRange, -⟩ := List.getElem?_eq_some_iff.mp current
    exact ih (afterSound.stored (List.getElem?_set_self inRange) stored)

/-- A call of `brk` with an argument. -/
def breakAt (address : Nat) : TrapFrame := ⟨0, 0, address, 0, 0, 0⟩

/-- The program asks for less than a page, for more of that page and for the end. -/
theorem smallProgram_breaks : ∃ kernel world rank ctx, Sound boardSupply kernel world rank ∧
    world.processes[0]? = some ctx ∧ EnoughFrames boardSupply world.machine ctx (breakAt 0x11001) ∧
    world.EveryBreak boardSupply kernel 0
      (fun before ctx tf => ∃ outcome,
        MemoryCalls.brk boardSupply tf ctx before.machine = .ok outcome ∧
          BreaksWell before 0 ctx tf outcome) [breakAt 0x11001, breakAt 0x11fff, breakAt 0] := by
  have owned : boardSupply.owned = 0x7000 := rfl
  obtain ⟨kernel, machine, ctx, reached, -, endEq, nextEq, few⟩ := board_spawns smallProgram_loads
    (by rw [smallProgram_pages]; decide)
  obtain ⟨rank, sound⟩ := reached.sound
  replace endEq : ctx.heapEnd = 0x11000 := by
    rw [endEq, smallProgram_segments]
    decide
  have rounded : roundUp 0x11001 = 0x12000 := by decide
  have tables := missingTables_le machine.memory ctx.pageMap.rootTable (ctx.heapEnd / 4096) 1
  have count : (roundUp 0x11001 - ctx.heapEnd) / 4096 = 1 := by rw [endEq, rounded]
  refine ⟨kernel, _, rank, ctx, sound, rfl, ?_, (brk_well_iff sound 0 _).mpr ?_⟩
  · unfold EnoughFrames breakAt
    dsimp only
    rw [count]
    omega
  rintro _ ⟨⟩
  refine ⟨fun _ => Or.inr ?_, fun after performed written stored => ?_⟩
  · unfold breakAt
    rw [rounded, endEq, nextEq]
    decide
  · rw [World.perform] at performed
    obtain ⟨_, outcome, current, ran, rfl⟩ := World.call_eq_ok.mp performed
    cases current
    obtain ⟨-, -, -, -, ctxEq⟩ := (brk_eq_ok (by decide)).mp ran
    have processes : written.processes = [outcome.ctx] := stored.1
    intro second secondCurrent
    rw [processes] at secondCurrent
    cases secondCurrent
    refine ⟨fun _ => Or.inr ?_, fun _ _ _ _ _ _ => ⟨fun _ => Or.inl rfl, fun _ _ _ _ => trivial⟩⟩
    rw [ctxEq]
    dsimp only
    rw [nextEq]
    decide

/-- Asking for an end below the current one fails, though it needs no frame. -/
theorem smallProgram_shrinks : ∃ kernel world ctx, Reached boardSupply kernel world ∧
    world.processes[0]? = some ctx ∧ EnoughFrames boardSupply world.machine ctx (breakAt 0x10000) ∧
    ctx.heapBegin ≤ ctx.heapEnd ∧
    ¬ ∃ outcome, MemoryCalls.brk boardSupply (breakAt 0x10000) ctx world.machine = .ok outcome := by
  have owned : boardSupply.owned = 0x7000 := rfl
  obtain ⟨kernel, machine, ctx, reached, beginEq, endEq, -, few⟩ := board_spawns smallProgram_loads
    (by rw [smallProgram_pages]; decide)
  have ordered : ctx.heapBegin ≤ ctx.heapEnd := by rw [beginEq, endEq]
  replace endEq : ctx.heapEnd = 0x11000 := by
    rw [endEq, smallProgram_segments]
    decide
  have rounded : roundUp 0x10000 = 0x10000 := by decide
  have count : (roundUp 0x10000 - ctx.heapEnd) / 4096 = 0 := by rw [endEq, rounded]
  refine ⟨kernel, _, ctx, reached, rfl, ?_, ordered, ?_⟩
  · unfold EnoughFrames breakAt
    dsimp only
    rw [count]
    have none := missingTables_le machine.memory ctx.pageMap.rootTable (ctx.heapEnd / 4096) 0
    omega
  · rintro ⟨outcome, ran⟩
    obtain ⟨-, above, -⟩ := (brk_eq_ok (by decide)).mp ran
    unfold breakAt at above
    dsimp only at above
    omega

end NanoOs.ProcessMemoryMap
