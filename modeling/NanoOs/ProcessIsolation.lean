import NanoOs.ProcessRuns

/-!
# Frames of processes are their own

A frame that a process reaches through a leaf with the user flag is reached so by
no other process, and holds no page table of the kernel or of any process.
-/

namespace NanoOs.ProcessMemoryMap

open Files KernelMemoryMap PageMapping RadixTables

/-- The frame is reached through a leaf with the user flag. -/
def UserFrame (memory : ByteMemory) (root frame : Nat) : Prop :=
  ∃ virt raw level, view memory root (pageOf virt) = some (raw, level) ∧
    PageTableEntry.has raw PageFlags.user ∧ frame = physical virt (raw, level) / 4096 * 4096

/-- The table is one of those below a root table, or the root table itself. -/
def PageTableOf (memory : ByteMemory) (root table : Nat) : Prop :=
  ∃ path, Within pageEntries path ∧ reach (slots memory) root path = some table

def World.IsRoot (world : World) (kernel : Kernel) (root : Nat) : Prop :=
  root = kernel.pageMapper.rootTable ∨
    ∃ ctx ∈ world.processes, root = ctx.pageMap.rootTable

section Sound

variable {supply : FrameSupply} {kernel : Kernel} {world : World} {rank : Nat → Option Nat}

section

variable (sound : Sound supply kernel world rank)

include sound

/-- Only the pages of a process itself have the user flag. -/
theorem Sound.userFrame {process frame : Nat} {ctx : Context}
    (current : world.processes[process]? = some ctx)
    (isUser : UserFrame world.machine.memory ctx.pageMap.rootTable frame) :
    ∃ page raw level, world.leaf process page = some (raw, level) ∧
      frame = PageTableEntry.addr raw := by
  obtain ⟨virt, raw, level, found, user, frameEq⟩ := isUser
  have inRange := pageOf_lt virt
  by_cases low : pageOf virt < pageLimit - 512
  · have leaf := (World.leaf_low current low).trans found
    obtain rfl := (sound.frames.leaves process _ raw level leaf).small
    refine ⟨_, raw, 0, leaf, ?_⟩
    have aligned := PageTableEntry.addr_aligned raw
    rw [frameEq, physical_small]
    omega
  · have linked := (sound.spaces process ctx current).linked
    have corner := Nat.le_of_not_lt low
    rw [linked.view_eq sound.idle.linked inRange corner] at found
    exact absurd user (sound.idle.quiet _ inRange corner raw level found)

theorem Sound.userFrame_exists {process : Nat} {ctx : Context}
    (current : world.processes[process]? = some ctx) :
    ∃ frame, UserFrame world.machine.memory ctx.pageMap.rootTable frame := by
  obtain ⟨_, -, regions⟩ := (sound.spaces process ctx current).regions
  have low : 0xffdfc < pageLimit - 512 := by decide
  have isStack : stackPages 0xffdfc := by decide
  have mapped := (regions 0xffdfc low).mpr (Or.inr (Or.inl isStack))
  obtain ⟨⟨raw, level⟩, found⟩ := Option.isSome_iff_exists.mp mapped
  have leaf := sound.frames.leaves process _ raw level ((World.leaf_low current low).trans found)
  exact ⟨_, 0xffdfc000, raw, level, found, leaf.user, rfl⟩

theorem Sound.isRoot {root : Nat} (isRoot : world.IsRoot kernel root) : rank root = some 2 := by
  rcases isRoot with rfl | ⟨ctx, isProcess, rfl⟩
  · exact sound.idle.space.isRoot
  · obtain ⟨process, current⟩ := List.mem_iff_getElem?.mp isProcess
    exact (sound.spaces process ctx current).isRoot

theorem Sound.pageTable {root table : Nat} (isRoot : world.IsRoot kernel root)
    (isTable : PageTableOf world.machine.memory root table) : rank table ≠ none := by
  obtain ⟨path, within, reached⟩ := isTable
  obtain ⟨below, -, tableRanked⟩ :=
    sound.idle.space.spaces.forest.reach_rank (sound.isRoot isRoot) within reached
  exact RadixTables.ranked tableRanked

end

end Sound

/-- In every reachable state, frames with the user flag are private to one
process and hold no page table. -/
theorem user_frames_private {supply : FrameSupply} {kernel : Kernel} {world : World}
    (reached : Reached supply kernel world) :
    (∀ (process : Nat) (ctx : Context), world.processes[process]? = some ctx →
      ∀ (other : Nat) (otherCtx : Context), world.processes[other]? = some otherCtx →
        process ≠ other →
        ∀ frame, UserFrame world.machine.memory ctx.pageMap.rootTable frame →
          ¬ UserFrame world.machine.memory otherCtx.pageMap.rootTable frame) ∧
      ∀ ctx ∈ world.processes, ∀ frame,
        UserFrame world.machine.memory ctx.pageMap.rootTable frame →
          ∀ root, world.IsRoot kernel root → ¬ PageTableOf world.machine.memory root frame := by
  obtain ⟨rank, sound⟩ := reached.sound
  refine ⟨?_, ?_⟩
  · intro process ctx current other otherCtx otherCurrent different frame isUser otherUser
    obtain ⟨page, raw, level, leaf, frameEq⟩ := sound.userFrame current isUser
    obtain ⟨otherPage, otherRaw, otherLevel, otherLeaf, otherEq⟩ :=
      sound.userFrame otherCurrent otherUser
    exact different (sound.frames.single process page raw level leaf other otherPage otherRaw
      otherLevel otherLeaf (frameEq.symm.trans otherEq)).1
  · intro ctx isProcess frame isUser root isRoot isTable
    obtain ⟨process, current⟩ := List.mem_iff_getElem?.mp isProcess
    obtain ⟨page, raw, level, leaf, frameEq⟩ := sound.userFrame current isUser
    refine sound.pageTable isRoot isTable ?_
    rw [frameEq]
    exact (sound.frames.leaves process page raw level leaf).noTable

def smallProgram : Inode ByteMemory := elfFile 4096 [⟨1, 0, 0x10000, 0x1000, 0x1000⟩]

theorem smallProgram_segments :
    segmentsOf ⟨0, smallProgram⟩ = [⟨1, 0, 0x10000, 0x1000, 0x1000⟩] := by
  decide +kernel

theorem smallProgram_loads : Loads ⟨0, smallProgram⟩ := by
  refine ⟨by decide, by decide +kernel, ?_, ⟨0x10, ?_⟩, ?_⟩ <;> rw [smallProgram_segments]
  · decide +kernel
  · decide +kernel
  · decide +kernel

theorem smallProgram_pages : pageTotal (segmentsOf ⟨0, smallProgram⟩) = 1 := by
  decide

theorem two_processes_private : ∃ kernel world first second,
    Reached boardSupply kernel world ∧ world.processes = [first, second] ∧
      (∃ frame, UserFrame world.machine.memory first.pageMap.rootTable frame) ∧
      ∀ frame, UserFrame world.machine.memory first.pageMap.rootTable frame →
        ¬ UserFrame world.machine.memory second.pageMap.rootTable frame ∧
          ¬ PageTableOf world.machine.memory kernel.pageMapper.rootTable frame := by
  obtain ⟨kernel, machine, booted, few⟩ := board_boots fun _ => 0
  have owned : boardSupply.owned = 0x7000 := rfl
  have pages := smallProgram_pages
  obtain ⟨middle, one, middleFew⟩ := booted.reached.spawn smallProgram_loads (by dsimp only; omega)
  dsimp only at one middleFew
  obtain ⟨after, two, -⟩ := one.spawn smallProgram_loads (by dsimp only; omega)
  generalize builtContext ⟨0, smallProgram⟩ (freshContext boardSupply machine) = first at two
  generalize builtContext ⟨0, smallProgram⟩ (freshContext boardSupply middle) = second at two
  obtain ⟨rank, sound⟩ := two.sound
  have current : ([first, second] : List Context)[0]? = some first := rfl
  refine ⟨kernel, _, first, second, two, rfl, sound.userFrame_exists current, ?_⟩
  intro frame isUser
  obtain ⟨apart, noTable⟩ := user_frames_private two
  exact ⟨apart 0 first rfl 1 second rfl (by decide) frame isUser,
    noTable first List.mem_cons_self frame isUser _ (Or.inl rfl)⟩

end NanoOs.ProcessMemoryMap
