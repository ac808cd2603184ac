import NanoOs.Ext2Files

/-!
# The ext2 block map

Every index of a file has its own slot in the tree of its block pointers, up to
the end of the double indirect range. `resolve_block_ptr` returns the pointer in
that slot, and reads only inside the pointer blocks on the way to it.
-/

namespace NanoOs.Ext2

/-- A place for a block pointer: in `i_block`, in the single indirect block, or
in a block named by an entry of the double indirect block. -/
inductive Slot where
  | direct (index : Nat)
  | single (index : Nat)
  | double (outer inner : Nat)
  deriving DecidableEq

def slotCount (size : Nat) : Nat := ndirBlocks + size / 4 + size / 4 * (size / 4)

def slotOf (size index : Nat) : Option Slot :=
  let perBlock := size / 4
  if index < ndirBlocks then
    some (.direct index)
  else if index - ndirBlocks < perBlock then
    some (.single (index - ndirBlocks))
  else if index - ndirBlocks - perBlock < perBlock * perBlock then
    some (.double ((index - ndirBlocks - perBlock) / perBlock)
      ((index - ndirBlocks - perBlock) % perBlock))
  else
    none

def entry (contents : ByteMemory) (size pointer index : Nat) : Nat :=
  if pointer = 0 then 0 else contents.readWord (pointer * size + index * 4) 4

def Slot.pointer (contents : ByteMemory) (size : Nat) (blocks : Nat → Nat) : Slot → Nat
  | .direct index => blocks index
  | .single index => entry contents size (blocks ndirBlocks) index
  | .double outer inner =>
      entry contents size (entry contents size (blocks (ndirBlocks + 1)) outer) inner

/-- The pointer of an index, zero where the tree has no slot for it. -/
def slotPointer (contents : ByteMemory) (size : Nat) (blocks : Nat → Nat) (index : Nat) : Nat :=
  match slotOf size index with
  | some slot => slot.pointer contents size blocks
  | none => 0

section Slots

variable {size : Nat}

theorem slotOf_eq_none_iff (index : Nat) : slotOf size index = none ↔ slotCount size ≤ index := by
  dsimp only [slotOf, slotCount]
  split_ifs <;> simp <;> omega

def Slot.index (size : Nat) : Slot → Nat
  | .direct index => index
  | .single index => ndirBlocks + index
  | .double outer inner => ndirBlocks + size / 4 + (size / 4 * outer + inner)

theorem index_slotOf {index : Nat} {slot : Slot} (located : slotOf size index = some slot) :
    slot.index size = index := by
  dsimp only [slotOf] at located
  split_ifs at located with direct single double <;> cases located <;> dsimp only [Slot.index]
  · omega
  · rw [Nat.div_add_mod]
    omega

theorem slotOf_injective {first second : Nat} (inRange : first < slotCount size)
    (shared : slotOf size first = slotOf size second) : first = second := by
  cases located : slotOf size first with
  | none => exact absurd ((slotOf_eq_none_iff first).mp located) (Nat.not_le.mpr inRange)
  | some slot =>
    rw [← index_slotOf located]
    exact index_slotOf (shared ▸ located)

end Slots

theorem resolveBlockPtr_beyond {superblock : Ext2SuperBlock} {size : Nat}
    (sized : superblock.Sized size) (blocks : Nat → Nat) {blockIdx : Nat}
    (beyond : slotCount size ≤ blockIdx) :
    superblock.resolveBlockPtr blocks blockIdx = .ok (.ok 0) := by
  unfold slotCount at beyond
  dsimp only [Ext2SuperBlock.resolveBlockPtr, resolveWith]
  rw [if_neg (by omega), fallible_lift sized.blockSize_eq, if_neg (by omega), if_neg (by omega)]
  rfl

/-- A `read_u32_le` at an offset of a fetched block. -/
structure PointerRead where
  blockNum : Nat
  offset : Nat

abbrev Traced := StateT (List PointerRead) Fallible

namespace Ext2SuperBlock

def readPointerTraced (superblock : Ext2SuperBlock) (blockNum index : Nat) : Traced Nat := do
  modify (· ++ [⟨blockNum, index * 4⟩])
  liftM (superblock.readPointer blockNum index)

/-- `resolve_block_ptr` with a record of its reads. -/
def resolveBlockPtrTraced (superblock : Ext2SuperBlock) (blocks : Nat → Nat) (blockIdx : Nat) :
    Traced Nat :=
  resolveWith (liftM (liftM superblock.blockSize : Fallible Nat)) superblock.readPointerTraced
    blocks blockIdx

end Ext2SuperBlock

section Traced

variable {superblock : Ext2SuperBlock} {blocks : Nat → Nat}

theorem traced_lift {α β : Type} {call : Checked α} {rest : α → Traced β} {value : α}
    (returned : call = .ok value) (trace : List PointerRead) :
    ((liftM (liftM call : Fallible α) : Traced α) >>= rest).run trace = (rest value).run trace := by
  rw [returned]
  rfl

theorem traced_bind {α β : Type} {call : Traced α} {rest : α → Traced β} {value : α}
    {trace after : List PointerRead} (returned : call.run trace = .ok (.ok (value, after))) :
    (call >>= rest).run trace = (rest value).run after := by
  rw [StateT.run_bind, returned]
  rfl

@[simp] theorem run_readPointerTraced (blockNum index : Nat) (trace : List PointerRead) :
    (superblock.readPointerTraced blockNum index).run trace =
      (·, trace ++ [⟨blockNum, index * 4⟩]) <$> superblock.readPointer blockNum index := by
  simp [Ext2SuperBlock.readPointerTraced]

theorem resolveBlockPtrTraced_fst (blockIdx : Nat) (trace : List PointerRead) :
    Prod.fst <$> (superblock.resolveBlockPtrTraced blocks blockIdx).run trace =
      superblock.resolveBlockPtr blocks blockIdx := by
  dsimp only [Ext2SuperBlock.resolveBlockPtrTraced, Ext2SuperBlock.resolveBlockPtr, resolveWith]
  by_cases direct : blockIdx < ndirBlocks
  · rw [if_pos direct, if_pos direct]
    simp
  · rw [if_neg direct, if_neg direct]
    simp only [StateT.run_bind, StateT.run_monadLift, monadLift_self, bind_pure_comp,
      bind_map_left, map_bind]
    refine bind_congr fun size => ?_
    split_ifs with single _ _ _ <;> simp
    refine bind_congr fun l1Ptr => ?_
    split_ifs <;> simp

variable {size : Nat} {contents : ByteMemory}

/-- The read of an entry of a pointer block that may be missing. -/
def entryReads (pointer index : Nat) : List PointerRead :=
  if pointer = 0 then [] else [⟨pointer, index * 4⟩]

theorem entryReads_inside {index : Nat} (inBlock : index < size / 4) (pointer : Nat) :
    ∀ read ∈ entryReads pointer index, read.offset + 4 ≤ size := by
  intro read mem
  unfold entryReads at mem
  split_ifs at mem with hole
  · cases mem
  · cases List.mem_singleton.mp mem
    dsimp only
    omega

def Slot.reads (contents : ByteMemory) (size : Nat) (blocks : Nat → Nat) : Slot → List PointerRead
  | .direct _ => []
  | .single index => entryReads (blocks ndirBlocks) index
  | .double outer inner =>
      entryReads (blocks (ndirBlocks + 1)) outer ++
        entryReads (entry contents size (blocks (ndirBlocks + 1)) outer) inner

def slotReads (contents : ByteMemory) (size : Nat) (blocks : Nat → Nat) (index : Nat) :
    List PointerRead :=
  match slotOf size index with
  | some slot => slot.reads contents size blocks
  | none => []

section

variable (reads : Reads superblock.volume contents) (sized : superblock.Sized size)

include reads sized

theorem entry_traced (pointer : Nat) {index : Nat} (inBlock : index < size / 4)
    (trace : List PointerRead) :
    (if pointer = 0 then pure 0 else superblock.readPointerTraced pointer index : Traced Nat).run
        trace =
      .ok (.ok (entry contents size pointer index, trace ++ entryReads pointer index)) := by
  unfold entry entryReads
  by_cases hole : pointer = 0
  · rw [if_pos hole, if_pos hole, if_pos hole, List.append_nil]
    rfl
  · rw [if_neg hole, if_neg hole, if_neg hole, run_readPointerTraced,
      readPointer_reads reads sized _ inBlock]
    rfl

theorem resolveBlockPtrTraced_run (index : Nat) :
    (superblock.resolveBlockPtrTraced blocks index).run [] =
      .ok (.ok (slotPointer contents size blocks index, slotReads contents size blocks index)) := by
  have positive : 0 < size / 4 := by
    rcases sized.supported with rfl | rfl | rfl <;> decide
  dsimp only [Ext2SuperBlock.resolveBlockPtrTraced, resolveWith, slotPointer, slotReads, slotOf]
  by_cases direct : index < ndirBlocks
  · rw [if_pos direct, if_pos direct]
    rfl
  · rw [if_neg direct, if_neg direct, traced_lift sized.blockSize_eq]
    by_cases single : index - ndirBlocks < size / 4
    · rw [if_pos single, if_pos single, entry_traced reads sized _ single]
      rfl
    · rw [if_neg single, if_neg single]
      by_cases double : index - ndirBlocks - size / 4 < size / 4 * (size / 4)
      · have outer : (index - ndirBlocks - size / 4) / (size / 4) < size / 4 :=
          Nat.div_lt_of_lt_mul double
        have inner := Nat.mod_lt (index - ndirBlocks - size / 4) positive
        rw [if_pos double, if_pos double]
        dsimp only [Slot.pointer, Slot.reads]
        have first := entry_traced reads sized (blocks (ndirBlocks + 1)) outer []
        by_cases hole : blocks (ndirBlocks + 1) = 0
        · rw [if_pos hole, hole]
          rfl
        · rw [if_neg hole] at first
          rw [if_neg hole, traced_bind first, entry_traced reads sized _ inner]
          rfl
      · rw [if_neg double, if_neg double]
        rfl

theorem resolveBlockPtr_slot (index : Nat) :
    superblock.resolveBlockPtr blocks index =
      .ok (.ok (slotPointer contents size blocks index)) := by
  rw [← resolveBlockPtrTraced_fst index [], resolveBlockPtrTraced_run reads sized]
  rfl

end

theorem slotReads_inside (positive : 0 < size / 4) (index : Nat) :
    ∀ read ∈ slotReads contents size blocks index, read.offset + 4 ≤ size := by
  dsimp only [slotReads, slotOf]
  split_ifs with direct single double <;> dsimp only [Slot.reads]
  · exact nofun
  · exact entryReads_inside single _
  · intro read mem
    rcases List.mem_append.mp mem with first | second
    · exact entryReads_inside (Nat.div_lt_of_lt_mul double) _ read first
    · exact entryReads_inside (Nat.mod_lt _ positive) _ read second
  · exact nofun

/-- `resolve_block_ptr` returns the pointer in the slot of the index, zero
behind the last slot; every read on the way lies in its block; and indices with
slots do not share them. -/
theorem resolveBlockPtr_tree (reads : Reads superblock.volume contents)
    (sized : superblock.Sized size) (index : Nat) :
    superblock.resolveBlockPtr blocks index =
        .ok (.ok (slotPointer contents size blocks index)) ∧
      (∃ path, (superblock.resolveBlockPtrTraced blocks index).run [] =
          .ok (.ok (slotPointer contents size blocks index, path)) ∧
        ∀ read ∈ path, read.offset + 4 ≤ size) ∧
      (index < slotCount size → (slotOf size index).isSome ∧
        ∀ other, slotOf size index = slotOf size other → index = other) ∧
      (slotCount size ≤ index → slotPointer contents size blocks index = 0) := by
  have positive : 0 < size / 4 := by
    rcases sized.supported with rfl | rfl | rfl <;> decide
  refine ⟨resolveBlockPtr_slot reads sized index,
    ⟨_, resolveBlockPtrTraced_run reads sized index, slotReads_inside positive index⟩, ?_, ?_⟩
  · intro inRange
    refine ⟨?_, fun other shared => slotOf_injective inRange shared⟩
    rw [Option.isSome_iff_ne_none, Ne, slotOf_eq_none_iff]
    exact Nat.not_le.mpr inRange
  · intro beyond
    rw [slotPointer, (slotOf_eq_none_iff index).mpr beyond]

end Traced

/-- Index 268 + 300 of a file on a volume of ones has the pointer in entry 44 of
the block at entry 1 of the double indirect block. -/
theorem onesVolume_double :
    let superblock : Ext2SuperBlock := { smallSuperBlock with volume := fun _ => .ok fun _ => 1 }
    superblock.resolveBlockPtr (fun _ => 7) 568 = .ok (.ok 0x01010101) ∧
      slotOf 1024 568 = some (.double 1 44) := by
  have sized : ({ smallSuperBlock with volume := fun _ => .ok fun _ => 1 } :
      Ext2SuperBlock).Sized 1024 := ⟨rfl, Or.inl rfl⟩
  have reads : Reads (fun _ => .ok fun _ => 1) fun _ => 1 := fun _ => ⟨_, rfl, fun _ _ => rfl⟩
  obtain ⟨returned, -⟩ := @resolveBlockPtr_tree _ (fun _ => 7) _ _ reads sized 568
  exact ⟨returned, by decide⟩

end NanoOs.Ext2
