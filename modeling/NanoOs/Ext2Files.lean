import NanoOs.Ext2SuperBlock
import NanoOs.Files

/-!
# Reading ext2 files

The block map of an inode and the reads of its file, and the bytes that the block
tree on the volume gives the file.
-/

namespace NanoOs.Ext2

open BlockDisk (BlockError)
open BlockVolumes (cacheBlockSize)
open Files

abbrev Fallible := ExceptT BlockError Checked

/-- The data of an ext2 inode: its superblock and the array `i_block`. -/
structure Ext2InodeData where
  superblock : Ext2SuperBlock
  blocks : Nat → Nat

def ndirBlocks : Nat := 12

/-- `read_u32_le` of a cache unit. -/
def readU32Le (buf : ByteMemory) (offset : Nat) : Checked Nat := do
  ensure (offset + 4 ≤ cacheBlockSize) "range end index out of range"
  .ok (buf.readWord offset 4)

/-- `read_u16_le` of a cache unit. -/
def readU16Le (buf : ByteMemory) (offset : Nat) : Checked Nat := do
  ensure (offset + 2 ≤ cacheBlockSize) "range end index out of range"
  .ok (buf.readWord offset 2)

theorem readU32Le_of_le (buf : ByteMemory) {offset : Nat} (inside : offset + 4 ≤ cacheBlockSize) :
    readU32Le buf offset = .ok (buf.readWord offset 4) := by
  rw [readU32Le, ensure_bind inside]

theorem readU16Le_of_le (buf : ByteMemory) {offset : Nat} (inside : offset + 2 ≤ cacheBlockSize) :
    readU16Le buf offset = .ok (buf.readWord offset 2) := by
  rw [readU16Le, ensure_bind inside]

/-- The choice of pointers of `resolve_block_ptr`, over the reading of an entry
of a pointer block. -/
def resolveWith {m : Type → Type} [Monad m] (blockSize : m Nat) (readPointer : Nat → Nat → m Nat)
    (blocks : Nat → Nat) (blockIdx : Nat) : m Nat :=
  if blockIdx < ndirBlocks then
    pure (blocks blockIdx)
  else do
    let size ← blockSize
    let ptrsPerBlock := size / 4
    let indirectIdx := blockIdx - ndirBlocks
    if indirectIdx < ptrsPerBlock then
      let indirectPtr := blocks ndirBlocks
      if indirectPtr = 0 then pure 0 else readPointer indirectPtr indirectIdx
    else
      let doubleIdx := indirectIdx - ptrsPerBlock
      if doubleIdx < ptrsPerBlock * ptrsPerBlock then
        let dindirectPtr := blocks (ndirBlocks + 1)
        if dindirectPtr = 0 then
          pure 0
        else do
          let l1Ptr ← readPointer dindirectPtr (doubleIdx / ptrsPerBlock)
          if l1Ptr = 0 then pure 0 else readPointer l1Ptr (doubleIdx % ptrsPerBlock)
      else
        pure 0

namespace Ext2SuperBlock

def getBlock (superblock : Ext2SuperBlock) (blockNum : Nat) : Fallible ByteMemory := do
  let sector ← superblock.blockToSector blockNum
  ExceptT.mk (.ok (superblock.volume sector))

def readPointer (superblock : Ext2SuperBlock) (blockNum index : Nat) : Fallible Nat := do
  let buf ← superblock.getBlock blockNum
  readU32Le buf (index * 4)

def resolveBlockPtr (superblock : Ext2SuperBlock) (blocks : Nat → Nat) (blockIdx : Nat) :
    Fallible Nat :=
  resolveWith (liftM superblock.blockSize) superblock.readPointer blocks blockIdx

end Ext2SuperBlock

/-- The variables of the loop of `read`. -/
structure ReadState where
  offset : Nat
  bufPos : Nat
  buf : ByteMemory

def ReadState.copy (state : ReadState) (blockBuf : ByteMemory) (blockOffset copyLen : Nat) :
    ReadState where
  offset := state.offset + copyLen
  bufPos := state.bufPos + copyLen
  buf := fun index =>
    if state.bufPos ≤ index ∧ index < state.bufPos + copyLen then
      blockBuf (blockOffset + (index - state.bufPos))
    else
      state.buf index

def readLoop (data : Ext2InodeData) (fileLen bufLen size : Nat) :
    Nat → ReadState → Checked (ReadState × Except FileError Nat)
  | 0, _ => .error .diverged
  | fuel + 1, state =>
      if state.bufPos < bufLen ∧ state.offset < fileLen then do
        ensure (size ≠ 0) "attempt to divide by zero"
        let blockIdx := state.offset / size
        match ← (data.superblock.resolveBlockPtr data.blocks blockIdx).run with
        | .error _ => .ok (state, .error .invalidInput)
        | .ok blockPtr =>
            if blockPtr = 0 then
              .ok (state, .ok state.bufPos)
            else do
              match ← (data.superblock.getBlock blockPtr).run with
              | .error _ => .ok (state, .error .invalidInput)
              | .ok blockBuf => do
                  let blockOffset := state.offset % size
                  let copyLen := min (min (size - blockOffset) (fileLen - state.offset))
                    (bufLen - state.bufPos)
                  ensure (blockOffset + copyLen ≤ cacheBlockSize) "range end index out of range"
                  readLoop data fileLen bufLen size fuel
                    (state.copy blockBuf blockOffset copyLen)
      else
        .ok (state, .ok state.bufPos)

/-- `Ext2FileOps::read` into a buffer with given length and bytes. -/
def read (file : File Ext2InodeData) (bufLen : Nat) (buf : ByteMemory) :
    Checked (ReadOutcome Ext2InodeData) :=
  if file.inode.fileType ≠ .regularFile then
    .ok ⟨file, buf, .error .invalidInput⟩
  else if file.offset ≥ file.inode.len ∨ bufLen = 0 then
    .ok ⟨file, buf, .ok 0⟩
  else do
    let size ← file.inode.fsData.superblock.blockSize
    let (state, result) ← readLoop file.inode.fsData file.inode.len bufLen size (bufLen + 1)
      ⟨file.offset, 0, buf⟩
    .ok ⟨{ file with offset := state.offset }, state.buf, result⟩

/-- The pointer that a tree of pointer blocks of a height gives an index, where
a zero pointer stands for an empty tree. -/
def treePointer (contents : ByteMemory) (size : Nat) : Nat → Nat → Nat → Nat
  | 0, pointer, _ => pointer
  | height + 1, pointer, index =>
      let span := (size / 4) ^ height
      if pointer = 0 then 0
      else
        treePointer contents size height
          (contents.readWord (pointer * size + index / span * 4) 4) (index % span)

/-- The block of a file at an index: direct, or below the first or the second
indirect block. -/
def blockPointer (contents : ByteMemory) (size : Nat) (blocks : Nat → Nat) (index : Nat) : Nat :=
  let indirect := index - ndirBlocks
  if index < ndirBlocks then blocks index
  else if indirect < size / 4 then treePointer contents size 1 (blocks ndirBlocks) indirect
  else treePointer contents size 2 (blocks (ndirBlocks + 1)) (indirect - size / 4)

/-- The byte of a file at a position, zero where no block is allocated. -/
def fileByte (contents : ByteMemory) (size : Nat) (blocks : Nat → Nat) (position : Nat) : UInt8 :=
  let pointer := blockPointer contents size blocks (position / size)
  if pointer = 0 then 0 else contents (pointer * size + position % size)

/-- The volume reads without error and has the given contents. -/
def Reads (volume : BlockVolume) (contents : ByteMemory) : Prop :=
  ∀ sector, ∃ buf, volume sector = .ok buf ∧
    ∀ index < cacheBlockSize, buf index = contents (sector * 512 + index)

section Fallible

variable {α β : Type} {rest : α → Fallible β} {call : Checked α}

theorem fallible_bind {call : Fallible α} {value : α} (returned : call = .ok (.ok value)) :
    (call >>= rest) = rest value := by
  rw [returned]
  rfl

theorem fallible_lift {value : α} (returned : call = .ok value) :
    ((liftM call : Fallible α) >>= rest) = rest value := by
  rw [returned]
  rfl

def Completes (call : Fallible α) : Prop := ∃ result, call = .ok result

@[simp] theorem completes_pure (value : α) : Completes (pure value) := ⟨_, rfl⟩

theorem completes_ite {condition : Prop} [Decidable condition] {first second : Fallible α}
    (firstCompletes : Completes first) (secondCompletes : Completes second) :
    Completes (if condition then first else second) := by
  split
  · exact firstCompletes
  · exact secondCompletes

theorem completes_bind {call : Fallible α} :
    Completes (call >>= rest) ↔
      Completes call ∧ ∀ value, call = .ok (.ok value) → Completes (rest value) := by
  cases call with
  | error fault => exact ⟨fun ⟨_, ran⟩ => (nomatch ran), fun ⟨⟨_, ran⟩, _⟩ => (nomatch ran)⟩
  | ok result =>
    cases result with
    | error error => exact ⟨fun _ => ⟨⟨_, rfl⟩, nofun⟩, fun _ => ⟨.error error, rfl⟩⟩
    | ok value =>
      constructor
      · rintro completes
        refine ⟨⟨_, rfl⟩, ?_⟩
        rintro _ ⟨⟩
        exact completes
      · rintro ⟨-, completes⟩
        exact completes value rfl

theorem completes_lift : Completes (liftM call : Fallible α) ↔ ∃ value, call = .ok value := by
  cases call with
  | error fault => exact ⟨fun ⟨_, ran⟩ => (nomatch ran), fun ⟨_, ran⟩ => (nomatch ran)⟩
  | ok value => exact ⟨fun _ => ⟨value, rfl⟩, fun _ => ⟨.ok value, rfl⟩⟩

theorem lift_bind_eq_ok_iff {result : Except BlockError β} :
    ((liftM call : Fallible α) >>= rest) = .ok result ↔
      ∃ value, call = .ok value ∧ rest value = .ok result := by
  cases call with
  | error fault => exact ⟨fun ran => (nomatch ran), fun ⟨_, ran, _⟩ => (nomatch ran)⟩
  | ok value =>
    constructor
    · exact fun ran => ⟨value, rfl, ran⟩
    · rintro ⟨_, ⟨⟩, ran⟩
      exact ran

theorem completes_lift_bind :
    Completes ((liftM call : Fallible α) >>= rest) ↔
      ∃ value, call = .ok value ∧ Completes (rest value) := by
  simp only [Completes, lift_bind_eq_ok_iff]
  rw [exists_comm]
  simp only [exists_and_left]

theorem completes_ensure_bind {condition : Prop} [Decidable condition] {message : String}
    {rest : Unit → Fallible β} :
    Completes ((liftM (ensure condition message) : Fallible Unit) >>= rest) ↔
      condition ∧ Completes (rest ()) := by
  rw [completes_lift_bind]
  simp only [ensure_eq_ok, Unique.exists_iff]

theorem completes_answer_bind {answer : Except BlockError α} :
    Completes (ExceptT.mk (.ok answer) >>= rest) ↔
      ∀ value, answer = .ok value → Completes (rest value) := by
  cases answer with
  | error error => exact ⟨fun _ => nofun, fun _ => ⟨.error error, rfl⟩⟩
  | ok value =>
    constructor
    · rintro completes _ ⟨⟩
      exact completes
    · exact fun completes => completes value rfl

end Fallible

section Resolve

variable {superblock : Ext2SuperBlock} {size : Nat} {contents : ByteMemory} {blocks : Nat → Nat}

theorem getBlock_reads (reads : Reads superblock.volume contents) (sized : superblock.Sized size)
    (blockNum : Nat) : ∃ buf, superblock.getBlock blockNum = .ok (.ok buf) ∧
      ∀ index < cacheBlockSize, buf index = contents (blockNum * size + index) := by
  obtain ⟨buf, found, bytes⟩ := reads (blockNum * size / 512)
  refine ⟨buf, ?_, ?_⟩
  · unfold Ext2SuperBlock.getBlock
    rw [fallible_lift (sized.blockToSector_eq blockNum), found]
    rfl
  · intro index inUnit
    rw [bytes index inUnit, sized.sector_start]

variable {index : Nat}

theorem readPointer_reads (reads : Reads superblock.volume contents)
    (sized : superblock.Sized size) (blockNum : Nat) (inBlock : index < size / 4) :
    superblock.readPointer blockNum index =
      .ok (.ok (contents.readWord (blockNum * size + index * 4) 4)) := by
  obtain ⟨buf, found, bytes⟩ := getBlock_reads reads sized blockNum
  have inUnit : index * 4 + 4 ≤ cacheBlockSize := by
    unfold cacheBlockSize
    rcases sized.supported with rfl | rfl | rfl <;> omega
  have word : buf.readWord (index * 4) 4 = contents.readWord (blockNum * size + index * 4) 4 := by
    apply ByteMemory.readWord_translate
    intro offset bound
    rw [bytes _ (by omega), Nat.add_assoc]
  unfold Ext2SuperBlock.readPointer
  rw [fallible_bind found, readU32Le_of_le buf inUnit, word]
  rfl

theorem treePointer_one (pointer index : Nat) :
    treePointer contents size 1 pointer index =
      if pointer = 0 then 0 else contents.readWord (pointer * size + index * 4) 4 := by
  simp only [treePointer, pow_zero, Nat.div_one]

theorem treePointer_two (pointer index : Nat) :
    treePointer contents size 2 pointer index =
      if pointer = 0 then 0
      else treePointer contents size 1
        (contents.readWord (pointer * size + index / (size / 4) * 4) 4) (index % (size / 4)) := by
  rw [treePointer, pow_one]

theorem readPointer_treePointer (reads : Reads superblock.volume contents)
    (sized : superblock.Sized size) (pointer : Nat) (inBlock : index < size / 4) :
    (if pointer = 0 then pure 0 else superblock.readPointer pointer index) =
      (.ok (.ok (treePointer contents size 1 pointer index)) : Fallible Nat) := by
  rw [treePointer_one]
  by_cases hole : pointer = 0
  · rw [if_pos hole, if_pos hole]
    rfl
  · rw [if_neg hole, if_neg hole, readPointer_reads reads sized _ inBlock]

theorem Ext2SuperBlock.Sized.getBlock_completes (sized : superblock.Sized size) (blockNum : Nat) :
    Completes (superblock.getBlock blockNum) := by
  unfold Ext2SuperBlock.getBlock
  rw [fallible_lift (sized.blockToSector_eq blockNum)]
  exact ⟨_, rfl⟩

theorem Ext2SuperBlock.Sized.readPointer_completes (sized : superblock.Sized size)
    (blockNum : Nat) (inBlock : index < size / 4) :
    Completes (superblock.readPointer blockNum index) := by
  have inUnit : index * 4 + 4 ≤ cacheBlockSize := by
    unfold cacheBlockSize
    rcases sized.supported with rfl | rfl | rfl <;> omega
  refine completes_bind.mpr ⟨sized.getBlock_completes blockNum, fun buf _ => ?_⟩
  exact completes_lift.mpr ⟨_, readU32Le_of_le buf inUnit⟩

theorem Ext2SuperBlock.Sized.resolveBlockPtr_completes (sized : superblock.Sized size)
    (blocks : Nat → Nat) (index : Nat) : Completes (superblock.resolveBlockPtr blocks index) := by
  have positive : 0 < size / 4 := by
    rcases sized.supported with rfl | rfl | rfl <;> decide
  dsimp only [Ext2SuperBlock.resolveBlockPtr, resolveWith]
  by_cases direct : index < ndirBlocks
  · rw [if_pos direct]
    exact completes_pure _
  · rw [if_neg direct, fallible_lift sized.blockSize_eq]
    by_cases single : index - ndirBlocks < size / 4
    · rw [if_pos single]
      exact completes_ite (completes_pure 0) (sized.readPointer_completes _ single)
    · rw [if_neg single]
      by_cases double : index - ndirBlocks - size / 4 < size / 4 * (size / 4)
      · rw [if_pos double]
        have outer := sized.readPointer_completes (blocks (ndirBlocks + 1))
          (Nat.div_lt_of_lt_mul double)
        refine completes_ite (completes_pure 0) (completes_bind.mpr ⟨outer, fun l1Ptr _ => ?_⟩)
        exact completes_ite (completes_pure 0)
          (sized.readPointer_completes l1Ptr (Nat.mod_lt _ positive))
      · rw [if_neg double]
        exact completes_pure 0

/-- Within the reach of the double indirect block the block map is the tree. -/
theorem resolveBlockPtr_eq (reads : Reads superblock.volume contents)
    (sized : superblock.Sized size)
    (inRange : index < ndirBlocks + size / 4 + size / 4 * (size / 4)) :
    superblock.resolveBlockPtr blocks index =
      .ok (.ok (blockPointer contents size blocks index)) := by
  have positive : 0 < size / 4 := by
    rcases sized.supported with rfl | rfl | rfl <;> decide
  dsimp only [Ext2SuperBlock.resolveBlockPtr, resolveWith, blockPointer]
  by_cases direct : index < ndirBlocks
  · rw [if_pos direct, if_pos direct]
    rfl
  · rw [if_neg direct, if_neg direct, fallible_lift sized.blockSize_eq]
    by_cases single : index - ndirBlocks < size / 4
    · rw [if_pos single, if_pos single, readPointer_treePointer reads sized _ single]
    · have double : index - ndirBlocks - size / 4 < size / 4 * (size / 4) := by omega
      have outer : (index - ndirBlocks - size / 4) / (size / 4) < size / 4 :=
        Nat.div_lt_of_lt_mul double
      rw [if_neg single, if_neg single, if_pos double, treePointer_two]
      by_cases hole : blocks (ndirBlocks + 1) = 0
      · rw [if_pos hole, if_pos hole]
        rfl
      · rw [if_neg hole, if_neg hole, fallible_bind (readPointer_reads reads sized _ outer),
          readPointer_treePointer reads sized _ (Nat.mod_lt _ positive)]

end Resolve

theorem copyLen_spec {size blockOffset toEnd toFill copyLen : Nat} (inside : blockOffset < size)
    (someLeft : 0 < toEnd) (someRoom : 0 < toFill)
    (isLen : min (min (size - blockOffset) toEnd) toFill = copyLen) :
    0 < copyLen ∧ blockOffset + copyLen ≤ size ∧ copyLen ≤ min toFill toEnd ∧
      min (toFill - copyLen) (toEnd - copyLen) = min toFill toEnd - copyLen := by
  omega

/-- A file of two blocks of 1024 bytes, at the given pointers, on a volume whose
bytes are all one. -/
def twoBlockFile (first second : Nat) : File Ext2InodeData :=
  { offset := 0
    inode :=
      { ino := 12
        fileType := .regularFile
        len := 2048
        fsData :=
          { superblock := { smallSuperBlock with volume := fun _ => .ok fun _ => 1 }
            blocks := fun index =>
              if index = 0 then first else if index = 1 then second else 0 } } }

end NanoOs.Ext2
