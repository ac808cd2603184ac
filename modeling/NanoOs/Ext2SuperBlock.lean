import NanoOs.BlockVolumes

/-!
# The ext2 superblock

Block sizes and sectors of an ext2 file system, and which of its blocks can be
read through the volume of a partition.
-/

namespace NanoOs.Ext2

open BlockDisk (BlockError Buffer PendingRequest)
open BlockVolumes

/-- A volume, by what `get_block` returns for a sector. -/
abbrev BlockVolume := Nat → Except BlockError ByteMemory

structure Ext2SuperBlock where
  volume : BlockVolume
  blocksCount : Nat
  logBlockSize : Nat
  inodesPerGroup : Nat
  inodeSize : Nat
  groups : List Nat

def minBlockSize : Nat := 1024

namespace Ext2SuperBlock

def blockSize (superblock : Ext2SuperBlock) : Checked Nat :=
  if superblock.logBlockSize < 32 then
    .ok ((minBlockSize <<< superblock.logBlockSize) % 2 ^ 32)
  else
    .error .overflow

def blockToSector (superblock : Ext2SuperBlock) (blockNum : Nat) : Checked Nat := do
  let size ← superblock.blockSize
  .ok (blockNum * size / BlockVolumes.blockSize)

structure Sized (superblock : Ext2SuperBlock) (size : Nat) : Prop where
  blockSize_eq : superblock.blockSize = .ok size
  supported : size = 1024 ∨ size = 2048 ∨ size = 4096

variable {superblock : Ext2SuperBlock} {size : Nat}

theorem Sized.blockToSector_eq (sized : superblock.Sized size) (blockNum : Nat) :
    superblock.blockToSector blockNum = .ok (blockNum * size / 512) := by
  unfold blockToSector
  rw [sized.blockSize_eq, ok_bind]
  rfl

theorem Sized.sector_start (sized : superblock.Sized size) (blockNum : Nat) :
    blockNum * size / 512 * 512 = blockNum * size := by
  rcases sized.supported with rfl | rfl | rfl <;> omega

/-- A block ends with the cache unit at its sector, or the unit goes on. -/
theorem Sized.unit_end (sized : superblock.Sized size) (blockNum sectors : Nat) :
    blockNum * size / 512 + 8 ≤ sectors ↔ (blockNum + 1) * size + 4096 ≤ sectors * 512 + size := by
  rcases sized.supported with rfl | rfl | rfl <;> omega

end Ext2SuperBlock

/-- The disk answers every request for its sectors with their bytes. -/
def Works (answers : Answers) (disk : ByteMemory) : Prop :=
  ∀ request : PendingRequest, request.sector + request.buffer.length / 512 ≤ 2 ^ 32 →
    ∃ bytes, answers request = .ok bytes ∧
      ∀ index < request.buffer.length, bytes index = disk (request.sector * 512 + index)

/-- `get_block` returns the block of the file system on the partition. -/
def Readable (answers : Answers) (disk : ByteMemory) (partition : Partition)
    (superblock : Ext2SuperBlock) (requesterTid address blockNum : Nat) : Prop :=
  ∃ size sector requests bytes,
    superblock.blockSize = .ok size ∧ superblock.blockToSector blockNum = .ok sector ∧
      partition.getBlock answers requesterTid address sector = .ok ⟨requests, .ok bytes⟩ ∧
      ∀ index < size,
        bytes index = disk (partition.lbaStart * 512 + (blockNum * size + index))

section Readable

variable {answers : Answers} {disk : ByteMemory} {partition : Partition}
  {superblock : Ext2SuperBlock} {requesterTid address size : Nat}

/-- A block is readable exactly when the whole cache unit at its sector lies in
the partition. -/
theorem readable_iff_unit_inside (works : Works answers disk) (allocated : address ≠ 0)
    (onDisk : partition.lbaStart + partition.numSectors ≤ 2 ^ 32) (sized : superblock.Sized size)
    (blockNum : Nat) :
    Readable answers disk partition superblock requesterTid address blockNum ↔
      blockNum * size / 512 + 8 ≤ partition.numSectors := by
  have started := sized.sector_start blockNum
  have unit : (⟨address, cacheBlockSize⟩ : Buffer).length / BlockVolumes.blockSize = 8 := by
    norm_num [cacheBlockSize, BlockVolumes.blockSize]
  constructor
  · rintro ⟨_, sector, requests, bytes, -, sectorEq, got, -⟩
    rw [sized.blockToSector_eq] at sectorEq
    cases sectorEq
    by_contra outside
    unfold Partition.getBlock at got
    rw [ensure_bind allocated] at got
    rcases Nat.lt_or_ge (blockNum * size / 512 + 8) (2 ^ 64) with fits | wraps
    · rw [readBlocks_refused (by rw [unit]; exact fits) (by rw [unit]; omega)] at got
      cases got
    · rw [readBlocks_overflow (by rw [unit]; exact wraps)] at got
      cases got
  · intro inside
    have small : partition.lbaStart + blockNum * size / 512 < 2 ^ 32 := by omega
    let request : PendingRequest :=
      ⟨partition.lbaStart + blockNum * size / 512, ⟨address, cacheBlockSize⟩, requesterTid⟩
    obtain ⟨bytes, answered, bytesEq⟩ :=
      works request (by norm_num [request, cacheBlockSize]; omega)
    refine ⟨size, _, [request], bytes, sized.blockSize_eq, sized.blockToSector_eq blockNum, ?_, ?_⟩
    · unfold Partition.getBlock
      rw [ensure_bind allocated, readBlocks_inside (by rw [unit]; exact inside),
        diskReadBlocks, Nat.mod_eq_of_lt small, answered]
    · intro index inBlock
      have inUnit : index < cacheBlockSize := by
        unfold cacheBlockSize
        rcases sized.supported with rfl | rfl | rfl <;> omega
      rw [bytesEq index inUnit, Nat.add_mul, started, Nat.add_assoc]

/-- Every block of the file system is readable exactly when the partition goes
on behind its last block up to a whole cache unit. -/
theorem blocks_readable_iff (works : Works answers disk) (allocated : address ≠ 0)
    (onDisk : partition.lbaStart + partition.numSectors ≤ 2 ^ 32) (sized : superblock.Sized size) :
    (∀ blockNum < superblock.blocksCount,
        Readable answers disk partition superblock requesterTid address blockNum) ↔
      superblock.blocksCount = 0 ∨
        superblock.blocksCount * size + cacheBlockSize ≤ partition.numSectors * 512 + size := by
  simp only [readable_iff_unit_inside works allocated onDisk sized, sized.unit_end]
  change _ ↔ superblock.blocksCount = 0 ∨
    superblock.blocksCount * size + 4096 ≤ partition.numSectors * 512 + size
  constructor
  · intro inside
    rcases Nat.eq_zero_or_eq_succ_pred superblock.blocksCount with none | some
    · exact Or.inl none
    · rw [some]
      exact Or.inr (inside _ (by omega))
  · rintro (none | room) blockNum bound
    · omega
    · have upTo : (blockNum + 1) * size ≤ superblock.blocksCount * size :=
        Nat.mul_le_mul_right size bound
      omega

end Readable

def holding (disk : ByteMemory) : Answers := fun request =>
  .ok fun index => disk (request.sector * 512 + index)

theorem works_holding (disk : ByteMemory) : Works (holding disk) disk := fun _ _ =>
  ⟨_, rfl, fun _ _ => rfl⟩

def smallSuperBlock : Ext2SuperBlock :=
  { volume := fun _ => .error .ioError
    blocksCount := 4
    logBlockSize := 0
    inodesPerGroup := 8
    inodeSize := 128
    groups := [] }

theorem smallSuperBlock_sized : smallSuperBlock.Sized 1024 := ⟨rfl, Or.inl rfl⟩

/-- They are all readable in a partition of sixteen sectors. -/
theorem roomyPartition_readable :
    let disk : ByteMemory := fun location => UInt8.ofNat location
    let partition : Partition := ⟨1, 2048, 16, by decide, by decide⟩
    ∀ blockNum < 4,
      Readable (holding disk) disk partition smallSuperBlock 1 0x1000 blockNum :=
  (blocks_readable_iff (works_holding _) (by decide) (by decide) smallSuperBlock_sized).mpr
    (Or.inr (by decide))

/-- In a partition of eight sectors, which they fill, only the first is. -/
theorem tightPartition_refuses :
    let partition : Partition := ⟨1, 2048, 8, by decide, by decide⟩
    smallSuperBlock.blocksCount * 1024 ≤ partition.numSectors * 512 ∧
      smallSuperBlock.blockToSector 1 = .ok 2 ∧
      partition.getBlock (holding fun _ => 0) 1 0x1000 2 = .ok ⟨[], .error .invalidInput⟩ ∧
      ¬ Readable (holding fun _ => 0) (fun _ => 0) partition smallSuperBlock 1 0x1000 1 := by
  refine ⟨by decide, rfl, rfl, ?_⟩
  rw [readable_iff_unit_inside (works_holding _) (by decide) (by decide) smallSuperBlock_sized]
  decide

end NanoOs.Ext2
