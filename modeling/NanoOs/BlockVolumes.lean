import NanoOs.BlockDispatcher
import NanoOs.ByteMemory
import NanoOs.CheckedArithmetic

/-!
# Block volumes

The partitions of a disk as volumes.  A read of a volume hands requests to the
dispatcher of the disk, which is given by its answers.
-/

namespace NanoOs.BlockVolumes

open BlockDisk (BlockError Buffer PendingRequest)

def blockSize : Nat := 512

def cacheBlockSize : Nat := 4096

def mbrSignature : Nat := 0xaa55
def mbrSignatureOffset : Nat := 510
def mbrPartitionTableOffset : Nat := 446
def mbrPartitionEntrySize : Nat := 16
def partitionTypeOffset : Nat := 4
def partitionLbaOffset : Nat := 8
def partitionSectorsOffset : Nat := 12

structure Partition where
  number : Nat
  lbaStart : Nat
  numSectors : Nat
  lbaStart_lt : lbaStart < 2 ^ 32
  numSectors_lt : numSectors < 2 ^ 32
  deriving DecidableEq

/-- The entry at an index of the partition table, unless it is empty. -/
def parseEntry (block0 : ByteMemory) (index : Nat) : Option Partition :=
  let offset := mbrPartitionTableOffset + index * mbrPartitionEntrySize
  if block0 (offset + partitionTypeOffset) = 0 ∧
      block0.readWord (offset + partitionSectorsOffset) 4 = 0 then
    none
  else
    some
      { number := index + 1
        lbaStart := block0.readWord (offset + partitionLbaOffset) 4
        numSectors := block0.readWord (offset + partitionSectorsOffset) 4
        lbaStart_lt := ByteMemory.readWord_lt block0 _ 4
        numSectors_lt := ByteMemory.readWord_lt block0 _ 4 }

/-- The partitions of the master boot record in sector 0. -/
def parseMbr (block0 : ByteMemory) : List Partition :=
  if block0.readWord mbrSignatureOffset 2 ≠ mbrSignature then
    []
  else
    (List.range 4).filterMap (parseEntry block0)

/-- What a read hands to the dispatcher, and what it returns: the bytes of the
buffer, or an error. -/
structure VolumeRead where
  requests : List PendingRequest
  result : Except BlockError ByteMemory

abbrev Answers := PendingRequest → Except BlockError ByteMemory

section Reads

variable (answers : Answers) (requesterTid : Nat)

/-- `BlockDisk::read_blocks`. -/
def diskReadBlocks (lba : Nat) (buffer : Buffer) : VolumeRead :=
  let request : PendingRequest := ⟨lba % 2 ^ 32, buffer, requesterTid⟩
  ⟨[request], answers request⟩

namespace Partition

/-- `PartitionVolume::read_blocks`. -/
def readBlocks (partition : Partition) (lba : Nat) (buffer : Buffer) : Checked VolumeRead := do
  let sectors := buffer.length / blockSize
  let stop ← checkedAdd lba sectors
  if stop > partition.numSectors then
    .ok ⟨[], .error .invalidInput⟩
  else
    let diskLba ← checkedAdd partition.lbaStart lba
    .ok (diskReadBlocks answers requesterTid diskLba buffer)

/-- `get_block` into a fresh buffer at an address. -/
def getBlock (partition : Partition) (address lba : Nat) : Checked VolumeRead := do
  ensure (address ≠ 0) "BlockBuf: allocation failed"
  partition.readBlocks answers requesterTid lba ⟨address, cacheBlockSize⟩

end Partition

end Reads

/-- The read is refused with no request exactly when it runs past the end of the
partition, and otherwise makes one request, for the sectors of the partition. -/
def Contained (partition : Partition) (requesterTid lba : Nat) (buffer : Buffer) : Prop :=
  ∀ answers : Answers,
    (partition.numSectors < lba + buffer.length / blockSize ∧
      partition.readBlocks answers requesterTid lba buffer =
        .ok ⟨[], .error .invalidInput⟩) ∨
    (lba + buffer.length / blockSize ≤ partition.numSectors ∧
      let request : PendingRequest := ⟨partition.lbaStart + lba, buffer, requesterTid⟩
      partition.readBlocks answers requesterTid lba buffer = .ok ⟨[request], answers request⟩)

section Contained

variable {answers : Answers} {partition : Partition} {requesterTid lba : Nat} {buffer : Buffer}

theorem readBlocks_overflow (wraps : 2 ^ 64 ≤ lba + buffer.length / blockSize) :
    partition.readBlocks answers requesterTid lba buffer = .error .overflow := by
  have stops : checkedAdd lba (buffer.length / blockSize) = .error .overflow :=
    if_neg (Nat.not_lt.mpr wraps)
  dsimp only [Partition.readBlocks]
  rw [stops]
  rfl

theorem readBlocks_refused (fits : lba + buffer.length / blockSize < 2 ^ 64)
    (outside : partition.numSectors < lba + buffer.length / blockSize) :
    partition.readBlocks answers requesterTid lba buffer = .ok ⟨[], .error .invalidInput⟩ := by
  dsimp only [Partition.readBlocks]
  rw [checkedAdd_bind fits, if_pos outside]

theorem readBlocks_inside (inside : lba + buffer.length / blockSize ≤ partition.numSectors) :
    partition.readBlocks answers requesterTid lba buffer =
      .ok (diskReadBlocks answers requesterTid (partition.lbaStart + lba) buffer) := by
  have startBound := partition.lbaStart_lt
  have sectorBound := partition.numSectors_lt
  have first : lba ≤ partition.numSectors := Nat.le_of_add_right_le inside
  dsimp only [Partition.readBlocks]
  rw [checkedAdd_bind (by omega), if_neg (Nat.not_lt.mpr inside),
    checkedAdd_bind (by omega)]

end Contained

/-- A read of a partition is contained in it exactly when the end of the read
fits a word and the first sector on the disk fits 32 bits. -/
theorem contained_iff (partition : Partition) (requesterTid lba : Nat) (buffer : Buffer) :
    Contained partition requesterTid lba buffer ↔
      lba + buffer.length / blockSize < 2 ^ 64 ∧
        (lba + buffer.length / blockSize ≤ partition.numSectors →
          partition.lbaStart + lba < 2 ^ 32) := by
  constructor
  · intro contained
    have fits : lba + buffer.length / blockSize < 2 ^ 64 := by
      by_contra wraps
      rcases contained fun _ => .error .ioError with ⟨-, returned⟩ | ⟨-, returned⟩
      all_goals
        rw [readBlocks_overflow (Nat.not_lt.mp wraps)] at returned
        cases returned
    refine ⟨fits, ?_⟩
    intro inside
    rcases contained fun _ => .error .ioError with ⟨outside, -⟩ | ⟨-, returned⟩
    · omega
    · rw [readBlocks_inside inside] at returned
      simp only [diskReadBlocks, Except.ok.injEq, VolumeRead.mk.injEq, List.cons.injEq,
        PendingRequest.mk.injEq, and_true] at returned
      rw [← returned]
      exact Nat.mod_lt _ (by norm_num)
  · rintro ⟨fits, small⟩ answers
    rcases Nat.lt_or_ge partition.numSectors (lba + buffer.length / blockSize) with outside | inside
    · exact Or.inl ⟨outside, readBlocks_refused fits outside⟩
    · refine Or.inr ⟨inside, ?_⟩
      rw [readBlocks_inside inside, diskReadBlocks, Nat.mod_eq_of_lt (small inside)]

/-- A boot record whose first entry starts at the last sector that 32 bits
number, with two sectors. -/
def wrappingMbr : ByteMemory :=
  let zero : ByteMemory := fun _ => 0
  let signed := zero.writeWord mbrSignatureOffset 2 mbrSignature
  let typed := signed.writeWord (mbrPartitionTableOffset + partitionTypeOffset) 1 0x83
  let placed := typed.writeWord (mbrPartitionTableOffset + partitionLbaOffset) 4 0xffff_ffff
  placed.writeWord (mbrPartitionTableOffset + partitionSectorsOffset) 4 2

/-- The second sector of that partition is read from sector 0 of the disk, and
the last sector number makes the bounds check overflow. -/
theorem wrappingMbr_escapes : ∃ partition ∈ parseMbr wrappingMbr,
    partition.lbaStart = 0xffff_ffff ∧ partition.numSectors = 2 ∧
      (∀ answers, (partition.readBlocks answers 1 1 ⟨0x1000, 512⟩).map VolumeRead.requests =
        .ok [⟨0, ⟨0x1000, 512⟩, 1⟩]) ∧
      (∀ answers, partition.readBlocks answers 1 0xffff_ffff_ffff_ffff ⟨0x1000, 512⟩ =
        .error .overflow) ∧
      ¬ Contained partition 1 1 ⟨0x1000, 512⟩ := by
  refine ⟨⟨1, 0xffff_ffff, 2, by decide, by decide⟩, by decide, rfl, rfl, fun _ => rfl,
    fun _ => rfl, ?_⟩
  intro contained
  rcases contained fun _ => .error .ioError with ⟨outside, -⟩ | ⟨-, returned⟩
  · exact absurd outside (by decide)
  · have sectors := congrArg (Except.map fun read => read.requests.map (·.sector)) returned
    exact absurd sectors (by decide)

end NanoOs.BlockVolumes
