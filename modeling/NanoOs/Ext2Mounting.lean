import NanoOs.Ext2Files
import NanoOs.Initramfs

/-!
# Mounting an ext2 volume

`Ext2SuperBlock::new` reads the superblock, the group descriptors, the size of the
journal and the root inode. Which volumes it can read without a panic is a
condition on a dozen fields of the disk.
-/

namespace NanoOs.Ext2

open BlockDisk (BlockError)
open BlockVolumes (cacheBlockSize)
open Files List
open Initramfs (sIfmt sIfreg sIfdir sIfchr sIfblk)

def rootInode : Nat := 2

def goodOldInodeSize : Nat := 128

def superblockSector : Nat := 1024 / BlockVolumes.blockSize

def superMagic : Nat := 0xEF53

def sbInodesCountOffset : Nat := 0
def sbBlocksCountOffset : Nat := 4
def sbLogBlockSizeOffset : Nat := 24
def sbBlocksPerGroupOffset : Nat := 32
def sbInodesPerGroupOffset : Nat := 40
def magicOffset : Nat := 56
def sbInodeSizeOffset : Nat := 88
def sbFeatureCompatOffset : Nat := 92
def volumeLabelOffset : Nat := 120
def volumeLabelLen : Nat := 16
def sbJournalInumOffset : Nat := 224
def ext3FeatureCompatHasJournal : Nat := 0x0004

def groupDescSize : Nat := 32
def gdt1kOffset : Nat := 2048
def gdInodeTableOffset : Nat := 8
def maxGroupsInBuffer : Nat := cacheBlockSize / groupDescSize

def inodeModeOffset : Nat := 0
def inodeSizeOffset : Nat := 4
def inodeBlocksOffset : Nat := 40

structure SuperBlockData where
  inodesCount : Nat
  blocksCount : Nat
  logBlockSize : Nat
  blocksPerGroup : Nat
  inodesPerGroup : Nat
  inodeSize : Nat
  volumeLabel : Option String
  journalInum : Option Nat

/-- The label up to its NUL, if it is not empty and valid UTF-8. -/
def volumeLabel (buf : ByteMemory) : Option String :=
  let labelBytes := (List.range volumeLabelLen).map fun index => buf (volumeLabelOffset + index)
  match labelBytes.findIdx? (· == 0) with
  | some nullPos =>
      if nullPos > 0 then String.fromUTF8? (labelBytes.take nullPos).toByteArray else none
  | none => none

def readSuperblockData (volume : BlockVolume) : Fallible SuperBlockData := do
  let buf ← ExceptT.mk (.ok (volume superblockSector))
  let magic ← readU16Le buf magicOffset
  if magic ≠ superMagic then
    throw .invalidInput
  else do
    let inodesCount ← readU32Le buf sbInodesCountOffset
    let blocksCount ← readU32Le buf sbBlocksCountOffset
    let logBlockSize ← readU32Le buf sbLogBlockSizeOffset
    let blocksPerGroup ← readU32Le buf sbBlocksPerGroupOffset
    let inodesPerGroup ← readU32Le buf sbInodesPerGroupOffset
    let inodeSize ← readU16Le buf sbInodeSizeOffset
    let featureCompat ← readU32Le buf sbFeatureCompatOffset
    let journalInum ←
      if featureCompat &&& ext3FeatureCompatHasJournal ≠ 0 then
        some <$> readU32Le buf sbJournalInumOffset
      else
        pure none
    pure
      { inodesCount := inodesCount
        blocksCount := blocksCount
        logBlockSize := logBlockSize
        blocksPerGroup := blocksPerGroup
        inodesPerGroup := inodesPerGroup
        inodeSize := if inodeSize = 0 then goodOldInodeSize else inodeSize
        volumeLabel := volumeLabel buf
        journalInum := journalInum }

namespace SuperBlockData

/-- The superblock with the inode tables of its groups, over a volume. -/
def superBlock (data : SuperBlockData) (volume : BlockVolume) (groups : List Nat) :
    Ext2SuperBlock where
  volume := volume
  blocksCount := data.blocksCount
  logBlockSize := data.logBlockSize
  inodesPerGroup := data.inodesPerGroup
  inodeSize := data.inodeSize
  groups := groups

def numGroups (data : SuperBlockData) : Checked Nat := do
  let sum ← checkedAdd32 data.blocksCount data.blocksPerGroup
  let last ← checkedSub sum 1
  ensure (data.blocksPerGroup ≠ 0) "attempt to divide by zero"
  .ok (last / data.blocksPerGroup)

def readGroupDescriptors (data : SuperBlockData) (volume : BlockVolume) : Fallible (List Nat) := do
  let numGroups ← data.numGroups
  let size ← (data.superBlock volume []).blockSize
  if numGroups > maxGroupsInBuffer then
    throw .invalidInput
  else do
    let gdtByteOffset := if size = minBlockSize then gdt1kOffset else size
    let gdtSector := gdtByteOffset / BlockVolumes.blockSize
    let buf ← ExceptT.mk (.ok (volume gdtSector))
    (List.range numGroups).mapM fun index =>
      readU32Le buf (index * groupDescSize + gdInodeTableOffset)

end SuperBlockData

/-- `if let Ok(value) = call`, with a value to keep otherwise. -/
def ifLetOk {α β : Type} (call : Fallible α) (otherwise : β) (rest : α → Checked β) :
    Checked β := do
  match ← call.run with
  | .error _ => .ok otherwise
  | .ok value => rest value

def fileTypeOf (format : Nat) : FileType :=
  if format = sIfdir then .directory
  else if format = sIfreg then .regularFile
  else if format = sIfchr then .charDevice
  else if format = sIfblk then .blockDevice
  else .regularFile

namespace Ext2SuperBlock

def inodeLocation (superblock : Ext2SuperBlock) (inodeNum : Nat) : Fallible (Nat × Nat) :=
  if inodeNum = 0 then
    throw .invalidInput
  else do
    ensure (superblock.inodesPerGroup ≠ 0) "attempt to divide by zero"
    let group := (inodeNum - 1) / superblock.inodesPerGroup
    let localIndex := (inodeNum - 1) % superblock.inodesPerGroup
    match superblock.groups[group]? with
    | none => throw .invalidInput
    | some inodeTableBlock => do
        let size ← superblock.blockSize
        ensure (superblock.inodeSize ≠ 0) "attempt to divide by zero"
        let inodesPerBlock := size / superblock.inodeSize
        ensure (inodesPerBlock ≠ 0) "attempt to divide by zero"
        let targetBlock ← checkedAdd32 inodeTableBlock (localIndex / inodesPerBlock)
        let start ← checkedMul targetBlock size
        let offset ← checkedMul32 (localIndex % inodesPerBlock) superblock.inodeSize
        pure (start / BlockVolumes.blockSize, offset)

def readInode (superblock : Ext2SuperBlock) (inodeNum : Nat) :
    Fallible (Inode Ext2InodeData) := do
  let (sector, offset) ← superblock.inodeLocation inodeNum
  let buf ← ExceptT.mk (.ok (superblock.volume sector))
  let mode ← readU16Le buf (offset + inodeModeOffset)
  let size ← readU32Le buf (offset + inodeSizeOffset)
  let blocks ← (List.range 15).mapM fun index =>
    readU32Le buf (offset + inodeBlocksOffset + index * 4)
  pure
    { ino := inodeNum
      fileType := fileTypeOf (mode &&& sIfmt)
      len := size
      fsData := { superblock := superblock, blocks := fun index => blocks.getD index 0 } }

/-- The number of blocks of the journal whose inode is at a place of the disk. -/
def journalBlocksAt (superblock : Ext2SuperBlock) (sector offset : Nat) : Checked (Option Nat) :=
  match superblock.volume sector with
  | .error _ => .ok none
  | .ok buf => do
      let iSize ← readU32Le buf (offset + inodeSizeOffset)
      let size ← superblock.blockSize
      ensure (size ≠ 0) "attempt to divide by zero"
      .ok (some (iSize / size))

/-- The number of blocks of the journal, if its inode can be read. -/
def journalBlocks (superblock : Ext2SuperBlock) (journalInum : Nat) : Checked (Option Nat) :=
  ifLetOk (superblock.inodeLocation journalInum) none fun (sector, offset) =>
    superblock.journalBlocksAt sector offset

end Ext2SuperBlock

inductive MountRead where
  | superblock
  | groups
  | journal
  | root

structure Mounted where
  data : SuperBlockData
  groups : List Nat
  journalBlocks : Option Nat
  root : Inode Ext2InodeData

/-- `Ext2SuperBlock::new`, over the answers of the volume to each of its reads.
The inode cache is new, so that the root inode is read from the disk. -/
def new (answers : MountRead → BlockVolume) : Fallible Mounted := do
  let data ← readSuperblockData (answers .superblock)
  let groups ← data.readGroupDescriptors (answers .groups)
  let journalBlocks ← match data.journalInum with
    | none => pure none
    | some journalInum => (data.superBlock (answers .journal) groups).journalBlocks journalInum
  let root ← (data.superBlock (answers .root) groups).readInode rootInode
  pure { data := data, groups := groups, journalBlocks := journalBlocks, root := root }

variable {buf : ByteMemory}

section Completes

variable {α β : Type}

theorem ifLetOk_returns_iff {call : Fallible α} {otherwise : β} {rest : α → Checked β} :
    (∃ value, ifLetOk call otherwise rest = .ok value) ↔
      Completes (call >>= fun result => (liftM (rest result) : Fallible β)) := by
  cases call with
  | error fault => exact ⟨fun ⟨_, ran⟩ => (nomatch ran), fun ⟨_, ran⟩ => (nomatch ran)⟩
  | ok result =>
    cases result with
    | error error => exact ⟨fun _ => ⟨.error error, rfl⟩, fun _ => ⟨otherwise, rfl⟩⟩
    | ok value => exact completes_lift.symm

variable {offset : Nat}

@[simp] theorem exists_readU32Le :
    (∃ value, readU32Le buf offset = .ok value) ↔ offset + 4 ≤ cacheBlockSize := by
  unfold readU32Le ensure
  split_ifs with inside <;> simp [inside, bind, Except.bind]

theorem completes_readU32Le_bind {rest : Nat → Fallible β} :
    Completes ((liftM (readU32Le buf offset) : Fallible Nat) >>= rest) ↔
      offset + 4 ≤ cacheBlockSize ∧ Completes (rest (buf.readWord offset 4)) := by
  rw [completes_lift_bind, readU32Le, ensure]
  split_ifs with inside <;> simp [inside, bind, Except.bind]

theorem completes_readU16Le_bind {rest : Nat → Fallible β} :
    Completes ((liftM (readU16Le buf offset) : Fallible Nat) >>= rest) ↔
      offset + 2 ≤ cacheBlockSize ∧ Completes (rest (buf.readWord offset 2)) := by
  rw [completes_lift_bind, readU16Le, ensure]
  split_ifs with inside <;> simp [inside, bind, Except.bind]

theorem completes_mapM {items : List α} {read : α → Checked β} :
    Completes (items.mapM fun item => (liftM (read item) : Fallible β)) ↔
      ∀ item ∈ items, ∃ value, read item = .ok value := by
  induction items with
  | nil => simp
  | cons item items ih =>
    have tail : ∀ value : β, Completes
        ((items.mapM fun item => (liftM (read item) : Fallible β)) >>=
        fun values => pure (value :: values)) ↔ ∀ item ∈ items, ∃ value, read item = .ok value := by
      intro value
      rw [completes_bind, ih]
      simp
    rw [mapM_cons, completes_lift_bind, forall_mem_cons]
    simp only [tail, exists_and_right]

theorem mapM_eq_map {items : List α} {read : α → Checked β} {value : α → β}
    (reads : ∀ item ∈ items, read item = .ok (value item)) :
    items.mapM (fun item => (liftM (read item) : Fallible β)) = .ok (.ok (items.map value)) := by
  induction items with
  | nil => rfl
  | cons item items ih =>
    rw [forall_mem_cons] at reads
    rw [mapM_cons, fallible_lift reads.1, fallible_bind (ih reads.2)]
    rfl

end Completes

/-- A number of bytes from the start of an inode can be read, or the inode is not
come to. -/
def Ext2SuperBlock.InodeSafe (superblock : Ext2SuperBlock) (size inodeNum length : Nat) : Prop :=
  inodeNum = 0 ∨ superblock.inodesPerGroup ≠ 0 ∧
    ∀ inodeTable,
      superblock.groups[(inodeNum - 1) / superblock.inodesPerGroup]? = some inodeTable →
      let localIndex := (inodeNum - 1) % superblock.inodesPerGroup
      let inodesPerBlock := size / superblock.inodeSize
      let targetBlock := inodeTable + localIndex / inodesPerBlock
      inodesPerBlock ≠ 0 ∧ targetBlock < 2 ^ 32 ∧
        ∀ buf, superblock.volume (targetBlock * size / BlockVolumes.blockSize) = .ok buf →
          localIndex % inodesPerBlock * superblock.inodeSize + length ≤ cacheBlockSize

section Inodes

variable {superblock : Ext2SuperBlock} {size : Nat} {β : Type}

section

variable (sized : superblock.blockSize = .ok size)

include sized

theorem completes_inodeLocation_bind (fits : size < 2 ^ 32) (inodeNum : Nat)
    {rest : Nat × Nat → Fallible β} :
    Completes (superblock.inodeLocation inodeNum >>= rest) ↔
      inodeNum = 0 ∨ superblock.inodesPerGroup ≠ 0 ∧
        ∀ inodeTable,
          superblock.groups[(inodeNum - 1) / superblock.inodesPerGroup]? = some inodeTable →
          let localIndex := (inodeNum - 1) % superblock.inodesPerGroup
          let inodesPerBlock := size / superblock.inodeSize
          let targetBlock := inodeTable + localIndex / inodesPerBlock
          inodesPerBlock ≠ 0 ∧ targetBlock < 2 ^ 32 ∧
            Completes (rest (targetBlock * size / BlockVolumes.blockSize,
              localIndex % inodesPerBlock * superblock.inodeSize)) := by
  unfold Ext2SuperBlock.inodeLocation
  by_cases none : inodeNum = 0
  · rw [if_pos none]
    exact ⟨fun _ => Or.inl none, fun _ => ⟨_, rfl⟩⟩
  · rw [if_neg none, bind_assoc, completes_ensure_bind, or_iff_right none]
    refine and_congr_right fun perGroup => ?_
    dsimp only
    cases superblock.groups[(inodeNum - 1) / superblock.inodesPerGroup]? with
    | none =>
      refine iff_of_true ⟨_, rfl⟩ ?_
      intro inodeTable found
      cases found
    | some inodeTable =>
      simp only [Option.some.injEq, forall_eq']
      rw [fallible_lift sized, bind_assoc, completes_ensure_bind, bind_assoc,
        completes_ensure_bind, and_iff_right_of_imp fun safe zero => safe.1
          (by rw [zero, Nat.div_zero])]
      refine and_congr_right fun perBlock => ?_
      generalize (inodeNum - 1) % superblock.inodesPerGroup = localIndex
      rw [checkedAdd32]
      by_cases inRange : inodeTable + localIndex / (size / superblock.inodeSize) < 2 ^ 32
      · have start : (inodeTable + localIndex / (size / superblock.inodeSize)) * size < 2 ^ 64 :=
          lt_of_lt_of_eq (Nat.mul_lt_mul'' inRange fits) (by norm_num)
        have offset : localIndex % (size / superblock.inodeSize) * superblock.inodeSize <
            2 ^ 32 := by
          have inBlock := Nat.mod_lt localIndex (Nat.pos_of_ne_zero perBlock)
          have whole := Nat.div_mul_le_self size superblock.inodeSize
          have below := Nat.mul_le_mul_right superblock.inodeSize inBlock.le
          omega
        rw [if_pos inRange, fallible_lift rfl, fallible_lift (checkedMul_of_lt start),
          fallible_lift (checkedMul32_of_lt offset), pure_bind, and_iff_right inRange]
      · rw [if_neg inRange]
        refine iff_of_false ?_ fun safe => inRange safe.1
        rintro ⟨_, ran⟩
        cases ran

theorem readInode_completes_iff (fits : size < 2 ^ 32) (inodeNum : Nat) :
    Completes (superblock.readInode inodeNum) ↔ superblock.InodeSafe size inodeNum 100 := by
  have reads : ∀ sector offset, Completes (do
      let buf ← ExceptT.mk (.ok (superblock.volume sector))
      let mode ← readU16Le buf (offset + inodeModeOffset)
      let length ← readU32Le buf (offset + inodeSizeOffset)
      let blocks ← (range 15).mapM fun index =>
        readU32Le buf (offset + inodeBlocksOffset + index * 4)
      pure
        { ino := inodeNum
          fileType := fileTypeOf (mode &&& sIfmt)
          len := length
          fsData := { superblock := superblock, blocks := fun index => blocks.getD index 0 } :
            Inode Ext2InodeData }) ↔
      ∀ buf, superblock.volume sector = .ok buf → offset + 100 ≤ cacheBlockSize := by
    intro sector offset
    rw [completes_answer_bind]
    refine forall_congr' fun buf => imp_congr_right fun _ => ?_
    rw [completes_readU16Le_bind, completes_readU32Le_bind, completes_bind, completes_mapM]
    simp only [exists_readU32Le, completes_pure, implies_true, and_true, mem_range]
    simp only [inodeModeOffset, inodeSizeOffset, inodeBlocksOffset]
    constructor
    · rintro ⟨-, -, pointers⟩
      have last := pointers 14 (by decide)
      omega
    · intro inside
      exact ⟨by omega, by omega, fun index bound => by omega⟩
  rw [Ext2SuperBlock.readInode, completes_inodeLocation_bind sized fits]
  simp only [reads]
  rfl

theorem journalBlocksAt_returns_iff (positive : size ≠ 0) (sector offset : Nat) :
    (∃ blocks, superblock.journalBlocksAt sector offset = .ok blocks) ↔
      ∀ buf, superblock.volume sector = .ok buf → offset + 8 ≤ cacheBlockSize := by
  unfold Ext2SuperBlock.journalBlocksAt
  cases superblock.volume sector with
  | error error => simp
  | ok buf =>
    simp only [Except.ok.injEq, forall_eq', sized, ok_bind, ensure_of_true positive]
    constructor
    · rintro ⟨blocks, ran⟩
      obtain ⟨iSize, read, -⟩ := bind_eq_ok.mp ran
      exact exists_readU32Le.mp ⟨iSize, read⟩
    · intro inside
      obtain ⟨iSize, read⟩ := exists_readU32Le.mpr inside
      refine ⟨some (iSize / size), ?_⟩
      rw [inodeSizeOffset, read, ok_bind]

theorem journalBlocks_returns_iff (fits : size < 2 ^ 32) (journalInum : Nat) :
    (∃ blocks, superblock.journalBlocks journalInum = .ok blocks) ↔
      superblock.InodeSafe size journalInum 8 := by
  rw [Ext2SuperBlock.journalBlocks, ifLetOk_returns_iff,
    completes_inodeLocation_bind sized fits]
  refine or_congr Iff.rfl (and_congr_right fun perGroup => forall_congr' fun inodeTable =>
    imp_congr_right fun found => and_congr_right fun perBlock => and_congr_right fun inRange => ?_)
  have positive : size ≠ 0 := by
    rintro rfl
    exact perBlock (Nat.zero_div _)
  rw [completes_lift, journalBlocksAt_returns_iff sized positive]

end

end Inodes

namespace SuperBlockData

/-- The block size that a superblock gives, as a 32-bit word. -/
def size (data : SuperBlockData) : Nat := (minBlockSize <<< data.logBlockSize) % 2 ^ 32

def groupCount (data : SuperBlockData) : Nat :=
  (data.blocksCount + data.blocksPerGroup - 1) / data.blocksPerGroup

def gdtSector (data : SuperBlockData) : Nat :=
  (if data.size = minBlockSize then gdt1kOffset else data.size) / BlockVolumes.blockSize

/-- The inode tables of the groups, out of the unit that holds their descriptors. -/
def inodeTables (data : SuperBlockData) (gdt : ByteMemory) : List Nat :=
  (List.range data.groupCount).map fun index =>
    gdt.readWord (index * groupDescSize + gdInodeTableOffset) 4

/-- The superblock gives a number of groups and a block size, and where the groups
can be read, the inodes of the journal and of the root directory can. -/
def Safe (data : SuperBlockData) (answers : MountRead → BlockVolume) : Prop :=
  data.blocksPerGroup ≠ 0 ∧ data.blocksCount + data.blocksPerGroup < 2 ^ 32 ∧
    data.logBlockSize < 32 ∧
    (data.groupCount ≤ maxGroupsInBuffer →
      ∀ gdt, answers .groups data.gdtSector = .ok gdt →
        (∀ journalInum, data.journalInum = some journalInum →
          (data.superBlock (answers .journal) (data.inodeTables gdt)).InodeSafe data.size
            journalInum 8) ∧
        (data.superBlock (answers .root) (data.inodeTables gdt)).InodeSafe data.size rootInode 100)

end SuperBlockData

def superBlockData (buf : ByteMemory) : SuperBlockData where
  inodesCount := buf.readWord sbInodesCountOffset 4
  blocksCount := buf.readWord sbBlocksCountOffset 4
  logBlockSize := buf.readWord sbLogBlockSizeOffset 4
  blocksPerGroup := buf.readWord sbBlocksPerGroupOffset 4
  inodesPerGroup := buf.readWord sbInodesPerGroupOffset 4
  inodeSize :=
    if buf.readWord sbInodeSizeOffset 2 = 0 then goodOldInodeSize
    else buf.readWord sbInodeSizeOffset 2
  volumeLabel := volumeLabel buf
  journalInum :=
    if buf.readWord sbFeatureCompatOffset 4 &&& ext3FeatureCompatHasJournal ≠ 0 then
      some (buf.readWord sbJournalInumOffset 4)
    else
      none

/-- What a volume has to hold, if it has an ext2 superblock. -/
def MountSafe (answers : MountRead → BlockVolume) : Prop :=
  ∀ buf, answers .superblock superblockSector = .ok buf →
    buf.readWord magicOffset 2 = superMagic → (superBlockData buf).Safe answers

section Mount

variable {β : Type} {volume : BlockVolume} {data : SuperBlockData}

theorem fallible_answer {α : Type} (value : α) (rest : α → Fallible β) :
    (ExceptT.mk (.ok (.ok value)) >>= rest) = rest value := rfl

theorem readSuperblockData_eq (read : volume superblockSector = .ok buf) :
    readSuperblockData volume =
      if buf.readWord magicOffset 2 = superMagic then .ok (.ok (superBlockData buf))
      else .ok (.error .invalidInput) := by
  unfold readSuperblockData
  rw [read, fallible_answer, fallible_lift (readU16Le_of_le buf (by decide))]
  by_cases magic : buf.readWord magicOffset 2 = superMagic
  · rw [if_neg (not_not.mpr magic), if_pos magic,
      fallible_lift (readU32Le_of_le buf (by decide)),
      fallible_lift (readU32Le_of_le buf (by decide)),
      fallible_lift (readU32Le_of_le buf (by decide)),
      fallible_lift (readU32Le_of_le buf (by decide)),
      fallible_lift (readU32Le_of_le buf (by decide)),
      fallible_lift (readU16Le_of_le buf (by decide)),
      fallible_lift (readU32Le_of_le buf (by decide)), superBlockData]
    by_cases journal :
        buf.readWord sbFeatureCompatOffset 4 &&& ext3FeatureCompatHasJournal ≠ 0
    · rw [if_pos journal, if_pos journal, readU32Le_of_le buf (by decide)]
      rfl
    · rw [if_neg journal, if_neg journal]
      rfl
  · rw [if_pos magic, if_neg magic]
    rfl

theorem numGroups_eq_ok_iff {count : Nat} :
    data.numGroups = .ok count ↔ data.blocksPerGroup ≠ 0 ∧
      data.blocksCount + data.blocksPerGroup < 2 ^ 32 ∧ data.groupCount = count := by
  unfold SuperBlockData.numGroups checkedAdd32
  by_cases fits : data.blocksCount + data.blocksPerGroup < 2 ^ 32
  · rw [if_pos fits, ok_bind]
    by_cases positive : data.blocksPerGroup ≠ 0
    · rw [checkedSub_bind (by omega), ensure_bind positive]
      exact ⟨fun ran => ⟨positive, fits, Except.ok.inj ran⟩, fun safe => congrArg _ safe.2.2⟩
    · constructor
      · intro ran
        obtain ⟨_, -, rest⟩ := bind_eq_ok.mp ran
        obtain ⟨divides, -⟩ := ensure_bind_eq_ok.mp rest
        exact absurd divides positive
      · exact fun safe => absurd safe.1 positive
  · rw [if_neg fits]
    exact ⟨nofun, fun safe => absurd safe.2.1 fits⟩

theorem blockSize_superBlock_eq_ok_iff {groups : List Nat} {size : Nat} :
    (data.superBlock volume groups).blockSize = .ok size ↔
      data.logBlockSize < 32 ∧ data.size = size := by
  unfold Ext2SuperBlock.blockSize
  by_cases shifts : data.logBlockSize < 32
  · simp [SuperBlockData.superBlock, shifts, SuperBlockData.size]
  · simp [SuperBlockData.superBlock, shifts]

/-- What `read_group_descriptors` returns: an error for too many groups, or the inode
tables out of one unit of the volume. -/
theorem readGroupDescriptors_eq_ok_iff {result : Except BlockError (List Nat)} :
    data.readGroupDescriptors volume = .ok result ↔
      data.blocksPerGroup ≠ 0 ∧ data.blocksCount + data.blocksPerGroup < 2 ^ 32 ∧
        data.logBlockSize < 32 ∧
        (if data.groupCount ≤ maxGroupsInBuffer then (volume data.gdtSector).map data.inodeTables
          else .error .invalidInput) = result := by
  have tables : (if data.groupCount > maxGroupsInBuffer then throw .invalidInput
      else do
        let buf ← ExceptT.mk (.ok (volume data.gdtSector))
        (range data.groupCount).mapM fun index =>
          readU32Le buf (index * groupDescSize + gdInodeTableOffset) : Fallible (List Nat)) =
      .ok (if data.groupCount ≤ maxGroupsInBuffer then (volume data.gdtSector).map data.inodeTables
        else .error .invalidInput) := by
    by_cases few : data.groupCount ≤ maxGroupsInBuffer
    · rw [if_neg (Nat.not_lt.mpr few), if_pos few]
      cases volume data.gdtSector with
      | error error => rfl
      | ok gdt =>
        apply mapM_eq_map
        intro index inside
        rw [mem_range] at inside
        apply readU32Le_of_le
        simp only [maxGroupsInBuffer, groupDescSize, gdInodeTableOffset, cacheBlockSize] at few ⊢
        omega
    · rw [if_pos (Nat.not_le.mp few), if_neg few]
      rfl
  unfold SuperBlockData.readGroupDescriptors
  simp only [lift_bind_eq_ok_iff, numGroups_eq_ok_iff, blockSize_superBlock_eq_ok_iff]
  constructor
  · rintro ⟨_, ⟨positive, fits, rfl⟩, _, ⟨shifts, rfl⟩, ran⟩
    exact ⟨positive, fits, shifts, Except.ok.inj (tables.symm.trans ran)⟩
  · rintro ⟨positive, fits, shifts, rfl⟩
    exact ⟨_, ⟨positive, fits, rfl⟩, _, ⟨shifts, rfl⟩, tables⟩

theorem completes_readGroupDescriptors_bind {rest : List Nat → Fallible β} :
    Completes (data.readGroupDescriptors volume >>= rest) ↔
      data.blocksPerGroup ≠ 0 ∧ data.blocksCount + data.blocksPerGroup < 2 ^ 32 ∧
        data.logBlockSize < 32 ∧
        (data.groupCount ≤ maxGroupsInBuffer →
          ∀ gdt, volume data.gdtSector = .ok gdt → Completes (rest (data.inodeTables gdt))) := by
  rw [completes_bind]
  simp only [Completes, readGroupDescriptors_eq_ok_iff]
  constructor
  · rintro ⟨⟨_, positive, fits, shifts, -⟩, completes⟩
    refine ⟨positive, fits, shifts, fun few gdt read => ?_⟩
    exact completes _ ⟨positive, fits, shifts, by rw [if_pos few, read]; rfl⟩
  · rintro ⟨positive, fits, shifts, completes⟩
    refine ⟨⟨_, positive, fits, shifts, rfl⟩, ?_⟩
    rintro groups ⟨-, -, -, ran⟩
    split_ifs at ran with few
    cases read : volume data.gdtSector with
    | error error =>
      rw [read] at ran
      cases ran
    | ok gdt =>
      rw [read] at ran
      cases ran
      exact completes few gdt read

theorem completes_error_bind {α : Type} {call : Fallible α} {rest : α → Fallible β}
    {error : BlockError} (failed : call = .ok (.error error)) : Completes (call >>= rest) := by
  rw [failed]
  exact ⟨.error error, rfl⟩

theorem journal_root_completes_iff (shifts : data.logBlockSize < 32)
    (journal root : BlockVolume) (groups : List Nat) :
    Completes (do
      let journalBlocks ← match data.journalInum with
        | none => pure none
        | some journalInum => (data.superBlock journal groups).journalBlocks journalInum
      let root ← (data.superBlock root groups).readInode rootInode
      pure { data := data, groups := groups, journalBlocks := journalBlocks, root := root :
        Mounted }) ↔
      (∀ journalInum, data.journalInum = some journalInum →
        (data.superBlock journal groups).InodeSafe data.size journalInum 8) ∧
      (data.superBlock root groups).InodeSafe data.size rootInode 100 := by
  have fits : data.size < 2 ^ 32 := Nat.mod_lt _ (by norm_num)
  have sized : ∀ volume, (data.superBlock volume groups).blockSize = .ok data.size := fun volume =>
    blockSize_superBlock_eq_ok_iff.mpr ⟨shifts, rfl⟩
  have rootSafe : ∀ journalBlocks, Completes (do
      let root ← (data.superBlock root groups).readInode rootInode
      pure { data := data, groups := groups, journalBlocks := journalBlocks, root := root :
        Mounted }) ↔ (data.superBlock root groups).InodeSafe data.size rootInode 100 := by
    intro journalBlocks
    rw [completes_bind, readInode_completes_iff (sized root) fits]
    simp
  cases data.journalInum with
  | none => simpa using rootSafe none
  | some journalInum =>
    simp only [Option.some.injEq, forall_eq', completes_lift_bind, rootSafe, exists_and_right,
      journalBlocks_returns_iff (sized journal) fits]

/-- A mount returns exactly for the volumes that are safe. -/
theorem new_returns_iff (answers : MountRead → BlockVolume) :
    (∃ result, new answers = .ok result) ↔ MountSafe answers := by
  change Completes (new answers) ↔ _
  unfold new MountSafe
  cases read : answers .superblock superblockSector with
  | error error =>
    have failed : readSuperblockData (answers .superblock) = .ok (.error error) := by
      unfold readSuperblockData
      rw [read]
      rfl
    exact ⟨fun _ => nofun, fun _ => completes_error_bind failed⟩
  | ok buf =>
    have parsed := readSuperblockData_eq read
    simp only [Except.ok.injEq, forall_eq']
    by_cases magic : buf.readWord magicOffset 2 = superMagic
    · -- The conditions come in the order in which the mount evaluates them.
      rw [if_pos magic] at parsed
      rw [fallible_bind parsed, imp_iff_right magic, completes_readGroupDescriptors_bind]
      refine and_congr_right fun _ => and_congr_right fun _ => and_congr_right fun shifts => ?_
      refine imp_congr_right fun _ => forall_congr' fun gdt => imp_congr_right fun _ => ?_
      exact journal_root_completes_iff shifts _ _ _
    · rw [if_neg magic] at parsed
      exact ⟨fun _ isMagic => absurd isMagic magic, fun _ => completes_error_bind parsed⟩

end Mount

/-- A superblock with its magic number and eight blocks, in groups of no blocks. -/
def emptyGroups : ByteMemory :=
  ByteMemory.writeWord (ByteMemory.writeWord (fun _ => 0) magicOffset 2 superMagic)
    sbBlocksCountOffset 4 8

/-- A mount of a volume with this superblock divides by zero. -/
theorem emptyGroups_panics :
    new (fun _ _ => .ok emptyGroups) = .error (.assertion "attempt to divide by zero") := by
  rfl

end NanoOs.Ext2
