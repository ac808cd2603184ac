import NanoOs.Ext2Mounting

/-!
# The inode tables of an ext2 volume

`inode_location` finds an inode by the inodes of a block; the format numbers the bytes
of the table.  The groups whose tables there are follow from the number of blocks,
with or without the block before the first group.
-/

namespace NanoOs.Ext2

open List

open BlockDisk (BlockError)
open BlockVolumes (cacheBlockSize)

section Location

variable {superblock : Ext2SuperBlock} {size inodeNum : Nat}

theorem inodeLocation_zero : superblock.inodeLocation 0 = .ok (.error .invalidInput) := rfl

theorem inodeLocation_of_none (positive : inodeNum ≠ 0) (perGroup : superblock.inodesPerGroup ≠ 0)
    (missing : superblock.groups[(inodeNum - 1) / superblock.inodesPerGroup]? = none) :
    superblock.inodeLocation inodeNum = .ok (.error .invalidInput) := by
  unfold Ext2SuperBlock.inodeLocation
  rw [if_neg positive, ensure_of_true perGroup]
  dsimp only
  rw [fallible_lift rfl, missing]
  rfl

theorem inodeLocation_of_some {inodeTable : Nat} (sized : superblock.blockSize = .ok size)
    (fits : size < 2 ^ 32) (perBlock : size / superblock.inodeSize ≠ 0) (positive : inodeNum ≠ 0)
    (perGroup : superblock.inodesPerGroup ≠ 0)
    (found : superblock.groups[(inodeNum - 1) / superblock.inodesPerGroup]? = some inodeTable)
    (inRange : inodeTable + (inodeNum - 1) % superblock.inodesPerGroup /
      (size / superblock.inodeSize) < 2 ^ 32) :
    superblock.inodeLocation inodeNum = .ok (.ok
      ((inodeTable + (inodeNum - 1) % superblock.inodesPerGroup / (size / superblock.inodeSize)) *
          size / BlockVolumes.blockSize,
        (inodeNum - 1) % superblock.inodesPerGroup % (size / superblock.inodeSize) *
          superblock.inodeSize)) := by
  have nonzero : superblock.inodeSize ≠ 0 := by
    intro zero
    rw [zero, Nat.div_zero] at perBlock
    exact perBlock rfl
  have start : (inodeTable + (inodeNum - 1) % superblock.inodesPerGroup /
      (size / superblock.inodeSize)) * size < 2 ^ 64 :=
    lt_of_lt_of_eq (Nat.mul_lt_mul'' inRange fits) (by norm_num)
  have offset : (inodeNum - 1) % superblock.inodesPerGroup % (size / superblock.inodeSize) *
      superblock.inodeSize < 2 ^ 32 := by
    have inBlock := Nat.mod_lt ((inodeNum - 1) % superblock.inodesPerGroup)
      (Nat.pos_of_ne_zero perBlock)
    have whole := Nat.div_mul_le_self size superblock.inodeSize
    have below := Nat.mul_le_mul_right superblock.inodeSize inBlock.le
    omega
  unfold Ext2SuperBlock.inodeLocation
  rw [if_neg positive, ensure_of_true perGroup]
  dsimp only
  rw [fallible_lift rfl, found]
  dsimp only
  rw [fallible_lift sized, ensure_of_true nonzero, fallible_lift rfl, ensure_of_true perBlock,
    fallible_lift rfl, checkedAdd32, if_pos inRange, fallible_lift rfl,
    fallible_lift (checkedMul_of_lt start), fallible_lift (checkedMul32_of_lt offset)]
  rfl

end Location

/-- Inode tables as the format has them: inodes fill the blocks, and the tables lie
apart from each other below block 2^32. -/
structure Ext2SuperBlock.InodeTables (superblock : Ext2SuperBlock) (size : Nat) : Prop where
  sized : superblock.Sized size
  divides : superblock.inodeSize ∣ size
  large : 128 ≤ superblock.inodeSize
  perGroup : 0 < superblock.inodesPerGroup
  apart : superblock.groups.Pairwise fun table other =>
    table * size + superblock.inodesPerGroup * superblock.inodeSize ≤ other * size ∨
      other * size + superblock.inodesPerGroup * superblock.inodeSize ≤ table * size
  below : ∀ table ∈ superblock.groups,
    table * size + superblock.inodesPerGroup * superblock.inodeSize ≤ 2 ^ 32 * size

section Tables

variable {superblock : Ext2SuperBlock} {size inodeNum sector offset : Nat}

theorem block_add_offset {inodeSize : Nat} (divides : inodeSize ∣ size) (table localIndex : Nat) :
    (table + localIndex / (size / inodeSize)) * size + localIndex % (size / inodeSize) * inodeSize =
      table * size + localIndex * inodeSize := by
  have whole : size / inodeSize * inodeSize = size := Nat.div_mul_cancel divides
  calc
    (table + localIndex / (size / inodeSize)) * size +
          localIndex % (size / inodeSize) * inodeSize =
        table * size + (localIndex / (size / inodeSize) * (size / inodeSize) +
          localIndex % (size / inodeSize)) * inodeSize := by
      rw [Nat.add_mul, Nat.add_mul, Nat.mul_assoc _ (size / inodeSize), whole, Nat.add_assoc]
    _ = table * size + localIndex * inodeSize := by
      rw [Nat.mul_comm _ (size / inodeSize), Nat.div_add_mod]

namespace Ext2SuperBlock.InodeTables

section

variable (tables : superblock.InodeTables size)

include tables

theorem size_pos : 0 < size := by
  rcases tables.sized.supported with rfl | rfl | rfl <;> decide

theorem perBlock_pos : 0 < size / superblock.inodeSize :=
  Nat.div_pos (Nat.le_of_dvd tables.size_pos tables.divides)
    ((by decide : 0 < 128).trans_le tables.large)

theorem local_end (number : Nat) :
    number % superblock.inodesPerGroup * superblock.inodeSize + superblock.inodeSize ≤
      superblock.inodesPerGroup * superblock.inodeSize := by
  rw [← Nat.succ_mul]
  exact Nat.mul_le_mul_right _ (Nat.mod_lt _ tables.perGroup)

theorem inRange {table : Nat} (isTable : table ∈ superblock.groups) (number : Nat) :
    table + number % superblock.inodesPerGroup / (size / superblock.inodeSize) < 2 ^ 32 := by
  have start := block_add_offset tables.divides table (number % superblock.inodesPerGroup)
  have stop := tables.local_end number
  have below := tables.below table isTable
  have large := tables.large
  refine Nat.lt_of_mul_lt_mul_right (a := size) ?_
  omega

end

/-- What `inode_location` does: it refuses zero and the numbers behind the last group,
and finds the others where the format has them. -/
theorem inodeLocation_cases (tables : superblock.InodeTables size) (inodeNum : Nat) :
    superblock.inodeLocation inodeNum = .ok (.error .invalidInput) ∨
      ∃ table sector offset, inodeNum ≠ 0 ∧
        superblock.groups[(inodeNum - 1) / superblock.inodesPerGroup]? = some table ∧
        superblock.inodeLocation inodeNum = .ok (.ok (sector, offset)) ∧
        sector * 512 + offset =
          table * size + (inodeNum - 1) % superblock.inodesPerGroup * superblock.inodeSize ∧
        offset + superblock.inodeSize ≤ size := by
  have perGroup := tables.perGroup.ne'
  have sized := tables.sized
  have fits : size < 2 ^ 32 := by
    rcases sized.supported with rfl | rfl | rfl <;> decide
  rcases eq_or_ne inodeNum 0 with rfl | positive
  · exact Or.inl inodeLocation_zero
  · cases found : superblock.groups[(inodeNum - 1) / superblock.inodesPerGroup]? with
    | none => exact Or.inl (inodeLocation_of_none positive perGroup found)
    | some table =>
      have isTable := mem_of_getElem? found
      refine Or.inr ⟨table, _, _, positive, rfl, inodeLocation_of_some sized.blockSize_eq fits
        tables.perBlock_pos.ne' positive perGroup found (tables.inRange isTable _), ?_, ?_⟩
      · rw [← block_add_offset tables.divides]
        exact congrArg (· + _) (sized.sector_start _)
      · have inBlock := Nat.mod_lt ((inodeNum - 1) % superblock.inodesPerGroup) tables.perBlock_pos
        calc
          _ = ((inodeNum - 1) % superblock.inodesPerGroup % (size / superblock.inodeSize) + 1) *
              superblock.inodeSize := (Nat.succ_mul ..).symm
          _ ≤ size / superblock.inodeSize * superblock.inodeSize :=
            Nat.mul_le_mul_right _ inBlock
          _ ≤ size := Nat.div_mul_le_self ..

theorem place (tables : superblock.InodeTables size)
    (located : superblock.inodeLocation inodeNum = .ok (.ok (sector, offset))) :
    ∃ table, inodeNum ≠ 0 ∧
      superblock.groups[(inodeNum - 1) / superblock.inodesPerGroup]? = some table ∧
      sector * 512 + offset =
        table * size + (inodeNum - 1) % superblock.inodesPerGroup * superblock.inodeSize ∧
      offset + superblock.inodeSize ≤ size := by
  rcases tables.inodeLocation_cases inodeNum with refused | ⟨table, _, _, positive, found, ran, at'⟩
  · cases refused.symm.trans located
  · cases ran.symm.trans located
    exact ⟨table, positive, found, at'⟩

theorem tables_apart (tables : superblock.InodeTables size) {group other table otherTable : Nat}
    (found : superblock.groups[group]? = some table)
    (otherFound : superblock.groups[other]? = some otherTable) (different : group ≠ other) :
    table * size + superblock.inodesPerGroup * superblock.inodeSize ≤ otherTable * size ∨
      otherTable * size + superblock.inodesPerGroup * superblock.inodeSize ≤ table * size := by
  have pairs := pairwise_iff_getElem.mp tables.apart
  obtain ⟨bound, rfl⟩ := List.getElem?_eq_some_iff.mp found
  obtain ⟨otherBound, rfl⟩ := List.getElem?_eq_some_iff.mp otherFound
  rcases Nat.lt_or_gt_of_ne different with before | behind
  · exact pairs group other bound otherBound before
  · exact (pairs other group otherBound bound behind).symm

/-- Inodes in different tables lie apart as the tables do, inodes of one table as their
indices do. -/
theorem places_apart (tables : superblock.InodeTables size)
    {number otherNumber table otherTable : Nat}
    (found : superblock.groups[number / superblock.inodesPerGroup]? = some table)
    (otherFound : superblock.groups[otherNumber / superblock.inodesPerGroup]? = some otherTable)
    (different : number ≠ otherNumber) :
    let place := table * size + number % superblock.inodesPerGroup * superblock.inodeSize
    let otherPlace :=
      otherTable * size + otherNumber % superblock.inodesPerGroup * superblock.inodeSize
    place + superblock.inodeSize ≤ otherPlace ∨ otherPlace + superblock.inodeSize ≤ place := by
  intro place otherPlace
  have stop := tables.local_end number
  have otherStop := tables.local_end otherNumber
  by_cases sameGroup : number / superblock.inodesPerGroup = otherNumber / superblock.inodesPerGroup
  · rw [sameGroup] at found
    cases found.symm.trans otherFound
    have indices : number % superblock.inodesPerGroup ≠
        otherNumber % superblock.inodesPerGroup := by
      intro sameIndex
      apply different
      rw [← Nat.div_add_mod number superblock.inodesPerGroup, sameGroup, sameIndex,
        Nat.div_add_mod]
    rcases Nat.lt_or_gt_of_ne indices with before | behind
    · have steps := Nat.mul_le_mul_right superblock.inodeSize before
      rw [Nat.succ_mul] at steps
      exact Or.inl (by omega)
    · have steps := Nat.mul_le_mul_right superblock.inodeSize behind
      rw [Nat.succ_mul] at steps
      exact Or.inr (by omega)
  · rcases tables.tables_apart found otherFound sameGroup with before | behind
    · exact Or.inl (by omega)
    · exact Or.inr (by omega)

end Ext2SuperBlock.InodeTables

/-- `inode_location` never panics, and what it accepts it finds by the formula of the
format, inside the block and the cache unit, and apart from all other inodes. -/
theorem inodeLocation_formula (tables : superblock.InodeTables size) :
    (∀ inodeNum, Completes (superblock.inodeLocation inodeNum)) ∧
      ∀ inodeNum sector offset, superblock.inodeLocation inodeNum = .ok (.ok (sector, offset)) →
        (∃ table, superblock.groups[(inodeNum - 1) / superblock.inodesPerGroup]? = some table ∧
          sector * 512 + offset =
            table * size + (inodeNum - 1) % superblock.inodesPerGroup * superblock.inodeSize) ∧
        offset + 128 ≤ size ∧ offset + 128 ≤ cacheBlockSize ∧
        ∀ other otherSector otherOffset,
          superblock.inodeLocation other = .ok (.ok (otherSector, otherOffset)) →
          inodeNum ≠ other →
            sector * 512 + offset + superblock.inodeSize ≤ otherSector * 512 + otherOffset ∨
              otherSector * 512 + otherOffset + superblock.inodeSize ≤ sector * 512 + offset := by
  refine ⟨fun inodeNum => ?_, fun inodeNum sector offset located => ?_⟩
  · rcases tables.inodeLocation_cases inodeNum with refused | ⟨_, _, _, -, -, found, -⟩
    · exact ⟨_, refused⟩
    · exact ⟨_, found⟩
  · obtain ⟨table, positive, found, place, inBlock⟩ := tables.place located
    have large := tables.large
    have inUnit : size ≤ cacheBlockSize := by
      rcases tables.sized.supported with rfl | rfl | rfl <;> decide
    refine ⟨⟨table, found, place⟩, by omega, by omega, ?_⟩
    intro other otherSector otherOffset otherLocated different
    obtain ⟨otherTable, otherPositive, otherFound, otherPlace, -⟩ := tables.place otherLocated
    rw [place, otherPlace]
    exact tables.places_apart found otherFound (by omega)

end Tables

def twoTables : Ext2SuperBlock :=
  { smallSuperBlock with blocksCount := 64, inodesPerGroup := 16, groups := [5, 20] }

theorem twoTables_tables : twoTables.InodeTables 1024 where
  sized := ⟨rfl, Or.inl rfl⟩
  divides := by decide
  large := by decide
  perGroup := by decide
  apart := by decide
  below := by decide

/-- The ninth inode of the second group is at the start of the second block of its table. -/
theorem twoTables_formula : twoTables.inodeLocation 25 = .ok (.ok (42, 0)) ∧
    ∃ table, twoTables.groups[24 / 16]? = some table ∧
      42 * 512 + 0 = table * 1024 + 24 % 16 * 128 := by
  have located : twoTables.inodeLocation 25 = .ok (.ok (42, 0)) := rfl
  exact ⟨located, ((inodeLocation_formula twoTables_tables).2 25 42 0 located).1⟩

/-! ## The number of groups -/

/-- The block of the first group: blocks of 1024 bytes leave the boot block out. -/
def firstDataBlock (size : Nat) : Nat := if size = 1024 then 1 else 0

namespace SuperBlockData

/-- The groups that the blocks behind the first data block make up. -/
def existingGroups (data : SuperBlockData) : Nat :=
  (data.blocksCount - firstDataBlock data.size + data.blocksPerGroup - 1) / data.blocksPerGroup

/-- The fields of a superblock of an ext2 volume with groups for one unit of
descriptors. -/
structure Valid (data : SuperBlockData) : Prop where
  shifts : data.logBlockSize < 32
  started : firstDataBlock data.size ≤ data.blocksCount
  blocksPerGroup_pos : 0 < data.blocksPerGroup
  inodesPerGroup_pos : 0 < data.inodesPerGroup
  inodesPerGroup_lt : data.inodesPerGroup < 2 ^ 32
  inodeSize_pos : 0 < data.inodeSize
  inodeSize_le : data.inodeSize ≤ data.size
  inodesCount_eq : data.inodesCount = data.existingGroups * data.inodesPerGroup
  inodesCount_lt : data.inodesCount < 2 ^ 32
  few : data.existingGroups ≤ 128

def TableBelow (data : SuperBlockData) (table : Nat) : Prop :=
  table + (data.inodesPerGroup - 1) / (data.size / data.inodeSize) < 2 ^ 32

/-- Once the group descriptors are read, the inodes of the volume are found and no
others, and the number of groups does not stop the mount. -/
def FindsExisting (data : SuperBlockData) : Prop :=
  (∀ volume groups, data.readGroupDescriptors volume = .ok (.ok groups) →
    (∀ table ∈ groups.take data.existingGroups, data.TableBelow table) →
    ∀ inodeNum < 2 ^ 32,
      ((∃ location, (data.superBlock volume groups).inodeLocation inodeNum = .ok (.ok location)) ↔
        1 ≤ inodeNum ∧ inodeNum ≤ data.inodesCount)) ∧
  ∃ count, data.numGroups = .ok count ∧ count ≤ maxGroupsInBuffer

/-- The sum for the number of groups fits a word, and where the boot block makes for
one more group, there are neither descriptors nor inode numbers to tell. -/
def CountsGroups (data : SuperBlockData) : Prop :=
  data.blocksCount + data.blocksPerGroup < 2 ^ 32 ∧
    (data.size = 1024 → data.blocksPerGroup ∣ data.blocksCount - 1 →
      data.existingGroups < 128 ∧ data.inodesCount = 2 ^ 32 - 1)

variable {data : SuperBlockData}

/-- The groups that the mount counts: one more than there are where the boot block
stands alone in a group. -/
theorem Valid.groupCount_eq (valid : data.Valid) :
    data.groupCount = data.existingGroups +
      if data.size = 1024 ∧ data.blocksPerGroup ∣ data.blocksCount - 1 then 1 else 0 := by
  have positive := valid.blocksPerGroup_pos
  have started := valid.started
  unfold groupCount existingGroups firstDataBlock at *
  by_cases small : data.size = 1024
  · rw [if_pos small] at started ⊢
    have next : data.blocksCount + data.blocksPerGroup - 1 =
        data.blocksCount - 1 + data.blocksPerGroup - 1 + 1 := by omega
    have divides : data.blocksPerGroup ∣ data.blocksCount - 1 + data.blocksPerGroup - 1 + 1 ↔
        data.blocksPerGroup ∣ data.blocksCount - 1 := by
      rw [Nat.sub_add_cancel (by omega)]
      exact Nat.dvd_add_self_right
    rw [next, Nat.succ_div]
    simp only [divides, small, true_and]
  · rw [if_neg small, if_neg (fun boot => small boot.1)]
    rfl

theorem length_inodeTables (data : SuperBlockData) (gdt : ByteMemory) :
    (data.inodeTables gdt).length = data.groupCount := by
  simp [inodeTables]

theorem length_of_readGroupDescriptors {volume : BlockVolume} {groups : List Nat}
    (read : data.readGroupDescriptors volume = .ok (.ok groups)) :
    groups.length = data.groupCount ∧ data.groupCount ≤ maxGroupsInBuffer := by
  obtain ⟨-, -, -, returned⟩ := readGroupDescriptors_eq_ok_iff.mp read
  split_ifs at returned with few
  cases answer : volume data.gdtSector with
  | error error =>
    rw [answer] at returned
    cases returned
  | ok gdt =>
    rw [answer] at returned
    cases returned
    exact ⟨data.length_inodeTables gdt, few⟩

theorem Valid.inodeLocation_accepts_iff (valid : data.Valid) (volume : BlockVolume)
    {groups : List Nat} (inodeNum : Nat)
    (below : ∀ table, groups[(inodeNum - 1) / data.inodesPerGroup]? = some table →
      data.TableBelow table) :
    (∃ location, (data.superBlock volume groups).inodeLocation inodeNum = .ok (.ok location)) ↔
      1 ≤ inodeNum ∧ inodeNum ≤ groups.length * data.inodesPerGroup := by
  have perGroup := valid.inodesPerGroup_pos
  have inGroups : (inodeNum - 1) / data.inodesPerGroup < groups.length ↔
      inodeNum - 1 < groups.length * data.inodesPerGroup := Nat.div_lt_iff_lt_mul perGroup
  rcases eq_or_ne inodeNum 0 with rfl | positive
  · refine iff_of_false ?_ (by omega)
    rintro ⟨_, located⟩
    cases located
  · cases found : groups[(inodeNum - 1) / data.inodesPerGroup]? with
    | none =>
      have outside := getElem?_eq_none_iff.mp found
      refine iff_of_false ?_ (by omega)
      rintro ⟨_, located⟩
      rw [inodeLocation_of_none positive perGroup.ne' found] at located
      cases located
    | some table =>
      obtain ⟨inside, -⟩ := List.getElem?_eq_some_iff.mp found
      have perBlock := Nat.div_pos valid.inodeSize_le valid.inodeSize_pos
      have index : (inodeNum - 1) % data.inodesPerGroup ≤ data.inodesPerGroup - 1 :=
        Nat.le_sub_one_of_lt (Nat.mod_lt _ perGroup)
      have inRange := Nat.add_le_add_left (Nat.div_le_div_right
        (c := data.size / data.inodeSize) index) table
      refine iff_of_true ⟨_, inodeLocation_of_some
        (blockSize_superBlock_eq_ok_iff.mpr ⟨valid.shifts, rfl⟩) (Nat.mod_lt _ (by norm_num))
        perBlock.ne' positive perGroup.ne' found
        (lt_of_le_of_lt inRange (below table found))⟩ (by omega)

theorem Valid.readGroupDescriptors_zeros (valid : data.Valid)
    (fits : data.blocksCount + data.blocksPerGroup < 2 ^ 32)
    (few : data.groupCount ≤ maxGroupsInBuffer) :
    data.readGroupDescriptors (fun _ => .ok fun _ => 0) =
      .ok (.ok (replicate data.groupCount 0)) := by
  have tables : data.inodeTables (fun _ => 0) = replicate data.groupCount 0 := by
    rw [eq_replicate_iff, length_inodeTables]
    refine ⟨rfl, fun table isTable => ?_⟩
    obtain ⟨index, -, rfl⟩ := mem_map.mp isTable
    rfl
  apply readGroupDescriptors_eq_ok_iff.mpr
  refine ⟨valid.blocksPerGroup_pos.ne', fits, valid.shifts, ?_⟩
  rw [if_pos few, ← tables]
  rfl

theorem Valid.tableBelow_zero (valid : data.Valid) : data.TableBelow 0 := by
  have whole := Nat.div_le_self (data.inodesPerGroup - 1) (data.size / data.inodeSize)
  have perGroup := valid.inodesPerGroup_lt
  unfold TableBelow
  omega

/-- Where the boot block makes for one more group, the first inode behind those of the
volume is found too. -/
theorem Valid.finds_next (valid : data.Valid)
    (fits : data.blocksCount + data.blocksPerGroup < 2 ^ 32)
    (few : data.groupCount ≤ maxGroupsInBuffer) (more : data.groupCount = data.existingGroups + 1)
    (finds : data.FindsExisting) : data.inodesCount = 2 ^ 32 - 1 := by
  have perGroup := valid.inodesPerGroup_pos
  have inodes := valid.inodesCount_eq
  have below := valid.inodesCount_lt
  by_contra fewer
  have read := valid.readGroupDescriptors_zeros fits few
  have zero : ∀ table ∈ replicate data.groupCount 0, data.TableBelow table := by
    intro table isTable
    rw [eq_of_mem_replicate isTable]
    exact valid.tableBelow_zero
  have accepted := valid.inodeLocation_accepts_iff (fun _ => .ok fun _ => 0)
    (data.inodesCount + 1) fun table found => zero table (mem_of_getElem? found)
  rw [finds.1 _ _ read (fun table isTable => zero table (mem_of_mem_take isTable))
    (data.inodesCount + 1) (by omega), length_replicate, more, Nat.succ_mul,
    ← inodes] at accepted
  omega

/-- The inodes of a volume are found exactly if its groups are counted. -/
theorem findsExisting_iff (valid : data.Valid) : data.FindsExisting ↔ data.CountsGroups := by
  have perGroup := valid.inodesPerGroup_pos
  have inodes := valid.inodesCount_eq
  have counted := valid.groupCount_eq
  constructor
  · intro finds
    obtain ⟨count, counts, few⟩ := finds.2
    obtain ⟨-, fits, rfl⟩ := numGroups_eq_ok_iff.mp counts
    refine ⟨fits, fun small divides => ?_⟩
    rw [if_pos ⟨small, divides⟩] at counted
    have enough : maxGroupsInBuffer = 128 := rfl
    exact ⟨by omega, valid.finds_next fits few counted finds⟩
  · rintro ⟨fits, boot⟩
    -- The last group that is counted has no inode numbers if it is not there.
    have lastGroup : data.groupCount = data.existingGroups ∨
        data.groupCount = data.existingGroups + 1 ∧ data.existingGroups < 128 ∧
          data.inodesCount = 2 ^ 32 - 1 := by
      split_ifs at counted with extra
      · exact Or.inr ⟨counted, boot extra.1 extra.2⟩
      · exact Or.inl counted
    constructor
    · intro volume groups read below inodeNum isWord
      obtain ⟨length, -⟩ := length_of_readGroupDescriptors read
      have numbers : inodeNum ≤ data.groupCount * data.inodesPerGroup ↔
          inodeNum ≤ data.inodesCount := by
        rcases lastGroup with same | ⟨more, -, full⟩
        · rw [same, inodes]
        · rw [more, Nat.succ_mul, ← inodes]
          omega
      rw [← numbers, ← length]
      apply valid.inodeLocation_accepts_iff
      intro table found
      have inside := (List.getElem?_eq_some_iff.mp found).1
      have isExisting : (inodeNum - 1) / data.inodesPerGroup < data.existingGroups := by
        rw [Nat.div_lt_iff_lt_mul perGroup, ← inodes]
        rw [length, Nat.div_lt_iff_lt_mul perGroup] at inside
        rcases lastGroup with same | ⟨-, -, full⟩
        · rwa [same, ← inodes] at inside
        · omega
      apply below
      exact mem_of_getElem? ((getElem?_take_of_lt isExisting).trans found)
    · have enough : maxGroupsInBuffer = 128 := rfl
      have few := valid.few
      refine ⟨data.groupCount,
        numGroups_eq_ok_iff.mpr ⟨valid.blocksPerGroup_pos.ne', fits, rfl⟩, ?_⟩
      omega

end SuperBlockData

/-- Blocks of 1024 bytes, in groups of eight with eight inodes. -/
def smallGroups (blocksCount groups : Nat) : SuperBlockData where
  inodesCount := groups * 8
  blocksCount := blocksCount
  logBlockSize := 0
  blocksPerGroup := 8
  inodesPerGroup := 8
  inodeSize := 128
  volumeLabel := none
  journalInum := none

theorem smallGroups_valid {blocksCount groups : Nat} (few : groups ≤ 128)
    (started : 1 ≤ blocksCount)
    (isCount : (blocksCount - 1 + 8 - 1) / 8 = groups) :
    (smallGroups blocksCount groups).Valid where
  shifts := (by decide : 0 < 32)
  started := started
  blocksPerGroup_pos := (by decide : 0 < 8)
  inodesPerGroup_pos := (by decide : 0 < 8)
  inodesPerGroup_lt := (by decide : 8 < 2 ^ 32)
  inodeSize_pos := (by decide : 0 < 128)
  inodeSize_le := (by decide : 128 ≤ 1024)
  inodesCount_eq := congrArg (· * 8) isCount.symm
  inodesCount_lt := by
    change groups * 8 < 2 ^ 32
    omega
  few := isCount.trans_le few

/-- Sixteen blocks make up two groups, with the boot block or without it. -/
theorem sixteenBlocks_finds : (smallGroups 16 2).FindsExisting := by
  rw [SuperBlockData.findsExisting_iff (smallGroups_valid (by decide) (by decide) rfl)]
  exact ⟨by decide, by decide⟩

/-- The boot block and sixteen blocks behind it are counted as three groups, so that
inode 17 is found behind the sixteen of the volume; a volume with the 128 groups that
fit is not mounted. -/
theorem bootBlock_counted :
    (smallGroups 17 2).Valid ∧ (smallGroups 17 2).inodesCount = 16 ∧
      (smallGroups 17 2).readGroupDescriptors (fun _ => .ok fun _ => 0) = .ok (.ok [0, 0, 0]) ∧
      ((smallGroups 17 2).superBlock (fun _ => .ok fun _ => 0) [0, 0, 0]).inodeLocation 17 =
        .ok (.ok (0, 0)) ∧
      (smallGroups 1025 128).Valid ∧
      (smallGroups 1025 128).readGroupDescriptors (fun _ => .ok fun _ => 0) =
        .ok (.error .invalidInput) :=
  ⟨smallGroups_valid (by decide) (by decide) rfl, rfl, rfl, rfl,
    smallGroups_valid (by decide) (by decide) rfl, rfl⟩

end NanoOs.Ext2
