import NanoOs.Ext2Directories
import NanoOs.Ext2Mounting

/-!
# The entries of ext2 directories

In a directory whose blocks are tiled by its records the iterator yields the live
entries and then ends. On any other disk it ends too, unless the lengths of the
records overflow its 32-bit count.
-/

namespace NanoOs.Ext2

open BlockDisk (BlockError)
open BlockVolumes (cacheBlockSize)
open Files List

structure StoredEntry where
  ino : Nat
  recLen : Nat
  name : List UInt8
  fileType : UInt8

namespace StoredEntry

structure At (stored : StoredEntry) (block : ByteMemory) (offset : Nat) : Prop where
  ino : block.readWord (offset + dirEntryInodeOffset) 4 = stored.ino
  recLen : block.readWord (offset + dirEntryRecLenOffset) 2 = stored.recLen
  nameLen : (block (offset + dirEntryNameLenOffset)).toNat = stored.name.length
  fileType : block (offset + dirEntryFileTypeOffset) = stored.fileType
  name : ∀ index (bound : index < stored.name.length),
    block (offset + dirEntryNameOffset + index) = stored.name[index]

theorem At.congr {stored : StoredEntry} {block other : ByteMemory} {offset size : Nat}
    (isAt : stored.At block offset)
    (inside : offset + dirEntryNameOffset + stored.name.length ≤ size)
    (same : ∀ index < size, other index = block index) : stored.At other offset := by
  simp only [dirEntryNameOffset] at inside
  have word : ∀ start count, start + count ≤ size →
      other.readWord start count = block.readWord start count := fun start count fits =>
    ByteMemory.readWord_congr fun location _ below => same location (by omega)
  refine ⟨?_, ?_, ?_, ?_, ?_⟩
  · rw [word _ _ (by simp only [dirEntryInodeOffset]; omega), isAt.ino]
  · rw [word _ _ (by simp only [dirEntryRecLenOffset]; omega), isAt.recLen]
  · rw [same _ (by simp only [dirEntryNameLenOffset]; omega), isAt.nameLen]
  · rw [same _ (by simp only [dirEntryFileTypeOffset]; omega), isAt.fileType]
  · intro index bound
    rw [same _ (by simp only [dirEntryNameOffset]; omega), isAt.name index bound]

def live (stored : StoredEntry) : Option RawDirEntry :=
  if stored.ino = 0 ∨ stored.name = [] then none
  else (String.fromUTF8? stored.name.toByteArray).map fun name =>
    ⟨stored.ino, name, stored.fileType.toNat⟩

end StoredEntry

def Tiled (size : Nat) (block : ByteMemory) : Nat → List StoredEntry → Prop
  | offset, [] => offset = size
  | offset, stored :: entries =>
      stored.At block offset ∧ dirEntryNameOffset + stored.name.length ≤ stored.recLen ∧
        offset + stored.recLen ≤ size ∧ Tiled size block (offset + stored.recLen) entries

section Tiled

variable {size offset : Nat} {block : ByteMemory} {entries : List StoredEntry}

theorem recordAt_of_at {stored : StoredEntry} (isAt : stored.At block offset)
    (inside : offset + dirEntryNameOffset + stored.name.length ≤ size) :
    recordAt size block offset = ⟨stored.recLen, stored.live⟩ := by
  have bytes : (range stored.name.length).map
      (fun index => block (offset + dirEntryNameOffset + index)) = stored.name := by
    apply ext_getElem
    · simp
    · intro index _ bound
      rw [getElem_map, getElem_range, isAt.name index bound]
  have skip : (stored.ino = 0 ∨ stored.name.length = 0 ∨
      offset + dirEntryNameOffset + stored.name.length > size) ↔
      stored.ino = 0 ∨ stored.name = [] := by
    rw [← length_eq_zero_iff]
    omega
  simp only [recordAt, isAt.ino, isAt.recLen, isAt.nameLen, isAt.fileType, bytes, skip,
    StoredEntry.live]

section

variable (tiled : Tiled size block offset entries)

include tiled

theorem recordsFrom_tiled :
    recordsFrom size block offset = entries.map fun stored => ⟨stored.recLen, stored.live⟩ := by
  induction entries generalizing offset with
  | nil =>
    cases tiled
    apply DirEntryIter.recordsFrom_of_not
    simp [dirEntryNameOffset]
  | cons stored entries ih =>
    obtain ⟨isAt, whole, inside, rest⟩ := tiled
    have header : dirEntryNameOffset = 8 := rfl
    have record : recordAt size block offset = ⟨stored.recLen, stored.live⟩ :=
      recordAt_of_at isAt (by omega)
    have fits : offset + dirEntryNameOffset ≤ size := by omega
    have positive : (recordAt size block offset).recLen ≠ 0 := by
      rw [record]
      dsimp only
      omega
    rw [DirEntryIter.recordsFrom_of_fits fits positive, record, ih rest, map_cons]

theorem Tiled.sum_recLen : offset + (entries.map StoredEntry.recLen).sum = size := by
  induction entries generalizing offset with
  | nil => exact tiled
  | cons stored entries ih =>
    obtain ⟨-, -, -, rest⟩ := tiled
    rw [map_cons, sum_cons, ← Nat.add_assoc]
    exact ih rest

theorem Tiled.recLen_pos : ∀ stored ∈ entries, 0 < stored.recLen := by
  induction entries generalizing offset with
  | nil => exact nofun
  | cons stored entries ih =>
    obtain ⟨-, whole, -, rest⟩ := tiled
    rw [forall_mem_cons]
    refine ⟨?_, ih rest⟩
    simp only [dirEntryNameOffset] at whole
    omega

theorem Tiled.congr {other : ByteMemory} (same : ∀ index < size, other index = block index) :
    Tiled size other offset entries := by
  induction entries generalizing offset with
  | nil => exact tiled
  | cons stored entries ih =>
    obtain ⟨isAt, whole, inside, rest⟩ := tiled
    exact ⟨isAt.congr (by omega) same, whole, inside, ih rest⟩

end

end Tiled

/-- The calls of `next` return these entries and then `None`. -/
inductive DirEntryIter.Yields : DirEntryIter → List RawDirEntry → Prop
  | ended {iter after : DirEntryIter} (next : iter.next = .ok (none, after)) : Yields iter []
  | entry {iter after : DirEntryIter} {entry : RawDirEntry} {entries : List RawDirEntry}
      (next : iter.next = .ok (some (.ok entry), after)) (rest : Yields after entries) :
      Yields iter (entry :: entries)

theorem DirEntryIter.Sound.yields {iter : DirEntryIter} (sound : iter.Sound)
    {entries : List RawDirEntry} (walked : iter.walk = .ok (entries, none)) :
    iter.Yields entries := by
  induction entries generalizing iter with
  | nil =>
    have step := sound.next_step
    generalize next : iter.next = result at step
    cases step with
    | ended yields => exact .ended next
    | failed yields =>
      rw [walked] at yields
      cases yields
    | overflow yields =>
      rw [walked] at yields
      cases yields
    | @entry first after afterSound fewer yields =>
      rw [walked] at yields
      obtain ⟨_, -, none⟩ := DirEntryIter.walk_eq_cons yields
      cases none
  | cons entry entries ih =>
    have step := sound.next_step
    generalize next : iter.next = result at step
    cases step with
    | ended yields =>
      rw [walked] at yields
      cases yields
    | failed yields =>
      rw [walked] at yields
      cases yields
    | overflow yields =>
      rw [walked] at yields
      cases yields
    | @entry first after afterSound fewer yields =>
      rw [walked] at yields
      obtain ⟨_, afterWalked, same⟩ := DirEntryIter.walk_eq_cons yields
      cases same
      exact .entry next (ih afterSound afterWalked)

theorem replay_exact {dirSize bytesRead : Nat} {records : List Record} (rest : List Record)
    (ending : Option BlockError) (positive : ∀ record ∈ records, 0 < record.recLen)
    (fits : dirSize < 2 ^ 32) (below : bytesRead < dirSize)
    (exact : bytesRead + (records.map Record.recLen).sum = dirSize) :
    replay dirSize ending bytesRead (records ++ rest) =
      .ok (records.filterMap Record.entry, none) := by
  induction records generalizing bytesRead with
  | nil =>
    exact absurd exact below.ne
  | cons record records ih =>
    rw [forall_mem_cons] at positive
    rw [map_cons, sum_cons] at exact
    rw [cons_append, replay, if_pos (by omega), filterMap_cons]
    by_cases last : bytesRead + record.recLen ≥ dirSize
    · have none : records = [] := by
        cases records with
        | nil => rfl
        | cons next records =>
          have some := positive.2 next mem_cons_self
          rw [map_cons, sum_cons] at exact
          omega
      rw [if_pos last, none]
      cases record.entry <;> rfl
    · rw [if_neg last, ih positive.2 (by omega) (by omega)]
      cases record.entry <;> rfl

/-- A directory on a volume: a number of allocated blocks, each tiled by entries. -/
structure TiledDirectory (inode : Inode Ext2InodeData) (contents : ByteMemory) (size count : Nat)
    (tiles : Nat → List StoredEntry) : Prop where
  isDirectory : inode.fileType = .directory
  len : inode.len = count * size
  fits : inode.len < 2 ^ 32
  allocated : ∀ index < count, slotPointer contents size inode.fsData.blocks index ≠ 0
  tiled : ∀ index < count,
    Tiled size (fun position =>
      contents (slotPointer contents size inode.fsData.blocks index * size + position)) 0
      (tiles index)

section TiledDirectory

variable {inode : Inode Ext2InodeData} {contents : ByteMemory} {size count : Nat}
  {tiles : Nat → List StoredEntry}

section

variable (directory : TiledDirectory inode contents size count tiles)

include directory

theorem TiledDirectory.recordsAt_eq (reads : Reads inode.fsData.superblock.volume contents)
    (sized : inode.fsData.superblock.Sized size) {index : Nat} (inside : index < count) :
    let iter := startOf inode (fun _ => inode.fsData.superblock.volume) size
    iter.recordsAt index =
      ((tiles index).map (fun stored => ⟨stored.recLen, stored.live⟩) ++
        (iter.recordsAt (index + 1)).1, (iter.recordsAt (index + 1)).2) := by
  intro iter
  have pointer : inode.fsData.superblock.resolveBlockPtr inode.fsData.blocks index = _ :=
    resolveBlockPtr_slot reads sized index
  have allocated := directory.allocated index inside
  obtain ⟨buf, found, bytes⟩ :=
    getBlock_reads reads sized (slotPointer contents size inode.fsData.blocks index)
  have load : loadBlock inode.fsData.superblock inode.fsData.blocks index = .ok (.block buf) := by
    rw [loadBlock, pointer, ExceptT.run, ok_bind]
    dsimp only
    rw [if_neg allocated, found, ExceptT.run, ok_bind]
  have isBlock : iter.loads index = .block buf := DirEntryIter.loads_of_load load
  have inRange : index < slotCount size := by
    by_contra beyond
    apply allocated
    rw [slotPointer, (slotOf_eq_none_iff index).mpr (Nat.not_lt.mp beyond)]
  have inUnit : size ≤ cacheBlockSize := by
    rcases sized.supported with rfl | rfl | rfl <;> decide
  have tiled : Tiled size buf 0 (tiles index) :=
    (directory.tiled index inside).congr fun position below => bytes position (by omega)
  rw [DirEntryIter.recordsAt_block inRange isBlock]
  exact congrArg (fun records => (records ++ _, _)) (recordsFrom_tiled tiled)

/-- The records of the blocks from an index on start with those of the directory. -/
theorem TiledDirectory.records (reads : Reads inode.fsData.superblock.volume contents)
    (sized : inode.fsData.superblock.Sized size) {index : Nat} {left : Nat}
    (total : index + left = count) :
    let iter := startOf inode (fun _ => inode.fsData.superblock.volume) size
    ∃ rest, (iter.recordsAt index).1 =
      ((range' index left).flatMap tiles).map
        (fun stored => ⟨stored.recLen, stored.live⟩) ++ rest := by
  intro iter
  induction left generalizing index with
  | zero => exact ⟨_, rfl⟩
  | succ left ih =>
    obtain ⟨rest, restRecords⟩ := @ih (index + 1) (by omega)
    refine ⟨rest, ?_⟩
    have here := directory.recordsAt_eq reads sized (show index < count by omega)
    rw [here, range'_succ, flatMap_cons, map_append, append_assoc,
      ← restRecords]

theorem TiledDirectory.sum_recLen {index left : Nat} (total : index + left = count) :
    (((range' index left).flatMap tiles).map StoredEntry.recLen).sum = left * size := by
  induction left generalizing index with
  | zero =>
    rw [Nat.zero_mul]
    rfl
  | succ left ih =>
    have here := (directory.tiled index (by omega)).sum_recLen
    rw [range'_succ, flatMap_cons, map_append, sum_append,
      @ih (index + 1) (by omega), Nat.succ_mul]
    omega

theorem TiledDirectory.walk_eq (reads : Reads inode.fsData.superblock.volume contents)
    (sized : inode.fsData.superblock.Sized size) :
    (startOf inode (fun _ => inode.fsData.superblock.volume) size).walk =
      .ok (((range count).flatMap tiles).filterMap StoredEntry.live, none) := by
  have positive : 0 < size := by
    rcases sized.supported with rfl | rfl | rfl <;> decide
  rw [startOf_walk, Nat.mod_eq_of_lt directory.fits, directory.len, range_eq_range']
  cases count with
  | zero =>
    rw [Nat.zero_mul, if_pos rfl]
    rfl
  | succ count =>
    have some : 0 < (count + 1) * size := Nat.mul_pos (Nat.succ_pos _) positive
    obtain ⟨rest, records⟩ := directory.records reads sized (Nat.zero_add _)
    have lengths : ∀ record ∈ ((range' 0 (count + 1)).flatMap tiles).map
        (fun stored => (⟨stored.recLen, stored.live⟩ : Record)), 0 < record.recLen := by
      intro record mem
      obtain ⟨stored, storedMem, rfl⟩ := mem_map.mp mem
      obtain ⟨index, indexMem, inTiles⟩ := mem_flatMap.mp storedMem
      obtain ⟨step, below, rfl⟩ := mem_range'.mp indexMem
      exact (directory.tiled _ (by omega)).recLen_pos stored inTiles
    have total := directory.sum_recLen (Nat.zero_add _)
    rw [if_neg some.ne', records, replay_exact rest _ lengths (directory.len ▸ directory.fits) some
      (by rw [map_map, Nat.zero_add]; exact total), filterMap_map]
    rfl

end

/-- The iterator yields the live entries of a tiled directory, in their order on
the disk, and then ends; so `lookup` asks for the inode of the first live entry
with the name, and finds nothing where there is none. -/
theorem directory_yields_live (directory : TiledDirectory inode contents size count tiles)
    (reads : Reads inode.fsData.superblock.volume contents)
    (sized : inode.fsData.superblock.Sized size) :
    let answers := fun _ => inode.fsData.superblock.volume
    let entries := ((List.range count).flatMap tiles).filterMap StoredEntry.live
    (∃ iter, DirEntryIter.new inode answers = .ok iter ∧ iter.Yields entries) ∧
      ∀ {Node : Type} (getOrReadInode : Nat → Fallible Node) (name : String),
        lookup inode answers getOrReadInode name =
          DirEntryIter.lookupAmong getOrReadInode name entries := by
  intro answers entries
  have walked := directory.walk_eq reads sized
  constructor
  · exact ⟨startOf inode answers size, new_eq_startOf sized answers,
      (startOf_sound sized answers).yields walked⟩
  · intro Node getOrReadInode name
    exact lookup_eq getOrReadInode name sized directory.isDirectory walked

end TiledDirectory

/-- A block with the entry of a directory for itself and a deleted one. -/
def dotBlock : ByteMemory := fun location =>
  [2, 0, 0, 0, 12, 0, 1, 2, 46, 0, 0, 0, 0, 0, 0, 0, 0xf4, 3, 1, 1, 97].getD location 0

/-- A directory with this block, at block 20 of a volume that holds it everywhere. -/
def dotDirectory : Inode Ext2InodeData :=
  { ino := 2
    fileType := .directory
    len := 1024
    fsData :=
      { superblock :=
          { smallSuperBlock with
            groups := [5]
            volume := fun sector => .ok fun index => dotBlock ((sector * 512 + index) % 1024) }
        blocks := fun index => if index = 0 then 20 else 0 } }

theorem dotDirectory_yields :
    ∃ iter, DirEntryIter.new dotDirectory (fun _ => dotDirectory.fsData.superblock.volume) =
        .ok iter ∧
      iter.Yields ([⟨2, 12, [46], 2⟩, ⟨0, 1012, [97], 1⟩].filterMap StoredEntry.live) := by
  have reads : Reads dotDirectory.fsData.superblock.volume fun location =>
      dotBlock (location % 1024) := fun _ => ⟨_, rfl, fun _ _ => rfl⟩
  have directory : TiledDirectory dotDirectory (fun location => dotBlock (location % 1024)) 1024 1
      fun _ => [⟨2, 12, [46], 2⟩, ⟨0, 1012, [97], 1⟩] := by
    refine ⟨rfl, rfl, by decide, ?_, ?_⟩
    · intro index inside
      cases Nat.lt_one_iff.mp inside
      decide
    · intro index inside
      cases Nat.lt_one_iff.mp inside
      refine ⟨⟨by decide, by decide, by decide, by decide, ?_⟩, by decide, by decide,
        ⟨by decide, by decide, by decide, by decide, ?_⟩, by decide, by decide, rfl⟩
      · intro index bound
        cases Nat.lt_one_iff.mp bound
        decide +revert
      · intro index bound
        cases Nat.lt_one_iff.mp bound
        decide +revert
  exact (directory_yields_live directory reads ⟨rfl, Or.inl rfl⟩).1

/-- The 32-bit count of the bytes read holds the length of every record that the
iterator comes to before the end of the directory. -/
def LengthsFit (dirSize : Nat) (records : List Record) : Prop :=
  ∀ before record after, records = before ++ record :: after →
    (before.map Record.recLen).sum < dirSize →
      (before.map Record.recLen).sum + record.recLen < 2 ^ 32

theorem map_returns_iff {α β : Type} {change : α → β} {call : Checked α} :
    (∃ result, change <$> call = .ok result) ↔ ∃ result, call = .ok result := by
  cases call with
  | error fault => exact ⟨fun ⟨_, ran⟩ => (nomatch ran), fun ⟨_, ran⟩ => (nomatch ran)⟩
  | ok result => exact ⟨fun _ => ⟨result, rfl⟩, fun _ => ⟨change result, rfl⟩⟩

theorem replay_returns_iff {dirSize bytesRead : Nat} {records : List Record}
    {ending : Option BlockError} (below : bytesRead < dirSize) :
    (∃ result, replay dirSize ending bytesRead records = .ok result) ↔
      ∀ before record after, records = before ++ record :: after →
        bytesRead + (before.map Record.recLen).sum < dirSize →
          bytesRead + (before.map Record.recLen).sum + record.recLen < 2 ^ 32 := by
  induction records generalizing bytesRead with
  | nil => simp [replay]
  | cons first records ih =>
    constructor
    · intro returns before record after split counting
      rw [replay] at returns
      by_cases counts : bytesRead + first.recLen < 2 ^ 32
      · rw [if_pos counts, map_returns_iff] at returns
        cases before with
        | nil =>
          cases split
          simpa using counts
        | cons _ before =>
          obtain ⟨rfl, rfl⟩ := split
          rw [map_cons, sum_cons, ← Nat.add_assoc] at counting ⊢
          rw [if_neg (by omega)] at returns
          exact (ih (by omega)).mp returns before record after rfl counting
      · rw [if_neg counts] at returns
        obtain ⟨result, ran⟩ := returns
        cases ran
    · intro fit
      have counts := fit [] first records rfl (by simpa using below)
      rw [map_nil, sum_nil, Nat.add_zero] at counts
      rw [replay, if_pos counts, map_returns_iff]
      by_cases last : bytesRead + first.recLen ≥ dirSize
      · rw [if_pos last]
        exact ⟨_, rfl⟩
      · rw [if_neg last, ih (Nat.not_le.mp last)]
        intro before record after split counting
        have fits := fit (first :: before) record after (by rw [split]; rfl)
        rw [map_cons, sum_cons, ← Nat.add_assoc] at fits
        exact fits counting

theorem recLen_lt_of_mem_recordsFrom {size : Nat} {block : ByteMemory} {offset : Nat} :
    ∀ record ∈ recordsFrom size block offset, record.recLen < 2 ^ 16 := by
  fun_induction recordsFrom size block offset with
  | case1 offset fits ih =>
    rw [forall_mem_cons]
    exact ⟨ByteMemory.readWord_lt _ _ _, ih⟩
  | case2 offset none => exact nofun

theorem recLen_lt_of_mem_recordsOf {size : Nat} {loads : Nat → BlockLoad} {count blockIdx : Nat} :
    ∀ record ∈ (recordsOf size loads count blockIdx).1, record.recLen < 2 ^ 16 := by
  induction count generalizing blockIdx with
  | zero => exact forall_mem_nil _
  | succ count ih =>
    rw [recordsOf]
    cases loads blockIdx with
    | hole => exact forall_mem_nil _
    | failed error => exact forall_mem_nil _
    | block block => exact forall_mem_append.mpr ⟨recLen_lt_of_mem_recordsFrom, ih⟩

/-- A directory that is not within 64 KiB of the largest size has no records that
overflow the count. -/
theorem lengthsFit_of_small {iter : DirEntryIter} {dirSize blockIdx : Nat}
    (small : dirSize + 2 ^ 16 ≤ 2 ^ 32) : LengthsFit dirSize (iter.recordsAt blockIdx).1 := by
  intro before record after split counting
  have short : record.recLen < 2 ^ 16 := by
    apply recLen_lt_of_mem_recordsOf record
    change record ∈ (iter.recordsAt blockIdx).1
    rw [split]
    exact mem_append_right _ mem_cons_self
  omega

/-- `get_or_read_inode`, over what the cache holds for the inode. -/
def Ext2SuperBlock.getOrReadInode (superblock : Ext2SuperBlock)
    (cached : Nat → Option (Inode Ext2InodeData)) (inodeNum : Nat) :
    Fallible (Inode Ext2InodeData) :=
  match cached inodeNum with
  | some inode => pure inode
  | none => superblock.readInode inodeNum

theorem getOrReadInode_completes_iff {superblock : Ext2SuperBlock} {size : Nat}
    (sized : superblock.Sized size) (cached : Nat → Option (Inode Ext2InodeData))
    (inodeNum : Nat) :
    Completes (superblock.getOrReadInode cached inodeNum) ↔
      cached inodeNum = none → superblock.InodeSafe size inodeNum 100 := by
  unfold Ext2SuperBlock.getOrReadInode
  cases cached inodeNum with
  | some inode => exact iff_of_true (completes_pure inode) nofun
  | none =>
    have supported := sized.supported
    rw [readInode_completes_iff sized.blockSize_eq (by omega)]
    exact (imp_iff_right rfl).symm

theorem lookupAmong_returns_iff {Node : Type} {getOrReadInode : Nat → Fallible Node}
    {name : String} {entries : List RawDirEntry} :
    (∃ result, DirEntryIter.lookupAmong getOrReadInode name entries = .ok result) ↔
      ∀ entry, (entries.find? fun entry => entry.name = name) = some entry →
        Completes (getOrReadInode entry.ino) := by
  unfold DirEntryIter.lookupAmong
  cases entries.find? fun entry => entry.name = name with
  | none => exact iff_of_true ⟨_, rfl⟩ nofun
  | some entry =>
    simp only [Option.some.injEq, forall_eq']
    constructor
    · rintro ⟨result, ran⟩
      obtain ⟨answer, answered, -⟩ := bind_eq_ok.mp ran
      exact ⟨answer, answered⟩
    · rintro ⟨answer, answered⟩
      cases answer with
      | error error => exact ⟨_, bind_eq_ok.mpr ⟨_, answered, rfl⟩⟩
      | ok node => exact ⟨_, bind_eq_ok.mpr ⟨_, answered, rfl⟩⟩

section Returns

variable {file : File Ext2InodeData} {size : Nat}
  (sized : file.inode.fsData.superblock.Sized size)
  (directory : file.inode.fileType = .directory) (answers : Nat → BlockVolume)

include sized directory

theorem readdir_lookup_return_iff_completes {Node : Type} (getOrReadInode : Nat → Fallible Node) :
    ((∃ result, readdir file answers = .ok result) ∧
        ∀ name, ∃ result, lookup file.inode answers getOrReadInode name = .ok result) ↔
      LengthsFit (file.inode.len % 2 ^ 32) ((startOf file.inode answers size).recordsAt 0).1 ∧
        ∀ entries ending, (startOf file.inode answers size).walk = .ok (entries, ending) →
          ∀ name entry, (entries.find? fun entry => entry.name = name) = some entry →
            Completes (getOrReadInode entry.ino) := by
  have walkReturns : (∃ walked, (startOf file.inode answers size).walk = .ok walked) ↔
      LengthsFit (file.inode.len % 2 ^ 32)
        ((startOf file.inode answers size).recordsAt 0).1 := by
    rw [startOf_walk]
    by_cases empty : file.inode.len % 2 ^ 32 = 0
    · rw [if_pos empty, empty]
      exact ⟨fun _ _ _ _ _ below => absurd below (Nat.not_lt_zero _), fun _ => ⟨_, rfl⟩⟩
    · rw [if_neg empty, replay_returns_iff (Nat.pos_of_ne_zero empty)]
      simp only [Nat.zero_add]
      rfl
  rw [← walkReturns, readdir_eq sized directory, map_returns_iff]
  refine and_congr_right fun ⟨⟨entries, ending⟩, walked⟩ => ?_
  have lookups := fun name => lookup_eq getOrReadInode name sized directory walked
  simp only [lookups, lookupAmong_returns_iff, walked]
  constructor
  · rintro returns _ _ ⟨⟩
    exact returns
  · exact fun returns => returns entries ending rfl

/-- `readdir` and every `lookup` return exactly when the lengths of the records fit the
count, and the inode that the first entry of each name has is cached or can be read
within the buffer; whatever the directory blocks hold and the volume answers. -/
theorem readdir_lookup_return_iff (volume : BlockVolume)
    (cached : Nat → Option (Inode Ext2InodeData)) :
    let superblock := { file.inode.fsData.superblock with volume := volume }
    ((∃ result, readdir file answers = .ok result) ∧
        ∀ name, ∃ result,
          lookup file.inode answers (superblock.getOrReadInode cached) name = .ok result) ↔
      LengthsFit (file.inode.len % 2 ^ 32) ((startOf file.inode answers size).recordsAt 0).1 ∧
        ∀ entries ending, (startOf file.inode answers size).walk = .ok (entries, ending) →
          ∀ name entry, (entries.find? fun entry => entry.name = name) = some entry →
            cached entry.ino = none → superblock.InodeSafe size entry.ino 100 := by
  intro superblock
  have sizedInodes : superblock.Sized size := ⟨sized.blockSize_eq, sized.supported⟩
  rw [readdir_lookup_return_iff_completes sized directory]
  simp only [getOrReadInode_completes_iff sizedInodes]

end Returns

theorem dotDirectory_returns :
    let file : File Ext2InodeData := { offset := 0, inode := dotDirectory }
    let superblock := dotDirectory.fsData.superblock
    (∃ result, readdir file (fun _ => superblock.volume) = .ok result) ∧ ∀ name, ∃ result,
      lookup dotDirectory (fun _ => superblock.volume) (superblock.getOrReadInode fun _ => none)
        name = .ok result := by
  intro file superblock
  have sized : file.inode.fsData.superblock.Sized 1024 := ⟨rfl, Or.inl rfl⟩
  refine (readdir_lookup_return_iff sized rfl _ superblock.volume _).mpr
    ⟨lengthsFit_of_small (by decide), ?_⟩
  intro entries ending _ name entry _ _
  refine Or.inr ⟨by decide, fun inodeTable found => ?_⟩
  obtain rfl : inodeTable = 5 := mem_singleton.mp (mem_of_getElem? found)
  refine ⟨by decide, ?_, fun _ _ => ?_⟩
  · change 5 + (entry.ino - 1) % 8 / (1024 / 128) < 2 ^ 32
    omega
  · change (entry.ino - 1) % 8 % (1024 / 128) * 128 + 100 ≤ 4096
    omega

/-- Two records without a name, one of eight bytes and one of 65535. -/
def longRecords : ByteMemory := fun location =>
  [1, 0, 0, 0, 8, 0, 0, 0, 1, 0, 0, 0, 0xff, 0xff, 0, 0].getD location 1

/-- A directory of the largest size, on a volume that holds these records in every
block. -/
def longDirectory : File Ext2InodeData :=
  { offset := 0
    inode :=
      { ino := 2
        fileType := .directory
        len := 2 ^ 32 - 1
        fsData :=
          { superblock := { smallSuperBlock with volume := fun _ => .ok longRecords }
            blocks := fun _ => 7 } } }

section LongDirectory

theorem longDirectory_sized : longDirectory.inode.fsData.superblock.Sized 1024 :=
  ⟨rfl, Or.inl rfl⟩

theorem longRecords_pointer : ∀ index < 1024 / 4, longRecords.readWord (index * 4) 4 ≠ 0 := by
  decide +kernel

theorem longDirectory_readPointer (blockNum : Nat) {index : Nat} (inBlock : index < 1024 / 4) :
    longDirectory.inode.fsData.superblock.readPointer blockNum index =
      .ok (.ok (longRecords.readWord (index * 4) 4)) := by
  change (liftM (readU32Le longRecords (index * 4)) : Fallible Nat) = _
  rw [readU32Le_of_le longRecords (by simp only [BlockVolumes.cacheBlockSize]; omega)]
  rfl

theorem longDirectory_allocated {blockIdx : Nat} (inRange : blockIdx < slotCount 1024) :
    ∃ pointer, pointer ≠ 0 ∧ longDirectory.inode.fsData.superblock.resolveBlockPtr
      longDirectory.inode.fsData.blocks blockIdx = .ok (.ok pointer) := by
  unfold slotCount at inRange
  dsimp only [Ext2SuperBlock.resolveBlockPtr, resolveWith]
  by_cases direct : blockIdx < ndirBlocks
  · rw [if_pos direct]
    exact ⟨7, by decide, rfl⟩
  · rw [if_neg direct, fallible_lift longDirectory_sized.blockSize_eq]
    by_cases single : blockIdx - ndirBlocks < 1024 / 4
    · rw [if_pos single, if_neg (by decide), longDirectory_readPointer _ single]
      exact ⟨_, longRecords_pointer _ single, rfl⟩
    · have double : blockIdx - ndirBlocks - 1024 / 4 < 1024 / 4 * (1024 / 4) := by omega
      have outer : (blockIdx - ndirBlocks - 1024 / 4) / (1024 / 4) < 1024 / 4 :=
        Nat.div_lt_of_lt_mul double
      have inner := Nat.mod_lt (blockIdx - ndirBlocks - 1024 / 4) (show 0 < 1024 / 4 by decide)
      rw [if_neg single, if_pos double, if_neg (by decide),
        fallible_bind (longDirectory_readPointer _ outer), if_neg (longRecords_pointer _ outer),
        longDirectory_readPointer _ inner]
      exact ⟨_, longRecords_pointer _ inner, rfl⟩

theorem longDirectory_loads {blockIdx : Nat} (inRange : blockIdx < slotCount 1024) :
    (startOf longDirectory.inode (fun _ _ => .ok longRecords) 1024).loads blockIdx =
      .block longRecords := by
  obtain ⟨pointer, allocated, resolved⟩ := longDirectory_allocated inRange
  have loaded : loadBlock longDirectory.inode.fsData.superblock
      longDirectory.inode.fsData.blocks blockIdx = .ok (.block longRecords) := by
    rw [loadBlock, resolved, ExceptT.run, ok_bind]
    dsimp only
    rw [if_neg allocated]
    rfl
  exact DirEntryIter.loads_of_load loaded

theorem longRecords_records :
    recordsFrom 1024 longRecords 0 = [⟨8, none⟩, ⟨65535, none⟩] := by
  have first : recordAt 1024 longRecords 0 = ⟨8, none⟩ := rfl
  have second : recordAt 1024 longRecords (0 + 8) = ⟨65535, none⟩ := rfl
  rw [DirEntryIter.recordsFrom_of_fits (by decide) (by rw [first]; decide), first]
  rw [DirEntryIter.recordsFrom_of_fits (by decide) (by rw [second]; decide), second,
    DirEntryIter.recordsFrom_of_not (by decide)]

theorem longDirectory_records {count blockIdx : Nat} (inRange : blockIdx + count ≤ slotCount 1024)
    (more : Nat) :
    ∃ rest, (recordsOf 1024 (startOf longDirectory.inode (fun _ _ => .ok longRecords) 1024).loads
        (count + more) blockIdx).1 =
      (replicate count [⟨8, none⟩, ⟨65535, none⟩]).flatten ++ rest := by
  induction count generalizing blockIdx with
  | zero => exact ⟨_, rfl⟩
  | succ count ih =>
    obtain ⟨rest, restRecords⟩ := @ih (blockIdx + 1) (by omega)
    refine ⟨rest, ?_⟩
    rw [Nat.succ_add, recordsOf, longDirectory_loads (by omega)]
    dsimp only
    rw [longRecords_records, restRecords, replicate_succ, flatten_cons,
      append_assoc]

/-- The count overflows in the last record of a block behind some others. -/
theorem replay_overflows {count dirSize bytesRead : Nat} (rest : List Record)
    (ending : Option BlockError) (fits : dirSize ≤ 2 ^ 32)
    (counting : bytesRead + count * 65543 + 8 < dirSize)
    (overflows : 2 ^ 32 ≤ bytesRead + count * 65543 + 8 + 65535) :
    replay dirSize ending bytesRead
        ((replicate (count + 1) [⟨8, none⟩, ⟨65535, none⟩]).flatten ++ rest) =
      .error .overflow := by
  induction count generalizing bytesRead with
  | zero =>
    rw [replicate_succ, flatten_cons, append_assoc, cons_append, replay,
      if_pos (by dsimp only; omega), if_neg (by dsimp only; omega), cons_append, replay,
      if_neg (by dsimp only; omega)]
    rfl
  | succ count ih =>
    rw [replicate_succ, flatten_cons, append_assoc, cons_append, replay,
      if_pos (by dsimp only; omega), if_neg (by dsimp only; omega), cons_append, replay,
      if_pos (by dsimp only; omega), if_neg (by dsimp only; omega), nil_append,
      ih (by dsimp only; omega) (by dsimp only; omega)]
    rfl

/-- In a directory of the largest size that is filled with such records the count
overflows, in block 65529. -/
theorem longDirectory_overflows :
    longDirectory.inode.fileType = .directory ∧
      longDirectory.inode.fsData.superblock.Sized 1024 ∧
      readdir longDirectory (fun _ _ => .ok longRecords) = .error .overflow := by
  refine ⟨rfl, longDirectory_sized, ?_⟩
  obtain ⟨rest, records⟩ := @longDirectory_records (65529 + 1) 0 (by decide) 274
  have overflows : (startOf longDirectory.inode (fun _ _ => .ok longRecords) 1024).walk =
      .error .overflow := by
    rw [startOf_walk, if_neg (by decide)]
    change replay _ _ 0 (recordsOf 1024 _ (65529 + 1 + 274) 0).1 = _
    rw [records]
    exact replay_overflows rest _ (by decide) (by decide) (by decide)
  rw [readdir_eq longDirectory_sized rfl, overflows]
  rfl

end LongDirectory

end NanoOs.Ext2
