import NanoOs.Ext2BlockMap

/-!
# Ext2 directories

`DirEntryIter` walks the records of a directory, loading one block after another.
What it yields is a replay of the records on the disk, up to the size of the
directory or the first block that is missing or cannot be read.
-/

namespace NanoOs.Ext2

open BlockDisk (BlockError)
open BlockVolumes (cacheBlockSize)
open Files

def dirEntryInodeOffset : Nat := 0
def dirEntryRecLenOffset : Nat := 4
def dirEntryNameLenOffset : Nat := 6
def dirEntryFileTypeOffset : Nat := 7
def dirEntryNameOffset : Nat := 8

def ext2FtRegFile : Nat := 1
def ext2FtDir : Nat := 2
def ext2FtChrdev : Nat := 3
def ext2FtBlkdev : Nat := 4

structure RawDirEntry where
  ino : Nat
  name : String
  fileType : Nat
  deriving DecidableEq

/-- The iterator, with the answers of the volume while it loads each block. -/
structure DirEntryIter where
  superblock : Ext2SuperBlock
  answers : Nat → BlockVolume
  blocks : Nat → Nat
  dirSize : Nat
  buf : Option ByteMemory
  blockSize : Nat
  blockIdx : Nat
  blockOffset : Nat
  bytesRead : Nat

def readU8 (buf : ByteMemory) (offset : Nat) : Checked Nat := do
  ensure (offset < cacheBlockSize) "index out of bounds"
  .ok (buf offset).toNat

inductive BlockLoad where
  | block (buf : ByteMemory)
  | hole
  | failed (error : BlockError)

def loadBlock (superblock : Ext2SuperBlock) (blocks : Nat → Nat) (blockIdx : Nat) :
    Checked BlockLoad := do
  match ← (superblock.resolveBlockPtr blocks blockIdx).run with
  | .error error => .ok (.failed error)
  | .ok blockPtr =>
      if blockPtr = 0 then
        .ok .hole
      else do
        match ← (superblock.getBlock blockPtr).run with
        | .error error => .ok (.failed error)
        | .ok block => .ok (.block block)

/-- One turn of the loop of `next` goes on, or returns an item. -/
inductive Turn where
  | again (iter : DirEntryIter)
  | done (item : Option (Except BlockError RawDirEntry)) (iter : DirEntryIter)

namespace DirEntryIter

def new (inode : Inode Ext2InodeData) (answers : Nat → BlockVolume) : Checked DirEntryIter := do
  let size ← inode.fsData.superblock.blockSize
  .ok
    { superblock := inode.fsData.superblock
      answers := answers
      blocks := inode.fsData.blocks
      dirSize := inode.len % 2 ^ 32
      buf := none
      blockSize := size
      blockIdx := 0
      blockOffset := size
      bytesRead := 0 }

def skipBlock (iter : DirEntryIter) : Checked DirEntryIter := do
  let blockIdx ← checkedAdd iter.blockIdx 1
  .ok { iter with blockIdx := blockIdx, blockOffset := iter.blockSize }

/-- Move behind a record, and to the next block at the end of the block or of the
directory. -/
def advance (iter : DirEntryIter) (recLen : Nat) : Checked DirEntryIter := do
  let blockOffset ← checkedAdd iter.blockOffset recLen
  let bytesRead ← checkedAdd32 iter.bytesRead recLen
  let moved := { iter with blockOffset := blockOffset, bytesRead := bytesRead }
  if moved.blockOffset ≥ moved.blockSize ∨ moved.bytesRead ≥ moved.dirSize then
    moved.skipBlock
  else
    .ok moved

/-- The entry of a record, `none` where the loop goes on to the next record: for a
deleted or empty entry, a name that leaves the block, and one that is not UTF-8. -/
def entryOf (blockSize : Nat) (buf : ByteMemory) (nameStart ino nameLen ftByte : Nat) :
    Checked (Option RawDirEntry) :=
  if ino = 0 ∨ nameLen = 0 then
    .ok none
  else do
    let nameEnd ← checkedAdd nameStart nameLen
    if nameEnd > blockSize then
      .ok none
    else do
      ensure (nameEnd ≤ cacheBlockSize) "range end index out of range"
      let bytes := (List.range nameLen).map fun index => buf (nameStart + index)
      .ok ((String.fromUTF8? bytes.toByteArray).map fun name => ⟨ino, name, ftByte⟩)

/-- The part of a turn that reads a record of the loaded block. -/
def parse (iter : DirEntryIter) (buf : ByteMemory) : Checked Turn := do
  let nameStart ← checkedAdd iter.blockOffset dirEntryNameOffset
  if nameStart > iter.blockSize then do
    let iter ← iter.skipBlock
    .ok (.again iter)
  else do
    let ino ← readU32Le buf (iter.blockOffset + dirEntryInodeOffset)
    let recLen ← readU16Le buf (iter.blockOffset + dirEntryRecLenOffset)
    let nameLen ← readU8 buf (iter.blockOffset + dirEntryNameLenOffset)
    let ftByte ← readU8 buf (iter.blockOffset + dirEntryFileTypeOffset)
    if recLen = 0 then do
      let iter ← iter.skipBlock
      .ok (.again iter)
    else do
      let iter ← iter.advance recLen
      match ← entryOf iter.blockSize buf nameStart ino nameLen ftByte with
      | some entry => .ok (.done (some (.ok entry)) iter)
      | none => .ok (.again iter)

def turn (iter : DirEntryIter) : Checked Turn :=
  if iter.blockOffset ≥ iter.blockSize then
    if iter.bytesRead ≥ iter.dirSize then
      .ok (.done none iter)
    else do
      let superblock := { iter.superblock with volume := iter.answers iter.blockIdx }
      match ← loadBlock superblock iter.blocks iter.blockIdx with
      | .hole => .ok (.done none iter)
      | .failed error => .ok (.done (some (.error error)) iter)
      | .block block =>
          ({ iter with buf := some block, blockOffset := 0 } : DirEntryIter).parse block
  else
    match iter.buf with
    | none => .error (.assertion "called `Option::unwrap()` on a `None` value")
    | some buf => iter.parse buf

def nextLoop : Nat → DirEntryIter → Checked (Option (Except BlockError RawDirEntry) × DirEntryIter)
  | 0, _ => .error .diverged
  | fuel + 1, iter => do
      match ← iter.turn with
      | .again iter => nextLoop fuel iter
      | .done item iter => .ok (item, iter)

/-- More turns than a walk over the directory can take: every turn moves forward
in a block, or to the next of the blocks that the block map reaches. -/
def turnLimit (iter : DirEntryIter) : Nat := slotCount iter.blockSize * (iter.blockSize + 1) + 1

def next (iter : DirEntryIter) :
    Checked (Option (Except BlockError RawDirEntry) × DirEntryIter) :=
  nextLoop iter.turnLimit iter

end DirEntryIter

structure DirEntry where
  name : String
  fileType : FileType
  deriving DecidableEq

/-- The entry that `readdir` makes of a raw one. -/
def dirEntryOf (entry : RawDirEntry) : DirEntry where
  name := entry.name
  fileType :=
    if entry.fileType = ext2FtRegFile then .regularFile
    else if entry.fileType = ext2FtDir then .directory
    else if entry.fileType = ext2FtChrdev then .charDevice
    else if entry.fileType = ext2FtBlkdev then .blockDevice
    else .regularFile

def readdirLoop : Nat → DirEntryIter → Checked (Except FileError (List DirEntry))
  | 0, _ => .error .diverged
  | fuel + 1, iter => do
      let (item, iter) ← iter.next
      match item with
      | none => .ok (.ok [])
      | some (.error _) => .ok (.error .invalidInput)
      | some (.ok entry) => do
          match ← readdirLoop fuel iter with
          | .error error => .ok (.error error)
          | .ok entries => .ok (.ok (dirEntryOf entry :: entries))

/-- `Ext2FileOps::readdir`, over the answers of the volume. -/
def readdir (file : File Ext2InodeData) (answers : Nat → BlockVolume) :
    Checked (Except FileError (List DirEntry)) :=
  if file.inode.fileType ≠ .directory then
    .ok (.error .notADirectory)
  else do
    let iter ← DirEntryIter.new file.inode answers
    readdirLoop iter.turnLimit iter

def lookupLoop {Node : Type} (getOrReadInode : Nat → Fallible Node) (name : String) :
    Nat → DirEntryIter → Checked (Except FileError Node)
  | 0, _ => .error .diverged
  | fuel + 1, iter => do
      let (item, iter) ← iter.next
      match item with
      | none => .ok (.error .notFound)
      | some (.error _) => .ok (.error .notFound)
      | some (.ok entry) =>
          if entry.name = name then
            match ← (getOrReadInode entry.ino).run with
            | .error _ => .ok (.error .notFound)
            | .ok node => .ok (.ok node)
          else
            lookupLoop getOrReadInode name fuel iter

/-- `Ext2InodeOps::lookup`, over the answers of the volume and `get_or_read_inode`. -/
def lookup {Node : Type} (inode : Inode Ext2InodeData) (answers : Nat → BlockVolume)
    (getOrReadInode : Nat → Fallible Node) (name : String) :
    Checked (Except FileError Node) :=
  if inode.fileType ≠ .directory then
    .ok (.error .notADirectory)
  else do
    let iter ← DirEntryIter.new inode answers
    lookupLoop getOrReadInode name iter.turnLimit iter

/-- A record of a directory block: its length, and the entry that it holds if it
is live and can be read. -/
structure Record where
  recLen : Nat
  entry : Option RawDirEntry

def recordAt (size : Nat) (block : ByteMemory) (offset : Nat) : Record :=
  let ino := block.readWord (offset + dirEntryInodeOffset) 4
  let nameLen := (block (offset + dirEntryNameLenOffset)).toNat
  let nameStart := offset + dirEntryNameOffset
  let bytes := (List.range nameLen).map fun index => block (nameStart + index)
  { recLen := block.readWord (offset + dirEntryRecLenOffset) 2
    entry :=
      if ino = 0 ∨ nameLen = 0 ∨ nameStart + nameLen > size then none
      else (String.fromUTF8? bytes.toByteArray).map fun name =>
        ⟨ino, name, (block (offset + dirEntryFileTypeOffset)).toNat⟩ }

/-- The records of a block from an offset on, up to the first that does not fit or
has no length. -/
def recordsFrom (size : Nat) (block : ByteMemory) (offset : Nat) : List Record :=
  if _ : offset + dirEntryNameOffset ≤ size ∧ (recordAt size block offset).recLen ≠ 0 then
    recordAt size block offset ::
      recordsFrom size block (offset + (recordAt size block offset).recLen)
  else
    []
  termination_by size - offset
  decreasing_by
    simp only [dirEntryNameOffset] at *
    omega

/-- The records of a number of blocks from an index on, up to the first block that
is missing or fails, and the error of that block. -/
def recordsOf (size : Nat) (loads : Nat → BlockLoad) :
    Nat → Nat → List Record × Option BlockError
  | 0, _ => ([], none)
  | count + 1, blockIdx =>
      match loads blockIdx with
      | .hole => ([], none)
      | .failed error => ([], some error)
      | .block block =>
          let rest := recordsOf size loads count (blockIdx + 1)
          (recordsFrom size block 0 ++ rest.1, rest.2)

/-- The entries of records, counted up to the size of the directory in a 32-bit
word, and the error behind them. -/
def replay (dirSize : Nat) (ending : Option BlockError) :
    Nat → List Record → Checked (List RawDirEntry × Option BlockError)
  | _, [] => .ok ([], ending)
  | bytesRead, record :: records =>
      if bytesRead + record.recLen < 2 ^ 32 then
        (fun rest => (record.entry.toList ++ rest.1, rest.2)) <$>
          if bytesRead + record.recLen ≥ dirSize then .ok ([], none)
          else replay dirSize ending (bytesRead + record.recLen) records
      else
        .error .overflow

variable {ending : Option BlockError} {entries : List RawDirEntry}

namespace DirEntryIter

variable {iter : DirEntryIter}

def skipped (iter : DirEntryIter) : DirEntryIter :=
  { iter with blockIdx := iter.blockIdx + 1, blockOffset := iter.blockSize }

def past (iter : DirEntryIter) (recLen : Nat) : DirEntryIter :=
  let moved := { iter with
    blockOffset := iter.blockOffset + recLen, bytesRead := iter.bytesRead + recLen }
  if moved.blockOffset ≥ moved.blockSize ∨ moved.bytesRead ≥ moved.dirSize then moved.skipped
  else moved

theorem skipBlock_eq (inRange : iter.blockIdx + 1 < 2 ^ 64) :
    iter.skipBlock = .ok iter.skipped := by
  rw [skipBlock, checkedAdd_bind inRange]
  rfl

@[simp] theorem past_blockSize (recLen : Nat) : (iter.past recLen).blockSize = iter.blockSize := by
  dsimp only [past]
  split <;> rfl

theorem advance_eq {recLen : Nat} (inRange : iter.blockIdx + 1 < 2 ^ 64)
    (offsetFits : iter.blockOffset + recLen < 2 ^ 64) :
    iter.advance recLen =
      if iter.bytesRead + recLen < 2 ^ 32 then .ok (iter.past recLen) else .error .overflow := by
  rw [advance, checkedAdd_bind offsetFits, checkedAdd32]
  by_cases fits : iter.bytesRead + recLen < 2 ^ 32
  · rw [if_pos fits, if_pos fits, ok_bind]
    dsimp only [past]
    split
    · exact skipBlock_eq inRange
    · rfl
  · rw [if_neg fits, if_neg fits]
    rfl

variable {offset blockIdx size fuel : Nat}

theorem entryOf_recordAt {blockSize : Nat} (buf : ByteMemory)
    (inUnit : blockSize ≤ cacheBlockSize) (inBlock : offset < blockSize) :
    entryOf blockSize buf (offset + dirEntryNameOffset)
        (buf.readWord (offset + dirEntryInodeOffset) 4)
        (buf (offset + dirEntryNameLenOffset)).toNat
        (buf (offset + dirEntryFileTypeOffset)).toNat =
      .ok (recordAt blockSize buf offset).entry := by
  have lenBound := (buf (offset + dirEntryNameLenOffset)).toNat_lt
  dsimp only [entryOf, recordAt]
  generalize (buf (offset + dirEntryNameLenOffset)).toNat = nameLen at *
  generalize buf.readWord (offset + dirEntryInodeOffset) 4 = ino
  by_cases dead : ino = 0 ∨ nameLen = 0
  · rw [if_pos dead, if_pos (dead.imp_right Or.inl)]
  · have unit : cacheBlockSize = 4096 := rfl
    have start : offset + dirEntryNameOffset = offset + 8 := rfl
    rw [if_neg dead, checkedAdd_bind (by omega)]
    by_cases leaves : offset + dirEntryNameOffset + nameLen > blockSize
    · rw [if_pos leaves, if_pos (Or.inr (Or.inr leaves))]
    · have inside : offset + dirEntryNameOffset + nameLen ≤ cacheBlockSize := by omega
      rw [if_neg leaves, ensure_bind inside, if_neg (by omega)]

theorem parse_eq {buf : ByteMemory} (inBlock : iter.blockOffset < iter.blockSize)
    (inUnit : iter.blockSize ≤ cacheBlockSize) (inRange : iter.blockIdx + 1 < 2 ^ 64) :
    iter.parse buf =
      if iter.blockOffset + dirEntryNameOffset ≤ iter.blockSize ∧
          (recordAt iter.blockSize buf iter.blockOffset).recLen ≠ 0 then
        if iter.bytesRead + (recordAt iter.blockSize buf iter.blockOffset).recLen < 2 ^ 32 then
          match (recordAt iter.blockSize buf iter.blockOffset).entry with
          | some entry => .ok (.done (some (.ok entry))
              (iter.past (recordAt iter.blockSize buf iter.blockOffset).recLen))
          | none => .ok (.again (iter.past (recordAt iter.blockSize buf iter.blockOffset).recLen))
        else
          .error .overflow
      else
        .ok (.again iter.skipped) := by
  have unit : cacheBlockSize = 4096 := rfl
  have start : iter.blockOffset + dirEntryNameOffset = iter.blockOffset + 8 := rfl
  have lenBound : (recordAt iter.blockSize buf iter.blockOffset).recLen < 65536 :=
    ByteMemory.readWord_lt _ _ _
  have byte : ∀ offset, offset < cacheBlockSize → readU8 buf offset = .ok (buf offset).toNat := by
    intro offset inside
    rw [readU8, ensure_bind inside]
  unfold parse
  rw [checkedAdd_bind (by omega)]
  by_cases fits : iter.blockOffset + dirEntryNameOffset ≤ iter.blockSize
  · rw [if_neg (Nat.not_lt.mpr fits),
      readU32Le_of_le buf (by simp only [dirEntryInodeOffset]; omega), ok_bind,
      readU16Le_of_le buf (by simp only [dirEntryRecLenOffset]; omega), ok_bind,
      byte _ (by simp only [dirEntryNameLenOffset]; omega), ok_bind,
      byte _ (by simp only [dirEntryFileTypeOffset]; omega), ok_bind]
    change (if (recordAt iter.blockSize buf iter.blockOffset).recLen = 0 then _ else _) = _
    by_cases empty : (recordAt iter.blockSize buf iter.blockOffset).recLen = 0
    · rw [if_pos empty, if_neg fun some => some.2 empty, skipBlock_eq inRange, ok_bind]
    · rw [if_neg empty, if_pos ⟨fits, empty⟩]
      change (iter.advance (recordAt iter.blockSize buf iter.blockOffset).recLen >>= _) = _
      rw [advance_eq inRange (by omega)]
      split
      · rw [ok_bind, past_blockSize, entryOf_recordAt buf inUnit inBlock, ok_bind]
      · rfl
  · rw [if_pos (Nat.not_le.mp fits), skipBlock_eq inRange, ok_bind,
      if_neg fun safe => fits safe.1]

def loads (iter : DirEntryIter) (blockIdx : Nat) : BlockLoad :=
  match loadBlock { iter.superblock with volume := iter.answers blockIdx } iter.blocks blockIdx with
  | .ok load => load
  | .error _ => .hole

theorem loads_of_load {iter : DirEntryIter} {load : BlockLoad}
    (loaded : loadBlock { iter.superblock with volume := iter.answers blockIdx } iter.blocks
      blockIdx = .ok load) : iter.loads blockIdx = load := by
  rw [loads, loaded]

def recordsAt (iter : DirEntryIter) (blockIdx : Nat) : List Record × Option BlockError :=
  recordsOf iter.blockSize iter.loads (slotCount iter.blockSize - blockIdx) blockIdx

def upcoming (iter : DirEntryIter) : List Record × Option BlockError :=
  if iter.blockOffset < iter.blockSize then
    match iter.buf with
    | none => ([], none)
    | some block =>
        (recordsFrom iter.blockSize block iter.blockOffset ++
          (iter.recordsAt (iter.blockIdx + 1)).1,
          (iter.recordsAt (iter.blockIdx + 1)).2)
  else
    iter.recordsAt iter.blockIdx

/-- What the calls of `next` yield up to the first that yields no entry. -/
def walk (iter : DirEntryIter) : Checked (List RawDirEntry × Option BlockError) :=
  if iter.bytesRead ≥ iter.dirSize then .ok ([], none)
  else replay iter.dirSize iter.upcoming.2 iter.bytesRead iter.upcoming.1

structure Sound (iter : DirEntryIter) : Prop where
  sized : iter.superblock.Sized iter.blockSize
  inRange : iter.blockIdx ≤ slotCount iter.blockSize
  loaded : iter.blockOffset < iter.blockSize →
    iter.blockIdx < slotCount iter.blockSize ∧ iter.bytesRead < iter.dirSize ∧
      ∃ block, iter.buf = some block

def turnsLeft (iter : DirEntryIter) : Nat :=
  if iter.blockOffset < iter.blockSize then
    (slotCount iter.blockSize - (iter.blockIdx + 1)) * (iter.blockSize + 1) +
      (iter.blockSize - iter.blockOffset) + 1
  else
    (slotCount iter.blockSize - iter.blockIdx) * (iter.blockSize + 1)

inductive TurnStep (iter : DirEntryIter) : Checked Turn → Prop
  | again {after : DirEntryIter} (sound : after.Sound) (fewer : after.turnsLeft < iter.turnsLeft)
      (same : iter.walk = after.walk) : TurnStep iter (.ok (.again after))
  | entry {entry : RawDirEntry} {after : DirEntryIter} (sound : after.Sound)
      (fewer : after.turnsLeft < iter.turnsLeft)
      (yields : iter.walk = (fun rest => (entry :: rest.1, rest.2)) <$> after.walk) :
      TurnStep iter (.ok (.done (some (.ok entry)) after))
  | ended {after : DirEntryIter} (yields : iter.walk = .ok ([], none)) :
      TurnStep iter (.ok (.done none after))
  | failed {error : BlockError} {after : DirEntryIter} (yields : iter.walk = .ok ([], some error)) :
      TurnStep iter (.ok (.done (some (.error error)) after))
  | overflow (yields : iter.walk = .error .overflow) : TurnStep iter (.error .overflow)

theorem TurnStep.congr {other : DirEntryIter} {result : Checked Turn} (step : TurnStep other result)
    (same : iter.walk = other.walk) (left : other.turnsLeft ≤ iter.turnsLeft) :
    TurnStep iter result := by
  cases step with
  | again sound fewer yields => exact .again sound (fewer.trans_le left) (same.trans yields)
  | entry sound fewer yields => exact .entry sound (fewer.trans_le left) (same.trans yields)
  | ended yields => exact .ended (same.trans yields)
  | failed yields => exact .failed (same.trans yields)
  | overflow yields => exact .overflow (same.trans yields)

theorem Sound.blockIdx_lt (sound : iter.Sound) : iter.blockIdx + 1 < 2 ^ 64 := by
  have small : slotCount iter.blockSize + 1 < 2 ^ 64 := by
    rcases sound.sized.supported with size | size | size <;> rw [size] <;> decide
  exact lt_of_le_of_lt (Nat.succ_le_succ sound.inRange) small

theorem Sound.inUnit (sound : iter.Sound) : iter.blockSize ≤ cacheBlockSize := by
  rcases sound.sized.supported with size | size | size <;> rw [size] <;> decide

section Parse

variable {block : ByteMemory}

theorem Sound.walk_of_loaded (sound : iter.Sound) (inBlock : iter.blockOffset < iter.blockSize)
    (isBlock : iter.buf = some block) :
    iter.walk = replay iter.dirSize (iter.recordsAt (iter.blockIdx + 1)).2 iter.bytesRead
      (recordsFrom iter.blockSize block iter.blockOffset ++
        (iter.recordsAt (iter.blockIdx + 1)).1) := by
  rw [walk, if_neg (Nat.not_le.mpr (sound.loaded inBlock).2.1), upcoming, if_pos inBlock, isBlock]

theorem walk_of_exhausted (exhausted : ¬ iter.blockOffset < iter.blockSize) :
    iter.walk = if iter.bytesRead ≥ iter.dirSize then .ok ([], none)
      else replay iter.dirSize (iter.recordsAt iter.blockIdx).2 iter.bytesRead
        (iter.recordsAt iter.blockIdx).1 := by
  rw [walk, upcoming, if_neg exhausted]

theorem turnsLeft_skipped (inBlock : iter.blockOffset < iter.blockSize) :
    iter.skipped.turnsLeft < iter.turnsLeft := by
  have exhausted : ¬ iter.skipped.blockOffset < iter.skipped.blockSize := Nat.lt_irrefl _
  rw [turnsLeft, if_neg exhausted, turnsLeft, if_pos inBlock]
  change (slotCount iter.blockSize - (iter.blockIdx + 1)) * (iter.blockSize + 1) < _
  omega

theorem Sound.skipped (sound : iter.Sound) (inBlock : iter.blockOffset < iter.blockSize) :
    iter.skipped.Sound :=
  ⟨sound.sized, (sound.loaded inBlock).1, fun loaded => absurd loaded (Nat.lt_irrefl _)⟩

theorem past_cases (iter : DirEntryIter) (recLen : Nat) :
    (iter.blockOffset + recLen < iter.blockSize ∧ iter.bytesRead + recLen < iter.dirSize ∧
      iter.past recLen = { iter with
        blockOffset := iter.blockOffset + recLen, bytesRead := iter.bytesRead + recLen }) ∨
    ((iter.blockSize ≤ iter.blockOffset + recLen ∨ iter.dirSize ≤ iter.bytesRead + recLen) ∧
      iter.past recLen = { iter with
        blockIdx := iter.blockIdx + 1
        blockOffset := iter.blockSize
        bytesRead := iter.bytesRead + recLen }) := by
  by_cases leaves : iter.blockSize ≤ iter.blockOffset + recLen ∨
      iter.dirSize ≤ iter.bytesRead + recLen
  · exact Or.inr ⟨leaves, if_pos leaves⟩
  · have stays := not_or.mp leaves
    exact Or.inl ⟨Nat.not_le.mp stays.1, Nat.not_le.mp stays.2, if_neg leaves⟩

theorem Sound.past (sound : iter.Sound) (inBlock : iter.blockOffset < iter.blockSize)
    (recLen : Nat) : (iter.past recLen).Sound := by
  obtain ⟨inRange, -, isLoaded⟩ := sound.loaded inBlock
  rcases past_cases iter recLen with ⟨stays, counting, moved⟩ | ⟨-, moved⟩
  · rw [moved]
    exact ⟨sound.sized, sound.inRange, fun _ => ⟨inRange, counting, isLoaded⟩⟩
  · rw [moved]
    exact ⟨sound.sized, inRange, fun loaded => absurd loaded (Nat.lt_irrefl _)⟩

theorem turnsLeft_past (inBlock : iter.blockOffset < iter.blockSize) {recLen : Nat}
    (positive : recLen ≠ 0) : (iter.past recLen).turnsLeft < iter.turnsLeft := by
  rw [turnsLeft.eq_1 iter, if_pos inBlock]
  rcases past_cases iter recLen with ⟨stays, -, moved⟩ | ⟨-, moved⟩
  · rw [moved, turnsLeft, if_pos stays]
    dsimp only
    omega
  · rw [moved, turnsLeft, if_neg (Nat.lt_irrefl _)]
    dsimp only
    omega

theorem recordsFrom_of_fits (fits : offset + dirEntryNameOffset ≤ size)
    (positive : (recordAt size block offset).recLen ≠ 0) :
    recordsFrom size block offset = recordAt size block offset ::
      recordsFrom size block (offset + (recordAt size block offset).recLen) := by
  rw [recordsFrom, dif_pos ⟨fits, positive⟩]

theorem recordsFrom_of_not
    (none : ¬ (offset + dirEntryNameOffset ≤ size ∧ (recordAt size block offset).recLen ≠ 0)) :
    recordsFrom size block offset = [] := by
  rw [recordsFrom, dif_neg none]

theorem Sound.walk_past (sound : iter.Sound) (inBlock : iter.blockOffset < iter.blockSize)
    (isBlock : iter.buf = some block) (recLen : Nat) :
    (iter.past recLen).walk =
      if iter.bytesRead + recLen ≥ iter.dirSize then .ok ([], none)
      else replay iter.dirSize (iter.recordsAt (iter.blockIdx + 1)).2 (iter.bytesRead + recLen)
        (recordsFrom iter.blockSize block (iter.blockOffset + recLen) ++
          (iter.recordsAt (iter.blockIdx + 1)).1) := by
  have pastSound := sound.past inBlock recLen
  rcases past_cases iter recLen with ⟨stays, counting, moved⟩ | ⟨leaves, moved⟩
  · rw [moved] at pastSound ⊢
    rw [pastSound.walk_of_loaded stays isBlock, if_neg (Nat.not_le.mpr counting)]
    rfl
  · rw [moved, walk_of_exhausted (Nat.lt_irrefl _)]
    refine ite_congr rfl (fun _ => rfl) fun counting => ?_
    have none : recordsFrom iter.blockSize block (iter.blockOffset + recLen) = [] := by
      apply recordsFrom_of_not
      simp only [dirEntryNameOffset]
      omega
    rw [none, List.nil_append]
    rfl

theorem Sound.parse_step (sound : iter.Sound) (inBlock : iter.blockOffset < iter.blockSize)
    (isBlock : iter.buf = some block) : TurnStep iter (iter.parse block) := by
  have walked := sound.walk_of_loaded inBlock isBlock
  rw [parse_eq inBlock sound.inUnit sound.blockIdx_lt]
  by_cases fits : iter.blockOffset + dirEntryNameOffset ≤ iter.blockSize ∧
      (recordAt iter.blockSize block iter.blockOffset).recLen ≠ 0
  · rw [if_pos fits]
    rw [recordsFrom_of_fits fits.1 fits.2, List.cons_append, replay] at walked
    have pastSound := sound.past inBlock (recordAt iter.blockSize block iter.blockOffset).recLen
    have fewer := turnsLeft_past inBlock fits.2
    have rest := sound.walk_past inBlock isBlock
      (recordAt iter.blockSize block iter.blockOffset).recLen
    by_cases counts :
        iter.bytesRead + (recordAt iter.blockSize block iter.blockOffset).recLen < 2 ^ 32
    · rw [if_pos counts, ← rest] at walked
      rw [if_pos counts]
      cases isEntry : (recordAt iter.blockSize block iter.blockOffset).entry with
      | some entry =>
        refine .entry pastSound fewer (walked.trans ?_)
        rw [isEntry]
        rfl
      | none =>
        refine .again pastSound fewer (walked.trans ?_)
        rw [isEntry]
        cases (iter.past (recordAt iter.blockSize block iter.blockOffset).recLen).walk <;> rfl
    · rw [if_neg counts] at walked ⊢
      exact .overflow walked
  · rw [if_neg fits]
    refine .again (sound.skipped inBlock) (turnsLeft_skipped inBlock) ?_
    have counting : ¬ iter.skipped.bytesRead ≥ iter.skipped.dirSize :=
      Nat.not_le.mpr (sound.loaded inBlock).2.1
    rw [walked, recordsFrom_of_not fits, walk_of_exhausted (Nat.lt_irrefl _), if_neg counting]
    rfl

end Parse

section Load

theorem loadBlock_returns {superblock : Ext2SuperBlock} (sized : superblock.Sized size)
    (blocks : Nat → Nat) (blockIdx : Nat) :
    ∃ load, loadBlock superblock blocks blockIdx = .ok load := by
  obtain ⟨resolved, resolve⟩ := sized.resolveBlockPtr_completes blocks blockIdx
  rw [loadBlock, resolve, ExceptT.run, ok_bind]
  cases resolved with
  | error error => exact ⟨_, rfl⟩
  | ok blockPtr =>
    dsimp only
    split_ifs
    · exact ⟨_, rfl⟩
    · obtain ⟨fetched, fetch⟩ := sized.getBlock_completes blockPtr
      rw [fetch, ExceptT.run, ok_bind]
      cases fetched <;> exact ⟨_, rfl⟩

theorem Sound.sizedAt (sound : iter.Sound) (volume : BlockVolume) :
    ({ iter.superblock with volume := volume } : Ext2SuperBlock).Sized iter.blockSize :=
  ⟨sound.sized.blockSize_eq, sound.sized.supported⟩

theorem Sound.loadBlock_eq (sound : iter.Sound) (blockIdx : Nat) :
    loadBlock { iter.superblock with volume := iter.answers blockIdx } iter.blocks blockIdx =
      .ok (iter.loads blockIdx) := by
  obtain ⟨load, returned⟩ :=
    loadBlock_returns (sound.sizedAt (iter.answers blockIdx)) iter.blocks blockIdx
  rw [loads_of_load returned, returned]

theorem Sound.loads_hole (sound : iter.Sound) (beyond : slotCount iter.blockSize ≤ blockIdx) :
    iter.loads blockIdx = .hole := by
  rw [loads, loadBlock, resolveBlockPtr_beyond (sound.sizedAt _) _ beyond]
  rfl

theorem recordsAt_hole (hole : iter.loads blockIdx = .hole) :
    iter.recordsAt blockIdx = ([], none) := by
  rw [recordsAt]
  cases slotCount iter.blockSize - blockIdx with
  | zero => rfl
  | succ count => rw [recordsOf, hole]

theorem recordsAt_failed (inRange : blockIdx < slotCount iter.blockSize) {error : BlockError}
    (failed : iter.loads blockIdx = .failed error) :
    iter.recordsAt blockIdx = ([], some error) := by
  obtain ⟨count, left⟩ := Nat.exists_eq_succ_of_ne_zero (Nat.sub_ne_zero_of_lt inRange)
  rw [recordsAt, left, recordsOf, failed]

theorem recordsAt_block (inRange : blockIdx < slotCount iter.blockSize) {block : ByteMemory}
    (found : iter.loads blockIdx = .block block) :
    iter.recordsAt blockIdx =
      (recordsFrom iter.blockSize block 0 ++ (iter.recordsAt (blockIdx + 1)).1,
        (iter.recordsAt (blockIdx + 1)).2) := by
  have left : slotCount iter.blockSize - blockIdx =
      slotCount iter.blockSize - (blockIdx + 1) + 1 := by omega
  rw [recordsAt, left, recordsOf, found]
  rfl

end Load

theorem Sound.turn_step (sound : iter.Sound) : TurnStep iter iter.turn := by
  unfold turn
  by_cases exhausted : iter.blockOffset ≥ iter.blockSize
  · rw [if_pos exhausted]
    have walked := walk_of_exhausted (Nat.not_lt.mpr exhausted)
    by_cases whole : iter.bytesRead ≥ iter.dirSize
    · rw [if_pos whole] at walked ⊢
      exact .ended walked
    · rw [if_neg whole] at walked ⊢
      dsimp only
      rw [sound.loadBlock_eq, ok_bind]
      have inRange : iter.loads iter.blockIdx ≠ .hole → iter.blockIdx < slotCount iter.blockSize :=
        fun found => Nat.not_le.mp fun beyond => found (sound.loads_hole beyond)
      cases found : iter.loads iter.blockIdx with
      | hole =>
        rw [recordsAt_hole found] at walked
        exact .ended walked
      | failed error =>
        rw [recordsAt_failed (inRange (by rw [found]; exact nofun)) found] at walked
        exact .failed walked
      | block block =>
        have inside := inRange (by rw [found]; exact nofun)
        have positive : 0 < iter.blockSize := by
          rcases sound.sized.supported with size | size | size <;> rw [size] <;> decide
        -- A turn that loads a block parses its first record too.
        let loaded : DirEntryIter := { iter with buf := some block, blockOffset := 0 }
        have loadedSound : loaded.Sound :=
          ⟨sound.sized, sound.inRange, fun _ => ⟨inside, Nat.not_le.mp whole, block, rfl⟩⟩
        refine (loadedSound.parse_step positive rfl).congr ?_ ?_
        · rw [walked, recordsAt_block inside found, loadedSound.walk_of_loaded positive rfl]
          rfl
        · rw [turnsLeft, if_pos positive, turnsLeft, if_neg (Nat.not_lt.mpr exhausted)]
          change (slotCount iter.blockSize - (iter.blockIdx + 1)) * (iter.blockSize + 1) +
            (iter.blockSize - 0) + 1 ≤ _
          have left : slotCount iter.blockSize - iter.blockIdx =
              slotCount iter.blockSize - (iter.blockIdx + 1) + 1 := by omega
          rw [left, Nat.add_mul]
          omega
  · rw [if_neg exhausted]
    obtain ⟨-, -, block, isBlock⟩ := sound.loaded (Nat.not_le.mp exhausted)
    rw [isBlock]
    exact sound.parse_step (Nat.not_le.mp exhausted) isBlock

/-- Everything that a call of `next` can do. -/
inductive NextStep (iter : DirEntryIter) :
    Checked (Option (Except BlockError RawDirEntry) × DirEntryIter) → Prop
  | entry {entry : RawDirEntry} {after : DirEntryIter} (sound : after.Sound)
      (fewer : after.turnsLeft < iter.turnsLeft)
      (yields : iter.walk = (fun rest => (entry :: rest.1, rest.2)) <$> after.walk) :
      NextStep iter (.ok (some (.ok entry), after))
  | ended {after : DirEntryIter} (yields : iter.walk = .ok ([], none)) :
      NextStep iter (.ok (none, after))
  | failed {error : BlockError} {after : DirEntryIter} (yields : iter.walk = .ok ([], some error)) :
      NextStep iter (.ok (some (.error error), after))
  | overflow (yields : iter.walk = .error .overflow) : NextStep iter (.error .overflow)

theorem NextStep.congr {other : DirEntryIter}
    {result : Checked (Option (Except BlockError RawDirEntry) × DirEntryIter)}
    (step : NextStep other result) (same : iter.walk = other.walk)
    (left : other.turnsLeft ≤ iter.turnsLeft) : NextStep iter result := by
  cases step with
  | entry sound fewer yields => exact .entry sound (fewer.trans_le left) (same.trans yields)
  | ended yields => exact .ended (same.trans yields)
  | failed yields => exact .failed (same.trans yields)
  | overflow yields => exact .overflow (same.trans yields)

theorem Sound.nextLoop_step (sound : iter.Sound) (enough : iter.turnsLeft < fuel) :
    NextStep iter (nextLoop fuel iter) := by
  induction fuel generalizing iter with
  | zero => omega
  | succ fuel ih =>
    have step := sound.turn_step
    rw [nextLoop]
    generalize iter.turn = result at step
    cases step with
    | again afterSound fewer same =>
      exact (ih afterSound (by omega)).congr same fewer.le
    | entry afterSound fewer yields => exact .entry afterSound fewer yields
    | ended yields => exact .ended yields
    | failed yields => exact .failed yields
    | overflow yields => exact .overflow yields

theorem Sound.turnsLeft_lt (sound : iter.Sound) : iter.turnsLeft < iter.turnLimit := by
  unfold turnsLeft turnLimit
  by_cases loaded : iter.blockOffset < iter.blockSize
  · have left : slotCount iter.blockSize - (iter.blockIdx + 1) + 1 ≤ slotCount iter.blockSize := by
      have inRange := (sound.loaded loaded).1
      omega
    have bound := Nat.mul_le_mul_right (iter.blockSize + 1) left
    rw [if_pos loaded]
    rw [Nat.add_mul] at bound
    omega
  · have bound := Nat.mul_le_mul_right (iter.blockSize + 1)
      (Nat.sub_le (slotCount iter.blockSize) iter.blockIdx)
    rw [if_neg loaded]
    omega

theorem Sound.next_step (sound : iter.Sound) : NextStep iter iter.next :=
  sound.nextLoop_step sound.turnsLeft_lt

theorem Sound.readdirLoop_eq (sound : iter.Sound) (enough : iter.turnsLeft < fuel) :
    readdirLoop fuel iter = (fun walked => match walked.2 with
      | some _ => .error .invalidInput
      | none => .ok (walked.1.map dirEntryOf)) <$> iter.walk := by
  induction fuel generalizing iter with
  | zero => omega
  | succ fuel ih =>
    have step := sound.next_step
    rw [readdirLoop]
    generalize iter.next = result at step
    cases step with
    | ended yields =>
      rw [yields]
      rfl
    | failed yields =>
      rw [yields]
      rfl
    | overflow yields =>
      rw [yields]
      rfl
    | @entry entry after afterSound fewer yields =>
      rw [yields, ok_bind]
      dsimp only
      rw [ih afterSound (by omega)]
      cases after.walk with
      | error fault => rfl
      | ok walked =>
        obtain ⟨entries, ending⟩ := walked
        cases ending <;> rfl

theorem walk_eq_cons {first : RawDirEntry}
    {walked : Checked (List RawDirEntry × Option BlockError)}
    (yields : .ok (entries, ending) = (fun rest => (first :: rest.1, rest.2)) <$> walked) :
    ∃ rest, walked = .ok (rest, ending) ∧ entries = first :: rest := by
  cases walked with
  | error fault => cases yields
  | ok rest =>
    obtain ⟨restEntries, restEnding⟩ := rest
    cases yields
    exact ⟨restEntries, rfl, rfl⟩

/-- The answer of `lookup` to the entries of a walk. -/
def lookupAmong {Node : Type} (getOrReadInode : Nat → Fallible Node) (name : String)
    (entries : List RawDirEntry) : Checked (Except FileError Node) :=
  match entries.find? fun entry => entry.name = name with
  | some entry => do
      match ← (getOrReadInode entry.ino).run with
      | .error _ => .ok (.error .notFound)
      | .ok node => .ok (.ok node)
  | none => .ok (.error .notFound)

theorem Sound.lookupLoop_eq {Node : Type} (getOrReadInode : Nat → Fallible Node)
    (name : String) (sound : iter.Sound) (enough : iter.turnsLeft < fuel)
    (walked : iter.walk = .ok (entries, ending)) :
    lookupLoop getOrReadInode name fuel iter = lookupAmong getOrReadInode name entries := by
  induction fuel generalizing iter entries with
  | zero => omega
  | succ fuel ih =>
    have step := sound.next_step
    rw [lookupLoop]
    generalize iter.next = result at step
    cases step with
    | ended yields =>
      rw [walked] at yields
      cases yields
      rfl
    | failed yields =>
      rw [walked] at yields
      cases yields
      rfl
    | overflow yields =>
      rw [walked] at yields
      cases yields
    | @entry entry after afterSound fewer yields =>
      rw [walked] at yields
      obtain ⟨rest, afterWalked, rfl⟩ := walk_eq_cons yields
      rw [ok_bind]
      dsimp only [lookupAmong]
      rw [List.find?_cons]
      by_cases named : entry.name = name
      · rw [if_pos named, decide_eq_true named]
      · rw [if_neg named, decide_eq_false named]
        exact ih afterSound (by omega) afterWalked

end DirEntryIter

/-- The iterator that `readdir` and `lookup` start with. -/
def startOf (inode : Inode Ext2InodeData) (answers : Nat → BlockVolume) (size : Nat) :
    DirEntryIter where
  superblock := inode.fsData.superblock
  answers := answers
  blocks := inode.fsData.blocks
  dirSize := inode.len % 2 ^ 32
  buf := none
  blockSize := size
  blockIdx := 0
  blockOffset := size
  bytesRead := 0

section Start

variable {inode : Inode Ext2InodeData} {size : Nat}

theorem startOf_sound (sized : inode.fsData.superblock.Sized size) (answers : Nat → BlockVolume) :
    (startOf inode answers size).Sound :=
  ⟨sized, Nat.zero_le _, fun loaded => absurd loaded (Nat.lt_irrefl _)⟩

theorem new_eq_startOf (sized : inode.fsData.superblock.Sized size)
    (answers : Nat → BlockVolume) :
    DirEntryIter.new inode answers = .ok (startOf inode answers size) := by
  rw [DirEntryIter.new, sized.blockSize_eq, ok_bind]
  rfl

theorem startOf_walk (answers : Nat → BlockVolume) :
    (startOf inode answers size).walk =
      if inode.len % 2 ^ 32 = 0 then .ok ([], none)
      else replay (inode.len % 2 ^ 32) ((startOf inode answers size).recordsAt 0).2 0
        ((startOf inode answers size).recordsAt 0).1 := by
  rw [DirEntryIter.walk_of_exhausted (Nat.lt_irrefl _)]
  exact if_congr Nat.le_zero rfl rfl

theorem readdir_eq {file : File Ext2InodeData} (sized : file.inode.fsData.superblock.Sized size)
    (directory : file.inode.fileType = .directory) (answers : Nat → BlockVolume) :
    readdir file answers = (fun walked => match walked.2 with
      | some _ => .error .invalidInput
      | none => .ok (walked.1.map dirEntryOf)) <$> (startOf file.inode answers size).walk := by
  have sound := startOf_sound sized answers
  rw [readdir, if_neg (not_not.mpr directory), new_eq_startOf sized, ok_bind,
    sound.readdirLoop_eq sound.turnsLeft_lt]

theorem lookup_eq {Node : Type} (getOrReadInode : Nat → Fallible Node) (name : String)
    (sized : inode.fsData.superblock.Sized size) (directory : inode.fileType = .directory)
    {answers : Nat → BlockVolume}
    (walked : (startOf inode answers size).walk = .ok (entries, ending)) :
    lookup inode answers getOrReadInode name =
      DirEntryIter.lookupAmong getOrReadInode name entries := by
  have sound := startOf_sound sized answers
  rw [lookup, if_neg (not_not.mpr directory), new_eq_startOf sized, ok_bind,
    sound.lookupLoop_eq getOrReadInode name sound.turnsLeft_lt walked]

end Start

end NanoOs.Ext2
