import Mathlib.Data.List.GetD
import NanoOs.Ext2Files
import NanoOs.Scans

/-!
# Ext2 reads as scans

A read of an ext2 file is a scan of the positions from its offset, on any volume
and for any superblock. So it does not matter how bytes are divided between
reads, but a read that fails behind its first block keeps the offset it came to.
-/

namespace NanoOs.Ext2

open BlockVolumes (cacheBlockSize)
open Files Scans List ByteMemory

/-- The block of a file at an index, with the ways the loop of `read` can end there. -/
def blockAt (data : Ext2InodeData) (blockIdx : Nat) : Checked (Found ByteMemory) := do
  match ← (data.superblock.resolveBlockPtr data.blocks blockIdx).run with
  | .error _ => .ok .failed
  | .ok blockPtr =>
      if blockPtr = 0 then
        .ok .stop
      else do
        match ← (data.superblock.getBlock blockPtr).run with
        | .error _ => .ok .failed
        | .ok blockBuf => .ok (.item blockBuf)

def byteAt (data : Ext2InodeData) (fileLen position : Nat) : Checked (Found UInt8) :=
  if position < fileLen then do
    let size ← data.superblock.blockSize
    ensure (size ≠ 0) "attempt to divide by zero"
    match ← blockAt data (position / size) with
    | .failed => .ok .failed
    | .stop => .ok .stop
    | .item blockBuf => do
        ensure (position % size < cacheBlockSize) "range end index out of range"
        .ok (.item (blockBuf (position % size)))
  else
    .ok .stop

def place (buf : ByteMemory) (start : Nat) (bytes : List UInt8) : ByteMemory :=
  buf.writeBytes start bytes.length fun index => bytes.getD index 0

def ReadState.take (state : ReadState) (bytes : List UInt8) : ReadState :=
  ⟨state.offset + bytes.length, state.bufPos + bytes.length, place state.buf state.bufPos bytes⟩

def ReadState.finish (state : ReadState) (scanned : Scanned UInt8) :
    ReadState × Except FileError Nat :=
  (state.take scanned.items,
    if scanned.ending = .failed then .error .invalidInput
    else .ok (state.bufPos + scanned.items.length))

section Place

theorem place_nil (buf : ByteMemory) (start : Nat) : place buf start [] = buf := by
  funext index
  exact writeBytes_outside _ _ (Nat.lt_or_ge _ _)

theorem place_append (buf : ByteMemory) (start : Nat) (first second : List UInt8) :
    place (place buf start first) (start + first.length) second =
      place buf start (first ++ second) := by
  funext index
  simp only [place, writeBytes, length_append]
  by_cases late : start + first.length ≤ index
  · rw [getD_append_right _ _ _ _ (by omega), if_neg (show ¬ (start ≤ index ∧
      index < start + first.length) by omega), Nat.sub_add_eq]
    exact if_congr (by omega) rfl rfl
  · rw [if_neg (fun inside => late inside.1)]
    by_cases early : start ≤ index
    · rw [if_pos (by omega), if_pos (by omega), getD_append _ _ _ _ (by omega)]
    · rw [if_neg (fun inside => early inside.1), if_neg (fun inside => early inside.1)]

theorem place_map (buf : ByteMemory) (value : Nat → UInt8) {limit index : Nat}
    (bound : index < limit) : place buf 0 ((range limit).map value) index = value index := by
  simp [place, writeBytes, bound]

@[simp] theorem take_offset (state : ReadState) (bytes : List UInt8) :
    (state.take bytes).offset = state.offset + bytes.length := rfl

@[simp] theorem take_bufPos (state : ReadState) (bytes : List UInt8) :
    (state.take bytes).bufPos = state.bufPos + bytes.length := rfl

theorem take_take (state : ReadState) (first second : List UInt8) :
    (state.take first).take second = state.take (first ++ second) := by
  simp [ReadState.take, place_append, Nat.add_assoc]

theorem copy_eq_take (state : ReadState) (blockBuf : ByteMemory) (blockOffset copyLen : Nat) :
    state.copy blockBuf blockOffset copyLen =
      state.take ((range copyLen).map fun index => blockBuf (blockOffset + index)) := by
  simp only [ReadState.copy, ReadState.take, length_map, length_range,
    ReadState.mk.injEq, true_and]
  funext index
  simp only [place, writeBytes, length_map, length_range]
  refine if_ctx_congr Iff.rfl (fun inside => ?_) fun _ => rfl
  rw [getD_eq_getElem _ _ (by simp; omega)]
  simp

@[simp] theorem finish_nil (state : ReadState) (ending : Ending) :
    state.finish ⟨[], ending⟩ =
      (state, if ending = .failed then .error .invalidInput else .ok state.bufPos) := by
  simp [ReadState.finish, ReadState.take, place_nil]

theorem finish_take (state : ReadState) (first : List UInt8) (rest : Scanned UInt8) :
    (state.take first).finish rest = state.finish ⟨first ++ rest.items, rest.ending⟩ := by
  simp [ReadState.finish, take_take, Nat.add_assoc]

end Place

variable {count position : Nat}

section Loop

variable {data : Ext2InodeData} {fileLen bufLen size : Nat} {state : ReadState}

theorem readLoop_turn (fuel : Nat) (more : state.bufPos < bufLen ∧ state.offset < fileLen) :
    readLoop data fileLen bufLen size (fuel + 1) state = (do
      ensure (size ≠ 0) "attempt to divide by zero"
      match ← blockAt data (state.offset / size) with
      | .failed => .ok (state, .error .invalidInput)
      | .stop => .ok (state, .ok state.bufPos)
      | .item blockBuf => do
          let copyLen := min (min (size - state.offset % size) (fileLen - state.offset))
            (bufLen - state.bufPos)
          ensure (state.offset % size + copyLen ≤ cacheBlockSize) "range end index out of range"
          readLoop data fileLen bufLen size fuel
            (state.copy blockBuf (state.offset % size) copyLen)) := by
  rw [readLoop, if_pos more]
  refine bind_congr fun _ => ?_
  dsimp only [blockAt]
  cases (data.superblock.resolveBlockPtr data.blocks (state.offset / size)).run with
  | error fault => rfl
  | ok resolved =>
    cases resolved with
    | error error => rfl
    | ok blockPtr =>
      simp only [ok_bind]
      by_cases hole : blockPtr = 0
      · rw [if_pos hole, if_pos hole]
        rfl
      · rw [if_neg hole, if_neg hole]
        cases (data.superblock.getBlock blockPtr).run with
        | error fault => rfl
        | ok fetched => cases fetched <;> rfl

section

variable (sized : data.superblock.blockSize = .ok size)

include sized

theorem byteAt_inFile (inFile : position < fileLen) :
    byteAt data fileLen position = (do
      ensure (size ≠ 0) "attempt to divide by zero"
      match ← blockAt data (position / size) with
      | .failed => .ok .failed
      | .stop => .ok .stop
      | .item blockBuf => do
          ensure (position % size < cacheBlockSize) "range end index out of range"
          .ok (.item (blockBuf (position % size)))) := by
  rw [byteAt, if_pos inFile, sized, ok_bind]

variable {blockBuf : ByteMemory}

section

variable (positive : size ≠ 0) (fetched : blockAt data (position / size) = .ok (.item blockBuf))

include positive fetched

theorem byteAt_in_block (inFile : position + count < fileLen)
    (inBlock : position % size + count < size) :
    byteAt data fileLen (position + count) = (do
      ensure (position % size + count < cacheBlockSize) "range end index out of range"
      .ok (.item (blockBuf (position % size + count)))) := by
  obtain ⟨sameBlock, behind⟩ := div_mod_add_of_lt inBlock
  rw [← sameBlock] at fetched
  rw [byteAt_inFile sized inFile, ensure_bind positive, fetched, ok_bind, behind]

theorem scan_block (inFile : position + count ≤ fileLen)
    (inBlock : position % size + count ≤ size) (inUnit : position % size + count ≤ cacheBlockSize) :
    scan (byteAt data fileLen) count position =
      .ok ⟨(range count).map fun index => blockBuf (position % size + index), .full⟩ := by
  apply scan_values
  intro index bound
  have inside : position % size + index < cacheBlockSize := by omega
  rw [byteAt_in_block sized positive fetched (by omega) (by omega), ensure_bind inside]

theorem scan_beyond_unit (some : 0 < count) (inFile : position + count ≤ fileLen)
    (inBlock : position % size + count ≤ size)
    (beyond : ¬ position % size + count ≤ cacheBlockSize) :
    scan (byteAt data fileLen) count position =
      .error (.assertion "range end index out of range") := by
  -- The bytes up to the end of the unit are scanned, and the next one panics.
  apply scan_fault_behind (show cacheBlockSize - position % size < count by omega)
  · intro index before
    have byte := byteAt_in_block sized positive fetched
      (show position + index < fileLen by omega) (by omega)
    have inUnit : position % size + index < cacheBlockSize := by omega
    rw [ensure_bind inUnit] at byte
    exact ⟨_, byte⟩
  · have atEnd : ¬ position % size + (cacheBlockSize - position % size) < cacheBlockSize := by omega
    rw [byteAt_in_block sized positive fetched (by omega) (by omega), ensure, if_neg atEnd]
    rfl

theorem scan_copy {copyLen rest : Nat} (some : 0 < copyLen)
    (inFile : position + copyLen ≤ fileLen) (inBlock : position % size + copyLen ≤ size) :
    scan (byteAt data fileLen) (copyLen + rest) position = (do
      ensure (position % size + copyLen ≤ cacheBlockSize) "range end index out of range"
      Scanned.andThen
        ⟨(range copyLen).map fun index => blockBuf (position % size + index), .full⟩
        (scan (byteAt data fileLen) rest (position + copyLen))) := by
  rw [scan_add]
  by_cases inUnit : position % size + copyLen ≤ cacheBlockSize
  · rw [scan_block sized positive fetched inFile inBlock inUnit, ok_bind, ensure_bind inUnit]
  · rw [scan_beyond_unit sized positive fetched some inFile inBlock inUnit, ensure, if_neg inUnit]
    rfl

end

theorem readLoop_eq_scan {fuel : Nat} (enough : bufLen - state.bufPos < fuel) :
    readLoop data fileLen bufLen size fuel state =
      state.finish <$> scan (byteAt data fileLen) (bufLen - state.bufPos) state.offset := by
  induction fuel generalizing state with
  | zero => omega
  | succ fuel ih =>
    rcases Nat.lt_or_ge state.bufPos bufLen with room | full
    · obtain ⟨count, left⟩ : ∃ count, bufLen - state.bufPos = count + 1 :=
        ⟨bufLen - state.bufPos - 1, by omega⟩
      by_cases inFile : state.offset < fileLen
      · have byte := byteAt_inFile sized inFile
        rw [readLoop_turn fuel ⟨room, inFile⟩]
        by_cases positive : size ≠ 0
        · rw [ensure_bind positive] at byte ⊢
          cases fetched : blockAt data (state.offset / size) with
          | error fault =>
            rw [fetched] at byte
            rw [left, scan_fault byte]
            rfl
          | ok found =>
            rw [fetched, ok_bind] at byte
            rw [ok_bind]
            cases found with
            | failed =>
              rw [left, scan_failed byte]
              simp
            | stop =>
              rw [left, scan_stop byte]
              simp
            | item blockBuf =>
              obtain ⟨copyLen, isLen⟩ : ∃ copyLen,
                  min (min (size - state.offset % size) (fileLen - state.offset))
                    (bufLen - state.bufPos) = copyLen := ⟨_, rfl⟩
              obtain ⟨some, inBlock, inLimit, -⟩ :=
                copyLen_spec (Nat.mod_lt state.offset (Nat.pos_of_ne_zero positive))
                  (Nat.sub_pos_of_lt inFile) (Nat.sub_pos_of_lt room) isLen
              have parts : bufLen - state.bufPos =
                  copyLen + (bufLen - (state.bufPos + copyLen)) := by omega
              dsimp only
              rw [isLen, parts, scan_copy sized positive fetched some (by omega) inBlock]
              by_cases inUnit : state.offset % size + copyLen ≤ cacheBlockSize
              · rw [ensure_bind inUnit, ensure_bind inUnit, copy_eq_take, ih (by simp; omega)]
                simp only [take_offset, take_bufPos, length_map, length_range,
                  Scanned.andThen]
                cases scan (byteAt data fileLen) (bufLen - (state.bufPos + copyLen))
                    (state.offset + copyLen) with
                | error fault => rfl
                | ok rest => exact congrArg Except.ok (finish_take _ _ _)
              · rw [ensure, if_neg inUnit]
                rfl
        · rw [ensure, if_neg positive] at byte ⊢
          rw [left, scan_fault byte]
          rfl
      · have atEnd : byteAt data fileLen state.offset = .ok .stop := if_neg inFile
        rw [readLoop, if_neg fun more => inFile more.2, left, scan_stop atEnd]
        simp
    · rw [readLoop, if_neg fun more => Nat.not_le.mpr more.1 full, Nat.sub_eq_zero_of_le full,
        scan]
      simp

end

end Loop

/-- What `read` leaves for a scan. -/
def outcomeOf (file : File Ext2InodeData) (buf : ByteMemory) (scanned : Scanned UInt8) :
    ReadOutcome Ext2InodeData where
  file := { file with offset := file.offset + scanned.items.length }
  buf := place buf 0 scanned.items
  result :=
    if scanned.ending = .failed then .error .invalidInput else .ok scanned.items.length

theorem outcomeOf_nil (file : File Ext2InodeData) (buf : ByteMemory) {ending : Ending}
    (fine : ending ≠ .failed) : outcomeOf file buf ⟨[], ending⟩ = ⟨file, buf, .ok 0⟩ := by
  simp [outcomeOf, place_nil, fine]

variable {file : File Ext2InodeData} {buf : ByteMemory} {outcome : ReadOutcome Ext2InodeData}
  {scanned : Scanned UInt8}

theorem read_eq_scan (regular : file.inode.fileType = .regularFile) (bufLen : Nat)
    (buf : ByteMemory) :
    read file bufLen buf = outcomeOf file buf <$>
      scan (byteAt file.inode.fsData file.inode.len) bufLen file.offset := by
  unfold read
  rw [if_neg (not_not.mpr regular)]
  cases bufLen with
  | zero =>
    have fine : Ending.full ≠ .failed := by decide
    rw [if_pos (Or.inr rfl), scan, ← outcomeOf_nil file buf fine]
    rfl
  | succ count =>
    by_cases inFile : file.offset < file.inode.len
    · rw [if_neg (by omega)]
      cases sized : file.inode.fsData.superblock.blockSize with
      | error fault =>
        have stuck : byteAt file.inode.fsData file.inode.len file.offset = .error fault := by
          rw [byteAt, if_pos inFile, sized]
          rfl
        rw [scan_fault stuck]
        rfl
      | ok size =>
        let start : ReadState := ⟨file.offset, 0, buf⟩
        have enough : count + 1 - start.bufPos < count + 1 + 1 := Nat.lt_succ_self _
        have looped : readLoop _ file.inode.len _ _ _ start = _ :=
          readLoop_eq_scan sized enough
        rw [ok_bind, looped]
        dsimp only [start, Nat.sub_zero]
        cases scan (byteAt file.inode.fsData file.inode.len) (count + 1) file.offset with
        | error fault => rfl
        | ok scanned =>
          simp only [Functor.map, Except.map, ok_bind, ReadState.finish, ReadState.take,
            outcomeOf, Nat.zero_add]
    · have atEnd : byteAt file.inode.fsData file.inode.len file.offset = .ok .stop :=
        if_neg inFile
      have fine : Ending.stop ≠ .failed := by decide
      rw [if_pos (Or.inl (Nat.not_lt.mp inFile)), scan_stop atEnd, ← outcomeOf_nil file buf fine]
      rfl

theorem read_eq_ok (regular : file.inode.fileType = .regularFile) {bufLen : Nat}
    (ran : read file bufLen buf = .ok outcome) :
    ∃ scanned, scan (byteAt file.inode.fsData file.inode.len) bufLen file.offset = .ok scanned ∧
      outcome = outcomeOf file buf scanned := by
  rw [read_eq_scan regular] at ran
  cases scanEq : scan (byteAt file.inode.fsData file.inode.len) bufLen file.offset with
  | error fault =>
    rw [scanEq] at ran
    cases ran
  | ok scanned =>
    rw [scanEq] at ran
    cases ran
    exact ⟨scanned, rfl, rfl⟩

section Contents

variable {data : Ext2InodeData} {size fileLen : Nat} {contents : ByteMemory}

/-- Where the volume has the contents of the file, its positions have the bytes of its
blocks up to the first missing one. -/
theorem byteAt_of_reads (reads : Reads data.superblock.volume contents)
    (sized : data.superblock.Sized size)
    (mapped : fileLen ≤ (ndirBlocks + size / 4 + size / 4 * (size / 4)) * size)
    (inFile : position < fileLen) :
    byteAt data fileLen position =
      .ok (if blockPointer contents size data.blocks (position / size) = 0 then .stop
        else .item (fileByte contents size data.blocks position)) := by
  have positive : 0 < size := by
    rcases sized.supported with rfl | rfl | rfl <;> decide
  have unit : size ≤ cacheBlockSize := by
    rcases sized.supported with rfl | rfl | rfl <;> decide
  have inUnit : position % size < cacheBlockSize := (Nat.mod_lt _ positive).trans_le unit
  have inRange : position / size < ndirBlocks + size / 4 + size / 4 * (size / 4) :=
    Nat.div_lt_of_lt_mul (Nat.mul_comm size _ ▸ inFile.trans_le mapped)
  obtain ⟨blockBuf, found, bytes⟩ := getBlock_reads reads sized
    (blockPointer contents size data.blocks (position / size))
  rw [byteAt_inFile sized.blockSize_eq inFile, ensure_bind positive.ne', blockAt,
    resolveBlockPtr_eq reads sized inRange, ExceptT.run, ok_bind]
  dsimp only
  by_cases hole : blockPointer contents size data.blocks (position / size) = 0
  · rw [if_pos hole, if_pos hole]
    rfl
  · rw [if_neg hole, if_neg hole, found, ExceptT.run, ok_bind]
    rw [ok_bind]
    dsimp only
    rw [ensure_bind inUnit, bytes _ inUnit, fileByte, if_neg hole]

theorem scan_of_reads (reads : Reads data.superblock.volume contents)
    (sized : data.superblock.Sized size)
    (mapped : fileLen ≤ (ndirBlocks + size / 4 + size / 4 * (size / 4)) * size)
    (allocated : ∀ index < min count (fileLen - position),
      blockPointer contents size data.blocks ((position + index) / size) ≠ 0) :
    ∃ ending ≠ .failed, scan (byteAt data fileLen) count position =
      .ok ⟨(range (min count (fileLen - position))).map fun index =>
        fileByte contents size data.blocks (position + index), ending⟩ := by
  have inFile : scan (byteAt data fileLen) (min count (fileLen - position)) position =
      .ok ⟨(range (min count (fileLen - position))).map fun index =>
        fileByte contents size data.blocks (position + index), .full⟩ := by
    apply scan_values
    intro index bound
    rw [byteAt_of_reads reads sized mapped (by omega), if_neg (allocated index bound)]
  rcases Nat.lt_or_ge (fileLen - position) count with long | short
  · obtain ⟨rest, total⟩ := Nat.exists_eq_add_of_lt long
    have atEnd : byteAt data fileLen (position + (fileLen - position)) = .ok .stop :=
      if_neg (by omega)
    rw [Nat.min_eq_right long.le] at inFile ⊢
    refine ⟨.stop, by decide, ?_⟩
    rw [total, Nat.add_assoc, scan_add, inFile, ok_bind, Scanned.andThen, scan_stop atEnd, ok_bind,
      append_nil]
  · rw [Nat.min_eq_left short] at inFile ⊢
    exact ⟨.full, by decide, inFile⟩

end Contents

section Read

variable {file : File Ext2InodeData} {size : Nat} {contents : ByteMemory}

/-- A read of a regular file returns its bytes, as many as the buffer takes and
the file has, exactly when every block of them is allocated. -/
theorem read_returns_file_iff (reads : Reads file.inode.fsData.superblock.volume contents)
    (sized : file.inode.fsData.superblock.Sized size) (regular : file.inode.fileType = .regularFile)
    (mapped : file.inode.len ≤ (ndirBlocks + size / 4 + size / 4 * (size / 4)) * size)
    (bufLen : Nat) (buf : ByteMemory) :
    (∃ bytes, read file bufLen buf =
        .ok ⟨{ file with offset := file.offset + min bufLen (file.inode.len - file.offset) },
          bytes, .ok (min bufLen (file.inode.len - file.offset))⟩ ∧
      ∀ index < min bufLen (file.inode.len - file.offset), bytes index =
        fileByte contents size file.inode.fsData.blocks (file.offset + index)) ↔
      ∀ index < min bufLen (file.inode.len - file.offset),
        blockPointer contents size file.inode.fsData.blocks ((file.offset + index) / size) ≠ 0 := by
  constructor
  · rintro ⟨bytes, returned, -⟩ index bound hole
    obtain ⟨scanned, ran, outcome⟩ := read_eq_ok regular returned
    have result := congrArg ReadOutcome.result outcome
    have whole : scanned.items.length = min bufLen (file.inode.len - file.offset) := by
      dsimp only [outcomeOf] at result
      split_ifs at result
      exact (Except.ok.inj result).symm
    obtain ⟨value, found⟩ := (scan_collects ran).found index (by omega)
    rw [byteAt_of_reads reads sized mapped (by omega), if_pos hole] at found
    cases found
  · intro allocated
    obtain ⟨ending, fine, ran⟩ := scan_of_reads reads sized mapped allocated
    refine ⟨_, ?_, fun index bound => place_map buf (fun index =>
      fileByte contents size file.inode.fsData.blocks (file.offset + index)) bound⟩
    rw [read_eq_scan regular, ran]
    simp only [Functor.map, Except.map, outcomeOf, if_neg fine, length_map, length_range]

end Read

theorem twoBlockFile_read : ∃ bytes, read (twoBlockFile 20 21) 4096 (fun _ => 0xff) =
      .ok ⟨{ twoBlockFile 20 21 with offset := 2048 }, bytes, .ok 2048⟩ ∧
    ∀ index < 2048, bytes index =
      fileByte (fun _ => 1) 1024 (twoBlockFile 20 21).inode.fsData.blocks index := by
  have sized : (twoBlockFile 20 21).inode.fsData.superblock.Sized 1024 := ⟨rfl, Or.inl rfl⟩
  have reads : Reads (twoBlockFile 20 21).inode.fsData.superblock.volume fun _ => 1 :=
    fun _ => ⟨_, rfl, fun _ _ => rfl⟩
  obtain ⟨bytes, returned, bytesEq⟩ :=
    (read_returns_file_iff reads sized rfl (by decide) 4096 fun _ => 0xff).mpr (by
      intro index bound
      have small : index < 2048 := Nat.lt_of_lt_of_le bound (Nat.min_le_right _ _)
      have block : index / 1024 = 0 ∨ index / 1024 = 1 := by omega
      change blockPointer _ 1024 _ ((0 + index) / 1024) ≠ 0
      rw [Nat.zero_add]
      rcases block with first | second
      · rw [first]
        decide
      · rw [second]
        decide)
  refine ⟨bytes, returned, ?_⟩
  intro index bound
  have read := bytesEq index bound
  rwa [Nat.add_comm] at read

/-- With a hole in front the same read returns nothing, although the file has
2048 bytes. -/
theorem sparseFile_reads_nothing :
    (read (twoBlockFile 0 21) 4096 fun _ => 0xff).map (fun outcome => outcome.result) =
        .ok (.ok 0) ∧
      (twoBlockFile 0 21).inode.len = 2048 ∧
      fileByte (fun _ => 1) 1024 (twoBlockFile 0 21).inode.fsData.blocks 1024 = 1 := by
  exact ⟨rfl, rfl, by decide⟩

/-- No read fails behind a byte that it could read: the first position that cannot
be read is the first of all. -/
def Resumable (file : File Ext2InodeData) (bufLen : Nat) : Prop :=
  ∀ before < bufLen, 0 < before →
    ¬ FailsBehind (byteAt file.inode.fsData file.inode.len) file.offset before

def returnedBytes (outcome : ReadOutcome Ext2InodeData) : List UInt8 :=
  match outcome.result with
  | .ok count => (List.range count).map outcome.buf
  | .error _ => []

/-- The open file, while its volume answers in a given way. -/
def onVolume (file : File Ext2InodeData) (volume : BlockVolume) : File Ext2InodeData :=
  let data := file.inode.fsData
  let superblock := { data.superblock with volume := volume }
  { file with inode := { file.inode with fsData := { data with superblock := superblock } } }

/-- A sequence of reads, each with the answers of the volume during the call and
the length of its buffer. -/
def readCalls : List (BlockVolume × Nat) → File Ext2InodeData →
    Checked (List UInt8 × File Ext2InodeData)
  | [], file => .ok ([], file)
  | (volume, bufLen) :: calls, file => do
      let outcome ← read (onVolume file volume) bufLen fun _ => 0
      let (bytes, last) ← readCalls calls outcome.file
      .ok (returnedBytes outcome ++ bytes, last)

/-- Every call of the sequence is resumable at the file it finds. -/
def AllResumable : List (BlockVolume × Nat) → File Ext2InodeData → Prop
  | [], _ => True
  | (volume, bufLen) :: calls, file =>
      Resumable (onVolume file volume) bufLen ∧
        ∀ outcome, read (onVolume file volume) bufLen (fun _ => 0) = .ok outcome →
          AllResumable calls outcome.file

section Calls

variable {file : File Ext2InodeData}

theorem range_map_place (buf : ByteMemory) (bytes : List UInt8) :
    (range bytes.length).map (place buf 0 bytes) = bytes := by
  apply ext_getElem
  · simp
  · intro index _ bound
    have inside : place buf 0 bytes (0 + index) = bytes.getD index 0 :=
      writeBytes_inside buf _ bound
    rw [Nat.zero_add] at inside
    rw [getElem_map, getElem_range, inside, getD_eq_getElem _ _ bound]

theorem returnedBytes_outcomeOf (buf : ByteMemory) (scanned : Scanned UInt8) :
    returnedBytes (outcomeOf file buf scanned) =
      if scanned.ending = .failed then [] else scanned.items := by
  unfold returnedBytes outcomeOf
  by_cases failed : scanned.ending = .failed
  · rw [if_pos failed, if_pos failed]
  · rw [if_neg failed, if_neg failed]
    exact range_map_place buf scanned.items

variable {bufLen : Nat}

theorem Resumable.items_nil (resumable : Resumable file bufLen)
    (failed : scanned.ending = .failed)
    (ran : scan (byteAt file.inode.fsData file.inode.len) bufLen file.offset = .ok scanned) :
    scanned.items = [] := by
  obtain ⟨items, ending⟩ := scanned
  cases failed
  obtain ⟨inside, fails⟩ := scan_failed_iff.mp ⟨items, rfl, ran⟩
  by_contra some
  exact resumable _ inside (length_pos_iff.mpr some) fails

section

variable (regular : file.inode.fileType = .regularFile)

include regular

theorem Resumable.offset_eq (resumable : Resumable file bufLen)
    (ran : read file bufLen buf = .ok outcome) :
    outcome.file = { file with offset := file.offset + (returnedBytes outcome).length } := by
  obtain ⟨scanned, scanEq, rfl⟩ := read_eq_ok regular ran
  rw [returnedBytes_outcomeOf]
  by_cases failed : scanned.ending = .failed
  · have none := resumable.items_nil failed scanEq
    simp [outcomeOf, none]
  · rw [if_neg failed]
    rfl

theorem failed_read_keeps_iff (bufLen : Nat) (buf : ByteMemory) :
    (∀ outcome error, read file bufLen buf = .ok outcome → outcome.result = .error error →
        outcome.file.offset = file.offset) ↔ Resumable file bufLen := by
  constructor
  · intro keeps before inside some fails
    obtain ⟨items, length, scanEq⟩ := scan_failed_iff.mpr ⟨inside, fails⟩
    have ran : read file bufLen buf = .ok (outcomeOf file buf ⟨items, .failed⟩) := by
      rw [read_eq_scan regular, scanEq]
      rfl
    have same : file.offset + items.length = file.offset := keeps _ .invalidInput ran rfl
    omega
  · intro resumable outcome error ran failed
    have none : returnedBytes outcome = [] := by rw [returnedBytes, failed]
    rw [resumable.offset_eq regular ran, none]
    rfl

/-- A sequence of resumable reads returns every byte it passes. -/
theorem readCalls_offset {calls : List (BlockVolume × Nat)} (resumable : AllResumable calls file)
    {bytes : List UInt8} {last : File Ext2InodeData}
    (ran : readCalls calls file = .ok (bytes, last)) :
    last.offset = file.offset + bytes.length := by
  induction calls generalizing file bytes with
  | nil =>
    cases ran
    rfl
  | cons call calls ih =>
    obtain ⟨volume, bufLen⟩ := call
    obtain ⟨outcome, first, rest⟩ := bind_eq_ok.mp ran
    obtain ⟨⟨restBytes, restLast⟩, restRan, joined⟩ := bind_eq_ok.mp rest
    cases joined
    have stillRegular : (onVolume file volume).inode.fileType = .regularFile := regular
    have moved := resumable.1.offset_eq stillRegular first
    have behind := ih (by rw [moved]; exact regular) (resumable.2 outcome first) restRan
    rw [behind, moved, length_append, ← Nat.add_assoc]
    rfl

end

/-- A failed read leaves the offset as it was exactly when no position fails
behind others that could be read; and a sequence of such reads, failed ones
among them, passes over no byte that it did not return. -/
theorem failed_read_consumes_nothing_iff (regular : file.inode.fileType = .regularFile)
    (bufLen : Nat) (buf : ByteMemory) :
    ((∀ outcome error, read file bufLen buf = .ok outcome → outcome.result = .error error →
        outcome.file.offset = file.offset) ↔ Resumable file bufLen) ∧
      ∀ calls bytes last, AllResumable calls file → readCalls calls file = .ok (bytes, last) →
        last.offset = file.offset + bytes.length :=
  ⟨failed_read_keeps_iff regular bufLen buf,
    fun _ _ _ resumable ran => readCalls_offset regular resumable ran⟩

end Calls

/-- Where the volume fails at once, the read fails at the offset it started from. -/
theorem brokenVolume_keeps_offset :
    let file := onVolume (twoBlockFile 20 21) fun _ => .error .ioError
    (read file 2048 fun _ => 0).map (fun outcome => (outcome.file.offset, outcome.result)) =
        .ok (0, .error .invalidInput) ∧
      ∀ outcome error, read file 2048 (fun _ => 0) = .ok outcome →
        outcome.result = .error error → outcome.file.offset = 0 := by
  refine ⟨rfl, (failed_read_consumes_nothing_iff rfl 2048 fun _ => 0).1.mpr ?_⟩
  intro before inside some fails
  obtain ⟨value, found⟩ := fails.2 0 some
  cases found

/-- Where only the second of two blocks fails, the read fails too, but the offset
has passed the first. -/
theorem brokenBlock_moves_offset :
    let file := onVolume (twoBlockFile 20 21) fun sector =>
      if sector = 42 then .error .ioError else .ok fun _ => 1
    file.inode.fileType = .regularFile ∧ file.offset = 0 ∧
      (read file 2048 fun _ => 0).map (fun outcome => (outcome.file.offset, outcome.result)) =
        .ok (1024, .error .invalidInput) := by
  exact ⟨rfl, rfl, rfl⟩

/-- Read into consecutive buffers, given by their lengths and contents, up to the
first that is not filled. -/
def readBuffers : List (Nat × ByteMemory) → File Ext2InodeData →
    Checked (Except FileError (List UInt8 × File Ext2InodeData))
  | [], file => .ok (.ok ([], file))
  | (bufLen, buf) :: buffers, file => do
      let outcome ← read file bufLen buf
      match outcome.result with
      | .error error => .ok (.error error)
      | .ok count =>
          if count < bufLen then
            .ok (.ok (returnedBytes outcome, outcome.file))
          else do
            match ← readBuffers buffers outcome.file with
            | .error error => .ok (.error error)
            | .ok (bytes, last) => .ok (.ok (returnedBytes outcome ++ bytes, last))

def ErrorFree (volume : BlockVolume) : Prop := ∀ sector, ∃ buf, volume sector = .ok buf

section ErrorFree

def Errorless {α : Type} (call : Fallible α) : Prop := ∀ error, call ≠ .ok (.error error)

variable {α : Type}

theorem Errorless.bind {β : Type} {call : Fallible α} {rest : α → Fallible β}
    (first : Errorless call) (second : ∀ value, Errorless (rest value)) :
    Errorless (call >>= rest) := by
  intro error failed
  cases call with
  | error fault => cases failed
  | ok result =>
    cases result with
    | error callError => exact first callError rfl
    | ok value => exact second value error failed

theorem errorless_pure (value : α) : Errorless (pure value) := nofun

theorem errorless_lift (call : Checked α) : Errorless (liftM call : Fallible α) := by
  cases call <;> exact nofun

theorem errorless_ite {condition : Prop} [Decidable condition] {first second : Fallible α}
    (firstErrorless : Errorless first) (secondErrorless : Errorless second) :
    Errorless (if condition then first else second) := by
  split
  · exact firstErrorless
  · exact secondErrorless

variable {superblock : Ext2SuperBlock}

section

variable (errorFree : ErrorFree superblock.volume)

include errorFree

theorem getBlock_errorless (blockNum : Nat) : Errorless (superblock.getBlock blockNum) := by
  refine (errorless_lift _).bind fun sector => ?_
  obtain ⟨buf, answered⟩ := errorFree sector
  rw [answered]
  exact nofun

theorem readPointer_errorless (blockNum index : Nat) :
    Errorless (superblock.readPointer blockNum index) :=
  (getBlock_errorless errorFree blockNum).bind fun _ => errorless_lift _

theorem resolveBlockPtr_errorless (blocks : Nat → Nat) (blockIdx : Nat) :
    Errorless (superblock.resolveBlockPtr blocks blockIdx) := by
  have hole : Errorless (pure 0 : Fallible Nat) := errorless_pure 0
  have entry := readPointer_errorless errorFree
  apply errorless_ite (errorless_pure _)
  refine (errorless_lift _).bind fun size => ?_
  apply errorless_ite
  · exact errorless_ite hole (entry _ _)
  · apply errorless_ite
    · exact errorless_ite hole ((entry _ _).bind fun _ => errorless_ite hole (entry _ _))
    · exact hole

end

section

variable {data : Ext2InodeData} (errorFree : ErrorFree data.superblock.volume)

include errorFree

theorem blockAt_ne_failed (blockIdx : Nat) : blockAt data blockIdx ≠ .ok .failed := by
  intro failed
  obtain ⟨resolved, resolve, rest⟩ := bind_eq_ok.mp failed
  cases resolved with
  | error error => exact resolveBlockPtr_errorless errorFree _ _ error resolve
  | ok blockPtr =>
    dsimp only at rest
    by_cases hole : blockPtr = 0
    · rw [if_pos hole] at rest
      cases rest
    · rw [if_neg hole] at rest
      obtain ⟨fetched, fetch, found⟩ := bind_eq_ok.mp rest
      cases fetched with
      | error error => exact getBlock_errorless errorFree _ error fetch
      | ok blockBuf => cases found

theorem byteAt_ne_failed (fileLen position : Nat) : byteAt data fileLen position ≠ .ok .failed := by
  intro failed
  unfold byteAt at failed
  by_cases inFile : position < fileLen
  · rw [if_pos inFile] at failed
    obtain ⟨size, -, rest⟩ := bind_eq_ok.mp failed
    obtain ⟨-, -, rest⟩ := bind_eq_ok.mp rest
    obtain ⟨found, fetched, last⟩ := bind_eq_ok.mp rest
    cases found with
    | failed => exact blockAt_ne_failed errorFree _ fetched
    | stop => cases last
    | item blockBuf =>
      obtain ⟨-, -, last⟩ := bind_eq_ok.mp last
      cases last
  · rw [if_neg inFile] at failed
    cases failed

theorem scan_ending_ne_failed {fileLen : Nat}
    (ran : scan (byteAt data fileLen) count position = .ok scanned) :
    scanned.ending ≠ .failed := fun failed =>
  byteAt_ne_failed errorFree _ _ ((scan_collects ran).failed failed)

end

variable {file : File Ext2InodeData}

/-- Reads into consecutive buffers are one scan of as many positions as they have
together. -/
theorem readBuffers_eq_scan (errorFree : ErrorFree file.inode.fsData.superblock.volume)
    (regular : file.inode.fileType = .regularFile) (buffers : List (Nat × ByteMemory)) :
    readBuffers buffers file =
      (fun scanned : Scanned UInt8 => .ok (scanned.items,
          { file with offset := file.offset + scanned.items.length })) <$>
        scan (byteAt file.inode.fsData file.inode.len) (buffers.map Prod.fst).sum file.offset := by
  induction buffers generalizing file with
  | nil => rfl
  | cons buffer buffers ih =>
    obtain ⟨bufLen, buf⟩ := buffer
    rw [readBuffers, read_eq_scan regular, map_cons, sum_cons, scan_add]
    cases ran : scan (byteAt file.inode.fsData file.inode.len) bufLen file.offset with
    | error fault => rfl
    | ok scanned =>
      have fine := scan_ending_ne_failed errorFree ran
      obtain ⟨within, -, full_iff, -⟩ := scan_collects ran
      have result : (outcomeOf file buf scanned).result = .ok scanned.items.length :=
        if_neg fine
      have bytes : returnedBytes (outcomeOf file buf scanned) = scanned.items := by
        rw [returnedBytes_outcomeOf, if_neg fine]
      have mapped : outcomeOf file buf <$> (.ok scanned : Checked _) =
          .ok (outcomeOf file buf scanned) := rfl
      rw [mapped, ok_bind, ok_bind, result]
      dsimp only
      rw [bytes]
      obtain ⟨items, ending⟩ := scanned
      cases ending with
      | failed => exact absurd rfl fine
      | stop =>
        have short : items.length ≠ bufLen := fun whole => nomatch full_iff.mpr whole
        rw [if_pos (Nat.lt_of_le_of_ne within short)]
        rfl
      | full =>
        have whole : items.length = bufLen := full_iff.mp rfl
        have next := @ih (outcomeOf file buf ⟨items, .full⟩).file errorFree regular
        rw [if_neg (by dsimp only; omega), next]
        dsimp only [Scanned.andThen, outcomeOf]
        rw [whole]
        cases scan (byteAt file.inode.fsData file.inode.len) (buffers.map Prod.fst).sum
            (file.offset + bufLen) with
        | error fault => rfl
        | ok rest =>
          simp [Functor.map, Except.map, length_append, whole, Nat.add_assoc]

/-- Any two ways to divide a number of bytes between buffers give the same bytes
up to the first buffer that is not filled, and the same file behind them. -/
theorem readBuffers_split_irrelevant (errorFree : ErrorFree file.inode.fsData.superblock.volume)
    (regular : file.inode.fileType = .regularFile) (first second : List (Nat × ByteMemory))
    (sameLength : (first.map Prod.fst).sum = (second.map Prod.fst).sum) :
    readBuffers first file = readBuffers second file ∧
      ∀ error, readBuffers first file ≠ .ok (.error error) := by
  rw [readBuffers_eq_scan errorFree regular, readBuffers_eq_scan errorFree regular, sameLength]
  refine ⟨rfl, ?_⟩
  intro error
  cases scan (byteAt file.inode.fsData file.inode.len) (second.map Prod.fst).sum file.offset <;>
    exact nofun

end ErrorFree

/-- Two whole blocks at once, or in three parts across their border. -/
theorem twoBlockFile_split :
    readBuffers [(2048, fun _ => 0)] (twoBlockFile 20 21) =
      readBuffers [(1000, fun _ => 0), (100, fun _ => 7), (948, fun _ => 9)] (twoBlockFile 20 21) :=
  (readBuffers_split_irrelevant (fun _ => ⟨_, rfl⟩) rfl _ _ (by decide)).1

end NanoOs.Ext2
