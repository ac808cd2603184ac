import NanoOs.FileCalls
import NanoOs.RamfsInserts

/-!
# Offsets of open files

Files of the RAM file system and of `/proc` are in memory as a whole, and a read slices
their bytes at the offset.  Reads and seeks keep the offset inside the file, with one
seek that panics: the smallest `isize` has no negation.
-/

namespace NanoOs

open Files Function

/-! ## Lengths of inodes in the RAM file system -/

/-- The length of a file is that of its data. -/
def RamfsInode.Sized (inode : RamfsInode) : Prop :=
  ∀ data, inode.fsData = .file data → inode.len = data.length

namespace Ramfs

variable {ramfs : Ramfs} {inode : Nat → RamfsInode}

def Sized (ramfs : Ramfs) : Prop := ∀ arc, (ramfs.inodes arc).Sized

theorem sized_dir {inode : RamfsInode} {children : String → Option Nat}
    (isDir : inode.fsData = .dir children) : inode.Sized := by
  intro data isFile
  rw [isDir] at isFile
  cases isFile

theorem Sized.update (sized : ramfs.Sized) {inode : RamfsInode} (isSized : inode.Sized)
    (arc : Nat) :
    ∀ other, (update ramfs.inodes arc inode other).Sized := by
  intro other
  by_cases same : other = arc
  · rw [same, update_self]
    exact isSized
  · rw [update_of_ne same]
    exact sized other

theorem Sized.makeInode (sized : ramfs.Sized) (isSized : ∀ ino, (inode ino).Sized) :
    (ramfs.makeInode inode).2.Sized :=
  sized.update (isSized _) _

theorem Sized.setChildren (sized : ramfs.Sized) (dir : Nat) (children : String → Option Nat) :
    (ramfs.setChildren dir children).Sized :=
  sized.update (sized_dir rfl) dir

theorem Sized.dirInsert (sized : ramfs.Sized) (parent : Nat) (name : String) (child : Nat) :
    (ramfs.dirInsert parent name child).Sized := by
  unfold Ramfs.dirInsert
  split
  · exact sized.setChildren _ _
  · exact sized

theorem Sized.getOrCreateDir (sized : ramfs.Sized) (parent : Nat) (name : String) :
    (ramfs.getOrCreateDir parent name).2.Sized := by
  unfold Ramfs.getOrCreateDir
  split
  · split
    · exact sized
    · exact (sized.makeInode fun _ => sized_dir rfl).setChildren _ _
  · exact sized

theorem Sized.createDirs {current : Nat} {names : List String} {after : Ramfs}
    {result : Except FileError Nat} (sized : ramfs.Sized)
    (created : ramfs.createDirs current names = (result, after)) : after.Sized := by
  induction names generalizing ramfs current with
  | nil =>
    cases created
    exact sized
  | cons name names ih =>
    have next := sized.getOrCreateDir current name
    unfold Ramfs.createDirs at created
    split at created
    · rename_i made
      rw [made] at next
      exact ih next created
    · rename_i made
      rw [made] at next
      cases created
      exact next

theorem Sized.insertDir (sized : ramfs.Sized) (path : String) :
    (ramfs.insertDir path).2.Sized := by
  unfold Ramfs.insertDir
  split
  · exact sized
  · split
    · next created => exact sized.createDirs created
    · next created => exact sized.createDirs created

theorem Sized.insertLeaf (sized : ramfs.Sized) (path : String) (arc : Nat) :
    (ramfs.insertLeaf path arc).2.Sized := by
  unfold Ramfs.insertLeaf
  split
  · exact sized
  · split
    · next created => exact (sized.createDirs created).dirInsert _ _ _
    · next created => exact sized.createDirs created

theorem Sized.apply (sized : ramfs.Sized) (insert : Insert) : (insert.apply ramfs).2.Sized := by
  cases insert with
  | dir path => exact sized.insertDir path
  | file path data =>
    refine (sized.makeInode fun _ => ?_).insertLeaf path _
    rintro _ ⟨⟩
    rfl
  | chardev path major minor =>
    refine (sized.makeInode fun _ => ?_).insertLeaf path _
    rintro _ ⟨⟩
  | blockdev path major minor =>
    refine (sized.makeInode fun _ => ?_).insertLeaf path _
    rintro _ ⟨⟩

theorem Reached.sized (reached : ramfs.Reached) : ramfs.Sized := by
  induction reached with
  | new => exact fun _ => sized_dir rfl
  | insert _ insert ih => exact ih.apply insert

end Ramfs

namespace FileCalls

open ByteMemory

inductive SeekFrom
  | start (position : UInt64)
  | current (distance : Int64)
  deriving DecidableEq

/-- `-n` of an `isize` as a `usize`. -/
def checkedNeg (n : Int64) : Checked Nat :=
  if n = Int64.minValue then .error .overflow else .ok (-n.toInt).toNat

/-- `usize::saturating_add`. -/
def saturatingAdd (first second : Nat) : Nat := min (first + second) (2 ^ 64 - 1)

/-- `vfs_seek`, which no file system overrides and which returns `Ok(())`. -/
def vfsSeek (file : OpenFile) : SeekFrom → Checked OpenFile
  | .start n => .ok { file with offset := min n.toNat file.inode.len }
  | .current n =>
      if 0 ≤ n.toInt then
        .ok { file with offset := min (saturatingAdd file.offset n.toInt.toNat) file.inode.len }
      else do
        let back ← checkedNeg n
        .ok { file with offset := file.offset - back }

/-- The bytes of a file that is in memory. -/
def OpenFile.contents (file : OpenFile) : Option (List UInt8) :=
  match file.fops, file.inode.fsData with
  | .ramfs, .ramfs (.file data) => some data
  | .procfsFile, .procfsData content => some content
  | _, _ => none

inductive Operation
  | read (bufLen : Nat) (buf : ByteMemory)
  | seek (position : SeekFrom)

/-- No operation panics, the offset stays inside the contents, and each read gives the
bytes at the offset and moves it behind them. -/
def InRange (contents : List UInt8) : OpenFile → List Operation → Prop
  | file, [] => file.offset ≤ contents.length
  | file, .read bufLen buf :: rest =>
      file.offset ≤ contents.length ∧ ∃ outcome n, vfsRead file bufLen buf = .ok outcome ∧
        n = min bufLen (contents.length - file.offset) ∧ outcome.result = .ok n ∧
        (∀ index < n, outcome.buf index = contents.getD (file.offset + index) 0) ∧
        (∀ index ≥ n, outcome.buf index = buf index) ∧
        outcome.file.offset = file.offset + n ∧ InRange contents outcome.file rest
  | file, .seek position :: rest =>
      file.offset ≤ contents.length ∧ ∃ after, vfsSeek file position = .ok after ∧
        InRange contents after rest

/-- An open file with its contents in memory and the length of its inode. -/
structure Holds (file : OpenFile) (contents : List UInt8) : Prop where
  isMemory : file.contents = some contents
  len : file.inode.len = contents.length
  inside : file.offset ≤ contents.length

section Offsets

variable {file : OpenFile} {contents : List UInt8}

theorem Holds.move (holds : Holds file contents) {offset : Nat}
    (inside : offset ≤ contents.length) :
    Holds { file with offset } contents :=
  ⟨holds.isMemory, holds.len, inside⟩

theorem vfsRead_contents (isMemory : file.contents = some contents) (bufLen : Nat)
    (buf : ByteMemory) :
    vfsRead file bufLen buf = readContent file contents bufLen buf := by
  unfold OpenFile.contents at isMemory
  split at isMemory
  · rename_i data isRamfs isFile
    cases isMemory
    rw [vfsRead, isRamfs]
    rw [ramfsRead, isFile]
  · rename_i content isProcfs isData
    cases isMemory
    rw [vfsRead, isProcfs]
    rw [procfsRead, isData]
  · cases isMemory

theorem Holds.vfsRead (holds : Holds file contents) (bufLen : Nat) (buf : ByteMemory) :
    ∃ outcome n, FileCalls.vfsRead file bufLen buf = .ok outcome ∧
      n = min bufLen (contents.length - file.offset) ∧ outcome.result = .ok n ∧
      (∀ index < n, outcome.buf index = contents.getD (file.offset + index) 0) ∧
      (∀ index ≥ n, outcome.buf index = buf index) ∧
      outcome.file.offset = file.offset + n ∧ Holds outcome.file contents := by
  have inside := holds.inside
  rw [vfsRead_contents holds.isMemory, readContent, ensure_bind inside]
  have fits : file.offset + min (contents.length - file.offset) bufLen ≤ contents.length := by omega
  refine ⟨_, _, rfl, Nat.min_comm _ _, rfl, fun index copied => ?_, fun index behind => ?_, rfl,
    holds.move fits⟩
  · dsimp only
    rw [← Nat.zero_add index, writeBytes_inside _ _ copied, Nat.zero_add]
  · dsimp only
    exact writeBytes_outside _ _ (Or.inr ((Nat.zero_add _).trans_le behind))

/-- A seek leaves the offset inside the file, or it negates the smallest distance. -/
theorem Holds.vfsSeek (holds : Holds file contents) {position : SeekFrom}
    (negates : position ≠ .current Int64.minValue) :
    ∃ after, FileCalls.vfsSeek file position = .ok after ∧ Holds after contents := by
  have inside := holds.inside
  have len := holds.len
  cases position with
  | start n => exact ⟨_, rfl, holds.move (by omega)⟩
  | current n =>
    unfold FileCalls.vfsSeek
    dsimp only
    by_cases forward : 0 ≤ n.toInt
    · rw [if_pos forward]
      exact ⟨_, rfl, holds.move (by omega)⟩
    · have some : n ≠ Int64.minValue := fun same => negates (congrArg _ same)
      rw [if_neg forward, checkedNeg, if_neg some, ok_bind]
      exact ⟨_, rfl, holds.move (by omega)⟩

theorem vfsSeek_minValue (file : OpenFile) :
    vfsSeek file (.current Int64.minValue) = .error .overflow := by
  unfold vfsSeek
  rfl

theorem Holds.inRange_iff (holds : Holds file contents) (operations : List Operation) :
    InRange contents file operations ↔
      ∀ operation ∈ operations, operation ≠ .seek (.current Int64.minValue) := by
  induction operations generalizing file with
  | nil => exact iff_of_true holds.inside (List.forall_mem_nil _)
  | cons operation rest ih =>
    rw [List.forall_mem_cons]
    cases operation with
    | read bufLen buf =>
      obtain ⟨outcome, n, ran, count, result, bytes, kept, moved, after⟩ :=
        holds.vfsRead bufLen buf
      rw [← ih after]
      constructor
      · rintro ⟨-, other, _, again, -, -, -, -, -, inRange⟩
        cases ran.symm.trans again
        exact ⟨by rintro ⟨⟩, inRange⟩
      · rintro ⟨-, inRange⟩
        exact ⟨holds.inside, outcome, n, ran, count, result, bytes, kept, moved, inRange⟩
    | seek position =>
      by_cases negates : position = .current Int64.minValue
      · subst negates
        refine iff_of_false ?_ fun both => both.1 rfl
        rintro ⟨-, after, sought, -⟩
        cases sought
      · obtain ⟨after, sought, afterHolds⟩ := holds.vfsSeek negates
        rw [← ih afterHolds]
        constructor
        · rintro ⟨-, other, again, inRange⟩
          cases sought.symm.trans again
          exact ⟨fun same => negates (Operation.seek.inj same), inRange⟩
        · rintro ⟨-, inRange⟩
          exact ⟨holds.inside, after, sought, inRange⟩

end Offsets

/-! ## Files that are opened -/

/-- The inodes of regular files in the two file systems. -/
inductive RegularInode : VfsInode → Prop
  | ramfs {ramfs : Ramfs} (reached : ramfs.Reached) {superblock arc : Nat}
      (regular : (ramfs.inodes arc).fileType = .regularFile) :
      RegularInode (ramfsInode superblock ramfs arc)
  | procfs (superblock idx : Nat) : RegularInode (procfsInode superblock idx)

theorem RegularInode.holds {inode : VfsInode} (regular : RegularInode inode) (vfs : Vfs) :
    ∃ file contents, vfs.openInode inode = .ok file ∧ Holds file contents := by
  cases regular with
  | procfs superblock idx => exact ⟨_, vfs.content idx, rfl, rfl, rfl, Nat.zero_le _⟩
  | @ramfs ramfs reached superblock arc regular =>
    have kind := reached.wellFormed.kinds arc
    rw [regular] at kind
    cases node : (ramfs.inodes arc).fsData with
    | file data =>
      have sized := reached.sized arc data node
      refine ⟨OpenFile.new .ramfs (ramfsInode superblock ramfs arc), data, ?_, ?_, sized,
        Nat.zero_le _⟩
      · have notDevice : (ramfsInode superblock ramfs arc).fileType ≠ .charDevice := by
          change (ramfs.inodes arc).fileType ≠ .charDevice
          rw [regular]
          decide
        rw [Vfs.openInode, if_neg notDevice]
        rfl
      · simp [OpenFile.contents, OpenFile.new, ramfsInode, node]
    | dir children =>
      rw [node] at kind
      cases kind
    | charDevice =>
      rw [node] at kind
      cases kind
    | blockDevice =>
      rw [node] at kind
      cases kind

/-- A regular file of the RAM file system or of `/proc` can be opened, and any reads
and seeks of it are in range exactly if none of them seeks by the smallest distance. -/
theorem vfsOpen_inRange_iff {vfs : Vfs} {path : String} {inode : VfsInode}
    (found : vfs.vfsLookup path = .ok (.ok inode)) (regular : RegularInode inode) :
    ∃ file contents, vfs.vfsOpen path = .ok (.ok file) ∧ file.contents = some contents ∧
      ∀ operations, InRange contents file operations ↔
        ∀ operation ∈ operations, operation ≠ .seek (.current Int64.minValue) := by
  obtain ⟨file, contents, opened, holds⟩ := regular.holds vfs
  refine ⟨file, contents, ?_, holds.isMemory, holds.inRange_iff⟩
  rw [Vfs.vfsOpen, found, ok_bind]
  dsimp only
  rw [opened]

/-- A RAM file system with `/proc` mounted on a directory of it. -/
def procMounts : Mounts where
  root superblock :=
    if superblock = 0 then ramfsInode 0 (Ramfs.new.insertDir "proc").2 0
    else ⟨⟨1, .directory, 0, .procfsDir⟩, none, superblock, some 0⟩
  ramfs _ := (Ramfs.new.insertDir "proc").2
  cached _ _ := none
  answers _ _ _ := .error .ioError
  table := (VfsMounts.MountTable.init (0, 0)).push ⟨(0, 1), "/proc", (1, 0)⟩

def versionVfs : Vfs := procMounts.vfs (fun _ => [0x6e, 0x61, 0x6e, 0x6f]) fun _ => true

theorem versionVfs_found :
    versionVfs.vfsLookup "/proc/version" = .ok (.ok (procfsInode 1 3)) := rfl

/-- Reads of an entry of `/proc` and seeks far behind and before it are in range. -/
theorem version_inRange : ∃ file contents, versionVfs.vfsOpen "/proc/version" = .ok (.ok file) ∧
    InRange contents file [.seek (.current Int64.maxValue), .read 8 fun _ => 0,
      .seek (.current (-3)), .read 2 fun _ => 0, .seek (.start 9)] := by
  obtain ⟨file, contents, opened, -, inRange⟩ :=
    vfsOpen_inRange_iff versionVfs_found (.procfs 1 3)
  refine ⟨file, contents, opened, (inRange _).mpr ?_⟩
  simp only [List.forall_mem_cons]
  refine ⟨?_, ?_, ?_, ?_, ?_, List.forall_mem_nil _⟩
  all_goals
    intro same
    cases same

/-- A seek back by the smallest distance panics. -/
theorem version_seek_panics : ∃ file, versionVfs.vfsOpen "/proc/version" = .ok (.ok file) ∧
    vfsSeek file (.current Int64.minValue) = .error .overflow :=
  ⟨_, rfl, vfsSeek_minValue _⟩

end FileCalls

end NanoOs
