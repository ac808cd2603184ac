import NanoOs.Ext2ReadScans
import NanoOs.FileCalls
import NanoOs.UserStrings

/-!
# What failed system calls leave

A call that fails should leave the open files as they were.  `read` moves the offset
before it copies to the process, and a file system may fail after it has moved the
offset.  Every call can end in a panic.
-/

namespace NanoOs.FileCalls

open Files PageMapping UserAccess Scans List
open ProcessMemoryMap (TrapFrame)

def FsData.content : FsData → Option (List UInt8)
  | .ramfs (.file data) => some data
  | .procfsData content => some content
  | _ => none

/-- The file has the operations of its inode or of the UART, and its offset is not
behind its content. -/
structure OpenFile.Valid (file : OpenFile) : Prop where
  own : file.fops = file.inode.fsData.fops ∨ file.fops = .uart
  inside : ∀ content, file.inode.fsData.content = some content → file.offset ≤ content.length

def AllValid (files : List (Option OpenFile)) : Prop := ∀ file, some file ∈ files → file.Valid

structure FileTable where
  slots : List (Option OpenFile)
  short : slots.length < 2 ^ 63
  valid : AllValid slots

def openOffset (files : List (Option OpenFile)) (fd : Nat) : Option Nat :=
  files[fd]?.join.map OpenFile.offset

def IsErrno (a0 : Nat) : Prop := a0 = enoent ∨ a0 = eio ∨ a0 = ebadf ∨ a0 = efault

/-- The call returns, and an error leaves the descriptors and the offsets. -/
def Intact (files : List (Option OpenFile)) (result : Checked CallOutcome) : Prop :=
  ∃ outcome, result = .ok outcome ∧
    (IsErrno outcome.tf.a0 → ∀ fd, openOffset outcome.files fd = openOffset files fd)

variable {file : OpenFile} {files : List (Option OpenFile)}

section Intact

variable {files : List (Option OpenFile)} {outcome : CallOutcome}

theorem not_isErrno {a0 : Nat} (small : a0 < 2 ^ 63) : ¬ IsErrno a0 := by
  unfold IsErrno enoent eio ebadf efault errno wordLimit
  omega

theorem isErrno_eio : IsErrno eio := Or.inr (Or.inl rfl)

theorem isErrno_efault : IsErrno efault := Or.inr (Or.inr (Or.inr rfl))

theorem not_intact_error {fault : Fault} : ¬ Intact files (.error fault) := by
  rintro ⟨outcome, returned, -⟩
  cases returned

theorem intact_of_value (small : outcome.tf.a0 < 2 ^ 63) : Intact files (.ok outcome) :=
  ⟨outcome, rfl, fun isErrno => absurd isErrno (not_isErrno small)⟩

theorem intact_of_same (same : outcome.files = files) : Intact files (.ok outcome) :=
  ⟨outcome, rfl, fun _ fd => by rw [same]⟩

variable {fd : Nat}

/-- A handler is as good as it is for every file that the descriptor may stand for. -/
theorem intact_withFile_iff {notOpen : Checked CallOutcome}
    {body : OpenFile → Checked CallOutcome} {Safe : OpenFile → Prop}
    (refuses : Intact files notOpen)
    (bodies : ∀ file, files[fd]? = some (some file) → (Intact files (body file) ↔ Safe file)) :
    Intact files (withFile files fd notOpen body) ↔
      ∀ file, files[fd]? = some (some file) → Safe file := by
  unfold withFile
  split
  · rename_i file isOpen
    rw [bodies file isOpen]
    constructor
    · intro safe other alsoOpen
      cases isOpen.symm.trans alsoOpen
      exact safe
    · exact fun safe => safe file isOpen
  · rename_i closed
    exact iff_of_true refuses fun file isOpen => absurd isOpen (closed file)

theorem intact_moved_iff {moved : OpenFile} (isOpen : files[fd]? = some (some file))
    (isErrno : IsErrno outcome.tf.a0) (set : outcome.files = files.set fd (some moved)) :
    Intact files (.ok outcome) ↔ moved.offset = file.offset := by
  have inTable : fd < files.length := List.getElem?_eq_some_iff.mp isOpen |>.choose
  constructor
  · rintro ⟨_, returned, keeps⟩
    cases returned
    have same := keeps isErrno fd
    rw [set, openOffset, openOffset, getElem?_set_self inTable, isOpen] at same
    exact Option.some.inj same
  · intro same
    refine ⟨outcome, rfl, fun _ other => ?_⟩
    rw [set, openOffset, openOffset]
    by_cases sameFd : fd = other
    · subst sameFd
      rw [getElem?_set_self inTable, isOpen]
      exact congrArg some same
    · rw [getElem?_set_ne sameFd]

end Intact

def Allocatable (serves : List Nat → Bool) (live : List Nat) (count : Nat) : Prop :=
  count = 0 ∨ count < 2 ^ 63 ∧ serves (count :: live)

section Allocations

variable {serves : List Nat → Bool} {live : List Nat} {count : Nat}

theorem allocate_of (allocatable : Allocatable serves live count) :
    allocate serves live count = .ok () := by
  unfold allocate
  by_cases empty : count = 0
  · rw [if_pos empty]
  · obtain ⟨small, served⟩ := allocatable.resolve_left empty
    rw [if_neg empty, ensure_bind small, ensure_of_true served]

theorem allocate_of_not (refused : ¬ Allocatable serves live count) :
    ∃ fault, allocate serves live count = .error fault := by
  obtain ⟨some, unserved⟩ := not_or.mp refused
  unfold allocate ensure
  rw [if_neg some]
  by_cases small : count < 2 ^ 63
  · rw [if_pos small, ok_bind, if_neg fun served => unserved ⟨small, served⟩]
    exact ⟨_, rfl⟩
  · rw [if_neg small]
    exact ⟨_, rfl⟩

/-- A handler that allocates is as good as what it does behind the allocation. -/
theorem intact_allocate_iff {rest : Unit → Checked CallOutcome} {Safe : Prop}
    (behind : Allocatable serves live count → (Intact files (rest ()) ↔ Safe)) :
    Intact files (allocate serves live count >>= rest) ↔
      Allocatable serves live count ∧ Safe := by
  by_cases allocatable : Allocatable serves live count
  · rw [allocate_of allocatable, ok_bind, behind allocatable, and_iff_right allocatable]
  · obtain ⟨fault, refused⟩ := allocate_of_not allocatable
    rw [refused]
    exact iff_of_false not_intact_error fun safe => allocatable safe.1

theorem Allocatable.lt (allocatable : Allocatable serves live count) : count < 2 ^ 63 := by
  rcases allocatable with rfl | ⟨small, -⟩
  · decide
  · exact small

end Allocations

variable {scanned : Scanned UInt8}

section Reads

variable {file : OpenFile} {count : Nat}

/-- What a file has for a read of so many bytes: those up to its end or a hole, or those
before a block that fails. Only files can be read. -/
def OpenFile.supply (file : OpenFile) (count : Nat) : Checked (Scanned UInt8) :=
  match file.fops, file.inode.fsData with
  | .ramfs, .ramfs (.file content) => .ok ⟨(content.drop file.offset).take count, .full⟩
  | .procfsFile, .procfsData content => .ok ⟨(content.drop file.offset).take count, .full⟩
  | .ext2, .ext2 data =>
      if file.inode.fileType = .regularFile then
        scan (Ext2.byteAt data file.inode.len) count file.offset
      else
        .ok ⟨[], .failed⟩
  | _, _ => .ok ⟨[], .failed⟩

def outcomeOf (file : OpenFile) (buf : ByteMemory) (scanned : Scanned UInt8) : VfsRead where
  file := { file with offset := file.offset + scanned.items.length }
  buf := Ext2.place buf 0 scanned.items
  result :=
    if scanned.ending = .failed then .error .invalidInput else .ok scanned.items.length

theorem readContent_eq {content : List UInt8} (inside : file.offset ≤ content.length)
    (buf : ByteMemory) :
    readContent file content count buf =
      .ok (outcomeOf file buf ⟨(content.drop file.offset).take count, .full⟩) := by
  have len : ((content.drop file.offset).take count).length =
      min (content.length - file.offset) count := by
    rw [length_take, length_drop, Nat.min_comm]
  have bytes : ∀ index < min (content.length - file.offset) count,
      content.getD (file.offset + index) 0 =
        ((content.drop file.offset).take count).getD index 0 := by
    intro index inRange
    rw [getD_eq_getElem?_getD, getD_eq_getElem?_getD,
      getElem?_take_of_lt (by omega), getElem?_drop]
  rw [readContent, ensure_bind inside, outcomeOf, if_neg nofun, Ext2.place, len]
  dsimp only
  rw [buf.writeBytes_congr bytes]

theorem vfsRead_eq (valid : file.Valid) (buf : ByteMemory) :
    vfsRead file count buf = outcomeOf file buf <$> file.supply count := by
  have refused : Except.ok ⟨file, buf, .error .invalidInput⟩ =
      (outcomeOf file buf <$> .ok ⟨[], .failed⟩ : Checked VfsRead) := by
    rfl
  obtain ⟨own, inside⟩ := valid
  unfold vfsRead OpenFile.supply
  rcases own with own | own
  · rw [own]
    cases isData : file.inode.fsData with
    | ramfs node =>
      cases node with
      | file data =>
        rw [ramfsRead, isData]
        exact readContent_eq (inside data (by rw [isData]; rfl)) buf
      | _ =>
        rw [ramfsRead, isData]
        exact refused
    | procfsDir => exact refused
    | procfsFile entry =>
      rw [procfsRead, isData]
      exact refused
    | procfsData content =>
      rw [procfsRead, isData]
      exact readContent_eq (inside content (by rw [isData]; rfl)) buf
    | ext2 data =>
      dsimp only [FsData.fops]
      rw [ext2Read, isData]
      dsimp only
      by_cases regular : file.inode.fileType = .regularFile
      · rw [if_pos regular, Ext2.read_eq_scan regular]
        cases scan (Ext2.byteAt data file.inode.len) count file.offset with
        | error fault => rfl
        | ok scanned => rfl
      · rw [if_neg regular, Ext2.read, if_pos regular]
        exact refused
  · rw [own]
    exact refused

theorem supply_length_le (ran : file.supply count = .ok scanned) :
    scanned.items.length ≤ count := by
  unfold OpenFile.supply at ran
  split at ran
  · cases ran
    exact length_take_le ..
  · cases ran
    exact length_take_le ..
  · split at ran
    · exact (scan_collects ran).within
    · cases ran
      exact Nat.zero_le _
  · cases ran
    exact Nat.zero_le _

end Reads

/-- The bytes can be copied to the process: its pages are mapped, and the range ends
before the address space. -/
def Copyable (pageMap : PageMapper) (memory : ByteMemory) (userAddr : Nat) (data : List UInt8) :
    Prop :=
  MappedInTurn pageMap memory userAddr data ∧ userAddr + data.length < 2 ^ 64

/-- A read that neither panics nor loses what it has read: a file that fails does so at
once, and what there is to read can be copied to the process. -/
def ReadSafe (kernel : Kernel) (tf : TrapFrame) (ctx : Context) (memory : ByteMemory)
    (file : OpenFile) : Prop :=
  Allocatable kernel.serves [] tf.a2 ∧
    ∃ scanned, file.supply tf.a2 = .ok scanned ∧
      (scanned.ending = .failed → scanned.items = []) ∧
      (scanned.ending ≠ .failed → scanned.items ≠ [] →
        Copyable ctx.pageMap memory tf.a1 scanned.items)

/-- A write that does not panic: the copy fails, or does not come to the end of the
address space, and the message to the UART finds memory next to the buffer. -/
def WriteSafe (kernel : Kernel) (tf : TrapFrame) (ctx : Context) (memory : ByteMemory)
    (file : OpenFile) : Prop :=
  Allocatable kernel.serves [] tf.a2 ∧
    (Faults ctx.pageMap memory tf.a1 tf.a2 ∨ tf.a1 + tf.a2 < 2 ^ 64 ∧
      (file.fops = .uart → Allocatable kernel.serves [tf.a2] tf.a2))

/-- The size of a `Stat`. -/
def statSize : Nat := 128

/-- A `newfstat` that does not panic: the copy fails, or does not come to the end of the
address space. -/
def StatSafe (tf : TrapFrame) (ctx : Context) (memory : ByteMemory) (file : OpenFile) : Prop :=
  FaultsInTurn ctx.pageMap memory tf.a1 (statBytes file.inode) ∨ tf.a1 + statSize < 2 ^ 64

/-- Every lookup along the path returns, with an inode or an error. -/
def Vfs.Walks (vfs : Vfs) : VfsInode → List String → Prop
  | _, [] => True
  | inode, component :: rest => ∃ found, vfs.lookup inode component = .ok found ∧
      ∀ child, found = .ok child → Walks vfs (vfs.crossMount child) rest

/-- An `openat` that does not panic: the path ends before the address space does, and
the file systems look its components up. -/
def OpenatSafe (kernel : Kernel) (tf : TrapFrame) (ctx : Context) (memory : ByteMemory) : Prop :=
  ¬ RunsOut ctx.pageMap memory tf.a1 256 ∧
    ∀ path, Readable ctx.pageMap memory tf.a1 256 path → ∀ root, kernel.vfs.root = .ok root →
      kernel.vfs.Walks root (components (pathText path))

section Handlers

variable {kernel : Kernel} {tf : TrapFrame} {ctx : Context} {memory : ByteMemory}

theorem finishRead_intact_iff {file : OpenFile} (isOpen : ctx.files[tf.a0]? = some (some file))
    {scanned : Scanned UInt8} (small : scanned.items.length < 2 ^ 63) (inWord : tf.a1 < 2 ^ 64) :
    Intact ctx.files (finishRead tf ctx memory (outcomeOf file (fun _ => 0) scanned)) ↔
      (scanned.ending = .failed → scanned.items = []) ∧
      (scanned.ending ≠ .failed → scanned.items ≠ [] →
        Copyable ctx.pageMap memory tf.a1 scanned.items) := by
  have moves : (outcomeOf file (fun _ => 0) scanned).file.offset = file.offset ↔
      scanned.items = [] := by
    rw [← length_eq_zero_iff]
    exact Nat.add_eq_left
  have bytes : (range scanned.items.length).map (outcomeOf file (fun _ => 0) scanned).buf =
      scanned.items := Ext2.range_map_place ..
  by_cases failed : scanned.ending = .failed
  · have result : (outcomeOf file (fun _ => 0) scanned).result = .error .invalidInput :=
      if_pos failed
    rw [finishRead, result]
    rw [intact_moved_iff isOpen isErrno_eio rfl, moves]
    simp [failed]
  · have result : (outcomeOf file (fun _ => 0) scanned).result = .ok scanned.items.length :=
      if_neg failed
    rw [finishRead, result]
    dsimp only
    by_cases empty : scanned.items = []
    · rw [if_neg (by simp [empty])]
      refine iff_of_true (intact_of_value ?_) ⟨fun _ => empty, fun _ some => absurd empty some⟩
      exact small
    · rw [if_pos (length_pos_iff.mpr empty), bytes]
      have copied := @copyOut_inTurn ctx.pageMap memory tf.a1 scanned.items inWord
      generalize copyOut ctx.pageMap memory tf.a1 scanned.items = result at copied ⊢
      cases copied with
      | whole fits mapped =>
        refine iff_of_true (intact_of_value ?_)
          ⟨fun isFailed => absurd isFailed failed, fun _ _ => ⟨mapped, fits⟩⟩
        exact small
      | unmapped faults =>
        -- EFAULT, when the offset is already behind the bytes.
        rw [ok_bind]
        rw [intact_moved_iff isOpen isErrno_efault rfl, moves]
        refine iff_of_false empty fun safe => ?_
        exact (safe.2 failed empty).1.not_faults faults
      | overflow noFault reaches =>
        refine iff_of_false not_intact_error fun safe => ?_
        have fits := (safe.2 failed empty).2
        omega

theorem read_intact_iff (valid : AllValid ctx.files) (inWord : tf.a1 < 2 ^ 64) :
    Intact ctx.files (read kernel tf ctx memory) ↔
      ∀ file, ctx.files[tf.a0]? = some (some file) → ReadSafe kernel tf ctx memory file := by
  refine intact_withFile_iff (intact_of_same rfl) fun file isOpen => ?_
  have isValid := valid file (mem_of_getElem? isOpen)
  refine intact_allocate_iff fun allocatable => ?_
  rw [vfsRead_eq isValid]
  cases supplied : file.supply tf.a2 with
  | error fault =>
    refine iff_of_false not_intact_error ?_
    rintro ⟨scanned, supply, -⟩
    cases supply
  | ok scanned =>
    have small := (supply_length_le supplied).trans_lt allocatable.lt
    have finished := @finishRead_intact_iff tf ctx memory file isOpen scanned small inWord
    refine finished.trans ⟨fun safe => ⟨scanned, rfl, safe⟩, ?_⟩
    rintro ⟨other, same, safe⟩
    cases same
    exact safe

theorem withFile_bind {Value Result : Type} (files : List (Option OpenFile)) (fd : Nat)
    (notOpen : Checked Value) (body : OpenFile → Checked Value) (next : Value → Checked Result) :
    (withFile files fd notOpen body >>= next) =
      withFile files fd (notOpen >>= next) fun file => body file >>= next := by
  unfold withFile
  split <;> rfl

variable {serves : List Nat → Bool}

theorem vfsWrite_uart (isUart : file.fops = .uart) (data : List UInt8) :
    vfsWrite serves file data = (do
      allocate serves [data.length] data.length
      .ok (.ok data.length, [data])) := by
  rw [vfsWrite, isUart]

theorem vfsWrite_other (other : file.fops ≠ .uart) (data : List UInt8) :
    vfsWrite serves file data = .ok (.error .invalidInput, []) := by
  unfold vfsWrite
  split
  · rename_i isUart
    exact absurd isUart other
  all_goals rfl

theorem write_intact_iff (inWord : tf.a1 < 2 ^ 64) :
    Intact ctx.files (write kernel tf ctx memory) ↔
      ∀ file, ctx.files[tf.a0]? = some (some file) → WriteSafe kernel tf ctx memory file := by
  rw [write, sysWrite, withFile_bind]
  refine intact_withFile_iff (intact_of_same rfl) fun file isOpen => ?_
  rw [bind_assoc]
  refine intact_allocate_iff fun allocatable => ?_
  have copied := copyIn_copied ctx.pageMap memory (fun _ => 0) tf.a2 inWord
  generalize copyIn ctx.pageMap memory tf.a1 (fun _ => 0) tf.a2 = result at copied ⊢
  cases copied with
  | @whole kbuf accesses fits bytes kept =>
    have length : ((range tf.a2).map kbuf).length = tf.a2 := by
      rw [length_map, length_range]
    have present : ¬ Faults ctx.pageMap memory tf.a1 tf.a2 := fun faults =>
      faults.not_translates fun index inRange => (bytes index inRange).imp fun _ => And.left
    rw [or_iff_right present, and_iff_right fits, ok_bind]
    dsimp only
    by_cases isUart : file.fops = .uart
    · -- The message is allocated while the buffer is live.
      rw [vfsWrite_uart isUart, length, bind_assoc, bind_assoc]
      refine (intact_allocate_iff fun _ => iff_of_true (intact_of_value ?_) trivial).trans ?_
      · exact allocatable.lt
      · rw [and_true, forall_prop_of_true isUart]
    · rw [vfsWrite_other isUart]
      exact iff_of_true (intact_of_same rfl) fun uart => absurd uart isUart
  | unmapped faults => exact iff_of_true (intact_of_same rfl) (Or.inl faults)
  | overflow translates reaches =>
    refine iff_of_false not_intact_error ?_
    rintro (faults | ⟨fits, -⟩)
    · exact translates.not_faults faults
    · omega

theorem length_littleEndian (count value : Nat) : (littleEndian count value).length = count := by
  rw [littleEndian, length_map, length_range]

theorem length_statBytes (inode : VfsInode) : (statBytes inode).length = statSize := by
  simp [statBytes, length_littleEndian, statSize]

theorem newfstat_intact_iff (inWord : tf.a1 < 2 ^ 64) :
    Intact ctx.files (newfstat tf ctx memory) ↔
      ∀ file, ctx.files[tf.a0]? = some (some file) → StatSafe tf ctx memory file := by
  refine intact_withFile_iff (intact_of_same rfl) fun file isOpen => ?_
  have copied := @copyOut_inTurn ctx.pageMap memory tf.a1 (statBytes file.inode) inWord
  unfold StatSafe
  rw [← length_statBytes file.inode]
  generalize copyOut ctx.pageMap memory tf.a1 (statBytes file.inode) = result at copied ⊢
  cases copied with
  | whole fits mapped => exact iff_of_true (intact_of_same rfl) (Or.inr fits)
  | unmapped faults => exact iff_of_true (intact_of_same rfl) (Or.inl faults)
  | overflow noFault reaches =>
    refine iff_of_false not_intact_error ?_
    rintro (faults | fits)
    · exact noFault faults
    · omega

theorem close_intact : Intact ctx.files (close tf ctx memory) := by
  unfold close withFile
  dsimp only
  split
  · exact intact_of_value (Nat.two_pow_pos 63)
  · exact intact_of_same rfl

theorem lookupFrom_returns_iff (vfs : Vfs) (inode : VfsInode) (path : List String) :
    (∃ found, vfs.lookupFrom inode path = .ok found) ↔ vfs.Walks inode path := by
  induction path generalizing inode with
  | nil => exact iff_of_true ⟨_, rfl⟩ trivial
  | cons component rest ih =>
    rw [Vfs.lookupFrom, Vfs.Walks]
    cases vfs.lookup inode component with
    | error fault =>
      refine iff_of_false (fun ⟨_, returned⟩ => nomatch returned) ?_
      rintro ⟨_, looked, -⟩
      cases looked
    | ok answer =>
      cases answer with
      | error error => exact iff_of_true ⟨_, rfl⟩ ⟨_, rfl, nofun⟩
      | ok child =>
        refine (ih (vfs.crossMount child)).trans ⟨fun walks => ⟨_, rfl, ?_⟩, ?_⟩
        · intro other same
          cases same
          exact walks
        · rintro ⟨_, looked, walks⟩
          cases looked
          exact walks child rfl

theorem vfsLookup_returns_iff (vfs : Vfs) (path : String) :
    (∃ found, vfs.vfsLookup path = .ok found) ↔
      ∀ root, vfs.root = .ok root → vfs.Walks root (components path) := by
  unfold Vfs.vfsLookup
  cases vfs.root with
  | error error => exact iff_of_true ⟨_, rfl⟩ nofun
  | ok root =>
    refine (lookupFrom_returns_iff vfs root (components path)).trans
      ⟨?_, fun walks => walks root rfl⟩
    rintro walks _ same
    cases same
    exact walks

def VfsInode.InMemory (inode : VfsInode) : Prop :=
  match inode.fsData with
  | .ramfs _ | .procfsDir | .procfsFile _ => True
  | .procfsData _ | .ext2 _ => False

namespace Mounts

variable {mounts : Mounts} {inode : VfsInode}

theorem lookup_inMemory (inMemory : inode.InMemory) (name : String) :
    ∃ found, mounts.lookup inode name = .ok found ∧ ∀ child, found = .ok child →
      child.InMemory := by
  unfold lookup
  cases data : inode.fsData with
  | ramfs node =>
    dsimp only
    cases node.lookup name <;> refine ⟨_, rfl, fun child found => ?_⟩ <;> cases found
    trivial
  | procfsDir =>
    cases VfsMounts.procEntries.idxOf? name <;> refine ⟨_, rfl, fun child found => ?_⟩ <;>
      cases found
    trivial
  | procfsFile entry => exact ⟨_, rfl, nofun⟩
  | procfsData content => simp [VfsInode.InMemory, data] at inMemory
  | ext2 inodeData => simp [VfsInode.InMemory, data] at inMemory

/-- Where only RAM file systems and `/proc` are mounted, every path can be looked up. -/
theorem vfsLookup_returns (roots : ∀ superblock, (mounts.root superblock).InMemory)
    (content : Nat → List UInt8) (isUart : UInt32 × UInt32 → Bool) (path : String) :
    ∃ found, (mounts.vfs content isUart).vfsLookup path = .ok found := by
  have crossed : ∀ inode : VfsInode, inode.InMemory → (mounts.crossMount inode).InMemory := by
    intro inode inMemory
    unfold crossMount
    split
    · exact inMemory
    · dsimp only
      split
      · exact inMemory
      · exact roots _
  have walks : ∀ names (inode : VfsInode), inode.InMemory →
      (mounts.vfs content isUart).Walks inode names := by
    intro names
    induction names with
    | nil => exact fun _ _ => trivial
    | cons name names ih =>
      intro inode inMemory
      obtain ⟨found, looked, children⟩ := lookup_inMemory inMemory name
      exact ⟨found, looked, fun child isChild => ih _ (crossed child (children child isChild))⟩
  refine (vfsLookup_returns_iff _ path).mpr fun root isRoot => ?_
  cases isRoot
  exact walks _ _ (roots _)

end Mounts

theorem vfsOpen_returns_iff (vfs : Vfs) (path : String) :
    (∃ found, vfs.vfsOpen path = .ok found) ↔
      ∀ root, vfs.root = .ok root → vfs.Walks root (components path) := by
  rw [← vfsLookup_returns_iff, Vfs.vfsOpen]
  cases vfs.vfsLookup path with
  | error fault =>
    refine iff_of_false ?_ ?_
    all_goals
      rintro ⟨_, returned⟩
      cases returned
  | ok answer =>
    refine iff_of_true ?_ ⟨_, rfl⟩
    cases answer with
    | error error => exact ⟨_, rfl⟩
    | ok inode => exact ⟨_, rfl⟩

theorem insertFile_fst_le (files : List (Option OpenFile)) (file : OpenFile) :
    (insertFile files file).1 ≤ files.length := by
  unfold insertFile
  split
  · rename_i fd free
    exact (findIdx?_eq_some_iff_getElem.mp free).choose.le
  · exact Nat.le_refl _

theorem openat_intact_iff (short : ctx.files.length < 2 ^ 63) (inWord : tf.a1 < 2 ^ 64) :
    Intact ctx.files (openat kernel tf ctx memory) ↔ OpenatSafe kernel tf ctx memory := by
  have copyReturns := @copyInStr_returns_iff ctx.pageMap memory tf.a1 256 inWord (by decide)
  have readable := fun path => @copyInStr_ok_iff ctx.pageMap memory tf.a1 256 path inWord
  unfold openat OpenatSafe
  rw [← copyReturns]
  simp only [← readable, ← vfsOpen_returns_iff]
  cases copyInStr ctx.pageMap memory tf.a1 256 with
  | error fault =>
    refine iff_of_false not_intact_error ?_
    rintro ⟨⟨_, returned⟩, -⟩
    cases returned
  | ok copied =>
    obtain ⟨accesses, result⟩ := copied
    cases result with
    | error error =>
      refine iff_of_true (intact_of_same rfl) ⟨⟨_, rfl⟩, ?_⟩
      rintro path ⟨_, returned⟩
      cases returned
    | ok path =>
      rw [ok_bind]
      dsimp only
      cases opens : kernel.vfs.vfsOpen (pathText path) with
      | error fault =>
        refine iff_of_false not_intact_error fun safe => ?_
        obtain ⟨_, opened⟩ := safe.2 path ⟨accesses, rfl⟩
        cases opens.symm.trans opened
      | ok answer =>
        have returned : ∀ other, (∃ accesses', (Except.ok ⟨accesses, .ok path⟩ :
            Checked (CopyOutcome (List UInt8))) = .ok ⟨accesses', .ok other⟩) →
              ∃ found, kernel.vfs.vfsOpen (pathText other) = .ok found := by
          rintro _ ⟨_, same⟩
          cases same
          exact ⟨answer, opens⟩
        refine iff_of_true ?_ ⟨⟨_, rfl⟩, returned⟩
        cases answer with
        | error error => exact intact_of_same rfl
        | ok file =>
          exact intact_of_value ((insertFile_fst_le ctx.files file).trans_lt short)

end Handlers

section Validity

theorem AllValid.set (valid : AllValid files) (fd : Nat) {slot : Option OpenFile}
    (slotValid : ∀ file ∈ slot, file.Valid) : AllValid (files.set fd slot) := by
  intro file member
  rcases mem_or_eq_of_mem_set member with old | new
  · exact valid file old
  · exact slotValid file new.symm

theorem AllValid.push (valid : AllValid files) (fileValid : file.Valid) :
    AllValid (files ++ [some file]) := by
  intro other member
  rcases mem_append.mp member with old | new
  · exact valid other old
  · cases mem_singleton.mp new
    exact fileValid

theorem insertFile_valid (valid : AllValid files) (fileValid : file.Valid) :
    AllValid (insertFile files file).2 := by
  unfold insertFile
  split
  · exact valid.set _ (by simpa using fileValid)
  · exact valid.push fileValid

variable {inode : VfsInode} {count : Nat} {vfs : Vfs} {reading : VfsRead}

theorem OpenFile.new_valid {fops : FileOps} (own : fops = inode.fsData.fops ∨ fops = .uart) :
    (OpenFile.new fops inode).Valid :=
  ⟨own, fun _ _ => Nat.zero_le _⟩

theorem supply_le {content : List UInt8} (isContent : file.inode.fsData.content = some content)
    (inside : file.offset ≤ content.length) (ran : file.supply count = .ok scanned) :
    file.offset + scanned.items.length ≤ content.length := by
  unfold OpenFile.supply at ran
  split at ran <;> grind [FsData.content]

theorem openInode_valid (opened : vfs.openInode inode = .ok file) : file.Valid := by
  unfold Vfs.openInode Vfs.chrdevOpen Vfs.procfsOpen at opened
  repeat' split at opened
  all_goals cases opened
  · exact OpenFile.new_valid (Or.inr (vfs.chardevs_uart _ _ ‹_›))
  · exact OpenFile.new_valid (Or.inl rfl)
  · exact OpenFile.new_valid (Or.inl rfl)

variable {kernel : Kernel} {tf : TrapFrame} {ctx : Context} {memory : ByteMemory}

theorem finishRead_valid (valid : AllValid ctx.files) (fileValid : reading.file.Valid) :
    Returns (AllValid ·.files) (finishRead tf ctx memory reading) := by
  have moved : AllValid (ctx.files.set tf.a0 reading.file) := valid.set _ (by simpa using fileValid)
  unfold finishRead
  dsimp only
  split
  · exact returns_ok moved
  · refine returns_ite (returns_bind fun copied _ => ?_) (returns_ok moved)
    split
    all_goals exact returns_ok moved

theorem vfsOpen_valid {path : String} (opened : vfs.vfsOpen path = .ok (.ok file)) :
    file.Valid := by
  obtain ⟨found, -, isOpen⟩ := bind_eq_ok.mp opened
  cases found with
  | error error => cases isOpen
  | ok inode => exact openInode_valid (Except.ok.inj isOpen)

theorem openat_valid (valid : AllValid ctx.files) :
    Returns (AllValid ·.files) (openat kernel tf ctx memory) := by
  refine returns_bind fun copied _ => ?_
  split
  · exact returns_ok valid
  · refine returns_bind fun answer opened => ?_
    cases answer with
    | error error => exact returns_ok valid
    | ok file => exact returns_ok (insertFile_valid valid (vfsOpen_valid opened))

theorem vfsRead_valid (valid : file.Valid) (buf : ByteMemory) :
    Returns (·.file.Valid) (vfsRead file count buf) := by
  rw [vfsRead_eq valid]
  intro reading ran
  cases supplied : file.supply count with
  | error fault =>
    rw [supplied] at ran
    cases ran
  | ok scanned =>
    rw [supplied] at ran
    cases ran
    exact ⟨valid.own, fun content isContent =>
      supply_le isContent (valid.inside content isContent) supplied⟩

theorem read_valid (valid : AllValid ctx.files) :
    Returns (AllValid ·.files) (read kernel tf ctx memory) := by
  unfold read withFile
  dsimp only
  split
  · rename_i file isOpen
    refine returns_bind fun _ _ => returns_bind fun reading isRead => finishRead_valid valid ?_
    exact vfsRead_valid (valid file (mem_of_getElem? isOpen)) _ reading isRead
  · exact returns_ok valid

theorem handle_valid (valid : AllValid ctx.files) (call : FileCall) :
    Returns (AllValid ·.files) (handle kernel tf ctx memory call) := by
  cases call with
  | write => exact returns_bind fun _ _ => returns_ok valid
  | openat => exact openat_valid valid
  | newfstat =>
    unfold handle newfstat withFile
    dsimp only
    split
    · refine returns_bind fun copied _ => ?_
      split
      all_goals exact returns_ok valid
    · exact returns_ok valid
  | read => exact read_valid valid
  | close =>
    unfold handle close withFile
    dsimp only
    split
    · exact returns_ok (valid.set _ nofun)
    · exact returns_ok valid

/-- The tables of a process, which starts with files that the kernel opens. -/
inductive Tables (kernel : Kernel) : List (Option OpenFile) → Prop
  | new : Tables kernel []
  | push {files : List (Option OpenFile)} {path : String} {file : OpenFile}
      (earlier : Tables kernel files) (opened : kernel.vfs.vfsOpen path = .ok (.ok file)) :
      Tables kernel (files ++ [some file])
  | call {tf : TrapFrame} {ctx : Context} {memory : ByteMemory} {call : FileCall}
      {outcome : CallOutcome} (earlier : Tables kernel ctx.files)
      (ran : handle kernel tf ctx memory call = .ok outcome) : Tables kernel outcome.files

/-- Whatever calls a process makes, no open file is behind its content. -/
theorem tables_allValid (reached : Tables kernel files) : AllValid files := by
  induction reached with
  | new => exact nofun
  | push _ opened ih => exact ih.push (vfsOpen_valid opened)
  | call _ ran ih => exact handle_valid ih _ _ ran

end Validity

/-- A call that returns, and that leaves the open files if it fails. -/
def Safe (kernel : Kernel) (tf : TrapFrame) (ctx : Context) (memory : ByteMemory) :
    FileCall → Prop
  | .write => ∀ file, ctx.files[tf.a0]? = some (some file) → WriteSafe kernel tf ctx memory file
  | .openat => OpenatSafe kernel tf ctx memory
  | .newfstat => ∀ file, ctx.files[tf.a0]? = some (some file) → StatSafe tf ctx memory file
  | .read => ∀ file, ctx.files[tf.a0]? = some (some file) → ReadSafe kernel tf ctx memory file
  | .close => True

/-- The calls return and leave the open files if they fail exactly if they are safe. -/
theorem handle_intact_iff (kernel : Kernel) (table : FileTable) (pageMap : PageMapper)
    (memory : ByteMemory) {tf : TrapFrame} (inWord : tf.a1 < 2 ^ 64) (call : FileCall) :
    Intact table.slots (handle kernel tf ⟨pageMap, table.slots⟩ memory call) ↔
      Safe kernel tf ⟨pageMap, table.slots⟩ memory call := by
  cases call with
  | write => exact write_intact_iff inWord
  | openat => exact openat_intact_iff table.short inWord
  | newfstat => exact newfstat_intact_iff inWord
  | read => exact read_intact_iff table.valid inWord
  | close => exact iff_of_true close_intact trivial

def bareKernel : Kernel where
  serves _ := true
  vfs :=
    { root := .error .notFound
      lookup := fun _ _ => .ok (.error .notFound)
      crossMount := id
      content := fun _ => []
      chardevs := fun _ => none
      chardevs_uart := nofun }

def letters : OpenFile :=
  OpenFile.new .ramfs
    { ino := 1
      fileType := .regularFile
      len := 3
      fsData := .ramfs (.file [97, 98, 99])
      rdev := none }

theorem letters_short : [some letters].length < 2 ^ 63 := by decide

theorem letters_valid : AllValid [some letters] := by
  intro file member
  cases mem_singleton.mp member
  exact OpenFile.new_valid (Or.inl rfl)

def lettersTable : FileTable := ⟨[some letters], letters_short, letters_valid⟩

def firstCall (buffer size : Nat) : TrapFrame :=
  { pc := 0, sp := 0, a0 := 0, a1 := buffer, a2 := size, a3 := 0 }

/-- The file is read into a page that is mapped. -/
theorem lettersTable_read : Intact lettersTable.slots
    (handle bareKernel (firstCall 0x80000010 3) ⟨⟨0x1000⟩, lettersTable.slots⟩ gigabyteMap
      .read) := by
  have same : ∀ index < 3, PageMapper.virtToPhys ⟨0x1000⟩ gigabyteMap (0x80000010 + index) =
      some (0x80000010 + index) := by
    decide +kernel
  have mapped : MappedInTurn ⟨0x1000⟩ gigabyteMap 0x80000010 [97, 98, 99] :=
    mappedInTurn_of_stable (gigabyteMap_stable (by decide) (by decide) same) (by decide)
      fun index inRange => ⟨_, same index inRange⟩
  refine (handle_intact_iff bareKernel lettersTable ⟨0x1000⟩ gigabyteMap
    (show (firstCall 0x80000010 3).a1 < 2 ^ 64 by decide) .read).mpr ?_
  intro file isOpen
  cases isOpen
  exact ⟨Or.inr ⟨by decide, rfl⟩, ⟨[97, 98, 99], .full⟩, rfl, nofun, fun _ _ => ⟨mapped, by decide⟩⟩

/-- A read to a page that is not mapped fails, and the next read is at the end of the file.
A read of more bytes than a `Vec` can have panics. -/
theorem lettersTable_lost :
    (handle bareKernel (firstCall 0 3) ⟨⟨0x1000⟩, lettersTable.slots⟩ (fun _ => 0) .read).map
        (fun outcome => (outcome.tf.a0, openOffset outcome.files 0)) = .ok (efault, some 3) ∧
      ¬ Intact lettersTable.slots
        (handle bareKernel (firstCall 0 3) ⟨⟨0x1000⟩, lettersTable.slots⟩ (fun _ => 0) .read) ∧
      ¬ Intact lettersTable.slots
        (handle bareKernel (firstCall 0 (2 ^ 63)) ⟨⟨0x1000⟩, lettersTable.slots⟩ (fun _ => 0)
          .read) := by
  have lost : (handle bareKernel (firstCall 0 3) ⟨⟨0x1000⟩, lettersTable.slots⟩ (fun _ => 0)
      .read).map (fun outcome => (outcome.tf.a0, openOffset outcome.files 0)) =
        .ok (efault, some 3) := by
    decide +kernel
  refine ⟨lost, ?_, not_intact_error⟩
  rintro ⟨outcome, returned, keeps⟩
  rw [returned] at lost
  have a0 : outcome.tf.a0 = efault := congrArg Prod.fst (Except.ok.inj lost)
  have moved : openOffset outcome.files 0 = some 3 := congrArg Prod.snd (Except.ok.inj lost)
  have kept := keeps (a0 ▸ isErrno_efault) 0
  cases moved.symm.trans kept

/-- A read that fails moves the offset, but not behind the end. -/
theorem letters_read_valid : ∃ kernel outcome, Tables kernel [some letters] ∧
    handle kernel (firstCall 0 3) ⟨⟨0x1000⟩, [some letters]⟩ (fun _ => 0) .read = .ok outcome ∧
      AllValid outcome.files := by
  let kernel := { bareKernel with vfs := { bareKernel.vfs with root := .ok letters.inode } }
  have root : kernel.vfs.vfsOpen "/" = .ok (.ok letters) := rfl
  have opened : Tables kernel [some letters] := .push .new root
  obtain ⟨outcome, ran⟩ : ∃ outcome, handle kernel (firstCall 0 3) ⟨⟨0x1000⟩, [some letters]⟩
    (fun _ => 0) .read = .ok outcome := ⟨_, rfl⟩
  exact ⟨kernel, outcome, opened, ran, tables_allValid (.call opened ran)⟩

end NanoOs.FileCalls
