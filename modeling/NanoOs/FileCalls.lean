import NanoOs.BootFileSystems
import NanoOs.Ext2DirectoryEntries
import NanoOs.ProcessMemoryMap
import NanoOs.UserAccess

/-!
# The system calls on files

A process has a table of open files.  The handlers of `read`, `write`, `openat`,
`newfstat` and `close` look a descriptor up, call the file system of the file and
copy between the kernel and the process.
-/

namespace NanoOs.FileCalls

open Files PageMapping UserAccess
open ProcessMemoryMap (TrapFrame)

/-- What the file systems keep in an inode.  A file of `/proc` has the place of its
entry, and its content once it is open. -/
inductive FsData
  | ramfs (node : RamfsNode)
  | procfsDir
  | procfsFile (entry : Nat)
  | procfsData (content : List UInt8)
  | ext2 (data : Ext2.Ext2InodeData)

inductive FileOps
  | ramfs
  | procfsDir
  | procfsFile
  | ext2
  | uart
  deriving Repr, DecidableEq

/-- `inode.fops`, which goes with the data of the inode. -/
def FsData.fops : FsData → FileOps
  | .ramfs _ => .ramfs
  | .procfsDir => .procfsDir
  | .procfsFile _ | .procfsData _ => .procfsFile
  | .ext2 _ => .ext2

/-- An inode of a superblock, with its place there unless it was made for one caller. -/
structure VfsInode extends Inode FsData where
  rdev : Option (UInt32 × UInt32)
  superblock : Nat := 0
  arc : Option Nat := none

structure OpenFile where
  fops : FileOps
  offset : Nat
  inode : VfsInode

/-- `File::new`. -/
def OpenFile.new (fops : FileOps) (inode : VfsInode) : OpenFile := ⟨fops, 0, inode⟩

/-- What `vfs_read` leaves. -/
structure VfsRead where
  file : OpenFile
  buf : ByteMemory
  result : Except FileError Nat

def readContent (file : OpenFile) (content : List UInt8) (bufLen : Nat) (buf : ByteMemory) :
    Checked VfsRead := do
  ensure (file.offset ≤ content.length) "range start index out of range"
  let len := min (content.length - file.offset) bufLen
  .ok
    { file := { file with offset := file.offset + len }
      buf := buf.writeBytes 0 len fun index => content.getD (file.offset + index) 0
      result := .ok len }

/-- `RamfsFileOps::read`. -/
def ramfsRead (file : OpenFile) (bufLen : Nat) (buf : ByteMemory) : Checked VfsRead :=
  match file.inode.fsData with
  | .ramfs (.file data) => readContent file data bufLen buf
  | _ => .ok ⟨file, buf, .error .invalidInput⟩

/-- `ProcfsFileOps::read`. -/
def procfsRead (file : OpenFile) (bufLen : Nat) (buf : ByteMemory) : Checked VfsRead :=
  match file.inode.fsData with
  | .procfsData content => readContent file content bufLen buf
  | _ => .ok ⟨file, buf, .error .invalidInput⟩

/-- `Ext2FileOps::read`, which unwraps the data of the inode. -/
def ext2Read (file : OpenFile) (bufLen : Nat) (buf : ByteMemory) : Checked VfsRead :=
  let inode := file.inode
  match inode.fsData with
  | .ext2 data => do
      let outcome ← Ext2.read ⟨file.offset, ⟨inode.ino, inode.fileType, inode.len, data⟩⟩ bufLen buf
      .ok ⟨{ file with offset := outcome.file.offset }, outcome.buf, outcome.result⟩
  | _ =>
      if inode.fileType ≠ .regularFile then
        .ok ⟨file, buf, .error .invalidInput⟩
      else if file.offset ≥ inode.len ∨ bufLen = 0 then
        .ok ⟨file, buf, .ok 0⟩
      else
        .error (.assertion "called `Option::unwrap()` on a `None` value")

/-- `vfs_read`. Directories of `/proc` and the UART do not override `FileOps::read`. -/
def vfsRead (file : OpenFile) (bufLen : Nat) (buf : ByteMemory) : Checked VfsRead :=
  match file.fops with
  | .ramfs => ramfsRead file bufLen buf
  | .procfsFile => procfsRead file bufLen buf
  | .ext2 => ext2Read file bufLen buf
  | .procfsDir | .uart => .ok ⟨file, buf, .error .invalidInput⟩

/-- An allocation of the kernel, next to others that are live. The allocator is given
by the requests that it can serve at the same time. -/
def allocate (serves : List Nat → Bool) (live : List Nat) (count : Nat) : Checked Unit :=
  if count = 0 then
    .ok ()
  else do
    ensure (count < 2 ^ 63) "capacity overflow"
    ensure (serves (count :: live)) ("memory allocation of " ++ toString count ++ " bytes failed")

/-- `vfs_write`, with what is sent to the writer of the UART. Only the UART overrides
`FileOps::write` with more than an error, and copies the buffer into its message. -/
def vfsWrite (serves : List Nat → Bool) (file : OpenFile) (data : List UInt8) :
    Checked (Except FileError Nat × List (List UInt8)) :=
  match file.fops with
  | .uart => do
      allocate serves [data.length] data.length
      .ok (.ok data.length, [data])
  | .ramfs | .procfsDir | .procfsFile | .ext2 => .ok (.error .invalidInput, [])

/-- The mounted file systems and the registered devices. -/
structure Vfs where
  /-- The root inode of the first mount. -/
  root : Except FileError VfsInode
  /-- `iops.lookup`. -/
  lookup : VfsInode → String → Checked (Except FileError VfsInode)
  /-- `cross_mount`. -/
  crossMount : VfsInode → VfsInode
  /-- The content of an entry of `/proc`, as it is generated when the entry is opened. -/
  content : Nat → List UInt8
  /-- The operations of the registered character devices. -/
  chardevs : UInt32 × UInt32 → Option FileOps
  /-- The UART is the only driver that registers. -/
  chardevs_uart : ∀ device fops, chardevs device = some fops → fops = .uart

namespace Vfs

/-- The loop of `vfs_lookup` over the components of a path. -/
def lookupFrom (vfs : Vfs) : VfsInode → List String → Checked (Except FileError VfsInode)
  | inode, [] => .ok (.ok inode)
  | inode, component :: rest => do
      match ← vfs.lookup inode component with
      | .error error => .ok (.error error)
      | .ok child => lookupFrom vfs (vfs.crossMount child) rest

def vfsLookup (vfs : Vfs) (path : String) : Checked (Except FileError VfsInode) :=
  match vfs.root with
  | .error error => .ok (.error error)
  | .ok inode => vfs.lookupFrom inode (components path)

def chrdevOpen (vfs : Vfs) (inode : VfsInode) : Except FileError OpenFile :=
  match inode.rdev with
  | none => .error .invalidInput
  | some device =>
      match vfs.chardevs device with
      | none => .error .notFound
      | some fops => .ok (OpenFile.new fops inode)

/-- `ProcfsFileOps::open`, which makes an inode with the content. -/
def procfsOpen (vfs : Vfs) (inode : VfsInode) : Except FileError OpenFile :=
  match inode.fsData with
  | .procfsFile entry =>
      let data := vfs.content entry
      .ok (OpenFile.new .procfsFile
        { ino := inode.ino
          fileType := .regularFile
          len := data.length
          rdev := none
          fsData := .procfsData data })
  | _ => .error .invalidInput

/-- `vfs_open` of an inode. -/
def openInode (vfs : Vfs) (inode : VfsInode) : Except FileError OpenFile :=
  if inode.fileType = .charDevice then
    vfs.chrdevOpen inode
  else
    match inode.fsData.fops with
    | .procfsFile => vfs.procfsOpen inode
    | fops => .ok (OpenFile.new fops inode)

def vfsOpen (vfs : Vfs) (path : String) : Checked (Except FileError OpenFile) := do
  match ← vfs.vfsLookup path with
  | .error error => .ok (.error error)
  | .ok inode => .ok (vfs.openInode inode)

end Vfs

def ramfsInode (superblock : Nat) (ramfs : Ramfs) (arc : Nat) : VfsInode where
  ino := (ramfs.inodes arc).ino
  fileType := (ramfs.inodes arc).fileType
  len := (ramfs.inodes arc).len
  rdev := (ramfs.inodes arc).rdev
  fsData := .ramfs (ramfs.inodes arc).fsData
  superblock := superblock
  arc := some arc

/-- The inode that a lookup in `/proc` makes. -/
def procfsInode (superblock idx : Nat) : VfsInode where
  ino := idx + 2
  fileType := .regularFile
  len := 0
  rdev := none
  fsData := .procfsFile idx
  superblock := superblock

/-- The mounted superblocks: the RAM file systems, and what the inode caches of the ext2
ones hold and their volumes answer. A mount record has the places of its inodes. -/
structure Mounts where
  root : Nat → VfsInode
  ramfs : Nat → Ramfs
  cached : Nat → Nat → Option (Inode Ext2.Ext2InodeData)
  answers : Nat → Nat → Ext2.BlockVolume
  table : VfsMounts.MountTable (Nat × Nat)

namespace Mounts

/-- An inode of `get_or_read_inode`, which has a place in the cache or is new. -/
def ext2Inode (mounts : Mounts) (superblock : Nat) (inode : Inode Ext2.Ext2InodeData) :
    VfsInode where
  ino := inode.ino
  fileType := inode.fileType
  len := inode.len
  rdev := none
  fsData := .ext2 inode.fsData
  superblock := superblock
  arc := (mounts.cached superblock inode.ino).map (·.ino)

/-- `iops.lookup`. The operations of `/proc` unwrap the data of an opened file. -/
def lookup (mounts : Mounts) (inode : VfsInode) (name : String) :
    Checked (Except FileError VfsInode) :=
  let superblock := inode.superblock
  match inode.fsData with
  | .ramfs node => .ok ((node.lookup name).map (ramfsInode superblock (mounts.ramfs superblock)))
  | .procfsDir =>
      match VfsMounts.procEntries.idxOf? name with
      | some idx => .ok (.ok (procfsInode superblock idx))
      | none => .ok (.error .notFound)
  | .procfsFile _ => .ok (.error .notADirectory)
  | .procfsData _ => .error (.assertion "called `Option::unwrap()` on a `None` value")
  | .ext2 data => do
      let found ← Ext2.lookup ⟨inode.ino, inode.fileType, inode.len, data⟩
        (mounts.answers superblock) (data.superblock.getOrReadInode (mounts.cached superblock)) name
      .ok (found.map (mounts.ext2Inode superblock))

/-- `cross_mount`: only an inode with a place can be the one of a mount record. -/
def crossMount (mounts : Mounts) (inode : VfsInode) : VfsInode :=
  match inode.arc with
  | none => inode
  | some arc =>
      let target := mounts.table.crossMount (inode.superblock, arc)
      if target = (inode.superblock, arc) then inode else mounts.root target.1

def vfs (mounts : Mounts) (content : Nat → List UInt8) (isUart : UInt32 × UInt32 → Bool) :
    Vfs where
  root := .ok (mounts.root mounts.table.root.1)
  lookup := mounts.lookup
  crossMount := mounts.crossMount
  content := content
  chardevs device := if isUart device then some .uart else none
  chardevs_uart := by
    intro device fops found
    split at found <;> cases found
    rfl

end Mounts

/-- An errno as the handlers put it into `a0`. -/
def errno (code : Nat) : Nat := wordLimit - code

def enoent : Nat := errno 2
def eio : Nat := errno 5
def ebadf : Nat := errno 9
def efault : Nat := errno 14

/-- `process::Context`, as far as files are concerned. -/
structure Context where
  pageMap : PageMapper
  files : List (Option OpenFile)

/-- The registers, the open files and the memory after a call, and what was sent to
the writer of the UART. -/
structure CallOutcome where
  tf : TrapFrame
  files : List (Option OpenFile)
  memory : ByteMemory
  sent : List (List UInt8)

structure Kernel where
  serves : List Nat → Bool
  vfs : Vfs

variable (kernel : Kernel) (tf : TrapFrame) (ctx : Context) (memory : ByteMemory)

/-- The handlers look their descriptor up first, and return if it is not open. -/
def withFile {Value : Type} (files : List (Option OpenFile)) (fd : Nat) (notOpen : Value)
    (body : OpenFile → Value) : Value :=
  match files[fd]? with
  | some (some file) => body file
  | _ => notOpen

/-- A call that returns a value and leaves files and memory. -/
def returns (a0 : Nat) : CallOutcome := ⟨{ tf with a0 }, ctx.files, memory, []⟩

def sysWrite (fd buf count : Nat) : Checked (Nat × List (List UInt8)) :=
  withFile ctx.files fd (.ok (ebadf, [])) fun file => do
    allocate kernel.serves [] count
    let (kbuf, copied) ← copyIn ctx.pageMap memory buf (fun _ => 0) count
    match copied.result with
    | .error _ => .ok (efault, [])
    | .ok _ => do
        let (written, sent) ← vfsWrite kernel.serves file ((List.range count).map kbuf)
        match written with
        | .error _ => .ok (eio, sent)
        | .ok n => .ok (n, sent)

def write : Checked CallOutcome := do
  let (a0, sent) ← sysWrite kernel ctx memory tf.a0 tf.a1 tf.a2
  .ok { returns tf ctx memory a0 with sent }

/-- The text of the bytes that `copy_in_str` returns. -/
def pathText (bytes : List UInt8) : String := (String.fromUTF8? bytes.toByteArray).getD ""

def insertFile (files : List (Option OpenFile)) (file : OpenFile) : Nat × List (Option OpenFile) :=
  match files.findIdx? fun slot => slot.isNone with
  | some fd => (fd, files.set fd (some file))
  | none => (files.length, files ++ [some file])

def openat : Checked CallOutcome := do
  -- `dirfd`, the flags and the mode are read for traces only.
  let pathname := tf.a1
  let copied ← copyInStr ctx.pageMap memory pathname 256
  match copied.result with
  | .error _ => .ok (returns tf ctx memory efault)
  | .ok path => do
      match ← kernel.vfs.vfsOpen (pathText path) with
      | .error _ => .ok (returns tf ctx memory enoent)
      | .ok file =>
          let (fd, files) := insertFile ctx.files file
          .ok { returns tf ctx memory fd with files }

def modeType : FileType → Nat
  | .regularFile => 0o100000
  | .directory => 0o040000
  | .charDevice => 0o020000
  | .blockDevice => 0o060000

def statDefaultMode : Nat := 0o444

def statBlksize : Nat := 4096

def rdevMinorBits : Nat := 8

def littleEndian (count value : Nat) : List UInt8 :=
  (List.range count).map fun index => UInt8.ofNat (value / 256 ^ index)

/-- The bytes of a `Stat`, in the order of its fields. -/
def statBytes (inode : VfsInode) : List UInt8 :=
  let stDev := littleEndian 8 0
  let stIno := littleEndian 8 inode.ino
  let stMode := littleEndian 4 (modeType inode.fileType ||| statDefaultMode)
  let stNlink := littleEndian 4 1
  let stUidGid := littleEndian 8 0
  let stRdev := littleEndian 8 <| match inode.rdev with
    | some (major, minor) => (major.toNat <<< rdevMinorBits) ||| minor.toNat
    | none => 0
  let pad1 := littleEndian 8 0
  let stSize := littleEndian 8 inode.len
  let stBlksize := littleEndian 4 statBlksize
  let pad2 := littleEndian 4 0
  let stBlocks := littleEndian 8 0
  let times := littleEndian 48 0
  let unused := littleEndian 8 0
  stDev ++ stIno ++ stMode ++ stNlink ++ stUidGid ++ stRdev ++ pad1 ++ stSize ++ stBlksize ++
    pad2 ++ stBlocks ++ times ++ unused

def newfstat : Checked CallOutcome :=
  let fd := tf.a0
  let statbuf := tf.a1
  withFile ctx.files fd (.ok (returns tf ctx memory ebadf)) fun file => do
    let (memory, copied) ← copyOut ctx.pageMap memory statbuf (statBytes file.inode)
    match copied.result with
    | .error _ => .ok (returns tf ctx memory efault)
    | .ok _ => .ok (returns tf ctx memory 0)

/-- The part of `read` behind `vfs_read`. -/
def finishRead (outcome : VfsRead) : Checked CallOutcome :=
  let ctx := { ctx with files := ctx.files.set tf.a0 (some outcome.file) }
  match outcome.result with
  | .error _ => .ok (returns tf ctx memory eio)
  | .ok n =>
      if 0 < n then do
        let (memory, copied) ← copyOut ctx.pageMap memory tf.a1 ((List.range n).map outcome.buf)
        match copied.result with
        | .error _ => .ok (returns tf ctx memory efault)
        | .ok _ => .ok (returns tf ctx memory n)
      else
        .ok (returns tf ctx memory n)

def read : Checked CallOutcome :=
  let fd := tf.a0
  let size := tf.a2
  withFile ctx.files fd (.ok (returns tf ctx memory ebadf)) fun file => do
    allocate kernel.serves [] size
    let outcome ← vfsRead file size fun _ => 0
    -- The offset has moved, and the copy can still fail.
    finishRead tf ctx memory outcome

def close : Checked CallOutcome :=
  let fd := tf.a0
  withFile ctx.files fd (.ok (returns tf ctx memory ebadf)) fun _ =>
    .ok (returns tf { ctx with files := ctx.files.set fd none } memory 0)

/-- The calls that `syscall::handle` dispatches to these handlers. -/
inductive FileCall
  | write
  | openat
  | newfstat
  | read
  | close
  deriving Repr, DecidableEq

def handle : FileCall → Checked CallOutcome
  | .write => write kernel tf ctx memory
  | .openat => openat kernel tf ctx memory
  | .newfstat => newfstat tf ctx memory
  | .read => read kernel tf ctx memory
  | .close => close tf ctx memory

end NanoOs.FileCalls
