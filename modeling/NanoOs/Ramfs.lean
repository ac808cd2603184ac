import NanoOs.Files
import NanoOs.PathWalks

/-!
# The RAM file system

Inodes are shared through reference counted pointers.  An arc stands for such a
pointer: the place of an inode among all that were ever made.  A directory maps
names to the arcs of its children, and inserts change the maps in place.
-/

namespace NanoOs

open Files

inductive RamfsNode
  | file (data : List UInt8)
  | dir (children : String → Option Nat)
  | charDevice
  | blockDevice

structure RamfsInode extends Inode RamfsNode where
  rdev : Option (UInt32 × UInt32)

/-- The two file types that `make_dev_inode` takes. -/
inductive DeviceType
  | charDevice
  | blockDevice
  deriving DecidableEq

/-- A file system with the inodes made so far, below `arcs`. -/
structure Ramfs where
  inodes : Nat → RamfsInode
  arcs : Nat
  root : Nat
  nextIno : Nat

namespace RamfsNode

def fileType : RamfsNode → FileType
  | .file _ => .regularFile
  | .dir _ => .directory
  | .charDevice => .charDevice
  | .blockDevice => .blockDevice

/-- `RamfsInodeOps::lookup` in the node of an inode. -/
def lookup (node : RamfsNode) (name : String) : Except FileError Nat :=
  match node with
  | .dir children =>
      match children name with
      | some child => .ok child
      | none => .error .notFound
  | .file _ | .charDevice | .blockDevice => .error .notADirectory

end RamfsNode

namespace DeviceType

def fileType : DeviceType → FileType
  | .charDevice => .charDevice
  | .blockDevice => .blockDevice

def node : DeviceType → RamfsNode
  | .charDevice => .charDevice
  | .blockDevice => .blockDevice

end DeviceType

namespace Ramfs

def dirInode (ino : Nat) : RamfsInode where
  ino := ino
  fileType := .directory
  len := 0
  rdev := none
  fsData := .dir fun _ => none

def fileInode (data : List UInt8) (ino : Nat) : RamfsInode where
  ino := ino
  fileType := .regularFile
  len := data.length
  rdev := none
  fsData := .file data

def devInode (device : DeviceType) (major minor : UInt32) (ino : Nat) : RamfsInode where
  ino := ino
  fileType := device.fileType
  len := 0
  rdev := some (major, minor)
  fsData := device.node

def new : Ramfs where
  inodes _ := dirInode 1
  arcs := 1
  root := 0
  nextIno := 2

def allocIno (ramfs : Ramfs) : Nat × Ramfs :=
  (ramfs.nextIno, { ramfs with nextIno := (ramfs.nextIno + 1) % 2 ^ 64 })

/-- `Arc::new`. -/
def newArc (ramfs : Ramfs) (inode : RamfsInode) : Nat × Ramfs :=
  (ramfs.arcs,
    { ramfs with
      inodes := Function.update ramfs.inodes ramfs.arcs inode
      arcs := ramfs.arcs + 1 })

def makeInode (ramfs : Ramfs) (inode : Nat → RamfsInode) : Nat × Ramfs :=
  let (ino, ramfs) := ramfs.allocIno
  ramfs.newArc (inode ino)

def makeDirInode (ramfs : Ramfs) : Nat × Ramfs :=
  ramfs.makeInode dirInode

def makeFileInode (ramfs : Ramfs) (data : List UInt8) : Nat × Ramfs :=
  ramfs.makeInode (fileInode data)

def makeDevInode (ramfs : Ramfs) (device : DeviceType) (major minor : UInt32) : Nat × Ramfs :=
  ramfs.makeInode (devInode device major minor)

def setChildren (ramfs : Ramfs) (dir : Nat) (children : String → Option Nat) : Ramfs :=
  { ramfs with
    inodes := Function.update ramfs.inodes dir
      { ramfs.inodes dir with fsData := .dir children } }

def getOrCreateDir (ramfs : Ramfs) (parent : Nat) (name : String) :
    Except FileError Nat × Ramfs :=
  match (ramfs.inodes parent).fsData with
  | .dir children =>
      match children name with
      | some existing => (.ok existing, ramfs)
      | none =>
          let (newDir, ramfs) := ramfs.makeDirInode
          (.ok newDir, ramfs.setChildren parent (Function.update children name (some newDir)))
  | _ => (.error .invalidInput, ramfs)

def dirInsert (ramfs : Ramfs) (parent : Nat) (name : String) (child : Nat) : Ramfs :=
  match (ramfs.inodes parent).fsData with
  | .dir children => ramfs.setChildren parent (Function.update children name (some child))
  | _ => ramfs

/-- The loop of `insert_dir` and `insert_leaf` over the directories of a path. -/
def createDirs (ramfs : Ramfs) (current : Nat) : List String → Except FileError Nat × Ramfs
  | [] => (.ok current, ramfs)
  | dirName :: rest =>
      match ramfs.getOrCreateDir current dirName with
      | (.ok next, ramfs) => ramfs.createDirs next rest
      | (.error error, ramfs) => (.error error, ramfs)

def insertDir (ramfs : Ramfs) (path : String) : Except FileError Unit × Ramfs :=
  match components path with
  | [] => (.error .invalidInput, ramfs)
  | part :: parts =>
      match ramfs.createDirs ramfs.root (part :: parts) with
      | (.ok _, ramfs) => (.ok (), ramfs)
      | (.error error, ramfs) => (.error error, ramfs)

def insertLeaf (ramfs : Ramfs) (path : String) (inode : Nat) : Except FileError Unit × Ramfs :=
  match (components path).getLast? with
  | none => (.error .invalidInput, ramfs)
  | some filename =>
      match ramfs.createDirs ramfs.root (components path).dropLast with
      | (.ok current, ramfs) => (.ok (), ramfs.dirInsert current filename inode)
      | (.error error, ramfs) => (.error error, ramfs)

def insertFile (ramfs : Ramfs) (path : String) (data : List UInt8) :
    Except FileError Unit × Ramfs :=
  let (inode, ramfs) := ramfs.makeFileInode data
  ramfs.insertLeaf path inode

def insertChardev (ramfs : Ramfs) (path : String) (major minor : UInt32) :
    Except FileError Unit × Ramfs :=
  let (inode, ramfs) := ramfs.makeDevInode .charDevice major minor
  ramfs.insertLeaf path inode

def insertBlockdev (ramfs : Ramfs) (path : String) (major minor : UInt32) :
    Except FileError Unit × Ramfs :=
  let (inode, ramfs) := ramfs.makeDevInode .blockDevice major minor
  ramfs.insertLeaf path inode

/-- `RamfsInodeOps::lookup`. -/
def lookup (ramfs : Ramfs) (inode : Nat) (name : String) : Except FileError Nat :=
  (ramfs.inodes inode).fsData.lookup name

def walk (ramfs : Ramfs) (path : List String) : Except FileError Nat :=
  PathWalks.walk ramfs.lookup ramfs.root path

end Ramfs

inductive Insert
  | dir (path : String)
  | file (path : String) (data : List UInt8)
  | chardev (path : String) (major minor : UInt32)
  | blockdev (path : String) (major minor : UInt32)
  deriving DecidableEq

namespace Insert

def path : Insert → String
  | .dir path => path
  | .file path _ => path
  | .chardev path _ _ => path
  | .blockdev path _ _ => path

def apply (insert : Insert) (ramfs : Ramfs) : Except FileError Unit × Ramfs :=
  match insert with
  | .dir path => ramfs.insertDir path
  | .file path data => ramfs.insertFile path data
  | .chardev path major minor => ramfs.insertChardev path major minor
  | .blockdev path major minor => ramfs.insertBlockdev path major minor

end Insert

namespace Ramfs

/-- The file systems that inserts lead to, whether or not they succeed. -/
inductive Reached : Ramfs → Prop
  | new : Reached new
  | insert {ramfs : Ramfs} (reached : Reached ramfs) (insert : Insert) :
      Reached (insert.apply ramfs).2

end Ramfs

end NanoOs
