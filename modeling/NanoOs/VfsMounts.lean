import NanoOs.Files
import NanoOs.PathWalks

/-!
# The mount table

`vfs_lookup` asks the file systems for one name after the other, and after each
name crosses into the file system that is mounted on the inode it found.  An
inode is a mountpoint when it is the same allocation as the inode of a mount
record, so what a mount does depends on which inodes a file system returns.  The
file systems are a parameter: their state may change at any time, and a lookup
may make a new inode whenever it is called.
-/

namespace NanoOs.VfsMounts

open Files

/-- A record that `vfs_mount_at` pushes, with the root inode of its superblock. -/
structure Mount (Inode : Type) where
  mountpointInode : Inode
  mountpoint : String
  root : Inode
  deriving DecidableEq

/-- `MOUNTS` after `vfs::init`: the root inode of mount 0, which has no
mountpoint inode, and the other records. -/
structure MountTable (Inode : Type) where
  root : Inode
  mounts : List (Mount Inode)
  deriving DecidableEq

namespace MountTable

variable {Inode : Type}

/-- `vfs::init`. -/
def init (root : Inode) : MountTable Inode :=
  ⟨root, []⟩

def push (table : MountTable Inode) (mount : Mount Inode) : MountTable Inode :=
  { table with mounts := table.mounts ++ [mount] }

/-- `cross_mount`: the first record for an inode gives the root mounted there. -/
def crossMount [DecidableEq Inode] (table : MountTable Inode) (inode : Inode) : Inode :=
  match table.mounts.find? fun mount => mount.mountpointInode = inode with
  | some mount => mount.root
  | none => inode

def IsMountpoint (table : MountTable Inode) (inode : Inode) : Prop :=
  ∃ mount ∈ table.mounts, mount.mountpointInode = inode

end MountTable

/-- What a call to a file system leaves: an inode or an error, with the state of
the file systems. -/
abbrev Answer (World Inode : Type) :=
  Except (FileError × World) (World × Inode)

def Answer.world {World Inode : Type} : Answer World Inode → World
  | .ok (world, _) => world
  | .error (_, world) => world

structure FileSystem (World Inode : Type) where
  name : String
  mount : MountTable Inode → World → Option String → Answer World Inode

/-- The mounted file systems and the registered drivers.  Every superblock has
inodes of its own, and a driver makes a new superblock for every mount. -/
structure FileSystems (World Inode : Type) [Preorder World] where
  /-- `iops.lookup`. -/
  lookup : World × Inode → String → Answer World Inode
  filesystems : List (FileSystem World Inode)
  /-- The superblock of an inode. -/
  superblock : Inode → Nat
  /-- How many superblocks there are. -/
  superblocks : World → Nat
  superblocks_mono : Monotone superblocks
  lookup_later : ∀ world inode name, world ≤ (lookup (world, inode) name).world
  lookup_inside : ∀ {node name child}, lookup node name = .ok child →
    superblock child.2 = superblock node.2
  mount_later : ∀ driver ∈ filesystems, ∀ table world source,
    world ≤ (driver.mount table world source).world
  mount_new : ∀ driver ∈ filesystems, ∀ {table world source later root},
    driver.mount table world source = .ok (later, root) →
      superblocks world ≤ superblock root ∧ superblock root < superblocks later

/-- What `vfs_mount_at` leaves. -/
structure MountOutcome (World Inode : Type) where
  result : Except FileError Unit
  table : MountTable Inode
  world : World
  deriving DecidableEq

namespace FileSystems

variable {World Inode : Type} [Preorder World] [DecidableEq Inode]

/-- One component of a path: a lookup, then the mount on what it found. -/
def lookupComponent (fs : FileSystems World Inode) (table : MountTable Inode)
    (node : World × Inode) (component : String) : Answer World Inode :=
  match fs.lookup node component with
  | .ok (world, inode) => .ok (world, table.crossMount inode)
  | .error failure => .error failure

/-- The loop of `vfs_lookup` over the components of a path. -/
def lookupFrom (fs : FileSystems World Inode) (table : MountTable Inode)
    (node : World × Inode) (path : List String) : Answer World Inode :=
  PathWalks.walk (fs.lookupComponent table) node path

def vfsLookup (fs : FileSystems World Inode) (table : MountTable Inode) (world : World)
    (path : String) : Answer World Inode :=
  fs.lookupFrom table (world, table.root) (components path)

def findFilesystem (fs : FileSystems World Inode) (name : String) :
    Option (FileSystem World Inode) :=
  fs.filesystems.find? fun driver => driver.name = name

def vfsMountAt (fs : FileSystems World Inode) (table : MountTable Inode) (world : World)
    (source : Option String) (path fsName : String) : MountOutcome World Inode :=
  match fs.vfsLookup table world path with
  | .error (error, world) => ⟨.error error, table, world⟩
  | .ok (world, inode) =>
      match fs.findFilesystem fsName with
      | none => ⟨.error .notFound, table, world⟩
      | some driver =>
          match driver.mount table world source with
          | .error (error, world) => ⟨.error error, table, world⟩
          | .ok (world, root) => ⟨.ok (), table.push ⟨inode, path, root⟩, world⟩

/-- The tables that `vfs::init` and any calls lead to; between the calls the
file systems may be used in any way. -/
inductive Reached (fs : FileSystems World Inode) : MountTable Inode → World → Prop
  | init (root : Inode) (world : World) (made : fs.superblock root < fs.superblocks world) :
      Reached fs (.init root) world
  | use {table : MountTable Inode} {world later : World} (reached : Reached fs table world)
      (passed : world ≤ later) : Reached fs table later
  | mount {table : MountTable Inode} {world : World} (reached : Reached fs table world)
      (source : Option String) (path fsName : String) :
      Reached fs (fs.vfsMountAt table world source path fsName).table
        (fs.vfsMountAt table world source path fsName).world

end FileSystems

end NanoOs.VfsMounts
