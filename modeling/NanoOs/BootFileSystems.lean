import NanoOs.Ramfs
import NanoOs.VfsMounts

/-!
# The file systems of the boot

The kernel boots on a RAM file system and registers drivers for further RAM file
systems and for `/proc`.  A RAM file system keeps its inodes, while the files of
`/proc` get a new inode for every lookup.
-/

namespace NanoOs.VfsMounts

/-- An inode of a superblock: an allocation of a RAM file system, the root of a
`/proc`, or one of its files with the allocation made for it. -/
inductive BootInode
  | ramfs (superblock arc : Nat)
  | procDir (superblock : Nat)
  | procFile (superblock arc : Nat) (entry : String)
  deriving DecidableEq

namespace BootInode

def superblock : BootInode → Nat
  | .ramfs superblock _ => superblock
  | .procDir superblock => superblock
  | .procFile superblock _ _ => superblock

end BootInode

/-- The names in `ENTRIES`. -/
def procEntries : List String :=
  ["devices", "filesystems", "mounts", "version"]

/-- The RAM file system of a superblock: the first one is the one of the boot,
and a mount makes an empty one. -/
def bootRamfs (boot : Ramfs) (superblock : Nat) : Ramfs :=
  if superblock = 0 then boot else Ramfs.new

/-- `iops.lookup`, with the number of allocations made so far. -/
def bootLookup (boot : Ramfs) : Nat × BootInode → String → Answer Nat BootInode
  | (made, .ramfs superblock arc), name =>
      match (bootRamfs boot superblock).lookup arc name with
      | .ok child => .ok (made, .ramfs superblock child)
      | .error error => .error (error, made)
  | (made, .procDir superblock), name =>
      if name ∈ procEntries then
        .ok (made + 1, .procFile superblock made name)
      else
        .error (.notFound, made)
  | (made, .procFile _ _ _), _ => .error (.notADirectory, made)

/-- `RamfsFileSystem::mount`, which ignores its source. -/
def ramfsFileSystem : FileSystem Nat BootInode where
  name := "ramfs"
  mount _ made _ := .ok (made + 1, .ramfs made Ramfs.new.root)

/-- `ProcfsFileSystem::mount`, which ignores its source. -/
def procfsFileSystem : FileSystem Nat BootInode where
  name := "proc"
  mount _ made _ := .ok (made + 1, .procDir made)

theorem bootLookup_later (boot : Ramfs) (made : Nat) (inode : BootInode) (name : String) :
    made ≤ (bootLookup boot (made, inode) name).world := by
  cases inode with
  | ramfs superblock arc =>
    rw [bootLookup]
    split <;> exact le_rfl
  | procDir superblock =>
    rw [bootLookup]
    split
    · exact Nat.le_succ made
    · exact le_rfl
  | procFile superblock arc entry => exact le_rfl

theorem bootLookup_superblock {boot : Ramfs} {node child : Nat × BootInode} {name : String}
    (looked : bootLookup boot node name = .ok child) :
    child.2.superblock = node.2.superblock := by
  obtain ⟨made, inode⟩ := node
  cases inode with
  | ramfs superblock arc =>
    rw [bootLookup] at looked
    split at looked <;> cases looked
    rfl
  | procDir superblock =>
    rw [bootLookup] at looked
    split at looked <;> cases looked
    rfl
  | procFile superblock arc entry => cases looked

def bootFileSystems (boot : Ramfs) : FileSystems Nat BootInode where
  lookup := bootLookup boot
  filesystems := [ramfsFileSystem, procfsFileSystem]
  superblock := BootInode.superblock
  superblocks := id
  superblocks_mono := monotone_id
  lookup_later := bootLookup_later boot
  lookup_inside := bootLookup_superblock
  mount_later := by
    intro driver registered table made source
    simp only [List.mem_cons, List.not_mem_nil, or_false] at registered
    rcases registered with rfl | rfl <;> exact Nat.le_succ made
  mount_new := by
    intro driver registered table made source later root mounted
    simp only [List.mem_cons, List.not_mem_nil, or_false] at registered
    rcases registered with rfl | rfl <;> cases mounted <;> exact ⟨le_rfl, Nat.lt_succ_self made⟩

def bootRoot (boot : Ramfs) : BootInode :=
  .ramfs 0 boot.root

end NanoOs.VfsMounts
