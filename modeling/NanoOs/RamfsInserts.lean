import NanoOs.RamfsTree

/-!
# Inserts into a RAM file system

What an insert leaves at its path, and what it changes elsewhere.  An insert
does not look at the kind of what is already at its path, or of what it takes
for the directory above: it reports success where a file or a device is in the
way.
-/

namespace NanoOs

open Files

namespace Insert

def Describes (insert : Insert) (inode : RamfsInode) : Prop :=
  match insert with
  | .dir _ => inode.fileType = .directory ∧ inode.fsData.fileType = .directory
  | .file _ data =>
      inode.fileType = .regularFile ∧ inode.len = data.length ∧ inode.fsData = .file data
  | .chardev _ major minor =>
      inode.fileType = .charDevice ∧ inode.rdev = some (major, minor) ∧
        inode.fsData = .charDevice
  | .blockdev _ major minor =>
      inode.fileType = .blockDevice ∧ inode.rdev = some (major, minor) ∧
        inode.fsData = .blockDevice

/-- Walking the path of the insert leads to what was inserted. -/
def Found (insert : Insert) (ramfs : Ramfs) : Prop :=
  ∃ arc, ramfs.walk (components insert.path) = .ok arc ∧ insert.Describes (ramfs.inodes arc)

def directory : Insert → List String
  | .dir path => components path
  | .file path _ => (components path).dropLast
  | .chardev path _ _ => (components path).dropLast
  | .blockdev path _ _ => (components path).dropLast

/-- Where the directory of the insert exists, it is one. -/
def Clear (insert : Insert) (ramfs : Ramfs) : Prop :=
  ∀ arc, ramfs.walk insert.directory = .ok arc → (ramfs.inodes arc).fileType = .directory

def leaf : Insert → Option (Nat → RamfsInode)
  | .dir _ => none
  | .file _ data => some (Ramfs.fileInode data)
  | .chardev _ major minor => some (Ramfs.devInode .charDevice major minor)
  | .blockdev _ major minor => some (Ramfs.devInode .blockDevice major minor)

end Insert

namespace Ramfs

variable {ramfs before after : Ramfs} {inode : Nat → RamfsInode} {arc last : Nat}
  {path filename : String} {dirs query : List String} {insert : Insert}

/-! ## The two kinds of inserts -/

section

variable (isLeaf : insert.leaf = some inode)

include isLeaf

theorem apply_leaf (ramfs : Ramfs) :
    insert.apply ramfs = (ramfs.makeInode inode).2.insertLeaf insert.path ramfs.arcs := by
  cases insert <;> cases isLeaf <;> rfl

theorem directory_leaf : insert.directory = (components insert.path).dropLast := by
  cases insert <;> cases isLeaf <;> rfl

theorem makes_leaf : Makes inode := by
  cases insert with
  | dir path => cases isLeaf
  | file path data =>
    cases isLeaf
    exact makes_fileInode data
  | chardev path major minor =>
    cases isLeaf
    exact makes_devInode .charDevice major minor
  | blockdev path major minor =>
    cases isLeaf
    exact makes_devInode .blockDevice major minor

theorem leaf_not_dir (ino : Nat) : (inode ino).fsData.fileType ≠ .directory := by
  cases insert <;> cases isLeaf <;> exact FileType.noConfusion

theorem describes_leaf (ino : Nat) : insert.Describes (inode ino) := by
  cases insert <;> cases isLeaf <;> exact ⟨rfl, rfl, rfl⟩

end

def DirAt (ramfs : Ramfs) (dirs : List String) : Prop :=
  ∀ arc, ramfs.walk dirs = .ok arc → ramfs.IsDir arc

theorem WellFormed.dirAt_root (wellFormed : ramfs.WellFormed) : ramfs.DirAt [] := by
  intro arc found
  cases found
  exact wellFormed.rootDir

theorem dirAt_of_failed {error : FileError}
    (failed : ramfs.createDirs ramfs.root dirs = (.error error, after)) : ramfs.DirAt dirs := by
  intro arc found
  rw [createDirs_existing found] at failed
  cases failed

theorem WellFormed.dirAt_makeInode (wellFormed : ramfs.WellFormed) :
    (ramfs.makeInode inode).2.DirAt dirs ↔ ramfs.DirAt dirs := by
  unfold DirAt
  rw [wellFormed.walk_makeInode]
  refine forall₂_congr fun arc found => ?_
  rw [IsDir, makeInode_ne (wellFormed.walk_made found).ne, IsDir]

theorem WellFormed.insertDir_cases (wellFormed : ramfs.WellFormed) (path : String) :
    (∃ error, ramfs.insertDir path = (.error error, ramfs) ∧
      ramfs.DirAt (components path)) ∨
    ∃ last after, Created ramfs after (components path) last ∧
      ramfs.insertDir path = (.ok (), after) := by
  unfold insertDir
  split
  · next names =>
      rw [names]
      exact .inl ⟨_, rfl, wellFormed.dirAt_root⟩
  · next part parts names =>
      rw [names]
      rcases wellFormed.createDirs_root (part :: parts) with ⟨last, after, created, effect⟩ | failed
      · rw [created]
        exact .inr ⟨last, after, effect, rfl⟩
      · rw [failed]
        exact .inl ⟨_, rfl, dirAt_of_failed failed⟩

theorem WellFormed.insertLeaf_cases (wellFormed : ramfs.WellFormed) (path : String) (arc : Nat) :
    (∃ error, ramfs.insertLeaf path arc = (.error error, ramfs) ∧
      ramfs.DirAt (components path).dropLast) ∨
    ∃ filename last after, components path = (components path).dropLast ++ [filename] ∧
      Created ramfs after (components path).dropLast last ∧
      ramfs.insertLeaf path arc = (.ok (), after.dirInsert last filename arc) := by
  unfold insertLeaf
  split
  · next noName =>
      rw [List.getLast?_eq_none_iff.mp noName]
      exact .inl ⟨_, rfl, wellFormed.dirAt_root⟩
  · next filename isLast =>
      have names := (List.dropLast_append_getLast? _ isLast).symm
      rcases wellFormed.createDirs_root (components path).dropLast with
        ⟨last, after, created, effect⟩ | failed
      · rw [created]
        exact .inr ⟨filename, last, after, names, effect, rfl⟩
      · rw [failed]
        exact .inl ⟨_, rfl, dirAt_of_failed failed⟩

/-- How an insert goes: it fails with nothing but an inode made, or it creates
its directories and puts its leaf into the last one. -/
inductive Applied (ramfs : Ramfs) : Insert → Except FileError Unit × Ramfs → Prop
  | failedDir {path : String} (error : FileError) (dirAt : ramfs.DirAt (components path)) :
      Applied ramfs (.dir path) (.error error, ramfs)
  | failedLeaf {insert : Insert} {inode : Nat → RamfsInode} (error : FileError)
      (isLeaf : insert.leaf = some inode) (dirAt : ramfs.DirAt insert.directory) :
      Applied ramfs insert (.error error, (ramfs.makeInode inode).2)
  | dir {path : String} {last : Nat} {after : Ramfs}
      (created : Created ramfs after (components path) last) :
      Applied ramfs (.dir path) (.ok (), after)
  | leaf {insert : Insert} {inode : Nat → RamfsInode} {filename : String} {last : Nat}
      {after : Ramfs} (isLeaf : insert.leaf = some inode)
      (names : components insert.path = insert.directory ++ [filename])
      (created : Created (ramfs.makeInode inode).2 after insert.directory last) :
      Applied ramfs insert (.ok (), after.dirInsert last filename ramfs.arcs)

theorem WellFormed.applied (wellFormed : ramfs.WellFormed) (insert : Insert) :
    Applied ramfs insert (insert.apply ramfs) := by
  cases isLeaf : insert.leaf with
  | none =>
    cases insert with
    | dir path =>
      rw [Insert.apply]
      rcases wellFormed.insertDir_cases path with
        ⟨error, failed, dirAt⟩ | ⟨last, after, created, done⟩
      · rw [failed]
        exact .failedDir error dirAt
      · rw [done]
        exact .dir created
    | _ => cases isLeaf
  | some inode =>
    have made := wellFormed.makeInode (makes_leaf isLeaf)
    rw [apply_leaf isLeaf]
    rcases made.insertLeaf_cases insert.path ramfs.arcs with
      ⟨error, failed, dirAt⟩ | ⟨filename, last, after, names, created, done⟩
    · rw [failed]
      rw [wellFormed.dirAt_makeInode, ← directory_leaf isLeaf] at dirAt
      exact .failedLeaf error isLeaf dirAt
    · rw [done]
      rw [← directory_leaf isLeaf] at names created
      exact .leaf isLeaf names created

/-! ## Well-formed file systems -/

theorem WellFormed.apply (wellFormed : ramfs.WellFormed) (insert : Insert) :
    (insert.apply ramfs).2.WellFormed := by
  have applied := wellFormed.applied insert
  generalize insert.apply ramfs = outcome at applied ⊢
  cases applied with
  | failedDir error dirAt => exact wellFormed
  | failedLeaf error isLeaf dirAt => exact wellFormed.makeInode (makes_leaf isLeaf)
  | dir created => exact created.wellFormed
  | @leaf _ _ filename last after isLeaf names created =>
    by_cases isDir : after.IsDir last
    · exact created.wellFormed.dirInsert (created.wellFormed.walk_made created.found) isDir
        (created.loose (wellFormed.loose_makeInode (makes_leaf isLeaf)))
    · rw [dirInsert_of_not_dir isDir]
      exact created.wellFormed

theorem Reached.wellFormed (reached : ramfs.Reached) : ramfs.WellFormed := by
  induction reached with
  | new => exact wellFormed_new
  | insert _ insert ih => exact ih.apply insert

/-! ## What an insert leaves at its path -/

theorem WellFormed.isDir_iff (wellFormed : ramfs.WellFormed) :
    ramfs.IsDir arc ↔ (ramfs.inodes arc).fileType = .directory := by
  rw [IsDir, wellFormed.kinds]

theorem WellFormed.clear_iff (wellFormed : ramfs.WellFormed) :
    insert.Clear ramfs ↔ ramfs.DirAt insert.directory :=
  forall₂_congr fun _ _ => wellFormed.isDir_iff.symm

section

variable (created : Created ramfs after dirs last)

include created

/-- What the path leads to afterwards is a directory unless something else was
there before. -/
theorem Created.isDir_last_iff (wellFormed : ramfs.WellFormed) :
    after.IsDir last ↔ ramfs.DirAt dirs := by
  rcases created.changes dirs with same | ⟨-, missing, arc, present, isDir⟩
  · have before := same.symm.trans created.found
    have kept := isDir_of_shallow (created.kept last (wellFormed.walk_made before))
    constructor
    · intro isDir arc found
      cases before.symm.trans found
      exact kept.mp isDir
    · intro dirAt
      exact kept.mpr (dirAt last before)
  · cases created.found.symm.trans present
    refine iff_of_true isDir fun arc found => ?_
    cases missing.symm.trans found

theorem Created.leaf_found (isDir : after.IsDir last) (made : arc < ramfs.arcs)
    (noDir : ¬ ramfs.IsDir arc) :
    (after.dirInsert last filename arc).walk (dirs ++ [filename]) = .ok arc ∧
      (after.dirInsert last filename arc).inodes arc = ramfs.inodes arc :=
  ⟨created.wellFormed.walk_dirInsert isDir created.found,
    eq_of_shallow (dirInsert_shallow.trans (created.kept arc made)) noDir⟩

theorem Created.leaf_lost (noDir : ¬ after.IsDir last) :
    (after.dirInsert last filename arc).walk (dirs ++ [filename]) = .error .notADirectory := by
  rw [dirInsert_of_not_dir noDir, walk, PathWalks.walk_concat created.found, lookup,
    RamfsNode.lookup_of_not_dir noDir]

end

theorem Created.found_dir_iff (created : Created ramfs after (components path) last) :
    (Insert.dir path).Found after ↔ after.IsDir last := by
  constructor
  · rintro ⟨arc, found, -, isDir⟩
    cases created.found.symm.trans found
    exact isDir
  · intro isDir
    exact ⟨last, created.found, created.wellFormed.isDir_iff.mp isDir, isDir⟩

theorem Created.found_leaf_iff (created : Created (ramfs.makeInode inode).2 after dirs last)
    (isLeaf : insert.leaf = some inode) (names : components insert.path = dirs ++ [filename]) :
    insert.Found (after.dirInsert last filename ramfs.arcs) ↔ after.IsDir last := by
  unfold Insert.Found
  rw [names]
  constructor
  · rintro ⟨arc, found, -⟩
    by_contra noDir
    rw [created.leaf_lost noDir] at found
    cases found
  · intro isDir
    have noDir : ¬ (ramfs.makeInode inode).2.IsDir ramfs.arcs := by
      rw [IsDir, makeInode_self]
      exact leaf_not_dir isLeaf _
    obtain ⟨found, kept⟩ := @leaf_found _ _ _ _ filename _ created isDir (Nat.lt_succ_self _) noDir
    refine ⟨ramfs.arcs, found, ?_⟩
    rw [kept, makeInode_self]
    exact describes_leaf isLeaf _

/-- An insert that reports success has inserted exactly if no file and no device
is in the way. -/
theorem insert_found_iff (reached : ramfs.Reached) (insert : Insert) :
    ((insert.apply ramfs).1 = .ok () → insert.Found (insert.apply ramfs).2) ↔
      insert.Clear ramfs := by
  have wellFormed := reached.wellFormed
  have applied := wellFormed.applied insert
  rw [wellFormed.clear_iff]
  generalize insert.apply ramfs = outcome at applied ⊢
  cases applied with
  | failedDir error dirAt => exact iff_of_true (fun succeeded => by cases succeeded) dirAt
  | failedLeaf error isLeaf dirAt => exact iff_of_true (fun succeeded => by cases succeeded) dirAt
  | dir created =>
    rw [Insert.directory, ← created.isDir_last_iff wellFormed, ← created.found_dir_iff]
    exact forall_prop_of_true rfl
  | leaf isLeaf names created =>
    rw [← wellFormed.dirAt_makeInode,
      ← created.isDir_last_iff (wellFormed.makeInode (makes_leaf isLeaf)),
      ← created.found_leaf_iff isLeaf names]
    exact forall_prop_of_true rfl

theorem nestedFile_found :
    ((Insert.file "a/b" [1]).apply new).1 = .ok () ∧
      (Insert.file "a/b" [1]).Found ((Insert.file "a/b" [1]).apply new).2 := by
  have clear : (Insert.file "a/b" [1]).Clear new := by
    intro arc found
    have missing : new.walk (Insert.file "a/b" [1]).directory = .error .notFound := by
      decide +kernel
    cases missing.symm.trans found
  have done : ((Insert.file "a/b" [1]).apply new).1 = .ok () := by decide +kernel
  exact ⟨done, (insert_found_iff .new _).mpr clear done⟩

/-- A file below a file is not inserted, and a directory in the place of a file
is not either, but both calls report success. -/
theorem inserts_over_file_lost :
    ∃ ramfs : Ramfs, ramfs.Reached ∧
      (((Insert.file "a/b" [2]).apply ramfs).1 = .ok () ∧
        ¬ (Insert.file "a/b" [2]).Found ((Insert.file "a/b" [2]).apply ramfs).2) ∧
      ((Insert.dir "a").apply ramfs).1 = .ok () ∧
        ¬ (Insert.dir "a").Found ((Insert.dir "a").apply ramfs).2 := by
  refine ⟨_, .insert .new (.file "a" [1]), ⟨by decide +kernel, ?_⟩, by decide +kernel, ?_⟩
  · rintro ⟨arc, found, -⟩
    have lost : ((Insert.file "a/b" [2]).apply ((Insert.file "a" [1]).apply new).2).2.walk
        (components "a/b") = .error .notADirectory := by
      decide +kernel
    cases lost.symm.trans found
  · rintro ⟨arc, found, isDir, -⟩
    have kept : ((Insert.dir "a").apply ((Insert.file "a" [1]).apply new).2).2.walk
        (components "a") = .ok 1 := by
      decide +kernel
    cases kept.symm.trans found
    revert isDir
    decide +kernel

/-! ## What an insert changes elsewhere -/

/-- The calls of `alloc_ino` so far: one for each inode but the root. -/
def allocated (ramfs : Ramfs) : Nat :=
  ramfs.arcs - 1

def find (ramfs : Ramfs) (path : List String) : Except FileError (Nat × RamfsInode) :=
  (ramfs.walk path).map fun arc => (arc, ramfs.inodes arc)

/-- The inode that looking up a path returns, apart from the names in it. -/
def seen (ramfs : Ramfs) (path : List String) : Except FileError (Nat × RamfsInode) :=
  (ramfs.walk path).map fun arc => (arc, (ramfs.inodes arc).shallow)

theorem WellFormed.ino_ne (wellFormed : ramfs.WellFormed) (few : ramfs.allocated < 2 ^ 63)
    {first second : List String} {other : Nat} (found : ramfs.walk first = .ok arc)
    (foundOther : ramfs.walk second = .ok other) (different : first ≠ second) :
    (ramfs.inodes arc).ino ≠ (ramfs.inodes other).ino := by
  have small := wellFormed.walk_made found
  have smallOther := wellFormed.walk_made foundOther
  have apart : arc ≠ other := by
    rintro rfl
    exact different (wellFormed.rooted.path_unique found foundOther)
  rw [wellFormed.inos arc small, wellFormed.inos other smallOther]
  unfold allocated at few
  omega

theorem WellFormed.find_makeInode (wellFormed : ramfs.WellFormed) (query : List String) :
    (ramfs.makeInode inode).2.find query = ramfs.find query := by
  unfold find
  rw [wellFormed.walk_makeInode]
  cases found : ramfs.walk query with
  | error error => rfl
  | ok arc => rw [Except.map, Except.map, makeInode_ne (wellFormed.walk_made found).ne]

theorem WellFormed.find_of_failed (wellFormed : ramfs.WellFormed) {error : FileError}
    (failed : (insert.apply ramfs).1 = .error error) (query : List String) :
    (insert.apply ramfs).2.find query = ramfs.find query := by
  have applied := wellFormed.applied insert
  generalize insert.apply ramfs = outcome at applied failed ⊢
  cases applied with
  | failedDir error dirAt => rfl
  | failedLeaf error isLeaf dirAt => exact wellFormed.find_makeInode query
  | dir created => cases failed
  | leaf isLeaf names created => cases failed

/-- What may become of a path when something is inserted at another. -/
def Unmoved (before after : Ramfs) (path query : List String) : Prop :=
  path <+: query ∨
  (query <+: path ∧ before.walk query = .error .notFound ∧
    ∃ arc, after.walk query = .ok arc ∧ (after.inodes arc).fileType = .directory) ∨
  after.seen query = before.seen query

theorem seen_congr (same : after.walk query = before.walk query)
    (kept : ∀ arc, before.walk query = .ok arc →
      (after.inodes arc).shallow = (before.inodes arc).shallow) :
    after.seen query = before.seen query := by
  unfold seen
  rw [same]
  cases found : before.walk query with
  | error error => rfl
  | ok arc => rw [Except.map, Except.map, kept arc found]

theorem WellFormed.seen_makeInode (wellFormed : ramfs.WellFormed) (query : List String) :
    (ramfs.makeInode inode).2.seen query = ramfs.seen query := by
  refine seen_congr wellFormed.walk_makeInode fun arc found => ?_
  rw [makeInode_ne (wellFormed.walk_made found).ne]

theorem Created.seen_or_dir (created : Created ramfs after dirs last)
    (wellFormed : ramfs.WellFormed) (query : List String) :
    after.seen query = ramfs.seen query ∨
      query <+: dirs ∧ ramfs.walk query = .error .notFound ∧
        ∃ arc, after.walk query = .ok arc ∧ after.IsDir arc := by
  rcases created.changes query with same | appeared
  · exact .inl (seen_congr same fun arc found => created.kept arc (wellFormed.walk_made found))
  · exact .inr appeared

/-- Putting the leaf into its directory is only seen at its path and below. -/
theorem Created.walk_leaf (created : Created ramfs after dirs last)
    (apart : ¬ dirs ++ [filename] <+: query) :
    (after.dirInsert last filename arc).walk query = after.walk query := by
  by_cases isDir : after.IsDir last
  · exact created.wellFormed.walk_dirInsert_elsewhere isDir created.found apart
  · rw [dirInsert_of_not_dir isDir]

theorem WellFormed.unmoved (wellFormed : ramfs.WellFormed)
    (succeeded : (insert.apply ramfs).1 = .ok ()) (query : List String) :
    Unmoved ramfs (insert.apply ramfs).2 (components insert.path) query := by
  have afterwards := wellFormed.apply insert
  have applied := wellFormed.applied insert
  by_cases below : components insert.path <+: query
  · exact .inl below
  right
  generalize insert.apply ramfs = outcome at applied afterwards succeeded ⊢
  cases applied with
  | failedDir error dirAt => cases succeeded
  | failedLeaf error isLeaf dirAt => cases succeeded
  | dir created =>
    rcases created.seen_or_dir wellFormed query with same | ⟨inside, missing, arc, found, isDir⟩
    · exact .inr same
    · exact .inl ⟨inside, missing, arc, found, afterwards.isDir_iff.mp isDir⟩
  | @leaf _ _ filename last after isLeaf names created =>
    rw [names] at below ⊢
    have sameWalk : (after.dirInsert last filename ramfs.arcs).walk query = after.walk query :=
      created.walk_leaf below
    rcases created.seen_or_dir (wellFormed.makeInode (makes_leaf isLeaf)) query with
      same | ⟨inside, missing, arc, found, isDir⟩
    · refine .inr ((seen_congr sameWalk fun _ _ => dirInsert_shallow).trans ?_)
      exact same.trans (wellFormed.seen_makeInode query)
    · exact .inl ⟨inside.trans (List.prefix_append _ _),
        wellFormed.walk_makeInode.symm.trans missing, arc, sameWalk.trans found,
        afterwards.isDir_iff.mp ((isDir_of_shallow dirInsert_shallow).mpr isDir)⟩

/-- All inodes of the tree have different numbers.  An insert that fails leaves
the tree as it was; one that succeeds is only seen at its path and below, and at
the directories above that it had to create. -/
theorem inserts_atomic_and_local (reached : ramfs.Reached) (insert : Insert) :
    (ramfs.allocated < 2 ^ 63 → ∀ {first second arc other}, ramfs.walk first = .ok arc →
      ramfs.walk second = .ok other → first ≠ second →
        (ramfs.inodes arc).ino ≠ (ramfs.inodes other).ino) ∧
    (∀ error, (insert.apply ramfs).1 = .error error →
      ∀ query, (insert.apply ramfs).2.find query = ramfs.find query) ∧
    ((insert.apply ramfs).1 = .ok () →
      ∀ query, Unmoved ramfs (insert.apply ramfs).2 (components insert.path) query) :=
  ⟨fun few _ _ _ _ => reached.wellFormed.ino_ne few,
    fun _ => reached.wellFormed.find_of_failed, reached.wellFormed.unmoved⟩

/-- A file is put over a directory with a file in it. -/
theorem overwritten_directory :
    ((Insert.file "a" [2]).apply ((Insert.file "a/b" [1]).apply new).2).1 = .ok () ∧
      ∀ query, Unmoved ((Insert.file "a/b" [1]).apply new).2
        ((Insert.file "a" [2]).apply ((Insert.file "a/b" [1]).apply new).2).2
        (components "a") query := by
  have done : ((Insert.file "a" [2]).apply ((Insert.file "a/b" [1]).apply new).2).1 = .ok () := by
    decide +kernel
  exact ⟨done, (inserts_atomic_and_local (.insert .new (.file "a/b" [1])) (.file "a" [2])).2.2 done⟩

end Ramfs

end NanoOs
