import NanoOs.Ramfs

/-!
# The tree of a RAM file system

Every inode below the root is the child of one directory under one name, so one
path leads to it.  Creating a directory changes the result of a single path, and
putting an inode under a name only changes the paths through that name.
-/

namespace NanoOs

open Files Function

namespace RamfsNode

variable {node : RamfsNode} {children : String → Option Nat} {name other : String}
  {child : Nat}

def shallow : RamfsNode → RamfsNode
  | .dir _ => .dir fun _ => none
  | node => node

@[simp] theorem lookup_dir :
    (RamfsNode.dir children).lookup name =
      match children name with
      | some child => .ok child
      | none => .error .notFound := rfl

theorem lookup_update :
    (RamfsNode.dir (update children name (some child))).lookup other =
      if other = name then .ok child else (RamfsNode.dir children).lookup other := by
  by_cases same : other = name
  · subst other
    simp
  · simp [same]

theorem eq_dir (isDir : node.fileType = .directory) : ∃ children, node = .dir children := by
  cases node with
  | dir children => exact ⟨children, rfl⟩
  | _ => cases isDir

theorem isDir_of_lookup (found : node.lookup name = .ok child) : node.fileType = .directory := by
  cases node with
  | dir children => rfl
  | _ => cases found

theorem lookup_of_not_dir (noDir : node.fileType ≠ .directory) (name : String) :
    node.lookup name = .error .notADirectory := by
  cases node with
  | dir children => exact absurd rfl noDir
  | _ => rfl

end RamfsNode

def RamfsInode.shallow (inode : RamfsInode) : RamfsInode :=
  { inode with fsData := inode.fsData.shallow }

namespace Ramfs

variable {ramfs before after : Ramfs} {inode : Nat → RamfsInode} {arc parent child dir : Nat}
  {name other : String} {path query : List String} {error : FileError}

def IsDir (ramfs : Ramfs) (arc : Nat) : Prop :=
  (ramfs.inodes arc).fsData.fileType = .directory

theorem isDir_of_lookup (found : ramfs.lookup parent name = .ok child) : ramfs.IsDir parent :=
  RamfsNode.isDir_of_lookup found

/-! ## What the steps of an insert change -/

@[simp] theorem makeInode_arcs : (ramfs.makeInode inode).2.arcs = ramfs.arcs + 1 := rfl

@[simp] theorem makeInode_root : (ramfs.makeInode inode).2.root = ramfs.root := rfl

@[simp] theorem makeInode_nextIno :
    (ramfs.makeInode inode).2.nextIno = (ramfs.nextIno + 1) % 2 ^ 64 := rfl

@[simp] theorem makeInode_self :
    (ramfs.makeInode inode).2.inodes ramfs.arcs = inode ramfs.nextIno :=
  update_self ..

theorem makeInode_ne (old : arc ≠ ramfs.arcs) :
    (ramfs.makeInode inode).2.inodes arc = ramfs.inodes arc :=
  update_of_ne old ..

@[simp] theorem dirInsert_arcs : (ramfs.dirInsert parent name child).arcs = ramfs.arcs := by
  unfold dirInsert
  split <;> rfl

@[simp] theorem dirInsert_root : (ramfs.dirInsert parent name child).root = ramfs.root := by
  unfold dirInsert
  split <;> rfl

@[simp] theorem dirInsert_nextIno :
    (ramfs.dirInsert parent name child).nextIno = ramfs.nextIno := by
  unfold dirInsert
  split <;> rfl

theorem dirInsert_of_not_dir (noDir : ¬ ramfs.IsDir parent) :
    ramfs.dirInsert parent name child = ramfs := by
  unfold dirInsert
  split
  · next children isDir => exact absurd (by rw [IsDir, isDir]; rfl) noDir
  · rfl

theorem dirInsert_shallow :
    ((ramfs.dirInsert parent name child).inodes arc).shallow = (ramfs.inodes arc).shallow := by
  unfold dirInsert
  split
  · next children isDir =>
      by_cases same : arc = parent
      · subst arc
        simp [setChildren, RamfsInode.shallow, isDir, RamfsNode.shallow]
      · simp [setChildren, same]
  · rfl

theorem lookup_dirInsert (isDir : ramfs.IsDir parent) :
    (ramfs.dirInsert parent name child).lookup dir other =
      if dir = parent ∧ other = name then .ok child else ramfs.lookup dir other := by
  obtain ⟨children, isDir⟩ := RamfsNode.eq_dir isDir
  simp only [dirInsert, isDir, setChildren, lookup]
  by_cases same : dir = parent
  · subst dir
    simp only [update_self, true_and, isDir]
    exact RamfsNode.lookup_update
  · rw [update_of_ne same, if_neg fun both => same both.1]

theorem getOrCreateDir_existing (found : ramfs.lookup parent name = .ok child) :
    ramfs.getOrCreateDir parent name = (.ok child, ramfs) := by
  obtain ⟨children, isDir⟩ := RamfsNode.eq_dir (isDir_of_lookup found)
  simp only [lookup, isDir, RamfsNode.lookup_dir] at found
  simp only [getOrCreateDir, isDir]
  cases entry : children name with
  | some existing =>
    rw [entry] at found
    cases found
    rfl
  | none =>
    rw [entry] at found
    cases found

theorem getOrCreateDir_missing (made : parent < ramfs.arcs) (isDir : ramfs.IsDir parent)
    (missing : ramfs.lookup parent name = .error error) :
    ramfs.getOrCreateDir parent name =
      (.ok ramfs.arcs, ramfs.makeDirInode.2.dirInsert parent name ramfs.arcs) := by
  obtain ⟨children, isDir⟩ := RamfsNode.eq_dir isDir
  simp only [lookup, isDir, RamfsNode.lookup_dir] at missing
  have kept : (ramfs.makeDirInode.2.inodes parent).fsData = .dir children := by
    rw [makeDirInode, makeInode_ne made.ne, isDir]
  simp only [getOrCreateDir, isDir, dirInsert, kept]
  cases entry : children name with
  | some existing =>
    rw [entry] at missing
    cases missing
  | none => rfl

theorem getOrCreateDir_blocked (noDir : ¬ ramfs.IsDir parent) :
    ramfs.getOrCreateDir parent name = (.error .invalidInput, ramfs) := by
  unfold getOrCreateDir
  split
  · next children isDir => exact absurd (by rw [IsDir, isDir]; rfl) noDir
  · rfl

theorem isDir_of_missing (missing : ramfs.lookup parent name = .error .notFound) :
    ramfs.IsDir parent := by
  by_contra noDir
  rw [lookup, RamfsNode.lookup_of_not_dir noDir] at missing
  cases missing

theorem lookup_missing (isDir : ramfs.IsDir parent)
    (missing : ramfs.lookup parent name = .error error) : error = .notFound := by
  obtain ⟨children, isDir⟩ := RamfsNode.eq_dir isDir
  simp only [lookup, isDir, RamfsNode.lookup_dir] at missing
  split at missing <;> cases missing
  rfl

/-! ## The tree -/

/-- One path leads to each inode of the tree, and inode numbers count the inodes
made. -/
structure WellFormed (ramfs : Ramfs) : Prop where
  rooted : PathWalks.Rooted ramfs.lookup ramfs.root
  rootMade : ramfs.root < ramfs.arcs
  rootDir : ramfs.IsDir ramfs.root
  made : ∀ {dir name child}, ramfs.lookup dir name = .ok child →
    dir < ramfs.arcs ∧ child < ramfs.arcs
  kinds : ∀ arc, (ramfs.inodes arc).fileType = (ramfs.inodes arc).fsData.fileType
  inos : ∀ arc < ramfs.arcs, (ramfs.inodes arc).ino = (arc + 1) % 2 ^ 64
  next : ramfs.nextIno = (ramfs.arcs + 1) % 2 ^ 64

structure Loose (ramfs : Ramfs) (arc : Nat) : Prop where
  made : arc < ramfs.arcs
  notRoot : arc ≠ ramfs.root
  notChild : ∀ dir name, ramfs.lookup dir name ≠ .ok arc

/-- An inode to be made: it has the number it is given, and no children. -/
structure Makes (inode : Nat → RamfsInode) : Prop where
  ino : ∀ ino, (inode ino).ino = ino
  kind : ∀ ino, (inode ino).fileType = (inode ino).fsData.fileType
  childless : ∀ ino name child, (inode ino).fsData.lookup name ≠ .ok child

theorem makes_dirInode : Makes dirInode where
  ino _ := rfl
  kind _ := rfl
  childless _ _ _ found := by cases found

theorem makes_fileInode (data : List UInt8) : Makes (fileInode data) where
  ino _ := rfl
  kind _ := rfl
  childless _ _ _ found := by cases found

theorem makes_devInode (device : DeviceType) (major minor : UInt32) :
    Makes (devInode device major minor) where
  ino _ := rfl
  kind _ := by cases device <;> rfl
  childless _ _ _ found := by cases device <;> cases found

theorem wellFormed_new : new.WellFormed where
  rooted :=
    { single := fun found => by cases found
      top := fun _ _ found => by cases found }
  rootMade := by decide
  rootDir := rfl
  made found := by cases found
  kinds _ := rfl
  inos arc small := by
    obtain rfl : arc = 0 := by
      have : arc < 1 := small
      omega
    rfl
  next := rfl

theorem lookup_makeInode_ne (old : dir ≠ ramfs.arcs) :
    (ramfs.makeInode inode).2.lookup dir name = ramfs.lookup dir name := by
  rw [lookup, makeInode_ne old, lookup]

theorem lookup_makeInode_ok (makes : Makes inode) :
    (ramfs.makeInode inode).2.lookup dir name = .ok child →
      ramfs.lookup dir name = .ok child := by
  intro found
  by_cases same : dir = ramfs.arcs
  · subst dir
    rw [lookup, makeInode_self] at found
    exact absurd found (makes.childless _ _ _)
  · rwa [lookup_makeInode_ne same] at found

theorem WellFormed.makeInode (wellFormed : ramfs.WellFormed) (makes : Makes inode) :
    (ramfs.makeInode inode).2.WellFormed where
  rooted :=
    { single := fun first second =>
        wellFormed.rooted.single (lookup_makeInode_ok makes first)
          (lookup_makeInode_ok makes second)
      top := fun dir name found =>
        wellFormed.rooted.top dir name (lookup_makeInode_ok makes found) }
  rootMade := Nat.lt_succ_of_lt wellFormed.rootMade
  rootDir := by
    rw [makeInode_root, IsDir, makeInode_ne wellFormed.rootMade.ne]
    exact wellFormed.rootDir
  made found := by
    have := wellFormed.made (lookup_makeInode_ok makes found)
    rw [makeInode_arcs]
    omega
  kinds arc := by
    by_cases same : arc = ramfs.arcs
    · rw [same, makeInode_self]
      exact makes.kind _
    · rw [makeInode_ne same]
      exact wellFormed.kinds arc
  inos arc small := by
    by_cases same : arc = ramfs.arcs
    · rw [same, makeInode_self, makes.ino, wellFormed.next]
    · rw [makeInode_ne same]
      rw [makeInode_arcs] at small
      exact wellFormed.inos arc (by omega)
  next := by
    rw [makeInode_nextIno, makeInode_arcs, wellFormed.next]
    omega

theorem WellFormed.loose_makeInode (wellFormed : ramfs.WellFormed) (makes : Makes inode) :
    (ramfs.makeInode inode).2.Loose ramfs.arcs where
  made := Nat.lt_succ_self _
  notRoot := wellFormed.rootMade.ne'
  notChild _ _ found := (wellFormed.made (lookup_makeInode_ok makes found)).2.ne rfl

theorem Loose.makeInode (loose : ramfs.Loose arc) (makes : Makes inode) :
    (ramfs.makeInode inode).2.Loose arc where
  made := Nat.lt_succ_of_lt loose.made
  notRoot := loose.notRoot
  notChild dir name found := loose.notChild dir name (lookup_makeInode_ok makes found)

section

variable (same : (after.inodes arc).shallow = (before.inodes arc).shallow)

include same

theorem fileType_of_shallow :
    (after.inodes arc).fsData.fileType = (before.inodes arc).fsData.fileType := by
  have data := congrArg (fun inode => inode.fsData.fileType) same
  have kept : ∀ node : RamfsNode, node.shallow.fileType = node.fileType := by
    intro node
    cases node <;> rfl
  simpa only [RamfsInode.shallow, kept] using data

theorem isDir_of_shallow : after.IsDir arc ↔ before.IsDir arc := by
  rw [IsDir, IsDir, fileType_of_shallow same]

/-- Where there is no directory nothing can change. -/
theorem eq_of_shallow (noDir : ¬ before.IsDir arc) : after.inodes arc = before.inodes arc := by
  have whole : ∀ inode : RamfsInode, inode.fsData.fileType ≠ .directory →
      inode.shallow = inode := by
    rintro ⟨⟨ino, fileType, len, node⟩, rdev⟩ noDir
    cases node with
    | dir children => exact absurd rfl noDir
    | _ => rfl
  have noDirAfter : ¬ after.IsDir arc := by rwa [isDir_of_shallow same]
  rwa [whole _ noDir, whole _ noDirAfter] at same

end

theorem WellFormed.dirInsert (wellFormed : ramfs.WellFormed) (made : parent < ramfs.arcs)
    (isDir : ramfs.IsDir parent) (loose : ramfs.Loose child) :
    (ramfs.dirInsert parent name child).WellFormed where
  rooted :=
    { single := by
        intro first second firstName secondName arc found again
        rw [lookup_dirInsert isDir] at found again
        split at found <;> split at again
        · next here there => exact ⟨here.1.trans there.1.symm, here.2.trans there.2.symm⟩
        · cases found
          exact absurd again (loose.notChild _ _)
        · cases again
          exact absurd found (loose.notChild _ _)
        · exact wellFormed.rooted.single found again
      top := by
        intro dir other found
        rw [lookup_dirInsert isDir, dirInsert_root] at found
        split at found
        · cases found
          exact loose.notRoot rfl
        · exact wellFormed.rooted.top _ _ found }
  rootMade := by
    rw [dirInsert_root, dirInsert_arcs]
    exact wellFormed.rootMade
  rootDir := by
    rw [dirInsert_root, isDir_of_shallow dirInsert_shallow]
    exact wellFormed.rootDir
  made found := by
    rw [lookup_dirInsert isDir] at found
    rw [dirInsert_arcs]
    split at found
    · next here =>
        cases found
        exact ⟨here.1 ▸ made, loose.made⟩
    · exact wellFormed.made found
  kinds arc := by
    have same := @dirInsert_shallow ramfs arc parent child name
    rw [fileType_of_shallow same, ← wellFormed.kinds]
    exact congrArg (fun inode => inode.fileType) same
  inos arc small := by
    rw [dirInsert_arcs] at small
    rw [← wellFormed.inos arc small]
    exact congrArg (fun inode => inode.ino) (@dirInsert_shallow ramfs arc parent child name)
  next := by
    rw [dirInsert_nextIno, dirInsert_arcs]
    exact wellFormed.next

theorem Loose.dirInsert (loose : ramfs.Loose arc) (isDir : ramfs.IsDir parent)
    (different : arc ≠ child) : (ramfs.dirInsert parent name child).Loose arc where
  made := by
    rw [dirInsert_arcs]
    exact loose.made
  notRoot := by
    rw [dirInsert_root]
    exact loose.notRoot
  notChild dir other found := by
    rw [lookup_dirInsert isDir] at found
    split at found
    · cases found
      exact different rfl
    · exact loose.notChild dir other found

theorem WellFormed.walk_made (wellFormed : ramfs.WellFormed) (found : ramfs.walk path = .ok arc) :
    arc < ramfs.arcs :=
  PathWalks.walk_keeps (· < ramfs.arcs) (fun _ looked => (wellFormed.made looked).2)
    wellFormed.rootMade found

theorem WellFormed.walk_makeInode (wellFormed : ramfs.WellFormed) :
    (ramfs.makeInode inode).2.walk path = ramfs.walk path :=
  PathWalks.walk_congr fun _ found =>
    lookup_makeInode_ne (wellFormed.walk_made found).ne

theorem agreeBut_dirInsert (isDir : ramfs.IsDir parent) :
    PathWalks.AgreeBut ramfs.lookup (ramfs.dirInsert parent name child).lookup ramfs.root
      parent name := by
  intro path node other _ apart
  rw [lookup_dirInsert isDir, if_neg fun both => apart.elim (· both.1) (· both.2)]

/-- Putting an inode under a name changes only the paths through the name. -/
theorem WellFormed.walk_dirInsert_elsewhere (wellFormed : ramfs.WellFormed)
    (isDir : ramfs.IsDir parent) (found : ramfs.walk path = .ok parent)
    (apart : ¬ path ++ [name] <+: query) :
    (ramfs.dirInsert parent name child).walk query = ramfs.walk query := by
  rw [walk, dirInsert_root]
  exact wellFormed.rooted.walk_elsewhere (agreeBut_dirInsert isDir) found apart

theorem WellFormed.walk_dirInsert (wellFormed : ramfs.WellFormed) (isDir : ramfs.IsDir parent)
    (found : ramfs.walk path = .ok parent) :
    (ramfs.dirInsert parent name child).walk (path ++ [name]) = .ok child := by
  rw [walk, dirInsert_root]
  refine wellFormed.rooted.walk_entry (agreeBut_dirInsert isDir) found ?_
  rw [lookup_dirInsert isDir, if_pos ⟨rfl, rfl⟩]

/-! ## Creating the directories of a path -/

/-- What creating the directories of a path leaves: the inodes there were are
kept, and only missing directories of the path appear. -/
structure Created (before after : Ramfs) (path : List String) (last : Nat) : Prop where
  wellFormed : after.WellFormed
  grows : before.arcs ≤ after.arcs
  loose : ∀ {arc}, before.Loose arc → after.Loose arc
  kept : ∀ arc < before.arcs, (after.inodes arc).shallow = (before.inodes arc).shallow
  found : after.walk path = .ok last
  changes : ∀ query, after.walk query = before.walk query ∨
    query <+: path ∧ before.walk query = .error .notFound ∧
      ∃ arc, after.walk query = .ok arc ∧ after.IsDir arc

theorem WellFormed.created_nil (wellFormed : ramfs.WellFormed)
    (found : ramfs.walk path = .ok arc) : Created ramfs ramfs path arc where
  wellFormed := wellFormed
  grows := le_rfl
  loose := id
  kept _ _ := rfl
  found := found
  changes _ := .inl rfl

theorem Created.trans {middle : Ramfs} {last end' : Nat} (first : Created before middle path last)
    (second : Created middle after (path ++ query) end') :
    Created before after (path ++ query) end' where
  wellFormed := second.wellFormed
  grows := first.grows.trans second.grows
  loose unused := second.loose (first.loose unused)
  kept arc small :=
    (second.kept arc (small.trans_le first.grows)).trans (first.kept arc small)
  found := second.found
  changes search := by
    rcases second.changes search with same | ⟨inside, missing, present⟩
    · rcases first.changes search with same' | ⟨inside, missing, arc, present, isDir⟩
      · exact .inl (same.trans same')
      · refine .inr ⟨inside.trans (List.prefix_append _ _), missing, arc, same.trans present, ?_⟩
        rwa [isDir_of_shallow (second.kept arc (first.wellFormed.walk_made present))]
    · rcases first.changes search with same' | ⟨_, _, arc, present', _⟩
      · exact .inr ⟨inside, same'.symm.trans missing, present⟩
      · rw [missing] at present'
        cases present'

theorem lookup_newDir (small : parent < ramfs.arcs) (isDir : ramfs.IsDir parent)
    (other : String) :
    (ramfs.makeDirInode.2.dirInsert parent name ramfs.arcs).lookup ramfs.arcs other =
      .error .notFound := by
  have madeDir : ramfs.makeDirInode.2.IsDir parent := by
    rw [IsDir, makeDirInode, makeInode_ne small.ne]
    exact isDir
  rw [lookup_dirInsert madeDir, if_neg fun both => small.ne' both.1, lookup, makeDirInode,
    makeInode_self]
  rfl

theorem WellFormed.created_one (wellFormed : ramfs.WellFormed)
    (found : ramfs.walk path = .ok parent)
    (missing : ramfs.lookup parent name = .error .notFound) :
    Created ramfs (ramfs.makeDirInode.2.dirInsert parent name ramfs.arcs) (path ++ [name])
      ramfs.arcs := by
  have small := wellFormed.walk_made found
  have isDir := isDir_of_missing missing
  have madeDir : ramfs.makeDirInode.2.IsDir parent := by
    rw [IsDir, makeDirInode, makeInode_ne small.ne]
    exact isDir
  have made := wellFormed.makeInode makes_dirInode
  have sameWalk : ∀ query, ramfs.makeDirInode.2.walk query = ramfs.walk query :=
    fun _ => wellFormed.walk_makeInode
  have stillMissing : ramfs.makeDirInode.2.lookup parent name = .error .notFound :=
    (lookup_makeInode_ne small.ne).trans missing
  have walks : ∀ query, (ramfs.makeDirInode.2.dirInsert parent name ramfs.arcs).walk query =
      if query = path ++ [name] then .ok ramfs.arcs else ramfs.walk query := by
    intro query
    rw [walk, dirInsert_root, ← sameWalk]
    refine made.rooted.walk_create (agreeBut_dirInsert madeDir) ((sameWalk path).trans found)
      stillMissing ?_ (lookup_newDir small isDir)
    rw [lookup_dirInsert madeDir, if_pos ⟨rfl, rfl⟩]
  exact
    { wellFormed := made.dirInsert (Nat.lt_succ_of_lt small) madeDir
        (wellFormed.loose_makeInode makes_dirInode)
      grows := by
        rw [dirInsert_arcs]
        exact Nat.le_succ _
      loose := fun unused =>
        (unused.makeInode makes_dirInode).dirInsert madeDir unused.made.ne
      kept := fun arc small => by rw [dirInsert_shallow, makeDirInode, makeInode_ne small.ne]
      found := by rw [walks, if_pos rfl]
      changes := fun query => by
        by_cases here : query = path ++ [name]
        · refine .inr ⟨here ▸ List.prefix_refl _, ?_, ramfs.arcs, ?_, ?_⟩
          · rw [here, walk, PathWalks.walk_concat found, missing]
          · rw [walks, if_pos here]
          · rw [isDir_of_shallow dirInsert_shallow, IsDir, makeDirInode, makeInode_self]
            rfl
        · exact .inl (by rw [walks, if_neg here]) }

theorem createDirs_existing (found : PathWalks.walk ramfs.lookup arc path = .ok child) :
    ramfs.createDirs arc path = (.ok child, ramfs) := by
  induction path generalizing arc with
  | nil =>
    cases found
    rfl
  | cons name rest ih =>
    rw [PathWalks.walk] at found
    cases looked : ramfs.lookup arc name with
    | ok next =>
      rw [looked] at found
      rw [createDirs, getOrCreateDir_existing looked]
      exact ih found
    | error error => simp [looked] at found

theorem createDirs_missing (made : parent < ramfs.arcs)
    (missing : ramfs.lookup parent name = .error .notFound) (rest : List String) :
    ramfs.createDirs parent (name :: rest) =
      (ramfs.makeDirInode.2.dirInsert parent name ramfs.arcs).createDirs ramfs.arcs rest := by
  rw [createDirs, getOrCreateDir_missing made (isDir_of_missing missing) missing]

theorem createDirs_empty (made : arc < ramfs.arcs)
    (empty : ∀ name, ramfs.lookup arc name = .error .notFound) (names : List String) :
    ∃ last, (ramfs.createDirs arc names).1 = .ok last := by
  induction names generalizing ramfs arc with
  | nil => exact ⟨arc, rfl⟩
  | cons name rest ih =>
    rw [createDirs_missing made (empty name)]
    refine ih ?_ (lookup_newDir made (isDir_of_missing (empty name)))
    rw [dirInsert_arcs]
    exact Nat.lt_succ_self _

/-- The directories are created, or the first that is in the way stops before
anything has changed. -/
theorem WellFormed.createDirs (wellFormed : ramfs.WellFormed)
    (found : ramfs.walk path = .ok arc) (names : List String) :
    (∃ last after, ramfs.createDirs arc names = (.ok last, after) ∧
      Created ramfs after (path ++ names) last) ∨
    ramfs.createDirs arc names = (.error .invalidInput, ramfs) := by
  induction names generalizing ramfs path arc with
  | nil =>
    refine .inl ⟨arc, ramfs, rfl, ?_⟩
    rw [List.append_nil]
    exact wellFormed.created_nil found
  | cons name rest ih =>
    rw [List.append_cons]
    cases looked : ramfs.lookup arc name with
    | ok child =>
      have foundChild : ramfs.walk (path ++ [name]) = .ok child := by
        rw [walk, PathWalks.walk_concat found, looked]
      rw [Ramfs.createDirs, getOrCreateDir_existing looked]
      exact ih wellFormed foundChild
    | error error =>
      by_cases isDir : ramfs.IsDir arc
      · obtain rfl := lookup_missing isDir looked
        have small := wellFormed.walk_made found
        have one := wellFormed.created_one found looked
        rw [createDirs_missing small looked]
        rcases ih one.wellFormed one.found with ⟨last, after, created, effect⟩ | failed
        · exact .inl ⟨last, after, created, one.trans effect⟩
        · -- a directory was made, so the rest of the path cannot fail
          obtain ⟨last, succeeded⟩ := createDirs_empty
            (one.wellFormed.walk_made one.found) (lookup_newDir small isDir) rest
          rw [failed] at succeeded
          cases succeeded
      · right
        rw [Ramfs.createDirs, getOrCreateDir_blocked isDir]

theorem WellFormed.createDirs_root (wellFormed : ramfs.WellFormed) (names : List String) :
    (∃ last after, ramfs.createDirs ramfs.root names = (.ok last, after) ∧
      Created ramfs after names last) ∨
    ramfs.createDirs ramfs.root names = (.error .invalidInput, ramfs) := by
  have start : ramfs.walk [] = .ok ramfs.root := rfl
  exact wellFormed.createDirs start names

end Ramfs

end NanoOs
