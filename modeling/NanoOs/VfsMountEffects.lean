import NanoOs.BootFileSystems
import NanoOs.RamfsInserts

/-!
# What a mount changes

A mount on a path takes effect when the path leads to an inode that is not a
mountpoint yet, at any later time to the same inode, and every other path to
that inode goes through the mounted one.  A mount on the root path, a second
mount on a path, and a mount on an inode that is made anew for every lookup are
recorded but not crossed.
-/

namespace NanoOs.VfsMounts

open Files List

namespace MountTable

variable {Inode : Type} {table : MountTable Inode} {mount : Mount Inode} {inode : Inode}

variable [DecidableEq Inode]

theorem find?_of_not (plain : ¬ table.IsMountpoint inode) :
    (table.mounts.find? fun mount => mount.mountpointInode = inode) = none := by
  rw [find?_eq_none]
  intro mount recorded same
  exact plain ⟨mount, recorded, of_decide_eq_true same⟩

theorem crossMount_of_not (plain : ¬ table.IsMountpoint inode) :
    table.crossMount inode = inode := by
  rw [crossMount, find?_of_not plain]

theorem crossMount_cases (table : MountTable Inode) (inode : Inode) :
    table.crossMount inode = inode ∨
      ∃ mount ∈ table.mounts, table.crossMount inode = mount.root := by
  unfold crossMount
  split
  case h_1 mount found => exact .inr ⟨mount, mem_of_find?_eq_some found, rfl⟩
  case h_2 => exact .inl rfl

theorem crossMount_push_of_ne (other : inode ≠ mount.mountpointInode) :
    (table.push mount).crossMount inode = table.crossMount inode := by
  have last : ([mount].find? fun mount => mount.mountpointInode = inode) = none := by
    rw [find?_singleton, if_neg (by simpa using Ne.symm other)]
  rw [crossMount, push, find?_append, last, Option.or_none, crossMount]

theorem crossMount_push_self (plain : ¬ table.IsMountpoint mount.mountpointInode) :
    (table.push mount).crossMount mount.mountpointInode = mount.root := by
  rw [crossMount, push, find?_append, find?_of_not plain, Option.none_or,
    find?_singleton, if_pos (by simp)]

/-- The first record of a mountpoint hides the later ones. -/
theorem crossMount_push_of_isMountpoint (hidden : table.IsMountpoint mount.mountpointInode)
    (inode : Inode) : (table.push mount).crossMount inode = table.crossMount inode := by
  by_cases same : inode = mount.mountpointInode
  · obtain ⟨first, recorded, isFirst⟩ := hidden
    have found : (table.mounts.find? fun other => other.mountpointInode = inode).isSome := by
      rw [find?_isSome]
      exact ⟨first, recorded, by simpa [same] using isFirst⟩
    rw [crossMount, push, find?_append, Option.or_of_isSome found, crossMount]
  · exact crossMount_push_of_ne same

end MountTable

namespace FileSystems

variable {World Inode : Type} [Preorder World] [DecidableEq Inode]
  {fs : FileSystems World Inode} {table before after : MountTable Inode} {world later : World}
  {node child : World × Inode} {inode root : Inode} {path other name : String}
  {names : List String}

/-- A path leads to a root inode, and from there the names below it are looked
up. -/
def Resolves (fs : FileSystems World Inode) (table : MountTable Inode) (world : World)
    (path : String) (root : Inode) : Prop :=
  ∃ there, fs.vfsLookup table world path = .ok (there, root) ∧
    ∀ rest, fs.vfsLookup table world (path ++ "/" ++ rest) =
      fs.lookupFrom table (there, root) (components rest)

/-- From now on the path leads to the mounted root, and the mount is not seen
from paths that are not below it. -/
def TakesEffect (fs : FileSystems World Inode) (before after : MountTable Inode)
    (world : World) (path : String) (root : Inode) : Prop :=
  ∀ later, world ≤ later → fs.Resolves after later path root ∧
    ∀ other, ¬ components path <+: components other →
      fs.vfsLookup after later other = fs.vfsLookup before later other

/-- The lookup of the last name of a path returns an inode, before a mount on
it is crossed. -/
def LeadsTo (fs : FileSystems World Inode) (table : MountTable Inode) (world : World)
    (path : String) (inode : Inode) : Prop :=
  ∃ parent name node later, components path = parent ++ [name] ∧
    fs.lookupFrom table (world, table.root) parent = .ok node ∧
      fs.lookup node name = .ok (later, inode)

/-- No file system is mounted on the inode yet, and from now on the path leads
to it, and every path that does goes through this one. -/
def Clear (fs : FileSystems World Inode) (table : MountTable Inode) (world : World)
    (path : String) (inode : Inode) : Prop :=
  ¬ table.IsMountpoint inode ∧ ∀ later, world ≤ later → fs.LeadsTo table later path inode ∧
    ∀ other, fs.LeadsTo table later other inode → components path <+: components other

/-- Every mounted root is found at its path, unless there was a later mount on
the path or on a directory above it. -/
def Effective (fs : FileSystems World Inode) (table : MountTable Inode) (world : World) :
    Prop :=
  ∀ earlier record later, table.mounts = earlier ++ record :: later →
    (∀ other ∈ later, ¬ components other.mountpoint <+: components record.mountpoint) →
    ∀ moment, world ≤ moment → fs.Resolves table moment record.mountpoint record.root

/-- The runs in which every mount that succeeds is on a clear path. -/
inductive Careful (fs : FileSystems World Inode) : MountTable Inode → World → Prop
  | init (root : Inode) (world : World) (made : fs.superblock root < fs.superblocks world) :
      Careful fs (.init root) world
  | use {table : MountTable Inode} {world later : World} (careful : Careful fs table world)
      (passed : world ≤ later) : Careful fs table later
  | mount {table : MountTable Inode} {world : World} (careful : Careful fs table world)
      (source : Option String) (path fsName : String)
      (clear : ∀ found inode, fs.vfsLookup table world path = .ok (found, inode) →
        (fs.vfsMountAt table world source path fsName).result = .ok () →
        fs.Clear table (fs.vfsMountAt table world source path fsName).world path inode) :
      Careful fs (fs.vfsMountAt table world source path fsName).table
        (fs.vfsMountAt table world source path fsName).world

theorem lookupComponent_of_ok (looked : fs.lookup node name = .ok child) :
    fs.lookupComponent table node name = .ok (child.1, table.crossMount child.2) := by
  rw [lookupComponent, looked]

theorem lookupComponent_of_error {failure : FileError × World}
    (looked : fs.lookup node name = .error failure) :
    fs.lookupComponent table node name = .error failure := by
  rw [lookupComponent, looked]

theorem lookupFrom_later (node : World × Inode) (names : List String) :
    node.1 ≤ (fs.lookupFrom table node names).world := by
  induction names generalizing node with
  | nil => exact le_rfl
  | cons name names ih =>
    have passed := fs.lookup_later node.1 node.2 name
    rw [lookupFrom, PathWalks.walk]
    cases looked : fs.lookup node name with
    | ok child =>
      rw [looked] at passed
      rw [lookupComponent_of_ok looked]
      exact passed.trans (ih (child.1, table.crossMount child.2))
    | error failure =>
      rw [looked] at passed
      rw [lookupComponent_of_error looked]
      exact passed

theorem Resolves.of_lookup {there : World}
    (found : fs.vfsLookup table world path = .ok (there, root)) :
    fs.Resolves table world path root := by
  refine ⟨there, found, fun rest => ?_⟩
  rw [vfsLookup, components_append]
  exact PathWalks.walk_append_of_ok found (components rest)

def Below (fs : FileSystems World Inode) (table : MountTable Inode) (count : Nat) : Prop :=
  fs.superblock table.root < count ∧ ∀ mount ∈ table.mounts, fs.superblock mount.root < count

/-- A path leads to an inode of a mounted superblock. -/
theorem Below.lookupFrom {count : Nat} (below : fs.Below table count)
    (found : fs.lookupFrom table (world, table.root) names = .ok node) :
    fs.superblock node.2 < count := by
  refine PathWalks.walk_keeps (fun node => fs.superblock node.2 < count) ?_ below.1 found
  intro node name child inside looked
  cases answered : fs.lookup node name with
  | error failure => simp [lookupComponent_of_error answered] at looked
  | ok answer =>
    rw [lookupComponent_of_ok answered, Except.ok.injEq] at looked
    subst looked
    rcases table.crossMount_cases answer.2 with same | ⟨mount, recorded, crossed⟩
    · simpa only [same, fs.lookup_inside answered] using inside
    · simpa only [crossed] using below.2 mount recorded

/-- What `vfs_mount_at` can do. -/
inductive Mounted (fs : FileSystems World Inode) (table : MountTable Inode) (world : World)
    (path : String) : MountOutcome World Inode → Prop
  | failed (error : FileError) {later : World} (passed : world ≤ later) :
      Mounted fs table world path ⟨.error error, table, later⟩
  | pushed {found later : World} {inode root : Inode}
      (looked : fs.vfsLookup table world path = .ok (found, inode)) (searched : world ≤ found)
      (passed : world ≤ later) (new : fs.superblocks found ≤ fs.superblock root)
      (made : fs.superblock root < fs.superblocks later) :
      Mounted fs table world path ⟨.ok (), table.push ⟨inode, path, root⟩, later⟩

theorem vfsMountAt_mounted (fs : FileSystems World Inode) (table : MountTable Inode)
    (world : World) (source : Option String) (path fsName : String) :
    fs.Mounted table world path (fs.vfsMountAt table world source path fsName) := by
  have searched : world ≤ (fs.vfsLookup table world path).world :=
    lookupFrom_later (world, table.root) (components path)
  unfold vfsMountAt
  cases looked : fs.vfsLookup table world path with
  | error failure =>
    rw [looked] at searched
    exact .failed failure.1 searched
  | ok node =>
    rw [looked] at searched
    cases driver? : fs.findFilesystem fsName with
    | none => exact .failed .notFound searched
    | some driver =>
      have registered : driver ∈ fs.filesystems := mem_of_find?_eq_some driver?
      have passed := fs.mount_later driver registered table node.1 source
      dsimp only
      cases mounted : driver.mount table node.1 source with
      | error failure =>
        rw [mounted] at passed
        exact .failed failure.1 (searched.trans passed)
      | ok answer =>
        rw [mounted] at passed
        obtain ⟨new, made⟩ := fs.mount_new driver registered mounted
        exact .pushed looked searched (searched.trans passed) new made

theorem Reached.superblocks_below (reached : fs.Reached table world) :
    fs.Below table (fs.superblocks world) := by
  have wider {table : MountTable Inode} {world later : World}
      (below : fs.Below table (fs.superblocks world)) (passed : world ≤ later) :
      fs.Below table (fs.superblocks later) :=
    ⟨below.1.trans_le (fs.superblocks_mono passed), fun mount recorded =>
      (below.2 mount recorded).trans_le (fs.superblocks_mono passed)⟩
  induction reached with
  | init root world made => exact ⟨made, fun mount recorded => absurd recorded not_mem_nil⟩
  | use _ passed ih => exact wider ih passed
  | @mount table world _ source path fsName ih =>
    have mounted := fs.vfsMountAt_mounted table world source path fsName
    generalize fs.vfsMountAt table world source path fsName = outcome at mounted ⊢
    cases mounted with
    | failed error passed => exact wider ih passed
    | pushed looked searched passed new made =>
      obtain ⟨top, others⟩ := wider ih passed
      refine ⟨top, fun mount recorded => ?_⟩
      rcases mem_append.mp recorded with old | isNew
      · exact others mount old
      · rw [mem_singleton.mp isNew]
        exact made

/-- Where a new record is not crossed, all is looked up as before. -/
theorem lookupFrom_push {mount : Mount Inode}
    (same : ∀ {parent name node later}, parent ++ [name] <+: names →
      fs.lookupFrom table (world, table.root) parent = .ok node →
        fs.lookup node name ≠ .ok (later, mount.mountpointInode)) :
    fs.lookupFrom (table.push mount) (world, table.root) names =
      fs.lookupFrom table (world, table.root) names := by
  refine PathWalks.walk_congr fun {parent name node} inside found => ?_
  cases looked : fs.lookup node name with
  | error failure => rw [lookupComponent_of_error looked, lookupComponent_of_error looked]
  | ok child =>
    have other : child.2 ≠ mount.mountpointInode := by
      intro crossed
      exact same inside found (looked.trans (by rw [← crossed]))
    rw [lookupComponent_of_ok looked, lookupComponent_of_ok looked,
      MountTable.crossMount_push_of_ne other]

section Effects

variable {mount : Mount Inode}

/-- A mount on a clear path is not seen from paths that are not below it. -/
theorem Clear.elsewhere (clear : fs.Clear table world path mount.mountpointInode)
    (passed : world ≤ later) (apart : ¬ components path <+: components other) :
    fs.vfsLookup (table.push mount) later other = fs.vfsLookup table later other := by
  refine lookupFrom_push fun {parent name node there} inside found crossed => apart ?_
  obtain ⟨middle, isMiddle⟩ := exists_components_eq inside
  have below : components path <+: components middle :=
    (clear.2 later passed).2 middle ⟨parent, name, node, there, isMiddle, found, crossed⟩
  exact (isMiddle ▸ below).trans inside

theorem Clear.takesEffect (clear : fs.Clear table world path mount.mountpointInode) :
    fs.TakesEffect table (table.push mount) world path mount.root := by
  intro later passed
  refine ⟨?_, fun other apart => clear.elsewhere passed apart⟩
  obtain ⟨⟨names, name, node, there, split, found, looked⟩, -⟩ := clear.2 later passed
  obtain ⟨parent, rfl, above⟩ := exists_parent split
  have kept : fs.vfsLookup (table.push mount) later parent = .ok node :=
    (clear.elsewhere passed above).trans found
  have crossed : fs.vfsLookup (table.push mount) later path = .ok (there, mount.root) := by
    rw [vfsLookup, split, lookupFrom, PathWalks.walk_concat kept, lookupComponent_of_ok looked,
      MountTable.crossMount_push_self clear.1]
  exact .of_lookup crossed

/-- A second record for a mountpoint changes nothing. -/
theorem lookupFrom_push_of_isMountpoint (hidden : table.IsMountpoint mount.mountpointInode) :
    fs.lookupFrom (table.push mount) = fs.lookupFrom table := by
  have same : fs.lookupComponent (table.push mount) = fs.lookupComponent table := by
    funext node name
    cases looked : fs.lookup node name with
    | error failure => rw [lookupComponent_of_error looked, lookupComponent_of_error looked]
    | ok child =>
      rw [lookupComponent_of_ok looked, lookupComponent_of_ok looked,
        MountTable.crossMount_push_of_isMountpoint hidden]
  funext node names
  rw [lookupFrom, same, lookupFrom]

section

variable (takes : fs.TakesEffect table (table.push mount) world path mount.root)

include takes

theorem TakesEffect.below_of_leadsTo (plain : ¬ table.IsMountpoint mount.mountpointInode)
    (different : mount.mountpointInode ≠ mount.root) (passed : world ≤ later)
    (leads : fs.LeadsTo table later other mount.mountpointInode) :
    components path <+: components other := by
  by_contra apart
  obtain ⟨names, name, node, there, split, found, looked⟩ := leads
  have inside : names <+: components other := split ▸ prefix_append names [name]
  obtain ⟨parent, rfl⟩ := exists_components_eq inside
  have kept : fs.vfsLookup (table.push mount) later parent = .ok node :=
    ((takes later passed).2 parent fun below => apart (below.trans inside)).trans found
  have same := (takes later passed).2 other apart
  rw [vfsLookup, vfsLookup, split, lookupFrom, lookupFrom, PathWalks.walk_concat kept,
    PathWalks.walk_concat found, lookupComponent_of_ok looked, lookupComponent_of_ok looked,
    MountTable.crossMount_push_self plain, MountTable.crossMount_of_not plain] at same
  exact different (Prod.mk.inj (Except.ok.inj same)).2.symm

/-- The mounted root is only found by crossing its mountpoint. -/
theorem TakesEffect.leadsTo
    (unseen : ∀ {moment names node},
      fs.lookupFrom table (moment, table.root) names = .ok node → node.2 ≠ mount.root)
    (passed : world ≤ later) : fs.LeadsTo table later path mount.mountpointInode := by
  obtain ⟨⟨there, found, -⟩, elsewhere⟩ := takes later passed
  rcases eq_nil_or_concat' (components path) with top | ⟨names, name, split⟩
  · rw [vfsLookup, top] at found
    have same : fs.lookupFrom table (later, table.root) [] = .ok (there, mount.root) := found
    exact absurd rfl (unseen same)
  · rw [vfsLookup, split] at found
    obtain ⟨node, foundParent, crossed⟩ := PathWalks.walk_concat_ok found
    obtain ⟨parent, rfl, above⟩ := exists_parent split
    have kept : fs.vfsLookup table later parent = .ok node :=
      (elsewhere parent above).symm.trans foundParent
    cases looked : fs.lookup node name with
    | error failure =>
      rw [lookupComponent_of_error looked] at crossed
      cases crossed
    | ok child =>
      have isMountpoint : child.2 = mount.mountpointInode := by
        by_contra different
        rw [lookupComponent_of_ok looked, MountTable.crossMount_push_of_ne different,
          ← lookupComponent_of_ok looked, ← PathWalks.walk_concat kept] at crossed
        exact unseen crossed rfl
      exact ⟨components parent, name, node, child.1, split, kept, by rw [looked, ← isMountpoint]⟩

/-- A mount that takes effect is on a clear path, since its root is new. -/
theorem TakesEffect.clear {count : Nat} (below : fs.Below table count)
    (new : count ≤ fs.superblock mount.root) (old : fs.superblock mount.mountpointInode < count) :
    fs.Clear table world path mount.mountpointInode := by
  have unseen {moment : World} {names : List String} {node : World × Inode}
      (found : fs.lookupFrom table (moment, table.root) names = .ok node) :
      node.2 ≠ mount.root := by
    intro same
    have := below.lookupFrom found
    rw [same] at this
    omega
  have different : mount.mountpointInode ≠ mount.root := by
    intro same
    rw [same] at old
    omega
  have plain : ¬ table.IsMountpoint mount.mountpointInode := by
    intro hidden
    obtain ⟨⟨there, found, -⟩, -⟩ := takes world le_rfl
    rw [vfsLookup, lookupFrom_push_of_isMountpoint hidden] at found
    exact unseen found rfl
  exact ⟨plain, fun later passed => ⟨takes.leadsTo unseen passed, fun other leads =>
    takes.below_of_leadsTo plain different passed leads⟩⟩

end

end Effects

/-- In a careful run every mounted root is found at its path. -/
theorem Careful.effective (careful : fs.Careful table world) : fs.Effective table world := by
  induction careful with
  | init root world made =>
    intro earlier record later split
    simp [MountTable.init] at split
  | use _ passed ih =>
    intro earlier record later split apart moment after
    exact ih earlier record later split apart moment (passed.trans after)
  | @mount table world _ source path fsName clear ih =>
    have mounted := fs.vfsMountAt_mounted table world source path fsName
    generalize fs.vfsMountAt table world source path fsName = outcome at mounted clear ⊢
    intro earlier record later split apart moment after
    cases mounted with
    | failed error passed => exact ih earlier record later split apart moment (passed.trans after)
    | @pushed found _ inode root looked searched passed new made =>
      have isClear := clear found inode looked rfl
      have takes : fs.TakesEffect table (table.push ⟨inode, path, root⟩) _ path root :=
        Clear.takesEffect isClear
      rcases eq_nil_or_concat' later with rfl | ⟨others, last, rfl⟩
      · obtain ⟨-, isRecord⟩ := append_inj' split rfl
        obtain rfl : ⟨inode, path, root⟩ = record := (cons.inj isRecord).1
        exact (takes moment after).1
      · rw [← cons_append, ← append_assoc] at split
        obtain ⟨before, isLast⟩ := append_inj' split rfl
        obtain rfl : ⟨inode, path, root⟩ = last := (cons.inj isLast).1
        obtain ⟨there, resolved, -⟩ := ih earlier record others before
          (fun other inOthers => apart other (mem_append_left _ inOthers)) moment
          (passed.trans after)
        have outside := apart _ (mem_append_right others mem_cons_self)
        exact .of_lookup (((takes moment after).2 record.mountpoint outside).trans resolved)

end FileSystems

section Boot

variable {boot : Ramfs} {path : String} {arc : Nat}

theorem bootLookup_ramfs (made arc : Nat) (name : String) :
    (bootFileSystems boot).lookup (made, .ramfs 0 arc) name =
      match boot.lookup arc name with
      | .ok child => .ok (made, .ramfs 0 child)
      | .error error => .error (error, made) := rfl

theorem lookupFrom_boot (made : Nat) (names : List String) (arc : Nat) :
    (bootFileSystems boot).lookupFrom (.init (bootRoot boot)) (made, .ramfs 0 arc) names =
      match PathWalks.walk boot.lookup arc names with
      | .ok found => .ok (made, .ramfs 0 found)
      | .error error => .error (error, made) := by
  induction names generalizing arc with
  | nil => rfl
  | cons name names ih =>
    have asked := @bootLookup_ramfs boot made arc name
    rw [FileSystems.lookupFrom, PathWalks.walk, PathWalks.walk]
    cases looked : boot.lookup arc name with
    | ok child =>
      rw [looked] at asked
      rw [FileSystems.lookupComponent_of_ok asked]
      exact ih child
    | error error =>
      rw [looked] at asked
      rw [FileSystems.lookupComponent_of_error asked]

theorem leadsTo_boot {made : Nat} :
    (bootFileSystems boot).LeadsTo (.init (bootRoot boot)) made path (.ramfs 0 arc) ↔
      components path ≠ [] ∧ boot.walk (components path) = .ok arc := by
  constructor
  · rintro ⟨names, name, node, there, split, walked, looked⟩
    have inBoot := walked.symm.trans (lookupFrom_boot made names boot.root)
    cases found : boot.walk names with
    | error error =>
      rw [Ramfs.walk] at found
      rw [found] at inBoot
      cases inBoot
    | ok parent =>
      have foundParent : PathWalks.walk boot.lookup boot.root names = .ok parent := found
      rw [foundParent] at inBoot
      cases inBoot
      rw [bootLookup_ramfs] at looked
      cases child : boot.lookup parent name with
      | error error => simp [child] at looked
      | ok found =>
        rw [child] at looked
        cases looked
        refine ⟨by simp [split], ?_⟩
        rw [Ramfs.walk, split, PathWalks.walk_concat foundParent, child]
  · rintro ⟨below, found⟩
    rcases eq_nil_or_concat' (components path) with top | ⟨names, name, split⟩
    · exact absurd top below
    · rw [Ramfs.walk, split] at found
      obtain ⟨parent, foundParent, looked⟩ := PathWalks.walk_concat_ok found
      refine ⟨names, name, (made, .ramfs 0 parent), made, split, ?_, ?_⟩
      · exact (lookupFrom_boot made names boot.root).trans (by rw [foundParent])
      · rw [bootLookup_ramfs, looked]

theorem clear_boot (reached : boot.Reached) (below : components path ≠ [])
    (found : boot.walk (components path) = .ok arc) (made : Nat) :
    (bootFileSystems boot).Clear (.init (bootRoot boot)) made path (.ramfs 0 arc) := by
  refine ⟨fun ⟨_, recorded, _⟩ => absurd recorded not_mem_nil, fun later _ =>
    ⟨leadsTo_boot.mpr ⟨below, found⟩, fun other leads => ?_⟩⟩
  have same : components path = components other :=
    reached.wellFormed.rooted.path_unique found (leadsTo_boot.mp leads).2
  rw [same]

end Boot

/-- A failed mount changes no lookup.  A mount that succeeds takes effect exactly
when it is on a clear path, and in a run of such mounts every mounted root is
found at its path until a later mount on the path or above it. -/
theorem mount_takes_effect_iff {World Inode : Type} [Preorder World] [DecidableEq Inode]
    (fs : FileSystems World Inode) :
    (∀ table world, fs.Reached table world → ∀ source path fsName outcome,
      fs.vfsMountAt table world source path fsName = outcome →
      (∀ error, outcome.result = .error error → ∀ later other,
        fs.vfsLookup outcome.table later other = fs.vfsLookup table later other) ∧
      (outcome.result = .ok () → ∃ found inode root,
        fs.vfsLookup table world path = .ok (found, inode) ∧
        outcome.table = table.push ⟨inode, path, root⟩ ∧
        (fs.TakesEffect table outcome.table outcome.world path root ↔
          fs.Clear table outcome.world path inode))) ∧
    ∀ table world, fs.Careful table world → fs.Effective table world := by
  refine ⟨?_, fun table world careful => careful.effective⟩
  intro table world reached source path fsName outcome isOutcome
  have mounted := fs.vfsMountAt_mounted table world source path fsName
  rw [isOutcome] at mounted
  cases mounted with
  | failed error passed => exact ⟨fun _ _ _ _ => rfl, fun succeeded => nomatch succeeded⟩
  | @pushed found later inode root looked searched passed new made =>
    refine ⟨fun _ failed => (nomatch failed), fun _ => ⟨found, inode, root, looked, rfl, ?_⟩⟩
    have below := (reached.use searched).superblocks_below
    constructor
    · intro takes
      exact FileSystems.TakesEffect.clear takes below new (below.lookupFrom looked)
    · intro clear
      exact FileSystems.Clear.takesEffect clear

/-- A RAM file system with a directory for `/proc`. -/
def procBoot : Ramfs :=
  ((Insert.dir "proc").apply Ramfs.new).2

theorem procBoot_reached : procBoot.Reached :=
  .insert .new (.dir "proc")

/-- The boot mounts `/proc`. -/
theorem boot_mounts_proc :
    ∃ table world, (bootFileSystems procBoot).vfsMountAt (.init (bootRoot procBoot)) 1 none
        "/proc" "proc" = ⟨.ok (), table, world⟩ ∧
      (bootFileSystems procBoot).TakesEffect (.init (bootRoot procBoot)) table world "/proc"
        (.procDir 1) ∧
      (bootFileSystems procBoot).Effective table world := by
  let start : MountTable BootInode := .init (bootRoot procBoot)
  have mounted : (bootFileSystems procBoot).vfsMountAt start 1 none "/proc" "proc" =
      ⟨.ok (), start.push ⟨.ramfs 0 1, "/proc", .procDir 1⟩, 2⟩ := by
    decide +kernel
  have isDir : procBoot.walk (components "/proc") = .ok 1 := by decide +kernel
  have clear := clear_boot procBoot_reached (by decide +kernel) isDir 2
  have reached : (bootFileSystems procBoot).Reached start 1 := .init _ 1 Nat.one_pos
  obtain ⟨step, run⟩ := mount_takes_effect_iff (bootFileSystems procBoot)
  refine ⟨_, _, mounted, ?_, ?_⟩
  · obtain ⟨found, inode, root, looked, pushed, takes⟩ :=
      (step start 1 reached none "/proc" "proc" _ mounted).2 rfl
    obtain ⟨rfl, -, rfl⟩ : BootInode.ramfs 0 1 = inode ∧ "/proc" = "/proc" ∧
        BootInode.procDir 1 = root := by
      simpa [MountTable.push] using pushed
    exact takes.mpr clear
  · have looked : (bootFileSystems procBoot).vfsLookup start 1 "/proc" =
        .ok (1, .ramfs 0 1) := by
      decide +kernel
    have careful := FileSystems.Careful.mount (.init (bootRoot procBoot) 1 Nat.one_pos) none
      "/proc" "proc" (by
        intro found inode again _
        cases looked.symm.trans again
        rw [mounted]
        exact clear)
    rw [mounted] at careful
    exact run _ _ careful

/-- A mount on the root path, a second mount on a path and a mount on a file of
`/proc` succeed, and the path still leads to what it led to before. -/
theorem mounts_not_crossed :
    let kernel := bootFileSystems procBoot
    let start : MountTable BootInode := .init (bootRoot procBoot)
    let onRoot := kernel.vfsMountAt start 1 none "/" "ramfs"
    let onProc := kernel.vfsMountAt start 1 none "/proc" "proc"
    let again := kernel.vfsMountAt onProc.table onProc.world none "/proc" "ramfs"
    let onFile := kernel.vfsMountAt onProc.table onProc.world none "/proc/version" "ramfs"
    kernel.Reached start 1 ∧ kernel.Reached onProc.table onProc.world ∧
      (onRoot = ⟨.ok (), start.push ⟨bootRoot procBoot, "/", .ramfs 1 0⟩, 2⟩ ∧
        ¬ kernel.TakesEffect start onRoot.table onRoot.world "/" (.ramfs 1 0)) ∧
      (again = ⟨.ok (), onProc.table.push ⟨.procDir 1, "/proc", .ramfs 2 0⟩, 3⟩ ∧
        ¬ kernel.TakesEffect onProc.table again.table again.world "/proc" (.ramfs 2 0)) ∧
      (onFile = ⟨.ok (), onProc.table.push
          ⟨.procFile 1 2 "version", "/proc/version", .ramfs 3 0⟩, 4⟩ ∧
        ¬ kernel.TakesEffect onProc.table onFile.table onFile.world "/proc/version"
          (.ramfs 3 0)) := by
  intro kernel start onRoot onProc again onFile
  have reached : kernel.Reached start 1 := .init _ 1 Nat.one_pos
  refine ⟨reached, .mount reached none "/proc" "proc", ⟨by decide +kernel, ?_⟩,
    ⟨by decide +kernel, ?_⟩, by decide +kernel, ?_⟩
  · intro takes
    obtain ⟨⟨there, found, -⟩, -⟩ := takes onRoot.world le_rfl
    have still : kernel.vfsLookup onRoot.table onRoot.world "/" = .ok (2, .ramfs 0 0) := by
      decide +kernel
    cases still.symm.trans found
  · intro takes
    obtain ⟨⟨there, found, -⟩, -⟩ := takes again.world le_rfl
    have still : kernel.vfsLookup again.table again.world "/proc" = .ok (3, .procDir 1) := by
      decide +kernel
    cases still.symm.trans found
  · intro takes
    obtain ⟨⟨there, found, -⟩, -⟩ := takes onFile.world le_rfl
    have still : kernel.vfsLookup onFile.table onFile.world "/proc/version" =
        .ok (5, .procFile 1 4 "version") := by
      decide +kernel
    cases still.symm.trans found

end NanoOs.VfsMounts
