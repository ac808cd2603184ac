import Mathlib.Data.List.Induction
import Mathlib.Tactic.Ring

/-!
# Walks through linked tables

Tables of a fixed height that share a store.  A path of indices is followed
through links to a table, or to a leaf.  Every link goes one level down, and a
table has one parent unless it is shared.  The rules say what editing one
entry, hanging a subtree elsewhere, or rewriting the leaves of some tables does
to every walk.
-/

namespace NanoOs.RadixTables

open Function List

inductive Entry (Location : Type*)
  | invalid
  | pointer (table : Location)
  | leaf (value : Nat)

variable {Location : Type*}

def reach (store : Location → Nat → Entry Location) : Location → List Nat → Option Location
  | table, [] => some table
  | table, index :: rest =>
      match store table index with
      | .pointer next => reach store next rest
      | .leaf _ => none
      | .invalid => none

/-- The leaf that a path leads to, and how many indices of the path are left. -/
def lookup (store : Location → Nat → Entry Location) : Location → List Nat → Option (Nat × Nat)
  | _, [] => none
  | table, index :: rest =>
      match store table index with
      | .pointer next => lookup store next rest
      | .leaf value => some (value, rest.length)
      | .invalid => none

def mapLeaf (change : Nat → Nat) : Entry Location → Entry Location
  | .pointer next => .pointer next
  | .leaf value => .leaf (change value)
  | .invalid => .invalid

def Within (width : Nat) (path : List Nat) : Prop := ∀ index ∈ path, index < width

def Passes (store : Location → Nat → Entry Location) (root : Location) (path : List Nat)
    (table : Location) (index : Nat) : Prop :=
  ∃ before after, path = before ++ index :: after ∧ reach store root before = some table

/-- Links go one level down, and only shared tables have several parents. -/
structure Forest (width : Nat) (store : Location → Nat → Entry Location)
    (rank : Location → Option Nat) (shared : Location → Prop) : Prop where
  lower : ∀ table height, rank table = some height → ∀ index < width, ∀ target,
    store table index = .pointer target → ∃ below, height = below + 1 ∧ rank target = some below
  parent : ∀ first second, rank first ≠ none → rank second ≠ none →
    ∀ index < width, ∀ slot < width, ∀ target, ¬ shared target →
      store first index = .pointer target → store second slot = .pointer target →
        first = second ∧ index = slot
  bottom : ∀ table, shared table → rank table = some 0

def SameBut (width : Nat) (rank : Location → Option Nat)
    (store changed : Location → Nat → Entry Location) (table : Location) (index : Nat) : Prop :=
  ∀ other, rank other ≠ none → ∀ slot < width, ¬ (other = table ∧ slot = index) →
    changed other slot = store other slot

variable {width : Nat} {store changed : Location → Nat → Entry Location}
  {rank : Location → Option Nat} {shared : Location → Prop}
  {root table child target : Location} {path before after : List Nat}
  {index slot last height below value : Nat}

theorem ranked (isRanked : rank table = some height) : rank table ≠ none := by
  rw [isRanked]
  exact Option.some_ne_none height

theorem within_cons : Within width (index :: path) ↔ index < width ∧ Within width path := by
  simp [Within]

theorem within_append : Within width (before ++ after) ↔
    Within width before ∧ Within width after := by
  simp [Within, or_imp, forall_and]

section Steps

theorem reach_cons_pointer (link : store root index = .pointer target) :
    reach store root (index :: path) = reach store target path := by
  rw [reach, link]

theorem reach_cons_leaf (leaf : store root index = .leaf value) :
    reach store root (index :: path) = none := by
  rw [reach, leaf]

theorem lookup_cons_pointer (link : store root index = .pointer target) :
    lookup store root (index :: path) = lookup store target path := by
  rw [lookup, link]

theorem lookup_cons_leaf (leaf : store root index = .leaf value) :
    lookup store root (index :: path) = some (value, path.length) := by
  rw [lookup, leaf]

theorem reach_cons_invalid (missing : store root index = .invalid) :
    reach store root (index :: path) = none := by
  rw [reach, missing]

theorem lookup_cons_invalid (missing : store root index = .invalid) :
    lookup store root (index :: path) = none := by
  rw [lookup, missing]

theorem reach_empty (empty : ∀ slot < width, store root slot = .invalid)
    (within : Within width path) (some : path ≠ []) : reach store root path = none := by
  cases path with
  | nil => exact absurd rfl some
  | cons slot path => exact reach_cons_invalid (empty slot (within_cons.mp within).1)

theorem lookup_empty (empty : ∀ slot < width, store root slot = .invalid)
    (within : Within width path) : lookup store root path = none := by
  cases path with
  | nil => rfl
  | cons slot path => exact lookup_cons_invalid (empty slot (within_cons.mp within).1)

theorem pointer_of_reach (reached : reach store root (index :: path) = some target) :
    ∃ next, store root index = .pointer next ∧ reach store next path = some target := by
  cases entry : store root index with
  | pointer next => exact ⟨next, rfl, (reach_cons_pointer entry).symm.trans reached⟩
  | leaf value => exact absurd ((reach_cons_leaf entry).symm.trans reached) nofun
  | invalid => exact absurd ((reach_cons_invalid entry).symm.trans reached) nofun

theorem pointer_of_lookup {found level : Nat}
    (isFound : lookup store root (index :: path) = some (found, level))
    (below : level < path.length) :
    ∃ next, store root index = .pointer next ∧ lookup store next path = some (found, level) := by
  cases entry : store root index with
  | pointer next => exact ⟨next, rfl, (lookup_cons_pointer entry).symm.trans isFound⟩
  | leaf value =>
    rw [lookup_cons_leaf entry] at isFound
    cases isFound
    exact absurd below (Nat.lt_irrefl _)
  | invalid => exact absurd ((lookup_cons_invalid entry).symm.trans isFound) nofun

theorem walk_append (reached : reach store root before = some table) :
    reach store root (before ++ after) = reach store table after ∧
      lookup store root (before ++ after) = lookup store table after := by
  induction before generalizing root with
  | nil =>
    cases reached
    exact ⟨rfl, rfl⟩
  | cons index before ih =>
    obtain ⟨next, link, rest⟩ := pointer_of_reach reached
    rw [cons_append, reach_cons_pointer link, lookup_cons_pointer link]
    exact ih rest

theorem reach_concat : reach store root (before ++ [index]) = some target ↔
    ∃ table, reach store root before = some table ∧ store table index = .pointer target := by
  induction before generalizing root with
  | nil =>
    constructor
    · intro reached
      obtain ⟨next, link, rest⟩ := pointer_of_reach reached
      cases rest
      exact ⟨root, rfl, link⟩
    · rintro ⟨table, reached, link⟩
      cases reached
      exact reach_cons_pointer link
  | cons first before ih =>
    constructor
    · intro reached
      obtain ⟨next, link, rest⟩ := pointer_of_reach reached
      obtain ⟨table, reachedTable, last⟩ := ih.mp rest
      exact ⟨table, (reach_cons_pointer link).trans reachedTable, last⟩
    · rintro ⟨table, reached, last⟩
      obtain ⟨next, link, rest⟩ := pointer_of_reach reached
      exact (reach_cons_pointer link).trans (ih.mpr ⟨table, rest, last⟩)

theorem lookup_of_unreached (unreached : reach store root path = none) (index slot : Nat) :
    lookup store root (path ++ [index]) = lookup store root (path ++ [slot]) := by
  induction path generalizing root with
  | nil => cases unreached
  | cons first path ih =>
    cases entry : store root first with
    | pointer next =>
      rw [cons_append, cons_append, lookup_cons_pointer entry, lookup_cons_pointer entry]
      exact ih ((reach_cons_pointer entry).symm.trans unreached)
    | leaf value => simp [lookup, entry]
    | invalid => simp [lookup, entry]

theorem walk_cons (entryEq : changed root index = store root index)
    (rest : ∀ next, store root index = .pointer next →
      reach changed next path = reach store next path ∧
        lookup changed next path = lookup store next path) :
    reach changed root (index :: path) = reach store root (index :: path) ∧
      lookup changed root (index :: path) = lookup store root (index :: path) := by
  cases entry : store root index with
  | pointer next =>
    rw [entry] at entryEq
    rw [reach_cons_pointer entryEq, reach_cons_pointer entry, lookup_cons_pointer entryEq,
      lookup_cons_pointer entry]
    exact rest next entry
  | leaf value => simp [reach, lookup, entryEq, entry]
  | invalid => simp [reach, lookup, entryEq, entry]

end Steps

namespace Forest

variable (forest : Forest width store rank shared)

include forest

theorem reach_rank (isRanked : rank root = some height) (within : Within width path)
    (reached : reach store root path = some table) :
    ∃ below, height = below + path.length ∧ rank table = some below := by
  induction path generalizing root height with
  | nil =>
    cases reached
    exact ⟨height, rfl, isRanked⟩
  | cons index path ih =>
    obtain ⟨next, link, rest⟩ := pointer_of_reach reached
    obtain ⟨inRange, restWithin⟩ := within_cons.mp within
    obtain ⟨step, stepEq, nextRanked⟩ := forest.lower root height isRanked index inRange next link
    obtain ⟨below, belowEq, tableRanked⟩ := ih nextRanked restWithin rest
    refine ⟨below, ?_, tableRanked⟩
    rw [length_cons]
    omega

theorem not_shared_of_pointer (inRange : index < width)
    (link : store table index = .pointer target) : ¬ shared table := by
  intro isShared
  obtain ⟨below, heightEq, -⟩ :=
    forest.lower table 0 (forest.bottom table isShared) index inRange target link
  omega

/-- Only one path leads to a table that is not shared. -/
theorem reach_unique {second : Location} {other : List Nat} {secondHeight : Nat}
    (isRanked : rank root = some height) (within : Within width path)
    (secondRanked : rank second = some secondHeight) (otherWithin : Within width other)
    (sameLength : path.length = other.length) (notShared : ¬ shared table)
    (reached : reach store root path = some table)
    (otherReached : reach store second other = some table) :
    root = second ∧ path = other := by
  induction path using reverseRecOn generalizing table other with
  | nil =>
    obtain rfl := length_eq_zero_iff.mp sameLength.symm
    cases reached
    cases otherReached
    exact ⟨rfl, rfl⟩
  | append_singleton path index ih =>
    induction other using reverseRecOn with
    | nil => simp at sameLength
    | append_singleton other slot _ =>
      obtain ⟨parent, parentReached, link⟩ := reach_concat.mp reached
      obtain ⟨otherParent, otherParentReached, otherLink⟩ := reach_concat.mp otherReached
      obtain ⟨pathWithin, indexWithin⟩ := within_append.mp within
      obtain ⟨restWithin, slotWithin⟩ := within_append.mp otherWithin
      have indexRange := indexWithin index (mem_singleton_self index)
      have slotRange := slotWithin slot (mem_singleton_self slot)
      obtain ⟨_, -, parentRanked⟩ := forest.reach_rank isRanked pathWithin parentReached
      obtain ⟨_, -, otherParentRanked⟩ :=
        forest.reach_rank secondRanked restWithin otherParentReached
      obtain ⟨rfl, rfl⟩ := forest.parent parent otherParent (ranked parentRanked)
        (ranked otherParentRanked) index indexRange slot slotRange table notShared link otherLink
      have lengths : path.length = other.length := by simpa using sameLength
      obtain ⟨sameRoot, samePath⟩ := ih pathWithin restWithin lengths
        (forest.not_shared_of_pointer indexRange link) parentReached
        otherParentReached
      exact ⟨sameRoot, by rw [samePath]⟩

/-- A walk that uses an entry of a lowest table uses it last. -/
theorem passes_concat (isRanked : rank root = some path.length)
    (within : Within width (path ++ [last])) (isBottom : rank table = some 0) :
    Passes store root (path ++ [last]) table index ↔
      reach store root path = some table ∧ last = index := by
  constructor
  · rintro ⟨before, after, pathEq, reached⟩
    have beforeWithin : Within width before := by
      rw [pathEq] at within
      exact (within_append.mp within).1
    obtain ⟨below, heightEq, tableRanked⟩ := forest.reach_rank isRanked beforeWithin reached
    rw [isBottom] at tableRanked
    cases tableRanked
    have lengths := congrArg length pathEq
    simp only [length_append, length_cons, length_nil] at lengths
    obtain rfl : after = [] := length_eq_zero_iff.mp (by omega)
    obtain ⟨rfl, lastEq⟩ := append_inj' pathEq rfl
    exact ⟨reached, (cons.inj lastEq).1⟩
  · rintro ⟨reached, rfl⟩
    exact ⟨path, [], rfl, reached⟩

/-- A walk that uses an entry of a table that is not shared comes the one way to it. -/
theorem passes_unique {other : Location} (isRanked : rank root = some height)
    (otherRanked : rank other = some height) (within : Within width before)
    (pathWithin : Within width path) (notShared : ¬ shared table)
    (reached : reach store root before = some table)
    (passes : Passes store other path table index) :
    other = root ∧ ∃ after, path = before ++ index :: after := by
  obtain ⟨first, after, rfl, firstReached⟩ := passes
  have firstWithin := (within_append.mp pathWithin).1
  obtain ⟨below, belowEq, tableRanked⟩ := forest.reach_rank isRanked within reached
  obtain ⟨under, underEq, tableRankedAgain⟩ :=
    forest.reach_rank otherRanked firstWithin firstReached
  rw [tableRanked] at tableRankedAgain
  cases tableRankedAgain
  obtain ⟨sameRoot, rfl⟩ := forest.reach_unique otherRanked firstWithin isRanked within (by omega)
    notShared firstReached reached
  exact ⟨sameRoot, after, rfl⟩

theorem keepLinks (links : ∀ table, rank table ≠ none → ∀ index < width, ∀ target,
    changed table index = .pointer target → store table index = .pointer target) :
    Forest width changed rank shared := by
  refine ⟨?_, ?_, forest.bottom⟩
  · intro table height isRanked index inRange target link
    exact forest.lower table height isRanked index inRange target
      (links table (ranked isRanked) index inRange target link)
  · intro first second firstRanked secondRanked index inRange slot slotRange target notShared link
      otherLink
    exact forest.parent first second firstRanked secondRanked index inRange slot slotRange target
      notShared (links first firstRanked index inRange target link)
      (links second secondRanked slot slotRange target otherLink)

theorem reach_keepLinks (links : ∀ table, rank table ≠ none → ∀ index < width, ∀ target,
    changed table index = .pointer target ↔ store table index = .pointer target)
    (isRanked : rank root = some height) (within : Within width path) :
    reach changed root path = reach store root path := by
  induction path generalizing root height with
  | nil => rfl
  | cons index path ih =>
    obtain ⟨inRange, rest⟩ := within_cons.mp within
    apply Option.ext
    intro table
    constructor
    · intro reached
      obtain ⟨next, link, nextReached⟩ := pointer_of_reach reached
      rw [links root (ranked isRanked) index inRange] at link
      obtain ⟨below, -, nextRanked⟩ := forest.lower root height isRanked index inRange next link
      rwa [reach_cons_pointer link, ← ih nextRanked rest]
    · intro reached
      obtain ⟨next, link, nextReached⟩ := pointer_of_reach reached
      obtain ⟨below, -, nextRanked⟩ := forest.lower root height isRanked index inRange next link
      rw [← links root (ranked isRanked) index inRange] at link
      rwa [reach_cons_pointer link, ih nextRanked rest]

section Below

variable {limit : Nat} (same : ∀ table height, rank table = some height → height ≤ limit →
  ∀ index < width, changed table index = store table index)

include same

theorem walk_congr (isRanked : rank root = some height) (bounded : height ≤ limit)
    (within : Within width path) :
    reach changed root path = reach store root path ∧
      lookup changed root path = lookup store root path := by
  induction path generalizing root height with
  | nil => exact ⟨rfl, rfl⟩
  | cons index path ih =>
    obtain ⟨inRange, rest⟩ := within_cons.mp within
    refine walk_cons (same root height isRanked bounded index inRange) ?_
    intro next link
    obtain ⟨below, heightEq, nextRanked⟩ :=
      forest.lower root height isRanked index inRange next link
    exact ih nextRanked (by omega) rest

theorem walk_keep (isRanked : rank root = some height) (bounded : height ≤ limit + 1)
    (within : Within width (index :: path)) (entryEq : changed root index = store root index) :
    reach changed root (index :: path) = reach store root (index :: path) ∧
      lookup changed root (index :: path) = lookup store root (index :: path) := by
  obtain ⟨inRange, rest⟩ := within_cons.mp within
  refine walk_cons entryEq ?_
  intro next link
  obtain ⟨below, heightEq, nextRanked⟩ :=
    forest.lower root height isRanked index inRange next link
  exact forest.walk_congr same nextRanked (by omega) rest

end Below

theorem add [DecidableEq Location] (unused : rank child = none)
    (empty : ∀ slot < width, changed child slot = .invalid)
    (same : ∀ table, rank table ≠ none → ∀ index < width,
      changed table index = store table index) (height : Nat) :
    Forest width changed (update rank child (some height)) shared := by
  have old : ∀ table, update rank child (some height) table ≠ none → ∀ index < width,
      ∀ target, changed table index = .pointer target →
        table ≠ child ∧ rank table ≠ none ∧ store table index = .pointer target := by
    intro table isRanked index inRange target link
    by_cases isChild : table = child
    · rw [isChild, empty index inRange] at link
      cases link
    · rw [update_of_ne isChild] at isRanked
      rw [same table isRanked index inRange] at link
      exact ⟨isChild, isRanked, link⟩
  refine ⟨?_, ?_, ?_⟩
  · intro table tableHeight isRanked index inRange target link
    obtain ⟨notChild, -, oldLink⟩ := old table (ranked isRanked) index inRange target link
    rw [update_of_ne notChild] at isRanked
    obtain ⟨below, heightEq, targetRanked⟩ :=
      forest.lower table tableHeight isRanked index inRange target oldLink
    refine ⟨below, heightEq, ?_⟩
    rwa [update_of_ne]
    rintro rfl
    rw [unused] at targetRanked
    cases targetRanked
  · intro first second firstRanked secondRanked index inRange slot slotRange target notShared link
      otherLink
    obtain ⟨-, firstOld, link⟩ := old first firstRanked index inRange target link
    obtain ⟨-, secondOld, otherLink⟩ := old second secondRanked slot slotRange target otherLink
    exact forest.parent first second firstOld secondOld index inRange slot slotRange target
      notShared link otherLink
  · intro table isShared
    have isBottom := forest.bottom table isShared
    rwa [update_of_ne]
    rintro rfl
    rw [unused] at isBottom
    cases isBottom

section Edit

variable (sameBut : SameBut width rank store changed table index)

include sameBut

/-- A walk that does not use the edited entry is as before. -/
theorem walk_of_not_passes (isRanked : rank root = some height) (within : Within width path)
    (aside : ¬ Passes store root path table index) :
    reach changed root path = reach store root path ∧
      lookup changed root path = lookup store root path := by
  induction path generalizing root height with
  | nil => exact ⟨rfl, rfl⟩
  | cons first path ih =>
    obtain ⟨inRange, rest⟩ := within_cons.mp within
    have elsewhere : ¬ (root = table ∧ first = index) := by
      rintro ⟨rfl, rfl⟩
      exact aside ⟨[], path, rfl, rfl⟩
    refine walk_cons (sameBut root (ranked isRanked) first inRange elsewhere) ?_
    intro next link
    obtain ⟨below, -, nextRanked⟩ := forest.lower root height isRanked first inRange next link
    refine ih nextRanked rest ?_
    rintro ⟨before, after, rfl, reached⟩
    exact aside ⟨first :: before, after, rfl, (reach_cons_pointer link).trans reached⟩

theorem reach_before (isRanked : rank root = some height) (within : Within width before)
    (reached : reach store root before = some table) :
    reach changed root before = some table := by
  rw [(forest.walk_of_not_passes sameBut isRanked within _).1, reached]
  rintro ⟨first, rest, rfl, firstReached⟩
  have firstWithin := (within_append.mp within).1
  obtain ⟨below, heightEq, tableRanked⟩ := forest.reach_rank isRanked within reached
  obtain ⟨above, aboveEq, tableRankedAgain⟩ :=
    forest.reach_rank isRanked firstWithin firstReached
  rw [tableRanked] at tableRankedAgain
  cases tableRankedAgain
  rw [length_append, length_cons] at heightEq
  omega

theorem lookup_of_leaf (written : changed table index = .leaf value)
    (isRanked : rank root = some height) (within : Within width before)
    (reached : reach store root before = some table) :
    lookup changed root (before ++ index :: after) = some (value, after.length) := by
  rw [(walk_append (forest.reach_before sameBut isRanked within reached)).2,
    lookup_cons_leaf written]

theorem reach_of_leaf (written : changed table index = .leaf value)
    (isRanked : rank root = some height) (within : Within width before)
    (reached : reach store root before = some table) :
    reach changed root (before ++ index :: after) = none := by
  rw [(walk_append (forest.reach_before sameBut isRanked within reached)).1,
    reach_cons_leaf written]

omit forest in
theorem links_of_leaf (written : changed table index = .leaf value)
    (noLink : ∀ target, store table index ≠ .pointer target) (other : Location)
    (isRanked : rank other ≠ none) (slot : Nat) (slotRange : slot < width) (target : Location) :
    changed other slot = .pointer target ↔ store other slot = .pointer target := by
  by_cases isTarget : other = table ∧ slot = index
  · obtain ⟨rfl, rfl⟩ := isTarget
    rw [written]
    exact iff_of_false nofun (noLink target)
  · rw [sameBut other isRanked slot slotRange isTarget]

section Link

variable (tableRanked : rank table = some (below + 1)) (childRanked : rank child = some below)
  (linked : changed table index = .pointer child)

include tableRanked childRanked linked

/-- Linking a table that is shared, or that nothing links yet. -/
theorem link (only : shared child ∨ ∀ other, rank other ≠ none → ∀ slot < width,
    store other slot ≠ .pointer child) : Forest width changed rank shared := by
  have old : ∀ other, rank other ≠ none → ∀ slot < width, ∀ target,
      changed other slot = .pointer target →
        store other slot = .pointer target ∨ (other = table ∧ slot = index ∧ target = child) := by
    intro other otherRanked slot slotRange target link
    by_cases isTarget : other = table ∧ slot = index
    · obtain ⟨rfl, rfl⟩ := isTarget
      rw [linked] at link
      cases link
      exact Or.inr ⟨rfl, rfl, rfl⟩
    · rw [sameBut other otherRanked slot slotRange isTarget] at link
      exact Or.inl link
  have notOld : ¬ shared child → ∀ other, rank other ≠ none → ∀ slot < width,
      store other slot ≠ .pointer child := only.resolve_left
  refine ⟨?_, ?_, forest.bottom⟩
  · intro other height isRanked slot slotRange target link
    rcases old other (ranked isRanked) slot slotRange target link with link | ⟨rfl, rfl, rfl⟩
    · exact forest.lower other height isRanked slot slotRange target link
    · rw [tableRanked] at isRanked
      cases isRanked
      exact ⟨below, rfl, childRanked⟩
  · intro first second firstRanked secondRanked slot slotRange otherSlot otherRange target
      notShared link otherLink
    rcases old first firstRanked slot slotRange target link with link | ⟨rfl, rfl, rfl⟩ <;>
    rcases old second secondRanked otherSlot otherRange target otherLink with
      otherLink | ⟨rfl, rfl, sameTarget⟩
    · exact forest.parent first second firstRanked secondRanked slot slotRange otherSlot
        otherRange target notShared link otherLink
    · rw [sameTarget] at link notShared
      exact absurd link (notOld notShared first firstRanked slot slotRange)
    · exact absurd otherLink (notOld notShared second secondRanked otherSlot otherRange)
    · exact ⟨rfl, rfl⟩

theorem walk_through (isRanked : rank root = some height)
    (within : Within width (before ++ index :: after))
    (reached : reach store root before = some table) :
    reach changed root (before ++ index :: after) = reach store child after ∧
      lookup changed root (before ++ index :: after) = lookup store child after := by
  obtain ⟨beforeWithin, afterWithin⟩ := within_append.mp within
  have reachedStill := forest.reach_before sameBut isRanked beforeWithin reached
  have lower : ∀ other height, rank other = some height → height ≤ below →
      ∀ slot < width, changed other slot = store other slot := by
    intro other height otherRanked bounded slot slotRange
    refine sameBut other (ranked otherRanked) slot slotRange ?_
    rintro ⟨rfl, -⟩
    rw [tableRanked] at otherRanked
    cases otherRanked
    omega
  rw [(walk_append reachedStill).1, (walk_append reachedStill).2, reach_cons_pointer linked,
    lookup_cons_pointer linked]
  exact forest.walk_congr lower childRanked le_rfl (within_cons.mp afterWithin).2

section Empty

variable (missing : store table index = .invalid)
  (empty : ∀ slot < width, store child slot = .invalid)

include missing empty

/-- An empty table in a free entry is the only table that is reached anew. -/
theorem reach_linkEmpty (isRanked : rank root = some height) (within : Within width path) :
    reach changed root path = reach store root path ∨
      (reach store root path = none ∧ reach changed root path = some child ∧
        ∃ before, path = before ++ [index] ∧ reach store root before = some table) := by
  by_cases passes : Passes store root path table index
  · obtain ⟨first, rest, rfl, reached⟩ := passes
    have through :=
      (forest.walk_through sameBut tableRanked childRanked linked isRanked within reached).1
    rw [(walk_append reached).1, reach_cons_invalid missing]
    by_cases isLast : rest = []
    · subst isLast
      exact Or.inr ⟨rfl, through, first, rfl, reached⟩
    · left
      rw [through, reach_empty empty (within_cons.mp (within_append.mp within).2).2 isLast]
  · exact Or.inl (forest.walk_of_not_passes sameBut isRanked within passes).1

theorem lookup_linkEmpty (isRanked : rank root = some height) (within : Within width path) :
    lookup changed root path = lookup store root path := by
  by_cases passes : Passes store root path table index
  · obtain ⟨first, rest, rfl, reached⟩ := passes
    have through :=
      (forest.walk_through sameBut tableRanked childRanked linked isRanked within reached).2
    rw [(walk_append reached).2, lookup_cons_invalid missing, through,
      lookup_empty empty (within_cons.mp (within_append.mp within).2).2]
  · exact (forest.walk_of_not_passes sameBut isRanked within passes).2

end Empty

end Link

end Edit

/-- Moving a subtree from one table to another of the same height. -/
theorem move {source : Location} {taken : Nat}
    (sourceRanked : rank source = some (below + 1)) (tableRanked : rank table = some (below + 1))
    (takenRange : taken < width) (wasLinked : store source taken = .pointer child)
    (cleared : changed source taken = .invalid) (linked : changed table index = .pointer child)
    (same : ∀ other, rank other ≠ none → ∀ slot < width, ¬ (other = table ∧ slot = index) →
      ¬ (other = source ∧ slot = taken) → changed other slot = store other slot) :
    Forest width changed rank shared := by
  classical
  obtain ⟨step, stepEq, childRanked⟩ :=
    forest.lower source (below + 1) sourceRanked taken takenRange child wasLinked
  cases stepEq
  -- The subtree is first taken out, and then linked as a table that nothing links.
  let without other slot := if other = source ∧ slot = taken then .invalid else store other slot
  have links : ∀ other slot target, without other slot = .pointer target →
      ¬ (other = source ∧ slot = taken) ∧ store other slot = .pointer target := by
    intro other slot target link
    by_cases isSource : other = source ∧ slot = taken
    · cases (if_pos isSource).symm.trans link
    · exact ⟨isSource, (if_neg isSource).symm.trans link⟩
  have takenOut : Forest width without rank shared :=
    forest.keepLinks fun other _ slot _ target link => (links other slot target link).2
  refine takenOut.link ?_ tableRanked childRanked linked ?_
  · intro other otherRanked slot slotRange isOther
    by_cases isSource : other = source ∧ slot = taken
    · rw [isSource.1, isSource.2, cleared]
      exact (if_pos ⟨rfl, rfl⟩).symm
    · rw [same other otherRanked slot slotRange isOther isSource]
      exact (if_neg isSource).symm
  · by_cases isShared : shared child
    · exact Or.inl isShared
    · right
      intro other otherRanked slot slotRange link
      obtain ⟨notSource, link⟩ := links other slot child link
      exact notSource (forest.parent other source otherRanked (ranked sourceRanked) slot slotRange
        taken takenRange child isShared link wasLinked)

section Rewrite

variable {chosen : Location → Prop} {change : Nat → Nat}
  (lowest : ∀ table, chosen table → rank table = some 0)
  (rewritten : ∀ table, chosen table → ∀ index < width,
    changed table index = mapLeaf change (store table index))
  (kept : ∀ table, rank table ≠ none → ¬ chosen table → ∀ index < width,
    changed table index = store table index)

include rewritten kept

omit forest in
theorem links_of_rewrite (table : Location) (isRanked : rank table ≠ none) (index : Nat)
    (inRange : index < width) (target : Location) :
    changed table index = .pointer target ↔ store table index = .pointer target := by
  by_cases isChosen : chosen table
  · rw [rewritten table isChosen index inRange]
    cases store table index with
    | pointer next => rfl
    | leaf value => exact iff_of_false nofun nofun
    | invalid => rfl
  · rw [kept table isRanked isChosen index inRange]

/-- Walks that end in a chosen table find the rewritten leaf. -/
theorem lookup_rewritten (isRanked : rank root = some height)
    (within : Within width (path ++ [last])) (isChosen : chosen table)
    (reached : reach store root path = some table) :
    lookup changed root (path ++ [last]) =
      (lookup store root (path ++ [last])).map fun found => (change found.1, found.2) := by
  obtain ⟨pathWithin, lastWithin⟩ := within_append.mp within
  have lastRange := lastWithin last (mem_singleton_self last)
  have reachedStill : reach changed root path = some table := by
    rw [forest.reach_keepLinks (links_of_rewrite rewritten kept) isRanked pathWithin, reached]
  have entryEq := rewritten table isChosen last lastRange
  rw [(walk_append reached).2, (walk_append reachedStill).2]
  cases entry : store table last with
  | pointer next =>
    rw [entry] at entryEq
    rw [lookup_cons_pointer entry, lookup_cons_pointer entryEq]
    rfl
  | leaf value =>
    rw [entry] at entryEq
    rw [lookup_cons_leaf entry, lookup_cons_leaf entryEq]
    rfl
  | invalid =>
    rw [entry] at entryEq
    rw [lookup_cons_invalid entry, lookup_cons_invalid entryEq]
    rfl

include lowest

omit rewritten in
theorem lookup_kept (isRanked : rank root = some path.length)
    (within : Within width (path ++ [last]))
    (aside : ∀ table, reach store root path = some table → ¬ chosen table) :
    lookup changed root (path ++ [last]) = lookup store root (path ++ [last]) := by
  induction path generalizing root with
  | nil =>
    have notChosen := aside root rfl
    have lastRange := within last (mem_singleton_self last)
    exact (walk_cons (kept root (ranked isRanked) notChosen last lastRange)
      fun next link => ⟨rfl, rfl⟩).2
  | cons index path ih =>
    obtain ⟨inRange, rest⟩ := within_cons.mp within
    have notChosen : ¬ chosen root := by
      intro isChosen
      rw [lowest root isChosen] at isRanked
      cases isRanked
    have entryEq := kept root (ranked isRanked) notChosen index inRange
    cases entry : store root index with
    | pointer next =>
      obtain ⟨below, heightEq, nextRanked⟩ :=
        forest.lower root _ isRanked index inRange next entry
      rw [entry] at entryEq
      rw [cons_append, lookup_cons_pointer entryEq, lookup_cons_pointer entry]
      refine ih ?_ rest ?_
      · rw [nextRanked]
        rw [length_cons] at heightEq
        exact congrArg some (by omega)
      · intro table reached
        exact aside table ((reach_cons_pointer entry).trans reached)
    | leaf value => simp [lookup, entryEq, entry]
    | invalid => simp [lookup, entryEq, entry]

end Rewrite

end Forest

end NanoOs.RadixTables
