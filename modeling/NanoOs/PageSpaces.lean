import NanoOs.PageWalks

/-!
# Address spaces that share frames and tables

Every table lies in a frame of its own that the page allocator returned.  One
table may be shared, at the top of every address space that links it.  Creating
a table and mapping a small page keep this, and change the leaf of that page
only.
-/

namespace NanoOs.PageMapping

open RadixTables Function

/-- The tables of all address spaces: three levels, in frames of the allocator.
A shared table is only linked for the last pages of an address space. -/
structure Spaces (supply : FrameSource) (shared : Nat → Prop) (machine : Machine)
    (rank : Nat → Option Nat) : Prop where
  forest : Forest pageEntries (slots machine.memory) rank shared
  used : ∀ table, rank table ≠ none → ∃ count < machine.allocated, table = supply.frames count
  owned : machine.allocated ≤ supply.owned
  corner : ∀ root, rank root = some 2 → ∀ page < pageLimit, ∀ table, shared table →
    reach (slots machine.memory) root (upperPath page) = some table → pageLimit - 512 ≤ page

def OutsideTables (rank : Nat → Option Nat) (location : Nat) : Prop :=
  ∀ table, rank table ≠ none → location < table ∨ table + 4096 ≤ location

structure Extends (supply : FrameSource) (machine after : Machine)
    (rank grown : Nat → Option Nat) : Prop where
  kept : ∀ table height, rank table = some height → grown table = some height
  new : ∀ table, grown table ≠ none → rank table = none →
    ∃ count, machine.allocated ≤ count ∧ count < after.allocated ∧ table = supply.frames count
  monotone : machine.allocated ≤ after.allocated

/-- The machines agree on the tables and on how many frames were returned. -/
structure Similar (rank : Nat → Option Nat) (machine second : Machine) : Prop where
  allocated : second.allocated = machine.allocated
  tables : ∀ table, rank table ≠ none → ∀ location, table ≤ location → location < table + 4096 →
    second.memory location = machine.memory location

/-- The two address spaces have the lowest table for the page in common. -/
def Sees (shared : Nat → Prop) (memory : ByteMemory) (other root page : Nat) : Prop :=
  other = root ∨ ∃ table, shared table ∧
    reach (slots memory) other (upperPath page) = some table ∧
    reach (slots memory) root (upperPath page) = some table

variable {location table index height other page root slot : Nat} {path : List Nat}

section Extends

variable {supply : FrameSource} {machine after last : Machine} {rank grown final : Nat → Option Nat}

theorem Extends.refl : Extends supply machine machine rank rank := by
  refine ⟨fun _ _ isRanked => isRanked, ?_, le_rfl⟩
  intro table isRanked unused
  exact absurd unused isRanked

theorem Extends.ranked (extends' : Extends supply machine after rank grown)
    (isRanked : rank table ≠ none) : grown table ≠ none := by
  obtain ⟨height, heightEq⟩ := Option.ne_none_iff_exists'.mp isRanked
  exact RadixTables.ranked (extends'.kept table height heightEq)

theorem Extends.trans (first : Extends supply machine after rank grown)
    (second : Extends supply after last grown final) : Extends supply machine last rank final := by
  have firstMonotone := first.monotone
  have secondMonotone := second.monotone
  refine ⟨?_, ?_, by omega⟩
  · exact fun table height isRanked => second.kept table height (first.kept table height isRanked)
  · intro table isRanked unused
    by_cases early : grown table = none
    · obtain ⟨count, lower, upper, tableEq⟩ := second.new table isRanked early
      exact ⟨count, by omega, upper, tableEq⟩
    · obtain ⟨count, lower, upper, tableEq⟩ := first.new table early unused
      exact ⟨count, lower, by omega, tableEq⟩

theorem Extends.frame_kept (extends' : Extends supply machine after rank grown)
    (owned : after.allocated ≤ supply.owned) {number : Nat} (taken : number < machine.allocated)
    (isFrame : rank (supply.frames number) = none) : grown (supply.frames number) = none := by
  by_contra isRanked
  obtain ⟨other, lower, upper, same⟩ := extends'.new _ isRanked isFrame
  have equal := supply.distinct number (by omega) other (by omega) same
  omega

theorem OutsideTables.of_extends (extends' : Extends supply machine after rank grown)
    (outside : OutsideTables grown location) : OutsideTables rank location :=
  fun table isRanked => outside table (extends'.ranked isRanked)

end Extends

section Similar

variable {rank : Nat → Option Nat} {machine second : Machine}

theorem Similar.refl : Similar rank machine machine :=
  ⟨rfl, fun _ _ _ _ _ => rfl⟩

section

variable (similar : Similar rank machine second)

include similar

theorem Similar.symm : Similar rank second machine :=
  ⟨similar.allocated.symm, fun table isRanked location lower upper =>
    (similar.tables table isRanked location lower upper).symm⟩

theorem Similar.trans {third : Machine} (next : Similar rank second third) :
    Similar rank machine third :=
  ⟨next.allocated.trans similar.allocated, fun table isRanked location lower upper =>
    (next.tables table isRanked location lower upper).trans
      (similar.tables table isRanked location lower upper)⟩

theorem Similar.entry_eq (isRanked : rank table ≠ none) (inRange : index < pageEntries) :
    entry second.memory table index = entry machine.memory table index := by
  apply ByteMemory.readWord_congr
  intro location lower upper
  unfold pageEntries at inRange
  exact similar.tables table isRanked location (by omega) (by omega)

theorem Similar.slots_eq (isRanked : rank table ≠ none) (inRange : index < pageEntries) :
    slots second.memory table index = slots machine.memory table index := by
  unfold slots
  rw [similar.entry_eq isRanked inRange]

theorem Similar.setEntry (table index raw : Nat) :
    Similar rank { machine with memory := setEntry machine.memory table index raw }
      { second with memory := setEntry second.memory table index raw } := by
  refine ⟨similar.allocated, ?_⟩
  intro other isRanked location lower upper
  simp only [PageMapping.setEntry, ByteMemory.writeWord]
  split
  · rfl
  · exact similar.tables other isRanked location lower upper

theorem Similar.add (frames : Nat → Nat) (height : Nat) :
    Similar (update rank (frames machine.allocated) (some height))
      ⟨zeroPageTable machine.memory (frames machine.allocated), machine.allocated + 1⟩
      ⟨zeroPageTable second.memory (frames machine.allocated), second.allocated + 1⟩ := by
  refine ⟨congrArg (· + 1) similar.allocated, ?_⟩
  intro other isRanked location lower upper
  simp only [zeroPageTable]
  by_cases isNew : other = frames machine.allocated
  · subst isNew
    rw [if_pos (by unfold pageEntries; omega), if_pos (by unfold pageEntries; omega)]
  · rw [update_of_ne isNew] at isRanked
    split
    · rfl
    · exact similar.tables other isRanked location lower upper

end

theorem Similar.update (machine : Machine) (outside : OutsideTables rank location) (byte : UInt8) :
    Similar rank machine
      { machine with memory := update machine.memory location byte } := by
  refine ⟨rfl, ?_⟩
  intro table isRanked other lower upper
  have apart := outside table isRanked
  exact update_of_ne (by omega) _ _

end Similar

theorem slots_congr {memory changed : ByteMemory}
    (same : entry changed table index = entry memory table index) :
    slots changed table index = slots memory table index :=
  congrArg PageTableEntry.classify same

section Spaces

variable {supply : FrameSource} {shared : Nat → Prop} {machine : Machine}
  {rank : Nat → Option Nat} (spaces : Spaces supply shared machine rank)

include spaces

theorem Spaces.aligned_of_ranked (isRanked : rank table ≠ none) : table % 4096 = 0 := by
  obtain ⟨count, bound, tableEq⟩ := spaces.used table isRanked
  rw [tableEq]
  exact supply.aligned count (bound.trans_le spaces.owned)

theorem Spaces.unused {count : Nat} (lower : machine.allocated ≤ count)
    (upper : count < supply.owned) : rank (supply.frames count) = none := by
  by_contra isRanked
  obtain ⟨other, bound, same⟩ := spaces.used (supply.frames count) isRanked
  have equal := supply.distinct count upper other (by omega) same
  omega

theorem Spaces.outside_of_aligned {base offset : Nat} (aligned : base % 4096 = 0)
    (noTable : rank base = none) (inFrame : offset < 4096) :
    OutsideTables rank (base + offset) := by
  intro table isRanked
  have tableAligned := spaces.aligned_of_ranked isRanked
  have apart : table ≠ base := by
    rintro rfl
    exact isRanked noTable
  omega

theorem Spaces.outside_of_frame {count offset : Nat} (bound : count < supply.owned)
    (isFrame : rank (supply.frames count) = none) (inFrame : offset < 4096) :
    OutsideTables rank (supply.frames count + offset) :=
  spaces.outside_of_aligned (supply.aligned count bound) isFrame inFrame

section

variable {second : Machine} (similar : Similar rank machine second)

include similar

theorem Spaces.of_similar : Spaces supply shared second rank := by
  have same : ∀ table, rank table ≠ none → ∀ index < pageEntries,
      slots second.memory table index = slots machine.memory table index :=
    fun table isRanked index inRange => similar.slots_eq isRanked inRange
  refine ⟨?_, ?_, ?_, ?_⟩
  · refine spaces.forest.keepLinks ?_
    intro table isRanked index inRange target link
    rwa [same table isRanked index inRange] at link
  · rw [similar.allocated]
    exact spaces.used
  · rw [similar.allocated]
    exact spaces.owned
  · intro root isRoot page inRange table isShared reached
    rw [(spaces.forest.walk_congr (fun table height isRanked _ => same table
      (RadixTables.ranked isRanked)) isRoot (le_refl 2) (upperPath_within inRange)).1] at reached
    exact spaces.corner root isRoot page inRange table isShared reached

theorem Spaces.walk_similar (isRanked : rank root = some height)
    (within : Within pageEntries path) :
    reach (slots second.memory) root path = reach (slots machine.memory) root path ∧
      lookup (slots second.memory) root path = lookup (slots machine.memory) root path :=
  spaces.forest.walk_congr (fun _ _ isRanked _ _ inRange =>
    similar.slots_eq (RadixTables.ranked isRanked) inRange) isRanked le_rfl within

theorem Spaces.view_similar (isRoot : rank root = some 2) (inRange : page < pageLimit) :
    view second.memory root page = view machine.memory root page :=
  (spaces.walk_similar similar isRoot (pagePath_within inRange)).2

end

/-- Only the last pages are seen from another address space. -/
theorem Spaces.sees_corner (otherRoot : rank other = some 2) (inRange : page < pageLimit)
    (different : other ≠ root) (seen : Sees shared machine.memory other root page) :
    pageLimit - 512 ≤ page := by
  obtain ⟨table, isShared, reached, -⟩ := seen.resolve_left different
  exact spaces.corner other otherRoot page inRange table isShared reached

theorem Spaces.virtToPhys_eq {mapper : PageMapper} (isRoot : rank mapper.rootTable = some 2)
    (virt : Nat) : mapper.virtToPhys machine.memory virt =
      (view machine.memory mapper.rootTable (pageOf virt)).map (physical virt) := by
  apply virtToPhys_eq_view
  intro third reached target link
  obtain ⟨below, heightEq, thirdRanked⟩ :=
    spaces.forest.reach_rank isRoot (upperPath_within (pageOf_lt virt)) reached
  obtain ⟨lowest, lowestEq, -⟩ := spaces.forest.lower third below thirdRanked _
    (Nat.mod_lt _ (by decide)) target link
  have lengthEq : (upperPath (pageOf virt)).length = 2 := rfl
  omega

end Spaces

/-- A table is there below an entry; no walk finds another leaf, and no table
other than a new one is reached on another way. -/
structure Opened (supply : FrameSource) (shared : Nat → Prop) (machine after : Machine)
    (rank grown : Nat → Option Nat) (table index child below : Nat) : Prop where
  spaces : Spaces supply shared after grown
  extends' : Extends supply machine after rank grown
  linked : slots after.memory table index = .pointer child
  childRanked : grown child = some below
  lookups : ∀ root height, rank root = some height → ∀ path, Within pageEntries path →
    lookup (slots after.memory) root path = lookup (slots machine.memory) root path
  reaches : ∀ root height, rank root = some height → ∀ path, Within pageEntries path →
    reach (slots after.memory) root path = reach (slots machine.memory) root path ∨
      (reach (slots machine.memory) root path = none ∧
        reach (slots after.memory) root path = some child ∧ rank child = none ∧
        ∃ before, path = before ++ [index] ∧ reach (slots machine.memory) root before = some table)
  entries : ∀ other, rank other ≠ none → ∀ slot < pageEntries, ¬ (other = table ∧ slot = index) →
    entry after.memory other slot = entry machine.memory other slot
  elsewhere : ∀ location, OutsideTables grown location →
    after.memory location = machine.memory location
  count : after.allocated = machine.allocated +
    if reach (slots machine.memory) table [index] = none then 1 else 0

section NextLevel

variable {supply : FrameSource} {shared : Nat → Prop} {machine : Machine}
  {rank : Nat → Option Nat} {table index below : Nat}

section

variable (spaces : Spaces supply shared machine rank)

include spaces

theorem Spaces.add (left : machine.allocated < supply.owned) (height : Nat) :
    let fresh := supply.frames machine.allocated
    let after : Machine := ⟨zeroPageTable machine.memory fresh, machine.allocated + 1⟩
    Spaces supply shared after (update rank fresh (some height)) ∧
      Extends supply machine after rank (update rank fresh (some height)) ∧
      (∀ other, rank other ≠ none → ∀ slot < pageEntries,
        entry after.memory other slot = entry machine.memory other slot) ∧
      ∀ slot < pageEntries, slots after.memory fresh slot = .invalid := by
  intro fresh after
  have unused : rank fresh = none := spaces.unused le_rfl left
  have freshAligned : fresh % 4096 = 0 := supply.aligned _ left
  have sameEntries : ∀ other, rank other ≠ none → ∀ slot < pageEntries,
      entry after.memory other slot = entry machine.memory other slot := by
    intro other isRanked slot slotRange
    have apart : other ≠ fresh := by
      rintro rfl
      exact isRanked unused
    exact entry_zeroPageTable_ne freshAligned (spaces.aligned_of_ranked isRanked) slotRange apart
  have same : ∀ other, rank other ≠ none → ∀ slot < pageEntries,
      slots after.memory other slot = slots machine.memory other slot :=
    fun other isRanked slot slotRange => slots_congr (sameEntries other isRanked slot slotRange)
  have empty : ∀ slot < pageEntries, slots after.memory fresh slot = .invalid := by
    intro slot slotRange
    unfold slots
    rw [entry_zeroPageTable_same slotRange]
    rfl
  have forest := spaces.forest.add unused empty same height
  refine ⟨⟨forest, ?_, left, ?_⟩, ⟨?_, ?_, Nat.le_succ _⟩, sameEntries, empty⟩
  · intro other isRanked
    by_cases isFresh : other = fresh
    · exact ⟨machine.allocated, Nat.lt_succ_self _, isFresh⟩
    · rw [update_of_ne isFresh] at isRanked
      obtain ⟨count, bound, otherEq⟩ := spaces.used other isRanked
      exact ⟨count, Nat.lt_succ_of_lt bound, otherEq⟩
  · intro root isRoot page inRange other isShared reached
    by_cases isFresh : root = fresh
    · rw [isFresh] at reached
      have first : page / 2 ^ 18 < pageEntries :=
        (within_cons.mp (upperPath_within inRange)).1
      rw [upperPath, reach_cons_invalid (empty _ first)] at reached
      cases reached
    · rw [update_of_ne isFresh] at isRoot
      rw [(spaces.forest.walk_congr (fun table height isRanked _ => same table
        (RadixTables.ranked isRanked)) isRoot (le_refl 2) (upperPath_within inRange)).1] at reached
      exact spaces.corner root isRoot page inRange other isShared reached
  · intro other otherHeight isRanked
    rwa [update_of_ne]
    rintro rfl
    rw [unused] at isRanked
    cases isRanked
  · intro other isRanked wasUnused
    by_cases isFresh : other = fresh
    · exact ⟨machine.allocated, le_rfl, Nat.lt_succ_self _, isFresh⟩
    · rw [update_of_ne isFresh] at isRanked
      exact absurd wasUnused isRanked

theorem Spaces.entry_setEntry (tableRanked : rank table ≠ none) (inRange : index < pageEntries)
    (raw : Nat) (isRanked : rank other ≠ none) (slotRange : slot < pageEntries)
    (apart : ¬ (other = table ∧ slot = index)) :
    entry (setEntry machine.memory table index raw) other slot = entry machine.memory other slot :=
  entry_setEntry_ne (spaces.aligned_of_ranked tableRanked) (spaces.aligned_of_ranked isRanked)
    inRange slotRange apart

theorem Spaces.slots_setEntry_ne (tableRanked : rank table ≠ none) (inRange : index < pageEntries)
    (raw : Nat) :
    SameBut pageEntries rank (slots machine.memory)
      (slots (setEntry machine.memory table index raw))
      table index :=
  fun _ isRanked _ slotRange apart =>
    slots_congr (spaces.entry_setEntry tableRanked inRange raw isRanked slotRange apart)

end

theorem setEntry_outside {memory : ByteMemory} {raw : Nat} (tableRanked : rank table ≠ none)
    (inRange : index < pageEntries) (outside : OutsideTables rank location) :
    setEntry memory table index raw location = memory location := by
  have apart := outside table tableRanked
  unfold pageEntries at inRange
  exact ByteMemory.writeWord_outside memory (by omega)

theorem Spaces.allocNextLevel (spaces : Spaces supply shared machine rank)
    (tableRanked : rank table = some (below + 1)) (inRange : index < pageEntries)
    (missing : slots machine.memory table index = .invalid)
    (left : machine.allocated < supply.owned) :
    Opened supply shared machine (allocNextLevel supply.frames machine table index).2 rank
      (update rank (supply.frames machine.allocated) (some below)) table index
      (supply.frames machine.allocated) below := by
  set fresh := supply.frames machine.allocated
  obtain ⟨added, extended, sameEntries, empty⟩ := spaces.add left below
  set middle : Machine := ⟨zeroPageTable machine.memory fresh, machine.allocated + 1⟩
  set grown := update rank fresh (some below) with grownEq
  have same : ∀ other, rank other ≠ none → ∀ slot < pageEntries,
      slots middle.memory other slot = slots machine.memory other slot :=
    fun other isRanked slot slotRange => slots_congr (sameEntries other isRanked slot slotRange)
  have tableGrown : grown table = some (below + 1) := extended.kept table _ tableRanked
  have freshGrown : grown fresh = some below := update_self ..
  have unused : rank fresh = none := spaces.unused le_rfl left
  set raw := PageTableEntry.set fresh PageFlags.empty
  have sameBut := added.slots_setEntry_ne (RadixTables.ranked tableGrown) inRange raw
  have linked : slots (setEntry middle.memory table index raw) table index = .pointer fresh := by
    unfold slots
    rw [entry_setEntry_same (set_lt _ _)]
    exact PageTableEntry.classify_set_empty (supply.small _ left) (supply.aligned _ left)
  have noParent : ∀ other, grown other ≠ none → ∀ slot < pageEntries,
      slots middle.memory other slot ≠ .pointer fresh := by
    intro other otherRanked slot slotRange link
    by_cases isFresh : other = fresh
    · rw [isFresh, empty slot slotRange] at link
      cases link
    · rw [grownEq, update_of_ne isFresh] at otherRanked
      obtain ⟨height, heightEq⟩ := Option.ne_none_iff_exists'.mp otherRanked
      rw [same other otherRanked slot slotRange] at link
      obtain ⟨_, -, ranked⟩ := spaces.forest.lower other height heightEq slot slotRange fresh link
      rw [unused] at ranked
      cases ranked
  have missingStill : slots middle.memory table index = .invalid := by
    rw [same table (RadixTables.ranked tableRanked) index inRange, missing]
  have before : ∀ root height, rank root = some height → ∀ path, Within pageEntries path →
      reach (slots middle.memory) root path = reach (slots machine.memory) root path ∧
        lookup (slots middle.memory) root path = lookup (slots machine.memory) root path :=
    fun root height isRanked path within => spaces.forest.walk_congr
      (fun other _ otherRanked _ => same other (RadixTables.ranked otherRanked)) isRanked le_rfl
      within
  have reaches {root height : Nat} {path : List Nat} (isGrown : grown root = some height)
      (within : Within pageEntries path) := added.forest.reach_linkEmpty sameBut tableGrown
    freshGrown linked missingStill empty isGrown within
  refine ⟨⟨added.forest.link sameBut tableGrown freshGrown linked (Or.inr noParent), added.used,
      added.owned, ?_⟩, ⟨extended.kept, extended.new, extended.monotone⟩, linked, freshGrown,
    ?_, ?_, ?_, ?_, ?_⟩
  · intro root isRoot page pageRange other isShared reached
    rcases reaches isRoot (upperPath_within pageRange) with sameReach | ⟨-, newReach, -⟩
    · exact added.corner root isRoot page pageRange other isShared (sameReach.symm.trans reached)
    · have isChild : fresh = other := Option.some.inj (newReach.symm.trans reached)
      have isBottom := spaces.forest.bottom other isShared
      rw [← isChild, unused] at isBottom
      cases isBottom
  · intro root height isRanked path within
    rw [← (before root height isRanked path within).2]
    exact added.forest.lookup_linkEmpty sameBut tableGrown freshGrown linked missingStill empty
      (extended.kept root height isRanked) within
  · intro root height isRanked path within
    rw [← (before root height isRanked path within).1]
    refine (reaches (extended.kept root height isRanked) within).imp_right ?_
    rintro ⟨wasNone, newReach, first, pathEq, reached⟩
    rw [pathEq] at within
    rw [(before root height isRanked first (within_append.mp within).1).1] at reached
    exact ⟨wasNone, newReach, unused, first, pathEq, reached⟩
  · intro other isRanked slot slotRange apart
    rw [← sameEntries other isRanked slot slotRange]
    exact added.entry_setEntry (RadixTables.ranked tableGrown) inRange raw
      (extended.ranked isRanked) slotRange apart
  · intro location outside
    have apart := outside fresh (RadixTables.ranked freshGrown)
    have written : (PageMapping.allocNextLevel supply.frames machine table index).2.memory
        location = middle.memory location :=
      setEntry_outside (RadixTables.ranked tableGrown) inRange outside
    rw [written]
    exact if_neg (by unfold pageEntries; omega)
  · rw [reach_cons_invalid missing]
    rfl

theorem Spaces.nextLevel (spaces : Spaces supply shared machine rank)
    (tableRanked : rank table = some (below + 1)) (inRange : index < pageEntries)
    (noLeaf : ∀ raw, slots machine.memory table index ≠ .leaf raw)
    (enough : (nextLevel supply.frames machine table index).2.allocated ≤ supply.owned) :
    ∃ grown, Opened supply shared machine (nextLevel supply.frames machine table index).2 rank grown
        table index (nextLevel supply.frames machine table index).1 below ∧
      ∀ second, Similar rank machine second →
        (PageMapping.nextLevel supply.frames second table index).1 =
          (PageMapping.nextLevel supply.frames machine table index).1 ∧
        Similar grown (PageMapping.nextLevel supply.frames machine table index).2
          (PageMapping.nextLevel supply.frames second table index).2 := by
  have isRanked := RadixTables.ranked tableRanked
  cases found : slots machine.memory table index with
  | leaf raw => exact absurd found (noLeaf raw)
  | pointer child =>
    rw [nextLevel_of_pointer found]
    obtain ⟨step, stepEq, childRanked⟩ :=
      spaces.forest.lower table (below + 1) tableRanked index inRange child found
    obtain rfl : step = below := by omega
    refine ⟨rank, ⟨spaces, Extends.refl, found, childRanked, fun _ _ _ _ _ => rfl,
      fun _ _ _ _ _ => Or.inl rfl, fun _ _ _ _ _ => rfl, fun _ _ => rfl, ?_⟩, ?_⟩
    · rw [reach_cons_pointer found]
      rfl
    intro second similar
    have secondFound : slots second.memory table index = .pointer child := by
      rw [similar.slots_eq isRanked inRange, found]
    rw [nextLevel_of_pointer secondFound]
    exact ⟨rfl, similar⟩
  | invalid =>
    rw [nextLevel_of_invalid found] at enough ⊢
    have left : machine.allocated < supply.owned := enough
    refine ⟨_, spaces.allocNextLevel tableRanked inRange found left, ?_⟩
    intro second similar
    have secondFound : slots second.memory table index = .invalid := by
      rw [similar.slots_eq isRanked inRange, found]
    rw [nextLevel_of_invalid secondFound]
    unfold PageMapping.allocNextLevel allocFrame
    rw [similar.allocated]
    refine ⟨rfl, ?_⟩
    have added := (similar.add supply.frames below).setEntry table index
      (PageTableEntry.set (supply.frames machine.allocated) PageFlags.empty)
    rw [similar.allocated] at added
    exact added

end NextLevel

section Opened

variable {supply : FrameSource} {shared : Nat → Prop} {machine after : Machine}
  {rank grown : Nat → Option Nat} {table index child below : Nat}

/-- The table that was opened below an entry is on the one way to it. -/
theorem Opened.passes_child
    (opened : Opened supply shared machine after rank grown table index child (below + 1))
    (inRange : index < pageEntries) (tableRanked : grown table = some height)
    (otherRanked : grown other = some height) (within : Within pageEntries path)
    (passes : Passes (slots after.memory) other path child slot) :
    other = table ∧ ∃ rest, path = index :: slot :: rest := by
  have notShared : ¬ shared child := by
    intro isShared
    have isBottom := opened.spaces.forest.bottom child isShared
    rw [opened.childRanked] at isBottom
    cases isBottom
  have reached : reach (slots after.memory) table [index] = some child := by
    rw [reach_cons_pointer opened.linked]
    rfl
  have single : Within pageEntries [index] := by
    rw [within_cons]
    exact ⟨inRange, nofun⟩
  exact opened.spaces.forest.passes_unique tableRanked otherRanked single within notShared
    reached passes

/-- Changing one slot of the opened second-level table changes only the walks that take
this slot. -/
theorem Opened.walk_aside {changed : Nat → Nat → Entry Nat}
    (opened : Opened supply shared machine after rank grown table index child (below + 1))
    (inRange : index < pageEntries) (tableRanked : grown table = some 2)
    (otherRanked : grown other = some 2)
    (sameBut : SameBut pageEntries grown (slots after.memory) changed child slot)
    (pageRange : page < pageLimit) (aside : ¬ (other = table ∧ upperPath page = [index, slot])) :
    reach changed other (upperPath page) = reach (slots after.memory) other (upperPath page) ∧
      lookup changed other (pagePath page) = lookup (slots after.memory) other (pagePath page) := by
  have avoids : ∀ rest, Within pageEntries (upperPath page ++ rest) →
      ¬ Passes (slots after.memory) other (upperPath page ++ rest) child slot := by
    intro rest within passes
    obtain ⟨same, behind, pathEq⟩ :=
      opened.passes_child inRange tableRanked otherRanked within passes
    have firstEq := (List.cons.inj pathEq).1
    have secondEq := (List.cons.inj (List.cons.inj pathEq).2).1
    refine aside ⟨same, ?_⟩
    unfold upperPath
    rw [firstEq, secondEq]
  have upperWithin := upperPath_within pageRange
  have upperAvoids := avoids []
  have wholeWithin := pagePath_within pageRange
  have forest := opened.spaces.forest
  exact ⟨(forest.walk_of_not_passes sameBut otherRanked upperWithin (upperAvoids upperWithin)).1,
    (forest.walk_of_not_passes sameBut otherRanked wholeWithin (avoids _ wholeWithin)).2⟩

/-- A second-level table is opened without a third-level table. -/
theorem Opened.reach_upperPath
    (opened : Opened supply shared machine after rank grown table index child (below + 1))
    (isRoot : rank root = some 2) (pageRange : page < pageLimit) :
    reach (slots after.memory) root (upperPath page) =
      reach (slots machine.memory) root (upperPath page) := by
  have within := upperPath_within pageRange
  rcases opened.reaches _ 2 isRoot _ within with same | ⟨-, reached, -⟩
  · exact same
  · have rootGrown := opened.extends'.kept _ 2 isRoot
    obtain ⟨bottom, bottomEq, ranked⟩ := opened.spaces.forest.reach_rank rootGrown within reached
    rw [opened.childRanked] at ranked
    have lengthEq : (upperPath page).length = 2 := rfl
    have equal := Option.some.inj ranked
    omega

theorem Opened.shares
    (opened : Opened supply shared machine after rank grown table index child below)
    (spaces : Spaces supply shared machine rank) (isRanked : rank root = some height)
    (within : Within pageEntries path) (isShared : shared other) :
    reach (slots after.memory) root path = some other ↔
      reach (slots machine.memory) root path = some other := by
  rcases opened.reaches root height isRanked path within with same | ⟨before, now, unused, -⟩
  · rw [same]
  · rw [before, now]
    refine iff_of_false ?_ nofun
    intro isChild
    have isBottom := spaces.forest.bottom other isShared
    rw [← Option.some.inj isChild, unused] at isBottom
    cases isBottom

/-- Of all paths from a root, the one through the entry is opened. -/
theorem Opened.reach_eq_none
    (opened : Opened supply shared machine after rank grown table index child below)
    (spaces : Spaces supply shared machine rank) (isRanked : rank root = some height)
    (within : Within pageEntries path) {before : List Nat}
    (beforeWithin : Within pageEntries before)
    (tableRanked : rank table = some (below + 1))
    (reached : reach (slots machine.memory) root before = some table) :
    reach (slots after.memory) root path = none ↔
      reach (slots machine.memory) root path = none ∧ path ≠ before ++ [index] := by
  have linked : reach (slots after.memory) root (before ++ [index]) = some child := by
    refine reach_concat.mpr ⟨table, ?_, opened.linked⟩
    rcases opened.reaches root height isRanked before beforeWithin with same | ⟨missing, -⟩
    · rw [same, reached]
    · rw [reached] at missing
      cases missing
  rcases opened.reaches root height isRanked path within with
    same | ⟨missing, now, -, first, rfl, firstReached⟩
  · rw [same]
    refine ⟨fun unreached => ⟨unreached, ?_⟩, And.left⟩
    rintro rfl
    rw [← same, linked] at unreached
    cases unreached
  · have firstWithin := (within_append.mp within).1
    obtain ⟨_, firstHeight, firstRanked⟩ :=
      spaces.forest.reach_rank isRanked firstWithin firstReached
    obtain ⟨_, beforeHeight, beforeRanked⟩ :=
      spaces.forest.reach_rank isRanked beforeWithin reached
    have notShared : ¬ shared table := by
      intro isShared
      have isBottom := spaces.forest.bottom table isShared
      rw [tableRanked] at isBottom
      cases isBottom
    rw [firstRanked, Option.some.injEq] at beforeRanked
    obtain ⟨-, rfl⟩ := spaces.forest.reach_unique isRanked firstWithin isRanked beforeWithin
      (by omega) notShared firstReached reached
    rw [now]
    exact iff_of_false nofun fun unreached => unreached.2 rfl

end Opened

/-- How many tables a page lacks. -/
def lacking (memory : ByteMemory) (root page : Nat) : Nat :=
  (if reach (slots memory) root [page / 2 ^ 18] = none then 1 else 0) +
    if reach (slots memory) root (upperPath page) = none then 1 else 0

/-- The tables of a page are there, and those of other pages as before. -/
def OpensTables (before after : ByteMemory) (root page : Nat) : Prop :=
  ∀ path, Within pageEntries path → (reach (slots after) root path = none ↔
    reach (slots before) root path = none ∧ path ≠ [page / 2 ^ 18] ∧ path ≠ upperPath page)

theorem slots_ne_leaf {memory : ByteMemory} {virt : Nat}
    (clear : ∀ raw, view memory root (pageOf virt) ≠ some (raw, 2)) (raw : Nat) :
    slots memory root (vpn2 virt) ≠ .leaf raw := by
  intro leaf
  refine clear raw ?_
  unfold view
  rw [pagePath_pageOf, lookup_cons_leaf leaf]
  rfl

theorem nextLevel_allocated (frames : Nat → Nat) (machine : Machine) (table index : Nat) :
    machine.allocated ≤ (nextLevel frames machine table index).2.allocated ∧
      (nextLevel frames machine table index).2.allocated ≤ machine.allocated + 1 := by
  unfold nextLevel
  split
  · exact ⟨Nat.le_succ _, le_rfl⟩
  · exact ⟨le_rfl, Nat.le_succ _⟩

theorem nextLevel_allocated_le (frames : Nat → Nat) (machine : Machine) (table index : Nat) :
    (nextLevel frames machine table index).2.allocated ≤ machine.allocated +
      if reach (slots machine.memory) table [index] = none then 1 else 0 := by
  split
  · exact (nextLevel_allocated ..).2
  · rename_i reached
    obtain ⟨target, isReached⟩ := Option.ne_none_iff_exists'.mp reached
    obtain ⟨next, link, -⟩ := pointer_of_reach isReached
    rw [nextLevel_of_pointer link]
    exact le_rfl

/-- The tables of a page are there, and every address space keeps the other entries. -/
structure OpenedTables (supply : FrameSource) (shared : Nat → Prop) (machine after : Machine)
    (rank grown : Nat → Option Nat) (root page : Nat) : Prop where
  spaces : Spaces supply shared after grown
  extends' : Extends supply machine after rank grown
  shares : ∀ other, rank other = some 2 → ∀ another < pageLimit, ∀ table, shared table →
    (reach (slots after.memory) other (upperPath another) = some table ↔
      reach (slots machine.memory) other (upperPath another) = some table)
  rootEntries : ∀ other, rank other = some 2 → ∀ index < pageEntries,
    ¬ (other = root ∧ index = page / 2 ^ 18) →
      entry after.memory other index = entry machine.memory other index
  count : after.allocated = machine.allocated + lacking machine.memory root page
  opens : OpensTables machine.memory after.memory root page
  elsewhere : ∀ location, OutsideTables grown location →
    after.memory location = machine.memory location

/-- A small page is mapped by a leaf, in all address spaces that have its table. -/
structure MappedPage (supply : FrameSource) (shared : Nat → Prop) (machine after : Machine)
    (rank grown : Nat → Option Nat) (root page raw : Nat) : Prop
    extends OpenedTables supply shared machine after rank grown root page where
  hit : ∀ other, rank other = some 2 → Sees shared machine.memory other root page →
    view after.memory other page = some (raw, 0)
  miss : ∀ other, rank other = some 2 → ∀ another < pageLimit,
    (another = page → ¬ Sees shared machine.memory other root page) →
      view after.memory other another = view machine.memory other another

section MapSmall

variable {supply : FrameSource} {shared : Nat → Prop} {machine : Machine}
  {rank : Nat → Option Nat}

theorem Spaces.writePage (spaces : Spaces supply shared machine rank) {third raw : Nat}
    (isRoot : rank root = some 2) (inRange : page < pageLimit) (thirdRanked : rank third = some 0)
    (reached : reach (slots machine.memory) root (upperPath page) = some third)
    (isLeaf : PageTableEntry.classify raw = .leaf raw) (fits : raw < 2 ^ 64) :
    let after : Machine :=
      { machine with memory := setEntry machine.memory third (page % 512) raw }
    Spaces supply shared after rank ∧
      (∀ other, rank other = some 2 → Sees shared machine.memory other root page →
        view after.memory other page = some (raw, 0)) ∧
      (∀ other, rank other = some 2 → ∀ another < pageLimit,
        (another = page → ¬ Sees shared machine.memory other root page) →
          view after.memory other another = view machine.memory other another) ∧
      (∀ other height, rank other = some height → ∀ path, Within pageEntries path →
        reach (slots after.memory) other path = reach (slots machine.memory) other path) := by
  intro after
  have lowRange : page % 512 < pageEntries := Nat.mod_lt _ (by decide)
  have sameBut := spaces.slots_setEntry_ne (RadixTables.ranked thirdRanked) lowRange raw
  have written : slots after.memory third (page % 512) = .leaf raw := by
    unfold slots
    rw [entry_setEntry_same fits, isLeaf]
  have noLink : ∀ target, slots machine.memory third (page % 512) ≠ .pointer target := by
    intro target link
    obtain ⟨lowest, lowestEq, -⟩ :=
      spaces.forest.lower third 0 thirdRanked _ lowRange target link
    omega
  have links := Forest.links_of_leaf sameBut written noLink
  have reachSame : ∀ other height, rank other = some height → ∀ path, Within pageEntries path →
      reach (slots after.memory) other path = reach (slots machine.memory) other path :=
    fun other height isRanked path within => spaces.forest.reach_keepLinks links isRanked within
  have oldLinks := fun table isRanked index inRange target =>
    (links table isRanked index inRange target).mp
  refine ⟨⟨spaces.forest.keepLinks oldLinks, spaces.used, spaces.owned, ?_⟩, ?_, ?_, reachSame⟩
  · intro other isRoot another anotherRange table isShared otherReached
    rw [reachSame other 2 isRoot _ (upperPath_within anotherRange)] at otherReached
    exact spaces.corner other isRoot another anotherRange table isShared otherReached
  · intro other otherRoot sees
    have otherReached : reach (slots machine.memory) other (upperPath page) = some third := by
      rcases sees with rfl | ⟨table, -, otherReached, rootReached⟩
      · exact reached
      · rw [otherReached, ← rootReached, reached]
    exact spaces.forest.lookup_of_leaf sameBut written otherRoot (upperPath_within inRange)
      otherReached
  · intro other otherRoot another anotherRange aside
    refine (spaces.forest.walk_of_not_passes sameBut otherRoot (pagePath_within anotherRange) ?_).2
    intro passes
    obtain ⟨otherReached, lowEq⟩ := (spaces.forest.passes_concat otherRoot
      (pagePath_within anotherRange) thirdRanked).mp passes
    by_cases isShared : shared third
    · have otherCorner :=
        spaces.corner other otherRoot another anotherRange third isShared otherReached
      have rootCorner := spaces.corner root isRoot page inRange third isShared reached
      have samePage : another = page := by
        omega
      subst samePage
      exact aside rfl (Or.inr ⟨third, isShared, otherReached, reached⟩)
    · obtain ⟨sameRoot, sameUpper⟩ := spaces.forest.reach_unique otherRoot
        (upperPath_within anotherRange) isRoot (upperPath_within inRange) rfl isShared otherReached
        reached
      exact aside (page_eq_of_paths sameUpper lowEq) (Or.inl sameRoot)

/-- The tables for the page that `map_range` finds or creates. -/
def openThird (frames : Nat → Nat) (machine : Machine) (root virt : Nat) : Nat × Machine :=
  let opened := nextLevel frames machine root (vpn2 virt)
  nextLevel frames opened.2 opened.1 (vpn1 virt)

theorem openThird_allocated_le (frames : Nat → Nat) (machine : Machine) (root virt : Nat) :
    (openThird frames machine root virt).2.allocated ≤
      machine.allocated + lacking machine.memory root (pageOf virt) := by
  obtain ⟨upperEq, -⟩ := upperPath_pageOf virt
  have highEq : pageOf virt / 2 ^ 18 = vpn2 virt := (List.cons.inj upperEq).1
  have first := nextLevel_allocated_le frames machine root (vpn2 virt)
  unfold openThird lacking
  rw [highEq, upperEq]
  cases found : reach (slots machine.memory) root [vpn2 virt] with
  | none =>
    -- without a second-level table both are new
    have unreached : reach (slots machine.memory) root [vpn2 virt, vpn1 virt] = none := by
      cases entry : slots machine.memory root (vpn2 virt) with
      | pointer next => simp [reach, entry] at found
      | leaf raw => exact reach_cons_leaf entry
      | invalid => exact reach_cons_invalid entry
    rw [found] at first
    rw [unreached]
    have second := (nextLevel_allocated frames (nextLevel frames machine root (vpn2 virt)).2
      (nextLevel frames machine root (vpn2 virt)).1 (vpn1 virt)).2
    simp only [if_true] at first ⊢
    omega
  | some second =>
    obtain ⟨next, link, -⟩ := pointer_of_reach found
    have opened := nextLevel_allocated_le frames machine next (vpn1 virt)
    rw [nextLevel_of_pointer link, reach_cons_pointer link]
    simpa using opened

/-- The lowest table for a page is there, with the leaves as before. -/
structure OpenedThird (supply : FrameSource) (shared : Nat → Prop) (machine after : Machine)
    (rank grown : Nat → Option Nat) (root page third : Nat) : Prop
    extends OpenedTables supply shared machine after rank grown root page where
  thirdRanked : grown third = some 0
  reached : reach (slots after.memory) root (upperPath page) = some third
  views : ∀ other, rank other = some 2 → ∀ another < pageLimit,
    view after.memory other another = view machine.memory other another

theorem Spaces.openThird (spaces : Spaces supply shared machine rank) {virt : Nat}
    (isRoot : rank root = some 2)
    (clear : ∀ raw level, view machine.memory root (pageOf virt) = some (raw, level) → level = 0)
    (enough : (openThird supply.frames machine root virt).2.allocated ≤ supply.owned) :
    ∃ grown, OpenedThird supply shared machine (openThird supply.frames machine root virt).2 rank
        grown root (pageOf virt) (PageMapping.openThird supply.frames machine root virt).1 ∧
      ∀ second, Similar rank machine second →
        (PageMapping.openThird supply.frames second root virt).1 =
          (PageMapping.openThird supply.frames machine root virt).1 ∧
        Similar grown (PageMapping.openThird supply.frames machine root virt).2
          (PageMapping.openThird supply.frames second root virt).2 := by
  obtain ⟨highRange, middleRange, -⟩ := vpn_lt virt
  obtain ⟨upperEq, -⟩ := upperPath_pageOf virt
  have highEq : pageOf virt / 2 ^ 18 = vpn2 virt := (List.cons.inj upperEq).1
  have pageRange := pageOf_lt virt
  unfold PageMapping.openThird at enough ⊢
  dsimp only at enough ⊢
  set opened := PageMapping.nextLevel supply.frames machine root (vpn2 virt)
  set reopened := PageMapping.nextLevel supply.frames opened.2 opened.1 (vpn1 virt)
  have increasing : opened.2.allocated ≤ reopened.2.allocated := (nextLevel_allocated ..).1
  have rootNoLeaf := slots_ne_leaf fun raw found => absurd (clear raw 2 found) (by decide)
  obtain ⟨middleRank, first, firstSimilar⟩ :=
    spaces.nextLevel isRoot highRange rootNoLeaf (increasing.trans enough)
  have secondNoLeaf : ∀ raw, slots opened.2.memory opened.1 (vpn1 virt) ≠ .leaf raw := by
    intro raw leaf
    have found : view opened.2.memory root (pageOf virt) = some (raw, 1) := by
      unfold view
      rw [pagePath_pageOf, lookup_cons_pointer first.linked, lookup_cons_leaf leaf]
      rfl
    rw [view, first.lookups _ 2 isRoot _ (pagePath_within pageRange)] at found
    exact absurd (clear raw 1 found) (by decide)
  obtain ⟨grown, second, secondSimilar⟩ :=
    first.spaces.nextLevel first.childRanked middleRange secondNoLeaf enough
  have apart : ∀ other, middleRank other = some 2 → ∀ slot,
      ¬ (other = opened.1 ∧ slot = vpn1 virt) := by
    rintro other otherRoot slot ⟨rfl, -⟩
    rw [first.childRanked] at otherRoot
    exact absurd (Option.some.inj otherRoot) (by decide)
  have rootMiddle := first.extends'.kept _ 2 isRoot
  have openedReached : reach (slots opened.2.memory) root [vpn2 virt] = some opened.1 := by
    rw [reach_cons_pointer first.linked]
    rfl
  have rootLink : slots reopened.2.memory root (vpn2 virt) = .pointer opened.1 := by
    rw [slots_congr (second.entries root (RadixTables.ranked rootMiddle) _ highRange
      (apart root rootMiddle _)), first.linked]
  refine ⟨grown, ⟨⟨second.spaces, first.extends'.trans second.extends', ?_, ?_, ?_, ?_, ?_⟩,
    second.childRanked, ?_, ?_⟩, ?_⟩
  · intro other otherRoot another anotherRange table isShared
    have within := upperPath_within anotherRange
    rw [second.shares first.spaces (first.extends'.kept other 2 otherRoot) within isShared,
      first.shares spaces otherRoot within isShared]
  · intro other otherRoot index inRange different
    have otherMiddle := first.extends'.kept _ 2 otherRoot
    rw [second.entries other (RadixTables.ranked otherMiddle) index inRange
        (apart other otherMiddle index),
      first.entries other (RadixTables.ranked otherRoot) index inRange]
    rwa [← highEq]
  · have below : reach (slots opened.2.memory) opened.1 [vpn1 virt] =
        reach (slots machine.memory) root (upperPath (pageOf virt)) := by
      rw [← first.reach_upperPath isRoot pageRange, upperEq, reach_cons_pointer first.linked]
    rw [second.count, first.count, below, lacking, highEq, Nat.add_assoc]
  · intro path within
    have single : Within pageEntries [vpn2 virt] := within_cons.mpr ⟨highRange, nofun⟩
    rw [second.reach_eq_none first.spaces rootMiddle within single first.childRanked openedReached,
      first.reach_eq_none spaces isRoot within (show Within pageEntries [] from nofun) isRoot rfl,
      upperEq, highEq, and_assoc]
    rfl
  · intro location outside
    exact (second.elsewhere location outside).trans
      (first.elsewhere location (outside.of_extends second.extends'))
  · rw [upperEq, reach_cons_pointer rootLink, reach_cons_pointer second.linked]
    rfl
  · intro other otherRoot another anotherRange
    have within := pagePath_within anotherRange
    unfold view
    rw [second.lookups other 2 (first.extends'.kept other 2 otherRoot) _ within,
      first.lookups other 2 otherRoot _ within]
  · intro other similar
    obtain ⟨firstTable, firstMachine⟩ := firstSimilar other similar
    rw [firstTable]
    exact secondSimilar _ firstMachine

/-- One iteration of `map_range` for a small page that no large page covers. -/
theorem Spaces.mapPage (spaces : Spaces supply shared machine rank) {mapper : PageMapper}
    (isRoot : rank mapper.rootTable = some 2) {virt phys : Nat} {flags : PageFlags}
    (clear : ∀ raw level, view machine.memory mapper.rootTable (pageOf virt) = some (raw, level) →
      level = 0)
    (permitted : flags.intersects PageFlags.permissions = true)
    (enough : (mapper.mapPage supply.frames machine virt phys flags 0).allocated ≤ supply.owned) :
    ∃ grown, MappedPage supply shared machine
        (mapper.mapPage supply.frames machine virt phys flags 0) rank grown mapper.rootTable
        (pageOf virt) (PageTableEntry.set phys flags) ∧
      ∀ second, Similar rank machine second →
        Similar grown (mapper.mapPage supply.frames machine virt phys flags 0)
          (mapper.mapPage supply.frames second virt phys flags 0) := by
  have mapEq : ∀ start : Machine,
      mapper.mapPage supply.frames start virt phys flags 0 =
        let opened := PageMapping.openThird supply.frames start mapper.rootTable virt
        { opened.2 with
          memory := setEntry opened.2.memory opened.1 (pageOf virt % 512)
            (PageTableEntry.set phys flags) } := by
    intro start
    rw [(upperPath_pageOf virt).2]
    rfl
  rw [mapEq] at enough ⊢
  have pageRange := pageOf_lt virt
  have lowRange : pageOf virt % 512 < pageEntries := Nat.mod_lt _ (by decide)
  obtain ⟨grown, opened, openedSimilar⟩ := spaces.openThird isRoot clear enough
  set third := PageMapping.openThird supply.frames machine mapper.rootTable virt
  have kept : ∀ other, rank other = some 2 → grown other = some 2 :=
    fun other otherRoot => opened.extends'.kept other 2 otherRoot
  obtain ⟨written, hit, miss, reachSame⟩ := opened.spaces.writePage (kept _ isRoot) pageRange
    opened.thirdRanked opened.reached (PageTableEntry.classify_set_leaf permitted)
    (set_lt phys flags)
  have sees : ∀ other, rank other = some 2 →
      (Sees shared third.2.memory other mapper.rootTable (pageOf virt) ↔
        Sees shared machine.memory other mapper.rootTable (pageOf virt)) := by
    intro other otherRoot
    refine or_congr Iff.rfl (exists_congr fun table => and_congr_right fun isShared => ?_)
    rw [opened.shares other otherRoot _ pageRange table isShared,
      opened.shares _ isRoot _ pageRange table isShared]
  refine ⟨grown, ⟨⟨written, ?_, ?_, ?_, opened.count, ?_, ?_⟩, ?_, ?_⟩, ?_⟩
  · exact ⟨opened.extends'.kept, opened.extends'.new, opened.extends'.monotone⟩
  · intro other otherRoot another anotherRange table isShared
    rw [reachSame other 2 (kept other otherRoot) _ (upperPath_within anotherRange)]
    exact opened.shares other otherRoot another anotherRange table isShared
  · intro other otherRoot index inRange apart
    rw [opened.spaces.entry_setEntry (RadixTables.ranked opened.thirdRanked) lowRange _
      (RadixTables.ranked (kept other otherRoot)) inRange,
      opened.rootEntries other otherRoot index inRange apart]
    rintro ⟨sameTable, -⟩
    have ranks := kept other otherRoot
    rw [sameTable, opened.thirdRanked] at ranks
    exact absurd (Option.some.inj ranks) (by decide)
  · intro path within
    rw [reachSame _ 2 (kept _ isRoot) path within]
    exact opened.opens path within
  · intro location outside
    dsimp only
    rw [setEntry_outside (RadixTables.ranked opened.thirdRanked) lowRange outside,
      opened.elsewhere location outside]
  · intro other otherRoot seen
    exact hit other (kept other otherRoot) ((sees other otherRoot).mpr seen)
  · intro other otherRoot another anotherRange aside
    rw [miss other (kept other otherRoot) another anotherRange,
      opened.views other otherRoot another anotherRange]
    exact fun samePage seen => aside samePage ((sees other otherRoot).mp seen)
  · intro other similar
    rw [mapEq]
    obtain ⟨sameTable, sameMachine⟩ := openedSimilar other similar
    dsimp only
    rw [sameTable]
    exact sameMachine.setEntry _ _ _

end MapSmall

/-- A large page is mapped by a leaf of a second-level table, whatever was there before. -/
structure MappedLarge (supply : FrameSource) (shared : Nat → Prop) (machine after : Machine)
    (rank grown : Nat → Option Nat) (root page raw : Nat) : Prop where
  spaces : Spaces supply shared after grown
  extends' : Extends supply machine after rank grown
  hit : ∀ another < pageLimit, upperPath another = upperPath page →
    view after.memory root another = some (raw, 1)
  miss : ∀ another < pageLimit, upperPath another ≠ upperPath page →
    view after.memory root another = view machine.memory root another ∧
      reach (slots after.memory) root (upperPath another) =
        reach (slots machine.memory) root (upperPath another)
  count : after.allocated = machine.allocated +
    if reach (slots machine.memory) root [page / 2 ^ 18] = none then 1 else 0
  opens : ∀ index < pageEntries, reach (slots after.memory) root [index] = none →
    reach (slots machine.memory) root [index] = none ∧ index ≠ page / 2 ^ 18
  rootEntries : ∀ index < pageEntries, index ≠ page / 2 ^ 18 →
    entry after.memory root index = entry machine.memory root index

theorem Spaces.mapLarge {supply : FrameSource} {shared : Nat → Prop} {machine : Machine}
    {rank : Nat → Option Nat} (spaces : Spaces supply shared machine rank) {mapper : PageMapper}
    (isRoot : rank mapper.rootTable = some 2) {virt phys : Nat} {flags : PageFlags}
    (clear : ∀ raw, view machine.memory mapper.rootTable (pageOf virt) ≠ some (raw, 2))
    (permitted : flags.intersects PageFlags.permissions = true)
    (enough : (mapper.mapPage supply.frames machine virt phys flags 1).allocated ≤ supply.owned) :
    ∃ grown, MappedLarge supply shared machine
      (mapper.mapPage supply.frames machine virt phys flags 1) rank grown mapper.rootTable
      (pageOf virt) (PageTableEntry.set phys flags) := by
  obtain ⟨highRange, middleRange, -⟩ := vpn_lt virt
  obtain ⟨upperEq, -⟩ := upperPath_pageOf virt
  have highEq : pageOf virt / 2 ^ 18 = vpn2 virt := (List.cons.inj upperEq).1
  obtain ⟨grown, opened, -⟩ := spaces.nextLevel isRoot highRange (slots_ne_leaf clear) enough
  obtain ⟨child, middle, levelEq⟩ : ∃ child middle,
    PageMapping.nextLevel supply.frames machine mapper.rootTable (vpn2 virt) = (child, middle) :=
      ⟨_, _, rfl⟩
  rw [levelEq] at opened
  obtain ⟨after, afterEq⟩ : ∃ after,
    after = setEntry middle.memory child (vpn1 virt) (PageTableEntry.set phys flags) := ⟨_, rfl⟩
  have mapEq : mapper.mapPage supply.frames machine virt phys flags 1 =
      ⟨after, middle.allocated⟩ := by
    simp [PageMapper.mapPage, levelEq, afterEq]
  rw [mapEq]
  have rootGrown := opened.extends'.kept _ 2 isRoot
  have childRanked := opened.childRanked
  have childReached : reach (slots middle.memory) mapper.rootTable [vpn2 virt] = some child := by
    rw [reach_cons_pointer opened.linked]
    rfl
  have single : Within pageEntries [vpn2 virt] := within_cons.mpr ⟨highRange, nofun⟩
  have sameBut : SameBut pageEntries grown (slots middle.memory) (slots after) child
      (vpn1 virt) := by
    rw [afterEq]
    exact opened.spaces.slots_setEntry_ne (RadixTables.ranked childRanked) middleRange _
  have written : slots after child (vpn1 virt) = .leaf (PageTableEntry.set phys flags) := by
    unfold slots
    rw [afterEq, entry_setEntry_same (set_lt _ _)]
    exact PageTableEntry.classify_set_leaf permitted
  have forest := opened.spaces.forest
  have notRoot : ∀ other, grown other = some 2 → other ≠ child := by
    rintro _ otherRoot rfl
    rw [childRanked] at otherRoot
    cases otherRoot
  -- the walk to the page ends at the new leaf, and all others are as before
  have cut : reach (slots after) mapper.rootTable [vpn2 virt, vpn1 virt] = none :=
    forest.reach_of_leaf sameBut written rootGrown single childReached
  have aside {other another : Nat} (otherRoot : grown other = some 2)
      (anotherRange : another < pageLimit) :=
        opened.walk_aside highRange rootGrown otherRoot sameBut
    anotherRange
  refine ⟨grown, ⟨forest.keepLinks ?_, opened.spaces.used, opened.spaces.owned, ?_⟩,
    ⟨opened.extends'.kept, opened.extends'.new, opened.extends'.monotone⟩, ?_, ?_, ?_, ?_, ?_⟩
  · intro other isRanked slot slotRange target link
    by_cases isWritten : other = child ∧ slot = vpn1 virt
    · rw [isWritten.1, isWritten.2, written] at link
      cases link
    · rwa [sameBut other isRanked slot slotRange isWritten] at link
  · intro other otherRoot another anotherRange table isShared reached
    by_cases isCut : other = mapper.rootTable ∧ upperPath another = [vpn2 virt, vpn1 virt]
    · rw [isCut.1, isCut.2, cut] at reached
      cases reached
    · rw [(aside otherRoot anotherRange isCut).1] at reached
      exact opened.spaces.corner other otherRoot another anotherRange table isShared reached
  · intro another anotherRange same
    unfold view pagePath
    rw [same, upperEq]
    exact forest.lookup_of_leaf sameBut written rootGrown single childReached
  · intro another anotherRange different
    obtain ⟨reachEq, lookupEq⟩ := aside rootGrown anotherRange fun isCut =>
      different (isCut.2.trans upperEq.symm)
    exact ⟨lookupEq.trans (opened.lookups _ 2 isRoot _ (pagePath_within anotherRange)),
      reachEq.trans (opened.reach_upperPath isRoot anotherRange)⟩
  · rw [highEq]
    exact opened.count
  · intro index inRange unreached
    have within : Within pageEntries [index] := within_cons.mpr ⟨inRange, nofun⟩
    rw [(forest.walk_of_not_passes sameBut rootGrown within _).1,
      opened.reach_eq_none spaces isRoot within (show Within pageEntries [] from nofun) isRoot rfl]
      at unreached
    · rw [highEq]
      exact ⟨unreached.1, fun same => unreached.2 (by rw [same]; rfl)⟩
    · rintro ⟨before, rest, pathEq, reached⟩
      obtain ⟨rfl, -⟩ := List.append_eq_singleton_iff.mp pathEq.symm |>.resolve_right nofun
      exact notRoot _ rootGrown (Option.some.inj reached)
  · intro index indexRange different
    rw [afterEq, opened.spaces.entry_setEntry (RadixTables.ranked childRanked) middleRange _
      (RadixTables.ranked rootGrown) indexRange fun same => notRoot _ rootGrown same.1]
    exact opened.entries _ (RadixTables.ranked isRoot) index indexRange fun same =>
      different (same.2.trans highEq.symm)

theorem spaces_none {supply : FrameSource} {machine : Machine}
    (owned : machine.allocated ≤ supply.owned) :
    Spaces supply (fun _ => False) machine fun _ => none :=
  ⟨⟨nofun, fun _ _ isRanked => absurd rfl isRanked, nofun⟩, fun _ isRanked => absurd rfl isRanked,
    owned, nofun⟩

theorem Spaces.frame_of_ranked {supply : FrameSupply} {shared : Nat → Prop} {machine : Machine}
    {rank : Nat → Option Nat} (spaces : Spaces supply shared machine rank)
    (isRanked : rank table ≠ none) : table < 2 ^ 38 ∧ 2 ^ 21 ≤ table := by
  obtain ⟨count, bound, tableEq⟩ := spaces.used table isRanked
  have owned := spaces.owned
  rw [tableEq]
  exact ⟨supply.upper count (by omega), supply.lower count (by omega)⟩

end NanoOs.PageMapping
