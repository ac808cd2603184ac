import NanoOs.PageSpaces
import Mathlib.Data.List.Basic
import NanoOs.ProcessMemoryMap

/-!
# Switching pages to the user

`switch_pages_to_user` sets the user flag in every leaf below a second-level
table and changes nothing else.
-/

namespace NanoOs.PageMapping

open ProcessMemoryMap RadixTables List ByteMemory

section SwitchTable

variable {memory : ByteMemory} {table other index slot location : Nat}

theorem entry_lt (memory : ByteMemory) (table index : Nat) : entry memory table index < 2 ^ 64 :=
  readWord_lt memory _ 8

theorem setUserFlag_lt {raw : Nat} (fits : raw < 2 ^ 64) :
    PageTableEntry.setUserFlag raw < 2 ^ 64 :=
  Nat.or_lt_two_pow fits (by decide)

theorem slots_switchEntry :
    slots (switchEntry table memory index) table slot =
      if slot = index then mapLeaf PageTableEntry.setUserFlag (slots memory table slot)
      else slots memory table slot := by
  unfold switchEntry
  by_cases isValid : PageTableEntry.isValid (entry memory table index) = true
  · rw [if_pos isValid]
    by_cases isSlot : slot = index
    · subst isSlot
      unfold slots
      rw [if_pos rfl, entry_setEntry_same (setUserFlag_lt (entry_lt ..)),
        PageTableEntry.classify_setUserFlag]
    · rw [if_neg isSlot]
      refine slots_congr (readWord_writeWord_disjoint memory ?_)
      omega
  · rw [if_neg isValid]
    split
    · rename_i isSlot
      subst isSlot
      unfold slots PageTableEntry.classify
      rw [if_neg isValid]
      rfl
    · rfl

theorem switchEntry_outside (inRange : index < pageEntries)
    (outside : location < table ∨ table + 4096 ≤ location) :
    switchEntry table memory index location = memory location := by
  unfold pageEntries at inRange
  unfold switchEntry
  split
  · exact writeWord_outside memory (by omega)
  · rfl

theorem switchEntries {count : Nat} (bound : count ≤ pageEntries) :
    let after := (range count).foldl (switchEntry table) memory
    (∀ slot < pageEntries, slots after table slot =
      if slot < count then mapLeaf PageTableEntry.setUserFlag (slots memory table slot)
      else slots memory table slot) ∧
    ∀ location, location < table ∨ table + 4096 ≤ location → after location = memory location := by
  induction count with
  | zero => exact ⟨fun _ _ => rfl, fun _ _ => rfl⟩
  | succ count ih =>
    obtain ⟨switched, kept⟩ := ih (by omega)
    rw [range_succ, foldl_append, foldl_cons, foldl_nil]
    refine ⟨?_, ?_⟩
    · intro slot slotRange
      rw [slots_switchEntry, switched slot slotRange]
      by_cases isLast : slot = count
      · rw [if_pos isLast, if_neg (by omega), if_pos (by omega)]
      · rw [if_neg isLast]
        exact if_congr (by omega) rfl rfl
    · intro location outside
      rw [switchEntry_outside (by omega) outside, kept location outside]

theorem slots_switchTable (slotRange : slot < pageEntries) :
    slots (switchTable memory table) table slot =
      mapLeaf PageTableEntry.setUserFlag (slots memory table slot) := by
  have switched := (@switchEntries memory table pageEntries le_rfl).1 slot slotRange
  rwa [if_pos slotRange] at switched

theorem switchTable_outside (outside : location < table ∨ table + 4096 ≤ location) :
    switchTable memory table location = memory location :=
  (@switchEntries memory table pageEntries le_rfl).2 location outside

theorem entry_switchTable (aligned : table % 4096 = 0) (otherAligned : other % 4096 = 0)
    (apart : other ≠ table) (slotRange : slot < pageEntries) :
    entry (switchTable memory table) other slot = entry memory other slot := by
  apply readWord_congr
  intro location lower upper
  unfold pageEntries at slotRange
  exact switchTable_outside (by omega)

end SwitchTable

section SwitchTables

variable {memory : ByteMemory} {tables : List Nat} {other slot location : Nat}

theorem mapLeaf_setUserFlag_twice (found : Entry Nat) :
    mapLeaf PageTableEntry.setUserFlag (mapLeaf PageTableEntry.setUserFlag found) =
      mapLeaf PageTableEntry.setUserFlag found := by
  cases found with
  | pointer next => rfl
  | invalid => rfl
  | leaf raw =>
    refine congrArg Entry.leaf ?_
    unfold PageTableEntry.setUserFlag
    rw [Nat.or_assoc, Nat.or_self]

theorem slots_switchTables (aligned : ∀ table ∈ tables, table % 4096 = 0)
    (otherAligned : other % 4096 = 0) (slotRange : slot < pageEntries) :
    slots (tables.foldl switchTable memory) other slot =
      if other ∈ tables then mapLeaf PageTableEntry.setUserFlag (slots memory other slot)
      else slots memory other slot := by
  induction tables generalizing memory with
  | nil => simp
  | cons table tables ih =>
    rw [foldl_cons, ih fun next member => aligned next (mem_cons_of_mem _ member)]
    by_cases isTable : other = table
    · subst isTable
      rw [slots_switchTable slotRange, mapLeaf_setUserFlag_twice]
      simp
    · rw [slots_congr (entry_switchTable (aligned table (mem_cons_self ..)) otherAligned
        isTable slotRange)]
      simp [isTable]

theorem switchTables_outside
    (outside : ∀ table ∈ tables, location < table ∨ table + 4096 ≤ location) :
    tables.foldl switchTable memory location = memory location := by
  induction tables generalizing memory with
  | nil => rfl
  | cons table tables ih =>
    rw [foldl_cons, ih fun next member => outside next (mem_cons_of_mem _ member),
      switchTable_outside (outside table (mem_cons_self ..))]

theorem entry_switchTables (aligned : ∀ table ∈ tables, table % 4096 = 0)
    (otherAligned : other % 4096 = 0) (apart : other ∉ tables) (slotRange : slot < pageEntries) :
    entry (tables.foldl switchTable memory) other slot = entry memory other slot := by
  apply readWord_congr
  intro location lower upper
  refine switchTables_outside ?_
  intro table member
  have tableAligned := aligned table member
  have different : other ≠ table := by
    rintro rfl
    exact apart member
  unfold pageEntries at slotRange
  omega

end SwitchTables

def childTables (memory : ByteMemory) (table : Nat) : List Nat :=
  (List.range pageEntries).filterMap fun index =>
    let raw := entry memory table index
    if PageTableEntry.isValid raw then some (PageTableEntry.addr raw) else none

/-- The outer loop of `switch_pages_to_user` reads what was there before. -/
theorem switchPagesToUser_eq {memory : ByteMemory} {table : Nat} (aligned : table % 4096 = 0)
    (apart : ∀ child ∈ childTables memory table, child ≠ table) :
    switchPagesToUser memory table = (childTables memory table).foldl switchTable memory := by
  have general : ∀ indices : List Nat, (∀ index ∈ indices, index < pageEntries) →
      (∀ child ∈ indices.filterMap fun index =>
        if PageTableEntry.isValid (entry memory table index) then
          some (PageTableEntry.addr (entry memory table index)) else none, child ≠ table) →
      ∀ current : ByteMemory, (∀ index < pageEntries,
        entry current table index = entry memory table index) →
      indices.foldl (fun memory index =>
        if PageTableEntry.isValid (entry memory table index) then
          switchTable memory (PageTableEntry.addr (entry memory table index))
        else memory) current =
      (indices.filterMap fun index =>
        if PageTableEntry.isValid (entry memory table index) then
          some (PageTableEntry.addr (entry memory table index)) else none).foldl
        switchTable current := by
    intro indices
    induction indices with
    | nil =>
      intro _ _ current _
      rw [filterMap_nil, foldl_nil, foldl_nil]
    | cons index indices ih =>
      intro inRange distinct current same
      have indexRange := inRange index (mem_cons_self ..)
      have restRange : ∀ next ∈ indices, next < pageEntries :=
        fun next member => inRange next (mem_cons_of_mem _ member)
      rw [filterMap_cons] at distinct ⊢
      rw [foldl_cons, same index indexRange]
      by_cases isValid : PageTableEntry.isValid (entry memory table index) = true
      · rw [if_pos isValid] at distinct ⊢
        rw [if_pos isValid]
        rw [foldl_cons]
        refine ih restRange (fun child member => distinct child (mem_cons_of_mem _ member)) _
          ?_
        intro slot slotRange
        rw [entry_switchTable (PageTableEntry.addr_aligned _) aligned
          (distinct _ (mem_cons_self ..)).symm slotRange, same slot slotRange]
      · rw [if_neg isValid] at distinct ⊢
        rw [if_neg isValid]
        exact ih restRange distinct current same
  exact general (range pageEntries) (fun index member => mem_range.mp member) apart memory
    fun _ _ => rfl

section Switch

variable {supply : FrameSupply} {shared : Nat → Prop} {machine : Machine}
  {rank : Nat → Option Nat}

theorem mem_childTables {memory : ByteMemory} {table child : Nat}
    (noLeaf : ∀ index < pageEntries, ∀ raw, slots memory table index ≠ .leaf raw) :
    child ∈ childTables memory table ↔
      ∃ index < pageEntries, slots memory table index = .pointer child := by
  have entryCases : ∀ index < pageEntries,
      ((if PageTableEntry.isValid (entry memory table index) then
          some (PageTableEntry.addr (entry memory table index)) else none) = some child ↔
        slots memory table index = .pointer child) := by
    intro index inRange
    have notLeaf := noLeaf index inRange (entry memory table index)
    unfold slots PageTableEntry.classify at notLeaf ⊢
    by_cases isValid : PageTableEntry.isValid (entry memory table index) = true
    · rw [if_pos isValid] at notLeaf ⊢
      by_cases isLeaf : PageTableEntry.isLeaf (entry memory table index) = true
      · rw [if_pos isLeaf] at notLeaf
        exact absurd rfl notLeaf
      · rw [if_pos isValid, if_neg isLeaf]
        simp
    · rw [if_neg isValid, if_neg isValid]
      exact iff_of_false nofun nofun
  unfold childTables
  rw [mem_filterMap]
  constructor
  · rintro ⟨index, member, found⟩
    have inRange := mem_range.mp member
    exact ⟨index, inRange, (entryCases index inRange).mp found⟩
  · rintro ⟨index, inRange, link⟩
    exact ⟨index, mem_range.mpr inRange, (entryCases index inRange).mpr link⟩

/-- The leaves below a second-level table are switched, and no link changes. -/
structure Switched (supply : FrameSupply) (shared : Nat → Prop) (machine after : Machine)
    (rank : Nat → Option Nat) (second : Nat) : Prop where
  spaces : Spaces supply shared after rank
  upper : ∀ table, rank table ≠ none → rank table ≠ some 0 → ∀ slot < pageEntries,
    entry after.memory table slot = entry machine.memory table slot
  switched : ∀ root, rank root = some 2 → ∀ page < pageLimit, ∀ child,
    (∃ index < pageEntries, slots machine.memory second index = .pointer child) →
      reach (slots machine.memory) root (upperPath page) = some child →
        view after.memory root page = (view machine.memory root page).map fun found =>
          (PageTableEntry.setUserFlag found.1, found.2)
  kept : ∀ root, rank root = some 2 → ∀ page < pageLimit,
    (∀ child, reach (slots machine.memory) root (upperPath page) = some child →
      ¬ ∃ index < pageEntries, slots machine.memory second index = .pointer child) →
        view after.memory root page = view machine.memory root page
  reaches : ∀ root height, rank root = some height → ∀ path, Within pageEntries path →
    reach (slots after.memory) root path = reach (slots machine.memory) root path
  elsewhere : ∀ location, OutsideTables rank location →
    after.memory location = machine.memory location

section Children

variable (spaces : Spaces supply shared machine rank) {second : Nat}
  (secondRanked : rank second = some 1)
  (noLeaf : ∀ index < pageEntries, ∀ raw, slots machine.memory second index ≠ .leaf raw)

include spaces secondRanked noLeaf

theorem Spaces.childTables_lowest {child : Nat}
    (member : child ∈ childTables machine.memory second) :
    rank child = some 0 := by
  obtain ⟨index, inRange, link⟩ := (mem_childTables noLeaf).mp member
  obtain ⟨below, belowEq, childRanked⟩ :=
    spaces.forest.lower second 1 secondRanked index inRange child link
  obtain rfl : below = 0 := by omega
  exact childRanked

theorem Spaces.switchPagesToUser_eq : switchPagesToUser machine.memory second =
    (childTables machine.memory second).foldl switchTable machine.memory := by
  refine PageMapping.switchPagesToUser_eq
    (spaces.aligned_of_ranked (ranked secondRanked)) ?_
  rintro child member rfl
  rw [spaces.childTables_lowest secondRanked noLeaf member] at secondRanked
  cases secondRanked

theorem Spaces.switchPages : Switched supply shared machine
    { machine with memory := switchPagesToUser machine.memory second } rank second := by
  have children := fun child => @mem_childTables machine.memory second child noLeaf
  have lowest : ∀ child, child ∈ childTables machine.memory second → rank child = some 0 :=
    fun child member => spaces.childTables_lowest secondRanked noLeaf member
  have aligned : ∀ child ∈ childTables machine.memory second, child % 4096 = 0 :=
    fun child member => spaces.aligned_of_ranked (ranked (lowest child member))
  rw [spaces.switchPagesToUser_eq secondRanked noLeaf]
  set tables := childTables machine.memory second
  obtain ⟨after, afterEq⟩ : ∃ after, after = tables.foldl switchTable machine.memory := ⟨_, rfl⟩
  rw [← afterEq]
  have rewritten : ∀ table, table ∈ tables → ∀ index < pageEntries, slots after table index =
      mapLeaf PageTableEntry.setUserFlag (slots machine.memory table index) := by
    intro table member index inRange
    rw [afterEq, slots_switchTables aligned (aligned table member) inRange, if_pos member]
  have entries : ∀ table, rank table ≠ none → table ∉ tables → ∀ index < pageEntries,
      entry after table index = entry machine.memory table index := by
    intro table isRanked notMember index inRange
    rw [afterEq, entry_switchTables aligned (spaces.aligned_of_ranked isRanked) notMember inRange]
  have kept : ∀ table, rank table ≠ none → table ∉ tables → ∀ index < pageEntries,
      slots after table index = slots machine.memory table index :=
    fun table isRanked notMember index inRange =>
      slots_congr (entries table isRanked notMember index inRange)
  have links := Forest.links_of_rewrite rewritten kept
  have reaches : ∀ root height, rank root = some height → ∀ path, Within pageEntries path →
      reach (slots after) root path = reach (slots machine.memory) root path :=
    fun root height isRanked path within => spaces.forest.reach_keepLinks links isRanked within
  have oldLinks := fun table isRanked index inRange target =>
    (links table isRanked index inRange target).mp
  refine ⟨⟨spaces.forest.keepLinks oldLinks, spaces.used, spaces.owned, ?_⟩, ?_, ?_, ?_,
    reaches, ?_⟩
  · intro root isRoot page inRange table isShared reached
    rw [reaches root 2 isRoot _ (upperPath_within inRange)] at reached
    exact spaces.corner root isRoot page inRange table isShared reached
  · intro table isRanked notLowest slot slotRange
    exact entries table isRanked (fun member => notLowest (lowest table member)) slot slotRange
  · intro root isRoot page inRange child isChild reached
    exact spaces.forest.lookup_rewritten rewritten kept isRoot (pagePath_within inRange)
      ((children child).mpr isChild) reached
  · intro root isRoot page inRange aside
    refine spaces.forest.lookup_kept lowest kept isRoot (pagePath_within inRange) ?_
    exact fun child reached member => aside child reached ((children child).mp member)
  · intro location outside
    dsimp only
    rw [afterEq]
    exact switchTables_outside fun child member =>
      outside child (ranked (lowest child member))

end Children

section Similar

variable {second : Machine} (similar : Similar rank machine second) {table : Nat}

include similar

theorem Similar.switchEntry (isRanked : rank table ≠ none) {index : Nat}
    (inRange : index < pageEntries) :
    Similar rank { machine with memory := switchEntry table machine.memory index }
      { second with memory := switchEntry table second.memory index } := by
  unfold ProcessMemoryMap.switchEntry
  dsimp only
  rw [similar.entry_eq isRanked inRange]
  split
  · exact similar.setEntry table index _
  · exact similar

theorem Similar.switchTable (isRanked : rank table ≠ none) :
    Similar rank { machine with memory := switchTable machine.memory table }
      { second with memory := switchTable second.memory table } := by
  have step : ∀ count ≤ pageEntries, Similar rank
      { machine with
        memory := (range count).foldl (ProcessMemoryMap.switchEntry table) machine.memory }
      { second with
        memory := (range count).foldl (ProcessMemoryMap.switchEntry table) second.memory } := by
    intro count
    induction count with
    | zero => exact fun _ => similar
    | succ count ih =>
      intro bound
      rw [range_succ, foldl_append, foldl_append, foldl_cons,
        foldl_nil, foldl_cons, foldl_nil]
      exact (ih (by omega)).switchEntry isRanked bound
  exact step pageEntries le_rfl

theorem Similar.switchTables {tables : List Nat} (isRanked : ∀ table ∈ tables, rank table ≠ none) :
    Similar rank { machine with memory := tables.foldl ProcessMemoryMap.switchTable machine.memory }
      { second with memory := tables.foldl ProcessMemoryMap.switchTable second.memory } := by
  induction tables generalizing machine second with
  | nil =>
    exact similar
  | cons table tables ih =>
    rw [foldl_cons, foldl_cons]
    have first := similar.switchTable (isRanked table (mem_cons_self ..))
    have rest := ih first fun next member => isRanked next (mem_cons_of_mem _ member)
    dsimp only at rest
    exact rest

theorem Similar.switchPages (spaces : Spaces supply shared machine rank)
    (tableRanked : rank table = some 1)
    (noLeaf : ∀ index < pageEntries, ∀ raw, slots machine.memory table index ≠ .leaf raw) :
    Similar rank { machine with memory := switchPagesToUser machine.memory table }
      { second with memory := switchPagesToUser second.memory table } := by
  have sameEntries : ∀ index < pageEntries,
      entry second.memory table index = entry machine.memory table index :=
    fun index inRange => similar.entry_eq (ranked tableRanked) inRange
  have secondNoLeaf : ∀ index < pageEntries, ∀ raw,
      slots second.memory table index ≠ .leaf raw := by
    intro index inRange raw
    rw [slots_congr (sameEntries index inRange)]
    exact noLeaf index inRange raw
  have sameChildren : childTables second.memory table = childTables machine.memory table := by
    refine filterMap_congr ?_
    intro index member
    rw [sameEntries index (mem_range.mp member)]
  rw [spaces.switchPagesToUser_eq tableRanked noLeaf,
    (spaces.of_similar similar).switchPagesToUser_eq tableRanked secondNoLeaf, sameChildren]
  exact similar.switchTables fun child member =>
    ranked (spaces.childTables_lowest tableRanked noLeaf member)

end Similar

end Switch

end NanoOs.PageMapping
