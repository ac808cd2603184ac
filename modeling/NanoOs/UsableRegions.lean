import NanoOs.BoundedVectors
import NanoOs.Memory

/-!
# Usable memory

RAM without its reserved ranges: the ranges are clipped to RAM, sorted, merged,
and the gaps between them are the usable regions.  Where the vectors have room,
an address is usable exactly if it is in RAM and in no reserved range.
-/

namespace NanoOs.Memory

open List

def Region.Contains (region : Region) (address : Nat) : Prop :=
  region.start ≤ address ∧ address < region.stop

instance (region : Region) (address : Nat) : Decidable (region.Contains address) :=
  inferInstanceAs (Decidable (_ ∧ _))

section Vectors

variable {reservedCapacity usableCapacity : Nat}

def clipStep (ram : Region) (clipped : BoundedVector Region reservedCapacity) (region : Region) :
    BoundedVector Region reservedCapacity :=
  let start := max region.start ram.start
  let stop := min region.stop ram.stop
  if start < stop then clipped.push ⟨start, stop⟩ else clipped

/-- An iteration of the loop that merges overlapping and adjacent ranges. -/
def mergeStep (merged : BoundedVector Region reservedCapacity) (region : Region) :
    BoundedVector Region reservedCapacity :=
  match merged.items.getLast? with
  | some last =>
      if region.start ≤ last.stop then
        if region.stop > last.stop then merged.setLast { last with stop := region.stop } else merged
      else
        merged.push region
  | none => merged.push region

/-- An iteration of the loop that carves out the gaps, with its cursor. -/
def carveStep (carved : Nat × BoundedVector Region usableCapacity) (region : Region) :
    Nat × BoundedVector Region usableCapacity :=
  let (cursor, usable) := carved
  let usable := if region.start > cursor then usable.push ⟨cursor, region.start⟩ else usable
  (max cursor region.stop, usable)

def carveLast (ram : Region) (carved : Nat × BoundedVector Region usableCapacity) :
    BoundedVector Region usableCapacity :=
  let (cursor, usable) := carved
  if cursor < ram.stop then usable.push ⟨cursor, ram.stop⟩ else usable

def computeUsableRegions (ram : Region) (reserved : BoundedVector Region reservedCapacity)
    (usable : BoundedVector Region usableCapacity) : BoundedVector Region usableCapacity :=
  let clipped : BoundedVector Region reservedCapacity :=
    reserved.items.foldl (clipStep ram) BoundedVector.empty
  let clipped := clipped.sortBy Region.start
  let merged : BoundedVector Region reservedCapacity :=
    clipped.items.foldl mergeStep BoundedVector.empty
  carveLast ram (merged.items.foldl carveStep (ram.start, usable))

end Vectors

def Covered (regions : List Region) (address : Nat) : Prop :=
  ∃ region ∈ regions, region.Contains address

def clip (ram region : Region) : Option Region :=
  if max region.start ram.start < min region.stop ram.stop then
    some ⟨max region.start ram.start, min region.stop ram.stop⟩
  else
    none

def mergeFrom : Region → List Region → List Region
  | last, [] => [last]
  | last, region :: rest =>
      if region.start ≤ last.stop then
        mergeFrom ⟨last.start, max last.stop region.stop⟩ rest
      else
        last :: mergeFrom region rest

def merge : List Region → List Region
  | [] => []
  | first :: rest => mergeFrom first rest

def gap (cursor stop : Nat) : List Region := if cursor < stop then [⟨cursor, stop⟩] else []

/-- The gaps between ranges, from a cursor up to the end of RAM. -/
def gaps (stop : Nat) : Nat → List Region → List Region
  | cursor, [] => gap cursor stop
  | cursor, region :: rest => gap cursor region.start ++ gaps stop (max cursor region.stop) rest

variable {cursor : Nat} {last : Region}

section Loops

variable {capacity : Nat} {regions : List Region}

theorem clipStep_eq (ram : Region) (clipped : BoundedVector Region capacity) (region : Region) :
    clipStep ram clipped region = (clip ram region).elim clipped clipped.push := by
  dsimp only [clipStep, clip]
  split <;> rfl

variable {ram : Region} {usable : BoundedVector Region capacity}

theorem items_clipLoop {clipped : BoundedVector Region capacity}
    (room : clipped.items.length + regions.length ≤ capacity) :
    (regions.foldl (clipStep ram) clipped).items =
      clipped.items ++ regions.filterMap (clip ram) := by
  induction regions generalizing clipped with
  | nil => simp
  | cons region rest ih =>
    rw [length_cons] at room
    rw [foldl_cons, filterMap_cons, clipStep_eq]
    cases clip ram region with
    | none => exact ih (by dsimp only [Option.elim]; omega)
    | some part =>
      have pushed := BoundedVector.items_push_of_lt part
        (show clipped.items.length < capacity by omega)
      dsimp only [Option.elim]
      rw [ih, pushed, append_assoc, singleton_append]
      rw [pushed, length_append, length_singleton]
      omega

theorem items_mergeLoop {merged : BoundedVector Region capacity} {front : List Region}
    (ends : merged.items = front ++ [last]) (room : front.length + 1 + regions.length ≤ capacity) :
    (regions.foldl mergeStep merged).items = front ++ mergeFrom last regions := by
  induction regions generalizing merged front last with
  | nil => exact ends
  | cons region rest ih =>
    have found : merged.items.getLast? = some last := by rw [ends, getLast?_concat]
    rw [length_cons] at room
    rw [foldl_cons, mergeStep, found, mergeFrom]
    dsimp only
    by_cases touches : region.start ≤ last.stop
    · rw [if_pos touches, if_pos touches]
      refine ih ?_ (by omega)
      by_cases longer : region.stop > last.stop
      · rw [if_pos longer, BoundedVector.items_setLast _ ends, Nat.max_eq_right longer.le]
      · rw [if_neg longer, ends, Nat.max_eq_left (Nat.le_of_not_lt longer)]
    · rw [if_neg touches, if_neg touches, append_cons]
      refine ih ?_ ?_
      · rw [BoundedVector.items_push_of_lt, ends]
        rw [ends, length_append, length_singleton]
        omega
      · rw [length_append, length_singleton]
        omega

theorem items_mergeLoop_empty (room : regions.length ≤ capacity) :
    (regions.foldl mergeStep (BoundedVector.empty : BoundedVector Region capacity)).items =
      merge regions := by
  cases regions with
  | nil => rfl
  | cons first rest =>
    rw [length_cons] at room
    have opened : ((BoundedVector.empty : BoundedVector Region capacity).push first).items =
        [] ++ [first] :=
      BoundedVector.items_push_of_lt first (by change 0 < capacity; omega)
    exact items_mergeLoop opened (by rw [length_nil]; omega)

theorem items_pushGap (cursor stop : Nat) (room : usable.items.length < capacity) :
    (if cursor < stop then usable.push ⟨cursor, stop⟩ else usable).items =
      usable.items ++ gap cursor stop := by
  unfold gap
  split
  · exact BoundedVector.items_push_of_lt _ room
  · exact (append_nil _).symm

theorem items_carveLoop (room : usable.items.length + regions.length < capacity) :
    (carveLast ram (regions.foldl carveStep (cursor, usable))).items =
      usable.items ++ gaps ram.stop cursor regions := by
  induction regions generalizing usable cursor with
  | nil => exact items_pushGap cursor ram.stop room
  | cons region rest ih =>
    have pushed := items_pushGap cursor region.start
      (show usable.items.length < capacity by omega)
    have atMostOne : (gap cursor region.start).length ≤ 1 := by
      unfold gap
      split <;> simp
    rw [length_cons] at room
    rw [foldl_cons, carveStep, gaps, ← append_assoc, ← pushed]
    refine ih ?_
    rw [pushed, length_append]
    omega

end Loops

section Regions

variable {regions : List Region} {ram : Region} {address : Nat}

theorem covered_nil : ¬ Covered [] address := by
  rintro ⟨region, member, -⟩
  cases member

variable {region : Region} {stop : Nat}

theorem covered_cons :
    Covered (region :: regions) address ↔ region.Contains address ∨ Covered regions address := by
  simp [Covered]

theorem covered_append {others : List Region} :
    Covered (regions ++ others) address ↔ Covered regions address ∨ Covered others address := by
  constructor
  · rintro ⟨region, member, contains⟩
    rcases mem_append.mp member with isFirst | isSecond
    · exact Or.inl ⟨region, isFirst, contains⟩
    · exact Or.inr ⟨region, isSecond, contains⟩
  · rintro (⟨region, member, contains⟩ | ⟨region, member, contains⟩)
    · exact ⟨region, mem_append_left _ member, contains⟩
    · exact ⟨region, mem_append_right _ member, contains⟩

theorem clip_eq_some {part : Region} :
    clip ram region = some part ↔ part = ⟨max region.start ram.start, min region.stop ram.stop⟩ ∧
      part.start < part.stop := by
  unfold clip
  constructor
  · intro clipped
    split at clipped
    · rename_i nonempty
      cases clipped
      exact ⟨rfl, nonempty⟩
    · cases clipped
  · rintro ⟨rfl, nonempty⟩
    exact if_pos nonempty

theorem covered_clip :
    Covered (regions.filterMap (clip ram)) address ↔
      ram.Contains address ∧ Covered regions address := by
  constructor
  · rintro ⟨part, member, lower, upper⟩
    obtain ⟨region, isRegion, clipped⟩ := mem_filterMap.mp member
    obtain ⟨rfl, -⟩ := clip_eq_some.mp clipped
    dsimp only at lower upper
    exact ⟨⟨by omega, by omega⟩, region, isRegion, by omega, by omega⟩
  · rintro ⟨⟨ramLower, ramUpper⟩, region, isRegion, lower, upper⟩
    have clipped : clip ram region =
        some ⟨max region.start ram.start, min region.stop ram.stop⟩ :=
      clip_eq_some.mpr ⟨rfl, by dsimp only; omega⟩
    refine ⟨_, mem_filterMap.mpr ⟨region, isRegion, clipped⟩, ?_, ?_⟩
    · dsimp only
      omega
    · dsimp only
      omega

/-- Non-empty ranges in order of their starts, that end in RAM. -/
structure Ordered (stop : Nat) (regions : List Region) : Prop where
  sorted : regions.Pairwise fun first second => first.start ≤ second.start
  nonempty : ∀ region ∈ regions, region.start < region.stop
  bounded : ∀ region ∈ regions, region.stop ≤ stop

theorem Ordered.tail (ordered : Ordered stop (region :: regions)) : Ordered stop regions :=
  ⟨ordered.sorted.of_cons,
    fun other member => ordered.nonempty other (mem_cons_of_mem region member),
    fun other member => ordered.bounded other (mem_cons_of_mem region member)⟩

theorem ordered_sort (ram : Region) (regions : List Region) :
    Ordered ram.stop (BoundedVector.exchangeSort Region.start
      (regions.filterMap (clip ram)).length (regions.filterMap (clip ram))) := by
  have perm := BoundedVector.exchangeSort_perm Region.start
    (regions.filterMap (clip ram)).length (regions.filterMap (clip ram))
  have clipped : ∀ part ∈ regions.filterMap (clip ram),
      part.start < part.stop ∧ part.stop ≤ ram.stop := by
    intro part member
    obtain ⟨region, -, isClip⟩ := mem_filterMap.mp member
    obtain ⟨rfl, nonempty⟩ := clip_eq_some.mp isClip
    exact ⟨nonempty, Nat.min_le_right _ _⟩
  exact ⟨BoundedVector.exchangeSort_sorted Region.start (Nat.le_refl _),
    fun part member => (clipped part (perm.mem_iff.mp member)).1,
    fun part member => (clipped part (perm.mem_iff.mp member)).2⟩

section Merging

variable {last : Region} {rest : List Region} {stop : Nat}

theorem ordered_widen (ordered : Ordered stop (last :: region :: rest)) :
    Ordered stop (⟨last.start, max last.stop region.stop⟩ :: rest) := by
  obtain ⟨sorted, nonempty, bounded⟩ := ordered
  rw [pairwise_cons, pairwise_cons] at sorted
  simp only [mem_cons, forall_eq_or_imp] at sorted nonempty bounded
  refine ⟨pairwise_cons.mpr ⟨sorted.1.2, sorted.2.2⟩, ?_, ?_⟩
  · simp only [mem_cons, forall_eq_or_imp]
    exact ⟨by omega, nonempty.2.2⟩
  · simp only [mem_cons, forall_eq_or_imp]
    exact ⟨by omega, bounded.2.2⟩

theorem covered_mergeFrom (ordered : Ordered stop (last :: rest)) :
    Covered (mergeFrom last rest) address ↔ Covered (last :: rest) address := by
  induction rest generalizing last with
  | nil => rfl
  | cons region rest ih =>
    unfold mergeFrom
    split
    · rename_i touches
      have starts : last.start ≤ region.start :=
        rel_of_pairwise_cons ordered.sorted mem_cons_self
      have joined : (⟨last.start, max last.stop region.stop⟩ : Region).Contains address ↔
          last.Contains address ∨ region.Contains address := by
        unfold Region.Contains
        dsimp only
        omega
      rw [ih (ordered_widen ordered), covered_cons, joined, covered_cons, covered_cons, or_assoc]
    · rw [covered_cons, ih ordered.tail]
      exact covered_cons.symm

theorem ordered_mergeFrom (ordered : Ordered stop (last :: rest)) :
    Ordered stop (mergeFrom last rest) ∧
      ∀ region ∈ mergeFrom last rest, last.start ≤ region.start := by
  induction rest generalizing last with
  | nil => exact ⟨ordered, by simp [mergeFrom]⟩
  | cons region rest ih =>
    unfold mergeFrom
    split
    · exact ih (ordered_widen ordered)
    · have starts : last.start ≤ region.start :=
        rel_of_pairwise_cons ordered.sorted mem_cons_self
      obtain ⟨merged, later⟩ := ih ordered.tail
      have ahead : ∀ other ∈ mergeFrom region rest, last.start ≤ other.start :=
        fun other member => starts.trans (later other member)
      refine ⟨⟨pairwise_cons.mpr ⟨ahead, merged.sorted⟩, ?_, ?_⟩, ?_⟩
      · simp only [mem_cons, forall_eq_or_imp]
        exact ⟨ordered.nonempty last mem_cons_self, merged.nonempty⟩
      · simp only [mem_cons, forall_eq_or_imp]
        exact ⟨ordered.bounded last mem_cons_self, merged.bounded⟩
      · simp only [mem_cons, forall_eq_or_imp]
        exact ⟨Nat.le_refl _, ahead⟩

theorem length_mergeFrom_le (last : Region) (rest : List Region) :
    (mergeFrom last rest).length ≤ rest.length + 1 := by
  induction rest generalizing last with
  | nil => exact Nat.le_refl _
  | cons region rest ih =>
    unfold mergeFrom
    split
    · exact (ih _).trans (Nat.le_succ _)
    · exact Nat.succ_le_succ (ih region)

end Merging

theorem merge_spec (ordered : Ordered stop regions) :
    Ordered stop (merge regions) ∧ (merge regions).length ≤ regions.length ∧
      ∀ address, Covered (merge regions) address ↔ Covered regions address := by
  cases regions with
  | nil => exact ⟨ordered, Nat.le_refl _, fun _ => Iff.rfl⟩
  | cons first rest =>
    exact ⟨(ordered_mergeFrom ordered).1, length_mergeFrom_le first rest,
      fun _ => covered_mergeFrom ordered⟩

theorem mem_gap : region ∈ gap cursor stop ↔ region = ⟨cursor, stop⟩ ∧ cursor < stop := by
  unfold gap
  split
  · rename_i nonempty
    simp [nonempty]
  · rename_i isEmpty
    simp [isEmpty]

theorem covered_gap : Covered (gap cursor stop) address ↔ cursor ≤ address ∧ address < stop := by
  unfold Covered
  simp only [mem_gap]
  constructor
  · rintro ⟨region, ⟨rfl, -⟩, lower, upper⟩
    exact ⟨lower, upper⟩
  · rintro ⟨lower, upper⟩
    exact ⟨⟨cursor, stop⟩, ⟨rfl, by omega⟩, lower, upper⟩

theorem covered_gaps (ordered : Ordered stop regions) :
    Covered (gaps stop cursor regions) address ↔
      cursor ≤ address ∧ address < stop ∧ ¬ Covered regions address := by
  induction regions generalizing cursor with
  | nil =>
    unfold gaps
    rw [covered_gap]
    simp only [covered_nil, not_false_eq_true, and_true]
  | cons region rest ih =>
    have bound := ordered.bounded region mem_cons_self
    have nonempty := ordered.nonempty region mem_cons_self
    have later : address < region.start → ¬ Covered rest address := by
      rintro before ⟨other, member, lower, -⟩
      have starts := rel_of_pairwise_cons ordered.sorted member
      omega
    unfold gaps
    rw [covered_append, covered_gap, ih ordered.tail, covered_cons]
    unfold Region.Contains
    by_cases covered : Covered rest address
    · have notBefore : ¬ address < region.start := fun before => later before covered
      simp only [covered, not_true_eq_false, and_false, or_false, or_true, iff_false, not_and]
      omega
    · simp only [covered, not_false_eq_true, and_true, or_false]
      omega

theorem separated_gaps (cursor : Nat) (ordered : Ordered stop regions) :
    (gaps stop cursor regions).Pairwise (fun first second => first.stop < second.start) ∧
      ∀ region ∈ gaps stop cursor regions, cursor ≤ region.start ∧ region.start < region.stop := by
  induction regions generalizing cursor with
  | nil =>
    constructor
    · unfold gaps gap
      split <;> simp
    · intro region member
      obtain ⟨rfl, nonempty⟩ := mem_gap.mp member
      exact ⟨Nat.le_refl _, nonempty⟩
  | cons region rest ih =>
    have nonempty := ordered.nonempty region mem_cons_self
    obtain ⟨apart, inside⟩ := ih (max cursor region.stop) ordered.tail
    constructor
    · unfold gaps
      refine pairwise_append.mpr ⟨?_, apart, ?_⟩
      · unfold gap
        split <;> simp
      · intro first firstMember second secondMember
        obtain ⟨rfl, -⟩ := mem_gap.mp firstMember
        have starts := (inside second secondMember).1
        dsimp only
        omega
    · intro other member
      rcases mem_append.mp member with isFirst | isLater
      · obtain ⟨rfl, positive⟩ := mem_gap.mp isFirst
        exact ⟨Nat.le_refl _, positive⟩
      · obtain ⟨starts, positive⟩ := inside other isLater
        exact ⟨by omega, positive⟩

def Region.Ends (property : Nat → Prop) (region : Region) : Prop :=
  property region.start ∧ property region.stop

section Ends

variable {property : Nat → Prop}

theorem ends_clip (ramEnds : ram.Ends property) (ends : ∀ region ∈ regions, region.Ends property) :
    ∀ region ∈ regions.filterMap (clip ram), region.Ends property := by
  intro part member
  obtain ⟨region, isRegion, clipped⟩ := mem_filterMap.mp member
  obtain ⟨rfl, -⟩ := clip_eq_some.mp clipped
  obtain ⟨start, stop⟩ := ends region isRegion
  exact ⟨max_rec' property start ramEnds.1, min_rec' property stop ramEnds.2⟩

theorem ends_mergeFrom (lastEnds : last.Ends property)
    (ends : ∀ region ∈ regions, region.Ends property) :
    ∀ region ∈ mergeFrom last regions, region.Ends property := by
  induction regions generalizing last with
  | nil =>
    intro region member
    rw [mergeFrom, mem_singleton] at member
    exact member ▸ lastEnds
  | cons head rest ih =>
    obtain ⟨headEnds, restEnds⟩ := forall_mem_cons.mp ends
    unfold mergeFrom
    split
    · exact ih ⟨lastEnds.1, max_rec' property lastEnds.2 headEnds.2⟩ restEnds
    · exact forall_mem_cons.mpr ⟨lastEnds, ih headEnds restEnds⟩

theorem ends_merge (ends : ∀ region ∈ regions, region.Ends property) :
    ∀ region ∈ merge regions, region.Ends property := by
  cases regions with
  | nil => exact ends
  | cons first rest =>
    obtain ⟨firstEnds, restEnds⟩ := forall_mem_cons.mp ends
    exact ends_mergeFrom firstEnds restEnds

theorem ends_gaps (cursorHas : property cursor) (stopHas : property stop)
    (ends : ∀ region ∈ regions, region.Ends property) :
    ∀ region ∈ gaps stop cursor regions, region.Ends property := by
  have ofGap : ∀ {first second : Nat}, property first → property second →
      ∀ region ∈ gap first second, region.Ends property := by
    intro first second firstHas secondHas region member
    obtain ⟨rfl, -⟩ := mem_gap.mp member
    exact ⟨firstHas, secondHas⟩
  induction regions generalizing cursor with
  | nil => exact ofGap cursorHas stopHas
  | cons head rest ih =>
    obtain ⟨headEnds, restEnds⟩ := forall_mem_cons.mp ends
    unfold gaps
    rw [forall_mem_append]
    exact ⟨ofGap cursorHas headEnds.1, ih (max_rec' property cursorHas headEnds.2) restEnds⟩

end Ends

end Regions

section Usable

variable {reservedCapacity usableCapacity : Nat} {ram : Region}
  {reserved : BoundedVector Region reservedCapacity}

/-- With room for one region more than there are ranges, the usable regions are
the gaps between the ordered ranges. -/
theorem computeUsableRegions_eq_gaps (ram : Region)
    (room : reserved.items.length < usableCapacity) :
    ∃ ordered, Ordered ram.stop ordered ∧
      (∀ address, Covered ordered address ↔ ram.Contains address ∧ Covered reserved.items address) ∧
      (∀ property : Nat → Prop, ram.Ends property →
        (∀ region ∈ reserved.items, region.Ends property) →
          ∀ region ∈ ordered, region.Ends property) ∧
      (computeUsableRegions ram reserved
        (BoundedVector.empty : BoundedVector Region usableCapacity)).items =
        gaps ram.stop ram.start ordered := by
  have clipped : (reserved.items.foldl (clipStep ram)
      (BoundedVector.empty : BoundedVector Region reservedCapacity)).items =
      reserved.items.filterMap (clip ram) := by
    refine (items_clipLoop ?_).trans (nil_append _)
    exact (Nat.zero_add _).trans_le reserved.fits
  have sortedLength := (BoundedVector.exchangeSort_perm Region.start
    (reserved.items.filterMap (clip ram)).length (reserved.items.filterMap (clip ram))).length_eq
  have clippedLength := length_filterMap_le (clip ram) reserved.items
  have fits := reserved.fits
  obtain ⟨merged, mergedLength, mergedCovers⟩ := merge_spec (ordered_sort ram reserved.items)
  refine ⟨_, merged, ?_, ?_, ?_⟩
  · intro address
    rw [mergedCovers, ← covered_clip]
    unfold Covered
    simp only [(BoundedVector.exchangeSort_perm Region.start _ _).mem_iff]
  · intro property ramEnds ends
    refine ends_merge ?_
    simp only [(BoundedVector.exchangeSort_perm Region.start _ _).mem_iff]
    exact ends_clip ramEnds ends
  · unfold computeUsableRegions BoundedVector.sortBy
    dsimp only
    rw [items_carveLoop, items_mergeLoop_empty, clipped]
    · rfl
    · rw [clipped, sortedLength]
      omega
    · rw [items_mergeLoop_empty, clipped]
      · change 0 + _ < _
        omega
      · rw [clipped, sortedLength]
        omega

/-- An address is usable exactly if it is in RAM and in no reserved range. -/
theorem covered_usable (room : reserved.items.length < usableCapacity) (address : Nat) :
    Covered (computeUsableRegions ram reserved
        (BoundedVector.empty : BoundedVector Region usableCapacity)).items address ↔
      ram.Contains address ∧ ¬ Covered reserved.items address := by
  obtain ⟨ordered, isOrdered, covers, -, usableEq⟩ := computeUsableRegions_eq_gaps ram room
  rw [usableEq, covered_gaps isOrdered, covers]
  unfold Region.Contains
  tauto

theorem separated_usable (room : reserved.items.length < usableCapacity) :
    (computeUsableRegions ram reserved
        (BoundedVector.empty : BoundedVector Region usableCapacity)).items.Pairwise
        (fun first second => first.stop < second.start) ∧
      ∀ region ∈ (computeUsableRegions ram reserved
        (BoundedVector.empty : BoundedVector Region usableCapacity)).items,
        region.start < region.stop := by
  obtain ⟨ordered, isOrdered, -, -, usableEq⟩ := computeUsableRegions_eq_gaps ram room
  rw [usableEq]
  obtain ⟨apart, inside⟩ := separated_gaps ram.start isOrdered
  exact ⟨apart, fun region member => (inside region member).2⟩

/-- What holds for the ends of RAM and of the reserved ranges holds for the ends of
usable regions. -/
theorem ends_usable (room : reserved.items.length < usableCapacity) {property : Nat → Prop}
    (ramEnds : ram.Ends property) (ends : ∀ region ∈ reserved.items, region.Ends property) :
    ∀ region ∈ (computeUsableRegions ram reserved
      (BoundedVector.empty : BoundedVector Region usableCapacity)).items,
      region.Ends property := by
  obtain ⟨ordered, -, -, orderedEnds, usableEq⟩ := computeUsableRegions_eq_gaps ram room
  rw [usableEq]
  exact ends_gaps ramEnds.1 ramEnds.2 (orderedEnds property ramEnds ends)

/-- The usable regions are RAM without the reserved ranges, in order, with a gap
between any two, and aligned to pages if RAM and the ranges are. -/
theorem usableRegions_exact (ram : Region) (reserved : BoundedVector Region reservedCapacity)
    (room : reserved.items.length + 1 ≤ usableCapacity) :
    let usable := (computeUsableRegions ram reserved
      (BoundedVector.empty : BoundedVector Region usableCapacity)).items
    (∀ address, Covered usable address ↔ ram.Contains address ∧ ¬ Covered reserved.items address) ∧
      (∀ region ∈ usable, region.start < region.stop) ∧
      usable.Pairwise (fun first second => first.stop < second.start) ∧
      (ram.Ends (· % pageSize = 0) →
        (∀ region ∈ reserved.items, region.Ends (· % pageSize = 0)) →
          ∀ region ∈ usable, region.Ends (· % pageSize = 0)) :=
  ⟨covered_usable room, (separated_usable room).2, (separated_usable room).1, ends_usable room⟩

/-- Three ranges, unordered and nested, one of them the wrong way round. -/
def nestedRanges : BoundedVector Region 3 where
  items := [⟨0x4000, 0x7000⟩, ⟨0x9000, 0x8000⟩, ⟨0x5000, 0x6000⟩]
  fits := by decide

theorem nestedRanges_usable :
    ((computeUsableRegions ⟨0x1000, 0xa000⟩ nestedRanges
      (BoundedVector.empty : BoundedVector Region 4)).items =
        [⟨0x1000, 0x4000⟩, ⟨0x7000, 0xa000⟩]) ∧
      ∀ region ∈ (computeUsableRegions ⟨0x1000, 0xa000⟩ nestedRanges
        (BoundedVector.empty : BoundedVector Region 4)).items, region.start < region.stop :=
  ⟨by decide, (usableRegions_exact ⟨0x1000, 0xa000⟩ nestedRanges (by decide)).2.1⟩

end Usable

end NanoOs.Memory
