import NanoOs.LruCache
import Mathlib.Data.List.DropRight

/-!
# What an LRU cache keeps

Runs of `get` and `insert`, with any clones outside the cache at each insert.  The
slots are in the order of their last use, and an insert removes the last of the slots
that are not pinned.
-/

namespace NanoOs.LruCaches

open List

variable {Key Value : Type}

/-- A clone of the value exists besides the one in its slot. -/
def pinned (held : Nat → Nat) (slots : List (Key × Arc Value)) (slot : Key × Arc Value) : Bool :=
  1 < strongCount held slots slot.2

/-- The slots without a clone elsewhere, the most recently used first. -/
def unpinnedSlots (held : Nat → Nat) (slots : List (Key × Arc Value)) : List (Key × Arc Value) :=
  slots.filter fun slot => !pinned held slots slot

section Eviction

variable {held : Nat → Nat} {slots front rest : List (Key × Arc Value)}
  {slot last : Key × Arc Value}

theorem strongCount_pos (held : Nat → Nat) (member : slot ∈ slots) :
    0 < strongCount held slots slot.2 :=
  Nat.add_pos_right _ (countP_pos_iff.mpr ⟨slot, member, decide_eq_true rfl⟩)

theorem pinned_eq_false_iff (member : slot ∈ slots) :
    pinned held slots slot = false ↔ strongCount held slots slot.2 = 1 := by
  have positive := strongCount_pos held member
  rw [pinned, decide_eq_false_iff_not]
  omega

/-- Where each slot has an allocation of its own, the pinned slots are those with a
clone outside the cache. -/
theorem pinned_iff_held (apart : (slots.map fun slot => slot.2.allocation).Nodup)
    (member : slot ∈ slots) : pinned held slots slot = true ↔ 0 < held slot.2.allocation := by
  have alone : (slots.countP fun other => other.2.allocation = slot.2.allocation) = 1 := by
    have counted := count_eq_one_of_mem apart
      (mem_map_of_mem (f := fun slot : Key × Arc Value => slot.2.allocation) member)
    rw [count, countP_map] at counted
    exact counted
  rw [pinned, strongCount, alone, decide_eq_true_iff]
  omega

theorem strongCount_erase (alone : strongCount held (front ++ last :: rest) last.2 = 1)
    (member : slot ∈ front ++ rest) :
    strongCount held (front ++ last :: rest) slot.2 = strongCount held (front ++ rest) slot.2 := by
  have different : last.2.allocation ≠ slot.2.allocation := by
    intro same
    have counted := strongCount_pos held member
    simp only [strongCount, countP_append, countP_cons, decide_true, if_true,
      ← same] at alone counted
    omega
  simp [strongCount, countP_append, different]

theorem filter_unpinned_erase (alone : strongCount held (front ++ last :: rest) last.2 = 1) :
    (front.filter fun slot => !pinned held (front ++ last :: rest) slot) =
      front.filter fun slot => !pinned held (front ++ rest) slot := by
  apply filter_congr
  intro slot member
  rw [pinned, pinned, strongCount_erase alone (mem_append_left _ member)]

/-- The backward pass over the front of the slots removes the last unpinned ones there. -/
theorem evictLoop_front (held : Nat → Nat) (front rest : List (Key × Arc Value)) (needed : Nat) :
    ∃ kept, evictLoop held front.length needed (front ++ rest) = kept ++ rest ∧
      (kept ++ (front.filter fun slot => !pinned held (front ++ rest) slot).rtake needed).Perm
        front := by
  induction front using reverseRecOn generalizing rest needed with
  | nil => exact ⟨[], rfl, by simp⟩
  | append_singleton front last ih =>
    rw [length_append, length_singleton, evictLoop, append_assoc,
      singleton_append]
    cases needed with
    | zero => exact ⟨front ++ [last], by simp, by simp⟩
    | succ needed =>
      have found : (front ++ last :: rest)[front.length]? = some last := by simp
      rw [if_pos (Nat.succ_pos needed), found]
      dsimp only
      have member : last ∈ front ++ last :: rest := by simp
      by_cases alone : strongCount held (front ++ last :: rest) last.2 = 1
      · obtain ⟨kept, loop, removed⟩ := ih rest needed
        have unpinned := (pinned_eq_false_iff member).mpr alone
        refine ⟨kept, ?_, ?_⟩
        · rw [if_pos alone, Nat.add_sub_cancel, ← loop,
            eraseIdx_append_of_length_le (Nat.le_refl _), Nat.sub_self]
          rfl
        · rw [filter_append, filter_unpinned_erase alone, filter_singleton, unpinned,
            Bool.not_false, cond_true, rtake_concat_succ, ← append_assoc]
          exact removed.append_right _
      · obtain ⟨kept, loop, removed⟩ := ih (last :: rest) (needed + 1)
        have isPinned : pinned held (front ++ last :: rest) last = true := by
          rw [← Bool.not_eq_false, pinned_eq_false_iff member]
          exact alone
        refine ⟨kept ++ [last], ?_, ?_⟩
        · rw [if_neg alone, loop]
          simp
        · rw [filter_append, filter_singleton, isPinned, Bool.not_true,
            cond_false, append_nil, append_assoc]
          refine (List.Perm.append_left kept perm_append_comm).trans ?_
          rw [← append_assoc]
          exact removed.append_right _

theorem evictLoop_perm (held : Nat → Nat) (slots : List (Key × Arc Value)) (needed : Nat) :
    (evictLoop held slots.length needed slots ++ (unpinnedSlots held slots).rtake needed).Perm
      slots := by
  obtain ⟨kept, loop, removed⟩ := evictLoop_front held slots [] needed
  simp only [append_nil] at loop removed
  rw [loop]
  exact removed

theorem length_unpinnedSlots (held : Nat → Nat) (slots : List (Key × Arc Value)) :
    slots.countP (pinned held slots) + (unpinnedSlots held slots).length = slots.length := by
  rw [unpinnedSlots, ← countP_eq_length_filter]
  simpa using (length_eq_countP_add_countP (pinned held slots) (l := slots)).symm

theorem length_insert (cache : LruCache Key Value) (held : Nat → Nat) (key : Key)
    (value : Arc Value) :
    (cache.insert held key value).slots.length ≤
      max cache.capacity (cache.slots.countP (pinned held cache.slots) + 1) := by
  have removed := (evictLoop_perm held cache.slots
    (cache.slots.length + 1 - cache.capacity)).length_eq
  have unpinned := length_unpinnedSlots held cache.slots
  rw [length_append, rtake, length_drop] at removed
  simp only [LruCache.insert, length_cons]
  omega

end Eviction

section Runs

variable [DecidableEq Key] {capacity : Nat} {cache after : LruCache Key Value} {uses : List Key}
  {key : Key} {arc : Arc Value}

/-- The caches that calls lead to, with the keys of the calls, the last one first.  A
key is inserted only where it is missing. -/
inductive Reaches (capacity : Nat) : LruCache Key Value → List Key → Prop
  | new : Reaches capacity (LruCache.new capacity) []
  | hit {cache after : LruCache Key Value} {uses : List Key} {key : Key} {arc : Arc Value}
      (reached : Reaches capacity cache uses) (found : cache.get key = some (arc, after)) :
      Reaches capacity after (key :: uses)
  | miss {cache : LruCache Key Value} {uses : List Key} {key : Key}
      (reached : Reaches capacity cache uses) (missing : cache.get key = none) :
      Reaches capacity cache (key :: uses)
  | insert {cache : LruCache Key Value} {uses : List Key} {key : Key}
      (reached : Reaches capacity cache uses) (missing : cache.get key = none)
      (held : Nat → Nat) (arc : Arc Value) :
      Reaches capacity (cache.insert held key arc) (key :: uses)

def Ordered (cache : LruCache Key Value) (uses : List Key) : Prop :=
  (cache.slots.map Prod.fst).Pairwise fun first second => uses.idxOf first < uses.idxOf second

theorem Ordered.nodup (ordered : Ordered cache uses) : (cache.slots.map Prod.fst).Nodup :=
  List.Pairwise.imp (fun before same => absurd (same ▸ before) (Nat.lt_irrefl _)) ordered

theorem pairwise_idxOf_cons {keys : List Key}
    (ordered : keys.Pairwise fun first second => uses.idxOf first < uses.idxOf second)
    (other : ∀ later ∈ keys, later ≠ key) :
    keys.Pairwise fun first second =>
      (key :: uses).idxOf first < (key :: uses).idxOf second := by
  refine ordered.imp_of_mem fun {first second} firstMember secondMember before => ?_
  rw [idxOf_cons_ne _ (other first firstMember).symm,
    idxOf_cons_ne _ (other second secondMember).symm]
  exact Nat.succ_lt_succ before

theorem pairwise_idxOf_front {keys : List Key}
    (ordered : keys.Pairwise fun first second => uses.idxOf first < uses.idxOf second)
    (other : ∀ later ∈ keys, later ≠ key) :
    (key :: keys).Pairwise fun first second =>
      (key :: uses).idxOf first < (key :: uses).idxOf second := by
  refine pairwise_cons.mpr ⟨fun later member => ?_, pairwise_idxOf_cons ordered other⟩
  rw [idxOf_cons_self, idxOf_cons_ne _ (other later member).symm]
  exact Nat.succ_pos _

theorem Ordered.hit (ordered : Ordered cache uses) (found : cache.get key = some (arc, after)) :
    Ordered after (key :: uses) := by
  have distinct := ordered.nodup
  obtain ⟨front, rest, slots, rfl⟩ := get_eq_some_split found
  unfold Ordered at ordered ⊢
  rw [slots, map_append, map_cons] at ordered distinct
  rw [map_cons, map_append]
  have others : (front.map Prod.fst ++ rest.map Prod.fst).Sublist
      (front.map Prod.fst ++ key :: rest.map Prod.fst) :=
    List.Sublist.append_left (sublist_cons_self _ _) _
  refine pairwise_idxOf_front (List.Pairwise.sublist others ordered) ?_
  rintro later member rfl
  exact (nodup_cons.mp (nodup_middle.mp distinct)).1 member

theorem Ordered.miss (ordered : Ordered cache uses) (missing : cache.get key = none) :
    Ordered cache (key :: uses) := by
  refine pairwise_idxOf_cons ordered ?_
  intro later member
  obtain ⟨slot, inCache, rfl⟩ := mem_map.mp member
  exact get_eq_none.mp missing slot inCache

theorem Ordered.insert (ordered : Ordered cache uses) (missing : cache.get key = none)
    (held : Nat → Nat) (arc : Arc Value) : Ordered (cache.insert held key arc) (key :: uses) := by
  have kept := (evictLoop_sublist held cache.slots.length
    (cache.slots.length + 1 - cache.capacity) cache.slots).map Prod.fst
  refine pairwise_idxOf_front (List.Pairwise.sublist kept ordered) ?_
  intro later member
  obtain ⟨slot, inCache, rfl⟩ := mem_map.mp (kept.subset member)
  exact get_eq_none.mp missing slot inCache

theorem Reaches.ordered (reached : Reaches capacity cache uses) : Ordered cache uses := by
  induction reached with
  | new => exact List.Pairwise.nil
  | hit _ found ih => exact ih.hit found
  | miss _ missing ih => exact ih.miss missing
  | insert _ missing held arc ih => exact ih.insert missing held arc

theorem Reaches.capacity_eq (reached : Reaches capacity cache uses) :
    cache.capacity = capacity := by
  induction reached with
  | new => rfl
  | hit _ found ih =>
    obtain ⟨_, _, -, rfl⟩ := get_eq_some_split found
    exact ih
  | miss _ _ ih => exact ih
  | insert _ _ _ _ ih => exact ih

/-- The slots of a cache have different keys in the order of their last use.  An
insert puts its slot in front and removes the last of the unpinned slots, as many as
the capacity asks for or all of them; a value held outside the cache stays. -/
theorem Reaches.contract (reached : Reaches capacity cache uses) :
    (cache.slots.map Prod.fst).Nodup ∧ Ordered cache uses ∧
      ∀ key, cache.get key = none → ∀ held arc,
        let needed := cache.slots.length + 1 - capacity
        let after := cache.insert held key arc
        ∃ kept, after.slots = (key, arc) :: kept ∧ kept.Sublist cache.slots ∧
          (kept ++ (unpinnedSlots held cache.slots).rtake needed).Perm cache.slots ∧
          (∀ slot ∈ cache.slots, 0 < held slot.2.allocation → slot ∈ kept) ∧
          ((cache.slots.map fun slot => slot.2.allocation).Nodup → ∀ slot ∈ cache.slots,
            (pinned held cache.slots slot = true ↔ 0 < held slot.2.allocation)) ∧
          after.slots.length ≤
            max capacity (cache.slots.countP (pinned held cache.slots) + 1) := by
  refine ⟨reached.ordered.nodup, reached.ordered, fun key missing held arc => ?_⟩
  have bounded := length_insert cache held key arc
  rw [← reached.capacity_eq]
  exact ⟨_, rfl, evictLoop_sublist _ _ _ _, evictLoop_perm _ _ _,
    fun slot member isHeld => mem_evictLoop member isHeld _ _,
    fun apart slot member => pinned_iff_held apart member, bounded⟩

end Runs

/-- A cache with two slots, the second of them held outside. -/
def twoSlots : LruCache Nat Unit := ⟨[(8, ⟨1, ()⟩), (7, ⟨0, ()⟩)], 2⟩

theorem twoSlots_reached : Reaches 2 twoSlots [8, 7] :=
  .insert (.insert .new rfl (fun _ => 0) ⟨0, ()⟩) rfl (fun _ => 0) ⟨1, ()⟩

/-- The slot in front of it is the one that an insert removes. -/
theorem twoSlots_contract :
    twoSlots.get 9 = none ∧
      ((twoSlots.insert (fun allocation => if allocation = 0 then 1 else 0) 9
        ⟨2, ()⟩).slots.map Prod.fst) = [9, 7] ∧
      (twoSlots.insert (fun allocation => if allocation = 0 then 1 else 0) 9
        ⟨2, ()⟩).slots.length ≤ 2 := by
  refine ⟨rfl, rfl, ?_⟩
  obtain ⟨_, -, -, -, -, -, bounded⟩ := twoSlots_reached.contract.2.2 9 rfl
    (fun allocation => if allocation = 0 then 1 else 0) ⟨2, ()⟩
  exact bounded

end NanoOs.LruCaches
