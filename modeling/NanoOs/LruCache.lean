import Mathlib.Data.List.Nodup
import Mathlib.Data.List.Perm.Basic

/-!
# A cache in order of use

Slots with keys and reference-counted values, the most recently used first.  A
value is pinned while a clone of it exists outside the cache; the clones are
counted by the caller.
-/

namespace NanoOs.LruCaches

open List

structure Arc (Value : Type) where
  allocation : Nat
  value : Value

structure LruCache (Key Value : Type) where
  slots : List (Key × Arc Value)
  capacity : Nat

variable {Key Value : Type}

/-- How many clones of a value exist: those held outside and those in slots. -/
def strongCount (held : Nat → Nat) (slots : List (Key × Arc Value)) (arc : Arc Value) : Nat :=
  held arc.allocation + slots.countP fun slot => slot.2.allocation = arc.allocation

/-- The backward pass of `insert`, from an index down. -/
def evictLoop (held : Nat → Nat) : Nat → Nat → List (Key × Arc Value) → List (Key × Arc Value)
  | 0, _, slots => slots
  | index + 1, needed, slots =>
      if needed > 0 then
        match slots[index]? with
        | some slot =>
            if strongCount held slots slot.2 = 1 then
              evictLoop held index (needed - 1) (slots.eraseIdx index)
            else
              evictLoop held index needed slots
        | none => slots
      else
        slots

namespace LruCache

def new (capacity : Nat) : LruCache Key Value := ⟨[], capacity⟩

def get [DecidableEq Key] (cache : LruCache Key Value) (key : Key) :
    Option (Arc Value × LruCache Key Value) := do
  let position ← cache.slots.findIdx? fun slot => slot.1 = key
  let entry ← cache.slots[position]?
  some (entry.2, { cache with slots := entry :: cache.slots.eraseIdx position })

def insert (cache : LruCache Key Value) (held : Nat → Nat) (key : Key) (value : Arc Value) :
    LruCache Key Value :=
  let needed := cache.slots.length + 1 - cache.capacity
  { cache with
    slots := (key, value) :: evictLoop held cache.slots.length needed cache.slots }

end LruCache

section Eviction

variable {held : Nat → Nat} {slots : List (Key × Arc Value)} {slot : Key × Arc Value}

theorem evictLoop_sublist (held : Nat → Nat) (index needed : Nat)
    (slots : List (Key × Arc Value)) : (evictLoop held index needed slots).Sublist slots := by
  induction index generalizing needed slots with
  | zero => exact List.Sublist.refl _
  | succ index ih =>
    unfold evictLoop
    by_cases more : needed > 0
    · rw [if_pos more]
      cases found : slots[index]? with
      | none => exact List.Sublist.refl _
      | some last =>
        dsimp only
        split
        · exact (ih _ _).trans (eraseIdx_sublist _ _)
        · exact ih _ _
    · rw [if_neg more]

theorem two_le_strongCount (member : slot ∈ slots) (pinned : 0 < held slot.2.allocation) :
    2 ≤ strongCount held slots slot.2 := by
  have counted : 0 < slots.countP fun other => other.2.allocation = slot.2.allocation :=
    countP_pos_iff.mpr ⟨slot, member, decide_eq_true rfl⟩
  unfold strongCount
  omega

theorem mem_evictLoop (member : slot ∈ slots) (pinned : 0 < held slot.2.allocation)
    (index needed : Nat) : slot ∈ evictLoop held index needed slots := by
  induction index generalizing needed slots with
  | zero => exact member
  | succ index ih =>
    unfold evictLoop
    by_cases more : needed > 0
    · rw [if_pos more]
      cases found : slots[index]? with
      | none => exact member
      | some last =>
        dsimp only
        by_cases unpinned : strongCount held slots last.2 = 1
        · rw [if_pos unpinned]
          refine ih ?_ _
          obtain ⟨position, bound, atPosition⟩ := mem_iff_getElem.mp member
          rw [mem_eraseIdx_iff_getElem]
          refine ⟨position, bound, ?_, atPosition⟩
          rintro rfl
          rw [getElem?_eq_getElem bound, atPosition] at found
          cases found
          have twice := two_le_strongCount member pinned
          omega
        · rw [if_neg unpinned]
          exact ih member _
    · rw [if_neg more]
      exact member

end Eviction

section Get

variable [DecidableEq Key] {cache after : LruCache Key Value} {key : Key} {arc : Arc Value}

theorem get_eq_none : cache.get key = none ↔ ∀ slot ∈ cache.slots, slot.1 ≠ key := by
  unfold LruCache.get
  cases found : cache.slots.findIdx? fun slot => slot.1 = key with
  | none =>
    simpa using found
  | some position =>
    obtain ⟨bound, isKey, -⟩ := findIdx?_eq_some_iff_getElem.mp found
    simp only [Option.bind_eq_bind, Option.bind_some, getElem?_eq_getElem bound,
      reduceCtorEq, false_iff, not_forall]
    exact ⟨_, getElem_mem bound, not_not.mpr (of_decide_eq_true isKey)⟩

/-- A hit moves a slot with the key to the front and returns its value. -/
theorem get_eq_some_split (found : cache.get key = some (arc, after)) :
    ∃ front rest, cache.slots = front ++ (key, arc) :: rest ∧
      after = { cache with slots := (key, arc) :: (front ++ rest) } := by
  unfold LruCache.get at found
  cases located : cache.slots.findIdx? fun slot => slot.1 = key with
  | none =>
    rw [located] at found
    cases found
  | some position =>
    obtain ⟨bound, isKey, -⟩ := findIdx?_eq_some_iff_getElem.mp located
    have keyEq : (cache.slots[position]).1 = key := of_decide_eq_true isKey
    rw [located] at found
    simp only [Option.bind_eq_bind, Option.bind_some, getElem?_eq_getElem bound,
      Option.some.injEq, Prod.mk.injEq] at found
    obtain ⟨rfl, rfl⟩ := found
    subst keyEq
    refine ⟨cache.slots.take position, cache.slots.drop (position + 1), ?_, ?_⟩
    · rw [Prod.eta, getElem_cons_drop, take_append_drop]
    · rw [Prod.eta, ← eraseIdx_eq_take_drop_succ]

theorem get_eq_some (found : cache.get key = some (arc, after)) :
    (key, arc) ∈ cache.slots ∧ after.slots.Perm cache.slots := by
  obtain ⟨front, rest, slots, rfl⟩ := get_eq_some_split found
  rw [slots]
  exact ⟨by simp, perm_middle.symm⟩

end Get

end NanoOs.LruCaches
