import Mathlib.Data.List.Basic
import Mathlib.Tactic.Ring

/-!
# Vectors of bounded capacity

A vector that never holds more items than its capacity.  A push that finds the
vector full leaves it as it is, so pushing a list keeps only as many of its
items as there is room for.  Sorting by exchanges works in place.
-/

namespace NanoOs

open List

/-- A list of at most `capacity` items. -/
structure BoundedVector (Item : Type*) (capacity : Nat) where
  items : List Item
  fits : items.length ≤ capacity

namespace BoundedVector

section Push

variable {Item : Type*} {capacity : Nat}

def empty : BoundedVector Item capacity := ⟨[], Nat.zero_le capacity⟩

def push (vector : BoundedVector Item capacity) (item : Item) : BoundedVector Item capacity :=
  if room : vector.items.length < capacity then
    ⟨vector.items ++ [item], by rw [List.length_append]; exact room⟩
  else
    vector

def setLast (vector : BoundedVector Item capacity) (item : Item) : BoundedVector Item capacity :=
  if nonempty : vector.items ≠ [] then
    ⟨vector.items.dropLast ++ [item], by
      have positive := List.length_pos_of_ne_nil nonempty
      have fits := vector.fits
      rw [List.length_append, List.length_dropLast, List.length_singleton]
      omega⟩
  else
    vector

theorem items_push_of_lt {vector : BoundedVector Item capacity} (item : Item)
    (room : vector.items.length < capacity) :
    (vector.push item).items = vector.items ++ [item] := by
  unfold push
  rw [dif_pos room]

theorem items_push (vector : BoundedVector Item capacity) (item : Item) :
    (vector.push item).items = (vector.items ++ [item]).take capacity := by
  by_cases room : vector.items.length < capacity
  · rw [items_push_of_lt item room, take_of_length_le]
    rw [length_append]
    exact room
  · have full : vector.items.length = capacity :=
      Nat.le_antisymm vector.fits (Nat.le_of_not_lt room)
    unfold push
    rw [dif_neg room, take_append_of_le_length full.ge, take_of_length_le full.le]

theorem take_append_take (count : Nat) (first second : List Item) :
    (first.take count ++ second).take count = (first ++ second).take count := by
  have room : count - min count first.length = count - first.length := by omega
  rw [take_append, take_append, take_take, Nat.min_self, length_take, room]

theorem items_pushAll (vector : BoundedVector Item capacity) (added : List Item) :
    (added.foldl push vector).items = (vector.items ++ added).take capacity := by
  induction added generalizing vector with
  | nil => rw [foldl_nil, append_nil, take_of_length_le vector.fits]
  | cons item rest ih =>
    have joined : vector.items ++ item :: rest = (vector.items ++ [item]) ++ rest := by simp
    rw [foldl_cons, ih, items_push, take_append_take, joined]

theorem items_setLast {vector : BoundedVector Item capacity} {front : List Item} {last : Item}
    (item : Item) (ends : vector.items = front ++ [last]) :
    (vector.setLast item).items = front ++ [item] := by
  unfold setLast
  simp [ends]

end Push

section Exchange

variable {Item Key : Type*} [LinearOrder Key] (key : Item → Key)

/-- Exchange the first item with every later one whose key is smaller than that
of the item then in front. -/
def exchangePass : Item → List Item → Item × List Item
  | first, [] => (first, [])
  | first, item :: rest =>
      if key item < key first then
        ((exchangePass item rest).1, first :: (exchangePass item rest).2)
      else
        ((exchangePass first rest).1, item :: (exchangePass first rest).2)

/-- A pass at each of the first `count` positions. -/
def exchangeSort : Nat → List Item → List Item
  | 0, items => items
  | _ + 1, [] => []
  | count + 1, first :: rest =>
      (exchangePass key first rest).1 :: exchangeSort count (exchangePass key first rest).2

theorem exchangePass_perm (first : Item) (rest : List Item) :
    ((exchangePass key first rest).1 :: (exchangePass key first rest).2).Perm (first :: rest) := by
  induction rest generalizing first with
  | nil => exact List.Perm.refl _
  | cons item rest ih =>
    unfold exchangePass
    split
    · refine (List.Perm.swap _ _ _).trans ?_
      exact (ih item).cons first
    · refine (List.Perm.swap _ _ _).trans ?_
      exact ((ih first).cons item).trans (List.Perm.swap _ _ _)

theorem exchangePass_least (first : Item) (rest : List Item) :
    key (exchangePass key first rest).1 ≤ key first ∧
      ∀ item ∈ (exchangePass key first rest).2, key (exchangePass key first rest).1 ≤ key item := by
  induction rest generalizing first with
  | nil => exact ⟨le_refl _, by simp [exchangePass]⟩
  | cons item rest ih =>
    unfold exchangePass
    split
    · rename_i smaller
      obtain ⟨leItem, leRest⟩ := ih item
      refine ⟨leItem.trans smaller.le, ?_⟩
      simp only [mem_cons, forall_eq_or_imp]
      exact ⟨leItem.trans smaller.le, leRest⟩
    · rename_i notSmaller
      obtain ⟨leFirst, leRest⟩ := ih first
      refine ⟨leFirst, ?_⟩
      simp only [mem_cons, forall_eq_or_imp]
      exact ⟨leFirst.trans (not_lt.mp notSmaller), leRest⟩

theorem exchangeSort_perm (count : Nat) (items : List Item) :
    (exchangeSort key count items).Perm items := by
  induction count generalizing items with
  | zero => exact List.Perm.refl _
  | succ count ih =>
    cases items with
    | nil => exact List.Perm.refl _
    | cons first rest =>
      exact ((ih _).cons _).trans (exchangePass_perm key first rest)

theorem exchangeSort_sorted {count : Nat} {items : List Item} (enough : items.length ≤ count) :
    (exchangeSort key count items).Pairwise fun first second => key first ≤ key second := by
  induction count generalizing items with
  | zero =>
    rw [length_eq_zero_iff.mp (Nat.le_zero.mp enough)]
    exact List.Pairwise.nil
  | succ count ih =>
    cases items with
    | nil => exact List.Pairwise.nil
    | cons first rest =>
      have length := (exchangePass_perm key first rest).length_eq
      rw [length_cons, length_cons] at length
      rw [length_cons] at enough
      refine List.Pairwise.cons ?_ (ih (by omega))
      intro item member
      exact (exchangePass_least key first rest).2 item
        ((exchangeSort_perm key count _).mem_iff.mp member)

def sortBy {capacity : Nat} (vector : BoundedVector Item capacity) :
    BoundedVector Item capacity where
  items := exchangeSort key vector.items.length vector.items
  fits := by
    rw [(exchangeSort_perm key _ _).length_eq]
    exact vector.fits

end Exchange

end BoundedVector

end NanoOs
