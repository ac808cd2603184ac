import NanoOs.ByteMemory
import Mathlib.Data.List.GetD

/-!
# The ring buffer

A circular buffer of a fixed size with one producer and one consumer.  One slot
is always kept empty, to tell a full buffer from an empty one.  Pushing appends
to the bytes in the buffer as many as there is room for, and popping takes the
first one.
-/

namespace NanoOs

open List ByteMemory

/-- The buffer, the next position to write and the next position to read. -/
structure SpscRing (size : Nat) where
  buf : ByteMemory
  head : Nat
  tail : Nat
  headLt : head < size
  tailLt : tail < size

namespace SpscRing

variable {size : Nat}

def new (positive : 0 < size) : SpscRing size where
  buf _ := 0
  head := 0
  tail := 0
  headLt := positive
  tailLt := positive

def isEmpty (ring : SpscRing size) : Bool :=
  ring.head = ring.tail

theorem positive (ring : SpscRing size) : 0 < size :=
  Nat.zero_lt_of_lt ring.headLt

/-- The copy of `push_slice`: in one piece, or around the end of the buffer. -/
def copyIn (ring : SpscRing size) (data : List UInt8) (toCopy : Nat) : ByteMemory :=
  let contiguous := size - ring.head
  if toCopy ≤ contiguous then
    ring.buf.writeBytes ring.head toCopy fun index => data.getD index 0
  else
    (ring.buf.writeBytes ring.head contiguous fun index => data.getD index 0).writeBytes 0
      (toCopy - contiguous) fun index => data.getD (contiguous + index) 0

/-- The bytes in front of the head, so many of them, are now in the buffer. -/
def advance (ring : SpscRing size) (toCopy : Nat) : SpscRing size :=
  { ring with
    head := (ring.head + toCopy) % size
    headLt := Nat.mod_lt _ ring.positive }

def fill (ring : SpscRing size) (data : List UInt8) (toCopy : Nat) : SpscRing size :=
  { ring with
    buf := ring.copyIn data toCopy
    head := (ring.head + toCopy) % size
    headLt := Nat.mod_lt _ ring.positive }

def pushSlice (ring : SpscRing size) (data : List UInt8) : Nat × SpscRing size :=
  let available := (ring.tail + size - ring.head - 1) % size
  if available = 0 then (0, ring)
  else
    let toCopy := min data.length available
    (toCopy, ring.fill data toCopy)

def skip (ring : SpscRing size) : SpscRing size :=
  { ring with
    tail := (ring.tail + 1) % size
    tailLt := Nat.mod_lt _ ring.positive }

def pop (ring : SpscRing size) : Option UInt8 × SpscRing size :=
  if ring.head = ring.tail then (none, ring)
  else (some (ring.buf ring.tail), ring.skip)

/-! ## The bytes in the buffer -/

def count (ring : SpscRing size) : Nat :=
  (ring.head + size - ring.tail) % size

def contents (ring : SpscRing size) : List UInt8 :=
  (List.range ring.count).map fun index => ring.buf ((ring.tail + index) % size)

variable {ring : SpscRing size} {data : List UInt8} {index toCopy : Nat}

theorem mod_size {position : Nat} (bounded : position < 2 * size) :
    position % size = if position < size then position else position - size := by
  split
  · next small => exact Nat.mod_eq_of_lt small
  · next large =>
      rw [Nat.mod_eq_sub_mod (by omega), Nat.mod_eq_of_lt (by omega)]

theorem count_cases (ring : SpscRing size) :
    (ring.tail ≤ ring.head ∧ ring.count = ring.head - ring.tail) ∨
      (ring.head < ring.tail ∧ ring.count = ring.head + size - ring.tail) := by
  have headLt := ring.headLt
  rw [count, mod_size (by omega)]
  split <;> omega

theorem count_lt (ring : SpscRing size) : ring.count < size :=
  Nat.mod_lt _ ring.positive

theorem available_eq (ring : SpscRing size) :
    (ring.tail + size - ring.head - 1) % size = size - 1 - ring.count := by
  have tailLt := ring.tailLt
  have cases := ring.count_cases
  rw [mod_size (by omega)]
  split <;> omega

@[simp] theorem length_contents (ring : SpscRing size) : ring.contents.length = ring.count := by
  simp [contents]

theorem contents_new (positive : 0 < size) : (new positive).contents = [] := by
  rw [← length_eq_zero_iff, length_contents]
  rcases (new positive).count_cases with ⟨-, count⟩ | ⟨less, -⟩
  · exact count
  · exact absurd less (Nat.lt_irrefl 0)

theorem isEmpty_iff (ring : SpscRing size) : ring.isEmpty = true ↔ ring.contents = [] := by
  have tailLt := ring.tailLt
  have cases := ring.count_cases
  rw [← length_eq_zero_iff, length_contents, isEmpty, decide_eq_true_iff]
  omega

theorem copyIn_written (fits : toCopy < size) (inside : index < toCopy) :
    ring.copyIn data toCopy ((ring.head + index) % size) = data.getD index 0 := by
  have headLt := ring.headLt
  rw [mod_size (by omega), copyIn]
  split
  · rw [if_pos (by omega), writeBytes_inside _ _ inside]
  · split
    · rw [writeBytes_outside _ _ (.inr (by omega)),
        writeBytes_inside _ _ (by omega)]
    · have position : ring.head + index - size = 0 + (index - (size - ring.head)) := by omega
      rw [position, writeBytes_inside _ _ (by omega)]
      exact congrArg (data.getD · 0) (by omega)

theorem copyIn_kept (fits : toCopy + ring.count < size) (inside : index < ring.count) :
    ring.copyIn data toCopy ((ring.tail + index) % size) =
      ring.buf ((ring.tail + index) % size) := by
  have headLt := ring.headLt
  have cases := ring.count_cases
  rw [mod_size (by omega), copyIn]
  split
  · exact writeBytes_outside _ _ (by split <;> omega)
  · rw [writeBytes_outside, writeBytes_outside]
    all_goals split <;> omega

theorem count_advance (ring : SpscRing size) (fits : toCopy + ring.count < size) :
    (ring.advance toCopy).count = ring.count + toCopy := by
  have tailLt := ring.tailLt
  have cases := ring.count_cases
  have casesAfter := (ring.advance toCopy).count_cases
  have position : (ring.advance toCopy).head = (ring.head + toCopy) % size := rfl
  have sameTail : (ring.advance toCopy).tail = ring.tail := rfl
  rw [position, sameTail, mod_size (by omega)] at casesAfter
  split at casesAfter <;> omega

theorem position_count (ring : SpscRing size) (index : Nat) :
    (ring.tail + (ring.count + index)) % size = (ring.head + index) % size := by
  rcases ring.count_cases with ⟨before, count⟩ | ⟨behind, count⟩
  · exact congrArg (· % size) (by omega)
  · have tailLt := ring.tailLt
    have around : ring.tail + (ring.count + index) = ring.head + index + size := by omega
    rw [around, Nat.add_mod_right]

theorem contents_advance (ring : SpscRing size) (fits : toCopy + ring.count < size)
    (enough : toCopy ≤ data.length)
    (written : ∀ index < toCopy, ring.buf ((ring.head + index) % size) = data.getD index 0) :
    (ring.advance toCopy).contents = ring.contents ++ data.take toCopy := by
  rw [contents, ring.count_advance fits, range_add, map_append, map_map, contents]
  refine congrArg _ (ext_getElem (by simp [enough]) fun index inside _ => ?_)
  rw [length_map, length_range] at inside
  rw [getElem_map, getElem_range, getElem_take, Function.comp_apply]
  have position : ((ring.advance toCopy).tail + (ring.count + index)) % size =
      (ring.head + index) % size := ring.position_count index
  rw [position]
  exact (written index inside).trans (getD_eq_getElem _ _ _)

theorem contents_kept {buf : ByteMemory}
    (kept : ∀ index < ring.count, buf ((ring.tail + index) % size) =
      ring.buf ((ring.tail + index) % size)) : { ring with buf }.contents = ring.contents :=
  map_congr_left fun index inside => kept index (mem_range.mp inside)

theorem contents_fill (fits : toCopy + ring.count < size) (enough : toCopy ≤ data.length) :
    (ring.fill data toCopy).contents = ring.contents ++ data.take toCopy := by
  have old : { ring with buf := ring.copyIn data toCopy }.contents = ring.contents :=
    contents_kept fun index inside => copyIn_kept fits inside
  rw [← old]
  exact contents_advance { ring with buf := ring.copyIn data toCopy } fits enough
    fun index inside => copyIn_written (by omega) inside

theorem contents_pushSlice (ring : SpscRing size) (data : List UInt8) :
    (ring.pushSlice data).2.contents =
      ring.contents ++ data.take (ring.pushSlice data).1 := by
  rw [pushSlice, available_eq]
  split
  · simp
  · exact contents_fill (by omega) (by omega)

theorem count_skip (some : 0 < ring.count) : ring.skip.count + 1 = ring.count := by
  have headLt := ring.headLt
  have cases := ring.count_cases
  have casesAfter := ring.skip.count_cases
  have position : ring.skip.tail = (ring.tail + 1) % size := rfl
  have sameHead : ring.skip.head = ring.head := rfl
  rw [position, sameHead, mod_size (by omega)] at casesAfter
  split at casesAfter <;> omega

theorem contents_skip (some : 0 < ring.count) :
    ring.contents = ring.buf ring.tail :: ring.skip.contents := by
  rw [contents, ← count_skip some, range_succ_eq_map, map_cons, map_map,
    Nat.add_zero, Nat.mod_eq_of_lt ring.tailLt, contents]
  refine congrArg _ (map_congr_left fun index _ => ?_)
  have next : (ring.skip.tail + index) % size = (ring.tail + (index + 1)) % size := by
    rw [skip, Nat.mod_add_mod]
    exact congrArg (· % size) (by omega)
  rw [next]
  rfl

theorem pop_cons {byte : UInt8} {rest : List UInt8} (isNext : ring.contents = byte :: rest) :
    ring.pop.1 = some byte ∧ ring.pop.2.contents = rest := by
  have positive : 0 < ring.count := by
    rw [← length_contents, isNext, length_cons]
    exact Nat.succ_pos _
  have different : ring.head ≠ ring.tail := by
    have cases := ring.count_cases
    omega
  rw [contents_skip positive] at isNext
  obtain ⟨first, others⟩ := cons.inj isNext
  rw [pop, if_neg different]
  exact ⟨congrArg some first, others⟩

theorem pop_nil (empty : ring.contents = []) : ring.pop = (none, ring) := by
  rw [← isEmpty_iff, isEmpty, decide_eq_true_iff] at empty
  rw [pop, if_pos empty]

end SpscRing

end NanoOs
