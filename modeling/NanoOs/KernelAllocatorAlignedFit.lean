import NanoOs.KernelAllocatorSearch

/-!
# Aligned fits

`check_aligned_fit` takes the first multiple of the alignment that lies right behind
the header of the block, or far enough behind it for another block in front.
-/

namespace NanoOs.KernelAllocator

def multipleFrom (align address : Nat) : Nat := (address + align - 1) / align * align

def alignedStart (block align : Nat) : Nat :=
  if align ∣ block + 16 then block + 16 else multipleFrom align (block + 48)

section Multiples

variable {align address candidate block : Nat}

theorem dvd_multipleFrom : align ∣ multipleFrom align address := Nat.dvd_mul_left _ _

theorem le_multipleFrom (positive : 0 < align) : address ≤ multipleFrom align address := by
  unfold multipleFrom
  have split := Nat.div_add_mod (address + align - 1) align
  have small := Nat.mod_lt (address + align - 1) positive
  rw [Nat.mul_comm] at split
  omega

theorem multipleFrom_le (positive : 0 < align) (divides : align ∣ candidate)
    (lower : address ≤ candidate) : multipleFrom align address ≤ candidate := by
  obtain ⟨quotient, rfl⟩ := divides
  unfold multipleFrom
  have bound : (address + align - 1) / align < quotient + 1 := by
    rw [Nat.div_lt_iff_lt_mul positive, Nat.add_mul, Nat.mul_comm quotient]
    omega
  rw [Nat.mul_comm]
  exact Nat.mul_le_mul_left _ (Nat.le_of_lt_succ bound)

theorem multipleFrom_lt (positive : 0 < align) : multipleFrom align address < address + align := by
  unfold multipleFrom
  have bound := Nat.div_mul_le_self (address + align - 1) align
  omega

theorem dvd_alignedStart : align ∣ alignedStart block align := by
  unfold alignedStart
  split
  · assumption
  · exact dvd_multipleFrom

theorem alignedStart_cases (positive : 0 < align) :
    alignedStart block align = block + 16 ∨ block + 48 ≤ alignedStart block align := by
  unfold alignedStart
  split
  · exact Or.inl rfl
  · exact Or.inr (le_multipleFrom positive)

theorem alignedStart_le (positive : 0 < align) (divides : align ∣ candidate)
    (place : candidate = block + 16 ∨ block + 48 ≤ candidate) :
    alignedStart block align ≤ candidate := by
  unfold alignedStart
  split
  · omega
  · rename_i notDivides
    rcases place with rfl | behind
    · exact absurd divides notDivides
    · exact multipleFrom_le positive divides behind

theorem Layout.alignUp_of_lt (layout : Layout) (fits : address + layout.align < 2 ^ 64) :
    alignUp address layout.align = .ok (multipleFrom layout.align address) := by
  obtain ⟨exponent, powerEq⟩ := layout.powerOfTwo
  have positive := layout.align_pos
  have small : exponent ≤ 64 := by
    by_contra large
    have bigger : 2 ^ 64 ≤ 2 ^ exponent := Nat.pow_le_pow_right (by omega) (by omega)
    omega
  unfold alignUp multipleFrom
  rw [checkedAdd_bind fits, checkedSub_bind (by omega),
    checkedSub_bind (by omega), powerEq, and_complement_two_pow (by omega) small]

theorem alignUp_eight_of_lt (fits : address + 8 < 2 ^ 64) :
    alignUp address 8 = .ok (roundedSize address) := by
  unfold alignUp
  rw [checkedAdd_bind fits, checkedSub_bind (by omega),
    checkedSub_bind (by omega), show (8 : Nat) - 1 = 2 ^ 3 - 1 from rfl,
    and_complement_two_pow (by omega) (by omega)]
  congr 1

theorem roundedSize_add {size : Nat} (multiple : address % 8 = 0) :
    roundedSize (address + size) = address + roundedSize size := by
  unfold roundedSize
  omega

end Multiples

section Search

variable {block stop size align fuel aligned location : Nat}

theorem alignedFitFrom_eq (positive : 0 < align) (divides : align ∣ aligned)
    (behind : block + 16 ≤ aligned) (reach : aligned ≤ alignedStart block align)
    (whole : aligned % 8 = 0) (steps : aligned = alignedStart block align ∨ align % 8 = 0)
    (fuelled : 0 < fuel ∧ stop < aligned + fuel) (first : aligned + roundedSize size + 16 < 2 ^ 64)
    (later : stop + align < 2 ^ 64 ∨ alignedStart block align + roundedSize size + 16 < 2 ^ 64) :
    alignedFitFrom block stop size align fuel aligned =
      .ok (if alignedStart block align + roundedSize size + 16 ≤ stop then
        some (alignedStart block align - 16) else none) := by
  induction fuel generalizing aligned with
  | zero => exact absurd fuelled.1 (Nat.lt_irrefl 0)
  | succ fuel ih =>
    have sized : size ≤ roundedSize size := by
      unfold roundedSize
      omega
    rw [alignedFitFrom, checkedAdd_bind (by omega), alignUp_eight_of_lt (by omega),
      ok_bind, roundedSize_add whole, checkedAdd_bind (by unfold blockHeaderSize; omega)]
    unfold blockHeaderSize
    by_cases room : aligned + roundedSize size + 16 ≤ stop
    · rw [if_pos room, checkedSub_bind (by omega), checkedSub_bind (by omega)]
      unfold minBlockSize minAllocSize blockHeaderSize
      by_cases accepted : aligned - 16 - block = 0 ∨ 16 + 16 ≤ aligned - 16 - block
      · have found : alignedStart block align = aligned :=
          le_antisymm (alignedStart_le positive divides (by omega)) reach
        rw [if_pos accepted, found, if_pos room]
      · have different : aligned ≠ alignedStart block align := by
          have place := @alignedStart_cases align block positive
          omega
        have further : aligned + align ≤ alignedStart block align := by
          obtain ⟨quotient, quotientEq⟩ := @dvd_alignedStart align block
          obtain ⟨fewer, rfl⟩ := divides
          have less : fewer < quotient := by
            rw [quotientEq] at reach different
            refine lt_of_le_of_ne (Nat.le_of_mul_le_mul_left reach positive) ?_
            rintro rfl
            exact different rfl
          rw [quotientEq]
          exact Nat.mul_le_mul_left align less
        have multiple := steps.resolve_left different
        rw [if_neg accepted, checkedAdd_bind (by omega)]
        exact ih (Nat.dvd_add divides (Nat.dvd_refl align)) (by omega) further (by omega)
          (Or.inr multiple) (by omega) (by omega)
    · rw [if_neg room, if_neg (by omega)]

variable {layout : Layout}

theorem Layout.alignedStart_small (layout : Layout) (small : layout.align ≤ 8)
    (multiple : block % 8 = 0) : alignedStart block layout.align = block + 16 := by
  rcases layout.align_cases with ⟨-, divisor⟩ | ⟨large, -⟩
  · exact if_pos (divisor.trans (Nat.dvd_of_mod_eq_zero (by omega)))
  · omega

theorem Layout.alignedStart_whole (layout : Layout) (multiple : block % 8 = 0) :
    alignedStart block layout.align % 8 = 0 := by
  rcases layout.align_cases with ⟨small, -⟩ | ⟨-, divisor⟩
  · rw [layout.alignedStart_small small multiple]
    omega
  · have sixteen := Nat.mod_eq_zero_of_dvd (divisor.trans (@dvd_alignedStart layout.align block))
    omega

theorem alignedFit_eq (multiple : block % 8 = 0) (raised : block + 16 + layout.align < 2 ^ 64)
    (first : multipleFrom layout.align (block + 16) + roundedSize layout.size + 16 < 2 ^ 64)
    (later : stop + layout.align < 2 ^ 64 ∨
      alignedStart block layout.align + roundedSize layout.size + 16 < 2 ^ 64) :
    alignedFit block stop layout.size layout.align =
      .ok (if alignedStart block layout.align + roundedSize layout.size + 16 ≤ stop then
        some (alignedStart block layout.align - 16) else none) := by
  have positive := layout.align_pos
  have place := @alignedStart_cases layout.align block positive
  have behind := @le_multipleFrom layout.align (block + 16) positive
  have reach : multipleFrom layout.align (block + 16) ≤ alignedStart block layout.align :=
    multipleFrom_le positive dvd_alignedStart (by omega)
  unfold alignedFit BlockHeader.allocAreaStart blockHeaderSize
  rw [layout.alignUp_of_lt raised, ok_bind]
  rcases layout.align_cases with ⟨small, -⟩ | ⟨-, divisor⟩
  · have start := layout.alignedStart_small small multiple
    exact alignedFitFrom_eq positive dvd_multipleFrom behind reach (by omega) (Or.inl (by omega))
      (by omega) first later
  · have whole := Nat.mod_eq_zero_of_dvd
      (divisor.trans (@dvd_multipleFrom layout.align (block + 16)))
    exact alignedFitFrom_eq positive dvd_multipleFrom behind reach (by omega) (Or.inr (by omega))
      (by omega) first later

theorem alignedFit_some (multiple : block % 8 = 0) (bound : stop < 2 ^ 64)
    (outcome : alignedFit block stop layout.size layout.align = .ok (some location)) :
    location + 16 = alignedStart block layout.align ∧
      alignedStart block layout.align + roundedSize layout.size + 16 ≤ stop := by
  have positive := layout.align_pos
  obtain ⟨start, startEq, search⟩ := bind_eq_ok.mp outcome
  obtain ⟨raisedLt, -⟩ := checkedAdd_bind_eq_ok.mp startEq
  obtain ⟨divides, padding, room, -⟩ := alignedFitFrom_spec (layout.alignUp_dvd startEq) search
  have fits := alignedFit_spec multiple outcome
  have wholeLocation := fits.multiple
  rw [roundedSize_add (by omega)] at room
  have least : alignedStart block layout.align ≤ location + 16 :=
    alignedStart_le positive divides (by omega)
  have place := @alignedStart_cases layout.align block positive
  have reach : multipleFrom layout.align (block + 16) ≤ alignedStart block layout.align :=
    multipleFrom_le positive dvd_alignedStart (by omega)
  rw [alignedFit_eq multiple raisedLt (by omega) (Or.inr (by omega)), if_pos (by omega)] at outcome
  obtain rfl := Option.some.inj (Except.ok.inj outcome)
  omega

end Search

end NanoOs.KernelAllocator
