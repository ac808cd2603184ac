import NanoOs.RadixTables
import NanoOs.CheckedArithmetic
import Mathlib.Data.Nat.Bitwise

/-!
# Page table entries

Flags and entries of the page tables as 64-bit words, and what an entry means
after it was set.
-/

namespace NanoOs.PageMapping

open RadixTables (Entry)

/-- The bits that the flag constants use: 0 to 7, and 59 to 63. -/
def flagBits : Nat := 0xf8000000000000ff

structure PageFlags where
  bits : Nat
  within : bits &&& flagBits = bits

namespace PageFlags

def valid : PageFlags := ⟨1 <<< 0, by decide⟩
def read : PageFlags := ⟨1 <<< 1, by decide⟩
def write : PageFlags := ⟨1 <<< 2, by decide⟩
def execute : PageFlags := ⟨1 <<< 3, by decide⟩
def user : PageFlags := ⟨1 <<< 4, by decide⟩
def global : PageFlags := ⟨1 <<< 5, by decide⟩
def accessed : PageFlags := ⟨1 <<< 6, by decide⟩
def dirty : PageFlags := ⟨1 <<< 7, by decide⟩
def theadMemory : PageFlags := ⟨0x0f <<< 59, by decide⟩
def theadSo : PageFlags := ⟨1 <<< 63, by decide⟩
def empty : PageFlags := ⟨0, by decide⟩

def bitor (left right : PageFlags) : PageFlags where
  bits := left.bits ||| right.bits
  within := by
    rw [Nat.and_or_distrib_right, left.within, right.within]

def intersects (flags other : PageFlags) : Bool := flags.bits &&& other.bits ≠ 0

def permissions : PageFlags := (read.bitor write).bitor execute

theorem testBit_middle (flags : PageFlags) {position : Nat} (lower : 8 ≤ position)
    (upper : position < 59) : flags.bits.testBit position = false := by
  have clear : ∀ position < 59, 8 ≤ position → flagBits.testBit position = false := by
    decide
  rw [← flags.within, Nat.testBit_and, clear position upper lower, Bool.and_false]

end PageFlags

def physToPpn (address : Nat) : Nat := (address >>> 12) &&& 0x000fffffffff

namespace PageTableEntry

/-- `PageTableEntry::set`: the raw entry for an address and flags. -/
def set (physAddr : Nat) (flags : PageFlags) : Nat :=
  let ppn := physToPpn physAddr
  let pageFlags := (flags.bitor PageFlags.valid).bits
  let isLeaf := flags.intersects PageFlags.permissions
  let pageFlags := if isLeaf then pageFlags else pageFlags &&& 0x0fffffffffffffff
  (ppn <<< 10) ||| pageFlags

def isValid (raw : Nat) : Bool := raw &&& PageFlags.valid.bits ≠ 0

def flags (raw : Nat) : Nat := raw &&& 0x3ff

def isLeaf (raw : Nat) : Bool := flags raw &&& PageFlags.permissions.bits ≠ 0

def addr (raw : Nat) : Nat := ((raw >>> 10) &&& 0x00000fffffffffff) <<< 12

/-- What the raw entry means, a leaf being the raw entry itself. -/
def classify (raw : Nat) : Entry Nat :=
  if isValid raw then if isLeaf raw then .leaf raw else .pointer (addr raw) else .invalid

theorem classify_invalid {raw : Nat} (missing : classify raw = .invalid) :
    ¬ isValid raw = true := by
  unfold classify at missing
  split at missing
  · split at missing <;> cases missing
  · assumption

theorem classify_pointer {raw target : Nat} (link : classify raw = .pointer target) :
    isValid raw = true ∧ ¬ isLeaf raw = true ∧ addr raw = target := by
  unfold classify at link
  split at link
  · rename_i valid
    split at link
    · cases link
    · rename_i notLeaf
      exact ⟨valid, notLeaf, Entry.pointer.inj link⟩
  · cases link

theorem classify_leaf {raw value : Nat} (leaf : classify raw = .leaf value) :
    raw = value ∧ isValid value = true ∧ isLeaf value = true := by
  unfold classify at leaf
  split at leaf
  · rename_i valid
    split at leaf
    · rename_i isLeaf
      obtain rfl := Entry.leaf.inj leaf
      exact ⟨rfl, valid, isLeaf⟩
    · cases leaf
  · cases leaf

theorem classify_zero : classify 0 = .invalid := rfl

theorem addr_lt (raw : Nat) : addr raw < 2 ^ 64 := by
  have small : (raw >>> 10) &&& 0x00000fffffffffff ≤ 0x00000fffffffffff := Nat.and_le_right
  unfold addr
  omega

section Fields

variable {ppn bits : Nat}

theorem page_number (small : ppn < 2 ^ 44)
    (clear : ∀ position, 10 ≤ position → position < 54 → bits.testBit position = false) :
    ((ppn <<< 10 ||| bits) >>> 10) &&& 0x00000fffffffffff = ppn := by
  have mask : (0x00000fffffffffff : Nat) = 2 ^ 44 - 1 := by norm_num
  rw [mask, Nat.and_two_pow_sub_one_eq_mod]
  apply Nat.eq_of_testBit_eq
  intro position
  rw [Nat.testBit_mod_two_pow, Nat.testBit_shiftRight, Nat.testBit_or, Nat.testBit_shiftLeft]
  by_cases inField : position < 44
  · rw [clear (10 + position) (by omega) (by omega)]
    simp [inField]
  · have above : ppn.testBit position = false :=
      Nat.testBit_lt_two_pow (small.trans_le (Nat.pow_le_pow_right (by norm_num) (by omega)))
    simp [inField, above]

theorem low_bits (mask : Nat) (small : mask < 2 ^ 10) :
    (ppn <<< 10 ||| bits) &&& mask = bits &&& mask := by
  apply Nat.eq_of_testBit_eq
  intro position
  by_cases above : 10 ≤ position
  · have clear : mask.testBit position = false :=
      Nat.testBit_lt_two_pow (small.trans_le (Nat.pow_le_pow_right (by norm_num) above))
    simp [clear]
  · simp [above]

end Fields

section Set

variable {physAddr : Nat} {flags : PageFlags}

theorem physToPpn_eq_mod (physAddr : Nat) : physToPpn physAddr = physAddr / 2 ^ 12 % 2 ^ 36 := by
  have mask : (0x000fffffffff : Nat) = 2 ^ 36 - 1 := by norm_num
  unfold physToPpn
  rw [mask, Nat.and_two_pow_sub_one_eq_mod, Nat.shiftRight_eq_div_pow]

/-- An entry has the page number and, unless it is a leaf, all but the four
highest bits of the flags. -/
theorem exists_set (physAddr : Nat) (flags : PageFlags) :
    ∃ bits, set physAddr flags = physToPpn physAddr <<< 10 ||| bits ∧
      ∀ position, bits.testBit position = ((flags.bitor PageFlags.valid).bits.testBit position &&
        (flags.intersects PageFlags.permissions || decide (position < 60))) := by
  refine ⟨_, rfl, fun position => ?_⟩
  cases flags.intersects PageFlags.permissions with
  | true => simp
  | false =>
    have mask : (0x0fffffffffffffff : Nat) = 2 ^ 60 - 1 := by norm_num
    simp only [mask, Nat.testBit_and, Nat.testBit_two_pow_sub_one, Bool.false_eq_true, if_false,
      Bool.false_or]

theorem set_low (mask : Nat) (small : mask < 2 ^ 10) :
    set physAddr flags &&& mask = (flags.bits ||| PageFlags.valid.bits) &&& mask := by
  obtain ⟨bits, raw, kept⟩ := exists_set physAddr flags
  rw [raw, low_bits mask small]
  apply Nat.eq_of_testBit_eq
  intro position
  rw [Nat.testBit_and, Nat.testBit_and, kept]
  by_cases low : position < 60
  · rw [decide_eq_true low, Bool.or_true, Bool.and_true]
    rfl
  · have clear : mask.testBit position = false :=
      Nat.testBit_lt_two_pow (small.trans_le (Nat.pow_le_pow_right (by norm_num) (by omega)))
    rw [clear, Bool.and_false, Bool.and_false]

theorem testBit_set {position : Nat} (high : 46 ≤ position) :
    (set physAddr flags).testBit position = (flags.bits.testBit position &&
      (flags.intersects PageFlags.permissions || decide (position < 60))) := by
  obtain ⟨bits, raw, kept⟩ := exists_set physAddr flags
  have number : (physToPpn physAddr).testBit (position - 10) = false := by
    refine Nat.testBit_lt_two_pow (lt_of_lt_of_le ?_ (Nat.pow_le_pow_right (by norm_num)
      (show 36 ≤ position - 10 by omega)))
    rw [physToPpn_eq_mod]
    exact Nat.mod_lt _ (by norm_num)
  have valid : PageFlags.valid.bits.testBit position = false :=
    Nat.testBit_lt_two_pow (Nat.one_lt_two_pow (by omega))
  rw [raw, Nat.testBit_or, Nat.testBit_shiftLeft, number, Bool.and_false, Bool.false_or, kept]
  unfold PageFlags.bitor
  rw [Nat.testBit_or, valid, Bool.or_false]

theorem addr_set_mod (physAddr : Nat) (flags : PageFlags) :
    addr (set physAddr flags) = physAddr / 2 ^ 12 % 2 ^ 36 * 2 ^ 12 := by
  obtain ⟨bits, raw, kept⟩ := exists_set physAddr flags
  unfold addr
  rw [raw, physToPpn_eq_mod, page_number (by omega), Nat.shiftLeft_eq]
  intro position lower upper
  rw [kept, PageFlags.testBit_middle _ (by omega) (by omega), Bool.false_and]

theorem addr_set (small : physAddr < 2 ^ 48) (aligned : physAddr % 4096 = 0) :
    addr (set physAddr flags) = physAddr := by
  rw [addr_set_mod]
  omega

theorem isValid_set (physAddr : Nat) (flags : PageFlags) : isValid (set physAddr flags) = true := by
  unfold isValid
  rw [set_low _ (by decide), Nat.and_or_distrib_right]
  refine decide_eq_true fun zero => ?_
  exact absurd (Nat.or_eq_zero_iff.mp zero).2 (by decide)

theorem isLeaf_set (physAddr : Nat) (flags : PageFlags) :
    isLeaf (set physAddr flags) = flags.intersects PageFlags.permissions := by
  have narrow : 0x3ff &&& PageFlags.permissions.bits = PageFlags.permissions.bits := by decide
  have valid : PageFlags.valid.bits &&& PageFlags.permissions.bits = 0 := by decide
  unfold isLeaf PageTableEntry.flags
  rw [Nat.and_assoc, narrow, set_low _ (by decide), Nat.and_or_distrib_right, valid, Nat.or_zero]
  rfl

theorem classify_set_leaf (permitted : flags.intersects PageFlags.permissions = true) :
    classify (set physAddr flags) = .leaf (set physAddr flags) := by
  unfold classify
  rw [if_pos (isValid_set _ _), if_pos ((isLeaf_set _ _).trans permitted)]

theorem classify_set_empty (small : physAddr < 2 ^ 48) (aligned : physAddr % 4096 = 0) :
    classify (set physAddr PageFlags.empty) = .pointer physAddr := by
  have notLeaf : ¬ isLeaf (set physAddr PageFlags.empty) = true := by
    rw [isLeaf_set]
    decide
  unfold classify
  rw [if_pos (isValid_set _ _), if_neg notLeaf, addr_set small aligned]

/-- An entry gives back the address and the flags it was set with.  The memory
attributes, bits 59 to 63, are for leaves only. -/
structure RoundTrips (physAddr : Nat) (flags : PageFlags) : Prop where
  addrEq : addr (set physAddr flags) = physAddr
  valid : isValid (set physAddr flags) = true
  flagsEq : PageTableEntry.flags (set physAddr flags) =
    flags.bits &&& 0x3ff ||| PageFlags.valid.bits
  leaf : isLeaf (set physAddr flags) = true ↔ flags.intersects PageFlags.read = true ∨
    flags.intersects PageFlags.write = true ∨ flags.intersects PageFlags.execute = true
  attributes : isLeaf (set physAddr flags) = true → ∀ position, 59 ≤ position → position < 64 →
    (set physAddr flags).testBit position = flags.bits.testBit position
  clear : ¬ isLeaf (set physAddr flags) = true → ∀ position, 54 ≤ position → position < 64 →
    (set physAddr flags).testBit position = false

theorem intersects_permissions : flags.intersects PageFlags.permissions = true ↔
    flags.intersects PageFlags.read = true ∨ flags.intersects PageFlags.write = true ∨
      flags.intersects PageFlags.execute = true := by
  unfold PageFlags.intersects PageFlags.permissions PageFlags.bitor
  simp only [decide_eq_true_iff, Nat.and_or_distrib_left, ne_eq, Nat.or_eq_zero_iff, not_and_or,
    or_assoc]

theorem flags_set (physAddr : Nat) (flags : PageFlags) :
    PageTableEntry.flags (set physAddr flags) = flags.bits &&& 0x3ff ||| PageFlags.valid.bits := by
  unfold PageTableEntry.flags
  rw [set_low _ (by decide), Nat.and_or_distrib_right]
  rfl

/-- `phys_to_ppn` keeps 36 bits of the page number, and of the attribute bits
only 60 to 63 are cleared where the entry is not a leaf. -/
theorem roundTrips_iff (below : physAddr < 2 ^ 56) (aligned : physAddr % 4096 = 0) :
    RoundTrips physAddr flags ↔ physAddr < 2 ^ 48 ∧
      (flags.intersects PageFlags.permissions = true ∨ flags.bits.testBit 59 = false) := by
  constructor
  · intro trips
    have addrEq := trips.addrEq
    rw [addr_set_mod] at addrEq
    refine ⟨by omega, ?_⟩
    cases permitted : flags.intersects PageFlags.permissions with
    | true => exact .inl rfl
    | false =>
      have clear := trips.clear (by simp [isLeaf_set, permitted]) 59 (by omega) (by omega)
      rw [testBit_set (by omega), permitted] at clear
      exact .inr (by simpa using clear)
  · rintro ⟨small, allowed⟩
    refine ⟨addr_set small aligned, isValid_set _ _, flags_set _ _, ?_, ?_, ?_⟩
    · rw [isLeaf_set, intersects_permissions]
    · intro leaf position lower upper
      rw [isLeaf_set] at leaf
      rw [testBit_set (by omega), leaf, Bool.true_or, Bool.and_true]
    · intro notLeaf position lower upper
      rw [isLeaf_set] at notLeaf
      rw [testBit_set (by omega), Bool.eq_false_iff.mpr notLeaf, Bool.false_or]
      -- between the page number and the attributes no flag has a bit
      rcases Nat.lt_trichotomy position 59 with middle | rfl | high
      · rw [flags.testBit_middle (by omega) middle, Bool.false_and]
      · rw [allowed.resolve_left notLeaf, Bool.false_and]
      · rw [decide_eq_false (by omega), Bool.and_false]

theorem kernelPage_roundTrips :
    RoundTrips 0x80200000 (PageFlags.read.bitor PageFlags.theadMemory) :=
  (roundTrips_iff (by decide) (by decide)).mpr ⟨by decide, .inl rfl⟩

/-- A page at 2^48 comes back as page 0. -/
theorem highPage_lost : (2 ^ 48 : Nat) < 2 ^ 56 ∧ 2 ^ 48 % 4096 = 0 ∧
    addr (set (2 ^ 48) PageFlags.read) = 0 ∧ ¬ RoundTrips (2 ^ 48) PageFlags.read := by
  have lost : addr (set (2 ^ 48) PageFlags.read) = 0 := by decide
  refine ⟨by decide, by decide, lost, fun trips => ?_⟩
  exact absurd (lost.symm.trans trips.addrEq) (by norm_num)

end Set

end PageTableEntry

end NanoOs.PageMapping
