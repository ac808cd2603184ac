import Mathlib.Tactic.Ring

/-!
# Byte-addressed memory with little-endian words

A memory assigns a byte to every address.  Multi-byte values are stored little
endian in consecutive bytes.  The two facts every client needs are that a word
reads back as it was written and that a write leaves every disjoint word, and
every byte outside the written range, alone.
-/

namespace NanoOs

abbrev ByteMemory := Nat → UInt8

namespace ByteMemory

/-- The little-endian value of `count` consecutive bytes. -/
def readWord (memory : ByteMemory) (address : Nat) : Nat → Nat
  | 0 => 0
  | count + 1 =>
      (memory address).toNat + 256 * readWord memory (address + 1) count

/-- Store the low `count` bytes of `value` at `address`, little endian. -/
def writeWord (memory : ByteMemory) (address count value : Nat) : ByteMemory :=
  fun location =>
    if address ≤ location ∧ location < address + count then
      UInt8.ofNat (value / 256 ^ (location - address))
    else
      memory location

/-- Replace `count` bytes from `address` on, byte by byte. -/
def writeBytes (memory : ByteMemory) (address count : Nat) (bytes : Nat → UInt8) : ByteMemory :=
  fun location =>
    if address ≤ location ∧ location < address + count then bytes (location - address)
    else memory location

theorem writeBytes_inside (memory : ByteMemory) {address count index : Nat} (bytes : Nat → UInt8)
    (inside : index < count) : writeBytes memory address count bytes (address + index) =
      bytes index := by
  unfold writeBytes
  rw [if_pos (by omega), Nat.add_sub_cancel_left]

variable {address count value : Nat}

theorem writeBytes_outside (memory : ByteMemory) {location : Nat} (bytes : Nat → UInt8)
    (outside : location < address ∨ address + count ≤ location) :
    writeBytes memory address count bytes location = memory location := by
  unfold writeBytes
  rw [if_neg (by omega)]

theorem writeBytes_congr (memory : ByteMemory) {first second : Nat → UInt8}
    (agree : ∀ index < count, first index = second index) :
    writeBytes memory address count first = writeBytes memory address count second := by
  funext location
  refine if_ctx_congr Iff.rfl (fun inside => ?_) fun _ => rfl
  exact agree _ (by omega)

theorem readWord_lt (memory : ByteMemory) (address count : Nat) :
    readWord memory address count < 256 ^ count := by
  induction count generalizing address with
  | zero => exact Nat.one_pos
  | succ count ih =>
    have firstByte := (memory address).toNat_lt
    have rest := ih (address + 1)
    rw [readWord, pow_succ']
    omega

theorem writeWord_outside (memory : ByteMemory) {location : Nat}
    (outside : location < address ∨ address + count ≤ location) :
    writeWord memory address count value location = memory location := by
  unfold writeWord
  rw [if_neg]
  omega

theorem readWord_congr {first second : ByteMemory}
    (agree : ∀ location, address ≤ location → location < address + count →
      first location = second location) :
    readWord first address count = readWord second address count := by
  induction count generalizing address with
  | zero => rfl
  | succ count ih =>
    simp only [readWord]
    rw [agree address (by omega) (by omega)]
    rw [ih fun location lower upper => agree location (by omega) (by omega)]

theorem readWord_translate {first second : ByteMemory} {target : Nat}
    (agree : ∀ index < count, first (address + index) = second (target + index)) :
    readWord first address count = readWord second target count := by
  induction count generalizing address target with
  | zero => rfl
  | succ count ih =>
    have head := agree 0 (by omega)
    rw [Nat.add_zero, Nat.add_zero] at head
    simp only [readWord]
    rw [head, @ih (address + 1) (target + 1)]
    intro index bound
    rw [Nat.add_assoc, Nat.add_assoc, Nat.add_comm 1 index]
    exact agree (index + 1) (by omega)

theorem readWord_writeWord_disjoint (memory : ByteMemory) {other width : Nat}
    (disjoint : other + width ≤ address ∨ address + count ≤ other) :
    readWord (writeWord memory address count value) other width =
      readWord memory other width := by
  apply readWord_congr
  intro location lower upper
  exact writeWord_outside memory (by omega)

theorem readWord_writeWord_same (memory : ByteMemory) (address count value : Nat) :
    readWord (writeWord memory address count value) address count =
      value % 256 ^ count := by
  induction count generalizing address value memory with
  | zero => simp [readWord, Nat.mod_one]
  | succ count ih =>
    have firstByte : (writeWord memory address (count + 1) value address).toNat =
        value % 256 := by
      simp [writeWord]
    have shifted :
        readWord (writeWord memory address (count + 1) value) (address + 1) count =
          readWord (writeWord memory (address + 1) count (value / 256))
            (address + 1) count := by
      apply readWord_congr
      intro location lower upper
      have exponent : location - address = location - (address + 1) + 1 := by omega
      simp only [writeWord]
      rw [if_pos (by omega), if_pos (by omega), exponent, pow_succ',
        Nat.div_div_eq_div_mul]
    rw [readWord, firstByte, shifted, ih, pow_succ', Nat.mod_mul]

theorem readWord_writeWord_of_lt (memory : ByteMemory) (fits : value < 256 ^ count) :
    readWord (writeWord memory address count value) address count = value := by
  rw [readWord_writeWord_same, Nat.mod_eq_of_lt fits]

end ByteMemory

end NanoOs
