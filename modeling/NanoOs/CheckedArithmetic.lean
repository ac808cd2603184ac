import Mathlib.Tactic.Ring

/-!
# Overflow-checked machine arithmetic

Kernel code is built with overflow checks, so an addition or subtraction that
leaves the range of a 64-bit word stops the call instead of wrapping.  A call
is modelled as a value of `Checked`, whose error records why it did not return.
-/

namespace NanoOs

inductive Fault
  | overflow
  | assertion (message : String)
  | diverged
  deriving Repr, DecidableEq

abbrev Checked := Except Fault

def wordLimit : Nat := 2 ^ 64

def checkedAdd (left right : Nat) : Checked Nat :=
  if left + right < wordLimit then .ok (left + right) else .error .overflow

def checkedSub (left right : Nat) : Checked Nat :=
  if right ≤ left then .ok (left - right) else .error .overflow

def checkedMul (left right : Nat) : Checked Nat :=
  if left * right < wordLimit then .ok (left * right) else .error .overflow

def checkedAdd32 (left right : Nat) : Checked Nat :=
  if left + right < 2 ^ 32 then .ok (left + right) else .error .overflow

def checkedMul32 (left right : Nat) : Checked Nat :=
  if left * right < 2 ^ 32 then .ok (left * right) else .error .overflow

def ensure (condition : Prop) [Decidable condition] (message : String) : Checked Unit :=
  if condition then .ok () else .error (.assertion message)

def complement (value : Nat) : Nat := wordLimit - 1 - value

variable {α : Type} {left right value : Nat}

theorem bind_eq_ok {β : Type} {first : Checked α} {rest : α → Checked β} {result : β} :
    (first >>= rest) = .ok result ↔
      ∃ value, first = .ok value ∧ rest value = .ok result := by
  cases first with
  | error fault => simp [bind, Except.bind]
  | ok value => simp [bind, Except.bind]

@[simp]
theorem ok_bind {β : Type} (value : α) (rest : α → Checked β) :
    ((.ok value : Checked α) >>= rest) = rest value :=
  rfl

@[simp]
def Returns {α : Type} (property : α → Prop) (call : Checked α) : Prop :=
  ∀ value, call = .ok value → property value

section Returns

variable {α β : Type} {property : α → Prop}

theorem returns_ok {value : α} (holds : property value) : Returns property (.ok value) := by
  rintro other ⟨⟩
  exact holds

theorem returns_bind {first : Checked β} {rest : β → Checked α}
    (returns : ∀ value, first = .ok value → Returns property (rest value)) :
    Returns property (first >>= rest) := by
  intro result ran
  obtain ⟨value, first, rest⟩ := bind_eq_ok.mp ran
  exact returns value first result rest

theorem returns_ite {condition : Prop} [Decidable condition] {first second : Checked α}
    (firstReturns : Returns property first) (secondReturns : Returns property second) :
    Returns property (if condition then first else second) := by
  split
  · exact firstReturns
  · exact secondReturns

end Returns

theorem checkedAdd_eq_ok :
    checkedAdd left right = .ok value ↔ left + right < 2 ^ 64 ∧ value = left + right := by
  unfold checkedAdd wordLimit
  split
  · rename_i bound
    simp only [Except.ok.injEq]
    omega
  · rename_i bound
    simp only [reduceCtorEq, false_iff]
    omega

theorem checkedSub_eq_ok :
    checkedSub left right = .ok value ↔ right ≤ left ∧ value = left - right := by
  unfold checkedSub
  split
  · rename_i bound
    simp only [Except.ok.injEq]
    omega
  · rename_i bound
    simp only [reduceCtorEq, false_iff]
    omega

theorem checkedAdd_of_lt (fits : left + right < 2 ^ 64) :
    checkedAdd left right = .ok (left + right) :=
  checkedAdd_eq_ok.mpr ⟨fits, rfl⟩

theorem checkedSub_of_le (le : right ≤ left) : checkedSub left right = .ok (left - right) :=
  checkedSub_eq_ok.mpr ⟨le, rfl⟩

section Bind

variable {rest : Nat → Checked α}

theorem checkedAdd_bind (fits : left + right < 2 ^ 64) :
    checkedAdd left right >>= rest = rest (left + right) := by
  rw [checkedAdd_of_lt fits, ok_bind]

theorem checkedSub_bind (le : right ≤ left) :
    checkedSub left right >>= rest = rest (left - right) := by
  rw [checkedSub_of_le le, ok_bind]

theorem ensure_bind {condition : Prop} [Decidable condition] {message : String}
    {rest : Unit → Checked α} (truth : condition) :
    ensure condition message >>= rest = rest () := by
  rw [ensure, if_pos truth, ok_bind]

variable {result : α}

theorem checkedAdd_bind_eq_ok : checkedAdd left right >>= rest = .ok result ↔
    left + right < 2 ^ 64 ∧ rest (left + right) = .ok result := by
  simp [bind_eq_ok, checkedAdd_eq_ok, and_assoc]

theorem checkedSub_bind_eq_ok : checkedSub left right >>= rest = .ok result ↔
    right ≤ left ∧ rest (left - right) = .ok result := by
  simp [bind_eq_ok, checkedSub_eq_ok, and_assoc]

theorem ensure_bind_eq_ok {condition : Prop} [Decidable condition] {message : String}
    {rest : Unit → Checked α} :
    ensure condition message >>= rest = .ok result ↔ condition ∧ rest () = .ok result := by
  by_cases truth : condition <;> simp [ensure, bind, Except.bind, truth]

end Bind

theorem checkedMul_of_lt (fits : left * right < 2 ^ 64) :
    checkedMul left right = .ok (left * right) :=
  if_pos fits

theorem checkedMul32_of_lt (fits : left * right < 2 ^ 32) :
    checkedMul32 left right = .ok (left * right) :=
  if_pos fits

theorem ensure_eq_ok {condition : Prop} [Decidable condition] {message : String} {value : Unit} :
    ensure condition message = .ok value ↔ condition := by
  unfold ensure
  split <;> rename_i truth <;> simp [truth]

theorem ensure_of_true {condition : Prop} [Decidable condition] (truth : condition)
    (message : String) : ensure condition message = .ok () :=
  if_pos truth

theorem div_mod_add_of_lt {index size : Nat} (inside : value % size + index < size) :
    (value + index) / size = value / size ∧ (value + index) % size = value % size + index := by
  have split := Nat.div_add_mod value size
  have joined : value + index = value % size + index + size * (value / size) := by omega
  rw [joined, Nat.add_mul_div_left _ _ (by omega), Nat.add_mul_mod_self_left,
    Nat.div_eq_of_lt inside, Nat.mod_eq_of_lt inside]
  exact ⟨Nat.zero_add _, rfl⟩

theorem and_highMask {width k : Nat} (fits : value < 2 ^ width) (small : k ≤ width) :
    value &&& (2 ^ width - 2 ^ k) = value / 2 ^ k * 2 ^ k := by
  have positive : 0 < 2 ^ k := Nat.two_pow_pos k
  have powerLe : 2 ^ k ≤ 2 ^ width := Nat.pow_le_pow_right (by omega) small
  have rewriteMask : 2 ^ width - 2 ^ k = 2 ^ width - (2 ^ k - 1 + 1) := by omega
  apply Nat.eq_of_testBit_eq
  intro index
  rw [rewriteMask, Nat.testBit_and, Nat.testBit_two_pow_sub_succ (by omega),
    Nat.testBit_two_pow_sub_one, Nat.testBit_mul_two_pow, Nat.testBit_div_two_pow]
  by_cases low : index < k
  · simp [low]
  · have restored : index - k + k = index := by omega
    rw [restored]
    by_cases high : index < width
    · simp [low, high]
      omega
    · have zero : value.testBit index = false :=
        Nat.testBit_lt_two_pow (lt_of_lt_of_le fits
          (Nat.pow_le_pow_right (by omega) (by omega)))
      simp [zero]

/-- The mask idiom `value & !(align - 1)` rounds down to the alignment. -/
theorem and_complement_two_pow {k : Nat} (fits : value < 2 ^ 64) (small : k ≤ 64) :
    value &&& complement (2 ^ k - 1) = value / 2 ^ k * 2 ^ k := by
  have positive : 0 < 2 ^ k := Nat.two_pow_pos k
  have mask : complement (2 ^ k - 1) = 2 ^ 64 - 2 ^ k := by
    unfold complement wordLimit
    omega
  rw [mask, and_highMask fits small]

theorem or_mask_two_pow (other k : Nat) (fits : value < 2 ^ 64) (small : k ≤ 64) :
    (value &&& complement (2 ^ k - 1)) ||| (other &&& (2 ^ k - 1)) =
      value / 2 ^ k * 2 ^ k + other % 2 ^ k := by
  rw [and_complement_two_pow fits small, Nat.and_two_pow_sub_one_eq_mod, Nat.mul_comm,
    ← Nat.two_pow_add_eq_or_of_lt (Nat.mod_lt _ (Nat.two_pow_pos k))]

end NanoOs
