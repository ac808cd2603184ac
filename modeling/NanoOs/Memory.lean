import NanoOs.CheckedArithmetic

/-!
# Memory regions and page rounding
-/

namespace NanoOs.Memory

structure Region where
  start : Nat
  stop : Nat
  deriving Repr, DecidableEq

def pageSize : Nat := 4096

def alignDown (address : Nat) : Nat := address &&& complement (pageSize - 1)

def alignUp (address : Nat) : Checked Nat := do
  let raised ← checkedAdd address pageSize
  let last ← checkedSub raised 1
  .ok (last &&& complement (pageSize - 1))

theorem alignDown_eq {address : Nat} (fits : address < 2 ^ 64) :
    alignDown address = address / 4096 * 4096 :=
  and_complement_two_pow fits (show 12 ≤ 64 by omega)

theorem alignUp_eq_ok {address value : Nat} :
    alignUp address = .ok value ↔
      address + 4096 < 2 ^ 64 ∧ value = (address + 4095) / 4096 * 4096 := by
  have masked : ∀ last, last < 2 ^ 64 →
      last &&& complement (pageSize - 1) = last / 4096 * 4096 :=
    fun last fits => and_complement_two_pow fits (show 12 ≤ 64 by omega)
  have pageSizeEq : pageSize = 4096 := rfl
  unfold alignUp
  constructor
  · intro ran
    obtain ⟨fits, ran⟩ := checkedAdd_bind_eq_ok.mp ran
    cases ran
    rw [masked _ (by rw [pageSizeEq]; omega), pageSizeEq]
    exact ⟨fits, rfl⟩
  · rintro ⟨fits, rfl⟩
    rw [pageSizeEq, checkedAdd_bind fits, checkedSub_bind (by omega),
      ← pageSizeEq, masked _ (by rw [pageSizeEq]; omega)]
    rfl

end NanoOs.Memory
