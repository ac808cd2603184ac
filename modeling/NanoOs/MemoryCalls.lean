import NanoOs.ProcessMemoryMap

/-!
# The system calls `mmap` and `brk`

Both extend a part of the address space by zeroed pages and remember where it
ends.
-/

namespace NanoOs.MemoryCalls

open PageMapping ProcessMemoryMap

structure CallOutcome where
  tf : TrapFrame
  ctx : Context
  machine : Machine

variable (supply : FrameSupply)

def expectedProt : Nat := 0x3

def expectedFlags : Nat := 0x22

def mmap (tf : TrapFrame) (ctx : Context) (machine : Machine) : Checked CallOutcome :=
  let addrHint := tf.a0
  let len := tf.a1
  let prot := tf.a2
  let flags := tf.a3
  if addrHint ≠ 0 ∨ len = 0 ∨ prot ≠ expectedProt ∨ flags ≠ expectedFlags then
    .ok ⟨{ tf with a0 := wordLimit - 1 - 37 + 1 }, ctx, machine⟩
  else do
    let size ← Memory.alignUp len
    let virtAddr := ctx.mmapNext
    let machine ← ctx.pageMap.allocateAndMapPagesZeroed supply machine virtAddr size userFlags
    let mmapNext ← checkedAdd ctx.mmapNext size
    .ok ⟨{ tf with a0 := virtAddr }, { ctx with mmapNext := mmapNext }, machine⟩

def brk (tf : TrapFrame) (ctx : Context) (machine : Machine) : Checked CallOutcome :=
  let size := tf.a0
  if size ≠ 0 then do
    let rounded ← Memory.alignUp size
    let size ← checkedSub rounded ctx.heapEnd
    let machine ← ctx.pageMap.allocateAndMapPagesZeroed supply machine ctx.heapEnd size userFlags
    let heapEnd ← checkedAdd ctx.heapEnd size
    .ok ⟨{ tf with a0 := heapEnd }, { ctx with heapEnd := heapEnd }, machine⟩
  else
    .ok ⟨{ tf with a0 := ctx.heapEnd }, ctx, machine⟩

/-- The arguments that `mmap` supports. -/
def Supported (tf : TrapFrame) : Prop :=
  tf.a0 = 0 ∧ tf.a1 ≠ 0 ∧ tf.a2 = expectedProt ∧ tf.a3 = expectedFlags

instance (tf : TrapFrame) : Decidable (Supported tf) :=
  inferInstanceAs (Decidable (_ ∧ _))

def roundUp (length : Nat) : Nat := (length + 4095) / 4096 * 4096

section Inversion

variable {supply : FrameSupply} {tf : TrapFrame} {ctx : Context} {machine : Machine}
  {outcome : CallOutcome}

theorem mmap_unsupported (unsupported : ¬ Supported tf) : mmap supply tf ctx machine =
    .ok ⟨{ tf with a0 := wordLimit - 1 - 37 + 1 }, ctx, machine⟩ := by
  have refused : tf.a0 ≠ 0 ∨ tf.a1 = 0 ∨ tf.a2 ≠ expectedProt ∨ tf.a3 ≠ expectedFlags := by
    unfold Supported at unsupported
    tauto
  exact if_pos refused

theorem mmap_eq_ok (supported : Supported tf) : mmap supply tf ctx machine = .ok outcome ↔
    tf.a1 + 4096 < 2 ^ 64 ∧ ctx.mmapNext + roundUp tf.a1 < 2 ^ 64 ∧
      ctx.pageMap.allocateAndMapPagesZeroed supply machine ctx.mmapNext (roundUp tf.a1) userFlags =
        .ok outcome.machine ∧
      outcome.tf = { tf with a0 := ctx.mmapNext } ∧
      outcome.ctx = { ctx with mmapNext := ctx.mmapNext + roundUp tf.a1 } := by
  have accepted : ¬ (tf.a0 ≠ 0 ∨ tf.a1 = 0 ∨ tf.a2 ≠ expectedProt ∨ tf.a3 ≠ expectedFlags) := by
    unfold Supported at supported
    tauto
  unfold mmap
  rw [if_neg accepted]
  constructor
  · intro ran
    obtain ⟨size, sizeEq, ran⟩ := bind_eq_ok.mp ran
    obtain ⟨fits, rfl⟩ := Memory.alignUp_eq_ok.mp sizeEq
    obtain ⟨after, allocated, ran⟩ := bind_eq_ok.mp ran
    obtain ⟨nextFits, ran⟩ := checkedAdd_bind_eq_ok.mp ran
    cases ran
    exact ⟨fits, nextFits, allocated, rfl, rfl⟩
  · rintro ⟨fits, nextFits, allocated, tfEq, ctxEq⟩
    obtain ⟨resultTf, resultCtx, after⟩ := outcome
    dsimp only at allocated tfEq ctxEq
    rw [Memory.alignUp_eq_ok.mpr ⟨fits, rfl⟩, ok_bind]
    change (ctx.pageMap.allocateAndMapPagesZeroed supply machine ctx.mmapNext (roundUp tf.a1)
      userFlags).bind _ = _
    rw [allocated, tfEq, ctxEq]
    change (checkedAdd ctx.mmapNext (roundUp tf.a1)).bind _ = _
    rw [checkedAdd_of_lt nextFits]
    rfl

theorem brk_zero (isZero : tf.a0 = 0) : brk supply tf ctx machine =
    .ok ⟨{ tf with a0 := ctx.heapEnd }, ctx, machine⟩ := by
  exact if_neg (not_not_intro isZero)

theorem brk_eq_ok (nonzero : tf.a0 ≠ 0) : brk supply tf ctx machine = .ok outcome ↔
    tf.a0 + 4096 < 2 ^ 64 ∧ ctx.heapEnd ≤ roundUp tf.a0 ∧
      ctx.pageMap.allocateAndMapPagesZeroed supply machine ctx.heapEnd
        (roundUp tf.a0 - ctx.heapEnd) userFlags = .ok outcome.machine ∧
      outcome.tf = { tf with a0 := roundUp tf.a0 } ∧
      outcome.ctx = { ctx with heapEnd := roundUp tf.a0 } := by
  unfold brk
  rw [if_pos nonzero]
  constructor
  · intro ran
    obtain ⟨rounded, roundedEq, ran⟩ := bind_eq_ok.mp ran
    obtain ⟨fits, rfl⟩ := Memory.alignUp_eq_ok.mp roundedEq
    obtain ⟨ordered, ran⟩ := checkedSub_bind_eq_ok.mp ran
    obtain ⟨after, allocated, ran⟩ := bind_eq_ok.mp ran
    obtain ⟨-, ran⟩ := checkedAdd_bind_eq_ok.mp ran
    rw [Nat.add_sub_cancel' ordered] at ran
    cases ran
    exact ⟨fits, ordered, allocated, rfl, rfl⟩
  · rintro ⟨fits, ordered, allocated, tfEq, ctxEq⟩
    have stopEq : ctx.heapEnd + (roundUp tf.a0 - ctx.heapEnd) = roundUp tf.a0 :=
      Nat.add_sub_cancel' ordered
    have stopFits : ctx.heapEnd + (roundUp tf.a0 - ctx.heapEnd) < 2 ^ 64 := by
      rw [stopEq]
      unfold roundUp
      omega
    obtain ⟨resultTf, resultCtx, after⟩ := outcome
    dsimp only at allocated tfEq ctxEq
    rw [Memory.alignUp_eq_ok.mpr ⟨fits, rfl⟩, ok_bind]
    change (checkedSub (roundUp tf.a0) ctx.heapEnd).bind _ = _
    rw [checkedSub_of_le ordered]
    change (ctx.pageMap.allocateAndMapPagesZeroed supply machine ctx.heapEnd
      (roundUp tf.a0 - ctx.heapEnd) userFlags).bind _ = _
    rw [allocated, tfEq, ctxEq]
    rw [checkedAdd_of_lt stopFits, stopEq]
    rfl

end Inversion

end NanoOs.MemoryCalls
