import Mathlib.Data.Fin.Tuple.Basic
import NanoOs.UserCopyBytes

/-!
# Atomic instructions that the kernel carries out

Where the hardware does not support an atomic instruction, the trap handler carries
it out for the process: it reads the operand, stores the result and puts the old
value into a register.  The second half states what the instruction set says, and
when the two agree.
-/

namespace NanoOs.Amo

open PageMapping UserAccess Function

/-- The registers `x1` to `x31` in the order of the trap frame. -/
abbrev GpRegisters := Fin 31 → BitVec 64

structure ProcessTrapFrame where
  registers : GpRegisters
  pc : BitVec 64
  sepc : BitVec 64
  sstatus : BitVec 64
  stval : BitVec 64
  scause : BitVec 64
  satp : BitVec 64

def GpRegisters.get (registers : GpRegisters) : Nat → Checked (BitVec 64)
  | 0 => .ok 0
  | index + 1 =>
      if inRange : index < 31 then .ok (registers ⟨index, inRange⟩)
      else .error (.assertion ("Invalid register index: " ++ toString (index + 1)))

/-- A store through `get_mut`. -/
def GpRegisters.setMut (registers : GpRegisters) (value : BitVec 64) : Nat → Checked GpRegisters
  | 0 => .error (.assertion "Cannot write to x0 (zero register)")
  | index + 1 =>
      if inRange : index < 31 then .ok (Function.update registers ⟨index, inRange⟩ value)
      else .error (.assertion ("Invalid register index: " ++ toString (index + 1)))

/-- The text of a number with `{:#x}`. -/
def hexText (value : Nat) : String := "0x" ++ String.ofList (Nat.toDigits 16 value)

def unwrapPhys : Option Nat → Checked Nat
  | none => .error (.assertion "called `Option::unwrap()` on a `None` value")
  | some phys => .ok phys

/-- One arm of the handler: read so many bytes, store what comes of them and put the
old value into a register, as `usize`. -/
def exchange (memory : ByteMemory) (frame : ProcessTrapFrame) (physAddr width rd : Nat)
    (result : BitVec (8 * width) → BitVec (8 * width)) :
    Checked (ByteMemory × ProcessTrapFrame) := do
  let prev := BitVec.ofNat (8 * width) (memory.readWord physAddr width)
  let memory := memory.writeWord physAddr width (result prev).toNat
  let registers ← GpRegisters.setMut frame.registers (prev.setWidth 64) rd
  .ok (memory, { frame with registers })

def handleAmoFault (pageMap : PageMapper) (memory : ByteMemory) (trapFrame : ProcessTrapFrame) :
    Checked (ByteMemory × ProcessTrapFrame) := do
  let physSepc ← unwrapPhys (pageMap.virtToPhys memory trapFrame.sepc.toNat)
  let inst := memory.readWord physSepc 4
  let opcode := inst &&& 0x7f
  let funct3 := (inst >>> 12) &&& 0x7
  let funct5 := (inst >>> 27) &&& 0x1f
  let rd := (inst >>> 7) &&& 0x1f
  let rs1 := (inst >>> 15) &&& 0x1f
  let rs2 := (inst >>> 20) &&& 0x1f
  ensure (opcode = 0x2f) ("Not an AMO instruction: opcode " ++ hexText opcode)
  let virtAddr ← GpRegisters.get trapFrame.registers rs1
  let physAddr ← unwrapPhys (pageMap.virtToPhys memory virtAddr.toNat)
  let (memory, trapFrame) ← match funct5, funct3 with
    | 0x1, 0x2 => do
        let val ← GpRegisters.get trapFrame.registers rs2
        exchange memory trapFrame physAddr 4 rd fun _ => val.setWidth 32
    | 0x0, 0x2 => do
        let addend ← GpRegisters.get trapFrame.registers rs2
        exchange memory trapFrame physAddr 4 rd fun prev => prev + addend.setWidth 32
    | 0x0, 0x3 => do
        let addend ← GpRegisters.get trapFrame.registers rs2
        exchange memory trapFrame physAddr 8 rd fun prev => prev + addend
    | _, _ => .error (.assertion ("Unhandled AMO instruction: funct5=" ++ hexText funct5 ++
        ", funct3=" ++ hexText funct3))
  let pc ← checkedAdd trapFrame.sepc.toNat 4
  .ok (memory, { trapFrame with pc := BitVec.ofNat 64 pc })

inductive Operation
  | swapWord
  | addWord
  | addDouble
  deriving Repr, DecidableEq

def Operation.width : Operation → Nat
  | .swapWord | .addWord => 4
  | .addDouble => 8

def Operation.funct5 : Operation → Nat
  | .swapWord => 1
  | .addWord | .addDouble => 0

def Operation.funct3 : Operation → Nat
  | .swapWord | .addWord => 2
  | .addDouble => 3

/-- What the instruction stores, from the old value and the second register. -/
def Operation.result (operation : Operation) {bits : Nat} (old operand : BitVec bits) :
    BitVec bits :=
  match operation with
  | .swapWord => operand
  | .addWord | .addDouble => old + operand

def Operation.load (operation : Operation) (memory : ByteMemory) (phys : Nat) :
    BitVec (8 * operation.width) :=
  BitVec.ofNat _ (memory.readWord phys operation.width)

def Operation.store (operation : Operation) (memory : ByteMemory) (phys : Nat)
    (register : BitVec 64) : ByteMemory :=
  memory.writeWord phys operation.width
    (operation.result (operation.load memory phys) (register.setWidth _)).toNat

structure Instruction where
  operation : Operation
  rd : Fin 32
  rs1 : Fin 32
  rs2 : Fin 32
  acquire : Bool
  release : Bool
  deriving Repr, DecidableEq

/-- The word of an instruction, field by field from the highest. -/
def Instruction.encode (instruction : Instruction) : Nat :=
  instruction.operation.funct5 * 2 ^ 27 + instruction.acquire.toNat * 2 ^ 26 +
    instruction.release.toNat * 2 ^ 25 + instruction.rs2 * 2 ^ 20 + instruction.rs1 * 2 ^ 15 +
    instruction.operation.funct3 * 2 ^ 12 + instruction.rd * 2 ^ 7 + 0x2f

structure Hart where
  registers : Fin 32 → BitVec 64
  pc : BitVec 64
  memory : ByteMemory

/-- The effect of the instruction, by the instruction set: none if the address of the
operand is misaligned or not mapped, and `x0` stays zero. -/
def Instruction.execute (instruction : Instruction) (translate : Nat → Option Nat) (hart : Hart) :
    Option Hart :=
  let operation := instruction.operation
  let address := (hart.registers instruction.rs1).toNat
  if address % operation.width = 0 then
    (translate address).map fun phys =>
      { registers := if instruction.rd = 0 then hart.registers
          else Function.update hart.registers instruction.rd
            ((operation.load hart.memory phys).signExtend 64)
        pc := hart.pc + 4
        memory := operation.store hart.memory phys (hart.registers instruction.rs2) }
  else
    none

/-- The thirty-two registers, with the zero of `x0`. -/
def GpRegisters.all (registers : GpRegisters) : Fin 32 → BitVec 64 := Fin.cons 0 registers

def ProcessTrapFrame.before (frame : ProcessTrapFrame) (memory : ByteMemory) : Hart :=
  ⟨GpRegisters.all frame.registers, frame.sepc, memory⟩

def ProcessTrapFrame.returned (frame : ProcessTrapFrame) (memory : ByteMemory) : Hart :=
  ⟨GpRegisters.all frame.registers, frame.pc, memory⟩

section Registers

variable (registers : GpRegisters) (value : BitVec 64)

theorem get_eq (index : Fin 32) :
    GpRegisters.get registers index = .ok (GpRegisters.all registers index) := by
  cases index using Fin.cases with
  | zero => rfl
  | succ index => exact dif_pos index.isLt

theorem setMut_zero {index : Fin 32} (zero : index = 0) :
    GpRegisters.setMut registers value index =
      .error (.assertion "Cannot write to x0 (zero register)") := by
  rw [zero]
  rfl

theorem setMut_eq {index : Fin 32} (nonzero : index ≠ 0) : ∃ after,
    GpRegisters.setMut registers value index = .ok after ∧
      GpRegisters.all after = update (GpRegisters.all registers) index value := by
  cases index using Fin.cases with
  | zero => exact absurd rfl nonzero
  | succ index =>
    exact ⟨_, dif_pos index.isLt, (Fin.cons_update ..)⟩

end Registers

/-- The bytes of the faulting instruction, at their own addresses. -/
def Fetched (pageMap : PageMapper) (memory : ByteMemory) (sepc : BitVec 64) (word : Nat) : Prop :=
  ∀ index < 4, userByte pageMap memory (sepc + BitVec.ofNat 64 index).toNat =
    some (UInt8.ofNat (word / 256 ^ index))

/-- The bytes of the faulting instruction are mapped to consecutive bytes. -/
def InOnePiece (pageMap : PageMapper) (memory : ByteMemory) (sepc : BitVec 64) : Prop :=
  ∃ phys, ∀ index < 4,
    pageMap.virtToPhys memory (sepc + BitVec.ofNat 64 index).toNat = some (phys + index)

section Decoding

variable (instruction : Instruction)

theorem field_eq {word shift mask value : Nat} (bits : Nat) (isMask : mask = 2 ^ bits - 1)
    (isValue : word / 2 ^ shift % 2 ^ bits = value) : (word >>> shift) &&& mask = value := by
  rw [Nat.shiftRight_eq_div_pow, isMask, Nat.and_two_pow_sub_one_eq_mod, isValue]

theorem funct3_lt : instruction.operation.funct3 < 2 ^ 3 := by
  cases instruction.operation <;> decide

theorem encode_opcode : instruction.encode &&& 0x7f = 0x2f := by
  apply @field_eq instruction.encode 0 _ _ 7 rfl
  rw [Instruction.encode]
  omega

theorem encode_rd : (instruction.encode >>> 7) &&& 0x1f = instruction.rd := by
  apply field_eq 5 rfl
  rw [Instruction.encode]
  omega

theorem encode_funct3 : (instruction.encode >>> 12) &&& 0x7 = instruction.operation.funct3 := by
  have small := funct3_lt instruction
  apply field_eq 3 rfl
  rw [Instruction.encode]
  omega

theorem encode_rs1 : (instruction.encode >>> 15) &&& 0x1f = instruction.rs1 := by
  have small := funct3_lt instruction
  apply field_eq 5 rfl
  rw [Instruction.encode]
  omega

theorem encode_rs2 : (instruction.encode >>> 20) &&& 0x1f = instruction.rs2 := by
  have small := funct3_lt instruction
  apply field_eq 5 rfl
  rw [Instruction.encode]
  omega

theorem encode_funct5 : (instruction.encode >>> 27) &&& 0x1f = instruction.operation.funct5 := by
  have small := funct3_lt instruction
  have acquire := instruction.acquire.toNat_lt
  have release := instruction.release.toNat_lt
  have bound : instruction.operation.funct5 < 2 ^ 5 := by
    cases instruction.operation <;> decide
  apply field_eq 5 rfl
  rw [Instruction.encode]
  omega

theorem encode_lt : instruction.encode < 256 ^ 4 := by
  have small := funct3_lt instruction
  have acquire := instruction.acquire.toNat_lt
  have release := instruction.release.toNat_lt
  have bound : instruction.operation.funct5 < 2 ^ 5 := by
    cases instruction.operation <;> decide
  rw [Instruction.encode]
  omega

end Decoding

section Emulation

variable {pageMap : PageMapper} {memory : ByteMemory} {frame : ProcessTrapFrame}
  {instruction : Instruction} {phys : Nat}

theorem readWord_of_bytes {address count word : Nat}
    (bytes : ∀ index < count, memory (address + index) = UInt8.ofNat (word / 256 ^ index)) :
    memory.readWord address count = word % 256 ^ count := by
  rw [← ByteMemory.readWord_writeWord_same memory address count word]
  apply ByteMemory.readWord_congr
  intro location lower upper
  obtain ⟨index, rfl⟩ := Nat.exists_eq_add_of_le lower
  rw [bytes index (by omega), ByteMemory.writeWord, if_pos ⟨lower, upper⟩, Nat.add_sub_cancel_left]

theorem fetched_read (fetched : Fetched pageMap memory frame.sepc instruction.encode)
    (onePiece : InOnePiece pageMap memory frame.sepc) : ∃ physSepc,
      pageMap.virtToPhys memory frame.sepc.toNat = some physSepc ∧
        memory.readWord physSepc 4 = instruction.encode := by
  obtain ⟨physSepc, pieces⟩ := onePiece
  refine ⟨physSepc, ?_, ?_⟩
  · have first := pieces 0 (by decide)
    rwa [BitVec.add_zero] at first
  · rw [← Nat.mod_eq_of_lt (encode_lt instruction)]
    apply readWord_of_bytes
    intro index inWord
    have byte := fetched index inWord
    rw [userByte, pieces index inWord, Option.map_some] at byte
    exact Option.some.inj byte

theorem exchange_bind {Value : Type} (width rd : Nat)
    (result : BitVec (8 * width) → BitVec (8 * width))
    (next : ByteMemory × ProcessTrapFrame → Checked Value) :
    (exchange memory frame phys width rd result >>= next) = (do
      let prev := BitVec.ofNat (8 * width) (memory.readWord phys width)
      let registers ← GpRegisters.setMut frame.registers (prev.setWidth 64) rd
      next (memory.writeWord phys width (result prev).toNat, { frame with registers })) := by
  simp only [exchange, bind_assoc, ok_bind]

theorem handleAmoFault_eq (fetched : Fetched pageMap memory frame.sepc instruction.encode)
    (onePiece : InOnePiece pageMap memory frame.sepc)
    (mapped : pageMap.virtToPhys memory
      (GpRegisters.all frame.registers instruction.rs1).toNat = some phys) :
    handleAmoFault pageMap memory frame = (do
      let registers ← GpRegisters.setMut frame.registers
        ((instruction.operation.load memory phys).setWidth 64) instruction.rd
      let pc ← checkedAdd frame.sepc.toNat 4
      .ok (instruction.operation.store memory phys
          (GpRegisters.all frame.registers instruction.rs2),
        { frame with registers, pc := BitVec.ofNat 64 pc })) := by
  obtain ⟨physSepc, sepcMapped, word⟩ := fetched_read fetched onePiece
  rw [handleAmoFault, sepcMapped]
  simp only [unwrapPhys, ok_bind, word, encode_opcode, encode_rd, encode_funct3, encode_rs1,
    encode_rs2, encode_funct5, get_eq, mapped]
  obtain ⟨operation, rd, rs1, rs2, acquire, release⟩ := instruction
  cases operation with
  | swapWord => exact exchange_bind ..
  | addWord => exact exchange_bind ..
  | addDouble =>
    -- The handler takes the register as it is, the words are cut to their width.
    exact exchange_bind ..

/-- The handler returns, the process goes on as if it had executed the instruction, and
the rest of the trap frame is as before. -/
def Emulates (pageMap : PageMapper) (memory : ByteMemory) (frame : ProcessTrapFrame)
    (instruction : Instruction) : Prop :=
  ∃ memoryAfter after, handleAmoFault pageMap memory frame = .ok (memoryAfter, after) ∧
    instruction.execute (pageMap.virtToPhys memory) (frame.before memory) =
      some (after.returned memoryAfter) ∧
    after = { frame with registers := after.registers, pc := after.pc }

theorem signExtend_word_iff (word : BitVec 32) :
    word.signExtend 64 = word.setWidth 64 ↔ word.toNat < 2 ^ 31 := by
  have sign := BitVec.msb_eq_decide word
  constructor
  · intro same
    by_contra large
    have negative : word.msb = true := by
      rw [sign, decide_eq_true_eq]
      omega
    have extended := congrArg BitVec.toNat same
    rw [BitVec.toNat_signExtend, negative, if_pos rfl] at extended
    omega
  · intro small
    apply BitVec.signExtend_eq_setWidth_of_msb_false
    rw [sign, decide_eq_false_iff_not]
    omega

theorem signExtend_load_iff (operation : Operation) (memory : ByteMemory) (phys : Nat) :
    (operation.load memory phys).signExtend 64 = (operation.load memory phys).setWidth 64 ↔
      operation.width = 8 ∨ memory.readWord phys operation.width < 2 ^ 31 := by
  have word : (BitVec.ofNat 32 (memory.readWord phys 4)).signExtend 64 =
      (BitVec.ofNat 32 (memory.readWord phys 4)).setWidth 64 ↔
        4 = 8 ∨ memory.readWord phys 4 < 2 ^ 31 := by
    have fits : memory.readWord phys 4 < 2 ^ 32 := memory.readWord_lt phys 4
    rw [signExtend_word_iff, BitVec.toNat_ofNat, Nat.mod_eq_of_lt fits, or_iff_right (by decide)]
  cases operation with
  | swapWord => exact word
  | addWord => exact word
  | addDouble => exact iff_of_true (BitVec.signExtend_eq ..) (Or.inl rfl)

/-- The handler does what the instruction set says exactly if the old value goes into a
register other than `x0`, has no sign to extend, and the next instruction is in the
address space. -/
theorem handleAmoFault_emulates_iff
    (fetched : Fetched pageMap memory frame.sepc instruction.encode)
    (onePiece : InOnePiece pageMap memory frame.sepc)
    (aligned : (GpRegisters.all frame.registers instruction.rs1).toNat %
      instruction.operation.width = 0)
    (mapped : pageMap.virtToPhys memory
      (GpRegisters.all frame.registers instruction.rs1).toNat = some phys) :
    Emulates pageMap memory frame instruction ↔
      instruction.rd ≠ 0 ∧ (instruction.operation.width = 8 ∨
        memory.readWord phys instruction.operation.width < 2 ^ 31) ∧
      frame.sepc.toNat + 4 < 2 ^ 64 := by
  have handled := handleAmoFault_eq fetched onePiece mapped
  by_cases zero : instruction.rd = 0
  · rw [setMut_zero _ _ zero] at handled
    refine iff_of_false ?_ fun condition => condition.1 zero
    rintro ⟨_, _, returned, _⟩
    cases handled.symm.trans returned
  obtain ⟨registers, stored, all⟩ := setMut_eq frame.registers
    ((instruction.operation.load memory phys).setWidth 64) zero
  rw [stored, ok_bind, checkedAdd] at handled
  by_cases next : frame.sepc.toNat + 4 < wordLimit
  · rw [if_pos next, ok_bind] at handled
    have executed : instruction.execute (pageMap.virtToPhys memory) (frame.before memory) =
        some ⟨update (GpRegisters.all frame.registers) instruction.rd
            ((instruction.operation.load memory phys).signExtend 64), frame.sepc + 4,
          instruction.operation.store memory phys
            (GpRegisters.all frame.registers instruction.rs2)⟩ := by
      dsimp only [Instruction.execute, ProcessTrapFrame.before]
      rw [if_pos aligned, mapped, Option.map_some, if_neg zero]
    rw [Emulates, executed, handled]
    constructor
    · rintro ⟨_, _, returned, same, _⟩
      cases returned
      have files : update _ _ _ = GpRegisters.all registers :=
        congrArg Hart.registers (Option.some.inj same)
      have value := congrFun (files.trans all) instruction.rd
      rw [update_self, update_self] at value
      exact ⟨zero, (signExtend_load_iff ..).mp value, next⟩
    · rintro ⟨-, positive, -⟩
      refine ⟨_, _, rfl, ?_, rfl⟩
      have pc : BitVec.ofNat 64 (frame.sepc.toNat + 4) = frame.sepc + 4 := by
        rfl
      rw [ProcessTrapFrame.returned, all, pc, (signExtend_load_iff ..).mpr positive]
  · rw [if_neg next] at handled
    refine iff_of_false ?_ fun condition => next condition.2.2
    rintro ⟨_, _, returned, _⟩
    cases handled.symm.trans returned

end Emulation

/-- A gigabyte with an instruction at an address and a word behind it. -/
def amoMap (sepc word old : Nat) : ByteMemory :=
  (gigabyteMap.writeWord sepc 4 word).writeWord 0x80000100 8 old

/-- A trap frame with the address of the word in every register. -/
def amoFrame (sepc : BitVec 64) : ProcessTrapFrame := ⟨fun _ => 0x80000100, 0, sepc, 0, 0, 0, 0⟩

/-- `amoadd.w t0, a1, (a0)`. -/
def addInstruction : Instruction := ⟨.addWord, 5, 10, 11, false, false⟩

/-- `amoswap.w.rl zero, zero, (a0)`, which releases a lock. -/
def unlockInstruction : Instruction := ⟨.swapWord, 0, 10, 0, false, true⟩

theorem amoMap_add : Emulates ⟨0x1000⟩ (amoMap 0x80000000 addInstruction.encode 7)
    (amoFrame 0x80000000) addInstruction := by
  have phys : PageMapper.virtToPhys ⟨0x1000⟩ (amoMap 0x80000000 addInstruction.encode 7)
      (GpRegisters.all (amoFrame 0x80000000).registers addInstruction.rs1).toNat =
        some 0x80000100 := by
    decide +kernel
  refine (handleAmoFault_emulates_iff ?_ ?_ ?_ phys).mpr ?_
  · unfold Fetched
    decide +kernel
  · exact ⟨0x80000000, by decide +kernel⟩
  · decide
  · decide +kernel

/-- Instead of releasing the lock the kernel panics. -/
theorem amoMap_unlock :
    Fetched ⟨0x1000⟩ (amoMap 0x80000000 unlockInstruction.encode 1) 0x80000000
      unlockInstruction.encode ∧
    InOnePiece ⟨0x1000⟩ (amoMap 0x80000000 unlockInstruction.encode 1) 0x80000000 ∧
    PageMapper.virtToPhys ⟨0x1000⟩ (amoMap 0x80000000 unlockInstruction.encode 1) 0x80000100 =
      some 0x80000100 ∧
    handleAmoFault ⟨0x1000⟩ (amoMap 0x80000000 unlockInstruction.encode 1) (amoFrame 0x80000000) =
      .error (.assertion "Cannot write to x0 (zero register)") := by
  refine ⟨?_, ⟨0x80000000, by decide +kernel⟩, by decide +kernel, rfl⟩
  unfold Fetched
  decide +kernel

end NanoOs.Amo
