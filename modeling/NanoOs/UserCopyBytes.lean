import NanoOs.HardwareWalks
import NanoOs.UserAccess

/-!
# Copies of user memory, byte by byte

`copy_out` and `copy_in` translate one address for every page they come to. They
copy as if they translated every byte, unless the range ends where the address
space does.
-/

namespace NanoOs

namespace PageMapping

theorem keptBits_ge (level : Nat) : 12 ≤ keptBits level := by
  unfold keptBits
  split <;> omega

section Page

variable {virt index : Nat}

theorem page_div_mod (inPage : virt % 2 ^ 12 + index < 2 ^ 12) {bits : Nat} (large : 12 ≤ bits) :
    (virt + index) / 2 ^ bits = virt / 2 ^ bits ∧
      (virt + index) % 2 ^ bits = virt % 2 ^ bits + index := by
  obtain ⟨-, rfl⟩ := Nat.exists_eq_add_of_le large
  apply div_mod_add_of_lt
  rw [pow_add, Nat.mod_mul]
  omega

theorem softwareFrom_add (memory : ByteMemory) (inPage : virt % 2 ^ 12 + index < 2 ^ 12)
    (level table : Nat) :
    softwareFrom memory (virt + index) level table =
      (softwareFrom memory virt level table).map (· + index) := by
  induction level generalizing table with
  | zero => rfl
  | succ level ih =>
    have sameIndex : vpnAt level (virt + index) = vpnAt level virt := by
      unfold vpnAt
      rw [(page_div_mod inPage (Nat.le_add_right 12 _)).1]
    rw [softwareFrom, softwareFrom, sameIndex]
    split_ifs
    · rw [(page_div_mod inPage (keptBits_ge level)).2, Option.map_some, Nat.add_assoc]
    · exact ih _
    · rfl

/-- The bytes of a page are mapped to consecutive bytes. -/
theorem PageMapper.virtToPhys_add (mapper : PageMapper) (memory : ByteMemory)
    (inPage : virt % 2 ^ 12 + index < 2 ^ 12) :
    mapper.virtToPhys memory (virt + index) = (mapper.virtToPhys memory virt).map (· + index) := by
  rw [virtToPhys_eq_softwareFrom, virtToPhys_eq_softwareFrom, softwareFrom_add memory inPage]

end Page

end PageMapping

namespace UserAccess

open PageMapping Function ByteMemory

def userByte (pageMap : PageMapper) (memory : ByteMemory) (virt : Nat) : Option UInt8 :=
  (pageMap.virtToPhys memory virt).map memory

/-- Every byte of a range is mapped, and so every page that overlaps it. -/
def Translates (pageMap : PageMapper) (memory : ByteMemory) (userAddr length : Nat) : Prop :=
  ∀ index < length, ∃ phys, pageMap.virtToPhys memory (userAddr + index) = some phys

def Faults (pageMap : PageMapper) (memory : ByteMemory) (userAddr length : Nat) : Prop :=
  ∃ index < length, userAddr + index < 2 ^ 64 ∧
    pageMap.virtToPhys memory (userAddr + index) = none

def DistinctFrames (pageMap : PageMapper) (memory : ByteMemory) (userAddr length : Nat) : Prop :=
  ∀ first < length, ∀ second < length, ∀ firstPhys secondPhys,
    pageMap.virtToPhys memory (userAddr + first) = some firstPhys →
    pageMap.virtToPhys memory (userAddr + second) = some secondPhys →
    firstPhys / 4096 = secondPhys / 4096 → (userAddr + first) / 4096 = (userAddr + second) / 4096

/-- A memory that differs only in bytes that a range is mapped to. -/
def WrittenThrough (pageMap : PageMapper) (memory : ByteMemory) (userAddr length : Nat)
    (other : ByteMemory) : Prop :=
  ∀ location, (∀ index < length,
    pageMap.virtToPhys memory (userAddr + index) ≠ some location) → other location = memory location

/-- The range is not mapped to page tables that map it: whatever is written
through it, it is mapped as before. -/
def Stable (pageMap : PageMapper) (memory : ByteMemory) (userAddr length : Nat) : Prop :=
  ∀ other, WrittenThrough pageMap memory userAddr length other → ∀ index < length,
    pageMap.virtToPhys other (userAddr + index) = pageMap.virtToPhys memory (userAddr + index)

/-- What is written through a range up to a byte does not change how the byte is mapped. -/
def StableInTurn (pageMap : PageMapper) (memory : ByteMemory) (userAddr length : Nat) : Prop :=
  ∀ start < length, Translates pageMap memory userAddr start →
    ∀ other, WrittenThrough pageMap memory userAddr start other →
      pageMap.virtToPhys other (userAddr + start) = pageMap.virtToPhys memory (userAddr + start)

/-- Every byte of the accesses is touched where its address is mapped to, and so are all
bytes before it. -/
def Touches (pageMap : PageMapper) (memory : ByteMemory) (userAddr : Nat)
    (accesses : List Access) : Prop :=
  ∀ access ∈ accesses, ∀ index < access.length, ∃ position,
    access.virt + index = userAddr + position ∧
      Translates pageMap memory userAddr (position + 1) ∧
      pageMap.virtToPhys memory (userAddr + position) = some (access.phys + index)

theorem Stable.inTurn {pageMap : PageMapper} {memory : ByteMemory} {userAddr length : Nat}
    (stable : Stable pageMap memory userAddr length) :
    StableInTurn pageMap memory userAddr length :=
  fun start inRange _ other written => stable other (fun location outside =>
    written location fun index early => outside index (early.trans inRange)) start inRange

variable {result : Checked (ByteMemory × CopyOutcome Unit)} {size phys : Nat} {memory : ByteMemory}
  {accesses : List Access}

section Chunks

variable {pageMap : PageMapper} {memory : ByteMemory} {userPtr phys : Nat}

theorem virtToPhys_chunk (found : pageMap.virtToPhys memory userPtr = some phys) {index : Nat}
    (inChunk : index < pageRest userPtr) :
    pageMap.virtToPhys memory (userPtr + index) = some (phys + index) := by
  rw [pageRest_eq] at inChunk
  rw [pageMap.virtToPhys_add memory (by omega), found]
  rfl

/-- The loop of `copy_in` from a position on: it copies the rest of the range, comes
to a byte that is not mapped, or to the end of the address space. -/
inductive CopiedIn (pageMap : PageMapper) (memory : ByteMemory) (userPtr count : Nat)
    (buf : ByteMemory) (offset : Nat) : Checked (ByteMemory × CopyOutcome Unit) → Prop
  | whole {after : ByteMemory} {accesses : List Access} (fits : userPtr + count < 2 ^ 64)
      (bytes : ∀ index < count, ∃ phys, pageMap.virtToPhys memory (userPtr + index) = some phys ∧
        after (offset + index) = memory phys)
      (kept : ∀ position < offset, after position = buf position)
      (touched : Touches pageMap memory userPtr accesses) :
      CopiedIn pageMap memory userPtr count buf offset (.ok (after, ⟨accesses, .ok ()⟩))
  | unmapped {after : ByteMemory} {accesses : List Access}
      (faults : Faults pageMap memory userPtr count)
      (touched : Touches pageMap memory userPtr accesses) :
      CopiedIn pageMap memory userPtr count buf offset (.ok (after, ⟨accesses, .error ()⟩))
  | overflow (translates : Translates pageMap memory userPtr (2 ^ 64 - userPtr))
      (reaches : 2 ^ 64 ≤ userPtr + count) :
      CopiedIn pageMap memory userPtr count buf offset (.error .overflow)

variable {count : Nat}

theorem Translates.append (first : Translates pageMap memory userPtr size)
    (rest : Translates pageMap memory (userPtr + size) count) :
    Translates pageMap memory userPtr (size + count) := by
  intro index inRange
  by_cases early : index < size
  · exact first index early
  · have later := rest (index - size) (by omega)
    rwa [Nat.add_assoc, Nat.add_sub_cancel' (by omega)] at later

theorem Translates.chunk
    (chunk : ∀ index < size, pageMap.virtToPhys memory (userPtr + index) = some (phys + index))
    (rest : Translates pageMap memory (userPtr + size) count) :
    Translates pageMap memory userPtr (size + count) :=
  .append (fun index early => ⟨_, chunk index early⟩) rest

theorem Translates.chunk_end (inWord : userPtr + size < 2 ^ 64)
    (chunk : ∀ index < size, pageMap.virtToPhys memory (userPtr + index) = some (phys + index))
    (rest : Translates pageMap memory (userPtr + size) (2 ^ 64 - (userPtr + size))) :
    Translates pageMap memory userPtr (2 ^ 64 - userPtr) := by
  have split : 2 ^ 64 - userPtr = size + (2 ^ 64 - (userPtr + size)) := by omega
  rw [split]
  exact rest.chunk chunk

theorem Touches.chunk
    (chunk : ∀ index < size, pageMap.virtToPhys memory (userPtr + index) = some (phys + index))
    (rest : Touches pageMap memory (userPtr + size) accesses) :
    Touches pageMap memory userPtr (⟨userPtr, phys, size⟩ :: accesses) := by
  refine List.forall_mem_cons.mpr ⟨fun index inChunk => ?_, fun access isLater index inAccess => ?_⟩
  · exact ⟨index, rfl, fun earlier bound => ⟨_, chunk earlier (Nat.lt_of_lt_of_le bound inChunk)⟩,
      chunk index inChunk⟩
  · obtain ⟨position, same, translates, found⟩ := rest access isLater index inAccess
    rw [Nat.add_assoc] at same found
    refine ⟨size + position, same, ?_, found⟩
    rw [Nat.add_assoc]
    exact translates.chunk chunk

theorem Faults.chunk (rest : Faults pageMap memory (userPtr + size) count) :
    Faults pageMap memory userPtr (size + count) := by
  obtain ⟨index, inRange, inWord, missing⟩ := rest
  rw [Nat.add_assoc] at inWord missing
  exact ⟨size + index, Nat.add_lt_add_left inRange size, inWord, missing⟩

theorem CopiedIn.chunk {buf : ByteMemory} {offset : Nat}
    (inWord : userPtr + size < 2 ^ 64)
    (chunk : ∀ index < size, pageMap.virtToPhys memory (userPtr + index) = some (phys + index))
    (rest : CopiedIn pageMap memory (userPtr + size) count
      (buf.writeBytes offset size fun index => memory (phys + index)) (offset + size) result) :
    CopiedIn pageMap memory userPtr (size + count) buf offset (do
      let (after, outcome) ← result
      .ok (after, outcome.after ⟨userPtr, phys, size⟩)) := by
  cases rest with
  | overflow translates reaches =>
    exact .overflow (translates.chunk_end inWord chunk) (by omega)
  | unmapped faults touched => exact .unmapped faults.chunk (touched.chunk chunk)
  | @whole after accesses fits bytes kept touched =>
    refine .whole (by omega) ?_ ?_ (touched.chunk chunk)
    · intro index inRange
      by_cases early : index < size
      · refine ⟨_, chunk index early, ?_⟩
        rw [kept _ (by omega), writeBytes_inside buf _ early]
      · have later := bytes (index - size) (by omega)
        rwa [Nat.add_assoc, Nat.add_assoc, Nat.add_sub_cancel' (by omega)] at later
    · intro position before
      rw [kept _ (by omega), writeBytes_outside buf _ (Or.inl before)]

theorem copyInLoop_copied {buf : ByteMemory} {length fuel offset : Nat} (inWord : userPtr < 2 ^ 64)
    (enough : length - offset < fuel) :
    CopiedIn pageMap memory userPtr (length - offset) buf offset
      (copyInLoop pageMap memory length fuel buf userPtr offset) := by
  induction fuel generalizing userPtr buf offset with
  | zero => omega
  | succ fuel ih =>
    rw [copyInLoop]
    by_cases more : offset < length
    · rw [if_pos more]
      have positive := pageRest_pos userPtr
      obtain ⟨size, sizeEq⟩ : ∃ size, size = min (length - offset) (pageRest userPtr) := ⟨_, rfl⟩
      cases found : pageMap.virtToPhys memory userPtr with
      | none => exact .unmapped ⟨0, Nat.sub_pos_of_lt more, inWord, found⟩ nofun
      | some phys =>
        have chunk : ∀ index < size,
            pageMap.virtToPhys memory (userPtr + index) = some (phys + index) :=
          fun index inChunk => virtToPhys_chunk found (by omega)
        dsimp only
        rw [← sizeEq, checkedAdd]
        by_cases fits : userPtr + size < wordLimit
        · rw [if_pos fits, ok_bind]
          have split : length - offset = size + (length - (offset + size)) := by omega
          rw [split]
          exact .chunk fits chunk (ih fits (by omega))
        · rw [if_neg fits]
          unfold wordLimit at fits
          exact .overflow (fun index inRange => ⟨_, chunk index (by omega)⟩) (by omega)
    · rw [if_neg more, Nat.sub_eq_zero_of_le (Nat.not_lt.mp more)]
      exact .whole inWord nofun (fun _ _ => rfl) nofun

end Chunks

section ByteByByte

variable {translate : Nat → Option Nat} {userPtr phys location : Nat} {data : List UInt8}

def putByte (memory : ByteMemory) (byte : UInt8) : Option Nat → ByteMemory
  | none => memory
  | some phys => Function.update memory phys byte

/-- Copy a list byte by byte, each to where its own address is mapped. -/
def putBytes (translate : Nat → Option Nat) : Nat → List UInt8 → ByteMemory → ByteMemory
  | _, [], memory => memory
  | userPtr, byte :: data, memory =>
      putBytes translate (userPtr + 1) data (putByte memory byte (translate userPtr))

theorem putBytes_outside (memory : ByteMemory)
    (outside : ∀ index < data.length, translate (userPtr + index) ≠ some location) :
    putBytes translate userPtr data memory location = memory location := by
  induction data generalizing userPtr memory with
  | nil => rfl
  | cons byte data ih =>
    have first : translate userPtr ≠ some location := outside 0 (Nat.succ_pos _)
    rw [putBytes, ih]
    · cases found : translate userPtr with
      | none => rfl
      | some phys =>
        refine update_of_ne (fun same => first ?_) ..
        rw [found, same]
    · intro index inRange
      rw [Nat.add_right_comm]
      exact outside (index + 1) (Nat.succ_lt_succ inRange)

theorem putBytes_inside (memory : ByteMemory) {index : Nat} (inRange : index < data.length)
    (found : translate (userPtr + index) = some location)
    (only : ∀ other < data.length, translate (userPtr + other) = some location → other = index) :
    putBytes translate userPtr data memory location = data.getD index 0 := by
  induction data generalizing userPtr memory index with
  | nil => exact absurd inRange (Nat.not_lt_zero _)
  | cons byte data ih =>
    rw [putBytes]
    cases index with
    | zero =>
      have first : translate userPtr = some location := found
      rw [putBytes_outside, first]
      · exact update_self ..
      · intro other otherInRange also
        rw [Nat.add_right_comm] at also
        exact Nat.succ_ne_zero _ (only (other + 1) (Nat.succ_lt_succ otherInRange) also)
    | succ index =>
      refine ih _ (Nat.lt_of_succ_lt_succ inRange) (by rwa [Nat.add_right_comm]) ?_
      intro other otherInRange also
      rw [Nat.add_right_comm] at also
      exact Nat.succ.inj (only (other + 1) (Nat.succ_lt_succ otherInRange) also)

theorem writeBytes_succ (memory : ByteMemory) (address count : Nat) (bytes : Nat → UInt8) :
    memory.writeBytes address (count + 1) bytes =
      writeBytes (update memory address (bytes 0)) (address + 1) count
        fun index => bytes (index + 1) := by
  funext location
  by_cases first : location = address
  · subst first
    rw [writeBytes_outside _ _ (Or.inl (Nat.lt_succ_self _)), update_self]
    exact writeBytes_inside memory bytes (Nat.succ_pos count)
  · unfold writeBytes
    rw [update_of_ne first]
    by_cases inside : address + 1 ≤ location ∧ location < address + 1 + count
    · rw [if_pos (by omega), if_pos inside]
      exact congrArg bytes (by omega)
    · rw [if_neg (by omega), if_neg inside]

theorem putBytes_chunk (memory : ByteMemory) (fits : size ≤ data.length)
    (chunk : ∀ index < size, translate (userPtr + index) = some (phys + index)) :
    putBytes translate userPtr data memory = putBytes translate (userPtr + size) (data.drop size)
      (memory.writeBytes phys size fun index => data.getD index 0) := by
  induction size generalizing userPtr phys data memory with
  | zero =>
    congr 1
    funext location
    exact (writeBytes_outside memory _ (Nat.lt_or_ge location phys)).symm
  | succ size ih =>
    cases data with
    | nil => exact absurd fits (Nat.not_succ_le_zero size)
    | cons byte data =>
      have first : translate userPtr = some phys := chunk 0 (Nat.succ_pos size)
      have later : ∀ index < size,
          translate (userPtr + 1 + index) = some (phys + 1 + index) := by
        intro index inChunk
        rw [Nat.add_right_comm, Nat.add_right_comm phys]
        exact chunk (index + 1) (Nat.succ_lt_succ inChunk)
      rw [writeBytes_succ, putBytes, first, List.drop_succ_cons,
        ih _ (Nat.le_of_succ_le_succ fits) later, Nat.add_right_comm]
      rfl

end ByteByByte

section CopyOut

variable {pageMap : PageMapper} {original : ByteMemory} {userAddr length : Nat}

/-- The bytes that no access touches are as before. -/
def KeepsOthers (memory after : ByteMemory) (accesses : List Access) : Prop :=
  ∀ location, (∀ access ∈ accesses,
    location < access.phys ∨ access.phys + access.length ≤ location) →
      after location = memory location

theorem KeepsOthers.chunk {after : ByteMemory} {bytes : Nat → UInt8} (virt : Nat)
    (kept : KeepsOthers (memory.writeBytes phys size bytes) after accesses) :
    KeepsOthers memory after (⟨virt, phys, size⟩ :: accesses) := by
  intro location apart
  rw [kept location fun access isLater => apart access (List.mem_cons_of_mem _ isLater)]
  exact writeBytes_outside memory _ (apart _ List.mem_cons_self)

/-- The loop of `copy_out` from a position on: it copies the rest byte by byte, comes
to a byte that is not mapped, or to the end of the address space. -/
inductive CopiedOut (pageMap : PageMapper) (original memory : ByteMemory) (userPtr : Nat)
    (remaining : List UInt8) : Checked (ByteMemory × CopyOutcome Unit) → Prop
  | whole {accesses : List Access} (fits : userPtr + remaining.length < 2 ^ 64)
      (translates : Translates pageMap original userPtr remaining.length)
      (touched : Touches pageMap original userPtr accesses)
      (kept : KeepsOthers memory
        (putBytes (pageMap.virtToPhys original) userPtr remaining memory) accesses) :
      CopiedOut pageMap original memory userPtr remaining
        (.ok (putBytes (pageMap.virtToPhys original) userPtr remaining memory, ⟨accesses, .ok ()⟩))
  | unmapped {after : ByteMemory} {accesses : List Access}
      (faults : Faults pageMap original userPtr remaining.length)
      (touched : Touches pageMap original userPtr accesses)
      (kept : KeepsOthers memory after accesses) :
      CopiedOut pageMap original memory userPtr remaining (.ok (after, ⟨accesses, .error ()⟩))
  | overflow (translates : Translates pageMap original userPtr (2 ^ 64 - userPtr))
      (reaches : 2 ^ 64 ≤ userPtr + remaining.length) :
      CopiedOut pageMap original memory userPtr remaining (.error .overflow)

theorem CopiedOut.chunk {userPtr : Nat} {remaining : List UInt8}
    (inRange : size ≤ remaining.length) (inWord : userPtr + size < 2 ^ 64)
    (chunk : ∀ index < size, pageMap.virtToPhys original (userPtr + index) = some (phys + index))
    (rest : CopiedOut pageMap original
      (memory.writeBytes phys size fun index => remaining.getD index 0) (userPtr + size)
      (remaining.drop size) result) :
    CopiedOut pageMap original memory userPtr remaining (do
      let (after, outcome) ← result
      .ok (after, outcome.after ⟨userPtr, phys, size⟩)) := by
  have split : remaining.length = size + (remaining.drop size).length := by
    rw [List.length_drop]
    omega
  cases rest with
  | overflow translates reaches =>
    exact .overflow (translates.chunk_end inWord chunk) (by omega)
  | unmapped faults touched kept =>
    have wholeFaults := faults.chunk
    rw [← split] at wholeFaults
    exact .unmapped wholeFaults (touched.chunk chunk) (kept.chunk userPtr)
  | @whole accesses fits translates touched kept =>
    rw [← putBytes_chunk memory inRange chunk] at kept ⊢
    refine .whole (by omega) ?_ (touched.chunk chunk) (kept.chunk userPtr)
    rw [split]
    exact translates.chunk chunk

theorem WrittenThrough.chunk {start : Nat} (bytes : Nat → UInt8)
    (written : WrittenThrough pageMap original userAddr start memory)
    (chunk : ∀ index < size,
      pageMap.virtToPhys original (userAddr + start + index) = some (phys + index)) :
    WrittenThrough pageMap original userAddr (start + size)
      (memory.writeBytes phys size bytes) := by
  intro location outside
  rw [← written location fun index early => outside index (by omega)]
  apply writeBytes_outside
  by_contra inside
  have mapped := chunk (location - phys) (by omega)
  rw [Nat.add_assoc, Nat.add_sub_cancel' (by omega)] at mapped
  exact outside _ (by omega) mapped

theorem copyOutLoop_copied (stable : StableInTurn pageMap original userAddr length)
    {fuel start : Nat} {remaining : List UInt8} (whole : start + remaining.length = length)
    (inWord : userAddr + start < 2 ^ 64) (enough : remaining.length < fuel)
    (before : Translates pageMap original userAddr start)
    (written : WrittenThrough pageMap original userAddr start memory) :
    CopiedOut pageMap original memory (userAddr + start) remaining
      (copyOutLoop pageMap fuel memory (userAddr + start) remaining) := by
  induction fuel generalizing memory start remaining with
  | zero => omega
  | succ fuel ih =>
    rw [copyOutLoop]
    by_cases more : 0 < remaining.length
    · rw [if_pos more, stable start (by omega) before memory written]
      have positive := pageRest_pos (userAddr + start)
      obtain ⟨size, sizeEq⟩ :
        ∃ size, size = min remaining.length (pageRest (userAddr + start)) := ⟨_, rfl⟩
      cases found : pageMap.virtToPhys original (userAddr + start) with
      | none => exact .unmapped ⟨0, more, inWord, found⟩ nofun fun _ _ => rfl
      | some phys =>
        have chunk : ∀ index < size,
            pageMap.virtToPhys original (userAddr + start + index) = some (phys + index) :=
          fun index inChunk => virtToPhys_chunk found (by omega)
        dsimp only
        rw [← sizeEq, checkedAdd]
        by_cases fits : userAddr + start + size < wordLimit
        · rw [if_pos fits, ok_bind]
          refine .chunk (by omega) fits chunk ?_
          rw [Nat.add_assoc] at fits ⊢
          refine ih ?_ fits ?_ (before.append fun index inChunk => ⟨_, chunk index inChunk⟩)
            (written.chunk _ chunk)
          · rw [List.length_drop]
            omega
          · rw [List.length_drop]
            omega
        · rw [if_neg fits]
          unfold wordLimit at fits
          exact .overflow (fun index inRange => ⟨_, chunk index (by omega)⟩) (by omega)
    · have done : remaining = [] := List.length_eq_zero_iff.mp (Nat.eq_zero_of_not_pos more)
      subst done
      exact .whole inWord nofun nofun fun _ _ => rfl

end CopyOut

section Bytewise

variable {pageMap : PageMapper} {memory : ByteMemory} {userAddr length : Nat} {data : List UInt8}

/-- Every page that holds a byte of the range is mapped. -/
def PagesTranslate (pageMap : PageMapper) (memory : ByteMemory) (userAddr length : Nat) : Prop :=
  ∀ page, (∃ index < length, (userAddr + index) / 4096 = page) →
    ∃ phys, pageMap.virtToPhys memory (page * 4096) = some phys

theorem pagesTranslate_iff :
    PagesTranslate pageMap memory userAddr length ↔
      Translates pageMap memory userAddr length := by
  have behind : ∀ virt, pageMap.virtToPhys memory virt =
      (pageMap.virtToPhys memory (virt / 4096 * 4096)).map (· + virt % 4096) := by
    intro virt
    rw [← pageMap.virtToPhys_add memory (by omega), Nat.div_add_mod']
  constructor
  · intro pages index inRange
    obtain ⟨phys, found⟩ := pages _ ⟨index, inRange, rfl⟩
    exact ⟨_, by rw [behind, found, Option.map_some]⟩
  · rintro translates page ⟨index, inRange, rfl⟩
    obtain ⟨phys, found⟩ := translates index inRange
    rw [behind, Option.map_eq_some_iff] at found
    exact ⟨_, found.choose_spec.1⟩

theorem Faults.not_translates (faults : Faults pageMap memory userAddr length) :
    ¬ Translates pageMap memory userAddr length := by
  intro translates
  obtain ⟨index, inRange, -, missing⟩ := faults
  obtain ⟨phys, found⟩ := translates index inRange
  cases missing.symm.trans found

theorem Translates.not_faults
    (translates : Translates pageMap memory userAddr (2 ^ 64 - userAddr)) :
    ¬ Faults pageMap memory userAddr length := by
  rintro ⟨index, -, inWord, missing⟩
  obtain ⟨phys, found⟩ := translates index (by omega)
  cases missing.symm.trans found

/-- `copy_in` copies as if it translated every byte. -/
def CopyInBytewise (pageMap : PageMapper) (memory : ByteMemory) (userAddr : Nat)
    (buf : ByteMemory) (length : Nat) : Prop :=
  ∃ after outcome, copyIn pageMap memory userAddr buf length = .ok (after, outcome) ∧
    (outcome.result = .ok () ↔ PagesTranslate pageMap memory userAddr length) ∧
    (outcome.result = .ok () → ∀ index < length, ∃ phys,
      pageMap.virtToPhys memory (userAddr + index) = some phys ∧ after index = memory phys)

/-- `copy_out` copies as if it translated every byte, and `copy_in` reads back what
it wrote. -/
def CopyOutBytewise (pageMap : PageMapper) (memory : ByteMemory) (userAddr : Nat)
    (data : List UInt8) : Prop :=
  ∃ after outcome, copyOut pageMap memory userAddr data = .ok (after, outcome) ∧
    (outcome.result = .ok () ↔ PagesTranslate pageMap memory userAddr data.length) ∧
    (outcome.result = .ok () → DistinctFrames pageMap memory userAddr data.length →
      (∀ index < data.length, ∃ phys, pageMap.virtToPhys memory (userAddr + index) = some phys ∧
        after phys = data.getD index 0) ∧
      WrittenThrough pageMap memory userAddr data.length after ∧
      ∀ buf, ∃ copied accesses,
        copyIn pageMap after userAddr buf data.length = .ok (copied, ⟨accesses, .ok ()⟩) ∧
        ∀ index < data.length, copied index = data.getD index 0)

theorem DistinctFrames.injective (distinct : DistinctFrames pageMap memory userAddr length)
    {first second : Nat} (firstInRange : first < length) (secondInRange : second < length)
    (firstFound : pageMap.virtToPhys memory (userAddr + first) = some phys)
    (secondFound : pageMap.virtToPhys memory (userAddr + second) = some phys) : first = second := by
  wlog ordered : first ≤ second
  · exact (this distinct secondInRange firstInRange secondFound firstFound (by omega)).symm
  have samePage := distinct _ firstInRange _ secondInRange _ _ firstFound secondFound rfl
  obtain ⟨gap, rfl⟩ := Nat.exists_eq_add_of_le ordered
  rw [← Nat.add_assoc, pageMap.virtToPhys_add memory (by omega), firstFound, Option.map_some,
    Option.some.injEq] at secondFound
  omega

theorem copyIn_copied (pageMap : PageMapper) (memory buf : ByteMemory) (length : Nat)
    (inWord : userAddr < 2 ^ 64) :
    CopiedIn pageMap memory userAddr length buf 0 (copyIn pageMap memory userAddr buf length) :=
  @copyInLoop_copied pageMap memory userAddr buf length (length + 1) 0 inWord (Nat.lt_succ_self _)

theorem copyOut_copied (stable : StableInTurn pageMap memory userAddr data.length)
    (inWord : userAddr < 2 ^ 64) :
    CopiedOut pageMap memory memory userAddr data (copyOut pageMap memory userAddr data) :=
  copyOutLoop_copied stable (Nat.zero_add _) inWord (Nat.lt_succ_self _) nofun fun _ _ => rfl

theorem copyIn_bytewise_iff (buf : ByteMemory) (inWord : userAddr < 2 ^ 64)
    (noWrap : userAddr + length ≤ 2 ^ 64) :
    CopyInBytewise pageMap memory userAddr buf length ↔
      userAddr + length < 2 ^ 64 ∨ ¬ PagesTranslate pageMap memory userAddr length := by
  have copied := copyIn_copied pageMap memory buf length inWord
  unfold CopyInBytewise
  rw [pagesTranslate_iff]
  generalize copyIn pageMap memory userAddr buf length = result at copied ⊢
  cases copied with
  | @whole after accesses fits bytes kept touched =>
    refine iff_of_true ⟨after, _, rfl, ?_, fun _ index inRange => ?_⟩ (Or.inl fits)
    · refine iff_of_true rfl fun index inRange => ?_
      obtain ⟨phys, found, _⟩ := bytes index inRange
      exact ⟨phys, found⟩
    · have byte := bytes index inRange
      rwa [Nat.zero_add] at byte
  | @unmapped after accesses faults _ =>
    have unmapped := faults.not_translates
    exact iff_of_true ⟨after, _, rfl, iff_of_false nofun unmapped, nofun⟩ (Or.inr unmapped)
  | overflow translates reaches =>
    refine iff_of_false (fun ⟨_, _, returned, _⟩ => nomatch returned) ?_
    rintro (fits | unmapped)
    · omega
    · exact unmapped fun index inRange => translates index (by omega)

theorem copyIn_of_written (fits : userAddr + data.length < 2 ^ 64)
    (bytes : ∀ index < data.length, ∃ phys,
      pageMap.virtToPhys memory (userAddr + index) = some phys ∧ memory phys = data.getD index 0)
    (buf : ByteMemory) : ∃ copied accesses,
      copyIn pageMap memory userAddr buf data.length = .ok (copied, ⟨accesses, .ok ()⟩) ∧
        ∀ index < data.length, copied index = data.getD index 0 := by
  have copied := copyIn_copied pageMap memory buf data.length (by omega : userAddr < 2 ^ 64)
  generalize copyIn pageMap memory userAddr buf data.length = result at copied ⊢
  cases copied with
  | @whole after accesses fits read kept touched =>
    refine ⟨after, accesses, rfl, fun index inRange => ?_⟩
    obtain ⟨phys, found, byte⟩ := bytes index inRange
    obtain ⟨also, foundAlso, readByte⟩ := read index inRange
    rw [found, Option.some.injEq] at foundAlso
    rw [← byte, foundAlso, ← readByte, Nat.zero_add]
  | unmapped faults =>
    refine absurd (fun index inRange => ?_) faults.not_translates
    obtain ⟨phys, found, _⟩ := bytes index inRange
    exact ⟨phys, found⟩
  | overflow translates reaches => exact absurd fits (Nat.not_lt.mpr reaches)

theorem copyOut_bytewise_iff (stable : Stable pageMap memory userAddr data.length)
    (inWord : userAddr < 2 ^ 64) (noWrap : userAddr + data.length ≤ 2 ^ 64) :
    CopyOutBytewise pageMap memory userAddr data ↔
      userAddr + data.length < 2 ^ 64 ∨
        ¬ PagesTranslate pageMap memory userAddr data.length := by
  have copied := copyOut_copied stable.inTurn inWord
  unfold CopyOutBytewise
  rw [pagesTranslate_iff]
  generalize copyOut pageMap memory userAddr data = result at copied ⊢
  cases copied with
  | @whole accesses fits translates =>
    refine iff_of_true ⟨_, _, rfl, iff_of_true rfl translates, fun _ distinct => ?_⟩ (Or.inl fits)
    have written : WrittenThrough pageMap memory userAddr data.length
        (putBytes (pageMap.virtToPhys memory) userAddr data memory) :=
      fun location outside => putBytes_outside memory outside
    have bytes : ∀ index < data.length, ∃ phys,
        pageMap.virtToPhys memory (userAddr + index) = some phys ∧
          putBytes (pageMap.virtToPhys memory) userAddr data memory phys =
            data.getD index 0 := by
      intro index inRange
      obtain ⟨phys, found⟩ := translates index inRange
      exact ⟨phys, found, putBytes_inside memory inRange found fun other otherInRange also =>
        distinct.injective otherInRange inRange also found⟩
    refine ⟨bytes, written, copyIn_of_written fits fun index inRange => ?_⟩
    rw [stable _ written index inRange]
    exact bytes index inRange
  | @unmapped after accesses faults =>
    have unmapped := faults.not_translates
    exact iff_of_true ⟨after, _, rfl, iff_of_false nofun unmapped, nofun⟩ (Or.inr unmapped)
  | overflow translates reaches =>
    refine iff_of_false (fun ⟨_, _, returned, _⟩ => nomatch returned) ?_
    rintro (fits | unmapped)
    · omega
    · exact unmapped fun index inRange => translates index (by omega)

/-- On a range that does not wrap the copies are those of the single bytes exactly if
the range does not end with the address space, or is not mapped. For `copy_out` the
page tables must not be in the range. -/
theorem copies_bytewise_iff (buf : ByteMemory) (inWord : userAddr < 2 ^ 64)
    (noWrap : userAddr + data.length ≤ 2 ^ 64) :
    (CopyInBytewise pageMap memory userAddr buf data.length ↔
      userAddr + data.length < 2 ^ 64 ∨ ¬ PagesTranslate pageMap memory userAddr data.length) ∧
    (Stable pageMap memory userAddr data.length →
      (CopyOutBytewise pageMap memory userAddr data ↔
        userAddr + data.length < 2 ^ 64 ∨
          ¬ PagesTranslate pageMap memory userAddr data.length)) :=
  ⟨copyIn_bytewise_iff buf inWord noWrap, fun stable =>
    copyOut_bytewise_iff stable inWord noWrap⟩

end Bytewise

theorem virtToPhys_rootLeaf {pageMap : PageMapper} {other : ByteMemory} {virt : Nat}
    (same : entry other pageMap.rootTable (vpnAt 2 virt) =
      entry memory pageMap.rootTable (vpnAt 2 virt))
    (isLeaf : PageTableEntry.isLeaf (entry memory pageMap.rootTable (vpnAt 2 virt)) = true) :
    pageMap.virtToPhys other virt = pageMap.virtToPhys memory virt := by
  rw [virtToPhys_eq_softwareFrom, softwareFrom, same, if_pos (Or.inl isLeaf),
    virtToPhys_eq_softwareFrom, softwareFrom, if_pos (Or.inl isLeaf)]

/-- A range of the gigabyte does not meet the page table. -/
theorem gigabyteMap_stable {userAddr length : Nat} (lower : 0x80000000 ≤ userAddr)
    (upper : userAddr + length ≤ 0xc0000000)
    (same : ∀ index < length,
      PageMapper.virtToPhys ⟨0x1000⟩ gigabyteMap (userAddr + index) = some (userAddr + index)) :
    Stable ⟨0x1000⟩ gigabyteMap userAddr length := by
  intro other written index inRange
  have third : vpnAt 2 (userAddr + index) = 2 := by
    unfold vpnAt
    omega
  apply virtToPhys_rootLeaf
  · rw [third]
    apply readWord_congr
    intro location lowerBound upperBound
    apply written
    intro position positionInRange found
    dsimp only at lowerBound upperBound
    rw [same position positionInRange, Option.some.injEq] at found
    omega
  · exact gigabyteMap_isLeaf _ third

/-- Two bytes on two pages of a gigabyte. -/
theorem gigabyteMap_bytewise :
    CopyInBytewise ⟨0x1000⟩ gigabyteMap 0x80000fff (fun _ => 0) 2 ∧
      CopyOutBytewise ⟨0x1000⟩ gigabyteMap 0x80000fff [7, 9] := by
  have stable : Stable ⟨0x1000⟩ gigabyteMap 0x80000fff 2 :=
    gigabyteMap_stable (by decide) (by decide) (by decide +kernel)
  obtain ⟨copyIn, copyOut⟩ := @copies_bytewise_iff ⟨0x1000⟩ gigabyteMap 0x80000fff [7, 9]
    (fun _ => 0) (by decide) (by decide)
  exact ⟨copyIn.mpr (Or.inl (by decide)), (copyOut stable).mpr (Or.inl (by decide))⟩

/-- A root table at 0x1000 that maps the last gigabyte, as one page. -/
def topMap : ByteMemory :=
  setEntry (fun _ => 0) 0x1000 511 (PageTableEntry.set 0x80000000 PageFlags.read)

/-- The last byte of the address space is mapped, and cannot be copied. -/
theorem topMap_overflows : PagesTranslate ⟨0x1000⟩ topMap (2 ^ 64 - 1) 1 ∧
    copyIn ⟨0x1000⟩ topMap (2 ^ 64 - 1) (fun _ => 0) 1 = .error .overflow ∧
    copyOut ⟨0x1000⟩ topMap (2 ^ 64 - 1) [7] = .error .overflow := by
  refine ⟨?_, ?_, ?_⟩
  · rintro page ⟨index, inRange, rfl⟩
    cases Nat.lt_one_iff.mp inRange
    exact ⟨0x80003000, by decide +kernel⟩
  · rfl
  · rfl

section InTurn

variable {pageMap : PageMapper} {memory : ByteMemory} {userAddr : Nat} {data : List UInt8}

/-- How many bytes `copy_out` writes at once. -/
def chunkLen (userAddr : Nat) (data : List UInt8) : Nat := min data.length (pageRest userAddr)

/-- The pages of a range are mapped when their turn comes, even if the range is mapped to
page tables: a page is looked up after the bytes for the pages before it were written. -/
inductive MappedInTurn (pageMap : PageMapper) : ByteMemory → Nat → List UInt8 → Prop
  | done {memory : ByteMemory} {userAddr : Nat} : MappedInTurn pageMap memory userAddr []
  | page {memory : ByteMemory} {userAddr phys : Nat} {data : List UInt8} (more : 0 < data.length)
      (found : pageMap.virtToPhys memory userAddr = some phys)
      (rest : MappedInTurn pageMap
        (memory.writeBytes phys (chunkLen userAddr data) fun index => data.getD index 0)
        (userAddr + chunkLen userAddr data) (data.drop (chunkLen userAddr data))) :
      MappedInTurn pageMap memory userAddr data

/-- A page of the range, in the address space, is not mapped when its turn comes. -/
inductive FaultsInTurn (pageMap : PageMapper) : ByteMemory → Nat → List UInt8 → Prop
  | unmapped {memory : ByteMemory} {userAddr : Nat} {data : List UInt8} (more : 0 < data.length)
      (inWord : userAddr < 2 ^ 64) (none : pageMap.virtToPhys memory userAddr = none) :
      FaultsInTurn pageMap memory userAddr data
  | page {memory : ByteMemory} {userAddr phys : Nat} {data : List UInt8} (more : 0 < data.length)
      (found : pageMap.virtToPhys memory userAddr = some phys)
      (rest : FaultsInTurn pageMap
        (memory.writeBytes phys (chunkLen userAddr data) fun index => data.getD index 0)
        (userAddr + chunkLen userAddr data) (data.drop (chunkLen userAddr data))) :
      FaultsInTurn pageMap memory userAddr data

theorem FaultsInTurn.inWord (faults : FaultsInTurn pageMap memory userAddr data) :
    userAddr < 2 ^ 64 := by
  induction faults with
  | unmapped _ inWord _ => exact inWord
  | page _ _ _ ih => exact (Nat.le_add_right ..).trans_lt ih

theorem MappedInTurn.not_faults (mapped : MappedInTurn pageMap memory userAddr data) :
    ¬ FaultsInTurn pageMap memory userAddr data := by
  induction mapped with
  | done =>
    rintro (⟨more, _, _⟩ | ⟨more, _, _⟩)
    all_goals exact Nat.lt_irrefl 0 more
  | page _ found _ ih =>
    rintro (⟨_, _, none⟩ | ⟨_, alsoFound, rest⟩)
    · cases found.symm.trans none
    · cases found.symm.trans alsoFound
      exact ih rest

/-- The loop of `copy_out`, page by page. -/
inductive CopiedInTurn (pageMap : PageMapper) (memory : ByteMemory) (userPtr : Nat)
    (remaining : List UInt8) : Checked (ByteMemory × CopyOutcome Unit) → Prop
  | whole {after : ByteMemory} {accesses : List Access}
      (fits : userPtr + remaining.length < 2 ^ 64)
      (mapped : MappedInTurn pageMap memory userPtr remaining) :
      CopiedInTurn pageMap memory userPtr remaining (.ok (after, ⟨accesses, .ok ()⟩))
  | unmapped {after : ByteMemory} {accesses : List Access}
      (faults : FaultsInTurn pageMap memory userPtr remaining) :
      CopiedInTurn pageMap memory userPtr remaining (.ok (after, ⟨accesses, .error ()⟩))
  | overflow (noFault : ¬ FaultsInTurn pageMap memory userPtr remaining)
      (reaches : 2 ^ 64 ≤ userPtr + remaining.length) :
      CopiedInTurn pageMap memory userPtr remaining (.error .overflow)

theorem FaultsInTurn.of_page (faults : FaultsInTurn pageMap memory userAddr data)
    (found : pageMap.virtToPhys memory userAddr = some phys) :
    FaultsInTurn pageMap
      (memory.writeBytes phys (chunkLen userAddr data) fun index => data.getD index 0)
      (userAddr + chunkLen userAddr data) (data.drop (chunkLen userAddr data)) := by
  cases faults with
  | unmapped _ _ none => cases found.symm.trans none
  | page _ alsoFound rest =>
    cases found.symm.trans alsoFound
    exact rest

theorem CopiedInTurn.page (access : Access) (more : 0 < data.length)
    (found : pageMap.virtToPhys memory userAddr = some phys)
    (rest : CopiedInTurn pageMap
      (memory.writeBytes phys (chunkLen userAddr data) fun index => data.getD index 0)
      (userAddr + chunkLen userAddr data) (data.drop (chunkLen userAddr data)) result) :
    CopiedInTurn pageMap memory userAddr data (do
      let (after, outcome) ← result
      .ok (after, outcome.after access)) := by
  have split : userAddr + chunkLen userAddr data + (data.drop (chunkLen userAddr data)).length =
      userAddr + data.length := by
    have within : chunkLen userAddr data ≤ data.length := Nat.min_le_left ..
    rw [List.length_drop]
    omega
  cases rest with
  | whole fits mapped => exact .whole (split ▸ fits) (.page more found mapped)
  | unmapped faults => exact .unmapped (.page more found faults)
  | overflow noFault reaches =>
    exact .overflow (fun faults => noFault (faults.of_page found)) (split ▸ reaches)

theorem copyOutLoop_inTurn {fuel : Nat} (inWord : userAddr < 2 ^ 64) (enough : data.length < fuel) :
    CopiedInTurn pageMap memory userAddr data (copyOutLoop pageMap fuel memory userAddr data) := by
  induction fuel generalizing memory userAddr data with
  | zero => omega
  | succ fuel ih =>
    rw [copyOutLoop]
    by_cases more : 0 < data.length
    · rw [if_pos more]
      cases found : pageMap.virtToPhys memory userAddr with
      | none => exact .unmapped (.unmapped more inWord found)
      | some phys =>
        have size : min data.length (pageRest userAddr) = chunkLen userAddr data := rfl
        dsimp only
        rw [size, checkedAdd]
        by_cases fits : userAddr + chunkLen userAddr data < wordLimit
        · rw [if_pos fits, ok_bind]
          refine .page _ more found (ih fits ?_)
          have positive := pageRest_pos userAddr
          rw [List.length_drop]
          omega
        · -- The pointer behind the last page of the address space does not fit.
          rw [if_neg fits]
          refine .overflow (fun faults => fits (faults.of_page found).inWord) ?_
          exact (Nat.le_of_not_lt fits).trans (by omega)
    · rw [if_neg more]
      cases List.length_eq_zero_iff.mp (Nat.eq_zero_of_not_pos more)
      exact .whole inWord .done

theorem copyOut_inTurn (inWord : userAddr < 2 ^ 64) :
    CopiedInTurn pageMap memory userAddr data (copyOut pageMap memory userAddr data) :=
  copyOutLoop_inTurn inWord (Nat.lt_succ_self _)

/-- A range that is not mapped to its page tables is mapped in turn if it is mapped. -/
theorem mappedInTurn_of_stable (stable : Stable pageMap memory userAddr data.length)
    (fits : userAddr + data.length < 2 ^ 64)
    (translates : Translates pageMap memory userAddr data.length) :
    MappedInTurn pageMap memory userAddr data := by
  have copied := copyOut_copied stable.inTurn ((Nat.le_add_right ..).trans_lt fits)
  have inTurn := @copyOut_inTurn pageMap memory _ data ((Nat.le_add_right ..).trans_lt fits)
  generalize copyOut pageMap memory userAddr data = result at copied inTurn
  cases copied with
  | whole _ _ _ _ =>
    cases inTurn with
    | whole _ mapped => exact mapped
  | unmapped faults => exact absurd translates faults.not_translates
  | overflow _ reaches => omega

end InTurn

end UserAccess

end NanoOs
