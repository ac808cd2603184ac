import NanoOs.FrameSupply

/-!
# Copies between the kernel and user memory

`copy_out`, `copy_in` and `copy_in_str` go through user memory page by page and
translate the first address of each page with `virt_to_phys`.  The model keeps a
record of the physical bytes that a copy touches.
-/

namespace NanoOs.UserAccess

open PageMapping
open Memory (pageSize)

/-- Bytes of physical memory that a copy touches for a user address. -/
structure Access where
  virt : Nat
  phys : Nat
  length : Nat
  deriving Repr, DecidableEq

structure CopyOutcome (Value : Type) where
  accesses : List Access
  result : Except Unit Value

def CopyOutcome.after {Value : Type} (access : Access) (rest : CopyOutcome Value) :
    CopyOutcome Value :=
  { rest with accesses := access :: rest.accesses }

def pageRest (userPtr : Nat) : Nat :=
  let pageOffset := userPtr &&& (pageSize - 1)
  pageSize - pageOffset

theorem pageRest_eq (userPtr : Nat) : pageRest userPtr = 4096 - userPtr % 4096 := by
  have masked : userPtr &&& (2 ^ 12 - 1) = userPtr % 2 ^ 12 := Nat.and_two_pow_sub_one_eq_mod ..
  exact congrArg (4096 - ·) masked

theorem pageRest_pos (userPtr : Nat) : 0 < pageRest userPtr := by
  rw [pageRest_eq]
  omega

/-- The loop of `copy_out`, for at most so many pages. -/
def copyOutLoop (pageMap : PageMapper) :
    Nat → ByteMemory → Nat → List UInt8 → Checked (ByteMemory × CopyOutcome Unit)
  | 0, _, _, _ => .error .diverged
  | fuel + 1, memory, userPtr, remaining =>
      if 0 < remaining.length then
        let chunkSize := min remaining.length (pageRest userPtr)
        match pageMap.virtToPhys memory userPtr with
        | none => .ok (memory, ⟨[], .error ()⟩)
        | some physAddr => do
            let memory := memory.writeBytes physAddr chunkSize fun index => remaining.getD index 0
            let next ← checkedAdd userPtr chunkSize
            let (memory, rest) ← copyOutLoop pageMap fuel memory next (remaining.drop chunkSize)
            .ok (memory, rest.after ⟨userPtr, physAddr, chunkSize⟩)
      else
        .ok (memory, ⟨[], .ok ()⟩)

def copyOut (pageMap : PageMapper) (memory : ByteMemory) (userAddr : Nat) (data : List UInt8) :
    Checked (ByteMemory × CopyOutcome Unit) :=
  copyOutLoop pageMap (data.length + 1) memory userAddr data

/-- The loop of `copy_in`, for at most so many pages. -/
def copyInLoop (pageMap : PageMapper) (memory : ByteMemory) (length : Nat) :
    Nat → ByteMemory → Nat → Nat → Checked (ByteMemory × CopyOutcome Unit)
  | 0, _, _, _ => .error .diverged
  | fuel + 1, buf, userPtr, offset =>
      if offset < length then
        let chunkSize := min (length - offset) (pageRest userPtr)
        match pageMap.virtToPhys memory userPtr with
        | none => .ok (buf, ⟨[], .error ()⟩)
        | some physAddr => do
            let buf := buf.writeBytes offset chunkSize fun index => memory (physAddr + index)
            let next ← checkedAdd userPtr chunkSize
            let (buf, rest) ← copyInLoop pageMap memory length fuel buf next (offset + chunkSize)
            .ok (buf, rest.after ⟨userPtr, physAddr, chunkSize⟩)
      else
        .ok (buf, ⟨[], .ok ()⟩)

def copyIn (pageMap : PageMapper) (memory : ByteMemory) (userAddr : Nat) (buf : ByteMemory)
    (length : Nat) : Checked (ByteMemory × CopyOutcome Unit) :=
  copyInLoop pageMap memory length (length + 1) buf userAddr 0

/-- `core::str::from_utf8`, for strings as their bytes. -/
def fromUtf8 (bytes : List UInt8) : Except Unit (List UInt8) :=
  if (ByteArray.mk bytes.toArray).validateUTF8 then .ok bytes else .error ()

/-- The loop of `copy_in_str`, for at most so many pages. -/
def copyInStrLoop (pageMap : PageMapper) (memory : ByteMemory) (maxLen : Nat) :
    Nat → Nat → Nat → List UInt8 → Checked (CopyOutcome (List UInt8))
  | 0, _, _, _ => .error .diverged
  | fuel + 1, userPtr, scanned, result =>
      if scanned < maxLen then
        let chunkSize := min (maxLen - scanned) (pageRest userPtr)
        match pageMap.virtToPhys memory userPtr with
        | none => .ok ⟨[], .error ()⟩
        | some physAddr =>
            let chunk := (List.range chunkSize).map fun index => memory (physAddr + index)
            match chunk.findIdx? (· == 0) with
            | some nullPos =>
                .ok ⟨[⟨userPtr, physAddr, nullPos + 1⟩],
                  (fromUtf8 (chunk.take nullPos)).map (result ++ ·)⟩
            | none =>
                match fromUtf8 chunk with
                | .error error => .ok ⟨[⟨userPtr, physAddr, chunkSize⟩], .error error⟩
                | .ok part => do
                    let next ← checkedAdd userPtr chunkSize
                    let rest ← copyInStrLoop pageMap memory maxLen fuel next (scanned + chunkSize)
                      (result ++ part)
                    .ok (rest.after ⟨userPtr, physAddr, chunkSize⟩)
      else
        .ok ⟨[], .error ()⟩

def copyInStr (pageMap : PageMapper) (memory : ByteMemory) (userAddr maxLen : Nat) :
    Checked (CopyOutcome (List UInt8)) :=
  copyInStrLoop pageMap memory maxLen (maxLen + 1) userAddr 0 []

end NanoOs.UserAccess
