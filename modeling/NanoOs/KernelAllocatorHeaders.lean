import NanoOs.KernelAllocator
import NanoOs.LinkedLists

/-!
# Decoded headers

The allocator's memory is read as five functions that give each block address
its size, links and use bit.  `Agrees` says that the stored headers of a list of
blocks decode to these functions.  Every header method then acts on the decoded
functions as a pointwise update, and the list operations of the allocator act
as the editing operations of linked lists.
-/

namespace NanoOs.KernelAllocator

open LinkedLists

structure Headers where
  size : Nat → Nat
  prev : Nat → Nat
  freeNext : Nat → Nat
  freePrev : Nat → Nat
  used : Nat → Bool

/-- An aligned address in the part of the address space the offsets reach. -/
def HeapPointer (pointer : Nat) : Prop :=
  heapStart ≤ pointer ∧ pointer < 2 ^ 64 ∧ pointer % 8 = 0

def StorableLink (pointer : Nat) : Prop := pointer = 0 ∨ HeapPointer pointer

variable {pointer : Nat}

theorem HeapPointer.storable (valid : HeapPointer pointer) : StorableLink pointer :=
  Or.inr valid

theorem HeapPointer.ne_zero (valid : HeapPointer pointer) : pointer ≠ 0 := by
  have lower := valid.1
  unfold heapStart at lower
  omega

theorem storableLink_zero : StorableLink 0 := Or.inl rfl

def linkOffset (pointer : Nat) : Nat :=
  if pointer = 0 then nullOffset else pointer - heapStart

section

variable {pointer : Nat} (link : StorableLink pointer)

include link

private theorem linkOffset_cases :
    (pointer = 0 ∧ linkOffset pointer = nullOffset) ∨
      (pointer ≠ 0 ∧ linkOffset pointer = pointer - heapStart ∧ heapStart ≤ pointer ∧
        linkOffset pointer < 2 ^ 30 ∧ linkOffset pointer % 8 = 0) := by
  rcases link with rfl | valid
  · exact Or.inl ⟨rfl, rfl⟩
  · right
    have nonzero := valid.ne_zero
    obtain ⟨lower, upper, aligned⟩ := valid
    have value : linkOffset pointer = pointer - heapStart := if_neg nonzero
    refine ⟨nonzero, value, lower, ?_, ?_⟩ <;> rw [value] <;> unfold heapStart at * <;> omega

theorem linkOffset_lt : linkOffset pointer < 2 ^ 32 - 1 := by
  rcases linkOffset_cases link with ⟨-, value⟩ | ⟨-, -, -, bound, -⟩
  · rw [value]
    decide
  · omega

theorem linkOffset_even : linkOffset pointer % 2 = 0 := by
  rcases linkOffset_cases link with ⟨-, value⟩ | ⟨-, -, -, -, aligned⟩
  · rw [value]
    decide
  · omega

theorem toOffset_eq : toOffset pointer = .ok (linkOffset pointer) := by
  unfold toOffset
  rcases linkOffset_cases link with ⟨rfl, value⟩ | ⟨nonzero, value, lower, bound, -⟩
  · rw [if_pos rfl, value]
  · rw [if_neg nonzero, checkedSub_bind lower, ← value]
    unfold asU32
    rw [Nat.mod_eq_of_lt (by omega)]

theorem fromOffset_linkOffset : fromOffset (linkOffset pointer) = .ok pointer := by
  unfold fromOffset
  rcases linkOffset_cases link with ⟨rfl, value⟩ | ⟨nonzero, value, lower, bound, aligned⟩
  · rw [if_pos value]
  · rw [if_neg, checkedAdd_of_lt]
    · congr 1
      omega
    · have upper := (link.resolve_left nonzero).2.1
      omega
    · unfold nullOffset
      omega

end

namespace Headers

def raw (headers : Headers) (this : Nat) : BlockHeader where
  rawSize := headers.size this
  rawPrev := linkOffset (headers.prev this)
  rawFreeNext := linkOffset (headers.freeNext this)
  rawFreePrev := linkOffset (headers.freePrev this) + (headers.used this).toNat

structure Storable (headers : Headers) (this : Nat) : Prop where
  size : headers.size this < 2 ^ 32
  prev : StorableLink (headers.prev this)
  freeNext : StorableLink (headers.freeNext this)
  freePrev : StorableLink (headers.freePrev this)

def setSize (headers : Headers) (this size : Nat) : Headers :=
  { headers with size := Function.update headers.size this size }

def setPrev (headers : Headers) (this pointer : Nat) : Headers :=
  { headers with prev := Function.update headers.prev this pointer }

def setFreeNext (headers : Headers) (this pointer : Nat) : Headers :=
  { headers with freeNext := Function.update headers.freeNext this pointer }

def setFreePrev (headers : Headers) (this pointer : Nat) : Headers :=
  { headers with freePrev := Function.update headers.freePrev this pointer }

def setUsed (headers : Headers) (this : Nat) (used : Bool) : Headers :=
  { headers with used := Function.update headers.used this used }

def reset (headers : Headers) (this size : Nat) (used : Bool) : Headers where
  size := Function.update headers.size this size
  prev := Function.update headers.prev this 0
  freeNext := Function.update headers.freeNext this 0
  freePrev := Function.update headers.freePrev this 0
  used := Function.update headers.used this used

def freeLinks (headers : Headers) (first : Nat) : DoubleLinks Nat :=
  ⟨first, headers.freeNext, headers.freePrev⟩

def withFreeLinks (headers : Headers) (links : DoubleLinks Nat) : Headers :=
  { headers with freeNext := links.next, freePrev := links.previous }

variable {headers : Headers} {this : Nat}

section

variable (storable : headers.Storable this)

include storable

theorem Storable.fits : (headers.raw this).Fits where
  size := storable.size
  prev := by
    have bound := linkOffset_lt storable.prev
    simp only [raw]
    omega
  freeNext := by
    have bound := linkOffset_lt storable.freeNext
    simp only [raw]
    omega
  freePrev := by
    have bound := linkOffset_lt storable.freePrev
    have bit := (headers.used this).toNat_le
    simp only [raw]
    omega

theorem Storable.prev_raw : (headers.raw this).prev = .ok (headers.prev this) :=
  fromOffset_linkOffset storable.prev

theorem Storable.freeNext_raw : (headers.raw this).freeNext = .ok (headers.freeNext this) :=
  fromOffset_linkOffset storable.freeNext

private theorem freePrev_masked :
    (headers.raw this).rawFreePrev &&& nullOffset = linkOffset (headers.freePrev this) := by
  have bound := linkOffset_lt storable.freePrev
  have even := linkOffset_even storable.freePrev
  have bit := (headers.used this).toNat_le
  have mask : nullOffset = 2 ^ 32 - 2 ^ 1 := rfl
  rw [mask, and_highMask (by simp only [raw]; omega) (by omega)]
  simp only [raw]
  omega

theorem Storable.freePrev_raw : (headers.raw this).freePrev = .ok (headers.freePrev this) := by
  have decoded := fromOffset_linkOffset storable.freePrev
  unfold BlockHeader.freePrev
  simp only [freePrev_masked storable]
  exact decoded

private theorem lowBit : (headers.raw this).rawFreePrev &&& 1 = (headers.used this).toNat := by
  have even := linkOffset_even storable.freePrev
  have bit := (headers.used this).toNat_le
  rw [Nat.and_one_is_mod]
  simp only [raw]
  omega

theorem Storable.isUsed_raw : (headers.raw this).isUsed = headers.used this := by
  unfold BlockHeader.isUsed
  rw [lowBit storable]
  cases headers.used this <;> rfl

theorem Storable.isFree_raw : (headers.raw this).isFree = !headers.used this := by
  unfold BlockHeader.isFree
  rw [lowBit storable]
  cases headers.used this <;> rfl

end

theorem setPrev_raw (link : StorableLink pointer) :
    (headers.raw this).setPrev pointer = .ok ((headers.setPrev this pointer).raw this) := by
  simp [BlockHeader.setPrev, toOffset_eq link, raw, setPrev]

theorem setFreeNext_raw (link : StorableLink pointer) :
    (headers.raw this).setFreeNext pointer =
      .ok ((headers.setFreeNext this pointer).raw this) := by
  simp [BlockHeader.setFreeNext, toOffset_eq link, raw, setFreeNext]

theorem or_even {offset low : Nat} (even : offset % 2 = 0) (small : low < 2) :
    low ||| offset = offset + low := by
  have split : offset = 2 ^ 1 * (offset / 2) := by omega
  rw [Nat.or_comm, split, ← Nat.two_pow_add_eq_or_of_lt small]

private theorem or_evenOffset {offset : Nat} (even : offset % 2 = 0) (bit : Bool) :
    bit.toNat ||| offset = offset + bit.toNat :=
  or_even even (Nat.lt_succ_of_le bit.toNat_le)

theorem setFreePrev_raw (storable : headers.Storable this) (link : StorableLink pointer) :
    (headers.raw this).setFreePrev pointer =
      .ok ((headers.setFreePrev this pointer).raw this) := by
  have encoded := toOffset_eq link
  have merged := or_evenOffset (linkOffset_even link) (headers.used this)
  have mask : offsetLowerBitsMask = 1 := rfl
  unfold BlockHeader.setFreePrev
  rw [mask, lowBit storable]
  unfold toOffset at encoded
  by_cases null : pointer = 0
  · rw [if_pos null] at encoded ⊢
    simp only [Except.ok.injEq] at encoded
    rw [encoded, merged]
    simp [raw, setFreePrev]
  · rw [if_neg null] at encoded ⊢
    obtain ⟨offset, subtracted, truncated⟩ := bind_eq_ok.mp encoded
    simp only [Except.ok.injEq] at truncated
    rw [subtracted, ok_bind, truncated, merged]
    simp [raw, setFreePrev]

variable {size : Nat}

theorem setSize_raw (fits : size < 2 ^ 32) :
    (headers.raw this).setSize size = (headers.setSize this size).raw this := by
  have small : asU32 size = size := Nat.mod_eq_of_lt fits
  simp [BlockHeader.setSize, small, raw, setSize]

theorem addSize_raw (fits : headers.size this + size < 2 ^ 32) :
    (headers.raw this).addSize size =
      .ok ((headers.setSize this (headers.size this + size)).raw this) := by
  have small : asU32 size = size := Nat.mod_eq_of_lt (by omega)
  unfold BlockHeader.addSize
  rw [small, if_pos (by simpa [raw] using fits)]
  simp [raw, setSize]

theorem setUsed_raw (storable : headers.Storable this) :
    (headers.raw this).setUsed = (headers.setUsed this true).raw this := by
  have even := linkOffset_even storable.freePrev
  have merged : ∀ bit : Bool, linkOffset (headers.freePrev this) + bit.toNat ||| 1 =
      linkOffset (headers.freePrev this) + 1 := by
    intro bit
    rw [← or_evenOffset even bit, Nat.or_comm bit.toNat, Nat.or_assoc]
    have ones : bit.toNat ||| 1 = true.toNat := by cases bit <;> rfl
    rw [ones, Nat.or_comm, or_evenOffset even true]
    rfl
  simp [BlockHeader.setUsed, raw, setUsed, merged]

theorem setFree_raw (storable : headers.Storable this) :
    (headers.raw this).setFree = (headers.setUsed this false).raw this := by
  have masked := freePrev_masked storable
  have mask : (2 ^ 32 - 1 - 1 : Nat) = nullOffset := rfl
  unfold BlockHeader.setFree
  rw [mask, masked]
  simp [raw, setUsed]

theorem new_raw (fits : size < 2 ^ 32) (used : Bool) :
    BlockHeader.new size used = (headers.reset this size used).raw this := by
  have flag : nullOffset ||| (if used = true then 1 else 0) = nullOffset + used.toNat := by
    cases used <;> rfl
  have small : asU32 size = size := Nat.mod_eq_of_lt fits
  simp [BlockHeader.new, raw, reset, linkOffset, small, flag]

end Headers

end NanoOs.KernelAllocator
