import Mathlib.Data.Nat.Log
import NanoOs.BlockVolumes
import NanoOs.KernelAllocator
import NanoOs.UserCopyBytes

/-!
# Buffers for the virtio block driver

The device sees physical memory: a buffer is one descriptor, and must not leave its
page. The driver checks the buffers it is given, and its own are allocated within a
page.
-/

namespace NanoOs

namespace Virtio

open BlockDisk (BlockError Buffer)
open BlockVolumes (blockSize)
open Memory (pageSize)
open PageMapping

def virtioQueueSize : Nat := 4
def availRingOffset : Nat := 2
def blkReqHeaderSize : Nat := 16
def blkStatusSize : Nat := 1
def descFNext : Nat := 1
def descFWrite : Nat := 2

/-- Validate a buffer for DMA, and count its sectors. -/
def validateReadBuffer (buf : Buffer) : Checked (Except BlockError Nat) :=
  if buf.length = 0 ∨ buf.length % blockSize ≠ 0 then
    .ok (.error .invalidInput)
  else if buf.address % blockSize ≠ 0 then
    .ok (.error .invalidInput)
  else do
    let stop ← checkedAdd buf.address buf.length
    if buf.address / pageSize ≠ (stop - 1) / pageSize then
      .ok (.error .invalidInput)
    else
      .ok (.ok (buf.length / blockSize % 2 ^ 32))

theorem pow_clog_le {size : Nat} (fits : size ≤ pageSize) : 2 ^ Nat.clog 2 size ≤ pageSize :=
  Nat.pow_le_pow_right (by decide) (Nat.clog_le_of_le_pow fits : Nat.clog 2 size ≤ 12)

/-- The layout with which `alloc_within_page` allocates a value of a type of this
size: aligned to the next power of two, and at most to a page. -/
def layoutWithinPage (size : Nat) (nonzero : 0 < size) : Checked KernelAllocator.Layout :=
  if fits : size ≤ pageSize then
    .ok
      { size
        align := min (2 ^ Nat.clog 2 size) pageSize
        nonzero
        powerOfTwo := ⟨_, Nat.min_eq_left (pow_clog_le fits)⟩
        bounded := Nat.le_trans (Nat.add_le_add fits (Nat.min_le_right _ _)) (by decide) }
  else
    .error (.assertion s!"alloc_within_page: size {size} exceeds page size")

structure VirtqDesc where
  addr : Nat
  len : Nat
  flags : Nat
  next : Nat
  deriving Repr, DecidableEq

structure VirtioBlkReq where
  reqType : Nat
  reserved : Nat
  sector : Nat
  deriving Repr, DecidableEq

/-- The driver with the memory it shares with the device.  The used ring, which it
never reads, is left out. -/
structure VirtioBlk where
  desc : Nat → VirtqDesc
  avail : Nat → Nat
  req : VirtioBlkReq
  status : UInt8
  reqPhys : Nat
  statusPhys : Nat

/-- Build and submit a request: a chain of three descriptors for the request header,
the data and the status byte. -/
def VirtioBlk.startIo (virtToPhys : Nat → Option Nat) (driver : VirtioBlk)
    (reqType sector : Nat) (buf : Buffer) (dataFlags : Nat) :
    Checked (Except BlockError VirtioBlk) := do
  match ← validateReadBuffer buf with
  | .error error => .ok (.error error)
  | .ok _ =>
      match virtToPhys buf.address with
      | none => .ok (.error .ioError)
      | some bufPhys =>
          let availIdx := driver.avail 1
          .ok (.ok { driver with
            req := ⟨reqType, 0, sector⟩
            status := 0xff
            desc :=
              Function.update
                (Function.update
                  (Function.update driver.desc 0 ⟨driver.reqPhys, blkReqHeaderSize, descFNext, 1⟩)
                  1 ⟨bufPhys, buf.length % 2 ^ 32, dataFlags, 2⟩)
                2 ⟨driver.statusPhys, blkStatusSize, descFWrite, 0⟩
            avail :=
              Function.update
                (Function.update driver.avail (availRingOffset + availIdx % virtioQueueSize) 0)
                1 ((availIdx + 1) % 2 ^ 16) })

section Buffers

variable {buf : Buffer} {sectors size address : Nat}

theorem validateReadBuffer_eq_ok : validateReadBuffer buf = .ok (.ok sectors) ↔
    0 < buf.length ∧ buf.length % 512 = 0 ∧ buf.address % 512 = 0 ∧
      buf.address + buf.length < 2 ^ 64 ∧
      buf.address / 4096 = (buf.address + buf.length - 1) / 4096 ∧
      buf.length / 512 % 2 ^ 32 = sectors := by
  unfold validateReadBuffer checkedAdd wordLimit blockSize pageSize
  split
  · exact ⟨by simp, fun accepted => absurd accepted.2.1 (by omega)⟩
  · split
    · exact ⟨by simp, fun accepted => absurd accepted.2.2.1 (by omega)⟩
    · split
      · rw [ok_bind]
        split
        · exact ⟨by simp, fun accepted => absurd accepted.2.2.2.2.1 (by omega)⟩
        · rw [Except.ok.injEq, Except.ok.injEq]
          exact ⟨fun same => ⟨by omega, by omega, by omega, by omega, by omega, same⟩,
            fun accepted => accepted.2.2.2.2.2⟩
      · exact ⟨nofun, fun accepted => absurd accepted.2.2.2.1 (by omega)⟩

theorem within_page_of_aligned {exponent : Nat} (small : exponent ≤ 12) (nonzero : 0 < size)
    (fits : size ≤ 2 ^ exponent) (aligned : address % 2 ^ exponent = 0) :
    address / 4096 = (address + size - 1) / 4096 := by
  obtain ⟨rest, sum⟩ := Nat.exists_eq_add_of_le small
  have page : 4096 = 2 ^ exponent * 2 ^ rest := by rw [← Nat.pow_add, ← sum]
  have start : (address + size - 1) / 2 ^ exponent = address / 2 ^ exponent := by
    obtain ⟨block, rfl⟩ := Nat.dvd_of_mod_eq_zero aligned
    have positive : 0 < 2 ^ exponent := Nat.two_pow_pos exponent
    rw [Nat.add_sub_assoc nonzero, Nat.mul_add_div positive, Nat.mul_div_cancel_left _ positive,
      Nat.div_eq_of_lt (by omega), Nat.add_zero]
  rw [page, ← Nat.div_div_eq_div_mul, ← Nat.div_div_eq_div_mul, start]

end Buffers

/-- A buffer that the driver accepts is contiguous in physical memory, and described to
the device as it is; a buffer that the allocator places where its layout asks is within
a page, and accepted if it is made of sectors. -/
theorem dma_buffers :
    (∀ (pageMap : PageMapper) (memory : ByteMemory) (driver : VirtioBlk)
        (reqType sector dataFlags sectors phys : Nat) (buf : Buffer),
      validateReadBuffer buf = .ok (.ok sectors) →
      pageMap.virtToPhys memory buf.address = some phys →
      (∀ index < buf.length,
        pageMap.virtToPhys memory (buf.address + index) = some (phys + index)) ∧
      ∃ next, driver.startIo (pageMap.virtToPhys memory) reqType sector buf dataFlags =
          .ok (.ok next) ∧ next.desc 1 = ⟨phys, buf.length, dataFlags, 2⟩) ∧
    ∀ size (nonzero : 0 < size), size ≤ 4096 → ∃ layout,
      layoutWithinPage size nonzero = .ok layout ∧
      layout.size = size ∧ ∀ address, address % layout.align = 0 → address + size < 2 ^ 64 →
        address / 4096 = (address + size - 1) / 4096 ∧
        (size % 512 = 0 → validateReadBuffer ⟨address, size⟩ = .ok (.ok (size / 512))) := by
  constructor
  · intro pageMap memory driver reqType sector dataFlags sectors phys buf accepted mapped
    obtain ⟨nonzero, -, -, -, samePage, -⟩ := validateReadBuffer_eq_ok.mp accepted
    have short : buf.length % 2 ^ 32 = buf.length := Nat.mod_eq_of_lt (by omega)
    refine ⟨fun index inRange => ?_, ?_⟩
    · rw [pageMap.virtToPhys_add memory (by omega), mapped]
      rfl
    · unfold VirtioBlk.startIo
      rw [accepted, ok_bind]
      rw [mapped, short]
      exact ⟨_, rfl, rfl⟩
  · intro size nonzero fits
    have small : Nat.clog 2 size ≤ 12 := Nat.clog_le_of_le_pow fits
    refine ⟨_, dif_pos fits, rfl, fun address aligned inWord => ?_⟩
    change address % min (2 ^ Nat.clog 2 size) pageSize = 0 at aligned
    rw [Nat.min_eq_left (pow_clog_le fits)] at aligned
    have samePage := within_page_of_aligned small nonzero (Nat.le_pow_clog (by decide) size) aligned
    refine ⟨samePage, fun whole => validateReadBuffer_eq_ok.mpr ?_⟩
    have sector : 2 ^ 9 ∣ 2 ^ Nat.clog 2 size :=
      Nat.pow_dvd_pow 2 (Nat.clog_pow 2 9 (by decide) ▸ Nat.clog_mono_right 2 (by omega))
    have sectorAligned := Nat.mod_eq_zero_of_dvd (sector.trans (Nat.dvd_of_mod_eq_zero aligned))
    exact ⟨nonzero, whole, sectorAligned, inWord, samePage,
      (Nat.mod_eq_of_lt (by omega) : size / 512 % 2 ^ 32 = size / 512)⟩

/-- A root table at 0x1000 and a table at 0x2000 that map two megabytes to themselves. -/
def megabytesMap : ByteMemory :=
  setEntry (setEntry (fun _ => 0) 0x1000 2
    (PageTableEntry.set 0x2000 PageFlags.valid)) 0x2000 0
    (PageTableEntry.set 0x80000000 PageFlags.read)

/-- Two sectors at the end of a page of a large page, and a buffer for one sector. -/
theorem megabytesMap_contiguous :
    (∀ index < 1024, PageMapper.virtToPhys ⟨0x1000⟩ megabytesMap
      (0x80000c00 + index) = some (0x80000c00 + index)) ∧
    ∃ layout, layoutWithinPage 512 (by decide) = .ok layout ∧ 0x80000e00 % layout.align = 0 ∧
      0x80000e00 / 4096 = (0x80000e00 + 512 - 1) / 4096 ∧
      validateReadBuffer ⟨0x80000e00, 512⟩ = .ok (.ok (512 / 512)) := by
  obtain ⟨contiguous, layouts⟩ := dma_buffers
  obtain ⟨layout, made, -, within⟩ := layouts 512 (by decide) (by decide)
  have align : (layoutWithinPage 512 (by decide)).map KernelAllocator.Layout.align = .ok 512 := by
    decide +kernel
  rw [made] at align
  have aligned : 0x80000e00 % layout.align = 0 := by rw [Except.ok.inj align]
  obtain ⟨samePage, valid⟩ := within 0x80000e00 aligned (by decide)
  exact ⟨(contiguous ⟨0x1000⟩ megabytesMap ⟨fun _ => ⟨0, 0, 0, 0⟩, fun _ => 0, ⟨0, 0, 0⟩, 0, 0, 0⟩
    0 0 0 2 0x80000c00 ⟨0x80000c00, 1024⟩ rfl (by decide +kernel)).1,
    layout, made, aligned, samePage, valid (by decide)⟩

end Virtio

end NanoOs
