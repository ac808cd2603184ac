import NanoOs.PageWalks

/-!
# The walk of the hardware

How an Sv39 processor translates an address, apart from the permissions that it
checks, and where `virt_to_phys` agrees with it.  Both walk down the levels and
differ in the entries that the processor rejects and in the offset that is kept
below a leaf of the highest level.
-/

namespace NanoOs.PageMapping

def vpnAt (level virt : Nat) : Nat := virt / 2 ^ (12 + 9 * level) % 512

def PageTableEntry.Reserved (raw : Nat) : Prop :=
  PageTableEntry.has raw PageFlags.write ∧ ¬ PageTableEntry.has raw PageFlags.read

instance (raw : Nat) : Decidable (PageTableEntry.Reserved raw) :=
  inferInstanceAs (Decidable (_ ∧ _))

/-- The address translation of the privileged architecture, from a table on that is
this many levels above the pages.  No result is a page fault. -/
def sv39From (memory : ByteMemory) (virt : Nat) : Nat → Nat → Option Nat
  | 0, _ => none
  | level + 1, table =>
      let raw := entry memory table (vpnAt level virt)
      if ¬ PageTableEntry.isValid raw ∨ PageTableEntry.Reserved raw then
        none
      else if PageTableEntry.has raw PageFlags.read ∨ PageTableEntry.has raw PageFlags.execute then
        if PageTableEntry.addr raw % 2 ^ (12 + 9 * level) = 0 then
          some (PageTableEntry.addr raw + virt % 2 ^ (12 + 9 * level))
        else
          none
      else
        sv39From memory virt level (PageTableEntry.addr raw)

/-- The physical address for a virtual one, permissions apart. -/
def sv39 (memory : ByteMemory) (root virt : Nat) : Option Nat :=
  if Canonical virt then sv39From memory virt 3 root else none

/-- The leaf that the walk meets, if any, is aligned to what it maps. -/
def AlignedLeaf (memory : ByteMemory) (virt : Nat) : Nat → Nat → Prop
  | 0, _ => True
  | level + 1, table =>
      let raw := entry memory table (vpnAt level virt)
      PageTableEntry.isValid raw → if PageTableEntry.isLeaf raw then
        PageTableEntry.addr raw % 2 ^ (12 + 9 * level) = 0
      else
        AlignedLeaf memory virt level (PageTableEntry.addr raw)

/-- The walk meets no reserved entry and no link in a lowest table, and a leaf of
the highest level is used in its first sixteen kilobytes only. -/
def Regular (memory : ByteMemory) (virt : Nat) : Nat → Nat → Prop
  | 0, _ => True
  | level + 1, table =>
      let raw := entry memory table (vpnAt level virt)
      PageTableEntry.isValid raw → if PageTableEntry.isLeaf raw then
        ¬ PageTableEntry.Reserved raw ∧ (level = 2 → virt % 2 ^ 30 < 2 ^ 14)
      else
        level ≠ 0 ∧ Regular memory virt level (PageTableEntry.addr raw)

/-- How many low bits of an address `virt_to_phys` keeps below a leaf. -/
def keptBits (level : Nat) : Nat := if level = 2 then 14 else 12 + 9 * level

/-- The walk of `virt_to_phys`, level by level. -/
def softwareFrom (memory : ByteMemory) (virt : Nat) : Nat → Nat → Option Nat
  | 0, _ => none
  | level + 1, table =>
      let raw := entry memory table (vpnAt level virt)
      if ¬ PageTableEntry.isValid raw then
        none
      else if PageTableEntry.isLeaf raw ∨ level = 0 then
        some (PageTableEntry.addr raw / 2 ^ keptBits level * 2 ^ keptBits level +
          virt % 2 ^ keptBits level)
      else
        softwareFrom memory virt level (PageTableEntry.addr raw)

section Walks

variable {memory : ByteMemory} {virt table level : Nat}

theorem PageTableEntry.isLeaf_iff (raw : Nat) : isLeaf raw = true ↔
    has raw PageFlags.read ∨ has raw PageFlags.write ∨ has raw PageFlags.execute := by
  have split : flags raw &&& PageFlags.permissions.bits =
      (raw &&& PageFlags.read.bits) ||| (raw &&& PageFlags.write.bits) |||
        (raw &&& PageFlags.execute.bits) := by
    unfold flags
    rw [Nat.and_assoc, ← Nat.and_or_distrib_left, ← Nat.and_or_distrib_left]
    rfl
  unfold isLeaf has
  rw [decide_eq_true_eq, split, ne_eq, Nat.or_eq_zero_iff, Nat.or_eq_zero_iff,
    not_and_or, not_and_or, or_assoc]

theorem virtToPhys_eq_softwareFrom (mapper : PageMapper) :
    mapper.virtToPhys memory virt = softwareFrom memory virt 3 mapper.rootTable := by
  have masked (raw k : Nat) (small : k ≤ 64) :
      (PageTableEntry.addr raw &&& complement (2 ^ k - 1)) ||| (virt &&& (2 ^ k - 1)) =
        PageTableEntry.addr raw / 2 ^ k * 2 ^ k + virt % 2 ^ k :=
    or_mask_two_pow virt k (PageTableEntry.addr_lt raw) small
  obtain ⟨high, middle, low⟩ := vpn_eq virt
  have highest (raw : Nat) := masked raw 14 (by decide)
  have second (raw : Nat) := masked raw 21 (by decide)
  have third (raw : Nat) := masked raw 12 (by decide)
  norm_num at highest second third
  simp only [PageMapper.virtToPhys, softwareFrom, vpnAt, keptBits, highest, second, third, high,
    middle, low]
  norm_num

theorem kept_eq_iff {level base : Nat} (small : level < 3) (virt : Nat)
    (aligned : base % 2 ^ (12 + 9 * level) = 0) :
    base / 2 ^ keptBits level * 2 ^ keptBits level + virt % 2 ^ keptBits level =
        base + virt % 2 ^ (12 + 9 * level) ↔
      (level = 2 → virt % 2 ^ 30 < 2 ^ 14) := by
  have levels : level = 0 ∨ level = 1 ∨ level = 2 := by omega
  unfold keptBits
  rcases levels with rfl | rfl | rfl <;> norm_num at aligned ⊢ <;> omega

theorem software_eq_sv39From_iff (small : level ≤ 3)
    (aligned : AlignedLeaf memory virt level table) :
    softwareFrom memory virt level table = sv39From memory virt level table ↔
      Regular memory virt level table := by
  induction level generalizing table with
  | zero => simp [softwareFrom, sv39From, Regular]
  | succ level ih =>
    obtain ⟨raw, rawEq⟩ : ∃ raw, raw = entry memory table (vpnAt level virt) := ⟨_, rfl⟩
    have leafIff := PageTableEntry.isLeaf_iff raw
    unfold softwareFrom sv39From Regular
    unfold AlignedLeaf at aligned
    rw [← rawEq] at aligned ⊢
    by_cases valid : PageTableEntry.isValid raw = true
    · by_cases isLeaf : PageTableEntry.isLeaf raw = true
      · have base := aligned valid
        rw [if_pos isLeaf] at base
        by_cases reserved : PageTableEntry.Reserved raw
        · simp [valid, isLeaf, reserved]
        · have readable : PageTableEntry.has raw PageFlags.read ∨
              PageTableEntry.has raw PageFlags.execute := by
            rcases leafIff.mp isLeaf with read | write | execute
            · exact Or.inl read
            · exact Or.inl (not_not.mp fun notRead => reserved ⟨write, notRead⟩)
            · exact Or.inr execute
          simp only [valid, isLeaf, reserved, readable, base, not_true, if_false, if_true, or_false,
            true_or, Option.some.injEq, kept_eq_iff (by omega : level < 3) virt base,
            not_false_eq_true, true_and, forall_true_left]
      · have noFlags := isLeaf ∘ leafIff.mpr
        have ordinary : ¬ PageTableEntry.Reserved raw := fun reserved =>
          noFlags (Or.inr (Or.inl reserved.1))
        have unreadable : ¬ (PageTableEntry.has raw PageFlags.read ∨
            PageTableEntry.has raw PageFlags.execute) := fun either =>
          noFlags (either.imp_right Or.inr)
        have next := aligned valid
        rw [if_neg isLeaf] at next
        by_cases lowest : level = 0
        · subst lowest
          simp [valid, isLeaf, ordinary, unreadable, sv39From]
        · simp only [valid, isLeaf, ordinary, unreadable, lowest, not_true, if_false, or_false,
            ih (by omega) next, ne_eq, not_false_eq_true, true_and, forall_true_left,
            Bool.false_eq_true]
    · simp [valid]

end Walks

/-- `virt_to_phys` agrees with the processor on an address exactly if its walk is
regular. -/
theorem virtToPhys_eq_sv39_iff {memory : ByteMemory} {mapper : PageMapper} {virt : Nat}
    (canonical : Canonical virt) (aligned : AlignedLeaf memory virt 3 mapper.rootTable) :
    mapper.virtToPhys memory virt = sv39 memory mapper.rootTable virt ↔
      Regular memory virt 3 mapper.rootTable := by
  unfold sv39
  rw [if_pos canonical, virtToPhys_eq_softwareFrom, software_eq_sv39From_iff le_rfl aligned]

/-- A root table at 0x1000 that maps the third gigabyte to itself, as one page. -/
def gigabyteMap : ByteMemory :=
  setEntry (fun _ => 0) 0x1000 2 (PageTableEntry.set 0x80000000 PageFlags.read)

theorem gigabyteMap_isLeaf (virt : Nat) (index : vpnAt 2 virt = 2) :
    PageTableEntry.isLeaf (entry gigabyteMap 0x1000 (vpnAt 2 virt)) = true := by
  rw [index]
  decide +kernel

theorem gigabyteMap_aligned (virt : Nat) (index : vpnAt 2 virt = 2) :
    AlignedLeaf gigabyteMap virt 3 0x1000 := by
  intro _
  rw [if_pos (gigabyteMap_isLeaf virt index), index]
  decide +kernel

theorem gigabyteMap_start : PageMapper.virtToPhys ⟨0x1000⟩ gigabyteMap 0x80000010 =
    sv39 gigabyteMap 0x1000 0x80000010 ∧ sv39 gigabyteMap 0x1000 0x80000010 = some 0x80000010 := by
  refine ⟨(virtToPhys_eq_sv39_iff (by decide) (gigabyteMap_aligned _ (by decide))).mpr ?_,
    by decide +kernel⟩
  intro _
  rw [if_pos (gigabyteMap_isLeaf 0x80000010 (by decide))]
  decide +kernel

/-- Beyond the first sixteen kilobytes the offset in the page is cut off. -/
theorem gigabyteMap_truncated : Canonical 0x80004000 ∧ AlignedLeaf gigabyteMap 0x80004000 3 0x1000 ∧
    sv39 gigabyteMap 0x1000 0x80004000 = some 0x80004000 ∧
    PageMapper.virtToPhys ⟨0x1000⟩ gigabyteMap 0x80004000 = some 0x80000000 :=
  ⟨by decide, gigabyteMap_aligned _ (by decide), by decide +kernel, by decide +kernel⟩

end NanoOs.PageMapping
