import NanoOs.FrameSupply

/-!
# Walks through page tables

A page table entry as it stands, flags included, and the entry that a walk for
a page ends at.  `virt_to_phys` takes the address from that entry and drops the
flags.
-/

namespace NanoOs.PageMapping

open RadixTables

section Words

variable {memory : ByteMemory} {table other index slot raw : Nat}

theorem entry_setEntry_same (fits : raw < 2 ^ 64) :
    entry (setEntry memory table index raw) table index = raw :=
  ByteMemory.readWord_writeWord_of_lt memory (by omega)

theorem entry_setEntry_ne (tableAligned : table % 4096 = 0) (otherAligned : other % 4096 = 0)
    (indexRange : index < pageEntries) (slotRange : slot < pageEntries)
    (different : ¬ (other = table ∧ slot = index)) :
    entry (setEntry memory table index raw) other slot = entry memory other slot := by
  apply ByteMemory.readWord_writeWord_disjoint
  unfold pageEntries at indexRange slotRange
  omega

theorem readWord_zero {address count : Nat}
    (zero : ∀ location, address ≤ location → location < address + count → memory location = 0) :
    memory.readWord address count = 0 := by
  induction count generalizing address with
  | zero => rfl
  | succ count ih =>
    rw [ByteMemory.readWord, zero address (by omega) (by omega),
      ih fun location lower upper => zero location (by omega) (by omega)]
    rfl

theorem entry_zeroPageTable_same (indexRange : index < pageEntries) :
    entry (zeroPageTable memory table) table index = 0 := by
  apply readWord_zero
  intro location lower upper
  apply if_pos
  omega

theorem entry_zeroPageTable_ne (tableAligned : table % 4096 = 0) (otherAligned : other % 4096 = 0)
    (slotRange : slot < pageEntries) (different : other ≠ table) :
    entry (zeroPageTable memory table) other slot = entry memory other slot := by
  apply ByteMemory.readWord_congr
  intro location lower upper
  apply if_neg
  unfold pageEntries at slotRange ⊢
  omega

end Words

theorem set_lt (physAddr : Nat) (flags : PageFlags) :
    PageTableEntry.set physAddr flags < 2 ^ 64 := by
  have flagsBound : (flags.bitor PageFlags.valid).bits < 2 ^ 64 := by
    rw [← (flags.bitor PageFlags.valid).within]
    exact Nat.lt_of_le_of_lt Nat.and_le_right (by decide)
  have ppnBound : physToPpn physAddr <<< 10 < 2 ^ 64 := by
    have small : physToPpn physAddr ≤ 0x000fffffffff := Nat.and_le_right
    omega
  apply Nat.or_lt_two_pow ppnBound
  split
  · exact flagsBound
  · exact Nat.lt_of_le_of_lt Nat.and_le_left flagsBound

variable {flags : PageFlags} {raw target : Nat}

namespace PageTableEntry

def has (raw : Nat) (flag : PageFlags) : Prop := raw &&& flag.bits ≠ 0

instance (raw : Nat) (flag : PageFlags) : Decidable (has raw flag) :=
  inferInstanceAs (Decidable (_ ≠ _))

theorem has_set {physAddr : Nat} {flag : PageFlags} (low : flag.bits < 2 ^ 10) :
    has (set physAddr flags) flag ↔ has (flags.bits ||| PageFlags.valid.bits) flag := by
  unfold has
  rw [set_low _ low]

theorem addr_aligned (raw : Nat) : addr raw % 4096 = 0 := by
  unfold addr
  omega

section User

variable (raw : Nat)

theorem isValid_setUserFlag : isValid (setUserFlag raw) = isValid raw := by
  have same : (raw ||| PageFlags.user.bits) &&& PageFlags.valid.bits =
      raw &&& PageFlags.valid.bits := by
    rw [Nat.and_or_distrib_right]
    exact Nat.or_zero _
  unfold isValid setUserFlag
  rw [same]

theorem isLeaf_setUserFlag : isLeaf (setUserFlag raw) = isLeaf raw := by
  have same : (raw ||| PageFlags.user.bits) &&& 0x3ff &&& PageFlags.permissions.bits =
      raw &&& 0x3ff &&& PageFlags.permissions.bits := by
    rw [Nat.and_or_distrib_right, Nat.and_or_distrib_right]
    exact Nat.or_zero _
  unfold isLeaf flags setUserFlag
  rw [same]

theorem addr_setUserFlag : addr (setUserFlag raw) = addr raw := by
  have same : (raw ||| PageFlags.user.bits) >>> 10 = raw >>> 10 := by
    rw [Nat.shiftRight_or_distrib]
    exact Nat.or_zero _
  unfold addr setUserFlag
  rw [same]

theorem classify_setUserFlag : classify (setUserFlag raw) = mapLeaf setUserFlag (classify raw) := by
  unfold classify
  rw [isValid_setUserFlag, isLeaf_setUserFlag, addr_setUserFlag]
  split
  · split <;> rfl
  · rfl

theorem has_setUserFlag (flag : PageFlags) :
    has (setUserFlag raw) flag ↔ has raw flag ∨ has PageFlags.user.bits flag := by
  unfold has setUserFlag
  rw [Nat.and_or_distrib_right, Ne, Nat.or_eq_zero_iff, not_and_or]

end User

end PageTableEntry

theorem FrameSupply.addr_set (supply : FrameSupply) {number phys : Nat}
    (bound : number < supply.owned) (physEq : phys = supply.frames number) :
    PageTableEntry.addr (PageTableEntry.set phys flags) = phys := by
  have upper := supply.upper number bound
  subst physEq
  exact PageTableEntry.addr_set (by omega) (supply.aligned _ bound)

def Canonical (virt : Nat) : Prop := virt < 2 ^ 38 ∨ 2 ^ 64 - 2 ^ 38 ≤ virt ∧ virt < 2 ^ 64

instance (virt : Nat) : Decidable (Canonical virt) :=
  inferInstanceAs (Decidable (_ ∨ _))

def slots (memory : ByteMemory) (table index : Nat) : Entry Nat :=
  PageTableEntry.classify (entry memory table index)

def pageLimit : Nat := 2 ^ 27

def pageOf (virt : Nat) : Nat := virt / 4096 % pageLimit

def upperPath (page : Nat) : List Nat := [page / 2 ^ 18, page / 2 ^ 9 % 512]

def pagePath (page : Nat) : List Nat := upperPath page ++ [page % 512]

/-- The leaf for a page, and how many levels above the lowest it is. -/
def view (memory : ByteMemory) (root page : Nat) : Option (Nat × Nat) :=
  lookup (slots memory) root (pagePath page)

/-- The physical address for a leaf, as `virt_to_phys` forms it. -/
def physical (virt : Nat) (found : Nat × Nat) : Nat :=
  let mask := if found.2 = 0 then 0xfff else if found.2 = 1 then 0x1fffff else 0x3fff
  (PageTableEntry.addr found.1 &&& complement mask) ||| (virt &&& mask)

section Paths

variable {page other virt : Nat}

theorem vpn_lt (virt : Nat) :
    vpn2 virt < pageEntries ∧ vpn1 virt < pageEntries ∧ vpn0 virt < pageEntries :=
  ⟨Nat.lt_succ_of_le Nat.and_le_right, Nat.lt_succ_of_le Nat.and_le_right,
    Nat.lt_succ_of_le Nat.and_le_right⟩

theorem vpn_eq (virt : Nat) : vpn2 virt = virt / 2 ^ 30 % 512 ∧ vpn1 virt = virt / 2 ^ 21 % 512 ∧
    vpn0 virt = virt / 2 ^ 12 % 512 := by
  have mask : (0x1ff : Nat) = 2 ^ 9 - 1 := by norm_num
  unfold vpn2 vpn1 vpn0
  rw [mask, Nat.and_two_pow_sub_one_eq_mod, Nat.and_two_pow_sub_one_eq_mod,
    Nat.and_two_pow_sub_one_eq_mod, Nat.shiftRight_eq_div_pow, Nat.shiftRight_eq_div_pow,
    Nat.shiftRight_eq_div_pow]
  exact ⟨rfl, rfl, rfl⟩

theorem pageOf_lt (virt : Nat) : pageOf virt < pageLimit :=
  Nat.mod_lt _ (by decide)

theorem upperPath_within (inRange : page < pageLimit) : Within pageEntries (upperPath page) := by
  unfold pageLimit at inRange
  unfold upperPath pageEntries
  rw [within_cons, within_cons]
  refine ⟨by omega, by omega, ?_⟩
  nofun

theorem pagePath_within (inRange : page < pageLimit) : Within pageEntries (pagePath page) := by
  refine within_append.mpr ⟨upperPath_within inRange, ?_⟩
  rw [within_cons]
  refine ⟨Nat.mod_lt _ (by decide), ?_⟩
  nofun

theorem page_eq_of_paths (upper : upperPath page = upperPath other)
    (lower : page % 512 = other % 512) : page = other := by
  obtain ⟨high, rest⟩ := List.cons.inj upper
  obtain ⟨middle, -⟩ := List.cons.inj rest
  omega

theorem pagePath_pageOf (virt : Nat) :
    pagePath (pageOf virt) = [vpn2 virt, vpn1 virt, vpn0 virt] := by
  obtain ⟨high, middle, low⟩ := vpn_eq virt
  unfold pagePath upperPath pageOf pageLimit
  rw [high, middle, low, List.cons_append, List.cons_append, List.nil_append]
  have highEq : virt / 4096 % 2 ^ 27 / 2 ^ 18 = virt / 2 ^ 30 % 512 := by omega
  have middleEq : virt / 4096 % 2 ^ 27 / 2 ^ 9 % 512 = virt / 2 ^ 21 % 512 := by omega
  have lowEq : virt / 4096 % 2 ^ 27 % 512 = virt / 2 ^ 12 % 512 := by omega
  rw [highEq, middleEq, lowEq]

theorem upperPath_pageOf (virt : Nat) : upperPath (pageOf virt) = [vpn2 virt, vpn1 virt] ∧
    pageOf virt % 512 = vpn0 virt := by
  have split : upperPath (pageOf virt) ++ [pageOf virt % 512] =
      [vpn2 virt, vpn1 virt] ++ [vpn0 virt] := pagePath_pageOf virt
  obtain ⟨upperEq, lowEq⟩ := List.append_inj' split rfl
  exact ⟨upperEq, (List.cons.inj lowEq).1⟩

end Paths

section Levels

variable {frames : Nat → Nat} {machine : Machine} {table index : Nat}

theorem nextLevel_of_pointer (link : slots machine.memory table index = .pointer target) :
    nextLevel frames machine table index = (target, machine) := by
  obtain ⟨isValid, -, addrEq⟩ := PageTableEntry.classify_pointer link
  unfold nextLevel
  rw [if_neg (not_not.mpr isValid), addrEq]

theorem nextLevel_of_invalid (missing : slots machine.memory table index = .invalid) :
    nextLevel frames machine table index = allocNextLevel frames machine table index := by
  unfold nextLevel
  rw [if_pos (PageTableEntry.classify_invalid missing)]

end Levels

section VirtToPhys

variable {memory : ByteMemory} {mapper : PageMapper} {virt : Nat}

/-- `virt_to_phys` ends at the leaf of the page, where the lowest tables hold no
links. -/
theorem virtToPhys_eq_view (noLinks : ∀ third, reach (slots memory) mapper.rootTable
      (upperPath (pageOf virt)) = some third →
      ∀ target, slots memory third (pageOf virt % 512) ≠ .pointer target) :
    mapper.virtToPhys memory virt =
      (view memory mapper.rootTable (pageOf virt)).map (physical virt) := by
  have pathEq := pagePath_pageOf virt
  obtain ⟨upperEq, lowEq⟩ := upperPath_pageOf virt
  rw [upperEq, lowEq] at noLinks
  unfold view
  rw [pathEq]
  cases high : slots memory mapper.rootTable (vpn2 virt) with
  | invalid =>
    rw [lookup_cons_invalid high]
    simp [PageMapper.virtToPhys, PageTableEntry.classify_invalid high]
  | leaf raw =>
    obtain ⟨entryEq, isValid, isLeaf⟩ := PageTableEntry.classify_leaf high
    rw [lookup_cons_leaf high]
    simp [PageMapper.virtToPhys, entryEq, isValid, isLeaf, physical]
  | pointer second =>
    obtain ⟨isValid, notLeaf, addrEq⟩ := PageTableEntry.classify_pointer high
    rw [lookup_cons_pointer high]
    cases middle : slots memory second (vpn1 virt) with
    | invalid =>
      rw [lookup_cons_invalid middle]
      simp [PageMapper.virtToPhys, isValid, notLeaf, addrEq,
        PageTableEntry.classify_invalid middle]
    | leaf raw =>
      obtain ⟨entryEq, leafValid, isLeaf⟩ := PageTableEntry.classify_leaf middle
      rw [lookup_cons_leaf middle]
      simp [PageMapper.virtToPhys, isValid, notLeaf, addrEq, entryEq, leafValid, isLeaf,
        physical]
    | pointer third =>
      obtain ⟨nextValid, nextNotLeaf, nextAddrEq⟩ := PageTableEntry.classify_pointer middle
      rw [lookup_cons_pointer middle]
      cases low : slots memory third (vpn0 virt) with
      | invalid =>
        rw [lookup_cons_invalid low]
        simp [PageMapper.virtToPhys, isValid, notLeaf, addrEq, nextValid, nextNotLeaf,
          nextAddrEq, PageTableEntry.classify_invalid low]
      | leaf raw =>
        obtain ⟨entryEq, leafValid, -⟩ := PageTableEntry.classify_leaf low
        rw [lookup_cons_leaf low]
        simp [PageMapper.virtToPhys, isValid, notLeaf, addrEq, nextValid, nextNotLeaf,
          nextAddrEq, entryEq, leafValid, physical]
      | pointer target =>
        refine absurd low (noLinks third ?_ target)
        rw [reach_cons_pointer high, reach_cons_pointer middle]
        rfl

theorem physical_small (virt raw : Nat) :
    physical virt (raw, 0) = PageTableEntry.addr raw + virt % 4096 := by
  have aligned := PageTableEntry.addr_aligned raw
  have joined := or_mask_two_pow virt 12 (PageTableEntry.addr_lt raw) (by omega)
  have mask : (0xfff : Nat) = 2 ^ 12 - 1 := by norm_num
  unfold physical
  rw [if_pos rfl, mask, joined]
  omega

end VirtToPhys

end NanoOs.PageMapping
