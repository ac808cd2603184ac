import NanoOs.ProcessIsolation
import NanoOs.UserStrings

/-!
# Which memory copies reach

A copy follows the page map of the process and ignores the flags of the leaves.
It stays in the memory of the process exactly if it does not start on a page that
the process shares with the kernel.
-/

namespace NanoOs.ProcessMemoryMap

open KernelMemoryMap PageMapping UserAccess List

/-- The byte lies on a page that the process may read, or write. -/
def UserByte (memory : ByteMemory) (root : Nat) (write : Bool) (virt : Nat) : Prop :=
  virt < 2 ^ 64 ∧ ∃ raw level, view memory root (pageOf virt) = some (raw, level) ∧
    PageTableEntry.has raw PageFlags.user ∧
      (write = true → PageTableEntry.has raw PageFlags.write)

/-- All bytes of the access are reached through leaves of the process. -/
def ThroughUser (memory : ByteMemory) (root : Nat) (write : Bool) (access : Access) : Prop :=
  ∀ index < access.length, ∃ raw level,
    view memory root (pageOf (access.virt + index)) = some (raw, level) ∧
      PageTableEntry.has raw PageFlags.user ∧
      (write = true → PageTableEntry.has raw PageFlags.write) ∧
      access.phys + index = physical (access.virt + index) (raw, level)

/-- A call of `copy_out` writes user memory only, and fails if there is another
page in its way. -/
def CopyOutConfined (pageMap : PageMapper) (memory : ByteMemory) (userAddr : Nat)
    (data : List UInt8) : Prop :=
  ∃ after outcome, copyOut pageMap memory userAddr data = .ok (after, outcome) ∧
    (∀ access ∈ outcome.accesses, ThroughUser memory pageMap.rootTable true access) ∧
    (∀ location, (∀ access ∈ outcome.accesses,
      location < access.phys ∨ access.phys + access.length ≤ location) →
        after location = memory location) ∧
    ((∃ index < data.length, ¬ UserByte memory pageMap.rootTable true (userAddr + index)) →
      outcome.result = .error ())

/-- A call of `copy_in` reads user memory only, and fails if there is another page
in its way. -/
def CopyInConfined (pageMap : PageMapper) (memory : ByteMemory) (userAddr : Nat)
    (buf : ByteMemory) (length : Nat) : Prop :=
  ∃ after outcome, copyIn pageMap memory userAddr buf length = .ok (after, outcome) ∧
    (∀ access ∈ outcome.accesses, ThroughUser memory pageMap.rootTable false access) ∧
    ((∃ index < length, ¬ UserByte memory pageMap.rootTable false (userAddr + index)) →
      outcome.result = .error ())

/-- A call of `copy_in_str` reads user memory only, and a string that it returns
lies on pages of the process, with the zero after it. -/
def CopyInStrConfined (pageMap : PageMapper) (memory : ByteMemory) (userAddr maxLen : Nat) : Prop :=
  ∃ outcome, copyInStr pageMap memory userAddr maxLen = .ok outcome ∧
    (∀ access ∈ outcome.accesses, ThroughUser memory pageMap.rootTable false access) ∧
    ∀ bytes, outcome.result = .ok bytes →
      ∀ index ≤ bytes.length, UserByte memory pageMap.rootTable false (userAddr + index)

/-- The copy is empty, or the page of its first byte is mapped for the process or
not at all. -/
def Guarded (memory : ByteMemory) (root userAddr length : Nat) : Prop :=
  length = 0 ∨ ∀ raw level, view memory root (pageOf userAddr) = some (raw, level) →
    PageTableEntry.has raw PageFlags.user

variable {memory : ByteMemory} {userAddr : Nat} {phys : Nat} {buf : ByteMemory} {data : List UInt8}

section Confined

variable {supply : FrameSupply} {kernel : Kernel} {world : World} {rank : Nat → Option Nat}
  {process : Nat} {ctx : Context} (sound : Sound supply kernel world rank)
  (current : world.processes[process]? = some ctx)

include sound current

/-- The last page below the shared ones is never mapped. -/
theorem Sound.last_unmapped :
    view world.machine.memory ctx.pageMap.rootTable (pageLimit - 513) = none := by
  have space := sound.spaces process ctx current
  obtain ⟨_, -, regions⟩ := space.regions
  have cursors := space.cursors
  have beginAligned := cursors.beginAligned
  have heapLow := cursors.heapLow
  have heapCounted := cursors.heapCounted
  have nextCounted := cursors.nextCounted
  have owned := sound.idle.space.spaces.owned
  have most := supply.owned_le
  have lastEq : pageLimit - 513 = 2 ^ 27 - 513 := rfl
  have low : pageLimit - 513 < pageLimit - 512 := by decide
  rw [← Option.not_isSome_iff_eq_none, regions _ low, lastEq]
  unfold highPage at heapLow
  unfold processMmapStart at nextCounted
  rintro (isImage | isStack | isHeap | isMmap)
  · have small := isImage.1
    unfold areaPages at small
    omega
  · unfold stackPages pagesFrom at isStack
    omega
  · have bound := isHeap.2
    omega
  · have bound := isMmap.2
    omega

/-- A shared page that is mapped is not mapped for the process. -/
theorem Sound.starts (guarded : ∀ raw level, view world.machine.memory ctx.pageMap.rootTable
      (pageOf userAddr) = some (raw, level) → PageTableEntry.has raw PageFlags.user) :
    ctx.pageMap.virtToPhys world.machine.memory userAddr = none ∨
      pageOf userAddr < pageLimit - 512 := by
  have space := sound.spaces process ctx current
  have inRange := pageOf_lt userAddr
  refine or_iff_not_imp_right.mpr fun corner => ?_
  have isCorner := Nat.le_of_not_lt corner
  rw [sound.idle.space.spaces.virtToPhys_eq space.isRoot]
  cases found : view world.machine.memory ctx.pageMap.rootTable (pageOf userAddr) with
  | none => rfl
  | some leaf =>
    obtain ⟨raw, level⟩ := leaf
    have shared := found
    rw [space.linked.view_eq sound.idle.linked inRange isCorner] at shared
    exact absurd (guarded raw level found)
      (sound.idle.quiet _ inRange isCorner raw level shared)

section Translated

variable {count : Nat} (isWord : userAddr < 2 ^ 64)
  (starts : ctx.pageMap.virtToPhys world.machine.memory userAddr = none ∨
    pageOf userAddr < pageLimit - 512)
  (translates : Translates ctx.pageMap world.machine.memory userAddr count)

include isWord starts translates

/-- Mapped bytes in a row that start below the shared pages stay below them. -/
theorem Sound.low_of_translates {index : Nat} (inRange : index < count) :
    userAddr + index + 1 < 2 ^ 64 ∧ pageOf (userAddr + index) < pageLimit - 512 := by
  rcases starts with unmapped | low
  · obtain ⟨phys, found⟩ := translates 0 (by omega)
    cases unmapped.symm.trans found
  · -- The last page below them would be in the way.
    by_contra past
    obtain ⟨position, positionEq⟩ : ∃ position,
      position = (pageLimit - 513 - pageOf userAddr) * 4096 - userAddr % 4096 := ⟨_, rfl⟩
    unfold pageOf pageLimit at low past positionEq
    obtain ⟨phys, found⟩ := translates position (by omega)
    have isLast : pageOf (userAddr + position) = pageLimit - 513 := by
      unfold pageOf pageLimit
      omega
    rw [sound.idle.space.spaces.virtToPhys_eq (sound.spaces process ctx current).isRoot, isLast,
      sound.last_unmapped current] at found
    cases found

theorem Sound.leaf_of_translates {index : Nat} (inRange : index < count) :
    ∃ raw, view world.machine.memory ctx.pageMap.rootTable (pageOf (userAddr + index)) =
        some (raw, 0) ∧ UserLeaf supply world.machine rank raw 0 ∧
      ctx.pageMap.virtToPhys world.machine.memory (userAddr + index) =
        some (physical (userAddr + index) (raw, 0)) := by
  obtain ⟨-, low⟩ := sound.low_of_translates current isWord starts translates inRange
  obtain ⟨phys, translated⟩ := translates index inRange
  rw [sound.idle.space.spaces.virtToPhys_eq (sound.spaces process ctx current).isRoot]
    at translated ⊢
  obtain ⟨⟨raw, level⟩, found, -⟩ := Option.map_eq_some_iff.mp translated
  have isLeaf := sound.frames.leaves process _ raw level
    ((World.leaf_low current low).trans found)
  obtain rfl := isLeaf.small
  rw [found]
  exact ⟨raw, rfl, isLeaf, rfl⟩

theorem Sound.userByte_of_translates (write : Bool) {index : Nat} (inRange : index < count) :
    UserByte world.machine.memory ctx.pageMap.rootTable write (userAddr + index) := by
  obtain ⟨raw, found, isLeaf, -⟩ :=
    sound.leaf_of_translates current isWord starts translates inRange
  have inWord := (sound.low_of_translates current isWord starts translates inRange).1
  exact ⟨by omega, raw, 0, found, isLeaf.user, fun _ => isLeaf.write⟩

end Translated

section Copies

variable (isWord : userAddr < 2 ^ 64)
  (starts : ctx.pageMap.virtToPhys world.machine.memory userAddr = none ∨
    pageOf userAddr < pageLimit - 512)

include isWord starts

theorem Sound.not_translates_end :
    ¬ Translates ctx.pageMap world.machine.memory userAddr (2 ^ 64 - userAddr) := by
  intro translates
  have last := (sound.low_of_translates current isWord starts translates
    (Nat.sub_lt (Nat.sub_pos_of_lt isWord) Nat.one_pos)).1
  omega

theorem Sound.throughUser {accesses : List Access} (write : Bool)
    (touched : Touches ctx.pageMap world.machine.memory userAddr accesses) :
    ∀ access ∈ accesses,
      ThroughUser world.machine.memory ctx.pageMap.rootTable write access := by
  intro access isAccess index inAccess
  obtain ⟨position, same, translates, translated⟩ := touched access isAccess index inAccess
  obtain ⟨raw, found, isLeaf, physicalEq⟩ :=
    sound.leaf_of_translates current isWord starts translates (Nat.lt_succ_self position)
  rw [same]
  exact ⟨raw, 0, found, isLeaf.user, fun _ => isLeaf.write,
    Option.some.inj (translated.symm.trans physicalEq)⟩

/-- No page of a process is a table, so what is written there changes no translation. -/
theorem Sound.stableInTurn (length : Nat) :
    StableInTurn ctx.pageMap world.machine.memory userAddr length := by
  intro start _ translates other written
  have spaces := sound.idle.space.spaces
  have isRoot := (sound.spaces process ctx current).isRoot
  have similar : Similar rank world.machine ⟨other, world.machine.allocated⟩ := by
    refine ⟨rfl, fun table isRanked location lower upper => written location ?_⟩
    intro index inRange isByte
    obtain ⟨raw, -, isLeaf, translated⟩ :=
      sound.leaf_of_translates current isWord starts translates inRange
    rw [translated, Option.some_inj, physical_small] at isByte
    have apart := spaces.outside_of_aligned (PageTableEntry.addr_aligned raw) isLeaf.noTable
      (Nat.mod_lt (userAddr + index) (by decide)) table isRanked
    omega
  have after := (spaces.of_similar similar).virtToPhys_eq isRoot (userAddr + start)
  rw [spaces.view_similar similar isRoot (pageOf_lt _)] at after
  rw [after, spaces.virtToPhys_eq isRoot]

end Copies

theorem Sound.copyOut_confined (isWord : userAddr < 2 ^ 64)
    (guarded : Guarded world.machine.memory ctx.pageMap.rootTable userAddr data.length) :
    CopyOutConfined ctx.pageMap world.machine.memory userAddr data := by
  rcases guarded with empty | guarded
  · obtain rfl := length_eq_zero_iff.mp empty
    exact ⟨_, _, rfl, nofun, fun _ _ => rfl, nofun⟩
  have starts := sound.starts current guarded
  have copied := copyOut_copied (sound.stableInTurn current isWord starts data.length) isWord
  unfold CopyOutConfined
  generalize copyOut ctx.pageMap world.machine.memory userAddr data = result at copied ⊢
  cases copied with
  | overflow translates =>
    exact absurd translates (sound.not_translates_end current isWord starts)
  | unmapped faults touched kept =>
    exact ⟨_, _, rfl, sound.throughUser current isWord starts true touched, kept, fun _ => rfl⟩
  | whole fits translates touched kept =>
    refine ⟨_, _, rfl, sound.throughUser current isWord starts true touched, kept, ?_⟩
    rintro ⟨index, inRange, notUser⟩
    exact absurd (sound.userByte_of_translates current isWord starts translates true inRange)
      notUser

theorem Sound.copyIn_confined (isWord : userAddr < 2 ^ 64) {length : Nat}
    (guarded : Guarded world.machine.memory ctx.pageMap.rootTable userAddr length) :
    CopyInConfined ctx.pageMap world.machine.memory userAddr buf length := by
  rcases guarded with rfl | guarded
  · exact ⟨_, _, rfl, nofun, nofun⟩
  have starts := sound.starts current guarded
  have copied := copyIn_copied ctx.pageMap world.machine.memory buf length isWord
  unfold CopyInConfined
  generalize copyIn ctx.pageMap world.machine.memory userAddr buf length = result at copied ⊢
  cases copied with
  | overflow translates =>
    exact absurd translates (sound.not_translates_end current isWord starts)
  | unmapped faults touched =>
    exact ⟨_, _, rfl, sound.throughUser current isWord starts false touched, fun _ => rfl⟩
  | whole fits bytes kept touched =>
    refine ⟨_, _, rfl, sound.throughUser current isWord starts false touched, ?_⟩
    rintro ⟨index, inRange, notUser⟩
    have translates : Translates ctx.pageMap world.machine.memory userAddr length :=
      fun index inRange => (bytes index inRange).imp fun _ => And.left
    exact absurd (sound.userByte_of_translates current isWord starts translates false inRange)
      notUser

theorem Sound.copyInStr_confined (isWord : userAddr < 2 ^ 64) {maxLen : Nat}
    (guarded : Guarded world.machine.memory ctx.pageMap.rootTable userAddr maxLen) :
    CopyInStrConfined ctx.pageMap world.machine.memory userAddr maxLen := by
  rcases guarded with rfl | guarded
  · exact ⟨_, rfl, nofun, nofun⟩
  have starts := sound.starts current guarded
  obtain ⟨⟨accesses, result⟩, ran, touched⟩ :=
    (copyInStr_touches _ _ maxLen isWord).resolve_right fun out =>
    sound.not_translates_end current isWord starts out.1
  refine ⟨_, ran, sound.throughUser current isWord starts false touched, ?_⟩
  intro bytes isDone index inRange
  obtain rfl : result = .ok bytes := isDone
  obtain ⟨isText, -⟩ := (copyInStr_ok_iff isWord).mp ⟨accesses, ran⟩
  exact sound.userByte_of_translates current isWord starts isText.translates false
    (Nat.lt_succ_of_le inRange)

end Confined

section First

variable {pageMap : PageMapper} {memory after : ByteMemory} {userAddr phys length : Nat}
  (translated : pageMap.virtToPhys memory userAddr = some phys) (nonempty : 0 < length)

theorem Guarded.of_first {root : Nat} {write : Bool} {accesses : List Access}
    (through : ∀ access ∈ accesses, ThroughUser memory root write access)
    (touched : 0 < length → ∀ leaf, view memory root (pageOf userAddr) = some leaf →
      ∃ phys size, 0 < size ∧ ⟨userAddr, phys, size⟩ ∈ accesses) :
    Guarded memory root userAddr length := by
  refine (Nat.eq_zero_or_pos length).imp_right fun nonempty raw level found => ?_
  obtain ⟨phys, size, positive, isAccess⟩ := touched nonempty _ found
  obtain ⟨_, _, sameFound, user, -⟩ := through _ isAccess 0 positive
  rw [Nat.add_zero, found] at sameFound
  cases sameFound
  exact user

include translated

variable {outcome : CopyOutcome Unit}

theorem copyOut_first (nonempty : 0 < data.length)
    (ran : copyOut pageMap memory userAddr data = .ok (after, outcome)) :
    ∃ phys size, 0 < size ∧ ⟨userAddr, phys, size⟩ ∈ outcome.accesses := by
  have positive := pageRest_pos userAddr
  unfold copyOut at ran
  rw [copyOutLoop, if_pos nonempty] at ran
  rw [translated] at ran
  obtain ⟨next, -, ran⟩ := bind_eq_ok.mp ran
  obtain ⟨⟨final, rest⟩, -, ran⟩ := bind_eq_ok.mp ran
  cases ran
  exact ⟨_, _, by omega, mem_cons_self⟩

include nonempty

theorem copyIn_first (ran : copyIn pageMap memory userAddr buf length = .ok (after, outcome)) :
    ∃ phys size, 0 < size ∧ ⟨userAddr, phys, size⟩ ∈ outcome.accesses := by
  have positive := pageRest_pos userAddr
  unfold copyIn at ran
  rw [copyInLoop, if_pos nonempty] at ran
  rw [translated] at ran
  obtain ⟨next, -, ran⟩ := bind_eq_ok.mp ran
  obtain ⟨⟨final, rest⟩, -, ran⟩ := bind_eq_ok.mp ran
  cases ran
  exact ⟨_, _, by omega, mem_cons_self⟩

theorem copyInStr_first {outcome : CopyOutcome (List UInt8)}
    (ran : copyInStr pageMap memory userAddr length = .ok outcome) :
    ∃ phys size, 0 < size ∧ ⟨userAddr, phys, size⟩ ∈ outcome.accesses := by
  have positive := pageRest_pos userAddr
  unfold copyInStr at ran
  rw [copyInStrLoop, if_pos nonempty] at ran
  rw [translated] at ran
  dsimp only at ran
  split at ran
  · cases ran
    exact ⟨_, _, Nat.succ_pos _, mem_cons_self⟩
  · split at ran
    · cases ran
      exact ⟨_, _, by omega, mem_cons_self⟩
    · obtain ⟨next, -, ran⟩ := bind_eq_ok.mp ran
      obtain ⟨rest, -, ran⟩ := bind_eq_ok.mp ran
      cases ran
      exact ⟨_, _, by omega, mem_cons_self⟩

end First

/-- A copy for a process stays in the memory of the process exactly if its first
page is not one of the kernel's. -/
theorem copies_confined_iff {supply : FrameSupply} {kernel : Kernel} {world : World}
    (reached : Reached supply kernel world) {ctx : Context} (isProcess : ctx ∈ world.processes)
    {userAddr : Nat} (isWord : userAddr < 2 ^ 64) :
    (∀ data, CopyOutConfined ctx.pageMap world.machine.memory userAddr data ↔
      Guarded world.machine.memory ctx.pageMap.rootTable userAddr data.length) ∧
    (∀ buf length, CopyInConfined ctx.pageMap world.machine.memory userAddr buf length ↔
      Guarded world.machine.memory ctx.pageMap.rootTable userAddr length) ∧
    (∀ maxLen, CopyInStrConfined ctx.pageMap world.machine.memory userAddr maxLen ↔
      Guarded world.machine.memory ctx.pageMap.rootTable userAddr maxLen) := by
  obtain ⟨rank, sound⟩ := reached.sound
  obtain ⟨process, current⟩ := mem_iff_getElem?.mp isProcess
  have translated : ∀ leaf, view world.machine.memory ctx.pageMap.rootTable (pageOf userAddr) =
      some leaf → ctx.pageMap.virtToPhys world.machine.memory userAddr =
        some (physical userAddr leaf) := by
    intro leaf found
    rw [sound.idle.space.spaces.virtToPhys_eq (sound.spaces process ctx current).isRoot, found]
    rfl
  refine ⟨fun data => ⟨?_, sound.copyOut_confined current isWord⟩,
    fun buf length => ⟨?_, sound.copyIn_confined current isWord⟩,
    fun maxLen => ⟨?_, sound.copyInStr_confined current isWord⟩⟩
  · rintro ⟨after, outcome, ran, through, -⟩
    exact .of_first through fun nonempty leaf found =>
      copyOut_first (translated leaf found) nonempty ran
  · rintro ⟨after, outcome, ran, through, -⟩
    exact .of_first through fun nonempty leaf found =>
      copyIn_first (translated leaf found) nonempty ran
  · rintro ⟨outcome, ran, through, -⟩
    exact .of_first through fun nonempty leaf found =>
      copyInStr_first (translated leaf found) nonempty ran

theorem smallProgram_copies : ∃ kernel world ctx, Reached boardSupply kernel world ∧
    ctx ∈ world.processes ∧
    CopyOutConfined ctx.pageMap world.machine.memory 0x10ff0 (List.replicate 64 0x2a) ∧
    CopyInConfined ctx.pageMap world.machine.memory 0x10ff0 (fun _ => 0) 64 ∧
    CopyInStrConfined ctx.pageMap world.machine.memory 0x10ff0 256 := by
  obtain ⟨kernel, spawned, ctx, reached, -⟩ := board_spawns smallProgram_loads
    (by rw [smallProgram_pages]; decide)
  have isProcess := mem_singleton_self ctx
  obtain ⟨rank, sound⟩ := reached.sound
  have low : pageOf 0x10ff0 < pageLimit - 512 := by decide
  have guarded : ∀ length, Guarded spawned.memory ctx.pageMap.rootTable 0x10ff0 length := by
    intro length
    refine Or.inr fun raw level found => ?_
    exact (sound.frames.leaves 0 _ raw level (World.leaf_eq_some.mpr ⟨_, rfl, low, found⟩)).user
  obtain ⟨out, into, str⟩ := copies_confined_iff reached isProcess (by decide : 0x10ff0 < 2 ^ 64)
  exact ⟨kernel, _, _, reached, isProcess, (out _).mpr (guarded _), (into _ _).mpr (guarded _),
    (str _).mpr (guarded _)⟩

theorem copyOut_byte {pageMap : PageMapper}
    (translated : pageMap.virtToPhys memory userAddr = some phys) (fits : userAddr + 1 < 2 ^ 64)
    (byte : UInt8) : ∃ after, copyOut pageMap memory userAddr [byte] =
      .ok (after, ⟨[⟨userAddr, phys, 1⟩], .ok ()⟩) := by
  have positive := pageRest_pos userAddr
  have size : min [byte].length (pageRest userAddr) = 1 := by
    rw [length_singleton]
    omega
  unfold copyOut
  rw [copyOutLoop, if_pos (length_pos_of_ne_nil (cons_ne_nil _ _))]
  rw [translated]
  dsimp only
  rw [size, checkedAdd_bind fits]
  exact ⟨_, rfl⟩

/-- Every process can have the kernel write its trap frame. -/
theorem trapFrame_written : ∃ kernel world ctx after phys raw, Reached boardSupply kernel world ∧
    ctx ∈ world.processes ∧
    copyOut ctx.pageMap world.machine.memory trampolineTrapFrame [0x2a] =
      .ok (after, ⟨[⟨trampolineTrapFrame, phys, 1⟩], .ok ()⟩) ∧
    (view world.machine.memory ctx.pageMap.rootTable (pageOf trampolineTrapFrame)).map Prod.fst =
      some raw ∧
    ¬ PageTableEntry.has raw PageFlags.user := by
  obtain ⟨kernel, spawned, ctx, reached, -⟩ := board_spawns smallProgram_loads
    (by rw [smallProgram_pages]; decide)
  have current : ([ctx] : List Context)[0]? = some ctx := rfl
  obtain ⟨rank, sound⟩ := reached.sound
  have space := sound.spaces 0 ctx current
  have pageEq : pageOf trampolineTrapFrame = pageLimit - 512 := by decide
  have inRange : pageLimit - 512 < pageLimit := by decide
  have shared := space.linked.view_eq sound.idle.linked inRange le_rfl
  obtain ⟨⟨raw, level⟩, found⟩ := Option.ne_none_iff_exists'.mp sound.idle.trapFrame
  rw [found] at shared
  have translated := sound.idle.space.spaces.virtToPhys_eq space.isRoot trampolineTrapFrame
  rw [pageEq, shared] at translated
  obtain ⟨after, copied⟩ := copyOut_byte translated (by decide) 0x2a
  refine ⟨kernel, _, ctx, after, _, raw, reached, mem_singleton_self ctx, copied, ?_,
    sound.idle.quiet _ inRange le_rfl raw level found⟩
  rw [pageEq, shared]
  rfl

end NanoOs.ProcessMemoryMap
