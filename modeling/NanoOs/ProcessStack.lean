import NanoOs.FrameMapping
import NanoOs.ProcessMemoryMap

/-!
# The stack and the shared table of a process

The first page of the stack is filled before it is mapped, and the pages below
it are mapped as they are.  At last the process links the table that it shares
with the kernel.
-/

namespace NanoOs.ProcessMemoryMap

open KernelMemoryMap PageMapping RadixTables ReadElf RadixTables

def stackPages (page : Nat) : Prop := pagesFrom 0xffdfc 4 page

instance : DecidablePred stackPages := fun _ => inferInstanceAs (Decidable (pagesFrom ..))

def argumentPage : Nat := 0xffdff

def argumentBytes : Nat := 144

theorem stackPages_eq :
    stackPages = fun page => pagesFrom 0xffdfc 3 page ∨ page = argumentPage := by
  funext page
  unfold stackPages pagesFrom argumentPage
  apply propext
  omega

variable {location page root table : Nat} {memory : ByteMemory}

section Push

variable {memory : ByteMemory} {sp : Nat} {words : List Nat}

theorem pushWords_sp : (pushWords memory sp words).2 = sp - 8 * words.length := by
  unfold pushWords
  induction words generalizing memory sp with
  | nil => rfl
  | cons word words ih =>
    rw [List.foldl_cons, ih, List.length_cons]
    omega

theorem pushWords_outside (enough : 8 * words.length ≤ sp)
    (outside : location < sp - 8 * words.length ∨ sp ≤ location) :
    (pushWords memory sp words).1 location = memory location := by
  unfold pushWords
  induction words generalizing memory sp with
  | nil => rfl
  | cons word words ih =>
    rw [List.length_cons] at enough outside
    rw [List.foldl_cons, ih (by omega) (by omega)]
    exact ByteMemory.writeWord_outside memory (by omega)

end Push

section Stack

variable {supply : FrameSupply} {machine after : Machine} {pageMap : PageMapper}
  {header : Elf64Header} {baseVaddr sp : Nat}

/-- The machine with the next frame as the filled first page of the stack. -/
def fillStack (supply : FrameSupply) (machine : Machine) (header : Elf64Header) (phdrAddr : Nat) :
    Machine :=
  ⟨(pushWords machine.memory (supply.frames machine.allocated + 4096)
    (stackWords header phdrAddr)).1, machine.allocated + 1⟩

theorem fillStack_outside (left : machine.allocated < supply.owned) (header : Elf64Header)
    (phdrAddr : Nat)
    (outside : location < supply.frames machine.allocated + (4096 - argumentBytes) ∨
      supply.frames machine.allocated + 4096 ≤ location) :
    (fillStack supply machine header phdrAddr).memory location = machine.memory location := by
  have lengthEq : (stackWords header phdrAddr).length = 18 := rfl
  have lower := supply.lower _ left
  unfold argumentBytes at outside
  unfold fillStack
  dsimp only
  exact pushWords_outside (by omega) (by omega)

theorem fillStack_taken (left : machine.allocated < supply.owned) (header : Elf64Header)
    (phdrAddr : Nat) : Taken supply machine (fillStack supply machine header phdrAddr) := by
  refine ⟨left, rfl, ?_⟩
  intro location apart
  exact fillStack_outside left header phdrAddr (by omega)

theorem mapStack_eq_ok : mapStack supply machine pageMap header baseVaddr = .ok (sp, after) ↔
    let filled := fillStack supply machine header (header.ePhoff + baseVaddr)
    let mapped := pageMap.mapPage supply.frames filled 0xffdff000
      (supply.frames machine.allocated) userFlags 0
    machine.allocated < supply.owned ∧ header.ePhoff + baseVaddr < 2 ^ 64 ∧
      mapped.allocated ≤ supply.owned ∧
      pageMap.allocateLoop supply 0xffdfc000 userFlags false 3 0 mapped = .ok after ∧
      sp = processStackStart - argumentBytes := by
  have lengthEq : ∀ phdrAddr, (stackWords header phdrAddr).length = 18 := fun _ => rfl
  have stackEnd : processStackStart - Memory.pageSize = 0xffdff000 := by decide
  have restEnd : 0xffdff000 - (processStackStartingSize - Memory.pageSize) = 0xffdfc000 := by decide
  have stopEq : processStackStart = 0xffdff000 + 4096 := by decide
  have restCount : (processStackStartingSize - Memory.pageSize) / Memory.pageSize = 3 := by decide
  have pageSizeEq : Memory.pageSize = 4096 := rfl
  have spEq : ∀ memory phdrAddr,
      supply.frames machine.allocated + 4096 - (pushWords memory
        (supply.frames machine.allocated + 4096) (stackWords header phdrAddr)).2 =
          argumentBytes := by
    intro memory phdrAddr
    rw [pushWords_sp, lengthEq]
    unfold argumentBytes
    omega
  have loopEq : ∀ start : Machine, pageMap.allocateAndMapPages supply start 0xffdfc000
      (processStackStartingSize - Memory.pageSize) userFlags =
        pageMap.allocateLoop supply 0xffdfc000 userFlags false 3 0 start := by
    intro start
    unfold PageMapper.allocateAndMapPages PageMapper.allocateAndMapPagesImpl
    rw [restCount]
  unfold mapStack
  dsimp only
  rw [stackEnd, restEnd]
  constructor
  · intro ran
    obtain ⟨⟨first, taken⟩, allocRan, ran⟩ := bind_eq_ok.mp ran
    obtain ⟨left, allocated⟩ := ensure_bind_eq_ok.mp allocRan
    cases allocated
    obtain ⟨fits, ran⟩ := checkedAdd_bind_eq_ok.mp ran
    obtain ⟨mapped, mapRan, ran⟩ := bind_eq_ok.mp ran
    obtain ⟨checked, checkRan, ran⟩ := bind_eq_ok.mp ran
    obtain ⟨enough, checkedEq⟩ := ensure_bind_eq_ok.mp checkRan
    cases checkedEq
    obtain ⟨last, loopRan, ran⟩ := bind_eq_ok.mp ran
    obtain ⟨rfl, rfl⟩ := Prod.mk.inj (Except.ok.inj ran)
    rw [stopEq, mapRange_page left (by decide) (by decide)] at mapRan
    cases mapRan
    exact ⟨left, fits, enough, loopRan, by rw [pageSizeEq, spEq]⟩
  · rintro ⟨left, fits, enough, loopRan, rfl⟩
    rw [FrameSupply.alloc, ensure_bind left]
    dsimp only [allocFrame]
    rw [ok_bind]
    have filledEq : (⟨(pushWords machine.memory (supply.frames machine.allocated + 4096)
        (stackWords header (header.ePhoff + baseVaddr))).1, machine.allocated + 1⟩ : Machine) =
        fillStack supply machine header (header.ePhoff + baseVaddr) := rfl
    rw [checkedAdd_bind fits, pageSizeEq, spEq, filledEq, stopEq,
      mapRange_page left (by decide) (by decide), ok_bind, FrameSupply.ensureTables,
      ensure_bind enough, ok_bind, ← pageSizeEq, loopEq, loopRan]
    rfl

theorem mapStack_total (enough : machine.allocated + 12 ≤ supply.owned)
    (fits : header.ePhoff + baseVaddr < 2 ^ 64) :
    ∃ after, mapStack supply machine pageMap header baseVaddr =
        .ok (processStackStart - argumentBytes, after) ∧
      after.allocated ≤ machine.allocated + 12 := by
  obtain ⟨mapped, mappedEq⟩ : ∃ mapped, mapped = pageMap.mapPage supply.frames
    (fillStack supply machine header (header.ePhoff + baseVaddr)) 0xffdff000
    (supply.frames machine.allocated) userFlags 0 := ⟨_, rfl⟩
  have counted := @mapPage_allocated pageMap userFlags supply.frames
    (fillStack supply machine header (header.ePhoff + baseVaddr)) 0xffdff000
    (supply.frames machine.allocated) 0
  have filledAllocated : (fillStack supply machine header (header.ePhoff + baseVaddr)).allocated =
      machine.allocated + 1 := rfl
  rw [← mappedEq, filledAllocated] at counted
  obtain ⟨after, ran, bounded⟩ := @allocateLoop_total supply pageMap userFlags false 0xffdfc000 3 0
    mapped (by omega) (by decide) (by decide)
  refine ⟨after, mapStack_eq_ok.mpr ⟨by omega, fits, ?_, ?_, rfl⟩, by omega⟩
  · rw [← mappedEq]
    omega
  · rw [← mappedEq]
    exact ran

/-- The stack of a process: the arguments apart, its pages hold what their frames
held before. -/
structure StackContents (supply : FrameSupply) (machine after : Machine) (grown : Nat → Option Nat)
    (frame : Nat → Nat) : Prop where
  contents : ∀ page, stackPages page → ∀ offset < 4096,
    ¬ (page = argumentPage ∧ 4096 - argumentBytes ≤ offset) →
      after.memory (frame page + offset) = machine.memory (frame page + offset)
  elsewhere : ∀ location, OutsideTables grown location →
    OutsideFresh supply machine after location →
    after.memory location = machine.memory location

variable {shared : Nat → Prop} {rank : Nat → Option Nat}

theorem mapStack_maps (spaces : Spaces supply shared machine rank)
    (isRoot : rank pageMap.rootTable = some 2)
    (clear : ∀ page, stackPages page → ∀ raw level,
      view machine.memory pageMap.rootTable page = some (raw, level) → level = 0)
    (ran : mapStack supply machine pageMap header baseVaddr = .ok (sp, after)) :
    ∃ grown frame, MappedPages supply shared machine after rank grown pageMap.rootTable userFlags
        stackPages frame ∧
      StackContents supply machine after grown frame ∧
      ∀ second, Similar rank machine second → ∃ secondAfter,
        mapStack supply second pageMap header baseVaddr = .ok (sp, secondAfter) ∧
          Similar grown after secondAfter := by
  obtain ⟨left, fits, enough, loopRan, spEq⟩ := mapStack_eq_ok.mp ran
  have step := fillStack_taken left header (header.ePhoff + baseVaddr)
  obtain ⟨filled, filledEq⟩ : ∃ filled, filled =
    fillStack supply machine header (header.ePhoff + baseVaddr) := ⟨_, rfl⟩
  rw [← filledEq] at step enough loopRan
  have argumentEq : pageOf 0xffdff000 = argumentPage := by decide
  have restEq : pageOf 0xffdfc000 + 0 = 0xffdfc := by decide
  obtain ⟨middle, first, firstContents, firstElsewhere, firstAgain⟩ :=
    @Spaces.mapTaken supply shared machine rank userFlags spaces pageMap isRoot 0xffdff000
      (by
        exact clear argumentPage (by decide)) rfl filled step enough
  rw [argumentEq] at first
  obtain ⟨mapped, mappedEq⟩ : ∃ mapped, mapped = pageMap.mapPage supply.frames filled 0xffdff000
    (supply.frames machine.allocated) userFlags 0 := ⟨_, rfl⟩
  rw [← mappedEq] at first firstContents firstElsewhere firstAgain loopRan enough
  have rootMiddle := first.extends'.kept _ 2 isRoot
  have clearRest : ∀ page, pagesFrom (pageOf 0xffdfc000 + 0) 3 page → ∀ raw level,
      view mapped.memory pageMap.rootTable page = some (raw, level) → level = 0 := by
    rintro page ⟨lower, upper⟩ raw level found
    rw [first.miss _ isRoot page (by unfold pageLimit; omega)
      fun same => by unfold argumentPage at same; omega] at found
    exact clear page ⟨lower, by omega⟩ raw level found
  obtain ⟨grown, rest, further, contents, again⟩ := first.spaces.allocateLoop rootMiddle rfl
    (by decide) clearRest loopRan
  rw [restEq] at further contents
  have joined := first.union isRoot further
  have monotone := further.extends'.monotone
  rw [← stackPages_eq] at joined
  refine ⟨grown, _, joined, ⟨?_, ?_⟩, ?_⟩
  · intro page isStack offset inFrame aside
    by_cases isRest : pagesFrom 0xffdfc 3 page
    · obtain ⟨isFrame, number, lower, -, owned, restFrame⟩ := first.rest_unused further isRest
      have firstMonotone : machine.allocated < mapped.allocated := by
        obtain ⟨count, countLower, countUpper, -⟩ := first.fresh argumentPage rfl
        omega
      simp only [isRest, if_true]
      rw [contents.contents page isRest offset inFrame, if_neg (by decide)]
      rw [restFrame] at isFrame ⊢
      exact firstElsewhere _ (first.spaces.outside_of_frame owned isFrame inFrame)
        (supply.apart owned left (by omega) inFrame)
    · have isArgument : page = argumentPage := by
        rw [stackPages_eq] at isStack
        exact isStack.resolve_left isRest
      obtain ⟨isFrame, number, -, upper, owned, frameEq⟩ := first.frame_final further isArgument
      simp only [isRest, if_false]
      rw [contents.elsewhere, firstContents offset inFrame, filledEq]
      · have below : offset < 4096 - argumentBytes := by
          by_contra above
          exact aside ⟨isArgument, by omega⟩
        exact fillStack_outside left header _ (Or.inl (Nat.add_lt_add_left below _))
      · exact further.spaces.outside_of_frame left isFrame inFrame
      · intro other otherLower otherUpper
        rw [frameEq]
        exact supply.apart owned (otherUpper.trans_le further.spaces.owned) (by omega) inFrame
  · intro location outside fresh
    obtain ⟨number, lower, upper, frameEq, -⟩ := first.fresh argumentPage rfl
    rw [contents.elsewhere location outside, firstElsewhere location
      (outside.of_extends further.extends')]
    · rw [frameEq]
      exact fresh number lower (by omega)
    · intro other otherLower otherUpper
      exact fresh other (by omega) otherUpper
  · intro second similar
    have secondLeft : second.allocated < supply.owned := by rwa [similar.allocated]
    have secondStep := fillStack_taken secondLeft header (header.ePhoff + baseVaddr)
    have secondMapped := firstAgain _ (similar.take spaces step secondStep)
    obtain ⟨secondAfter, secondRan, secondSimilar⟩ := again _ secondMapped
    refine ⟨secondAfter, mapStack_eq_ok.mpr ⟨secondLeft, fits, ?_, ?_, spEq⟩, secondSimilar⟩
    · rwa [similar.allocated, secondMapped.allocated]
    · rwa [similar.allocated]

end Stack

/-- The root links the table for the last pages of an address space. -/
def LinksLast (memory : ByteMemory) (root table : Nat) : Prop :=
  reach (slots memory) root (upperPath (pageLimit - 1)) = some table

theorem upperPath_last (inRange : page < pageLimit) :
    upperPath page = [511, 511] ↔ pageLimit - 512 ≤ page := by
  unfold pageLimit at *
  unfold upperPath
  constructor
  · intro same
    obtain ⟨first, rest⟩ := List.cons.inj same
    obtain ⟨second, -⟩ := List.cons.inj rest
    omega
  · intro lower
    have first : page / 2 ^ 18 = 511 := by omega
    have second : page / 2 ^ 9 % 512 = 511 := by omega
    rw [first, second]

theorem linksLast_iff (inRange : page < pageLimit) (lower : pageLimit - 512 ≤ page) :
    LinksLast memory root table ↔
      reach (slots memory) root (upperPath page) = some table := by
  unfold LinksLast
  rw [(upperPath_last inRange).mpr lower,
    (upperPath_last (by decide : pageLimit - 1 < pageLimit)).mpr (by decide)]

theorem LinksLast.view_eq {other : Nat} (linked : LinksLast memory root table)
    (otherLinked : LinksLast memory other table) (inRange : page < pageLimit)
    (lower : pageLimit - 512 ≤ page) : view memory root page = view memory other page := by
  unfold view pagePath
  rw [(walk_append ((linksLast_iff inRange lower).mp linked)).2,
    (walk_append ((linksLast_iff inRange lower).mp otherLinked)).2]

structure LinkedLast (supply : FrameSupply) (shared : Nat → Prop) (machine after : Machine)
    (rank grown : Nat → Option Nat) (root last : Nat) : Prop where
  spaces : Spaces supply shared after grown
  extends' : Extends supply machine after rank grown
  linked : LinksLast after.memory root last
  kept : ∀ other, rank other = some 2 → ∀ page < pageLimit,
    ¬ (other = root ∧ pageLimit - 512 ≤ page) →
      view after.memory other page = view machine.memory other page
  shares : ∀ other, rank other = some 2 → other ≠ root → ∀ page < pageLimit, ∀ table,
    shared table → (reach (slots after.memory) other (upperPath page) = some table ↔
      reach (slots machine.memory) other (upperPath page) = some table)
  rootEntries : ∀ other, rank other = some 2 → ∀ index < pageEntries,
    ¬ (other = root ∧ index = 511) →
      entry after.memory other index = entry machine.memory other index
  elsewhere : ∀ location, OutsideTables grown location →
    after.memory location = machine.memory location

section Link

variable {supply : FrameSupply} {shared : Nat → Prop} {machine after : Machine}
  {rank : Nat → Option Nat} {pageMap : PageMapper} {last : Nat}

theorem setL1PageTableForPhys_eq_ok :
    pageMap.setL1PageTableForPhys supply machine trampolineTrapFrame last = .ok after ↔
      let opened := nextLevel supply.frames machine pageMap.rootTable 511
      opened.2.allocated ≤ supply.owned ∧
        after = { opened.2 with
          memory := setEntry opened.2.memory opened.1 511
            (PageTableEntry.set last PageFlags.valid) } := by
  have high : vpn2 trampolineTrapFrame = 511 := by decide
  have middle : vpn1 trampolineTrapFrame = 511 := by decide
  unfold PageMapper.setL1PageTableForPhys FrameSupply.ensureTables
  rw [high, middle]
  generalize nextLevel supply.frames machine pageMap.rootTable 511 = opened
  dsimp only
  constructor
  · intro ran
    obtain ⟨enough, afterEq⟩ := ensure_bind_eq_ok.mp ran
    cases afterEq
    exact ⟨enough, rfl⟩
  · rintro ⟨enough, rfl⟩
    rw [ensure_bind enough]

theorem setL1PageTableForPhys_total (enough : machine.allocated < supply.owned) :
    ∃ after, pageMap.setL1PageTableForPhys supply machine trampolineTrapFrame last = .ok after ∧
      after.allocated ≤ machine.allocated + 1 := by
  have few := (nextLevel_allocated supply.frames machine pageMap.rootTable 511).2
  exact ⟨_, setL1PageTableForPhys_eq_ok.mpr ⟨few.trans enough, rfl⟩, few⟩

theorem setL1PageTableForPhys_links (spaces : Spaces supply shared machine rank)
    (isRoot : rank pageMap.rootTable = some 2) (isShared : shared last)
    (noLeaf : ∀ raw, slots machine.memory pageMap.rootTable 511 ≠ .leaf raw)
    (ran : pageMap.setL1PageTableForPhys supply machine trampolineTrapFrame last = .ok after) :
    ∃ grown, LinkedLast supply shared machine after rank grown pageMap.rootTable last ∧
      ∀ second, Similar rank machine second → ∃ secondAfter,
        pageMap.setL1PageTableForPhys supply second trampolineTrapFrame last = .ok secondAfter ∧
          Similar grown after secondAfter := by
  obtain ⟨enough, afterEq⟩ := setL1PageTableForPhys_eq_ok.mp ran
  have inRange : 511 < pageEntries := by decide
  obtain ⟨grown, opened, again⟩ := spaces.nextLevel isRoot inRange noLeaf enough
  obtain ⟨child, childEq⟩ : ∃ child,
    child = (nextLevel supply.frames machine pageMap.rootTable 511).1 := ⟨_, rfl⟩
  obtain ⟨middle, middleEq⟩ : ∃ middle,
    middle = (nextLevel supply.frames machine pageMap.rootTable 511).2 := ⟨_, rfl⟩
  rw [← childEq, ← middleEq] at opened again afterEq
  rw [← middleEq] at enough
  have rootGrown := opened.extends'.kept _ 2 isRoot
  have lastRanked := opened.spaces.forest.bottom last isShared
  have childRanked := opened.childRanked
  have lastUpper := (opened.spaces.frame_of_ranked (ranked lastRanked)).1
  have memoryEq : after.memory = setEntry middle.memory child 511
      (PageTableEntry.set last PageFlags.valid) := by
    rw [afterEq]
  have linked : slots after.memory child 511 = .pointer last := by
    unfold slots
    rw [memoryEq, entry_setEntry_same (set_lt _ _)]
    exact PageTableEntry.classify_set_empty (by omega)
      (opened.spaces.aligned_of_ranked (ranked lastRanked))
  have sameBut : SameBut pageEntries grown (slots middle.memory) (slots after.memory)
      child 511 := by
    rw [memoryEq]
    exact opened.spaces.slots_setEntry_ne (ranked childRanked) inRange _
  have rootReached : reach (slots middle.memory) pageMap.rootTable [511] = some child := by
    rw [reach_cons_pointer opened.linked]
    rfl
  have walks : ∀ other, grown other = some 2 → ∀ page < pageLimit,
      ¬ (other = pageMap.rootTable ∧ pageLimit - 512 ≤ page) →
        reach (slots after.memory) other (upperPath page) =
            reach (slots middle.memory) other (upperPath page) ∧
          view after.memory other page = view middle.memory other page := by
    intro other otherRoot page pageRange aside
    refine opened.walk_aside inRange rootGrown otherRoot sameBut pageRange fun same => ?_
    exact aside ⟨same.1, (upperPath_last pageRange).mp same.2⟩
  have through := (opened.spaces.forest.walk_through sameBut childRanked lastRanked linked rootGrown
    (upperPath_within (by decide : pageLimit - 1 < pageLimit)) rootReached).1
  refine ⟨grown, ⟨⟨?_, ?_, ?_, ?_⟩, ⟨opened.extends'.kept, ?_, ?_⟩, through, ?_, ?_, ?_, ?_⟩, ?_⟩
  · exact opened.spaces.forest.link sameBut childRanked lastRanked linked (Or.inl isShared)
  · rw [afterEq]
    exact opened.spaces.used
  · rw [afterEq]
    exact opened.spaces.owned
  · intro other otherRoot page pageRange table tableShared reached
    by_cases atCorner : other = pageMap.rootTable ∧ pageLimit - 512 ≤ page
    · exact atCorner.2
    · rw [(walks other otherRoot page pageRange atCorner).1] at reached
      exact opened.spaces.corner other otherRoot page pageRange table tableShared reached
  · rw [afterEq]
    exact opened.extends'.new
  · rw [afterEq]
    exact opened.extends'.monotone
  · intro other otherRoot page pageRange aside
    rw [(walks other (opened.extends'.kept other 2 otherRoot) page pageRange aside).2]
    exact opened.lookups other 2 otherRoot _ (pagePath_within pageRange)
  · intro other otherRoot different page pageRange table tableShared
    rw [(walks other (opened.extends'.kept other 2 otherRoot) page pageRange
      fun same => different same.1).1]
    exact opened.shares spaces otherRoot (upperPath_within pageRange) tableShared
  · intro other otherRoot index indexRange aside
    have otherGrown := opened.extends'.kept other 2 otherRoot
    rw [memoryEq, opened.spaces.entry_setEntry (ranked childRanked) inRange _
      (ranked otherGrown) indexRange]
    · exact opened.entries other (ranked otherRoot) index indexRange aside
    · rintro ⟨rfl, -⟩
      rw [childRanked] at otherGrown
      cases otherGrown
  · intro location outside
    rw [memoryEq, setEntry_outside (ranked childRanked) inRange outside]
    exact opened.elsewhere location outside
  · intro second similar
    obtain ⟨sameChild, secondSimilar⟩ := again second similar
    refine ⟨_, setL1PageTableForPhys_eq_ok.mpr ⟨?_, rfl⟩, ?_⟩
    · rwa [secondSimilar.allocated]
    · rw [afterEq, sameChild]
      exact secondSimilar.setEntry child 511 _

end Link

end NanoOs.ProcessMemoryMap
