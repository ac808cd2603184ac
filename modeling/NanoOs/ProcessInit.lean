import NanoOs.ProcessGraft
import NanoOs.ProcessStack

/-!
# The address space that `init_from_elf` builds

The pages of the segments in the first gigabyte, the stack, and the table shared
with the kernel.  Nothing else changes for any other process.
-/

namespace NanoOs.ProcessMemoryMap

open Files KernelMemoryMap PageMapping RadixTables ReadElf

def headerOf (file : File ByteMemory) : Elf64Header :=
  parseHeader fun index => file.inode.fsData (file.offset + index)

def segmentsOf (file : File ByteMemory) : List Elf64ProgramHeader :=
  loadable (fileHeaders file.inode (headerOf file))

def imagePages (segments : List Elf64ProgramHeader) (page : Nat) : Prop :=
  page < areaPages ∧ ∃ ph ∈ segments, segmentFirst ph ≤ page ∧ page < segmentStop ph

instance (segments : List Elf64ProgramHeader) : DecidablePred (imagePages segments) :=
  fun _ => inferInstanceAs (Decidable (_ ∧ _))

/-- The file can be loaded, as far as it is up to the file. -/
structure Loads (file : File ByteMemory) : Prop where
  header : file.offset + elf64HeaderSize ≤ file.inode.len
  headers : HeadersReadable file.inode (headerOf file)
  fits : ∀ ph ∈ segmentsOf file, Fits file.inode ph
  image : ∃ page, imagePages (segmentsOf file) page
  arguments : (headerOf file).ePhoff + baseOf (segmentsOf file) (wordLimit - 1) < 2 ^ 64

section Steps

variable {supply : FrameSupply} {kernel : Kernel} {file : File ByteMemory}
  {context built : Context} {machine after : Machine}

theorem readElf64Header_ok {result : Except FileError Elf64Header} {rest : File ByteMemory}
    {header : Elf64Header} (ran : readElf64Header file = .ok (result, rest))
    (unwrapped : unwrap result "called `Result::unwrap()` on an `Err` value" = .ok header) :
    file.offset + elf64HeaderSize ≤ file.inode.len ∧ header = headerOf file ∧
      rest = { file with offset := file.offset + elf64HeaderSize } := by
  by_cases fits : file.offset + elf64HeaderSize ≤ file.inode.len
  · rw [readElf64Header_of_le fits] at ran
    obtain ⟨rfl, isRest⟩ := Prod.mk.inj (Except.ok.inj ran)
    exact ⟨fits, (Except.ok.inj unwrapped).symm, isRest.symm⟩
  · by_cases inside : file.offset ≤ file.inode.len
    · obtain ⟨rest, short⟩ := readElf64Header_of_lt inside (Nat.lt_of_not_le fits)
      rw [short] at ran
      cases ran
      cases unwrapped
    · unfold readElf64Header vfsReadExact vfsReadExactLoop ramfsRead at ran
      rw [if_neg (by decide), ensure, if_neg inside] at ran
      cases ran

theorem initFromElf_eq_ok : initFromElf supply kernel file context machine = .ok (built, after) ↔
    file.offset + elf64HeaderSize ≤ file.inode.len ∧ ∃ state base heap grafted sp stacked,
      loadElf supply kernel { file with offset := file.offset + elf64HeaderSize } (headerOf file)
        machine = .ok (state, .ok (base, heap)) ∧
      graftLoadArea kernel state.machine context.pageMap = .ok grafted ∧
      mapStack supply grafted context.pageMap (headerOf file) base = .ok (sp, stacked) ∧
      context.pageMap.setL1PageTableForPhys supply stacked trampolineTrapFrame kernel.lastL1Pte =
        .ok after ∧
      built = { context with
        heapBegin := heap
        heapEnd := heap
        trapFrame :=
          { context.trapFrame with
            pc := (headerOf file).eEntry, sp := sp, a0 := 1, a1 := 0 } } := by
  unfold initFromElf
  constructor
  · intro ran
    obtain ⟨⟨result, rest⟩, headerRan, ran⟩ := bind_eq_ok.mp ran
    obtain ⟨header, headerEq, ran⟩ := bind_eq_ok.mp ran
    obtain ⟨fits, rfl, rfl⟩ := readElf64Header_ok headerRan headerEq
    obtain ⟨⟨state, loaded⟩, loadRan, ran⟩ := bind_eq_ok.mp ran
    obtain ⟨⟨base, heap⟩, loadedEq, ran⟩ := bind_eq_ok.mp ran
    obtain ⟨grafted, graftRan, ran⟩ := bind_eq_ok.mp ran
    obtain ⟨⟨sp, stacked⟩, stackRan, ran⟩ := bind_eq_ok.mp ran
    obtain ⟨last, linkRan, ran⟩ := bind_eq_ok.mp ran
    cases ran
    cases loaded with
    | error message => cases loadedEq
    | ok values =>
      cases loadedEq
      exact ⟨fits, state, base, heap, grafted, sp, stacked, loadRan, graftRan, stackRan, linkRan,
        rfl⟩
  · rintro ⟨fits, state, base, heap, grafted, sp, stacked, loadRan, graftRan, stackRan, linkRan,
      rfl⟩
    rw [readElf64Header_of_le fits, ok_bind]
    dsimp only [unwrap]
    rw [ok_bind]
    have headerEq : (parseHeader fun index => file.inode.fsData (file.offset + index)) =
        headerOf file := rfl
    rw [headerEq, loadRan, ok_bind]
    rw [ok_bind]
    rw [graftRan, ok_bind, stackRan, ok_bind]
    rw [linkRan, ok_bind]

end Steps

/-- The kernel between two loads: it links the table that processes share, whose
pages, the trap frame among them, are its own, and its load area is empty. -/
structure IdleKernel (supply : FrameSupply) (kernel : Kernel) (machine : Machine)
    (rank : Nat → Option Nat) : Prop where
  space : KernelSpace supply kernel machine rank
  linked : LinksLast machine.memory kernel.pageMapper.rootTable kernel.lastL1Pte
  vacant : entry machine.memory kernel.pageMapper.rootTable processLoadAreaEntry = 0
  quiet : ∀ page < pageLimit, pageLimit - 512 ≤ page → ∀ raw level,
    view machine.memory kernel.pageMapper.rootTable page = some (raw, level) →
      ¬ PageTableEntry.has raw PageFlags.user
  trapFrame : view machine.memory kernel.pageMapper.rootTable (pageLimit - 512) ≠ none

/-- The root table of an address space with no page, apart from the kernel's. -/
structure EmptyRoot (kernel : Kernel) (machine : Machine) (rank : Nat → Option Nat) (root : Nat) :
    Prop where
  isRoot : rank root = some 2
  apart : root ≠ kernel.pageMapper.rootTable
  empty : ∀ index < pageEntries, slots machine.memory root index = .invalid

def UserPage (segments : List Elf64ProgramHeader) (page : Nat) : Prop :=
  imagePages segments page ∨ stackPages page

/-- The address space of a new process, and what stays of the others. -/
structure Built (supply : FrameSupply) (kernel : Kernel) (machine after : Machine)
    (rank grown : Nat → Option Nat) (root : Nat) (inode : Inode ByteMemory)
    (segments : List Elf64ProgramHeader) (frame : Nat → Nat) : Prop where
  idle : IdleKernel supply kernel after grown
  extends' : Extends supply machine after rank grown
  linked : LinksLast after.memory root kernel.lastL1Pte
  fresh : ∀ page, UserPage segments page → ∃ number, machine.allocated ≤ number ∧
    number < after.allocated ∧ frame page = supply.frames number ∧ grown (frame page) = none
  distinct : ∀ page, UserPage segments page → ∀ other, UserPage segments other →
    frame page = frame other → page = other
  image : ∀ page, imagePages segments page → view after.memory root page =
    some (PageTableEntry.setUserFlag (PageTableEntry.set (frame page) loadFlags), 0)
  stack : ∀ page, stackPages page → view after.memory root page =
    some (PageTableEntry.set (frame page) userFlags, 0)
  unmapped : ∀ page < pageLimit - 512, ¬ UserPage segments page →
    view after.memory root page = none
  others : ∀ other, rank other = some 2 → other ≠ kernel.pageMapper.rootTable → other ≠ root →
    ∀ page < pageLimit - 512, view after.memory other page = view machine.memory other page
  shares : ∀ other, rank other = some 2 → other ≠ root →
    (LinksLast after.memory other kernel.lastL1Pte ↔
      LinksLast machine.memory other kernel.lastL1Pte)
  imageBytes : ∀ page, imagePages segments page → ∀ offset < 4096,
    after.memory (frame page + offset) =
      (imageByte inode segments.reverse (highPage + page) offset).getD
        (machine.memory (frame page + offset))
  stackBytes : ∀ page, stackPages page → ∀ offset < 4096,
    ¬ (page = argumentPage ∧ 4096 - argumentBytes ≤ offset) →
      after.memory (frame page + offset) = machine.memory (frame page + offset)

section Pages

variable {segments : List Elf64ProgramHeader} {page : Nat}

theorem loadPages_area (small : page < areaPages) :
    loadPages segments.reverse (highPage + page) ↔ imagePages segments page := by
  unfold loadPages imagePages segmentPages
  simp only [List.mem_reverse, Nat.add_le_add_iff_left, Nat.add_lt_add_iff_left]
  exact ⟨fun isLoaded => ⟨small, isLoaded⟩, fun isImage => isImage.2⟩

theorem stackPages_low (isStack : stackPages page) : page < pageLimit - 512 ∧ areaPages ≤ page := by
  unfold stackPages pagesFrom at isStack
  unfold pageLimit areaPages
  omega

theorem not_stack_of_image (isImage : imagePages segments page) : ¬ stackPages page := by
  intro isStack
  have small := isImage.1
  have above := (stackPages_low isStack).2
  omega

theorem imagePages_low (isImage : imagePages segments page) : page < pageLimit - 512 := by
  have small := isImage.1
  unfold areaPages at small
  unfold pageLimit
  omega

theorem view_vacant {memory : ByteMemory} {root : Nat}
    (vacant : entry memory root processLoadAreaEntry = 0)
    (inArea : page / areaPages = processLoadAreaEntry) : view memory root page = none := by
  have invalid : slots memory root (page / 2 ^ 18) = .invalid := by
    have indexEq : page / 2 ^ 18 = processLoadAreaEntry := inArea
    unfold slots
    rw [indexEq, vacant, PageTableEntry.classify_zero]
  unfold view
  rw [pagePath_cons, lookup_cons_invalid invalid]

end Pages

variable {page : Nat}

section Load

variable {supply : FrameSupply} {kernel : Kernel} {machine middle : Machine}
  {rank grown : Nat → Option Nat} {root : Nat} {segments : List Elf64ProgramHeader}
  {frame : Nat → Nat}

theorem load_linked (space : KernelSpace supply kernel machine rank)
    (mapped : MappedPages supply (· = kernel.lastL1Pte) machine middle rank grown
      kernel.pageMapper.rootTable loadFlags (loadPages segments.reverse) frame)
    (isImage : imagePages segments page) :
    ∃ second, slots middle.memory kernel.pageMapper.rootTable processLoadAreaEntry =
      .pointer second := by
  have found := mapped.hit _ space.isRoot _ ((loadPages_area isImage.1).mpr isImage) (Or.inl rfl)
  unfold view pagePath at found
  rw [(upperPath_area isImage.1).1, List.cons_append] at found
  obtain ⟨second, linked, -⟩ := pointer_of_lookup found (Nat.succ_pos _)
  exact ⟨second, linked⟩

/-- Without a page in the load area, its entry stays zero and handing it over
fails. -/
theorem load_vacant (space : KernelSpace supply kernel machine rank)
    (vacant : entry machine.memory kernel.pageMapper.rootTable processLoadAreaEntry = 0)
    (mapped : MappedPages supply (· = kernel.lastL1Pte) machine middle rank grown
      kernel.pageMapper.rootTable loadFlags (loadPages segments.reverse) frame)
    (noImage : ¬ ∃ page, imagePages segments page) (pageMap : PageMapper) (after : Machine) :
    graftLoadArea kernel middle pageMap ≠ .ok after := by
  have entryEq : entry middle.memory kernel.pageMapper.rootTable processLoadAreaEntry = 0 := by
    rw [mapped.rootEntries _ space.isRoot _ (by decide), vacant]
    intro _ page isLoaded indexEq
    obtain ⟨offset, small, rfl⟩ := area_page indexEq.symm
    exact noImage ⟨offset, (loadPages_area small).mp isLoaded⟩
  intro ran
  obtain ⟨ensured, -⟩ := ensure_bind_eq_ok.mp ran
  rw [entryEq] at ensured
  exact absurd rfl ensured

end Load

/-- The machines between the parts of `init_from_elf`. -/
structure Stages (supply : FrameSupply) (kernel : Kernel)
    (machine loaded grafted stacked after : Machine)
    (rank loadRank stackRank grown : Nat → Option Nat)
    (root : Nat) (inode : Inode ByteMemory) (segments : List Elf64ProgramHeader)
    (loadFrame stackFrame : Nat → Nat) : Prop where
  idle : IdleKernel supply kernel machine rank
  emptyRoot : EmptyRoot kernel machine rank root
  load : Loaded supply kernel machine loaded rank loadRank inode segments.reverse loadFrame
  graft : Grafted supply (· = kernel.lastL1Pte) loaded grafted loadRank
    kernel.pageMapper.rootTable root
  stack : MappedPages supply (· = kernel.lastL1Pte) grafted stacked loadRank stackRank
    root userFlags stackPages stackFrame
  contents : StackContents supply grafted stacked stackRank stackFrame
  link : LinkedLast supply (· = kernel.lastL1Pte) stacked after stackRank grown root
    kernel.lastL1Pte

def processFrame (loadFrame stackFrame : Nat → Nat) (page : Nat) : Nat :=
  if stackPages page then stackFrame page else loadFrame (highPage + page)

namespace Stages

variable {supply : FrameSupply} {kernel : Kernel} {machine loaded grafted stacked after : Machine}
  {rank loadRank stackRank grown : Nat → Option Nat} {root : Nat} {inode : Inode ByteMemory}
  {segments : List Elf64ProgramHeader} {loadFrame stackFrame : Nat → Nat}
  (stages : Stages supply kernel machine loaded grafted stacked after rank loadRank stackRank grown
    root inode segments loadFrame stackFrame)

include stages

variable {other : Nat}

theorem loadRoot (otherRoot : rank other = some 2) : loadRank other = some 2 :=
  stages.load.mapped.extends'.kept other 2 otherRoot

theorem stackRoot (otherRoot : rank other = some 2) : stackRank other = some 2 :=
  stages.stack.extends'.kept other 2 (stages.loadRoot otherRoot)

theorem afterLoad : Extends supply loaded after loadRank grown := by
  have graft : Extends supply loaded grafted loadRank loadRank :=
    ⟨fun _ _ isRanked => isRanked, fun _ isRanked unused => absurd unused isRanked,
      stages.graft.allocated.ge⟩
  exact (graft.trans stages.stack.extends').trans stages.link.extends'

theorem extends' : Extends supply machine after rank grown :=
  stages.load.mapped.extends'.trans stages.afterLoad

theorem others (otherRoot : rank other = some 2) (notKernel : other ≠ kernel.pageMapper.rootTable)
    (notRoot : other ≠ root) (low : page < pageLimit - 512) :
    view after.memory other page = view machine.memory other page := by
  have inRange : page < pageLimit := by omega
  rw [stages.link.kept other (stages.stackRoot otherRoot) page inRange fun same => notRoot same.1,
    stages.stack.kept_low stages.graft.spaces (stages.loadRoot otherRoot) notRoot low,
    stages.graft.kept other (stages.loadRoot otherRoot) page inRange (fun same => notRoot same.1)
      fun same => notKernel same.1,
    stages.load.mapped.kept_low stages.idle.space.spaces otherRoot notKernel low]

theorem kernel_view (inRange : page < pageLimit) (aside : page / areaPages ≠ processLoadAreaEntry) :
    view after.memory kernel.pageMapper.rootTable page =
      view loaded.memory kernel.pageMapper.rootTable page := by
  have kernelRoot := stages.idle.space.isRoot
  have notRoot : kernel.pageMapper.rootTable ≠ root := stages.emptyRoot.apart.symm
  rw [stages.link.kept _ (stages.stackRoot kernelRoot) page inRange fun same => notRoot same.1,
    stages.stack.miss _ (stages.loadRoot kernelRoot) page inRange,
    stages.graft.kept _ (stages.loadRoot kernelRoot) page inRange (fun same => notRoot same.1)
      fun same => aside same.2]
  intro isStack seen
  have corner := stages.graft.spaces.sees_corner (stages.loadRoot kernelRoot) inRange notRoot seen
  have low := (stackPages_low isStack).1
  omega

theorem vacant : entry after.memory kernel.pageMapper.rootTable processLoadAreaEntry = 0 := by
  have kernelRoot := stages.idle.space.isRoot
  have notRoot : kernel.pageMapper.rootTable ≠ root := stages.emptyRoot.apart.symm
  rw [stages.link.rootEntries _ (stages.stackRoot kernelRoot) _ (by decide)
      fun same => notRoot same.1,
    stages.stack.rootEntries _ (stages.loadRoot kernelRoot) _ (by decide)
      fun same => absurd same notRoot, stages.graft.vacant]

theorem shares (otherRoot : rank other = some 2) (notRoot : other ≠ root) :
    LinksLast after.memory other kernel.lastL1Pte ↔
      LinksLast machine.memory other kernel.lastL1Pte := by
  have inRange : pageLimit - 1 < pageLimit := by decide
  unfold LinksLast
  rw [stages.link.shares other (stages.stackRoot otherRoot) notRoot _ inRange _ rfl,
    stages.stack.shares other (stages.loadRoot otherRoot) _ inRange _ rfl,
    stages.graft.shares other (stages.loadRoot otherRoot) _ inRange _ rfl,
    stages.load.mapped.shares other otherRoot _ inRange _ rfl]

theorem kernel_cases (inRange : page < pageLimit)
    (aside : page / areaPages ≠ processLoadAreaEntry) :
    view after.memory kernel.pageMapper.rootTable page =
        some (PageTableEntry.set (loadFrame page) loadFlags, 0) ∨
      view after.memory kernel.pageMapper.rootTable page =
        view machine.memory kernel.pageMapper.rootTable page := by
  have kernelRoot := stages.idle.space.isRoot
  rw [stages.kernel_view inRange aside]
  by_cases isLoaded : loadPages segments.reverse page
  · exact Or.inl (stages.load.mapped.hit _ kernelRoot page isLoaded (Or.inl rfl))
  · exact Or.inr (stages.load.mapped.miss _ kernelRoot page inRange
      fun isLoaded' => absurd isLoaded' isLoaded)

theorem idle_after : IdleKernel supply kernel after grown := by
  have kernelRoot := stages.idle.space.isRoot
  have space := stages.idle.space.mapped stages.load.mapped
  have corner_aside : ∀ page < pageLimit, pageLimit - 512 ≤ page →
      page / areaPages ≠ processLoadAreaEntry := by
    intro page upper corner
    unfold pageLimit at upper corner
    unfold areaPages processLoadAreaEntry
    omega
  refine ⟨⟨stages.link.spaces, stages.extends'.kept _ 2 kernelRoot, ?_⟩, ?_, stages.vacant, ?_, ?_⟩
  · refine space.high.extend stages.afterLoad stages.link.spaces.owned ?_
    intro page lower upper raw level found
    by_cases inArea : page / areaPages = processLoadAreaEntry
    · rw [view_vacant stages.vacant inArea] at found
      cases found
    · rw [stages.kernel_view upper inArea] at found
      exact Or.inl found
  · exact (stages.shares kernelRoot stages.emptyRoot.apart.symm).mpr stages.idle.linked
  · intro page upper corner raw level found
    rcases stages.kernel_cases upper (corner_aside page upper corner) with loadedEq | keptEq
    · rw [loadedEq] at found
      cases found
      rw [PageTableEntry.has_set (by decide)]
      decide
    · rw [keptEq] at found
      exact stages.idle.quiet page upper corner raw level found
  · have inRange : pageLimit - 512 < pageLimit := by decide
    rcases stages.kernel_cases inRange (corner_aside _ inRange le_rfl) with loadedEq | keptEq
    · rw [loadedEq]
      nofun
    · rw [keptEq]
      exact stages.idle.trapFrame

theorem root_view_low (small : page < areaPages) : view after.memory root page =
    (view loaded.memory kernel.pageMapper.rootTable (highPage + page)).map userLeaf := by
  have rootRanked := stages.emptyRoot.isRoot
  have below := area_below small
  have notStack : ¬ stackPages page := fun isStack => by
    have above := (stackPages_low isStack).2
    omega
  rw [stages.link.kept root (stages.stackRoot rootRanked) page (by omega) fun same => by omega,
    stages.stack.miss root (stages.loadRoot rootRanked) page (by omega)
      fun isStack => absurd isStack notStack, stages.graft.image page small]

theorem root_view_high (low : page < pageLimit - 512) (notStack : ¬ stackPages page)
    (above : areaPages ≤ page) : view after.memory root page = none := by
  have rootRanked := stages.emptyRoot.isRoot
  have inRange : page < pageLimit := by omega
  have index : page / 2 ^ 18 < pageEntries := (within_cons.mp (pagePath_within inRange)).1
  rw [stages.link.kept root (stages.stackRoot rootRanked) page inRange fun same => by omega,
    stages.stack.miss root (stages.loadRoot rootRanked) page inRange
      fun isStack => absurd isStack notStack,
    stages.graft.kept root (stages.loadRoot rootRanked) page inRange (fun same => by omega)
      fun same => stages.emptyRoot.apart same.1,
    stages.load.mapped.kept_low stages.idle.space.spaces rootRanked stages.emptyRoot.apart low]
  unfold view
  rw [pagePath_cons, lookup_cons_invalid (stages.emptyRoot.empty _ index)]

theorem image (isImage : imagePages segments page) : view after.memory root page =
    some (PageTableEntry.setUserFlag
      (PageTableEntry.set (processFrame loadFrame stackFrame page) loadFlags), 0) := by
  unfold processFrame
  rw [stages.root_view_low isImage.1, stages.load.mapped.hit _ stages.idle.space.isRoot _
    ((loadPages_area isImage.1).mpr isImage) (Or.inl rfl), if_neg (not_stack_of_image isImage)]
  rfl

theorem stack_view (isStack : stackPages page) : view after.memory root page =
    some (PageTableEntry.set (processFrame loadFrame stackFrame page) userFlags, 0) := by
  have rootRanked := stages.emptyRoot.isRoot
  have low := (stackPages_low isStack).1
  unfold processFrame
  rw [stages.link.kept root (stages.stackRoot rootRanked) page (by omega) fun same => by omega,
    stages.stack.hit root (stages.loadRoot rootRanked) page isStack (Or.inl rfl), if_pos isStack]

theorem unmapped {page : Nat} (low : page < pageLimit - 512)
    (notUser : ¬ UserPage segments page) : view after.memory root page = none := by
  by_cases small : page < areaPages
  · have below := area_below small
    have notLoaded : ¬ loadPages segments.reverse (highPage + page) := fun isLoaded =>
      notUser (Or.inl ((loadPages_area small).mp isLoaded))
    have inArea : (highPage + page) / areaPages = processLoadAreaEntry := by
      unfold areaPages at small
      unfold highPage areaPages processLoadAreaEntry
      omega
    rw [stages.root_view_low small, stages.load.mapped.miss _ stages.idle.space.isRoot _ (by omega)
      fun isLoaded => absurd isLoaded notLoaded, view_vacant stages.idle.vacant inArea]
    rfl
  · exact stages.root_view_high low (fun isStack => notUser (Or.inr isStack))
      (Nat.le_of_not_lt small)

theorem image_frame (isImage : imagePages segments page) : ∃ number,
    machine.allocated ≤ number ∧ number < loaded.allocated ∧
      processFrame loadFrame stackFrame page = supply.frames number ∧
      loadRank (supply.frames number) = none := by
  obtain ⟨number, lower, upper, frameEq, isFrame⟩ :=
    stages.load.mapped.fresh _ ((loadPages_area isImage.1).mpr isImage)
  refine ⟨number, lower, upper, ?_, by rwa [← frameEq]⟩
  unfold processFrame
  rw [if_neg (not_stack_of_image isImage), frameEq]

theorem stack_frame (isStack : stackPages page) : ∃ number,
    loaded.allocated ≤ number ∧ number < stacked.allocated ∧
      processFrame loadFrame stackFrame page = supply.frames number ∧
      stackRank (supply.frames number) = none := by
  obtain ⟨number, lower, upper, frameEq, isFrame⟩ := stages.stack.fresh page isStack
  rw [stages.graft.allocated] at lower
  refine ⟨number, lower, upper, ?_, by rwa [← frameEq]⟩
  unfold processFrame
  rw [if_pos isStack, frameEq]

theorem fresh (isUser : UserPage segments page) : ∃ number,
    machine.allocated ≤ number ∧ number < after.allocated ∧
      processFrame loadFrame stackFrame page = supply.frames number ∧
      grown (processFrame loadFrame stackFrame page) = none := by
  have owned := stages.link.spaces.owned
  have loadMonotone := stages.load.mapped.extends'.monotone
  have monotone := stages.afterLoad.monotone
  have linkMonotone := stages.link.extends'.monotone
  rcases isUser with isImage | isStack
  · obtain ⟨number, lower, upper, frameEq, isFrame⟩ := stages.image_frame isImage
    refine ⟨number, lower, by omega, frameEq, ?_⟩
    rw [frameEq]
    exact stages.afterLoad.frame_kept owned upper isFrame
  · obtain ⟨number, lower, upper, frameEq, isFrame⟩ := stages.stack_frame isStack
    refine ⟨number, by omega, by omega, frameEq, ?_⟩
    rw [frameEq]
    exact stages.link.extends'.frame_kept owned upper isFrame

theorem distinct (isUser : UserPage segments page) (otherUser : UserPage segments other)
    (same : processFrame loadFrame stackFrame page = processFrame loadFrame stackFrame other) :
    page = other := by
  have owned := stages.link.spaces.owned
  have linkMonotone := stages.link.extends'.monotone
  have differ : ∀ first, imagePages segments first → ∀ second, stackPages second →
      processFrame loadFrame stackFrame first ≠ processFrame loadFrame stackFrame second := by
    intro first isImage second isStack sameFrame
    obtain ⟨number, -, upper, frameEq, -⟩ := stages.image_frame isImage
    obtain ⟨another, lower, anotherUpper, anotherEq, -⟩ := stages.stack_frame isStack
    rw [frameEq, anotherEq] at sameFrame
    have equal := supply.distinct number (by omega) another (by omega) sameFrame
    omega
  rcases isUser with isImage | isStack <;> rcases otherUser with otherImage | otherStack
  · unfold processFrame at same
    rw [if_neg (not_stack_of_image isImage), if_neg (not_stack_of_image otherImage)] at same
    have equal := stages.load.mapped.distinct _ ((loadPages_area isImage.1).mpr isImage) _
      ((loadPages_area otherImage.1).mpr otherImage) same
    omega
  · exact absurd same (differ page isImage other otherStack)
  · exact absurd same.symm (differ other otherImage page isStack)
  · unfold processFrame at same
    rw [if_pos isStack, if_pos otherStack] at same
    exact stages.stack.distinct page isStack other otherStack same

/-- After loading, frames that are no table and not taken for the stack keep
their bytes. -/
theorem bytes_kept {location : Nat} (outside : OutsideTables grown location)
    (untaken : OutsideFresh supply loaded after location) :
    after.memory location = loaded.memory location := by
  have linkMonotone := stages.link.extends'.monotone
  have stackOutside := outside.of_extends stages.link.extends'
  rw [stages.link.elsewhere location outside,
    stages.contents.elsewhere location stackOutside, stages.graft.elsewhere location
      (stackOutside.of_extends stages.stack.extends')]
  intro number lower upper
  rw [stages.graft.allocated] at lower
  exact untaken number lower (by omega)

theorem imageBytes (isImage : imagePages segments page) {offset : Nat} (inFrame : offset < 4096) :
    after.memory (processFrame loadFrame stackFrame page + offset) =
      (imageByte inode segments.reverse (highPage + page) offset).getD
        (machine.memory (processFrame loadFrame stackFrame page + offset)) := by
  have owned := stages.link.spaces.owned
  have monotone := stages.afterLoad.monotone
  obtain ⟨number, -, upper, frameEq, isFrame⟩ := stages.image_frame isImage
  have grownFrame := stages.afterLoad.frame_kept owned upper isFrame
  have contents := stages.load.bytes.contents _ ((loadPages_area isImage.1).mpr isImage) offset
    inFrame
  have loadEq : loadFrame (highPage + page) = processFrame loadFrame stackFrame page := by
    unfold processFrame
    rw [if_neg (not_stack_of_image isImage)]
  rw [loadEq] at contents
  rw [← contents, frameEq]
  refine stages.bytes_kept (stages.link.spaces.outside_of_frame (by omega) grownFrame inFrame) ?_
  intro other otherLower otherUpper
  exact supply.apart (by omega) (by omega) (by omega) inFrame

theorem stackBytes (isStack : stackPages page) {offset : Nat} (inFrame : offset < 4096)
    (aside : ¬ (page = argumentPage ∧ 4096 - argumentBytes ≤ offset)) :
    after.memory (processFrame loadFrame stackFrame page + offset) =
      machine.memory (processFrame loadFrame stackFrame page + offset) := by
  have owned := stages.link.spaces.owned
  have linkMonotone := stages.link.extends'.monotone
  obtain ⟨number, lower, upper, frameEq, isFrame⟩ := stages.stack_frame isStack
  have grownFrame := stages.link.extends'.frame_kept owned upper isFrame
  have loadFrameFree := stages.load.mapped.spaces.unused lower (by omega)
  have contents := stages.contents.contents page isStack offset inFrame aside
  have stackEq : stackFrame page = processFrame loadFrame stackFrame page := by
    unfold processFrame
    rw [if_pos isStack]
  have loadOutside := stages.load.mapped.spaces.outside_of_frame (by omega) loadFrameFree inFrame
  rw [stackEq, frameEq] at contents
  rw [frameEq, stages.link.elsewhere _
    (stages.link.spaces.outside_of_frame (by omega) grownFrame inFrame), contents,
    stages.graft.elsewhere _ loadOutside, stages.load.bytes.elsewhere _ loadOutside]
  intro other otherLower otherUpper
  exact supply.apart (by omega) (by omega) (by omega) inFrame

theorem built : Built supply kernel machine after rank grown root inode segments
    (processFrame loadFrame stackFrame) :=
  ⟨stages.idle_after, stages.extends', stages.link.linked, fun _ isUser => stages.fresh isUser,
    fun _ isUser _ otherUser same => stages.distinct isUser otherUser same,
    fun _ isImage => stages.image isImage, fun _ isStack => stages.stack_view isStack,
    fun _ low notUser => stages.unmapped low notUser,
    fun _ otherRoot notKernel notRoot _ low => stages.others otherRoot notKernel notRoot low,
    fun _ otherRoot notRoot => stages.shares otherRoot notRoot,
    fun _ isImage _ inFrame => stages.imageBytes isImage inFrame,
    fun _ isStack _ inFrame aside => stages.stackBytes isStack inFrame aside⟩

end Stages

section Build

variable {supply : FrameSupply} {kernel : Kernel} {file : File ByteMemory}
  {context built : Context} {machine after : Machine} {rank : Nat → Option Nat}

def builtContext (file : File ByteMemory) (context : Context) : Context :=
  let heap := heapOf (segmentsOf file) 0
  { context with
    heapBegin := heap
    heapEnd := heap
    trapFrame :=
      { context.trapFrame with
        pc := (headerOf file).eEntry, sp := processStackStart - argumentBytes, a0 := 1, a1 := 0 } }

/-- Building a process succeeds only for files that load, and similar machines
build it alike. -/
theorem IdleKernel.build (idle : IdleKernel supply kernel machine rank)
    (emptyRoot : EmptyRoot kernel machine rank context.pageMap.rootTable)
    (ran : initFromElf supply kernel file context machine = .ok (built, after)) :
    Loads file ∧ built = builtContext file context ∧
      ∃ grown frame, Built supply kernel machine after rank grown context.pageMap.rootTable
          file.inode (segmentsOf file) frame ∧
        ∀ second, Similar rank machine second → ∃ secondAfter,
          initFromElf supply kernel file context second = .ok (built, secondAfter) ∧
            Similar grown after secondAfter := by
  obtain ⟨fits, state, base, heap, grafted, sp, stacked, loadRan, graftRan, stackRan, linkRan,
    builtEq⟩ := initFromElf_eq_ok.mp ran
  have readable := headersReadable_of_loadElf loadRan
  obtain ⟨loadRank, loadFrame, run⟩ := idle.space.load_run loadRan
  obtain ⟨segmentsFit, valuesEq, loaded⟩ := run.success _ rfl
  rw [List.append_nil] at loaded
  obtain ⟨rfl, rfl⟩ := Prod.mk.inj valuesEq
  have space := idle.space.mapped loaded.mapped
  have rootLoaded := loaded.mapped.extends'.kept _ 2 emptyRoot.isRoot
  have rootEntry : ∀ index < pageEntries,
      slots state.machine.memory context.pageMap.rootTable index = .invalid := by
    intro index inRange
    rw [slots_congr (loaded.mapped.rootEntries _ emptyRoot.isRoot index inRange
      fun same => absurd same emptyRoot.apart), emptyRoot.empty index inRange]
  have image : ∃ page, imagePages (segmentsOf file) page := by
    by_contra noImage
    exact load_vacant idle.space idle.vacant loaded.mapped noImage context.pageMap grafted graftRan
  obtain ⟨page, isImage⟩ := image
  obtain ⟨second, linked⟩ := load_linked idle.space loaded.mapped isImage
  have graft := space.graft linked rootLoaded emptyRoot.apart (rootEntry 0 (by decide)) graftRan
  have graftedEntry : ∀ index < pageEntries, index ≠ 0 →
      slots grafted.memory context.pageMap.rootTable index = .invalid := by
    intro index inRange notFirst
    rw [slots_congr (graft.rootEntries _ rootLoaded index inRange (fun same => notFirst same.2)
      fun same => emptyRoot.apart same.1), rootEntry index inRange]
  have clear : ∀ page, stackPages page → ∀ raw level,
      view grafted.memory context.pageMap.rootTable page = some (raw, level) → level = 0 := by
    intro page isStack raw level found
    have indexEq : page / 2 ^ 18 = 3 := by
      unfold stackPages pagesFrom at isStack
      omega
    unfold view at found
    rw [pagePath_cons, indexEq, lookup_cons_invalid
      (graftedEntry 3 (by decide) (by decide))] at found
    cases found
  obtain ⟨stackRank, stackFrame, stack, contents, stackAgain⟩ :=
    mapStack_maps graft.spaces rootLoaded clear stackRan
  obtain ⟨-, arguments, -, -, spEq⟩ := mapStack_eq_ok.mp stackRan
  have rootStacked := stack.extends'.kept _ 2 rootLoaded
  have noLeaf : ∀ raw, slots stacked.memory context.pageMap.rootTable 511 ≠ .leaf raw := by
    intro raw
    rw [slots_congr (stack.rootEntries _ rootLoaded 511 (by decide) ?_),
      graftedEntry 511 (by decide) (by decide)]
    · nofun
    · intro _ page isStack
      unfold stackPages pagesFrom at isStack
      omega
  obtain ⟨grown, link, linkAgain⟩ :=
    setL1PageTableForPhys_links stack.spaces rootStacked rfl noLeaf linkRan
  have stages : Stages supply kernel machine state.machine grafted stacked after rank loadRank
      stackRank grown context.pageMap.rootTable file.inode (segmentsOf file) loadFrame stackFrame :=
    ⟨idle, emptyRoot, loaded, graft, stack, contents, link⟩
  refine ⟨⟨fits, readable, segmentsFit, ⟨page, isImage⟩, arguments⟩, ?_, grown, _, stages.built, ?_⟩
  · rw [builtEq, spEq]
    rfl
  · intro other similar
    obtain ⟨otherState, otherLoad, otherLoaded⟩ := run.again other similar
    obtain ⟨otherGrafted, otherGraft, otherGraftedSimilar⟩ :=
      space.graft_similar linked graftRan otherLoaded
    obtain ⟨otherStacked, otherStack, otherStackedSimilar⟩ :=
      stackAgain otherGrafted otherGraftedSimilar
    obtain ⟨otherAfter, otherLink, otherSimilar⟩ := linkAgain otherStacked otherStackedSimilar
    refine ⟨otherAfter, initFromElf_eq_ok.mpr ⟨fits, otherState, _, _, otherGrafted, sp,
      otherStacked, ?_, otherGraft, otherStack, otherLink, builtEq⟩, otherSimilar⟩
    rw [loadElf_eq readable]
    exact otherLoad

theorem IdleKernel.build_total (idle : IdleKernel supply kernel machine rank) (loads : Loads file)
    (enough : machine.allocated + 3 * pageTotal (segmentsOf file) + 13 ≤ supply.owned) :
    ∃ after, initFromElf supply kernel file context machine =
        .ok (builtContext file context, after) ∧
      after.allocated ≤ machine.allocated + 3 * pageTotal (segmentsOf file) + 13 := by
  obtain ⟨state, values, loadRan, loadBound⟩ := @KernelSpace.load_total supply kernel
    { file with offset := file.offset + elf64HeaderSize } (headerOf file) machine rank idle.space
    loads.headers loads.fits
    (show machine.allocated + 3 * pageTotal (segmentsOf file) ≤ supply.owned by omega)
  change state.machine.allocated ≤ machine.allocated + 3 * pageTotal (segmentsOf file) at loadBound
  obtain ⟨loadRank, loadFrame, run⟩ := idle.space.load_run loadRan
  obtain ⟨-, rfl, loaded⟩ := run.success _ rfl
  rw [List.append_nil] at loaded
  obtain ⟨page, isImage⟩ := loads.image
  obtain ⟨second, linked⟩ := load_linked idle.space loaded.mapped isImage
  have graftRan := (@graftLoadArea_eq_ok supply kernel state.machine _ loadRank second
    context.pageMap (idle.space.mapped loaded.mapped) linked).mpr rfl
  obtain ⟨grafted, graftedEq⟩ : ∃ grafted, grafted = ({ state.machine with
      memory := setEntry (setEntry (switchPagesToUser state.machine.memory second)
        context.pageMap.rootTable 0 (PageTableEntry.set second PageFlags.valid))
        kernel.pageMapper.rootTable processLoadAreaEntry 0 } : Machine) := ⟨_, rfl⟩
  have graftedAllocated : grafted.allocated = state.machine.allocated := by rw [graftedEq]
  rw [← graftedEq] at graftRan
  obtain ⟨stacked, stackRan, stackBound⟩ := @mapStack_total supply grafted context.pageMap
    (headerOf file) _ (by omega) loads.arguments
  obtain ⟨after, linkRan, linkBound⟩ := @setL1PageTableForPhys_total supply stacked context.pageMap
    kernel.lastL1Pte (by omega)
  exact ⟨after, initFromElf_eq_ok.mpr ⟨loads.header, state, _, _, grafted, _, stacked, loadRan,
    graftRan, stackRan, linkRan, rfl⟩, by omega⟩

end Build

end NanoOs.ProcessMemoryMap
