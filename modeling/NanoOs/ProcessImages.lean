import NanoOs.ProcessIsolation

/-!
# What a new process finds in its memory

`init_from_elf` stores the bytes of the segments and of the argument block.  Frames
are not cleared for it, so around these bytes a process finds what its frames held
before, and a segment loaded over a page of an earlier one takes the page away.
-/

namespace NanoOs.ProcessMemoryMap

open Files KernelMemoryMap MemoryCalls PageMapping ReadElf Function List

/-- The machines differ at most in frames that the allocator still has. -/
structure SameButFree (supply : FrameSupply) (machine second : Machine) : Prop where
  allocated : second.allocated = machine.allocated
  memory : ∀ location, (∀ number, machine.allocated ≤ number → number < supply.owned →
    location < supply.frames number ∨ supply.frames number + 4096 ≤ location) →
      second.memory location = machine.memory location

/-- The byte that a process finds at an address, on a page of its own. -/
def userByte (memory : ByteMemory) (root virt : Nat) : Option UInt8 :=
  (view memory root (pageOf virt)).bind fun found =>
    if PageTableEntry.has found.1 PageFlags.user then some (memory (physical virt found)) else none

def fileByte (inode : Inode ByteMemory) (ph : Elf64ProgramHeader) (index : Nat) : UInt8 :=
  if index < ph.pFilesz then inode.fsData (ph.pOffset + index) else 0

def imageEnd (segments : List Elf64ProgramHeader) : Nat :=
  segments.foldl (fun stop ph => max stop (ph.pVaddr + ph.pMemsz)) 0

/-- An ELF file whose segments lie in the file, and apart from each other below
the stack. -/
structure WellFormed (file : File ByteMemory) : Prop where
  header : file.offset + elf64HeaderSize ≤ file.inode.len
  headers : HeadersReadable file.inode (headerOf file)
  sizes : ∀ ph ∈ segmentsOf file, ph.pFilesz ≤ ph.pMemsz
  inFile : ∀ ph ∈ segmentsOf file, ph.pOffset + ph.pFilesz ≤ file.inode.len
  belowStack : ∀ ph ∈ segmentsOf file, ph.pVaddr + ph.pMemsz ≤ 0xffdfc000
  disjoint : (segmentsOf file).Pairwise fun first second =>
    ∀ position, InSegment first position → ¬ InSegment second position

/-- Whatever the free frames hold, the process finds the bytes of its file, and its
heap begins after them. -/
def LoadsImage (supply : FrameSupply) (kernel : Kernel) (file : File ByteMemory)
    (context : Context) (machine : Machine) : Prop :=
  ∀ second, SameButFree supply machine second → ∃ built after,
    initFromElf supply kernel file context second = .ok (built, after) ∧
    (∀ ph ∈ segmentsOf file, ∀ index < ph.pMemsz,
      userByte after.memory built.pageMap.rootTable (ph.pVaddr + index) =
        some (fileByte file.inode ph index)) ∧
    built.heapBegin = roundUp (imageEnd (segmentsOf file))

/-- There is a page to load in the first gigabyte and no byte above it, no segment
has a page that an earlier one has a byte on, and the address that is computed for
the program headers fits a word. -/
structure Separable (file : File ByteMemory) : Prop where
  image : ∃ page, imagePages (segmentsOf file) page
  arguments : (headerOf file).ePhoff + baseOf (segmentsOf file) (wordLimit - 1) < 2 ^ 64
  low : ∀ ph ∈ segmentsOf file, 0 < ph.pMemsz → ph.pVaddr + ph.pMemsz ≤ 2 ^ 30
  ownPages : (segmentsOf file).Pairwise fun first second => ∀ position, InSegment first position →
    ¬ (segmentFirst second ≤ position / 4096 ∧ position / 4096 < segmentStop second)

section Contents

variable {supply : FrameSupply} {machine second : Machine} {rank : Nat → Option Nat}
  {kernel : Kernel} {root : Nat}

theorem SameButFree.refl (supply : FrameSupply) (machine : Machine) :
    SameButFree supply machine machine :=
  ⟨rfl, fun _ _ => rfl⟩

theorem SameButFree.similar (same : SameButFree supply machine second)
    (space : KernelSpace supply kernel machine rank) : Similar rank machine second := by
  refine ⟨same.allocated, ?_⟩
  intro table isRanked location lower upper
  obtain ⟨count, taken, rfl⟩ := space.spaces.used table isRanked
  refine same.memory location ?_
  intro number free bound
  have apart := @FrameSupply.apart supply count number (location - supply.frames count)
    (by omega) bound (by omega) (by omega)
  rw [Nat.add_sub_cancel' lower] at apart
  exact apart

theorem SameButFree.update {number offset : Nat} (free : machine.allocated ≤ number)
    (bound : number < supply.owned) (inFrame : offset < 4096) (byte : UInt8) :
    SameButFree supply machine { machine with
      memory := update machine.memory (supply.frames number + offset) byte } := by
  refine ⟨rfl, ?_⟩
  intro location outside
  have apart := outside number free bound
  exact update_of_ne (by omega) _ _

theorem IdleKernel.of_similar (idle : IdleKernel supply kernel machine rank)
    (similar : Similar rank machine second) : IdleKernel supply kernel second rank := by
  have spaces := idle.space.spaces
  have isRoot := idle.space.isRoot
  refine ⟨idle.space.of_similar similar, ?_, ?_, ?_, ?_⟩
  · have linked := idle.linked
    unfold LinksLast at linked ⊢
    rw [(spaces.walk_similar similar isRoot (upperPath_within (by decide))).1]
    exact linked
  · rw [similar.entry_eq (RadixTables.ranked isRoot) (by decide)]
    exact idle.vacant
  · intro page inRange corner raw level found
    rw [spaces.view_similar similar isRoot inRange] at found
    exact idle.quiet page inRange corner raw level found
  · rw [spaces.view_similar similar isRoot (by decide)]
    exact idle.trapFrame

theorem EmptyRoot.of_similar (emptyRoot : EmptyRoot kernel machine rank root)
    (similar : Similar rank machine second) : EmptyRoot kernel second rank root := by
  refine ⟨emptyRoot.isRoot, emptyRoot.apart, ?_⟩
  intro index inRange
  rw [similar.slots_eq (RadixTables.ranked emptyRoot.isRoot) inRange]
  exact emptyRoot.empty index inRange

end Contents

variable {index position : Nat} {inode : Inode ByteMemory} {segments : List Elf64ProgramHeader}

section Bytes

variable {inode : Inode ByteMemory} {segments before later : List Elf64ProgramHeader}
  {ph : Elf64ProgramHeader} {page offset : Nat}

theorem imageByte_last (isPage : segmentPages ph page)
    (notLater : ∀ other ∈ later, ¬ segmentPages other page) :
    imageByte inode (before ++ ph :: later).reverse page offset =
      segmentByte inode ph (positionOf page offset) := by
  have skipped : later.reverse.find? (fun other => segmentPages other page) = none := by
    rw [find?_eq_none]
    intro other isLater isPage
    exact notLater other (mem_reverse.mp isLater) (of_decide_eq_true isPage)
  unfold imageByte
  rw [reverse_append, reverse_cons, append_assoc, find?_append, skipped,
    Option.none_or, singleton_append, find?_cons, decide_eq_true isPage]
  rfl

theorem exists_last (covered : ∃ ph ∈ segments, segmentPages ph page) :
    ∃ before ph later, segments = before ++ ph :: later ∧ segmentPages ph page ∧
      ∀ other ∈ later, ¬ segmentPages other page := by
  induction segments with
  | nil =>
    obtain ⟨ph, isSegment, -⟩ := covered
    cases isSegment
  | cons head rest ih =>
    by_cases further : ∃ ph ∈ rest, segmentPages ph page
    · obtain ⟨before, ph, later, split, isPage, notLater⟩ := ih further
      exact ⟨head :: before, ph, later, by rw [split, cons_append], isPage, notLater⟩
    · obtain ⟨ph, isSegment, isPage⟩ := covered
      rcases mem_cons.mp isSegment with rfl | isRest
      · exact ⟨[], ph, rest, rfl, isPage, fun other isOther otherPage =>
          further ⟨other, isOther, otherPage⟩⟩
      · exact absurd ⟨ph, isRest, isPage⟩ further

theorem positionOf_split (position : Nat) :
    positionOf (highPage + position / 4096) (position % 4096) = position := by
  unfold positionOf
  rw [Nat.add_sub_cancel_left]
  exact Nat.div_add_mod' position 4096

theorem segmentPages_high : segmentPages ph (highPage + page) ↔
    segmentFirst ph ≤ page ∧ page < segmentStop ph := by
  unfold segmentPages
  rw [Nat.add_le_add_iff_left, Nat.add_lt_add_iff_left]

theorem InSegment.onPage (inside : InSegment ph position) :
    segmentFirst ph ≤ position / 4096 ∧ position / 4096 < segmentStop ph := by
  unfold InSegment at inside
  unfold segmentFirst segmentStop
  omega

end Bytes

section Image

variable {supply : FrameSupply} {kernel : Kernel} {file : File ByteMemory}
  {context built : Context} {machine after : Machine} {rank grown : Nat → Option Nat}
  {frame : Nat → Nat} {root virt : Nat}

theorem Built.userByte
    (image : Built supply kernel machine after rank grown root inode segments frame)
    (isUser : UserPage segments (pageOf virt)) :
    userByte after.memory root virt = some (after.memory (frame (pageOf virt) + virt % 4096)) := by
  obtain ⟨raw, found, addrEq, user, -⟩ := image.leaf isUser
  unfold ProcessMemoryMap.userByte
  rw [found, Option.bind_some, if_pos user, physical_small, addrEq]

/-- Runs that differ in what free frames hold give a page the same frame. -/
theorem IdleKernel.build_again (idle : IdleKernel supply kernel machine rank)
    (emptyRoot : EmptyRoot kernel machine rank context.pageMap.rootTable)
    (ran : initFromElf supply kernel file context machine = .ok (built, after)) :
    ∃ grown frame, Built supply kernel machine after rank grown context.pageMap.rootTable
        file.inode (segmentsOf file) frame ∧
      ∀ second, SameButFree supply machine second → ∃ secondAfter secondGrown secondFrame,
        initFromElf supply kernel file context second = .ok (built, secondAfter) ∧
        Built supply kernel second secondAfter rank secondGrown context.pageMap.rootTable
          file.inode (segmentsOf file) secondFrame ∧
        ∀ page, UserPage (segmentsOf file) page → secondFrame page = frame page := by
  obtain ⟨-, -, grown, frame, image, again⟩ := idle.build emptyRoot ran
  refine ⟨grown, frame, image, ?_⟩
  intro second same
  have similar := same.similar idle.space
  obtain ⟨secondAfter, secondRan, afterSimilar⟩ := again second similar
  obtain ⟨-, -, secondGrown, secondFrame, secondImage, -⟩ :=
    (idle.of_similar similar).build (emptyRoot.of_similar similar) secondRan
  refine ⟨secondAfter, secondGrown, secondFrame, secondRan, secondImage, ?_⟩
  intro page isUser
  obtain ⟨raw, found, addrEq, -⟩ := image.leaf isUser
  obtain ⟨secondRaw, secondFound, secondAddrEq, -⟩ := secondImage.leaf isUser
  have inRange : page < pageLimit := by
    rcases isUser with isImage | isStack
    · exact (imagePages_low isImage).trans_le (Nat.sub_le _ _)
    · exact (stackPages_low isStack).1.trans_le (Nat.sub_le _ _)
  rw [image.idle.space.spaces.view_similar afterSimilar
    (image.extends'.kept _ 2 emptyRoot.isRoot) inRange, found] at secondFound
  cases secondFound
  rw [← addrEq, ← secondAddrEq]

/-- Where no run stores a byte, the process can find any. -/
theorem IdleKernel.stale (idle : IdleKernel supply kernel machine rank)
    (emptyRoot : EmptyRoot kernel machine rank context.pageMap.rootTable)
    (ran : initFromElf supply kernel file context machine = .ok (built, after))
    (isUser : UserPage (segmentsOf file) (pageOf virt))
    (kept : ∀ machine after grown frame, Built supply kernel machine after rank grown
      context.pageMap.rootTable file.inode (segmentsOf file) frame →
        after.memory (frame (pageOf virt) + virt % 4096) =
          machine.memory (frame (pageOf virt) + virt % 4096)) (byte : UInt8) :
    ∃ second secondAfter, SameButFree supply machine second ∧
      initFromElf supply kernel file context second = .ok (built, secondAfter) ∧
      userByte secondAfter.memory context.pageMap.rootTable virt = some byte := by
  obtain ⟨grown, frame, image, again⟩ := idle.build_again emptyRoot ran
  obtain ⟨number, free, taken, frameEq, -⟩ := image.fresh _ isUser
  have owned := image.idle.space.spaces.owned
  have same := SameButFree.update free (taken.trans_le owned)
    (Nat.mod_lt virt (by decide : 0 < 4096)) byte
  obtain ⟨secondAfter, secondGrown, secondFrame, secondRan, secondImage, frames⟩ := again _ same
  refine ⟨_, secondAfter, same, secondRan, ?_⟩
  rw [secondImage.userByte isUser, kept _ _ _ _ secondImage, frames _ isUser, frameEq]
  exact congrArg some (update_self _ _ _)

theorem WellFormed.loads (wellFormed : WellFormed file) (separable : Separable file) :
    Loads file := by
  refine ⟨wellFormed.header, wellFormed.headers, ?_, separable.image, separable.arguments⟩
  intro ph isSegment
  have below := wellFormed.belowStack ph isSegment
  have inFile := wellFormed.inFile ph isSegment
  refine ⟨?_, ?_, wellFormed.sizes ph isSegment⟩
  · unfold segmentStop highPage
    omega
  · unfold Readable
    omega

theorem pageOf_small {position : Nat} (small : position < 2 ^ 38) :
    pageOf position = position / 4096 := by
  unfold pageOf pageLimit
  omega

variable {ph : Elf64ProgramHeader}

/-- A byte on a page that a later segment takes is not stored. -/
theorem WellFormed.lost (wellFormed : WellFormed file) {first second : Elf64ProgramHeader}
    (ordered : [first, second].Sublist (segmentsOf file)) (inFirst : InSegment first position)
    (taken : segmentFirst second ≤ position / 4096 ∧ position / 4096 < segmentStop second) :
    imageByte file.inode (segmentsOf file).reverse (highPage + position / 4096)
      (position % 4096) = none := by
  have isSecond : second ∈ segmentsOf file := ordered.subset (by simp)
  have covers := segmentPages_high.mpr taken
  obtain ⟨before, ph, later, split, isPage, notLater⟩ := exists_last ⟨second, isSecond, covers⟩
  have notInLater : second ∉ later := fun isLater => notLater second isLater covers
  have isBefore : first ∈ before := by
    rw [split, sublist_append_iff] at ordered
    obtain ⟨front, back, frontBack, inBefore, inRest⟩ := ordered
    cases front with
    | nil =>
      rw [nil_append] at frontBack
      subst frontBack
      have isLater : second ∈ later := by
        cases inRest with
        | cons _ inLater => exact inLater.subset (by simp)
        | cons_cons _ inLater => exact inLater.subset (by simp)
      exact absurd isLater notInLater
    | cons head front =>
      obtain ⟨rfl, -⟩ := cons.inj frontBack
      exact inBefore.subset mem_cons_self
  have disjoint := wellFormed.disjoint
  rw [split, pairwise_append] at disjoint
  have notIn := disjoint.2.2 first isBefore ph mem_cons_self position inFirst
  rw [split, imageByte_last isPage notLater, positionOf_split]
  unfold segmentByte
  rw [if_neg notIn]

theorem Built.low
    (image : Built supply kernel machine after rank grown root file.inode
    (segmentsOf file) frame) (wellFormed : WellFormed file)
    (bytes : ∀ ph ∈ segmentsOf file, ∀ index < ph.pMemsz,
      ProcessMemoryMap.userByte after.memory root (ph.pVaddr + index) =
        some (fileByte file.inode ph index)) (isSegment : ph ∈ segmentsOf file)
    (positive : 0 < ph.pMemsz) : ph.pVaddr + ph.pMemsz ≤ 2 ^ 30 := by
  by_contra high
  have below := wellFormed.belowStack ph isSegment
  have found := bytes ph isSegment (ph.pMemsz - 1) (by omega)
  have pageEq := @pageOf_small (ph.pVaddr + (ph.pMemsz - 1)) (by omega)
  have notUser : ¬ UserPage (segmentsOf file) (pageOf (ph.pVaddr + (ph.pMemsz - 1))) := by
    rw [pageEq]
    rintro (isImage | isStack)
    · have small := isImage.1
      unfold areaPages at small
      omega
    · unfold stackPages pagesFrom at isStack
      omega
  unfold ProcessMemoryMap.userByte at found
  rw [image.unmapped _ (by rw [pageEq]; unfold pageLimit; omega) notUser] at found
  cases found

/-- If every run finds the bytes of the file, no segment takes a page of an earlier one. -/
theorem IdleKernel.separable (idle : IdleKernel supply kernel machine rank)
    (emptyRoot : EmptyRoot kernel machine rank context.pageMap.rootTable)
    (wellFormed : WellFormed file) (loadsImage : LoadsImage supply kernel file context machine) :
    Separable file := by
  obtain ⟨built, after, ran, bytes, -⟩ := loadsImage machine (SameButFree.refl supply machine)
  obtain ⟨loads, builtEq, grown, frame, image, -⟩ := idle.build emptyRoot ran
  have rootEq : built.pageMap.rootTable = context.pageMap.rootTable := by rw [builtEq]; rfl
  rw [rootEq] at bytes
  have low {ph : Elf64ProgramHeader} (isSegment : ph ∈ segmentsOf file) :=
    image.low wellFormed bytes isSegment
  refine ⟨loads.image, loads.arguments, fun _ isSegment => low isSegment, ?_⟩
  rw [pairwise_iff_forall_sublist]
  intro first second ordered position inFirst taken
  have isFirst : first ∈ segmentsOf file := ordered.subset mem_cons_self
  have firstLow := low isFirst (by unfold InSegment at inFirst; omega)
  have small : position < 2 ^ 30 := by
    unfold InSegment at inFirst
    omega
  have pageEq := @pageOf_small position (by omega)
  have isImage : imagePages (segmentsOf file) (pageOf position) := by
    rw [pageEq]
    exact ⟨by unfold areaPages; omega, first, isFirst, inFirst.onPage⟩
  obtain ⟨index, indexEq⟩ := Nat.exists_eq_add_of_le inFirst.1
  have inside : index < first.pMemsz := by
    have upper := inFirst.2
    omega
  obtain ⟨other, otherAfter, same, otherRan, stale⟩ := idle.stale emptyRoot ran (Or.inl isImage)
    (fun machine after grown frame image => by
      rw [image.imageBytes _ isImage _ (Nat.mod_lt _ (by decide)), pageEq,
        wellFormed.lost ordered inFirst taken]
      rfl)
    (fileByte file.inode first index + 1)
  obtain ⟨otherBuilt, otherLast, otherEq, otherBytes, -⟩ := loadsImage other same
  rw [otherRan] at otherEq
  cases otherEq
  have right := otherBytes first isFirst index inside
  rw [rootEq, ← indexEq, stale] at right
  exact absurd (Option.some.inj right) (by simp)

end Image

end NanoOs.ProcessMemoryMap
