import NanoOs.ElfLoading

/-!
# Loading the segments of an ELF file

Segment after segment is mapped to fresh frames and filled.  A page that
several segments have is the page of the last of them, and the rest of it keeps
what its frame held before.
-/

namespace NanoOs.ProcessMemoryMap

open Files KernelMemoryMap PageMapping ReadElf List

/-- The bytes in the frames of the segments loaded so far, listed from the last
to the first. -/
structure LoadedBytes (supply : FrameSupply) (start machine : Machine) (grown : Nat → Option Nat)
    (inode : Inode ByteMemory) (done : List Elf64ProgramHeader) (frame : Nat → Nat) : Prop where
  contents : ∀ page, loadPages done page → ∀ offset < 4096,
    machine.memory (frame page + offset) =
      (imageByte inode done page offset).getD (start.memory (frame page + offset))
  elsewhere : ∀ location, OutsideTables grown location →
    OutsideFresh supply start machine location → machine.memory location = start.memory location

/-- The segments that `load_elf` maps: it stops after one that the file does not
hold. -/
def attempted (inode : Inode ByteMemory) : List Elf64ProgramHeader → List Elf64ProgramHeader
  | [] => []
  | ph :: rest =>
      if ph.pType = ptLoad then ph :: (if Readable inode ph then attempted inode rest else [])
      else attempted inode rest

variable {machine : Machine} {file : File ByteMemory} {header : Elf64Header} {kernel : Kernel}
  {supply : FrameSupply}

section Step

variable {supply : FrameSupply} {kernel : Kernel} {ph : Elf64ProgramHeader}
  {done : List Elf64ProgramHeader} {start : Machine} {state middle after : LoadState}
  {rank grown : Nat → Option Nat} {frame : Nat → Nat}

theorem loadPages_cons : loadPages (ph :: done) =
    fun page => segmentPages ph page ∨ loadPages done page := by
  funext page
  simp [loadPages]

theorem KernelSpace.mapSegment (space : KernelSpace supply kernel state.machine grown)
    (ran : mapSegment supply kernel ph state = .ok middle) :
    ∃ final rest, MappedPages supply (· = kernel.lastL1Pte) state.machine middle.machine grown final
        kernel.pageMapper.rootTable loadFlags (segmentPages ph) rest ∧
      FreshContents supply state.machine middle.machine final (segmentPages ph) false rest ∧
      ∀ second, Similar grown state.machine second → ∃ secondMiddle,
        ProcessMemoryMap.mapSegment supply kernel ph { state with machine := second } =
          .ok secondMiddle ∧ Similar final middle.machine secondMiddle.machine ∧
        secondMiddle = { middle with machine := secondMiddle.machine } := by
  obtain ⟨inside, machine, loopRan, rfl⟩ := mapSegment_eq_ok.mp ran
  obtain ⟨-, -, -, ordered, -⟩ := segment_rounding inside
  have pageEq : pageOf (processLoadArea + segmentFirst ph * 4096) + 0 =
      highPage + segmentFirst ph := by
    rw [Nat.add_zero, pageOf_high (Nat.le_add_right ..), Nat.add_sub_cancel_left,
      Nat.mul_div_cancel _ (by decide)]
    unfold highPage at inside
    unfold processLoadArea wordLimit
    omega
  have pagesEq : pagesFrom (highPage + segmentFirst ph) (segmentStop ph - segmentFirst ph) =
      segmentPages ph := by
    funext page
    unfold pagesFrom segmentPages
    apply propext
    omega
  obtain ⟨final, rest, mapped, contents, again⟩ := space.spaces.allocateLoop space.isRoot
    (show loadFlags.intersects PageFlags.permissions = true from rfl) (by
      rw [pageEq]
      unfold highPage at inside ⊢
      unfold pageLimit
      omega) (by
      rw [pageEq, pagesEq]
      rintro page ⟨lower, upper⟩ raw level found
      refine (space.high page (by omega) ?_ raw level found).1
      unfold highPage at inside upper
      unfold pageLimit
      omega) loopRan
  rw [pageEq, pagesEq] at mapped contents
  refine ⟨final, rest, mapped, contents, ?_⟩
  intro second similar
  obtain ⟨secondMachine, secondRan, secondSimilar⟩ := again second similar
  exact ⟨_, mapSegment_eq_ok.mpr ⟨inside, secondMachine, secondRan, rfl⟩, secondSimilar, rfl⟩

theorem LoadedBytes.cons {inode : Inode ByteMemory} {final : Nat → Option Nat} {rest : Nat → Nat}
    {machine last : Machine}
    (mapped : MappedPages supply (· = kernel.lastL1Pte) start state.machine rank grown
      kernel.pageMapper.rootTable loadFlags (loadPages done) frame)
    (further : MappedPages supply (· = kernel.lastL1Pte) state.machine machine grown final
      kernel.pageMapper.rootTable loadFlags (segmentPages ph) rest)
    (contents : FreshContents supply state.machine machine final (segmentPages ph) false rest)
    (bytes : LoadedBytes supply start state.machine grown inode done frame)
    (allocated : last.allocated = machine.allocated)
    (filled : ∀ page, segmentPages ph page → ∀ offset < 4096,
      last.memory (rest page + offset) = (segmentByte inode ph (positionOf page offset)).getD
        (machine.memory (rest page + offset)))
    (kept : ∀ location, (∀ page, segmentPages ph page →
      location < rest page ∨ rest page + 4096 ≤ location) →
        last.memory location = machine.memory location) :
    LoadedBytes supply start last final inode (ph :: done)
      (fun page => if segmentPages ph page then rest page else frame page) := by
  have startMonotone := mapped.extends'.monotone
  have monotone := further.extends'.monotone
  have owned := further.spaces.owned
  refine ⟨?_, ?_⟩
  · intro page isLoaded offset inFrame
    by_cases isSegment : segmentPages ph page
    · obtain ⟨isFrame, number, lower, -, numberOwned, restEq⟩ :=
        mapped.rest_unused further isSegment
      have found : imageByte inode (ph :: done) page offset =
          segmentByte inode ph (positionOf page offset) := by
        unfold imageByte
        rw [find?_cons_of_pos (by simpa using isSegment)]
        rfl
      have before : machine.memory (rest page + offset) = start.memory (rest page + offset) := by
        rw [contents.contents page isSegment offset inFrame, if_neg (by decide)]
        rw [restEq] at isFrame ⊢
        refine bytes.elsewhere _ (mapped.spaces.outside_of_frame numberOwned isFrame inFrame) ?_
        intro other otherLower otherUpper
        exact supply.apart numberOwned (by omega) (by omega) inFrame
      simp only [isSegment, if_true]
      rw [filled page isSegment offset inFrame, found, before]
    · have isDone : loadPages done page := by
        rw [loadPages_cons] at isLoaded
        exact isLoaded.resolve_left isSegment
      obtain ⟨isFrame, number, -, upper, numberOwned, frameEq⟩ :=
        mapped.frame_final further isDone
      have found : imageByte inode (ph :: done) page offset = imageByte inode done page offset := by
        unfold imageByte
        rw [find?_cons_of_neg (by simpa using isSegment)]
      simp only [isSegment, if_false]
      rw [found, ← bytes.contents page isDone offset inFrame]
      rw [frameEq] at isFrame ⊢
      rw [kept, contents.elsewhere _ (further.spaces.outside_of_frame numberOwned isFrame inFrame)]
      · intro other otherLower otherUpper
        exact supply.apart numberOwned (by omega) (by omega) inFrame
      · intro other otherSegment
        obtain ⟨-, another, lower, -, anotherOwned, restEq⟩ :=
          mapped.rest_unused further otherSegment
        rw [restEq]
        exact supply.apart numberOwned anotherOwned (by omega) inFrame
  · intro location outside fresh
    rw [kept, contents.elsewhere location outside, bytes.elsewhere location
      (outside.of_extends further.extends')]
    · intro number lower upper
      exact fresh number lower (by omega)
    · intro number lower upper
      exact fresh number (by omega) (by omega)
    · intro page isSegment
      obtain ⟨-, number, lower, upper, -, restEq⟩ := mapped.rest_unused further isSegment
      rw [restEq]
      exact fresh number (by omega) (by omega)

/-- The state of loading: the pages of the segments so far, with their bytes. -/
structure Loaded (supply : FrameSupply) (kernel : Kernel) (start machine : Machine)
    (rank grown : Nat → Option Nat) (inode : Inode ByteMemory) (done : List Elf64ProgramHeader)
    (frame : Nat → Nat) : Prop where
  mapped : MappedPages supply (· = kernel.lastL1Pte) start machine rank grown
    kernel.pageMapper.rootTable loadFlags (loadPages done) frame
  bytes : LoadedBytes supply start machine grown inode done frame

theorem Loaded.none (space : KernelSpace supply kernel start rank) (inode : Inode ByteMemory) :
    Loaded supply kernel start start rank rank inode [] frame := by
  have empty : ∀ page, ¬ loadPages [] page := by simp [loadPages]
  exact ⟨MappedPages.none space.spaces empty,
    ⟨fun page isLoaded => absurd isLoaded (empty page), fun _ _ _ => rfl⟩⟩

theorem Loaded.segmentFrames {next : Machine} {inode : Inode ByteMemory}
    {final : Nat → Option Nat} {rest : Nat → Nat}
    (loaded : Loaded supply kernel start machine rank grown inode done frame)
    (space : KernelSpace supply kernel machine grown)
    (further : MappedPages supply (· = kernel.lastL1Pte) machine next grown final
      kernel.pageMapper.rootTable loadFlags (segmentPages ph) rest) :
    SegmentFrames supply kernel next.memory ph rest := by
  refine ⟨?_, ?_, further.distinct⟩
  · intro page isSegment
    exact further.hit _ space.isRoot page isSegment (Or.inl rfl)
  · intro page isSegment
    obtain ⟨-, number, -, -, owned, restEq⟩ := loaded.mapped.rest_unused further isSegment
    exact ⟨number, owned, restEq⟩

/-- Loading a segment: its pages are mapped even if the file does not hold it,
and similar machines load it alike. -/
theorem Loaded.segment (space : KernelSpace supply kernel start rank)
    (loaded : Loaded supply kernel start state.machine rank grown state.file.inode done frame)
    (mapRan : mapSegment supply kernel ph state = .ok middle) {result : Except String Unit}
    (fillRan : fillSegment kernel ph middle = .ok (after, result)) :
    ∃ final rest,
      MappedPages supply (· = kernel.lastL1Pte) start after.machine rank final
        kernel.pageMapper.rootTable loadFlags (loadPages (ph :: done)) rest ∧
      (result = .ok () → after.file.inode = state.file.inode ∧
        Loaded supply kernel start after.machine rank final state.file.inode (ph :: done) rest) ∧
      ∀ second, Similar grown state.machine second → ∃ secondMiddle secondAfter,
        mapSegment supply kernel ph { state with machine := second } = .ok secondMiddle ∧
        fillSegment kernel ph secondMiddle = .ok (secondAfter, result) ∧
        Similar final after.machine secondAfter.machine ∧
        secondAfter = { after with machine := secondAfter.machine } := by
  have stateSpace := space.mapped loaded.mapped
  have inside : segmentStop ph < highPage := (mapSegment_eq_ok.mp mapRan).1
  have fileEq : middle.file = state.file := by
    obtain ⟨-, machine, -, rfl⟩ := mapSegment_eq_ok.mp mapRan
    rfl
  obtain ⟨final, rest, further, contents, mapAgain⟩ := stateSpace.mapSegment mapRan
  have middleSpace := stateSpace.mapped further
  obtain ⟨similar, fillAgain⟩ := middleSpace.fillSegment inside fillRan
  have joined := loaded.mapped.union space.isRoot further
  rw [← loadPages_cons] at joined
  refine ⟨final, _, joined.similar similar, ?_, ?_⟩
  · rintro rfl
    have resultFacts := fillSegment_result (segment_rounding inside).2.1 fillRan
    have readable := resultFacts.1.mp rfl
    have ordered := resultFacts.2 rfl
    obtain ⟨filledState, filledRan, inodeEq, filled, kept⟩ := middleSpace.fillSegment_bytes
      (loaded.segmentFrames stateSpace further) inside readable ordered
    rw [filledRan] at fillRan
    cases fillRan
    rw [fileEq] at inodeEq filled
    exact ⟨inodeEq, joined.similar similar,
      LoadedBytes.cons loaded.mapped further contents loaded.bytes similar.allocated filled kept⟩
  · intro second secondSimilar
    obtain ⟨secondMiddle, secondMapRan, secondMapped, secondEq⟩ := mapAgain second secondSimilar
    obtain ⟨secondAfter, secondFillRan, secondFilled, secondAfterEq⟩ :=
      fillAgain secondMiddle.machine secondMapped
    refine ⟨secondMiddle, secondAfter, secondMapRan, ?_, secondFilled, secondAfterEq⟩
    rw [secondEq]
    exact secondFillRan

end Step

def loadable (headers : List Elf64ProgramHeader) : List Elf64ProgramHeader :=
  headers.filter fun ph => ph.pType = ptLoad

/-- The base address that `load_elf` returns. -/
def baseOf (segments : List Elf64ProgramHeader) (base : Nat) : Nat :=
  segments.foldl (fun base ph => if ph.pOffset = 0 then ph.pVaddr else base) base

/-- The end of the image that `load_elf` returns. -/
def heapOf (segments : List Elf64ProgramHeader) (heap : Nat) : Nat :=
  segments.foldl (fun heap ph => max heap (segmentStop ph * 4096)) heap

def pageTotal (segments : List Elf64ProgramHeader) : Nat :=
  (segments.map fun ph => segmentStop ph - segmentFirst ph).sum

section Heap

variable {segments : List Elf64ProgramHeader}

theorem le_heapOf (segments : List Elf64ProgramHeader) (heap : Nat) :
    heap ≤ heapOf segments heap := by
  induction segments generalizing heap with
  | nil => exact le_rfl
  | cons ph rest ih => exact (Nat.le_max_left _ _).trans (ih _)

theorem segment_le_heapOf (heap : Nat) {ph : Elf64ProgramHeader} (isSegment : ph ∈ segments) :
    segmentStop ph * 4096 ≤ heapOf segments heap := by
  induction segments generalizing heap with
  | nil => cases isSegment
  | cons first rest ih =>
    rcases mem_cons.mp isSegment with rfl | later
    · exact (Nat.le_max_right _ _).trans (le_heapOf rest _)
    · exact ih _ later

theorem heapOf_cases (segments : List Elf64ProgramHeader) (heap : Nat) :
    heapOf segments heap = heap ∨ ∃ ph ∈ segments,
      heapOf segments heap = segmentStop ph * 4096 := by
  induction segments generalizing heap with
  | nil => exact Or.inl rfl
  | cons first rest ih =>
    rcases ih (max heap (segmentStop first * 4096)) with isStart | ⟨ph, isSegment, heapEq⟩
    · rcases max_choice heap (segmentStop first * 4096) with isHeap | isFirst
      · exact Or.inl (isStart.trans isHeap)
      · exact Or.inr ⟨first, mem_cons_self, isStart.trans isFirst⟩
    · exact Or.inr ⟨ph, mem_cons_of_mem _ isSegment, heapEq⟩

end Heap

def Fits (inode : Inode ByteMemory) (ph : Elf64ProgramHeader) : Prop :=
  segmentStop ph < highPage ∧ Readable inode ph ∧ ph.pFilesz ≤ ph.pMemsz

instance (inode : Inode ByteMemory) (ph : Elf64ProgramHeader) : Decidable (Fits inode ph) :=
  inferInstanceAs (Decidable (_ ∧ _))

section Loop

variable {supply : FrameSupply} {kernel : Kernel} {ph : Elf64ProgramHeader}
  {headers done : List Elf64ProgramHeader} {start : Machine} {state after : LoadState}
  {rank grown : Nat → Option Nat} {frame : Nat → Nat}

theorem loadable_cons_load (isLoad : ph.pType = ptLoad) :
    loadable (ph :: headers) = ph :: loadable headers :=
  filter_cons_of_pos (by simpa using isLoad)

theorem loadable_cons_other (notLoad : ¬ ph.pType = ptLoad) :
    loadable (ph :: headers) = loadable headers :=
  filter_cons_of_neg (by simpa using notLoad)

/-- What `load_elf` leaves, whether or not the file holds all segments. -/
structure LoadRun (supply : FrameSupply) (kernel : Kernel) (headers done : List Elf64ProgramHeader)
    (start : Machine) (state after : LoadState) (rank grown final : Nat → Option Nat)
    (result : Except String (Nat × Nat)) (rest : Nat → Nat) : Prop where
  mapped : MappedPages supply (· = kernel.lastL1Pte) start after.machine rank final
    kernel.pageMapper.rootTable loadFlags
    (loadPages ((attempted state.file.inode headers).reverse ++ done)) rest
  inside : ∀ ph ∈ attempted state.file.inode headers, segmentStop ph < highPage
  success : ∀ values, result = .ok values →
    (∀ ph ∈ loadable headers, Fits state.file.inode ph) ∧
    values = (baseOf (loadable headers) state.baseVaddr,
      heapOf (loadable headers) state.heapStart) ∧
    Loaded supply kernel start after.machine rank final state.file.inode
      ((loadable headers).reverse ++ done) rest
  again : ∀ second, Similar grown state.machine second → ∃ secondAfter,
    loadSegments supply kernel headers { state with machine := second } =
      .ok (secondAfter, result) ∧ Similar final after.machine secondAfter.machine

section Cases

variable {middle : LoadState} {final : Nat → Option Nat} {result : Except String (Nat × Nat)}
  {rest : Nat → Nat}

theorem LoadRun.other (notLoad : ¬ ph.pType = ptLoad)
    (run : LoadRun supply kernel headers done start state after rank grown final result rest) :
    LoadRun supply kernel (ph :: headers) done start state after rank grown final result rest := by
  have attemptedEq : attempted state.file.inode (ph :: headers) =
      attempted state.file.inode headers := by
    rw [attempted, if_neg notLoad]
  refine ⟨?_, ?_, ?_, ?_⟩
  · rw [attemptedEq]
    exact run.mapped
  · rw [attemptedEq]
    exact run.inside
  · rw [loadable_cons_other notLoad]
    exact run.success
  · intro second similar
    rw [loadSegments, if_neg notLoad]
    exact run.again second similar

theorem LoadRun.failed (isLoad : ph.pType = ptLoad) {message : String}
    (unreadable : ¬ Readable state.file.inode ph) (inside : segmentStop ph < highPage)
    (mapped : MappedPages supply (· = kernel.lastL1Pte) start after.machine rank final
      kernel.pageMapper.rootTable loadFlags (loadPages (ph :: done)) rest)
    (again : ∀ second, Similar grown state.machine second → ∃ secondMiddle secondAfter,
      mapSegment supply kernel ph { state with machine := second } = .ok secondMiddle ∧
      fillSegment kernel ph secondMiddle = .ok (secondAfter, .error message) ∧
      Similar final after.machine secondAfter.machine ∧
      secondAfter = { after with machine := secondAfter.machine }) :
    LoadRun supply kernel (ph :: headers) done start state after rank grown final
      (.error message) rest := by
  have attemptedEq : attempted state.file.inode (ph :: headers) = [ph] := by
    rw [attempted, if_pos isLoad, if_neg unreadable]
  refine ⟨?_, ?_, nofun, ?_⟩
  · rw [attemptedEq]
    exact mapped
  · rw [attemptedEq]
    intro other member
    obtain rfl := mem_singleton.mp member
    exact inside
  · intro second similar
    obtain ⟨secondMiddle, secondAfter, secondMapRan, secondFillRan, secondSimilar, -⟩ :=
      again second similar
    refine ⟨secondAfter, ?_, secondSimilar⟩
    rw [loadSegments, if_pos isLoad, secondMapRan, ok_bind, secondFillRan]
    rfl

theorem LoadRun.load (isLoad : ph.pType = ptLoad) (fits : Fits state.file.inode ph)
    {next : Nat → Option Nat} (inodeEq : middle.file.inode = state.file.inode)
    (baseEq : middle.baseVaddr = if ph.pOffset = 0 then ph.pVaddr else state.baseVaddr)
    (heapEq : middle.heapStart = max state.heapStart (segmentStop ph * 4096))
    (again : ∀ second, Similar grown state.machine second → ∃ secondMiddle secondAfter,
      mapSegment supply kernel ph { state with machine := second } = .ok secondMiddle ∧
      fillSegment kernel ph secondMiddle = .ok (secondAfter, .ok ()) ∧
      Similar next middle.machine secondAfter.machine ∧
      secondAfter = { middle with machine := secondAfter.machine })
    (run : LoadRun supply kernel headers (ph :: done) start middle after rank next final result
      rest) :
    LoadRun supply kernel (ph :: headers) done start state after rank grown final result rest := by
  have attemptedEq : attempted state.file.inode (ph :: headers) =
      ph :: attempted state.file.inode headers := by
    rw [attempted, if_pos isLoad, if_pos fits.2.1]
  obtain ⟨runMapped, runInside, runSuccess, runAgain⟩ := run
  rw [inodeEq] at runMapped runInside runSuccess
  refine ⟨?_, ?_, ?_, ?_⟩
  · rw [attemptedEq, reverse_cons, append_assoc]
    exact runMapped
  · rw [attemptedEq]
    exact forall_mem_cons.mpr ⟨fits.1, runInside⟩
  · intro values resultEq
    obtain ⟨restFits, valuesEq, lastLoaded⟩ := runSuccess values resultEq
    rw [loadable_cons_load isLoad, reverse_cons, append_assoc]
    refine ⟨forall_mem_cons.mpr ⟨fits, restFits⟩, ?_, lastLoaded⟩
    rw [valuesEq, baseEq, heapEq]
    rfl
  · intro second similar
    obtain ⟨secondMiddle, secondFilled, secondMapRan, secondFillRan, secondSimilar, secondEq⟩ :=
      again second similar
    obtain ⟨secondAfter, secondRan, lastSimilar⟩ := runAgain _ secondSimilar
    refine ⟨secondAfter, ?_, lastSimilar⟩
    rw [loadSegments, if_pos isLoad, secondMapRan, ok_bind, secondFillRan, ok_bind, secondEq]
    exact secondRan

end Cases

theorem Loaded.segments (space : KernelSpace supply kernel start rank)
    (loaded : Loaded supply kernel start state.machine rank grown state.file.inode done frame)
    {result : Except String (Nat × Nat)}
    (ran : loadSegments supply kernel headers state = .ok (after, result)) :
    ∃ final rest, LoadRun supply kernel headers done start state after rank grown final result
      rest := by
  induction headers generalizing state done grown frame with
  | nil =>
    cases ran
    refine ⟨grown, frame, loaded.mapped, nofun, ?_, ?_⟩
    · rintro values ⟨⟩
      exact ⟨nofun, rfl, loaded⟩
    · exact fun second similar => ⟨_, rfl, similar⟩
  | cons ph headers ih =>
    rw [loadSegments] at ran
    by_cases isLoad : ph.pType = ptLoad
    · rw [if_pos isLoad] at ran
      obtain ⟨middle, mapRan, ran⟩ := bind_eq_ok.mp ran
      obtain ⟨⟨filled, segmentResult⟩, fillRan, ran⟩ := bind_eq_ok.mp ran
      have inside : segmentStop ph < highPage := (mapSegment_eq_ok.mp mapRan).1
      obtain ⟨next, rest, mapped, filledLoaded, again⟩ := loaded.segment space mapRan fillRan
      have resultFacts := fillSegment_result (segment_rounding inside).2.1 fillRan
      obtain ⟨baseEq, heapEq⟩ := fillSegment_values (segment_rounding inside).2.1 fillRan
      obtain ⟨-, machine, -, rfl⟩ := mapSegment_eq_ok.mp mapRan
      cases segmentResult with
      | error message =>
        cases ran
        have unreadable : ¬ Readable state.file.inode ph := fun readable =>
          absurd (resultFacts.1.mpr readable) nofun
        exact ⟨next, rest, .failed isLoad unreadable inside mapped again⟩
      | ok value =>
        obtain ⟨inodeEq, nextLoaded⟩ := filledLoaded rfl
        rw [← inodeEq] at nextLoaded
        obtain ⟨final, last, run⟩ := ih nextLoaded ran
        exact ⟨final, last, .load isLoad ⟨inside, resultFacts.1.mp rfl, resultFacts.2 rfl⟩
          inodeEq baseEq heapEq again run⟩
    · rw [if_neg isLoad] at ran
      obtain ⟨final, last, run⟩ := ih loaded ran
      exact ⟨final, last, .other isLoad run⟩

theorem Loaded.segments_total (space : KernelSpace supply kernel start rank)
    (loaded : Loaded supply kernel start state.machine rank grown state.file.inode done frame)
    (fits : ∀ ph ∈ loadable headers, Fits state.file.inode ph)
    (enough : state.machine.allocated + 3 * pageTotal (loadable headers) ≤ supply.owned) :
    ∃ after values, loadSegments supply kernel headers state = .ok (after, .ok values) ∧
      after.machine.allocated ≤ state.machine.allocated + 3 * pageTotal (loadable headers) := by
  induction headers generalizing state done grown frame with
  | nil => exact ⟨state, _, rfl, Nat.le_add_right ..⟩
  | cons ph headers ih =>
    rw [loadSegments]
    by_cases isLoad : ph.pType = ptLoad
    · have total : pageTotal (loadable (ph :: headers)) =
          segmentStop ph - segmentFirst ph + pageTotal (loadable headers) := by
        rw [loadable_cons_load isLoad]
        rfl
      rw [loadable_cons_load isLoad] at fits
      obtain ⟨inside, readable, ordered⟩ := fits ph (mem_cons_self ..)
      have addresses : processLoadArea + segmentFirst ph * 4096 +
          (0 + (segmentStop ph - segmentFirst ph)) * 4096 < 2 ^ 64 := by
        obtain ⟨-, -, loadFits, segmentOrdered, -⟩ := segment_rounding inside
        omega
      have aligned : (processLoadArea + segmentFirst ph * 4096) % 4096 = 0 := by
        unfold processLoadArea
        omega
      obtain ⟨machine, loopRan, loopBound⟩ := @allocateLoop_total supply kernel.pageMapper
        loadFlags false _ _ 0 state.machine (by omega) aligned addresses
      have mapRan := mapSegment_eq_ok.mpr ⟨inside, machine, loopRan, rfl⟩
      have stateSpace := space.mapped loaded.mapped
      obtain ⟨final, rest, further, contents, -⟩ := stateSpace.mapSegment mapRan
      have middleSpace := stateSpace.mapped further
      obtain ⟨filled, fillRan, inodeEq, -, -⟩ := middleSpace.fillSegment_bytes
        (loaded.segmentFrames stateSpace further) inside readable ordered
      obtain ⟨similar, -⟩ := middleSpace.fillSegment inside fillRan
      have filledAllocated : filled.machine.allocated = machine.allocated := similar.allocated
      obtain ⟨next, nextFrame, -, nextLoaded, -⟩ := loaded.segment space mapRan fillRan
      obtain ⟨nextInode, nextLoaded⟩ := nextLoaded rfl
      rw [← nextInode] at nextLoaded
      obtain ⟨after, values, ran, bounded⟩ := ih nextLoaded (by
        rw [nextInode]
        exact fun other member => fits other (mem_cons_of_mem _ member)) (by omega)
      refine ⟨after, values, ?_, by omega⟩
      rw [if_pos isLoad, mapRan, ok_bind, fillRan, ok_bind]
      exact ran
    · rw [loadable_cons_other isLoad] at fits enough ⊢
      rw [if_neg isLoad]
      exact ih loaded fits enough

end Loop

def HeadersReadable (inode : Inode ByteMemory) (header : Elf64Header) : Prop :=
  min header.ePhoff inode.len + header.ePhnum * elf64ProgramHeaderSize ≤ inode.len

instance (inode : Inode ByteMemory) (header : Elf64Header) :
    Decidable (HeadersReadable inode header) :=
  inferInstanceAs (Decidable (_ ≤ _))

def fileHeaders (inode : Inode ByteMemory) (header : Elf64Header) : List Elf64ProgramHeader :=
  programHeaders inode.fsData (min header.ePhoff inode.len) header.ePhnum

/-- The state in which `load_elf` starts with the segments. -/
def loadStart (file : File ByteMemory) (header : Elf64Header) (machine : Machine) : LoadState where
  machine := machine
  file := { file with
    offset := min header.ePhoff file.inode.len + header.ePhnum * elf64ProgramHeaderSize }
  baseVaddr := wordLimit - 1
  heapStart := 0

theorem loadElf_eq (readable : HeadersReadable file.inode header) :
    loadElf supply kernel file header machine =
      loadSegments supply kernel (fileHeaders file.inode header)
        (loadStart file header machine) := by
  unfold loadElf readProgramHeaders
  rw [@readHeaderLoop_of_le (seekStart file header.ePhoff) header.ePhnum [] readable, ok_bind]
  rfl

theorem headersReadable_of_loadElf {outcome : LoadState × Except String (Nat × Nat)}
    (ran : loadElf supply kernel file header machine = .ok outcome) :
    HeadersReadable file.inode header := by
  by_contra unreadable
  obtain ⟨after, short⟩ := @readHeaderLoop_of_lt (seekStart file header.ePhoff) header.ePhnum []
    (Nat.min_le_right ..) (Nat.lt_of_not_le unreadable)
  unfold loadElf readProgramHeaders at ran
  rw [short] at ran
  cases ran

theorem KernelSpace.load_run {rank : Nat → Option Nat}
    (space : KernelSpace supply kernel machine rank) {state : LoadState}
    {result : Except String (Nat × Nat)}
    (ran : loadElf supply kernel file header machine = .ok (state, result)) :
    ∃ grown frame, LoadRun supply kernel (fileHeaders file.inode header) [] machine
      (loadStart file header machine) state rank rank grown result frame := by
  rw [loadElf_eq (headersReadable_of_loadElf ran)] at ran
  exact (@Loaded.none supply kernel machine rank (fun _ => 0) space file.inode).segments space ran

theorem KernelSpace.load_total {supply : FrameSupply} {kernel : Kernel} {file : File ByteMemory}
    {header : Elf64Header} {machine : Machine} {rank : Nat → Option Nat}
    (space : KernelSpace supply kernel machine rank) (readable : HeadersReadable file.inode header)
    (fits : ∀ ph ∈ loadable (fileHeaders file.inode header), Fits file.inode ph)
    (enough : machine.allocated + 3 * pageTotal (loadable (fileHeaders file.inode header)) ≤
      supply.owned) :
    ∃ state values, loadElf supply kernel file header machine = .ok (state, .ok values) ∧
      state.machine.allocated ≤ machine.allocated +
        3 * pageTotal (loadable (fileHeaders file.inode header)) := by
  have start := @Loaded.none supply kernel machine rank (fun _ => 0) space file.inode
  rw [loadElf_eq readable]
  exact @Loaded.segments_total supply kernel (fileHeaders file.inode header) [] machine
    (loadStart file header machine) rank rank (fun _ => 0) space start fits enough

end NanoOs.ProcessMemoryMap
