import NanoOs.KernelAllocatorRuns

/-!
# Safety of the kernel allocator

Well-formedness of the heap and separation of live allocations in every state
of a run whose aligned splits fit, complete coalescing in runs of word-aligned
requests, and runs that show what an aligned split of an inner block breaks.
-/

namespace NanoOs.KernelAllocator

open List

variable {region : HeapRegion} {memory : ByteMemory} {client next : Client}
  {heap : LinkedListAllocator} {following this : Nat} {nodes : List Nat} {map : BlockMap}

theorem HeapRegion.sound_boot (region : HeapRegion) (memory : ByteMemory)
    (started : LinkedListAllocator.init memory region.start region.size = .ok heap) :
    ∃ map, Client.Sound ⟨heap, []⟩ map ∧ map.Coalesced ∧ heap.head = region.start := by
  obtain ⟨headEq, holds⟩ := region.holds_init memory started
  refine ⟨_, ⟨holds, by simp, ?_, by simp, by simp⟩, isChain_singleton _, headEq⟩
  rintro this ⟨-, isUsed⟩
  cases isUsed

theorem Reaches.sound (reached : Reaches Client.Fits region memory client) :
    ∃ map, client.Sound map ∧ client.heap.head = region.start := by
  induction reached with
  | boot started =>
    obtain ⟨map, sound, -, headEq⟩ := region.sound_boot memory started
    exact ⟨map, sound, headEq⟩
  | call _ fits performed ih =>
    obtain ⟨map, sound, headEq⟩ := ih
    obtain ⟨later, soundLater, sameHead, -⟩ := sound.step fits performed
    exact ⟨later, soundLater, sameHead.trans headEq⟩

theorem Reaches.coalesced
    (reached : Reaches (fun _ call => call.WordAligned) region memory client) :
    ∃ map, client.Sound map ∧ map.Coalesced ∧ client.heap.head = region.start := by
  induction reached with
  | boot started => exact region.sound_boot memory started
  | call _ small performed ih =>
    obtain ⟨map, sound, coalesced, headEq⟩ := ih
    obtain ⟨later, soundLater, sameHead, stays⟩ :=
      sound.step (sound.fits_of_wordAligned small) performed
    exact ⟨later, soundLater, stays coalesced, sameHead.trans headEq⟩

/-- In every state of a run whose aligned splits fit, the blocks tile the heap,
all physical and free links match, and the free list holds exactly the unused
blocks. -/
theorem wellFormed_of_reaches (reached : Reaches Client.Fits region memory client) :
    WellFormed client.heap := by
  obtain ⟨map, sound, -⟩ := reached.sound
  obtain ⟨frees, wellFormed⟩ := sound.holds.wellFormedWith
  exact ⟨map.blocks, frees, wellFormed⟩

/-- A heap of 1024 bytes at the start of the kernel heap. -/
def smallRegion : HeapRegion where
  start := heapStart
  size := 1024
  aligned := by decide
  whole := by decide
  enough := by decide
  reached := by decide
  bounded := by decide

def smallHeap : LinkedListAllocator where
  memory := BlockHeader.store (fun _ => 0) heapStart (BlockHeader.new 1008 false)
  head := heapStart
  tail := heapStart
  heapEnd := heapStart + 1024
  freeHead := heapStart

def wordLayout (size : Nat) (nonzero : 0 < size) (bounded : size ≤ 2 ^ 32) : Layout where
  size := size
  align := 8
  nonzero := nonzero
  powerOfTwo := ⟨3, rfl⟩
  bounded := by omega

def lineLayout : Layout where
  size := 64
  align := 64
  nonzero := by decide
  powerOfTwo := ⟨6, rfl⟩
  bounded := by decide

theorem smallHeap_boot (allowed : Client → Call → Prop) :
    Reaches allowed smallRegion (fun _ => 0) ⟨smallHeap, []⟩ :=
  Reaches.boot rfl

/-- The first request for a 64-byte line divides the whole heap, which fits. -/
theorem smallHeap_fits : Client.Fits ⟨smallHeap, []⟩ (.alloc none lineLayout) := by
  intro block location middle outcome different
  have evaluated : ((smallHeap.findFit (growBy smallHeap.heapEnd none) lineLayout).map
      fun (found, heap) => (found, heap.tail, (heap.header heapStart).size)) =
      .ok (some (heapStart, heapStart + 48), heapStart, 1008) := by
    decide +kernel
  rw [outcome] at evaluated
  obtain ⟨foundEq, rest⟩ := Prod.mk.inj (Except.ok.inj evaluated)
  cases foundEq
  obtain ⟨tailEq, sizeEq⟩ := Prod.mk.inj rest
  refine ⟨tailEq.symm, ?_⟩
  rw [sizeEq]
  decide

theorem wellFormed_after_line : ∃ client,
    Client.perform ⟨smallHeap, []⟩ (.alloc none lineLayout) = some client ∧
      WellFormed client.heap := by
  have evaluated :
      (Client.perform ⟨smallHeap, []⟩ (.alloc none lineLayout)).isSome = true := by
    decide +kernel
  obtain ⟨client, performed⟩ := Option.isSome_iff_exists.mp evaluated
  exact ⟨client, performed, wellFormed_of_reaches
    ((smallHeap_boot Client.Fits).call smallHeap_fits performed)⟩

/-- Calls that make room in front of a used block and take an aligned line
from it. -/
def innerSplit : List Call :=
  [.alloc none (wordLayout 256 (by decide) (by decide)),
    .alloc none (wordLayout 32 (by decide) (by decide)),
    .dealloc (heapStart + 16),
    .alloc none lineLayout]

private theorem Walks.next_mem {next : Nat → Checked Nat} {first target : Nat}
    (walks : Walks next first nodes target) (member : this ∈ nodes)
    (step : next this = .ok following) (notEnd : following ≠ target) : following ∈ nodes := by
  induction nodes generalizing first with
  | nil => cases member
  | cons node rest ih =>
    obtain ⟨-, reached, reachedEq, walks⟩ := walks
    rcases mem_cons.mp member with rfl | inRest
    · obtain rfl := Except.ok.inj (reachedEq.symm.trans step)
      cases rest with
      | nil => exact absurd walks notEnd
      | cons second rest =>
        rw [walks.1]
        simp
    · exact mem_cons_of_mem node (ih walks inRest)

private theorem WellFormedWith.prev_next {blocks frees : List Nat}
    (wellFormed : WellFormedWith heap blocks frees) (member : this ∈ blocks)
    (step : (heap.header this).next this = .ok following) (notEnd : following ≠ heap.heapEnd) :
    (heap.header following).prev = .ok this := by
  have tiles := wellFormed.tiles
  have prevs := wellFormed.prevs
  generalize heap.head = first at tiles
  generalize (0 : Nat) = before at prevs
  clear wellFormed
  induction blocks generalizing first before with
  | nil => cases member
  | cons node rest ih =>
    obtain ⟨-, reached, reachedEq, tiles⟩ := tiles
    obtain ⟨-, prevs⟩ := prevs
    rcases mem_cons.mp member with rfl | inRest
    · obtain rfl := Except.ok.inj (reachedEq.symm.trans step)
      cases rest with
      | nil => exact absurd tiles notEnd
      | cons second rest =>
        rw [tiles.1]
        exact prevs.1
    · exact ih inRest reached tiles node prevs

/-- Taking an aligned line from a block in front of a used one leaves the
predecessor link of the used block stale. -/
theorem innerSplit_not_wellFormed : ∃ client,
    Reaches (fun _ _ => True) smallRegion (fun _ => 0) client ∧ ¬ WellFormed client.heap := by
  have evaluated : (Client.run ⟨smallHeap, []⟩ innerSplit).any (fun client => decide (
      client.heap.head = heapStart ∧ client.heap.heapEnd = heapStart + 1024 ∧
      (client.heap.header heapStart).next heapStart = .ok (heapStart + 48) ∧
      (client.heap.header (heapStart + 48)).next (heapStart + 48) = .ok (heapStart + 128) ∧
      (client.heap.header (heapStart + 128)).next (heapStart + 128) = .ok (heapStart + 272) ∧
      (client.heap.header (heapStart + 272)).prev = .ok heapStart)) = true := by
    decide +kernel
  obtain ⟨client, ran, facts⟩ := (Option.any_eq_true _ _).mp evaluated
  obtain ⟨headEq, endEq, first, second, third, stale⟩ := of_decide_eq_true facts
  refine ⟨client, (smallHeap_boot _).run (fun _ _ _ _ => trivial) ran, ?_⟩
  rintro ⟨blocks, frees, wellFormed⟩
  have headMember : heapStart ∈ blocks := by
    have tiles := wellFormed.tiles
    cases blocks with
    | nil =>
      have equal : client.heap.head = client.heap.heapEnd := tiles
      rw [headEq, endEq] at equal
      exact absurd equal (by decide)
    | cons block rest => simp [← headEq, tiles.1]
  have secondMember := wellFormed.tiles.next_mem headMember first (by rw [endEq]; decide)
  have thirdMember := wellFormed.tiles.next_mem secondMember second (by rw [endEq]; decide)
  have expected := wellFormed.prev_next thirdMember third (by rw [endEq]; decide)
  rw [stale] at expected
  exact absurd (Except.ok.inj expected) (by decide)

private theorem Client.Sound.disjoint (sound : client.Sound map) :
    client.live.Pairwise fun first second =>
      ∀ address, ¬ (first.Owns address ∧ second.Owns address) := by
  have distinct := pairwise_map.mp sound.distinct
  refine distinct.imp_of_mem ?_
  rintro first second firstMember secondMember different address
    ⟨⟨firstLower, firstUpper⟩, secondLower, secondUpper⟩
  obtain ⟨this, thisMember, thisEq, thisEnd⟩ := sound.owns_payload firstMember
  obtain ⟨other, otherMember, otherEq, otherEnd⟩ := sound.owns_payload secondMember
  have apart := sound.holds.apart thisMember otherMember (by omega)
  omega

/-- In every state of a run whose aligned splits fit: live allocations are
pairwise disjoint, aligned, inside the heap and clear of every block header, and
a call of the allocator changes no byte of an allocation that stays live. -/
theorem live_allocations_apart (reached : Reaches Client.Fits region memory client) :
    (client.live.Pairwise fun first second =>
      ∀ address, ¬ (first.Owns address ∧ second.Owns address)) ∧
    (∀ allocation ∈ client.live, allocation.ptr % allocation.layout.align = 0 ∧
      ∀ address, allocation.Owns address →
        region.start ≤ address ∧ address < client.heap.heapEnd) ∧
    (∃ blocks frees, WellFormedWith client.heap blocks frees ∧
      ∀ this ∈ blocks, ∀ allocation ∈ client.live, ∀ address, allocation.Owns address →
        address < this ∨ this + blockHeaderSize ≤ address) ∧
    (∀ pages layout next, client.Fits (.alloc pages layout) →
      client.perform (.alloc pages layout) = some next → client.Preserves next) ∧
    ∀ ptr next, client.perform (.dealloc ptr) = some next → client.Preserves next := by
  obtain ⟨map, sound, headEq⟩ := reached.sound
  obtain ⟨frees, wellFormed⟩ := sound.holds.wellFormedWith
  refine ⟨sound.disjoint, ?_, ⟨map.blocks, frees, wellFormed, ?_⟩, ?_, ?_⟩
  · intro allocation member
    refine ⟨sound.aligned allocation member, ?_⟩
    rintro address ⟨lower, upper⟩
    obtain ⟨this, inBlocks, ptrEq, finish⟩ := sound.owns_payload member
    have first := sound.holds.head_le inBlocks
    have last := sound.holds.following_le inBlocks
    omega
  · rintro this inBlocks allocation member address ⟨lower, upper⟩
    obtain ⟨block, blockMember, ptrEq, finish⟩ := sound.owns_payload member
    exact sound.holds.payload_apart blockMember inBlocks (by omega) (by omega)
  · intro pages layout next fits performed
    obtain ⟨later, -, -, -, preserves⟩ := sound.alloc fits performed
    exact preserves
  · intro ptr next performed
    obtain ⟨later, -, -, -, preserves⟩ := sound.dealloc performed
    exact preserves

/-- A line taken from the fresh heap, and words taken next to it. -/
theorem line_apart : ∃ client next,
    Client.perform ⟨smallHeap, []⟩ (.alloc none lineLayout) = some client ∧
      client.perform (.alloc none (wordLayout 32 (by decide) (by decide))) = some next ∧
      next.live.map Allocation.ptr = [heapStart + 144, heapStart + 64] ∧
      (next.live.Pairwise fun first second =>
        ∀ address, ¬ (first.Owns address ∧ second.Owns address)) ∧
      client.Preserves next := by
  have evaluated : ((Client.perform ⟨smallHeap, []⟩ (.alloc none lineLayout)).bind fun client =>
      client.perform (.alloc none (wordLayout 32 (by decide) (by decide)))).any (fun next =>
        next.live.map Allocation.ptr = [heapStart + 144, heapStart + 64]) = true := by
    decide +kernel
  obtain ⟨next, ran, ptrs⟩ := (Option.any_eq_true _ _).mp evaluated
  obtain ⟨client, performed, nextPerformed⟩ := Option.bind_eq_some_iff.mp ran
  have reached := (smallHeap_boot Client.Fits).call smallHeap_fits performed
  obtain ⟨map, sound, -⟩ := reached.sound
  have fits : client.Fits (.alloc none (wordLayout 32 (by decide) (by decide))) :=
    sound.fits_of_wordAligned (Nat.le_refl 8)
  exact ⟨client, next, performed, nextPerformed, of_decide_eq_true ptrs,
    (live_allocations_apart (reached.call fits nextPerformed)).1,
    (live_allocations_apart reached).2.2.2.1 none _ next fits nextPerformed⟩

/-- Freeing the used block behind the stale link merges over the line, which
is then handed out a second time. -/
theorem innerSplit_overlap : ∃ client first second address,
    Reaches (fun _ _ => True) smallRegion (fun _ => 0) client ∧
      client.live = [first, second] ∧ first.Owns address ∧ second.Owns address := by
  have evaluated : (Client.run ⟨smallHeap, []⟩ (innerSplit ++
      [.dealloc (heapStart + 288), .alloc none (wordLayout 200 (by decide) (by decide))])).any
      (fun client => decide (client.live.length = 2 ∧
        ∀ allocation ∈ client.live, allocation.Owns (heapStart + 64))) = true := by
    decide +kernel
  obtain ⟨client, ran, facts⟩ := (Option.any_eq_true _ _).mp evaluated
  obtain ⟨lengthEq, owns⟩ := of_decide_eq_true facts
  obtain ⟨first, second, liveEq⟩ := length_eq_two.mp lengthEq
  have reached := (smallHeap_boot fun _ _ => True).run (fun _ _ _ _ => trivial) ran
  rw [liveEq] at owns
  exact ⟨client, first, second, _, reached, liveEq, owns first (by simp), owns second (by simp)⟩

private theorem BlockMap.Coalesced.single (coalesced : map.Coalesced)
    (unused : ∀ this, ¬ map.IsUsed this) (nonempty : map.blocks ≠ []) :
    ∃ this, map.blocks = [this] := by
  obtain ⟨blocks, size, used⟩ := map
  match blocks, nonempty with
  | [this], _ => exact ⟨this, rfl⟩
  | first :: second :: rest, _ =>
    have separated := (isChain_cons_cons.mp coalesced).1
    rcases separated with firstUsed | secondUsed
    · exact absurd ⟨by simp, firstUsed⟩ (unused first)
    · exact absurd ⟨by simp, secondUsed⟩ (unused second)

private theorem eq_singleton (nodup : nodes.Nodup) (exact : ∀ other, other ∈ nodes ↔ other = this) :
    nodes = [this] := by
  have same : nodes.Perm [this] :=
    (perm_ext_iff_of_nodup nodup (nodup_singleton this)).mpr (by simpa using exact)
  exact perm_singleton.mp same

/-- In every state of a run of word-aligned requests no two neighbouring
blocks are free; once nothing is live, the heap is a single free block. -/
theorem coalesced_of_reaches
    (reached : Reaches (fun _ call => call.WordAligned) region memory client) :
    ∃ blocks frees, WellFormedWith client.heap blocks frees ∧
      (blocks.IsChain fun first second =>
        ¬ ((client.heap.header first).isFree = true ∧
          (client.heap.header second).isFree = true)) ∧
      (client.live = [] →
        blocks = [client.heap.head] ∧ frees = [client.heap.head] ∧
        (client.heap.header client.heap.head).isFree = true ∧
        (client.heap.header client.heap.head).size =
          client.heap.heapEnd - client.heap.head - blockHeaderSize) := by
  obtain ⟨map, sound, coalesced, -⟩ := reached.coalesced
  obtain ⟨frees, wellFormed⟩ := sound.holds.wellFormedWith
  refine ⟨map.blocks, frees, wellFormed, coalesced.imp_of_mem_imp ?_, ?_⟩
  · rintro first second firstMember secondMember separated ⟨firstFree, secondFree⟩
    rw [sound.holds.header_isFree firstMember] at firstFree
    rw [sound.holds.header_isFree secondMember] at secondFree
    simp_all
  · intro nothingLive
    have unused : ∀ this, ¬ map.IsUsed this := by
      intro this isUsed
      obtain ⟨allocation, member, -⟩ := sound.owned this isUsed
      simp [nothingLive] at member
    have nonempty : map.blocks ≠ [] := by
      intro empty
      have last := wellFormed.lastIsTail
      simp [empty] at last
    obtain ⟨this, single⟩ := coalesced.single unused nonempty
    have tiles := wellFormed.tiles
    rw [single] at tiles
    obtain ⟨headEq, following, nextEq, endEq⟩ := tiles
    subst headEq
    have member : client.heap.head ∈ map.blocks := by simp [single]
    have isFree : map.used client.heap.head = false := by
      simpa using fun isUsed => unused client.heap.head ⟨member, isUsed⟩
    have endEq : following = client.heap.heapEnd := endEq
    have nextEq := Except.ok.inj ((sound.holds.header_next member).symm.trans nextEq)
    refine ⟨single, eq_singleton wellFormed.nodup ?_, ?_, ?_⟩
    · intro other
      rw [wellFormed.free, single]
      constructor
      · rintro ⟨isHead, -⟩
        simpa using isHead
      · rintro rfl
        exact ⟨by simp, by rw [sound.holds.header_isUsed member, isFree]⟩
    · rw [sound.holds.header_isFree member, isFree]
      rfl
    · rw [sound.holds.header_size member]
      unfold blockHeaderSize
      omega

/-- Two allocations freed in order leave the small heap as it was. -/
theorem smallHeap_restored : ∃ client,
    Client.run ⟨smallHeap, []⟩
      [.alloc none (wordLayout 256 (by decide) (by decide)),
        .alloc none (wordLayout 32 (by decide) (by decide)),
        .dealloc (heapStart + 16), .dealloc (heapStart + 288)] = some client ∧
      client.live = [] ∧
      ∃ blocks frees, WellFormedWith client.heap blocks frees ∧
        blocks = [client.heap.head] ∧ frees = [client.heap.head] := by
  have evaluated : (Client.run ⟨smallHeap, []⟩
      [.alloc none (wordLayout 256 (by decide) (by decide)),
        .alloc none (wordLayout 32 (by decide) (by decide)),
        .dealloc (heapStart + 16), .dealloc (heapStart + 288)]).any
      (fun client => client.live.isEmpty) = true := by
    decide +kernel
  obtain ⟨client, ran, empty⟩ := (Option.any_eq_true _ _).mp evaluated
  have nothingLive : client.live = [] := isEmpty_iff.mp empty
  have reached := (smallHeap_boot fun _ call => call.WordAligned).run
    (fun _ call _ member => by
      simp only [mem_cons, not_mem_nil, or_false] at member
      rcases member with rfl | rfl | rfl | rfl <;> simp [Call.WordAligned, wordLayout]) ran
  obtain ⟨blocks, frees, wellFormed, -, restored⟩ := coalesced_of_reaches reached
  obtain ⟨single, freeSingle, -, -⟩ := restored nothingLive
  exact ⟨client, ran, nothingLive, blocks, frees, wellFormed, single, freeSingle⟩

end NanoOs.KernelAllocator
