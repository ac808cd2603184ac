import NanoOs.KernelAllocatorRelease

/-!
# Runs of the kernel allocator

A client owns the allocations it has been given, may write into them at any
time, and calls `alloc` and `dealloc`.  Along every run whose aligned splits
fit, the heap stays well formed and the live allocations stay apart; runs of
word-aligned requests also keep free neighbours joined.
-/

namespace NanoOs.KernelAllocator

open LinkedLists Function List

/-- The nodes met by following `next` from `first` until `target`. -/
def Walks (next : Nat → Checked Nat) : Nat → List Nat → Nat → Prop
  | first, [], target => first = target
  | first, node :: rest, target =>
      first = node ∧ ∃ following, next node = .ok following ∧ Walks next following rest target

/-- Each listed node names the one before it as its predecessor. -/
def NamesPrevious (previous : Nat → Checked Nat) : Nat → List Nat → Prop
  | _, [] => True
  | before, node :: rest => previous node = .ok before ∧ NamesPrevious previous node rest

/-- The heap invariant, in terms of the accessors of the code: `blocks` are
met by walking `next` from `head` up to `heapEnd`, and `frees` by walking
`free_next` from `free_head` up to null. -/
structure WellFormedWith (heap : LinkedListAllocator) (blocks frees : List Nat) : Prop where
  tiles : Walks (fun this => (heap.header this).next this) heap.head blocks heap.heapEnd
  aligned : ∀ this ∈ blocks, this % 8 = 0
  sizes : ∀ this ∈ blocks, minAllocSize ≤ (heap.header this).size
  prevs : NamesPrevious (fun this => (heap.header this).prev) 0 blocks
  lastIsTail : blocks.getLast? = some heap.tail
  freeWalk : Walks (fun this => (heap.header this).freeNext) heap.freeHead frees 0
  freePrevs : NamesPrevious (fun this => (heap.header this).freePrev) 0 frees
  nodup : frees.Nodup
  nonnull : 0 ∉ frees
  free : ∀ this, this ∈ frees ↔ this ∈ blocks ∧ (heap.header this).isUsed = false

def WellFormed (heap : LinkedListAllocator) : Prop :=
  ∃ blocks frees, WellFormedWith heap blocks frees

theorem walks_of_segment {step : Nat → Nat} {next : Nat → Checked Nat} {first target : Nat}
    {nodes : List Nat} (segment : Segment step first nodes target)
    (agrees : ∀ node ∈ nodes, next node = .ok (step node)) : Walks next first nodes target := by
  induction nodes generalizing first with
  | nil => exact segment
  | cons node rest ih =>
    refine ⟨segment.1, step node, agrees node (by simp), ih segment.2 ?_⟩
    intro other member
    exact agrees other (by simp [member])

theorem namesPrevious_of_backLinked {link : Nat → Nat} {previous : Nat → Checked Nat}
    {before : Nat} {nodes : List Nat} (linked : BackLinked link before nodes)
    (agrees : ∀ node ∈ nodes, previous node = .ok (link node)) :
    NamesPrevious previous before nodes := by
  induction nodes generalizing before with
  | nil => trivial
  | cons node rest ih =>
    refine ⟨by rw [agrees node (by simp), linked.1], ih linked.2 ?_⟩
    intro other member
    exact agrees other (by simp [member])

variable {heap : LinkedListAllocator} {stop : Nat} {held : List Nat} {map : BlockMap}

theorem Holds.wellFormedWith (holds : Holds heap heap.heapEnd [] map) :
    ∃ frees, WellFormedWith heap map.blocks frees := by
  have whole := holds
  obtain ⟨frees, headers, represents, sizeEq, usedEq⟩ := holds
  refine ⟨frees, ?_⟩
  constructor
  · refine walks_of_segment represents.tiles fun this member => ?_
    rw [whole.header_next member, Headers.following, sizeEq]
  · exact fun this member => (represents.pointer member).2.2
  · intro this member
    rw [whole.header_size member]
    exact (whole.sizes member).1
  · exact namesPrevious_of_backLinked represents.back fun this member =>
      represents.agrees.header_prev member
  · exact represents.lastIsTail
  · exact walks_of_segment represents.threads.forward fun this member =>
      represents.agrees.header_freeNext (represents.free_subset member)
  · exact namesPrevious_of_backLinked represents.threads.backward fun this member =>
      represents.agrees.header_freePrev (represents.free_subset member)
  · exact represents.threads.nodup
  · exact represents.threads.proper
  · intro this
    rw [represents.free this]
    constructor
    · rintro ⟨member, isFree, -⟩
      exact ⟨member, by rw [represents.agrees.header_isUsed member, isFree]⟩
    · rintro ⟨member, isFree⟩
      rw [represents.agrees.header_isUsed member] at isFree
      exact ⟨member, isFree, not_mem_nil⟩

/-- Memory handed to `init`: aligned to words and inside the range the header
offsets reach. -/
structure HeapRegion where
  start : Nat
  size : Nat
  aligned : start % 8 = 0
  whole : size % 8 = 0
  enough : minBlockSize ≤ size
  reached : heapStart ≤ start
  bounded : start + size < wordLimit

structure Allocation where
  ptr : Nat
  layout : Layout

def Allocation.Owns (allocation : Allocation) (address : Nat) : Prop :=
  allocation.ptr ≤ address ∧ address < allocation.ptr + allocation.layout.size

instance (allocation : Allocation) (address : Nat) : Decidable (allocation.Owns address) :=
  inferInstanceAs (Decidable (_ ∧ _))

structure Client where
  heap : LinkedListAllocator
  live : List Allocation

/-- One use of the heap.  An `alloc` carries the answer of `grow_heap_fn`, as a
number of pages if it has any to give; a `store` writes a byte of a live
allocation or of memory outside the heap. -/
inductive Call
  | alloc (pages : Option Nat) (layout : Layout)
  | dealloc (ptr : Nat)
  | store (address : Nat) (value : UInt8)

/-- A `grow_heap_fn` that continues the heap by whole pages or refuses. -/
def growBy (heapEnd : Nat) (pages : Option Nat) : GrowHeap :=
  fun _ => pages.map fun count => (heapEnd, count * Memory.pageSize)

namespace Client

/-- The client after a call, if the call is one a client may make and returns. -/
def perform (client : Client) : Call → Option Client
  | .alloc pages layout => do
      let (ptr, heap) ←
        (client.heap.alloc (growBy client.heap.heapEnd pages) layout).toOption
      some
        { heap := heap
          live := if ptr = 0 then client.live else ⟨ptr, layout⟩ :: client.live }
  | .dealloc ptr =>
      if ∃ allocation ∈ client.live, allocation.ptr = ptr then do
        let heap ← (client.heap.dealloc ptr).toOption
        some { heap := heap, live := client.live.eraseP fun allocation => allocation.ptr = ptr }
      else
        none
  | .store address value =>
      if (∃ allocation ∈ client.live, allocation.Owns address) ∨
          address < client.heap.head ∨ client.heap.heapEnd ≤ address then
        some
          { client with
            heap := { client.heap with
              memory := Function.update client.heap.memory address value } }
      else
        none

def run (client : Client) : List Call → Option Client
  | [] => some client
  | call :: rest => (client.perform call).bind fun next => next.run rest

/-- The aligned split of an `alloc` is one that fits. -/
def Fits (client : Client) : Call → Prop
  | .alloc pages layout => AllocFits client.heap (growBy client.heap.heapEnd pages) layout
  | _ => True

end Client

def Call.WordAligned : Call → Prop
  | .alloc _ layout => layout.align ≤ 8
  | _ => True

/-- The states reached from a fresh heap by calls that meet a condition. -/
inductive Reaches (allowed : Client → Call → Prop) (region : HeapRegion) (memory : ByteMemory) :
    Client → Prop
  | boot {heap : LinkedListAllocator}
      (started : LinkedListAllocator.init memory region.start region.size = .ok heap) :
      Reaches allowed region memory ⟨heap, []⟩
  | call {client next : Client} {call : Call} (reached : Reaches allowed region memory client)
      (meets : allowed client call) (performed : client.perform call = some next) :
      Reaches allowed region memory next

theorem Reaches.run {allowed : Client → Call → Prop} {region : HeapRegion} {memory : ByteMemory}
    {client next : Client} {calls : List Call} (reached : Reaches allowed region memory client)
    (meets : ∀ client call, Reaches allowed region memory client → call ∈ calls →
      allowed client call)
    (ran : client.run calls = some next) : Reaches allowed region memory next := by
  induction calls generalizing client with
  | nil =>
    cases ran
    exact reached
  | cons call rest ih =>
    obtain ⟨middle, performed, ran⟩ := Option.bind_eq_some_iff.mp ran
    refine ih (reached.call (meets client call reached (by simp)) performed) ?_ ran
    intro other following otherReached member
    exact meets other following otherReached (by simp [member])

/-- The invariant of runs: every live allocation lies in a used block of its
own, and every used block belongs to a live allocation. -/
structure Client.Sound (client : Client) (map : BlockMap) : Prop where
  holds : Holds client.heap client.heap.heapEnd [] map
  distinct : (client.live.map Allocation.ptr).Nodup
  owned : ∀ this, map.IsUsed this → ∃ allocation ∈ client.live, allocation.ptr = this + 16
  housed : ∀ allocation ∈ client.live, ∃ this, allocation.ptr = this + 16 ∧ map.IsUsed this ∧
    allocation.layout.size ≤ map.size this
  aligned : ∀ allocation ∈ client.live, allocation.ptr % allocation.layout.align = 0

theorem contiguous_growBy (heapEnd : Nat) (pages : Option Nat) :
    Contiguous (growBy heapEnd pages) heapEnd := by
  intro request newHeap actualSize answer
  cases pages with
  | none => cases answer
  | some count =>
    cases answer
    exact ⟨rfl, Nat.mul_mod_left count _⟩

theorem HeapRegion.holds_init (region : HeapRegion) (memory : ByteMemory)
    (started : LinkedListAllocator.init memory region.start region.size = .ok heap) :
    heap.head = region.start ∧ Holds heap heap.heapEnd []
      { blocks := [region.start], size := fun _ => region.size - 16, used := fun _ => false } := by
  have enough := region.enough
  have bounded := region.bounded
  have reached := region.reached
  have startAligned := region.aligned
  have sizeWhole := region.whole
  unfold minBlockSize minAllocSize blockHeaderSize at enough
  unfold wordLimit at bounded
  obtain ⟨-, started⟩ := checkedSub_bind_eq_ok.mp started
  obtain ⟨-, started⟩ := checkedAdd_bind_eq_ok.mp started
  cases started
  refine ⟨rfl, ?_⟩
  let headers : Headers :=
    { size := fun _ => region.size - 16
      prev := fun _ => 0
      freeNext := fun _ => 0
      freePrev := fun _ => 0
      used := fun _ => false }
  have valid : HeapPointer region.start := ⟨reached, by omega, startAligned⟩
  have sizeLt : region.size - 16 < 2 ^ 32 := by
    unfold heapStart at reached
    omega
  have empty : Agrees memory ([] ++ []) headers := by
    constructor <;> simp
  have agrees := empty.insertHeader valid (by simp) (by simp) sizeLt false
  have same : headers.reset region.start (region.size - 16) false = headers := by
    simp [Headers.reset, headers]
  rw [same] at agrees
  refine ⟨[region.start], headers, ?_, rfl, rfl⟩
  constructor
  · exact agrees
  · refine ⟨rfl, ?_⟩
    simp only [Headers.following, headers, segment_nil]
    omega
  · rfl
  · intro this _
    simp only [headers]
    omega
  · exact ⟨rfl, trivial⟩
  · refine ⟨⟨rfl, rfl⟩, ⟨rfl, trivial⟩, by simp, ?_⟩
    simpa using valid.ne_zero.symm
  · intro this
    simp [headers]
  · exact bounded

section

variable (holds : Holds heap stop held map)

include holds

theorem Holds.apart {this other : Nat} (member : this ∈ map.blocks)
    (otherMember : other ∈ map.blocks) (different : this ≠ other) :
    this + map.size this + 16 ≤ other ∨ other + map.size other + 16 ≤ this := by
  obtain ⟨frees, headers, represents, sizeEq, -⟩ := holds
  rw [← sizeEq]
  exact represents.tiles.apart headers.le_following member otherMember different

theorem Holds.payload_apart {this other address : Nat} (member : this ∈ map.blocks)
    (otherMember : other ∈ map.blocks) (lower : this + 16 ≤ address)
    (upper : address < this + 16 + map.size this) : address < other ∨ other + 16 ≤ address := by
  by_cases equal : this = other
  · omega
  · rcases holds.apart member otherMember equal with after | before
    · omega
    · omega

theorem Holds.head_le {this : Nat} (member : this ∈ map.blocks) : heap.head ≤ this := by
  obtain ⟨frees, headers, represents, -, -⟩ := holds
  exact ((represents.tiles.bounds headers.le_following).2 this member).1

theorem Holds.store {address : Nat} (value : UInt8)
    (outside : ∀ this ∈ map.blocks, address < this ∨ this + 16 ≤ address) :
    Holds { heap with memory := update heap.memory address value } stop held map := by
  obtain ⟨frees, headers, represents, sizeEq, usedEq⟩ := holds
  refine ⟨frees, headers, { represents with agrees := ?_ }, sizeEq, usedEq⟩
  refine { represents.agrees with loads := ?_ }
  intro this member
  rw [← represents.agrees.loads this member]
  apply BlockHeader.load_congr
  intro location lower upper
  apply update_of_ne
  have := outside this member
  omega

end

/-- Bytes of allocations that stay live are the same in both states. -/
def Client.Preserves (client next : Client) : Prop :=
  ∀ allocation ∈ client.live, allocation ∈ next.live →
    ∀ address, allocation.Owns address → next.heap.memory address = client.heap.memory address

theorem toOption_eq_some {α : Type} {outcome : Checked α} {result : α}
    (equal : outcome.toOption = some result) : outcome = .ok result := by
  cases outcome with
  | error fault => cases equal
  | ok value => exact congrArg Except.ok (Option.some.inj equal)

theorem mem_erased {live : List Allocation} {ptr : Nat}
    (distinct : (live.map Allocation.ptr).Nodup) (isLive : ptr ∈ live.map Allocation.ptr)
    (allocation : Allocation) :
    allocation ∈ live.eraseP (fun allocation => allocation.ptr = ptr) ↔
      allocation ∈ live ∧ allocation.ptr ≠ ptr := by
  obtain ⟨freed, freedMember, freedPtr⟩ := mem_map.mp isLive
  have hit : decide (freed.ptr = ptr) = true := decide_eq_true freedPtr
  obtain ⟨found, front, back, frontNe, foundHit, split, erased⟩ :=
    exists_of_eraseP (p := fun allocation => allocation.ptr = ptr) freedMember hit
  have foundPtr : found.ptr = ptr := of_decide_eq_true foundHit
  subst split
  rw [erased]
  have apart : ∀ other ∈ front ++ back, other.ptr ≠ ptr := by
    intro other member equal
    rw [map_append, map_cons] at distinct
    apply (nodup_cons.mp (nodup_middle.mp distinct)).1
    rw [foundPtr, ← equal, ← map_append]
    exact mem_map_of_mem member
  constructor
  · intro member
    refine ⟨?_, apart allocation member⟩
    simp only [mem_append, mem_cons] at member ⊢
    exact member.imp_right Or.inr
  · rintro ⟨member, different⟩
    simp only [mem_append, mem_cons] at member ⊢
    refine member.imp_right fun inRest => inRest.resolve_left ?_
    rintro rfl
    exact different foundPtr

namespace Client.Sound

variable {client next : Client}

section

variable (sound : client.Sound map)

include sound

theorem owns_payload {allocation : Allocation} (member : allocation ∈ client.live) :
    ∃ this ∈ map.blocks, allocation.ptr = this + 16 ∧
      allocation.ptr + allocation.layout.size ≤ this + 16 + map.size this := by
  obtain ⟨this, ptrEq, isUsed, enough⟩ := sound.housed allocation member
  exact ⟨this, isUsed.1, ptrEq, by omega⟩

theorem alloc {pages : Option Nat} {layout : Layout} (fits : client.Fits (.alloc pages layout))
    (performed : client.perform (.alloc pages layout) = some next) :
    ∃ later, next.Sound later ∧ next.heap.head = client.heap.head ∧
      (map.Coalesced → later.Coalesced) ∧ client.Preserves next := by
  obtain ⟨⟨ptr, heap⟩, outcome, finished⟩ := Option.bind_eq_some_iff.mp performed
  cases finished
  rcases sound.holds.alloc (contiguous_growBy _ pages) fits (toOption_eq_some outcome) with
    ⟨rfl, rfl⟩ | ⟨block, later, rfl, allocates⟩
  · exact ⟨map, ⟨sound.holds, by simpa using sound.distinct, by simpa using sound.owned,
      by simpa using sound.housed, by simpa using sound.aligned⟩, rfl, id, fun _ _ _ _ _ => rfl⟩
  · rw [if_neg (by omega)]
    refine ⟨later, ⟨allocates.holds, ?_, ?_, ?_, ?_⟩, allocates.sameHead, allocates.coalesced, ?_⟩
    · refine nodup_cons.mpr ⟨?_, sound.distinct⟩
      intro repeated
      obtain ⟨allocation, member, ptrEq⟩ := mem_map.mp repeated
      obtain ⟨this, thisEq, isUsed, -⟩ := sound.housed allocation member
      have equal : this = block := by
        simp only at ptrEq
        omega
      exact allocates.fresh (equal ▸ isUsed)
    · intro this isUsed
      rcases (allocates.used this).mp isUsed with rfl | older
      · exact ⟨⟨this + 16, layout⟩, by simp, rfl⟩
      · obtain ⟨allocation, member, ptrEq⟩ := sound.owned this older
        exact ⟨allocation, by simp [member], ptrEq⟩
    · intro allocation member
      rcases mem_cons.mp member with rfl | member
      · exact ⟨block, rfl, (allocates.used block).mpr (Or.inl rfl), allocates.enough⟩
      · obtain ⟨this, ptrEq, isUsed, enough⟩ := sound.housed allocation member
        exact ⟨this, ptrEq, (allocates.used this).mpr (Or.inr isUsed),
          by rwa [allocates.size this isUsed]⟩
    · intro allocation member
      rcases mem_cons.mp member with rfl | member
      · exact allocates.aligned
      · exact sound.aligned allocation member
    · intro allocation member _ address owns
      obtain ⟨this, ptrEq, isUsed, enough⟩ := sound.housed allocation member
      obtain ⟨lower, upper⟩ := owns
      apply allocates.keeps
      intro other otherMember
      have stays : this ∈ later.blocks := ((allocates.used this).mpr (Or.inr isUsed)).1
      exact allocates.holds.payload_apart stays otherMember (by omega)
        (by rw [allocates.size this isUsed]; omega)

theorem dealloc {ptr : Nat} (performed : client.perform (.dealloc ptr) = some next) :
    ∃ later, next.Sound later ∧ next.heap.head = client.heap.head ∧
      (map.Coalesced → later.Coalesced) ∧ client.Preserves next := by
  dsimp only [Client.perform] at performed
  split at performed
  · rename_i isLive
    obtain ⟨freed, freedMember, rfl⟩ := isLive
    obtain ⟨heap, outcome, finished⟩ := Option.bind_eq_some_iff.mp performed
    cases finished
    obtain ⟨block, ptrEq, isUsed, -⟩ := sound.housed freed freedMember
    rw [ptrEq] at outcome ⊢
    obtain ⟨later, ⟨after, afterEq, afterHolds, sameHead, sameEnd, keeps⟩, releases⟩ :=
      sound.holds.dealloc isUsed
    obtain rfl := Except.ok.inj ((toOption_eq_some outcome).symm.trans afterEq)
    have isLive : block + 16 ∈ client.live.map Allocation.ptr := by
      rw [← ptrEq]
      exact mem_map_of_mem freedMember
    have remaining := mem_erased sound.distinct isLive
    refine ⟨later, ⟨?_, ?_, ?_, ?_, ?_⟩, sameHead, releases.coalesced, ?_⟩
    · rw [sameEnd]
      exact afterHolds
    · exact sound.distinct.sublist (eraseP_sublist.map Allocation.ptr)
    · intro this usedLater
      obtain ⟨usedBefore, different⟩ := (releases.used this).mp usedLater
      obtain ⟨allocation, member, equal⟩ := sound.owned this usedBefore
      exact ⟨allocation, (remaining allocation).mpr ⟨member, by omega⟩, equal⟩
    · intro allocation member
      obtain ⟨wasLive, different⟩ := (remaining allocation).mp member
      obtain ⟨this, equal, usedBefore, enough⟩ := sound.housed allocation wasLive
      have thisNe : this ≠ block := by omega
      exact ⟨this, equal, (releases.used this).mpr ⟨usedBefore, thisNe⟩,
        by rwa [releases.size this usedBefore thisNe]⟩
    · intro allocation member
      exact sound.aligned allocation ((remaining allocation).mp member).1
    · intro allocation member _ address owns
      obtain ⟨this, inBlocks, equal, finish⟩ := sound.owns_payload member
      obtain ⟨lower, upper⟩ := owns
      apply keeps
      intro other otherMember
      exact sound.holds.payload_apart inBlocks otherMember (by omega) (by omega)
  · cases performed

theorem store {address : Nat} {value : UInt8}
    (performed : client.perform (.store address value) = some next) :
    next.Sound map ∧ next.heap.head = client.heap.head := by
  dsimp only [Client.perform] at performed
  split at performed
  · rename_i allowed
    cases performed
    refine ⟨⟨?_, sound.distinct, sound.owned, sound.housed, sound.aligned⟩, rfl⟩
    apply sound.holds.store
    intro this member
    rcases allowed with ⟨allocation, isLive, lower, upper⟩ | below | above
    · obtain ⟨block, inBlocks, ptrEq, finish⟩ := sound.owns_payload isLive
      exact sound.holds.payload_apart inBlocks member (by omega) (by omega)
    · exact Or.inl (lt_of_lt_of_le below (sound.holds.head_le member))
    · have finish := sound.holds.following_le member
      omega
  · cases performed

theorem step {call : Call} (fits : client.Fits call) (performed : client.perform call = some next) :
    ∃ later, next.Sound later ∧ next.heap.head = client.heap.head ∧
      (map.Coalesced → later.Coalesced) := by
  cases call with
  | alloc pages layout =>
    obtain ⟨later, soundLater, sameHead, coalesced, -⟩ := sound.alloc fits performed
    exact ⟨later, soundLater, sameHead, coalesced⟩
  | dealloc ptr =>
    obtain ⟨later, soundLater, sameHead, coalesced, -⟩ := sound.dealloc performed
    exact ⟨later, soundLater, sameHead, coalesced⟩
  | store address value =>
    obtain ⟨soundLater, sameHead⟩ := sound.store performed
    exact ⟨map, soundLater, sameHead, id⟩

theorem fits_of_wordAligned {call : Call} (small : call.WordAligned) : client.Fits call := by
  cases call with
  | alloc pages layout =>
    exact sound.holds.allocFits_of_small (contiguous_growBy _ pages) small
  | dealloc ptr => trivial
  | store address value => trivial

end

end Client.Sound

end NanoOs.KernelAllocator
