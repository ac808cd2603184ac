import NanoOs.KernelAllocatorBlockMap

/-!
# Growing and splitting blocks

The edits of the block map made by an allocation: the last block changes its
size, a block is appended behind the last one, and a free block is divided in
two.  Each is proved for the statements the allocator uses for it.
-/

namespace NanoOs.KernelAllocator

open LinkedLists Function List LinkedListAllocator Headers

variable {heap : LinkedListAllocator} {stop : Nat} {held blocks frees front back : List Nat}
  {headers : Headers} {map : BlockMap} {this fresh : Nat}

theorem Agrees.insertHeader {memory : ByteMemory} {size : Nat}
    (agrees : Agrees memory (front ++ back) headers) (valid : HeapPointer fresh)
    (before : ∀ other ∈ front, other + 16 ≤ fresh) (after : ∀ other ∈ back, fresh + 16 ≤ other)
    (fits : size < 2 ^ 32) (used : Bool) :
    Agrees (BlockHeader.store memory fresh (BlockHeader.new size used))
      (front ++ fresh :: back) (headers.reset fresh size used) := by
  have newEq : BlockHeader.new size used = (headers.reset fresh size used).raw fresh :=
    new_raw fits used
  have storable : (headers.reset fresh size used).Storable fresh := by
    constructor
    · simpa [reset] using fits
    all_goals simp [reset, storableLink_zero]
  have others : ∀ other ∈ front ++ back, other ≠ fresh ∧
      (fresh + 16 ≤ other ∨ other + 16 ≤ fresh) := by
    intro other member
    rcases mem_append.mp member with inFront | inBack
    · have := before other inFront
      omega
    · have := after other inBack
      omega
  have cases : ∀ other ∈ front ++ fresh :: back, other = fresh ∨ other ∈ front ++ back := by
    intro other member
    simp only [mem_append, mem_cons] at member ⊢
    tauto
  refine ⟨?_, ?_, ?_, ?_⟩
  · intro other member
    rcases cases other member with rfl | old
    · rw [newEq]
      exact BlockHeader.load_store_same memory other storable.fits
    · obtain ⟨different, apart⟩ := others other old
      rw [BlockHeader.load_store_apart memory _ apart, agrees.loads other old]
      simp [raw, reset, different]
  · intro other member
    rcases cases other member with rfl | old
    · exact storable
    · obtain ⟨different, -⟩ := others other old
      obtain ⟨sizeFits, prev, freeNext, freePrev⟩ := agrees.storable other old
      constructor <;> simpa [reset, different]
  · have apart := pairwise_append.mp agrees.apart
    refine pairwise_append.mpr ⟨apart.1, pairwise_cons.mpr ⟨after, apart.2.1⟩, ?_⟩
    intro former formerMember latter latterMember
    rcases mem_cons.mp latterMember with rfl | inBack
    · exact before former formerMember
    · exact apart.2.2 former formerMember latter inBack
  · intro other member
    rcases cases other member with rfl | old
    · exact valid
    · exact agrees.inHeap other old

/-- What linking a fresh block behind `this` does to the physical list,
whichever call does it. -/
def LinksAfter (outcome : Checked LinkedListAllocator) (heap : LinkedListAllocator)
    (front : List Nat) (this fresh : Nat) (back : List Nat) (headers : Headers) : Prop :=
  ∃ tail prev,
    Yields outcome { heap with tail := tail } (front ++ this :: fresh :: back)
      { headers with prev := prev } ∧
    (front ++ this :: fresh :: back).getLast? = some tail ∧
    (BackLinked headers.prev 0 (front ++ this :: back) →
      BackLinked prev 0 (front ++ this :: fresh :: back))

theorem Agrees.linksAfter_insertAfter
    (agrees : Agrees heap.memory (front ++ this :: fresh :: back) headers)
    (position : (back = [] ∧ this = heap.tail) ∨
      (∃ rest, back = headers.following this :: rest) ∧ this ≠ heap.tail)
    (lastIsTail : (front ++ this :: back).getLast? = some heap.tail)
    (fits : headers.following this < 2 ^ 64) :
    LinksAfter (heap.insertAfter this fresh) heap front this fresh back headers := by
  have member : this ∈ front ++ this :: fresh :: back := by simp
  have freshMember : fresh ∈ front ++ this :: fresh :: back := by simp
  rcases position with ⟨rfl, atTail⟩ | ⟨⟨rest, rfl⟩, inner⟩
  · exact ⟨fresh, _, agrees.insertAfter_tail member freshMember atTail fits, by simp,
      fun linked => linked.append agrees.nodup⟩
  · have nextMember : this + headers.size this + 16 ∈
        front ++ this :: fresh :: headers.following this :: rest := by
      simp [following]
    refine ⟨heap.tail, _, agrees.insertAfter_inner member freshMember inner nextMember, ?_, ?_⟩
    · simpa [getLast?_append, getLast?_cons] using lastIsTail
    · intro linked
      have nodup : (front ++ [this] ++ fresh :: headers.following this :: rest).Nodup := by
        simpa using agrees.nodup
      obtain ⟨successorNe, around⟩ := ne_of_nodup_neighbours nodup
      have kept : ∀ other ∈ front ++ [this] ++ rest,
          ((headers.setPrev (this + headers.size this + 16) fresh).setPrev fresh this).prev other =
            headers.prev other := by
        intro other member
        obtain ⟨notFresh, notSuccessor⟩ := around other member
        simp only [Headers.setPrev, update_of_ne notFresh]
        exact update_of_ne notSuccessor _ _
      apply linked.insertAfter
      · exact fun other inFront => kept other (by simp [inFront])
      · exact kept this (by simp)
      · exact update_self _ _ _
      · intro other head
        have equal : headers.following this = other := by simpa using head
        subst equal
        simp only [Headers.setPrev, update_of_ne successorNe]
        exact update_self _ _ _
      · intro other inRest
        have member : other ∈ rest := inRest
        exact kept other (by simp [member])

theorem Agrees.linksAfter_appendToList
    (agrees : Agrees heap.memory (front ++ [heap.tail, fresh]) headers) :
    LinksAfter (heap.appendToList fresh) heap front heap.tail fresh [] headers := by
  exact ⟨fresh, _, agrees.appendToList (by simp) (by simp), by simp,
    fun linked => linked.append agrees.nodup⟩

/-- A header written behind `this` that the physical list does not link yet. -/
structure Drafted (heap : LinkedListAllocator) (front : List Nat) (this fresh : Nat)
    (back frees : List Nat) (headers : Headers) : Prop where
  agrees : Agrees heap.memory (front ++ this :: fresh :: back) headers
  linked : BackLinked headers.prev 0 (front ++ this :: back)
  threads : (headers.freeLinks heap.freeHead).Threads 0 frees
  listed : ∀ other ∈ frees, other ∈ front ++ this :: back
  lastIsTail : (front ++ this :: back).getLast? = some heap.tail

theorem Represents.draft {size : Nat}
    (represents : Represents heap stop held (front ++ this :: back) frees headers)
    (valid : HeapPointer fresh) (before : this + 16 ≤ fresh)
    (after : ∀ other ∈ back, fresh + 16 ≤ other) (fits : size < 2 ^ 32) (used : Bool) :
    Drafted (heap.putHeader fresh (BlockHeader.new size used)) front this fresh back frees
      (headers.reset fresh size used) := by
  have apart := pairwise_append.mp represents.agrees.apart
  have former : ∀ other ∈ front ++ [this], other + 16 ≤ fresh := by
    intro other member
    rcases mem_append.mp member with inFront | isThis
    · have := apart.2.2 other inFront this (by simp)
      omega
    · rw [mem_singleton.mp isThis]
      exact before
  have different : ∀ other ∈ front ++ this :: back, other ≠ fresh := by
    intro other member
    simp only [mem_append, mem_cons] at member
    rcases member with inFront | rfl | inBack
    · have := former other (by simp [inFront])
      omega
    · omega
    · have := after other inBack
      omega
  have agrees : Agrees heap.memory ((front ++ [this]) ++ back) headers := by
    simpa using represents.agrees
  constructor
  · simpa [putHeader] using
      agrees.insertHeader valid former after fits used
  · apply represents.back.congr
    intro other member
    exact update_of_ne (different other member) _ _
  · apply represents.threads.congr
    · rfl
    · intro other member
      exact update_of_ne (different other (represents.free_subset member)) _ _
    · intro other member
      exact update_of_ne (different other (represents.free_subset member)) _ _
  · intro other member
    exact represents.free_subset member
  · exact represents.lastIsTail

section

variable (drafted : Drafted heap front this fresh back frees headers)

include drafted

theorem Drafted.fresh_notMem : fresh ∉ front ++ this :: back := by
  obtain ⟨freshNe, others⟩ := ne_of_nodup_neighbours drafted.agrees.nodup
  have elsewhere : fresh ∉ front ++ back := fun member => (others fresh member).2 rfl
  simp only [mem_append, mem_cons] at elsewhere ⊢
  tauto

theorem Drafted.freeHead_link : LinkInto (front ++ this :: fresh :: back) heap.freeHead := by
  have forward := drafted.threads.forward
  cases frees with
  | nil => exact Or.inl forward
  | cons first rest =>
    right
    have firstEq : heap.freeHead = first := forward.1
    have member := drafted.listed first (by simp)
    rw [firstEq]
    simp only [mem_append, mem_cons] at member ⊢
    tauto

/-- The drafted block enters the free list before it is linked physically. -/
theorem Drafted.insertFreeBlock :
    ∃ memory links,
      heap.insertFreeBlock fresh = .ok { heap with memory := memory, freeHead := fresh } ∧
      KeepsPayload (front ++ this :: fresh :: back) heap.memory memory ∧
      Agrees memory (front ++ this :: fresh :: back) (headers.withFreeLinks links) ∧
      ((headers.withFreeLinks links).freeLinks fresh).Threads 0 (fresh :: frees) := by
  have member : fresh ∈ front ++ this :: fresh :: back := by simp
  obtain ⟨memory, outcome, agrees, keeps⟩ :=
    drafted.agrees.insertFreeBlock member drafted.freeHead_link
  have unlisted : fresh ∉ frees := fun listed =>
    drafted.fresh_notMem (drafted.listed fresh listed)
  have nonzero := (drafted.agrees.inHeap fresh member).ne_zero
  exact ⟨memory, _, outcome, keeps, agrees, drafted.threads.insertFront unlisted nonzero⟩

end

/-- A block list with one more block behind `this`.  The sizes of both blocks
are new; the blocks behind them, if any, stay where they are. -/
theorem Represents.inserted {after : LinkedListAllocator} {stopAfter thisSize freshSize : Nat}
    {used : Bool} {listed : List Nat} {changed : Headers}
    (represents : Represents heap stop held (front ++ this :: back) frees headers)
    (agrees : Agrees after.memory (front ++ this :: fresh :: back) changed)
    (sameHead : after.head = heap.head)
    (size : changed.size =
      update (update headers.size fresh freshSize) this thisSize)
    (usedBits : changed.used = update headers.used fresh used)
    (thisOk : 16 ≤ thisSize ∧ thisSize % 8 = 0) (freshOk : 16 ≤ freshSize ∧ freshSize % 8 = 0)
    (thisEnd : this + thisSize + 16 = fresh)
    (rest : Segment headers.following (fresh + freshSize + 16) back stopAfter)
    (lastIsTail : (front ++ this :: fresh :: back).getLast? = some after.tail)
    (linked : BackLinked changed.prev 0 (front ++ this :: fresh :: back))
    (threads : (changed.freeLinks after.freeHead).Threads 0 listed)
    (listing : listed = if used then frees else fresh :: frees)
    (notHeld : fresh ∉ held) (bound : stopAfter < 2 ^ 64) :
    Represents after stopAfter held (front ++ this :: fresh :: back) listed changed := by
  obtain ⟨thisNe, others⟩ := ne_of_nodup_neighbours agrees.nodup
  have sizeOthers : ∀ other ∈ front ++ back, changed.size other = headers.size other := by
    intro other member
    rw [size, update_of_ne (others other member).1,
      update_of_ne (others other member).2]
  have sizeThis : changed.size this = thisSize := by rw [size, update_self]
  have sizeFresh : changed.size fresh = freshSize := by
    rw [size, update_of_ne thisNe, update_self]
  have sameFollowing : ∀ other ∈ front ++ back,
      changed.following other = headers.following other := by
    intro other member
    simp only [following, sizeOthers other member]
  refine ⟨agrees, ?_, lastIsTail, ?_, linked, threads, ?_, bound⟩
  · rw [sameHead]
    refine segment_append.mpr ⟨this, ?_, rfl, ?_, ?_⟩
    · apply represents.around.1.congr
      intro other inFront
      exact sameFollowing other (by simp [inFront])
    · rw [following, sizeThis, thisEnd]
    · rw [following, sizeFresh]
      apply rest.congr
      intro other inBack
      exact sameFollowing other (by simp [inBack])
  · intro other member
    simp only [mem_append, mem_cons] at member
    rcases member with inFront | rfl | rfl | inBack
    · rw [sizeOthers other (by simp [inFront])]
      exact represents.sizes other (by simp [inFront])
    · rwa [sizeThis]
    · rwa [sizeFresh]
    · rw [sizeOthers other (by simp [inBack])]
      exact represents.sizes other (by simp [inBack])
  · intro other
    have old := represents.free other
    rw [usedBits]
    by_cases equal : other = fresh
    · subst equal
      have unlisted : other ∉ frees := by
        intro member
        have := represents.free_subset member
        simp only [mem_append, mem_cons] at this
        rcases this with inFront | isThis | inBack
        · exact (others other (by simp [inFront])).2 rfl
        · exact thisNe isThis
        · exact (others other (by simp [inBack])).2 rfl
      cases used <;> simp [listing, unlisted, notHeld]
    · rw [update_of_ne equal]
      cases used <;> simp [listing, equal, old]

theorem Holds.carve {needed : Nat} (holds : Holds heap stop held map)
    (position : map.blocks = front ++ this :: back)
    (neededOk : 16 ≤ needed ∧ needed % 8 = 0) (room : needed + 32 ≤ map.size this)
    (freshEq : fresh = this + 16 + needed) (notHeld : fresh ∉ held) :
    Becomes
      (do
        let heap := heap.putHeader fresh (BlockHeader.new (map.size this - needed - 16) false)
        let heap ← heap.insertFreeBlock fresh
        let heap ← heap.insertAfter this fresh
        heap.editHeader this (fun header => .ok (header.setSize needed)))
      heap (front ++ this :: fresh :: back) stop held
      { blocks := front ++ this :: fresh :: back
        size := update
          (update map.size fresh (map.size this - needed - 16)) this needed
        used := update map.used fresh false } := by
  obtain ⟨blocks, size, used⟩ := map
  obtain ⟨frees, headers, represents, rfl, rfl⟩ := holds
  obtain rfl : blocks = front ++ this :: back := position
  dsimp only at room represents ⊢
  have member : this ∈ front ++ this :: back := by simp
  obtain ⟨-, sizeMod⟩ := represents.sizes this member
  have sizeLt := represents.size_lt member
  obtain ⟨lower, upper, aligned⟩ := represents.pointer member
  have finish := represents.following_le member
  have bound := represents.stopBound
  obtain ⟨-, backTiles⟩ := represents.around
  have behind := (backTiles.bounds headers.le_following).2
  have endEq : headers.following this = this + headers.size this + 16 := rfl
  have valid : HeapPointer fresh := ⟨by omega, by omega, by omega⟩
  have after : ∀ other ∈ back, fresh + 16 ≤ other := by
    intro other inBack
    have := (behind other inBack).1
    omega
  have drafted : Drafted
      (heap.putHeader fresh (BlockHeader.new (headers.size this - needed - 16) false))
      front this fresh back frees
      (headers.reset fresh (headers.size this - needed - 16) false) :=
    represents.draft valid (by omega) after (by omega) false
  obtain ⟨second, links, insertOutcome, insertKeeps, agreesSecond, threads⟩ :=
    drafted.insertFreeBlock
  have thisNe : this ≠ fresh := by omega
  have sameFollowing : ((headers.reset fresh (headers.size this - needed - 16)
      false).withFreeLinks links).following this = headers.following this := by
    simp [following, withFreeLinks, reset, thisNe]
  have linksAfter : LinksAfter
      (insertAfter { heap with memory := second, freeHead := fresh }
        this fresh)
      { heap with memory := second, freeHead := fresh } front this fresh back _ :=
    Agrees.linksAfter_insertAfter agreesSecond
      (by rw [sameFollowing]; exact represents.inner_or_tail) drafted.lastIsTail
      (by rw [sameFollowing]; omega)
  obtain ⟨tail, prev, ⟨third, linkOutcome, agreesThird, linkKeeps⟩, lastIsTail, linked⟩ :=
    linksAfter
  have resized : Yields
      (editHeader
        { heap with memory := third, freeHead := fresh, tail := tail } this
        (fun header => .ok (header.setSize needed)))
      { heap with memory := third, freeHead := fresh, tail := tail } _ _ :=
    Agrees.setSize agreesThird (by simp) (by omega)
  obtain ⟨fourth, sizeOutcome, agreesFourth, sizeKeeps⟩ := resized
  refine ⟨{ heap with memory := fourth, freeHead := fresh, tail := tail }, ?_, ?_, rfl, rfl, ?_⟩
  · rw [insertOutcome, ok_bind]
    exact (congrArg (· >>= _) linkOutcome).trans sizeOutcome
  · refine ⟨fresh :: frees, _, represents.inserted agreesFourth rfl rfl rfl
      neededOk ⟨by omega, by omega⟩ (by omega) ?_ lastIsTail (linked drafted.linked) threads rfl
      notHeld bound, rfl, rfl⟩
    rw [show fresh + (headers.size this - needed - 16) + 16 = headers.following this by omega]
    exact backTiles
  · have putKeeps : KeepsPayload (front ++ this :: fresh :: back) heap.memory
        (heap.putHeader fresh
          (BlockHeader.new (headers.size this - needed - 16) false)).memory :=
      keepsPayload_store (by simp) _
    exact ((putKeeps.trans insertKeeps).trans linkKeeps).trans sizeKeeps

theorem Holds.resizeTail {size : Nat} {outcome : Checked LinkedListAllocator}
    (holds : Holds heap stop held map) (position : map.blocks = front ++ [this])
    (sizeOk : 16 ≤ size ∧ size % 8 = 0) (bound : this + size + 16 < 2 ^ 64)
    (yields : ∀ headers, Agrees heap.memory map.blocks headers → headers.size = map.size →
      Yields outcome heap map.blocks (headers.setSize this size)) :
    Becomes outcome heap map.blocks (this + size + 16) held
      { map with size := update map.size this size } := by
  obtain ⟨blocks, oldSize, used⟩ := map
  obtain ⟨frees, headers, represents, rfl, rfl⟩ := holds
  obtain rfl : blocks = front ++ [this] := position
  obtain ⟨memory, outcomeEq, agrees, keeps⟩ := yields headers represents.agrees rfl
  have frontNe : ∀ other ∈ front, other ≠ this := fun other member =>
    (nodup_append.mp represents.nodup).2.2 other member this (by simp)
  have tiles : Segment (headers.setSize this size).following heap.head (front ++ [this])
      (this + size + 16) := by
    refine segment_append.mpr ⟨this, ?_, rfl, ?_⟩
    · apply represents.around.1.congr
      intro other member
      simp [following, setSize, frontNe other member]
    · simp [following, setSize]
  have sizes : ∀ other ∈ front ++ [this], 16 ≤ (headers.setSize this size).size other ∧
      (headers.setSize this size).size other % 8 = 0 := by
    intro other member
    by_cases equal : other = this
    · simpa [equal, setSize] using sizeOk
    · simpa [equal, setSize] using represents.sizes other member
  have result : Represents { heap with memory := memory } (this + size + 16) held
      (front ++ [this]) frees (headers.setSize this size) :=
    { represents with
      agrees := agrees
      tiles := tiles
      sizes := sizes
      stopBound := bound }
  exact ⟨_, outcomeEq, result.holds, rfl, rfl, keeps⟩

theorem Represents.stop_valid
    (represents : Represents heap stop held (front ++ [this]) frees headers) :
    HeapPointer stop ∧ this + headers.size this + 16 = stop := by
  have member : this ∈ front ++ [this] := by simp
  have stopEq : headers.following this = stop := represents.around.2
  have endEq : headers.following this = this + headers.size this + 16 := rfl
  obtain ⟨lower, -, aligned⟩ := represents.pointer member
  obtain ⟨-, sizeMod⟩ := represents.sizes this member
  have bound := represents.stopBound
  exact ⟨⟨by omega, by omega, by omega⟩, by omega⟩

theorem Represents.draftTail {size : Nat}
    (represents : Represents heap stop held (front ++ [this]) frees headers)
    (bound : stop + size + 16 < 2 ^ 64) (used : Bool) :
    Drafted (heap.putHeader stop (BlockHeader.new size used)) front this stop [] frees
        (headers.reset stop size used) ∧
      this + headers.size this + 16 = stop ∧
      (headers.reset stop size used).following this = stop ∧ this = heap.tail := by
  obtain ⟨valid, stopEq⟩ := represents.stop_valid
  have lower := valid.1
  unfold heapStart at lower
  have thisNe : this ≠ stop := by omega
  refine ⟨represents.draft valid (by omega) (by simp) (by omega) used, stopEq, ?_, ?_⟩
  · simp [following, reset, thisNe, stopEq]
  · simpa using represents.lastIsTail

private theorem update_other_self {f : Nat → Nat} {first second value : Nat}
    (different : first ≠ second) :
    update f second value =
      update (update f second value) first (f first) := by
  funext other
  by_cases equal : other = first
  · subst equal
    rw [update_self, update_of_ne different]
  · rw [update_of_ne equal]

theorem Holds.appendUsed {size : Nat} (holds : Holds heap stop held map)
    (position : map.blocks = front ++ [this]) (sizeOk : 16 ≤ size ∧ size % 8 = 0)
    (bound : stop + size + 16 < 2 ^ 64) (notHeld : stop ∉ held) :
    Becomes ((heap.putHeader stop (BlockHeader.new size true)).insertAfter this stop)
      heap (front ++ [this, stop]) (stop + size + 16) held
      { blocks := front ++ [this, stop]
        size := update map.size stop size
        used := update map.used stop true } := by
  obtain ⟨blocks, oldSize, used⟩ := map
  obtain ⟨frees, headers, represents, rfl, rfl⟩ := holds
  obtain rfl : blocks = front ++ [this] := position
  obtain ⟨drafted, stopEq, sameFollowing, atTail⟩ := represents.draftTail bound true
  have thisNe : this ≠ stop := by omega
  obtain ⟨tail, prev, ⟨memory, outcome, agrees, keeps⟩, lastIsTail, linked⟩ :=
    drafted.agrees.linksAfter_insertAfter (Or.inl ⟨rfl, atTail⟩) drafted.lastIsTail
      (by omega)
  refine ⟨{ heap with memory := memory, tail := tail }, outcome, ?_, rfl, rfl, ?_⟩
  · exact ⟨frees, _, represents.inserted agrees rfl (update_other_self thisNe) rfl
      (represents.sizes this (by simp)) sizeOk stopEq rfl lastIsTail (linked drafted.linked)
        drafted.threads rfl
      notHeld bound, rfl, rfl⟩
  · exact KeepsPayload.trans (keepsPayload_store (by simp) _) keeps

theorem Holds.appendFree {size : Nat} {link : LinkedListAllocator → Checked LinkedListAllocator}
    (holds : Holds heap stop held map) (position : map.blocks = front ++ [this])
    (sizeOk : 16 ≤ size ∧ size % 8 = 0) (bound : stop + size + 16 < 2 ^ 64)
    (notHeld : stop ∉ held)
    (links : ∀ heap headers, Agrees heap.memory (front ++ [this, stop]) headers →
      this = heap.tail → headers.following this = stop →
      LinksAfter (link heap) heap front this stop [] headers) :
    Becomes
      (do
        let heap ← (heap.putHeader stop (BlockHeader.new size false)).insertFreeBlock stop
        link heap)
      heap (front ++ [this, stop]) (stop + size + 16) held
      { blocks := front ++ [this, stop]
        size := update map.size stop size
        used := update map.used stop false } := by
  obtain ⟨blocks, oldSize, used⟩ := map
  obtain ⟨frees, headers, represents, rfl, rfl⟩ := holds
  obtain rfl : blocks = front ++ [this] := position
  obtain ⟨drafted, stopEq, sameFollowing, atTail⟩ := represents.draftTail bound false
  have thisNe : this ≠ stop := by omega
  obtain ⟨second, freeLinks, insertOutcome, insertKeeps, agreesSecond, threads⟩ :=
    drafted.insertFreeBlock
  obtain ⟨tail, prev, ⟨third, linkOutcome, agrees, linkKeeps⟩, lastIsTail, linked⟩ :=
    links { heap with memory := second, freeHead := stop } _ agreesSecond atTail sameFollowing
  refine ⟨{ heap with memory := third, freeHead := stop, tail := tail }, ?_, ?_, rfl, rfl, ?_⟩
  · rw [insertOutcome, ok_bind]
    exact linkOutcome
  · exact ⟨stop :: frees, _, represents.inserted agrees rfl (update_other_self thisNe) rfl
      (represents.sizes this (by simp)) sizeOk stopEq rfl lastIsTail
        (linked drafted.linked) threads rfl
      notHeld bound, rfl, rfl⟩
  · exact (KeepsPayload.trans (keepsPayload_store (by simp) _) insertKeeps).trans linkKeeps

end NanoOs.KernelAllocator
