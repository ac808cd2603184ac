import NanoOs.KernelAllocatorBlockMap

/-!
# Joining blocks

The edits of the block map made when memory is released: a block absorbs its
free physical successor, or is absorbed by its free physical predecessor.
-/

namespace NanoOs.KernelAllocator

open LinkedLists Function List LinkedListAllocator

variable {heap : LinkedListAllocator} {stop : Nat} {held blocks frees front back : List Nat}
  {headers : Headers} {map : BlockMap} {first second : Nat}

theorem Agrees.dropSecond {memory : ByteMemory}
    (agrees : Agrees memory (front ++ first :: second :: back) headers) :
    Agrees memory (front ++ first :: back) headers := by
  have sublist : (front ++ first :: back).Sublist (front ++ first :: second :: back) :=
    (List.Sublist.refl front).append ((sublist_cons_self second back).cons_cons first)
  exact ⟨fun other member => agrees.loads other (sublist.subset member),
    fun other member => agrees.storable other (sublist.subset member),
    agrees.apart.sublist sublist,
    fun other member => agrees.inHeap other (sublist.subset member)⟩

theorem Agrees.unlinkSecond
    (agrees : Agrees heap.memory (front ++ first :: second :: back) headers)
    (linked : BackLinked headers.prev 0 (front ++ first :: second :: back))
    (position : (back = [] ∧ second = heap.tail) ∨
      (∃ rest, back = headers.following second :: rest) ∧ second ≠ heap.tail)
    (lastIsTail : (front ++ first :: second :: back).getLast? = some heap.tail)
    (fits : headers.following second < 2 ^ 64) :
    ∃ tail prev,
      Yields (heap.removeFromList second) { heap with tail := tail }
        (front ++ first :: second :: back) { headers with prev := prev } ∧
      (front ++ first :: back).getLast? = some tail ∧
      BackLinked prev 0 (front ++ first :: back) := by
  have rearranged : front ++ first :: second :: back = (front ++ [first]) ++ second :: back := by
    simp
  have nodup := agrees.nodup
  have linkedBoth := linked
  rw [rearranged] at linkedBoth nodup
  have prevSecond : headers.prev second = first := by
    simpa using linkedBoth.previous_eq
  have secondMember : second ∈ front ++ first :: second :: back := by simp
  have prevMember : headers.prev second ∈ front ++ first :: second :: back := by
    simp [prevSecond]
  rcases position with ⟨rfl, atTail⟩ | ⟨⟨rest, rfl⟩, inner⟩
  · refine ⟨headers.prev second, headers.prev,
      agrees.removeFromList_tail secondMember prevMember atTail fits, by simp [prevSecond], ?_⟩
    simpa using linkedBoth.remove (fun _ _ => rfl) (by simp) (by simp)
  · have nextMember : second + headers.size second + 16 ∈
        front ++ first :: second :: headers.following second :: rest := by
      simp [Headers.following]
    have kept : ∀ other ∈ (front ++ [first]) ++ rest, (headers.setPrev (second +
        headers.size second + 16) (headers.prev second)).prev other = headers.prev other :=
      fun other member =>
        update_of_ne ((ne_of_nodup_neighbours nodup).2 other member).2 _ _
    refine ⟨heap.tail, _,
      agrees.removeFromList_inner secondMember prevMember inner nextMember, ?_, ?_⟩
    · simpa [getLast?_append, getLast?_cons] using lastIsTail
    · have joined : BackLinked (headers.setPrev (second + headers.size second + 16)
          (headers.prev second)).prev 0
          ((front ++ [first]) ++ headers.following second :: rest) := by
        apply linkedBoth.remove
        · exact fun other member => kept other (mem_append_left _ member)
        · intro other head
          have equal : headers.following second = other := by simpa using head
          subst equal
          have last : (front ++ [first]).getLastD 0 = first := by simp
          rw [prevSecond, last]
          exact update_self _ _ _
        · exact fun other inRest => kept other (mem_append_right _ inRest)
      simpa [Headers.setPrev] using joined

theorem Represents.second_inner_or_tail
    (represents : Represents heap stop held (front ++ first :: second :: back) frees headers) :
    (back = [] ∧ second = heap.tail) ∨
      (∃ rest, back = headers.following second :: rest) ∧ second ≠ heap.tail := by
  have rearranged : front ++ first :: second :: back = (front ++ [first]) ++ second :: back := by
    simp
  rw [rearranged] at represents
  exact represents.inner_or_tail

/-- The block list after `first` has taken over the space of `second`. -/
theorem Represents.joined {after : LinkedListAllocator} {listed remaining : List Nat}
    {changed : Headers}
    (represents : Represents heap stop held (front ++ first :: second :: back) frees headers)
    (agrees : Agrees after.memory (front ++ first :: second :: back) changed)
    (sameHead : after.head = heap.head)
    (size : changed.size =
      update headers.size first (headers.size first + (16 + headers.size second)))
    (usedBits : changed.used = headers.used)
    (lastIsTail : (front ++ first :: back).getLast? = some after.tail)
    (linked : BackLinked changed.prev 0 (front ++ first :: back))
    (threads : (changed.freeLinks after.freeHead).Threads 0 listed)
    (listing : ∀ this, this ∈ listed ↔ this ∈ front ++ first :: second :: back ∧
      headers.used this = false ∧ this ∉ second :: remaining) :
    Represents after stop remaining (front ++ first :: back) listed changed := by
  obtain ⟨frontTiles, restTiles⟩ := represents.around
  obtain ⟨firstEnd, secondEnd⟩ := restTiles
  obtain ⟨secondNe, others⟩ := ne_of_nodup_neighbours represents.nodup
  have sizeOthers : ∀ other ∈ front ++ back, changed.size other = headers.size other := by
    intro other member
    rw [size, update_of_ne (others other member).1]
  have sizeFirst : changed.size first = headers.size first + (16 + headers.size second) := by
    rw [size, update_self]
  have sameFollowing : ∀ other ∈ front ++ back,
      changed.following other = headers.following other := by
    intro other member
    simp only [Headers.following, sizeOthers other member]
  have secondApart : second ∉ front ++ first :: back := by
    have elsewhere : second ∉ front ++ back := fun member => (others second member).2 rfl
    simp only [mem_append, mem_cons] at elsewhere ⊢
    tauto
  refine ⟨agrees.dropSecond, ?_, lastIsTail, ?_, linked, threads, ?_, represents.stopBound⟩
  · rw [sameHead]
    refine segment_append.mpr ⟨first, ?_, rfl, ?_⟩
    · apply frontTiles.congr
      intro other inFront
      exact sameFollowing other (by simp [inFront])
    · have reach : changed.following first = headers.following second := by
        simp only [Headers.following] at firstEnd ⊢
        omega
      rw [reach]
      apply secondEnd.congr
      intro other inBack
      exact sameFollowing other (by simp [inBack])
  · intro other member
    by_cases equal : other = first
    · subst equal
      have firstOk := represents.sizes other (by simp)
      have secondOk := represents.sizes second (by simp)
      omega
    · have elsewhere : other ∈ front ++ back := by
        simp only [mem_append, mem_cons] at member ⊢
        tauto
      rw [sizeOthers other elsewhere]
      apply represents.sizes
      simp only [mem_append, mem_cons] at member ⊢
      tauto
  · intro other
    rw [listing, usedBits]
    by_cases equal : other = second
    · subst equal
      simp [secondApart]
    · simp [equal]

theorem Holds.absorbNext (holds : Holds heap stop held map)
    (position : map.blocks = front ++ first :: second :: back)
    (isFree : map.used second = false) (notHeld : second ∉ held) :
    Becomes
      (do
        let heap ← heap.editHeader first (·.addSize (16 + map.size second))
        let heap ← heap.removeFreeBlock second
        heap.removeFromList second)
      heap (front ++ first :: second :: back) stop held
      { map with
        blocks := front ++ first :: back
        size := update map.size first (map.size first + (16 + map.size second)) } := by
  obtain ⟨blocks, size, used⟩ := map
  obtain ⟨frees, headers, represents, rfl, rfl⟩ := holds
  obtain rfl : blocks = front ++ first :: second :: back := position
  have firstMember : first ∈ front ++ first :: second :: back := by simp
  have secondMember : second ∈ front ++ first :: second :: back := by simp
  have listed : second ∈ frees := (represents.free second).mpr ⟨secondMember, isFree, notHeld⟩
  obtain ⟨former, latter, rfl⟩ := append_of_mem listed
  have firstLt := represents.size_lt firstMember
  have secondLt := represents.size_lt secondMember
  have finish := represents.following_le secondMember
  have bound := represents.stopBound
  have secondNe := (ne_of_nodup_neighbours represents.nodup).1
  obtain ⟨memory1, outcome1, agrees1, keeps1⟩ :=
    represents.agrees.addSize firstMember
      (show headers.size first + (16 + headers.size second) < 2 ^ 32 by omega)
  obtain ⟨prevLink, nextLink, prevNe⟩ := represents.freeNeighbours
  have agreesGrown : Agrees (memory { heap with memory := memory1 })
      (front ++ first :: second :: back)
      (headers.setSize first (headers.size first + (16 + headers.size second))) := agrees1
  obtain ⟨memory2, outcome2, agrees2, keeps2⟩ :=
    agreesGrown.removeFreeBlock secondMember prevLink nextLink prevNe
  have sameFollowing :
      ((headers.setSize first (headers.size first + (16 + headers.size second))).withFreeLinks
        ((headers.freeLinks heap.freeHead).unlink 0 second)).following second =
      headers.following second := by
    simp [Headers.following, Headers.setSize, Headers.withFreeLinks, secondNe]
  have agreesUnlisted : Agrees
      (memory
        { heap with
          memory := memory2
          freeHead := ((headers.freeLinks heap.freeHead).unlink 0 second).first })
      (front ++ first :: second :: back)
      ((headers.setSize first (headers.size first + (16 + headers.size second))).withFreeLinks
        ((headers.freeLinks heap.freeHead).unlink 0 second)) := agrees2
  obtain ⟨tail, prev, ⟨memory3, outcome3, agrees3, keeps3⟩, lastIsTail, linked⟩ :=
    agreesUnlisted.unlinkSecond represents.back
      (by rw [sameFollowing]; exact represents.second_inner_or_tail)
      represents.lastIsTail (by rw [sameFollowing]; omega)
  refine ⟨{ heap with
      memory := memory3
      freeHead := ((headers.freeLinks heap.freeHead).unlink 0 second).first
      tail := tail }, ?_, ?_, rfl, rfl, (keeps1.trans keeps2).trans keeps3⟩
  · rw [outcome1, ok_bind]
    exact (congrArg (· >>= _) outcome2).trans outcome3
  · have result : Represents
        { heap with
          memory := memory3
          freeHead := ((headers.freeLinks heap.freeHead).unlink 0 second).first
          tail := tail }
        stop held (front ++ first :: back) (former ++ latter)
        { (headers.setSize first (headers.size first + (16 + headers.size second))).withFreeLinks
            ((headers.freeLinks heap.freeHead).unlink 0 second) with prev := prev } :=
      represents.joined agrees3 rfl rfl rfl lastIsTail linked represents.threads.unlink
        (mem_removed represents.threads.nodup represents.free)
    exact result.holds

theorem Holds.absorbPrev (holds : Holds heap stop (second :: held) map)
    (position : map.blocks = front ++ first :: second :: back) :
    Becomes
      (do
        let heap ← heap.removeFromList second
        let size := (heap.header second).size
        heap.editHeader first (·.addSize (16 + size)))
      heap (front ++ first :: second :: back) stop held
      { map with
        blocks := front ++ first :: back
        size := update map.size first (map.size first + (16 + map.size second)) } := by
  obtain ⟨blocks, size, used⟩ := map
  obtain ⟨frees, headers, represents, rfl, rfl⟩ := holds
  obtain rfl : blocks = front ++ first :: second :: back := position
  have firstMember : first ∈ front ++ first :: second :: back := by simp
  have secondMember : second ∈ front ++ first :: second :: back := by simp
  have firstLt := represents.size_lt firstMember
  have secondLt := represents.size_lt secondMember
  have finish := represents.following_le secondMember
  have bound := represents.stopBound
  obtain ⟨tail, prev, ⟨memory1, outcome1, agrees1, keeps1⟩, lastIsTail, linked⟩ :=
    represents.agrees.unlinkSecond represents.back represents.second_inner_or_tail
      represents.lastIsTail (by omega)
  have agreesUnlinked : Agrees
      (memory { heap with memory := memory1, tail := tail })
      (front ++ first :: second :: back) { headers with prev := prev } := agrees1
  obtain ⟨memory2, outcome2, agrees2, keeps2⟩ :=
    agreesUnlinked.addSize firstMember
      (show headers.size first + (16 + headers.size second) < 2 ^ 32 by omega)
  refine ⟨{ heap with memory := memory2, tail := tail }, ?_, ?_, rfl, rfl, keeps1.trans keeps2⟩
  · rw [outcome1, ok_bind]
    rw [agreesUnlinked.header_size secondMember]
    exact outcome2
  · have result : Represents { heap with memory := memory2, tail := tail } stop held
        (front ++ first :: back) frees
        (Headers.setSize { headers with prev := prev } first
          (headers.size first + (16 + headers.size second))) :=
      represents.joined agrees2 rfl rfl rfl lastIsTail linked represents.threads
        represents.free
    exact result.holds

end NanoOs.KernelAllocator
