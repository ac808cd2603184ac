import NanoOs.KernelAllocatorOperations

/-!
# Release on the block map

`dealloc` of a used block never faults.  It frees the block, joins it with the
free blocks on either side, and leaves every other used block alone.
-/

namespace NanoOs.KernelAllocator

open Function List

variable {heap : LinkedListAllocator} {stop : Nat} {front back : List Nat}
  {map : BlockMap} {block : Nat}

/-- The map after the block has been freed and a free successor absorbed: the
blocks before it are unchanged and `rest` follows. -/
structure FreesNext (map later : BlockMap) (front : List Nat) (block : Nat)
    (rest : List Nat) : Prop where
  blocks : later.blocks = front ++ block :: rest
  used : later.used = Function.update map.used block false
  size : ∀ this ∈ front ++ rest, later.size this = map.size this
  kept : ∀ this ∈ map.blocks, map.used this = true → this ∈ front ++ block :: rest
  within : ∀ this ∈ rest, this ∈ map.blocks
  separated : map.Coalesced →
    (rest.IsChain fun first second => map.used first = true ∨ map.used second = true) ∧
      ∀ successor ∈ rest.head?, map.used successor = true

variable {later : BlockMap} {rest : List Nat}

private theorem freesNext_alone (position : map.blocks = front ++ block :: back)
    (laterEq : later = { map with used := update map.used block false })
    (successorUsed : ∀ successor ∈ back.head?, map.used successor = true) :
    FreesNext map later front block back := by
  subst laterEq
  refine ⟨position, rfl, fun _ _ => rfl, ?_, ?_, ?_⟩
  · intro this member _
    rwa [← position]
  · intro this inBack
    simp [position, inBack]
  · intro coalesced
    unfold BlockMap.Coalesced at coalesced
    rw [position] at coalesced
    exact ⟨(isChain_split.mp coalesced).2.tail, successorUsed⟩

private theorem freesNext_joined {next : Nat} (nodup : map.blocks.Nodup)
    (position : map.blocks = front ++ block :: next :: rest) (nextFree : map.used next = false)
    (laterEq : later =
      { blocks := front ++ block :: rest
        size := update map.size block (map.size block + (16 + map.size next))
        used := update map.used block false }) : FreesNext map later front block rest := by
  subst laterEq
  rw [position] at nodup
  obtain ⟨-, restNodup, frontApart⟩ := nodup_append.mp nodup
  have blockNew := (nodup_cons.mp restNodup).1
  refine ⟨rfl, rfl, ?_, ?_, ?_, ?_⟩
  · intro this member
    apply update_of_ne
    rintro rfl
    rcases mem_append.mp member with inFront | inRest
    · exact frontApart this inFront this (by simp) rfl
    · exact blockNew (by simp [inRest])
  · intro this member isUsed
    rw [position] at member
    simp only [mem_append, mem_cons] at member ⊢
    rcases member with inFront | isBlock | rfl | inRest
    · exact Or.inl inFront
    · exact Or.inr (Or.inl isBlock)
    · rw [nextFree] at isUsed
      cases isUsed
    · exact Or.inr (Or.inr inRest)
  · intro this inRest
    simp [position, inRest]
  · intro coalesced
    unfold BlockMap.Coalesced at coalesced
    rw [position] at coalesced
    obtain ⟨-, -, nextChain⟩ := isChain_append_cons_cons.mp coalesced
    refine ⟨nextChain.tail, ?_⟩
    intro successor isHead
    have separated := (isChain_cons.mp nextChain).1 successor isHead
    rw [nextFree] at separated
    exact separated.resolve_left Bool.false_ne_true

theorem Holds.coalesceNext (holds : Holds heap stop [] map)
    (position : map.blocks = front ++ block :: back) (isUsed : map.used block = true) :
    ∃ later rest, Becomes (heap.coalesceNext block) heap map.blocks stop [block] later ∧
      FreesNext map later front block rest := by
  have member : block ∈ map.blocks := by simp [position]
  obtain ⟨freed, freedEq, freedHolds, sameHead, sameEnd, keeps⟩ := holds.setFree member isUsed
  unfold LinkedListAllocator.coalesceNext
  rw [freedEq, ok_bind, freedHolds.header_next member, ok_bind]
  rcases freedHolds.inner_or_tail position with ⟨rfl, atTail⟩ | ⟨⟨rest, rfl⟩, inner⟩
  · rw [if_neg (fun guard => guard.1 atTail)]
    exact ⟨_, [], ⟨freed, rfl, freedHolds, sameHead, sameEnd, keeps⟩,
      freesNext_alone position rfl (by simp)⟩
  · have nextMember : block + map.size block + 16 ∈ map.blocks := by simp [position]
    have nextNe : block + map.size block + 16 ≠ block := by omega
    rw [freedHolds.header_isFree nextMember]
    cases nextUsed : map.used (block + map.size block + 16) with
    | true =>
      rw [if_neg (by simp [nextNe, nextUsed])]
      exact ⟨_, _, ⟨freed, rfl, freedHolds, sameHead, sameEnd, keeps⟩,
        freesNext_alone position rfl (by simp [nextUsed])⟩
    | false =>
      rw [if_pos ⟨inner, by simp [nextNe, nextUsed]⟩]
      have absorbed := freedHolds.absorbNext position
        (by simp [nextNe, nextUsed] : update map.used block false
          (block + map.size block + 16) = false) (by simpa using nextNe)
      obtain ⟨final, finalEq, finalHolds, finalHead, finalEnd, finalKeeps⟩ := absorbed
      refine ⟨_, rest, ⟨final, ?_, finalHolds, finalHead.trans sameHead,
        finalEnd.trans sameEnd, keeps.trans (position ▸ finalKeeps)⟩,
        freesNext_joined holds.nodup position nextUsed rfl⟩
      rw [freedHolds.header_size nextMember]
      exact finalEq

structure Releases (map later : BlockMap) (block : Nat) : Prop where
  used : ∀ this, later.IsUsed this ↔ map.IsUsed this ∧ this ≠ block
  size : ∀ this, map.IsUsed this → this ≠ block → later.size this = map.size this
  coalesced : map.Coalesced → later.Coalesced

private theorem releases_of_kept (usedEq : later.used = update map.used block false)
    (within : ∀ this ∈ later.blocks, this ∈ map.blocks)
    (kept : ∀ this, map.IsUsed this → this ≠ block →
      this ∈ later.blocks ∧ later.size this = map.size this)
    (coalesced : map.Coalesced → later.Coalesced) : Releases map later block := by
  refine ⟨?_, fun this isUsed different => (kept this isUsed different).2, coalesced⟩
  intro this
  constructor
  · rintro ⟨member, isUsed⟩
    rw [usedEq] at isUsed
    have different : this ≠ block := by
      rintro rfl
      simp at isUsed
    rw [update_of_ne different] at isUsed
    exact ⟨⟨within this member, isUsed⟩, different⟩
  · rintro ⟨isUsed, different⟩
    refine ⟨(kept this isUsed different).1, ?_⟩
    rw [usedEq, update_of_ne different]
    exact isUsed.2

section Outcomes

variable {later : BlockMap} {rest : List Nat}

private theorem FreesNext.mem_others (frees : FreesNext map later front block rest) {this : Nat}
    (isUsed : map.IsUsed this) (different : this ≠ block) : this ∈ front ++ rest := by
  have stays := frees.kept this isUsed.1 isUsed.2
  simp only [mem_append, mem_cons] at stays ⊢
  exact stays.imp_right fun stays => stays.resolve_left different

private theorem FreesNext.used_others (frees : FreesNext map later front block rest)
    (nodup : later.blocks.Nodup) :
    ∀ this ∈ front ++ rest, this ≠ block ∧ later.used this = map.used this := by
  rw [frees.blocks] at nodup
  intro this member
  have different : this ≠ block := by
    rintro rfl
    exact (nodup_cons.mp (nodup_middle.mp nodup)).1 member
  exact ⟨different, by rw [frees.used, update_of_ne different]⟩

private theorem FreesNext.mem_map (frees : FreesNext map later front block rest)
    (position : map.blocks = front ++ block :: back) :
    ∀ this ∈ later.blocks, this ∈ map.blocks := by
  intro this member
  rw [frees.blocks] at member
  simp only [mem_append, mem_cons] at member
  rcases member with inFront | rfl | inRest
  · simp [position, inFront]
  · simp [position]
  · exact frees.within this inRest

/-- The blocks on either side stay separated, whatever precedes those behind. -/
private theorem FreesNext.separated_around (frees : FreesNext map later front block rest)
    (position : map.blocks = front ++ block :: back) (nodup : later.blocks.Nodup)
    (coalesced : map.Coalesced) (previous : Nat) :
    (front.IsChain fun first second => later.used first = true ∨ later.used second = true) ∧
      (previous :: rest).IsChain fun first second =>
        later.used first = true ∨ later.used second = true := by
  have others := frees.used_others nodup
  obtain ⟨restChain, successorUsed⟩ := frees.separated coalesced
  unfold BlockMap.Coalesced at coalesced
  rw [position] at coalesced
  refine ⟨coalesced.left_of_append.imp_of_mem_imp ?_,
    isChain_cons.mpr ⟨?_, restChain.imp_of_mem_imp ?_⟩⟩
  · intro first second firstMember secondMember
    rw [(others first (by simp [firstMember])).2, (others second (by simp [secondMember])).2]
    exact id
  · intro successor isHead
    right
    rw [(others successor (by simp [mem_of_mem_head? isHead])).2]
    exact successorUsed successor isHead
  · intro first second firstMember secondMember
    rw [(others first (by simp [firstMember])).2, (others second (by simp [secondMember])).2]
    exact id

private theorem FreesNext.releases_alone (frees : FreesNext map later front block rest)
    (position : map.blocks = front ++ block :: back)
    (previousUsed : ∀ previous ∈ front.getLast?, map.used previous = true)
    (nodup : later.blocks.Nodup) : Releases map later block := by
  refine releases_of_kept frees.used (frees.mem_map position) ?_ ?_
  · intro this isUsed different
    have elsewhere := frees.mem_others isUsed different
    refine ⟨?_, frees.size this elsewhere⟩
    rw [frees.blocks]
    simp only [mem_append, mem_cons] at elsewhere ⊢
    exact elsewhere.imp_right Or.inr
  · intro coalesced
    obtain ⟨frontChain, restChain⟩ := frees.separated_around position nodup coalesced block
    unfold BlockMap.Coalesced
    rw [frees.blocks]
    refine isChain_append.mpr ⟨frontChain, restChain, ?_⟩
    intro previous isLast successor _
    left
    rw [(frees.used_others nodup previous (by simp [mem_of_getLast? isLast])).2]
    exact previousUsed previous isLast

private theorem FreesNext.releases_joined {prev size : Nat}
    (frees : FreesNext map later (front ++ [prev]) block rest)
    (position : map.blocks = (front ++ [prev]) ++ block :: back)
    (prevFree : map.used prev = false) (nodup : later.blocks.Nodup) :
    Releases map
      { later with
        blocks := front ++ prev :: rest
        size := update later.size prev size } block := by
  refine releases_of_kept frees.used ?_ ?_ ?_
  · intro this member
    apply frees.mem_map position
    rw [frees.blocks]
    simp only [mem_append, mem_cons] at member ⊢
    tauto
  · intro this isUsed different
    have elsewhere := frees.mem_others isUsed different
    have notPrev : this ≠ prev := by
      rintro rfl
      have isUsed := isUsed.2
      rw [prevFree] at isUsed
      cases isUsed
    refine ⟨by simpa using elsewhere, ?_⟩
    exact (update_of_ne notPrev _ _).trans (frees.size this elsewhere)
  · exact fun coalesced =>
      isChain_split.mpr (frees.separated_around position nodup coalesced prev)

end Outcomes

private theorem Holds.coalescePrev {middle : BlockMap} (holds : Holds heap stop [block] middle)
    (frees : FreesNext map middle front block rest)
    (position : map.blocks = front ++ block :: back) :
    ∃ later, Becomes (heap.coalescePrev block) heap middle.blocks stop [] later ∧
      Releases map later block := by
  have member : block ∈ middle.blocks := by simp [frees.blocks]
  have blockFree : middle.used block = false := by simp [frees.used]
  have inserted := holds.insertFreeBlock member blockFree not_mem_nil
  have nodup := holds.nodup
  unfold LinkedListAllocator.coalescePrev
  rw [holds.header_prev frees.blocks, ok_bind]
  rcases front.eq_nil_or_concat' with rfl | ⟨former, prev, rfl⟩
  · rw [if_neg (fun guard => guard.1 rfl)]
    exact ⟨middle, inserted, frees.releases_alone position (by simp) nodup⟩
  · have prevMember : prev ∈ middle.blocks := by simp [frees.blocks]
    have prevEq : (former ++ [prev]).getLastD 0 = prev := by simp
    have nonzero := (holds.pointer prevMember).ne_zero
    have prevUsed : middle.used prev = map.used prev :=
      (frees.used_others nodup prev (by simp)).2
    rw [prevEq, holds.header_isFree prevMember, prevUsed]
    cases isUsed : map.used prev with
    | true =>
      rw [if_neg (by simp)]
      refine ⟨middle, inserted, frees.releases_alone position ?_ nodup⟩
      simp [isUsed]
    | false =>
      rw [if_pos ⟨nonzero, rfl⟩]
      have split : middle.blocks = former ++ prev :: block :: rest := by simp [frees.blocks]
      have absorbed := holds.absorbPrev split
      rw [← split] at absorbed
      exact ⟨_, absorbed, frees.releases_joined position isUsed nodup⟩

theorem Holds.dealloc (holds : Holds heap stop [] map) (isUsed : map.IsUsed block) :
    ∃ later, Becomes (heap.dealloc (block + 16)) heap map.blocks stop [] later ∧
      Releases map later block := by
  obtain ⟨member, blockUsed⟩ := isUsed
  obtain ⟨front, back, position⟩ := append_of_mem member
  obtain ⟨middle, rest, ⟨freed, freedEq, freedHolds, freedHead, freedEnd, freedKeeps⟩, frees⟩ :=
    holds.coalesceNext position blockUsed
  obtain ⟨later, ⟨final, finalEq, finalHolds, finalHead, finalEnd, finalKeeps⟩, releases⟩ :=
    freedHolds.coalescePrev frees position
  refine ⟨later, ⟨final, ?_, finalHolds, finalHead.trans freedHead, finalEnd.trans freedEnd,
    freedKeeps.trans (finalKeeps.mono (frees.mem_map position))⟩, releases⟩
  unfold LinkedListAllocator.dealloc LinkedListAllocator.deallocAndCoalesce
  rw [if_neg (by omega), checkedSub_bind (by unfold blockHeaderSize; omega)]
  unfold blockHeaderSize
  rw [Nat.add_sub_cancel, freedEq, ok_bind]
  exact finalEq

end NanoOs.KernelAllocator
