import NanoOs.PageAllocator
import Mathlib.Data.List.Perm.Subperm
import Mathlib.Data.List.Nodup
import Mathlib.Data.List.Range

/-!
# Pages are handed out once

Runs of the page allocator together with the holders of its pages, who may
overwrite the pages they hold.  The nodes of the free list lie in free pages
only, so what holders write never reaches them.
-/

namespace NanoOs.PageAllocator

open Memory LinkedLists List ByteMemory

def blockPages (address count : Nat) : List Nat :=
  (List.range count).map fun index => address + index * pageSize

def regionPages (region : Region) : List Nat :=
  blockPages region.start ((region.stop - region.start) / pageSize)

def freeList (memory : ByteMemory) (nodes : List Nat) : List Nat :=
  nodes.flatMap fun node => blockPages node (pageCount memory node)

structure Holding where
  allocator : PageAllocator
  memory : ByteMemory
  held : List Nat

/-- The page lies in a block of the free list, which ends at the null address. -/
def OnFreeList (allocator : PageAllocator) (memory : ByteMemory) (page : Nat) : Prop :=
  ∃ nodes, Segment (next memory) allocator.head nodes 0 ∧ 0 ∉ nodes ∧ page ∈ freeList memory nodes

/-- The states reached from a state.  Between calls every byte may change that
is not in a page of the free list. -/
inductive Later (start : Holding) : Holding → Prop
  | start : Later start start
  | alloc {state : Holding} {page : Option Nat} {allocator : PageAllocator} {memory : ByteMemory}
      (reached : Later start state)
      (ran : state.allocator.alloc state.memory = .ok (page, allocator, memory)) :
      Later start ⟨allocator, memory, page.toList ++ state.held⟩
  | dealloc {state : Holding} {allocator : PageAllocator} {memory : ByteMemory} {ptr count : Nat}
      (reached : Later start state) (positive : 0 < count)
      (owned : ∀ page ∈ blockPages ptr count, page ∈ state.held)
      (ran : state.allocator.dealloc state.memory ptr count = .ok (allocator, memory)) :
      Later start ⟨allocator, memory, state.held.filter fun page => page ∉ blockPages ptr count⟩
  | overwrite {state : Holding} (reached : Later start state) (memory : ByteMemory)
      (kept : ∀ page, OnFreeList state.allocator state.memory page →
        ∀ offset < pageSize, memory (page + offset) = state.memory (page + offset)) :
      Later start { state with memory := memory }

/-- The states reached from `init`. -/
def Reaches (regions : List Region) (state : Holding) : Prop :=
  ∃ (allocator booted : PageAllocator) (memory after : ByteMemory),
    allocator.init memory regions = .ok (booted, after) ∧ Later ⟨booted, after, []⟩ state

structure PageSet (pages : List Nat) : Prop where
  nodup : pages.Nodup
  aligned : ∀ page ∈ pages, page % pageSize = 0
  nonzero : 0 ∉ pages
  bounded : ∀ page ∈ pages, page + pageSize ≤ 2 ^ 64

/-- The free list of a state: its nodes describe exactly the pages that are not
held.  The count of free pages may include lost ones. -/
structure Lists (pages : List Nat) (lost : Nat) (state : Holding) (nodes : List Nat) :
    Prop where
  linked : Segment (next state.memory) state.allocator.head nodes 0
  positive : ∀ node ∈ nodes, 0 < pageCount state.memory node
  partition : (freeList state.memory nodes ++ state.held).Perm pages
  counted : state.allocator.freePages = (freeList state.memory nodes).length + lost
  room : pages.length + lost < 2 ^ 64

section Blocks

variable {address count page : Nat}

theorem mem_blockPages :
    page ∈ blockPages address count ↔ ∃ index < count, page = address + index * pageSize := by
  simp [blockPages, eq_comm]

theorem length_blockPages : (blockPages address count).length = count := by
  simp [blockPages]

theorem self_mem_blockPages (positive : 0 < count) : address ∈ blockPages address count :=
  mem_blockPages.mpr ⟨0, positive, by simp⟩

theorem blockPages_succ :
    blockPages address (count + 1) = blockPages address count ++ [address + count * pageSize] := by
  simp [blockPages, range_succ]

theorem nodup_blockPages : (blockPages address count).Nodup := by
  refine List.Nodup.map ?_ nodup_range
  intro first second equal
  have equal : address + first * pageSize = address + second * pageSize := equal
  unfold pageSize at equal
  omega

end Blocks

theorem apart_of_ne {first second : Nat} (firstAligned : first % pageSize = 0)
    (secondAligned : second % pageSize = 0) (different : first ≠ second) :
    first + 16 ≤ second ∨ second + 16 ≤ first := by
  unfold pageSize at firstAligned secondAligned
  omega

variable {count node page lost : Nat} {pages nodes : List Nat} {allocator : PageAllocator}
  {memory : ByteMemory} {region : Region} {regions : List Region} {state : Holding}

section Words

variable {memory : ByteMemory} {node other value : Nat}

theorem next_setNext (fits : value < 2 ^ 64) : next (setNext memory node value) node = value :=
  readWord_writeWord_of_lt memory (by omega)

theorem pageCount_setPageCount (fits : value < 2 ^ 64) :
    pageCount (setPageCount memory node value) node = value :=
  readWord_writeWord_of_lt memory (by omega)

theorem next_setPageCount : next (setPageCount memory node value) node = next memory node :=
  readWord_writeWord_disjoint memory (Or.inl (Nat.le_refl _))

theorem node_setNext_apart (apart : node + 16 ≤ other ∨ other + 16 ≤ node) :
    next (setNext memory node value) other = next memory other ∧
      pageCount (setNext memory node value) other = pageCount memory other :=
  ⟨readWord_writeWord_disjoint memory (by omega),
    readWord_writeWord_disjoint memory (by omega)⟩

theorem node_setPageCount_apart (apart : node + 16 ≤ other ∨ other + 16 ≤ node) :
    next (setPageCount memory node value) other = next memory other ∧
      pageCount (setPageCount memory node value) other = pageCount memory other :=
  ⟨readWord_writeWord_disjoint memory (by omega),
    readWord_writeWord_disjoint memory (by omega)⟩

def setNode (memory : ByteMemory) (node link count : Nat) : ByteMemory :=
  setPageCount (setNext memory node link) node count

theorem next_setNode {link : Nat} (fits : link < 2 ^ 64) :
    next (setNode memory node link count) node = link :=
  next_setPageCount.trans (next_setNext fits)

theorem pageCount_setNode {link : Nat} (fits : count < 2 ^ 64) :
    pageCount (setNode memory node link count) node = count :=
  pageCount_setPageCount fits

theorem node_setNode_apart (link count : Nat) (apart : node + 16 ≤ other ∨ other + 16 ≤ node) :
    next (setNode memory node link count) other = next memory other ∧
      pageCount (setNode memory node link count) other = pageCount memory other := by
  have linked : next (setNext memory node link) other = next memory other ∧
      pageCount (setNext memory node link) other = pageCount memory other :=
    node_setNext_apart apart
  obtain ⟨sameNext, sameCount⟩ := linked
  rw [← sameNext, ← sameCount]
  exact node_setPageCount_apart apart

theorem node_congr {changed : ByteMemory}
    (same : ∀ offset < pageSize, changed (node + offset) = memory (node + offset)) :
    next changed node = next memory node ∧ pageCount changed node = pageCount memory node := by
  have agree : ∀ location, node ≤ location → location < node + 16 →
      changed location = memory location := by
    intro location lower upper
    have offsetEq : node + (location - node) = location := by omega
    rw [← offsetEq]
    exact same _ (by unfold pageSize; omega)
  constructor
  · exact readWord_congr fun location lower upper => agree location lower (by omega)
  · exact readWord_congr fun location lower upper =>
      agree location (by omega) (by omega)

end Words

theorem length_lt_of_nodup (nodup : pages.Nodup)
    (bounded : ∀ page ∈ pages, page + pageSize ≤ 2 ^ 64) : pages.length < 2 ^ 64 := by
  have below : pages ⊆ range (2 ^ 64 - 1) := by
    intro page member
    have bound := bounded page member
    unfold pageSize at bound
    exact mem_range.mpr (by omega)
  have length := (nodup.subperm below).length_le
  rw [length_range] at length
  omega

theorem alloc_eq {remaining : Nat} (headEq : allocator.head = node) (nonzero : node ≠ 0)
    (countEq : pageCount memory node = remaining + 1)
    (fits : node + remaining * pageSize < 2 ^ 64) (positive : 1 ≤ allocator.freePages) :
    allocator.alloc memory =
      .ok (some (node + remaining * pageSize),
        { allocator with
          head := if remaining = 0 then next (setPageCount memory node remaining) node else node
          freePages := allocator.freePages - 1 },
        if remaining = 0 then setNext (setPageCount memory node remaining) node 0
        else setPageCount memory node remaining) := by
  have one : checkedSub (remaining + 1) 1 = .ok remaining :=
    checkedSub_of_le (Nat.le_add_left 1 remaining)
  have offset := checkedMul_of_lt (Nat.lt_of_le_of_lt (Nat.le_add_left _ node) fits)
  unfold PageAllocator.alloc
  simp only [headEq, if_neg nonzero, countEq, one, ok_bind, offset, checkedAdd_of_lt fits,
    checkedSub_of_le positive]
  by_cases isLast : remaining = 0
  · simp only [if_pos isLast]
  · simp only [if_neg isLast]

section Lists

variable {pages nodes : List Nat} {lost : Nat} {state : Holding} {memory : ByteMemory}
  {rest : List Nat} {ptr : Nat}

theorem freeList_cons :
    freeList memory (node :: rest) =
      blockPages node (pageCount memory node) ++ freeList memory rest :=
  rfl

theorem freeList_congr {changed : ByteMemory}
    (same : ∀ node ∈ nodes, pageCount changed node = pageCount memory node) :
    freeList changed nodes = freeList memory nodes := by
  refine flatMap_congr ?_
  intro node member
  rw [same node member]

section

variable (lists : Lists pages lost state nodes)

include lists

theorem Lists.node_mem (member : node ∈ nodes) : node ∈ freeList state.memory nodes :=
  mem_flatMap.mpr ⟨node, member, self_mem_blockPages (lists.positive node member)⟩

theorem Lists.free_mem (member : page ∈ freeList state.memory nodes) : page ∈ pages :=
  lists.partition.subset (mem_append_left _ member)

theorem Lists.held_mem (member : page ∈ state.held) : page ∈ pages :=
  lists.partition.subset (mem_append_right _ member)

theorem Lists.nodup (pageSet : PageSet pages) : (freeList state.memory nodes ++ state.held).Nodup :=
  lists.partition.nodup_iff.mpr pageSet.nodup

theorem Lists.head_lt (pageSet : PageSet pages) : state.allocator.head < 2 ^ 64 := by
  cases nodes with
  | nil =>
    have isNull : state.allocator.head = 0 := lists.linked
    omega
  | cons node rest =>
    have bound := pageSet.bounded node (lists.free_mem (lists.node_mem mem_cons_self))
    have isHead : state.allocator.head = node := lists.linked.1
    unfold pageSize at bound
    omega

theorem Lists.overwrite
    (same : ∀ node ∈ nodes, next memory node = next state.memory node ∧
      pageCount memory node = pageCount state.memory node) :
    Lists pages lost { state with memory := memory } nodes := by
  have sameFree := freeList_congr fun node member => (same node member).2
  refine ⟨lists.linked.congr fun node member => (same node member).1, ?_, ?_, ?_, lists.room⟩
  · intro node member
    rw [(same node member).2]
    exact lists.positive node member
  · rw [sameFree]
    exact lists.partition
  · rw [sameFree]
    exact lists.counted

end

theorem perm_returned {held returned : List Nat} (heldNodup : held.Nodup)
    (returnedNodup : returned.Nodup) (owned : ∀ page ∈ returned, page ∈ held) :
    (returned ++ held.filter fun page => page ∉ returned).Perm held := by
  refine (perm_ext_iff_of_nodup ?_ heldNodup).mpr ?_
  · refine returnedNodup.append (heldNodup.filter _) ?_
    intro page isReturned isKept
    simp [isReturned] at isKept
  · intro page
    by_cases isReturned : page ∈ returned
    · simp [isReturned, owned page isReturned]
    · simp [isReturned]

theorem Lists.returned_le (lists : Lists pages lost state nodes)
    (returned : (blockPages ptr count ++ state.held.filter fun page =>
      page ∉ blockPages ptr count).Perm state.held) :
    state.allocator.freePages + count ≤ pages.length + lost := by
  have total := lists.partition.length_eq
  have heldLength := returned.length_eq
  rw [length_append] at total heldLength
  rw [length_blockPages] at heldLength
  rw [lists.counted]
  omega

theorem Lists.apart_of_held (lists : Lists pages lost state nodes) (pageSet : PageSet pages)
    (isHeld : ptr ∈ state.held) (member : node ∈ nodes) : ptr + 16 ≤ node ∨ node + 16 ≤ ptr := by
  have isFree := lists.node_mem member
  have different : ptr ≠ node := by
    rintro rfl
    exact (nodup_append.mp (lists.nodup pageSet)).2.2 ptr isFree ptr isHeld rfl
  exact apart_of_ne (pageSet.aligned ptr (lists.held_mem isHeld))
    (pageSet.aligned node (lists.free_mem isFree)) different

theorem Lists.dealloc (lists : Lists pages lost state nodes) (pageSet : PageSet pages)
    (positive : 0 < count) (owned : ∀ page ∈ blockPages ptr count, page ∈ state.held) :
    ∃ allocator after, state.allocator.dealloc state.memory ptr count = .ok (allocator, after) ∧
      Lists pages lost
        ⟨allocator, after, state.held.filter fun page => page ∉ blockPages ptr count⟩
        (ptr :: nodes) := by
  have heldNodup := (nodup_append.mp (lists.nodup pageSet)).2.1
  have returned := perm_returned heldNodup nodup_blockPages owned
  have lengths := lists.returned_le returned
  have small := lists.room
  have rest := lists.overwrite fun node member =>
    node_setNode_apart state.allocator.head count
      (lists.apart_of_held pageSet (owned ptr (self_mem_blockPages positive)) member)
  have newCount : pageCount (setNode state.memory ptr state.allocator.head count) ptr = count :=
    pageCount_setNode (by omega)
  have counted : state.allocator.freePages = (freeList _ nodes).length + lost := rest.counted
  refine ⟨{ state.allocator with head := ptr, freePages := state.allocator.freePages + count },
    setNode state.memory ptr state.allocator.head count, ?_, ⟨rfl, ?_⟩, ?_, ?_, ?_, lists.room⟩
  · unfold PageAllocator.dealloc
    rw [checkedAdd_bind (by omega)]
    rfl
  · rw [next_setNode (lists.head_lt pageSet)]
    exact rest.linked
  · intro node member
    rcases mem_cons.mp member with rfl | isOld
    · rw [newCount]
      exact positive
    · exact rest.positive node isOld
  · rw [freeList_cons, newCount]
    refine List.Perm.trans ?_ rest.partition
    refine List.Perm.trans ?_ (List.Perm.append_left _ returned)
    rw [← append_assoc]
    exact perm_append_comm.append_right _
  · rw [freeList_cons, newCount, length_append, length_blockPages]
    dsimp only at counted ⊢
    omega

theorem Lists.apart {node other : Nat} {rest : List Nat}
    (lists : Lists pages lost state (node :: rest)) (pageSet : PageSet pages)
    (member : other ∈ rest) :
    node + 16 ≤ other ∨ other + 16 ≤ node := by
  have nodeFree := lists.node_mem mem_cons_self
  have otherFree := lists.node_mem (mem_cons_of_mem node member)
  have different : node ≠ other := by
    rintro rfl
    have separate := (nodup_append.mp (lists.nodup pageSet)).1
    refine (nodup_append.mp separate).2.2 node ?_ node ?_ rfl
    · exact self_mem_blockPages (lists.positive node mem_cons_self)
    · exact mem_flatMap.mpr
        ⟨node, member, self_mem_blockPages (lists.positive node mem_cons_self)⟩
  exact apart_of_ne (pageSet.aligned node (lists.free_mem nodeFree))
    (pageSet.aligned other (lists.free_mem otherFree)) different

theorem Lists.give {remaining : List Nat} (lists : Lists pages lost state nodes)
    (linked : Segment (next memory) allocator.head remaining 0)
    (positive : ∀ node ∈ remaining, 0 < pageCount memory node)
    (given : (freeList memory remaining ++ [page]).Perm (freeList state.memory nodes))
    (counted : allocator.freePages = state.allocator.freePages - 1) :
    Lists pages lost ⟨allocator, memory, page :: state.held⟩ remaining := by
  refine ⟨linked, positive, ?_, ?_, lists.room⟩
  · refine List.Perm.trans ?_ lists.partition
    refine List.Perm.trans ?_ (given.append_right state.held)
    rw [append_assoc]
    exact List.Perm.refl _
  · have lengths := given.length_eq
    rw [length_append, length_singleton] at lengths
    dsimp only
    rw [counted, lists.counted]
    omega

theorem Lists.alloc_first {remaining : Nat} (lists : Lists pages lost state (node :: rest))
    (pageSet : PageSet pages) (countEq : pageCount state.memory node = remaining + 1) :
    node + remaining * pageSize ∉ state.held ∧ remaining < 2 ^ 64 ∧
      state.allocator.alloc state.memory =
        .ok (some (node + remaining * pageSize),
          { state.allocator with
            head := if remaining = 0 then next (setPageCount state.memory node remaining) node
              else node
            freePages := state.allocator.freePages - 1 },
          if remaining = 0 then setNext (setPageCount state.memory node remaining) node 0
          else setPageCount state.memory node remaining) := by
  have pageFree : node + remaining * pageSize ∈ freeList state.memory (node :: rest) := by
    rw [freeList_cons, countEq, blockPages_succ]
    simp
  have pageBound := pageSet.bounded _ (lists.free_mem pageFree)
  have fits : node + remaining * pageSize < 2 ^ 64 ∧ remaining < 2 ^ 64 := by
    unfold pageSize at pageBound ⊢
    omega
  have nodeNonzero : node ≠ 0 := by
    rintro rfl
    exact pageSet.nonzero (lists.free_mem (lists.node_mem mem_cons_self))
  have freePositive : 1 ≤ state.allocator.freePages := by
    rw [lists.counted]
    exact (length_pos_of_mem pageFree).trans_le (Nat.le_add_right _ _)
  refine ⟨fun isHeld => ?_, fits.2, alloc_eq lists.linked.1 nodeNonzero countEq fits.1 freePositive⟩
  exact (nodup_append.mp (lists.nodup pageSet)).2.2 _ pageFree _ isHeld rfl

/-- The first block gives up its last page; the page of the node itself goes
last. -/
theorem Lists.alloc_cons (lists : Lists pages lost state (node :: rest)) (pageSet : PageSet pages) :
    ∃ page allocator after nodes, state.allocator.alloc state.memory =
        .ok (some page, allocator, after) ∧ page ∉ state.held ∧
      Lists pages lost ⟨allocator, after, page :: state.held⟩ nodes := by
  obtain ⟨remaining, countEq⟩ : ∃ remaining, pageCount state.memory node = remaining + 1 :=
    Nat.exists_eq_succ_of_ne_zero (lists.positive node mem_cons_self).ne'
  obtain ⟨notHeld, small, allocEq⟩ := lists.alloc_first pageSet countEq
  have restLinked : Segment (next state.memory) (next state.memory node) rest 0 := lists.linked.2
  have freeEq : freeList state.memory (node :: rest) =
      blockPages node remaining ++ [node + remaining * pageSize] ++ freeList state.memory rest := by
    rw [freeList_cons, countEq, blockPages_succ]
  have shrunk : ∀ other ∈ rest,
      next (setPageCount state.memory node remaining) other = next state.memory other ∧
        pageCount (setPageCount state.memory node remaining) other =
          pageCount state.memory other :=
    fun other member => node_setPageCount_apart (lists.apart pageSet member)
  by_cases isLast : remaining = 0
  · subst isLast
    have emptied : ∀ other ∈ rest,
        next (setNext (setPageCount state.memory node 0) node 0) other = next state.memory other ∧
          pageCount (setNext (setPageCount state.memory node 0) node 0) other =
            pageCount state.memory other := by
      intro other member
      obtain ⟨sameNext, sameCount⟩ := node_setNext_apart (lists.apart pageSet member)
      exact ⟨sameNext.trans (shrunk other member).1, sameCount.trans (shrunk other member).2⟩
    refine ⟨_, _, _, rest, allocEq, notHeld, lists.give ?_ ?_ ?_ rfl⟩
    · simp only [if_true, next_setPageCount]
      exact restLinked.congr fun other member => (emptied other member).1
    · intro other member
      simp only [if_true, (emptied other member).2]
      exact lists.positive other (mem_cons_of_mem node member)
    · rw [if_pos rfl, freeList_congr fun other member => (emptied other member).2, freeEq]
      simp [blockPages]
  · have newCount : pageCount (setPageCount state.memory node remaining) node = remaining :=
      pageCount_setPageCount small
    refine ⟨_, _, _, node :: rest, allocEq, notHeld, lists.give ⟨if_neg isLast, ?_⟩ ?_ ?_ rfl⟩
    · simp only [if_neg isLast, next_setPageCount]
      exact restLinked.congr fun other member => (shrunk other member).1
    · intro other member
      rw [if_neg isLast]
      rcases mem_cons.mp member with rfl | isRest
      · rw [newCount]
        exact Nat.pos_of_ne_zero isLast
      · rw [(shrunk other isRest).2]
        exact lists.positive other member
    · rw [if_neg isLast, freeList_cons, newCount,
        freeList_congr fun other member => (shrunk other member).2, freeEq, append_assoc,
        append_assoc]
      exact List.Perm.append_left _ perm_append_comm

theorem Lists.alloc_nil (lists : Lists pages lost state []) :
    state.allocator.alloc state.memory = .ok (none, state.allocator, state.memory) :=
  if_pos lists.linked

end Lists

/-- The regions `init` is called with: page-aligned, non-empty and pairwise
disjoint. -/
structure Usable (regions : List Region) : Prop where
  aligned : ∀ region ∈ regions, region.start % pageSize = 0 ∧ region.stop % pageSize = 0
  nonempty : ∀ region ∈ regions, region.start < region.stop
  bounded : ∀ region ∈ regions, region.stop < 2 ^ 64
  disjoint : regions.Pairwise fun first second =>
    first.stop ≤ second.start ∨ second.stop ≤ first.start

theorem mem_regionPages (startAligned : region.start % pageSize = 0)
    (stopAligned : region.stop % pageSize = 0) :
    page ∈ regionPages region ↔
      page % pageSize = 0 ∧ region.start ≤ page ∧ page + pageSize ≤ region.stop := by
  unfold regionPages
  rw [mem_blockPages]
  unfold pageSize at startAligned stopAligned ⊢
  constructor
  · rintro ⟨index, bound, rfl⟩
    omega
  · rintro ⟨aligned, lower, upper⟩
    exact ⟨(page - region.start) / 4096, by omega, by omega⟩

section Usable

variable {regions : List Region}

theorem Usable.located (usable : Usable regions) (member : page ∈ regions.flatMap regionPages) :
    ∃ region ∈ regions,
      page % pageSize = 0 ∧ region.start ≤ page ∧ page + pageSize ≤ region.stop := by
  obtain ⟨region, isRegion, inRegion⟩ := mem_flatMap.mp member
  obtain ⟨startAligned, stopAligned⟩ := usable.aligned region isRegion
  exact ⟨region, isRegion, (mem_regionPages startAligned stopAligned).mp inRegion⟩

theorem Usable.nodup (usable : Usable regions) : (regions.flatMap regionPages).Nodup := by
  refine nodup_flatMap.mpr ⟨fun region _ => nodup_blockPages, ?_⟩
  refine usable.disjoint.imp_of_mem ?_
  intro first second firstMember secondMember apart page inFirst inSecond
  obtain ⟨firstStart, firstStop⟩ := usable.aligned first firstMember
  obtain ⟨secondStart, secondStop⟩ := usable.aligned second secondMember
  have firstBounds := (mem_regionPages firstStart firstStop).mp inFirst
  have secondBounds := (mem_regionPages secondStart secondStop).mp inSecond
  unfold pageSize at firstBounds secondBounds
  omega

theorem Usable.bounded_pages (usable : Usable regions) :
    ∀ page ∈ regions.flatMap regionPages, page + pageSize ≤ 2 ^ 64 := by
  intro page member
  obtain ⟨region, isRegion, _, _, upper⟩ := usable.located member
  have bound := usable.bounded region isRegion
  omega

theorem Usable.pageSet (usable : Usable regions)
    (nonnull : ∀ region ∈ regions, region.start ≠ 0) : PageSet (regions.flatMap regionPages) := by
  refine ⟨usable.nodup, ?_, ?_, usable.bounded_pages⟩
  · intro page member
    obtain ⟨_, _, aligned, _⟩ := usable.located member
    exact aligned
  · intro member
    obtain ⟨region, isRegion, _, lower, _⟩ := usable.located member
    exact nonnull region isRegion (Nat.le_zero.mp lower)

end Usable

theorem Usable.tail {rest : List Region} (usable : Usable (region :: rest)) : Usable rest :=
  ⟨fun other member => usable.aligned other (mem_cons_of_mem region member),
    fun other member => usable.nonempty other (mem_cons_of_mem region member),
    fun other member => usable.bounded other (mem_cons_of_mem region member),
    usable.disjoint.of_cons⟩

theorem filter_notMem_append {first second : List Nat} (nodup : (first ++ second).Nodup) :
    ((first ++ second).filter fun page => page ∉ first) = second := by
  obtain ⟨-, -, separate⟩ := nodup_append.mp nodup
  rw [filter_append, filter_eq_nil_iff.mpr, nil_append, filter_eq_self]
  · intro page isSecond
    simp only [decide_eq_true_eq]
    exact fun isFirst => separate page isFirst page isSecond rfl
  · intro page isFirst
    simp [isFirst]

theorem initFrom_cons (rest : List Region) (allocator : PageAllocator) (memory : ByteMemory)
    (startAligned : region.start % pageSize = 0) (stopAligned : region.stop % pageSize = 0)
    (nonempty : region.start < region.stop) :
    allocator.initFrom memory (region :: rest) =
      allocator.dealloc memory region.start ((region.stop - region.start) / pageSize) >>=
        fun freed => freed.1.initFrom freed.2 rest := by
  have startMasked : region.start &&& (pageSize - 1) = 0 :=
    (Nat.and_two_pow_sub_one_eq_mod region.start 12).trans startAligned
  have stopMasked : region.stop &&& (pageSize - 1) = 0 :=
    (Nat.and_two_pow_sub_one_eq_mod region.stop 12).trans stopAligned
  rw [PageAllocator.initFrom, ensure_bind startMasked, ensure_bind stopMasked,
    checkedSub_bind nonempty.le, ensure_bind startAligned,
    ensure_bind stopAligned]

/-- Freeing the regions one after the other, as if their pages had been held. -/
theorem Lists.initFrom
    (lists : Lists pages lost ⟨allocator, memory, regions.flatMap regionPages⟩ nodes)
    (usable : Usable regions) (pageSet : PageSet pages) :
    ∃ booted after remaining, allocator.initFrom memory regions = .ok (booted, after) ∧
      Lists pages lost ⟨booted, after, []⟩ remaining := by
  induction regions generalizing allocator memory nodes with
  | nil => exact ⟨allocator, memory, nodes, rfl, lists⟩
  | cons region rest ih =>
    obtain ⟨startAligned, stopAligned⟩ := usable.aligned region mem_cons_self
    have nonempty := usable.nonempty region mem_cons_self
    have positive : 0 < (region.stop - region.start) / pageSize := by
      unfold pageSize at startAligned stopAligned ⊢
      omega
    obtain ⟨freed, after, ran, freedLists⟩ := lists.dealloc pageSet positive
      fun page member => mem_append_left _ member
    have left : ((region :: rest).flatMap regionPages).filter
        (fun page => page ∉ blockPages region.start
          ((region.stop - region.start) / pageSize)) = rest.flatMap regionPages :=
      filter_notMem_append (nodup_append.mp (lists.nodup pageSet)).2.1
    rw [left] at freedLists
    obtain ⟨booted, last, remaining, restRan, bootedLists⟩ := ih freedLists usable.tail
    refine ⟨booted, last, remaining, ?_, bootedLists⟩
    rw [initFrom_cons rest allocator memory startAligned stopAligned nonempty, ran, ok_bind]
    exact restRan

theorem Lists.init {freed : PageAllocator} {after : ByteMemory}
    (lists : Lists pages lost ⟨freed, after, []⟩ nodes)
    (ran : ({ allocator with head := 0, freePages := 0 } : PageAllocator).initFrom memory regions =
      .ok (freed, after)) :
    ∃ booted, allocator.init memory regions = .ok (booted, after) ∧
      Lists pages lost ⟨booted, after, []⟩ nodes := by
  refine ⟨{ freed with totalPages := freed.freePages }, ?_, ?_⟩
  · unfold PageAllocator.init
    rw [ran, ok_bind]
  · exact ⟨lists.linked, lists.positive, lists.partition, lists.counted, lists.room⟩

theorem Usable.lists_init (usable : Usable regions)
    (nonnull : ∀ region ∈ regions, region.start ≠ 0) (allocator : PageAllocator)
    (memory : ByteMemory) :
    ∃ booted after nodes, allocator.init memory regions = .ok (booted, after) ∧
      Lists (regions.flatMap regionPages) 0 ⟨booted, after, []⟩ nodes := by
  have pageSet := usable.pageSet nonnull
  have empty : Lists (regions.flatMap regionPages) 0
      ⟨{ allocator with head := 0, freePages := 0 }, memory, regions.flatMap regionPages⟩ [] :=
    ⟨rfl, by simp, List.Perm.refl _, rfl, length_lt_of_nodup pageSet.nodup pageSet.bounded⟩
  obtain ⟨freed, after, nodes, ran, lists⟩ := empty.initFrom usable pageSet
  obtain ⟨booted, initialised, bootedLists⟩ := lists.init ran
  exact ⟨booted, after, nodes, initialised, bootedLists⟩

theorem Lists.onFreeList (lists : Lists pages lost state nodes) (pageSet : PageSet pages)
    (isFree : page ∈ freeList state.memory nodes) : OnFreeList state.allocator state.memory page :=
  ⟨nodes, lists.linked,
    fun isNode => pageSet.nonzero (lists.free_mem (lists.node_mem isNode)), isFree⟩

theorem Later.lists {start : Holding} (later : Later start state) (pageSet : PageSet pages)
    (listed : ∃ nodes, Lists pages lost start nodes) : ∃ nodes, Lists pages lost state nodes := by
  induction later with
  | start => exact listed
  | alloc reached ran ih =>
    obtain ⟨nodes, lists⟩ := ih
    cases nodes with
    | nil =>
      rw [lists.alloc_nil] at ran
      obtain ⟨rfl, rest⟩ := Prod.mk.inj (Except.ok.inj ran)
      obtain ⟨rfl, rfl⟩ := Prod.mk.inj rest
      exact ⟨[], lists⟩
    | cons node rest =>
      obtain ⟨given, allocated, after, remaining, ranAgain, -, givenLists⟩ :=
        lists.alloc_cons pageSet
      rw [ranAgain] at ran
      obtain ⟨rfl, rest⟩ := Prod.mk.inj (Except.ok.inj ran)
      obtain ⟨rfl, rfl⟩ := Prod.mk.inj rest
      exact ⟨remaining, givenLists⟩
  | dealloc reached positive owned ran ih =>
    obtain ⟨nodes, lists⟩ := ih
    obtain ⟨freed, after, ranAgain, freedLists⟩ := lists.dealloc pageSet positive owned
    rw [ranAgain] at ran
    cases ran
    exact ⟨_, freedLists⟩
  | overwrite reached memory kept ih =>
    obtain ⟨nodes, lists⟩ := ih
    refine ⟨nodes, lists.overwrite fun node member => ?_⟩
    exact node_congr (kept node (lists.onFreeList pageSet (lists.node_mem member)))

theorem Reaches.lists (reached : Reaches regions state) (usable : Usable regions)
    (nonnull : ∀ region ∈ regions, region.start ≠ 0) :
    ∃ nodes, Lists (regions.flatMap regionPages) 0 state nodes := by
  obtain ⟨allocator, booted, memory, after, ran, later⟩ := reached
  obtain ⟨again, afterAgain, nodes, ranAgain, lists⟩ := usable.lists_init nonnull allocator memory
  rw [ran] at ranAgain
  cases ranAgain
  exact later.lists (usable.pageSet nonnull) ⟨nodes, lists⟩

/-- Over usable regions that do not contain address 0, in every state reached
from `init`, whatever the holders have written to their pages: the pages of the
free list are distinct, distinct from the held pages, and with them make up the
regions; they are counted; `alloc` gives a page that is not held, and none
exactly when the count is 0; and held pages can be returned. -/
theorem pages_handed_out_once {regions : List Region} (usable : Usable regions)
    (nonnull : ∀ region ∈ regions, region.start ≠ 0) :
    (∀ (allocator : PageAllocator) (memory : ByteMemory),
      ∃ booted, allocator.init memory regions = .ok booted) ∧
    ∀ state, Reaches regions state →
      (∃ nodes, Segment (next state.memory) state.allocator.head nodes 0 ∧
        (freeList state.memory nodes ++ state.held).Nodup ∧
        (freeList state.memory nodes ++ state.held).Perm (regions.flatMap regionPages) ∧
        state.allocator.freePages = (freeList state.memory nodes).length) ∧
      (∃ page allocator memory,
        state.allocator.alloc state.memory = .ok (page, allocator, memory) ∧
        (page = none ↔ state.allocator.freePages = 0) ∧
        ∀ given, page = some given → given ∉ state.held) ∧
      ∀ ptr count, 0 < count → (∀ page ∈ blockPages ptr count, page ∈ state.held) →
        ∃ freed, state.allocator.dealloc state.memory ptr count = .ok freed := by
  have pageSet := usable.pageSet nonnull
  constructor
  · intro allocator memory
    obtain ⟨booted, after, _, ran, _⟩ := usable.lists_init nonnull allocator memory
    exact ⟨(booted, after), ran⟩
  · intro state reached
    obtain ⟨nodes, lists⟩ := reached.lists usable nonnull
    have counted := lists.counted
    rw [Nat.add_zero] at counted
    refine ⟨⟨nodes, lists.linked, lists.nodup pageSet, lists.partition, counted⟩, ?_, ?_⟩
    · cases nodes with
      | nil =>
        refine ⟨none, _, _, lists.alloc_nil, ?_, by simp⟩
        simp only [true_iff]
        exact counted
      | cons node rest =>
        obtain ⟨page, allocator, memory, _, ran, notHeld, _⟩ := lists.alloc_cons pageSet
        have positive : 0 < state.allocator.freePages := by
          rw [counted]
          exact length_pos_of_mem (lists.node_mem mem_cons_self)
        refine ⟨some page, allocator, memory, ran, ?_, ?_⟩
        · simp only [reduceCtorEq, false_iff]
          omega
        · rintro given ⟨⟩
          exact notHeld
    · intro ptr count positive owned
      obtain ⟨freed, after, ran, _⟩ := lists.dealloc pageSet positive owned
      exact ⟨(freed, after), ran⟩

/-- Both pages of RAM are taken and filled with a byte, and one of them is returned. -/
theorem twoPages_handed_out : ∃ state, Reaches [⟨0x80200000, 0x80202000⟩] state ∧
    state.held = [0x80200000] ∧ state.memory 0x80200000 = 7 ∧
    (∃ nodes, Segment (next state.memory) state.allocator.head nodes 0 ∧
      (freeList state.memory nodes ++ state.held).Perm [0x80200000, 0x80201000]) ∧
    ∃ page allocator memory,
      state.allocator.alloc state.memory = .ok (some page, allocator, memory) ∧
        page ∉ state.held := by
  have evaluated : (do
      let booted ← new.init (fun _ => 0) [⟨0x80200000, 0x80202000⟩]
      let first ← booted.1.alloc booted.2
      let second ← first.2.1.alloc first.2.2
      let last ← second.2.1.dealloc (fun _ => 7) 0x80201000 1
      .ok (first.1, second.1, second.2.1.head, last.1.freePages, last.2 0x80200000) :
        Checked (Option Nat × Option Nat × Nat × Nat × UInt8)) =
      .ok (some 0x80201000, some 0x80200000, 0, 1, 7) := by
    decide +kernel
  obtain ⟨⟨booted, memory⟩, booting, evaluated⟩ := bind_eq_ok.mp evaluated
  obtain ⟨⟨first, firstAllocator, firstMemory⟩, firstRan, evaluated⟩ := bind_eq_ok.mp evaluated
  obtain ⟨⟨second, allocator, secondMemory⟩, secondRan, evaluated⟩ := bind_eq_ok.mp evaluated
  obtain ⟨⟨last, lastMemory⟩, freed, evaluated⟩ := bind_eq_ok.mp evaluated
  simp only [Except.ok.injEq, Prod.mk.injEq] at evaluated
  obtain ⟨rfl, rfl, noHead, free, byte⟩ := evaluated
  have nothingFree : ∀ page, ¬ OnFreeList allocator secondMemory page := by
    rintro page ⟨nodes, segment, nonnull, isFree⟩
    cases nodes with
    | nil => cases isFree
    | cons node rest => exact nonnull (mem_cons.mpr (Or.inl (noHead.symm.trans segment.1)))
  have filled := ((@Later.start ⟨booted, memory, []⟩).alloc firstRan).alloc secondRan
    |>.overwrite (fun _ => 7) fun page isFree => absurd isFree (nothingFree page)
  have owned : ∀ page ∈ blockPages 0x80201000 1, page ∈ [0x80200000, 0x80201000] := by decide
  have reached : Reaches [⟨0x80200000, 0x80202000⟩] ⟨last, lastMemory, [0x80200000]⟩ :=
    ⟨new, booted, fun _ => 0, memory, booting, filled.dealloc Nat.one_pos owned freed⟩
  obtain ⟨-, runs⟩ := @pages_handed_out_once [⟨0x80200000, 0x80202000⟩]
    ⟨by decide, by decide, by decide, by simp⟩ (by decide)
  obtain ⟨⟨nodes, linked, -, partition, -⟩, ⟨page, allocator, after, ran, isNone, notHeld⟩, -⟩ :=
    runs _ reached
  cases page with
  | none => cases free.symm.trans (isNone.mp rfl)
  | some page => exact ⟨_, reached, rfl, byte, ⟨nodes, linked, partition⟩, page, allocator, after,
      ran, notHeld page rfl⟩

/-- A block at address 0 is not told apart from an empty list. -/
theorem nullRegion_lost : Usable [⟨0, 0x1000⟩] ∧ ∃ state, Reaches [⟨0, 0x1000⟩] state ∧
    state.allocator.freePages = 1 ∧
    state.allocator.alloc state.memory = .ok (none, state.allocator, state.memory) := by
  refine ⟨⟨by decide, by decide, by decide, by simp⟩, ?_⟩
  have ran : new.init (fun _ => 0) [⟨0, 0x1000⟩] =
      .ok (⟨0, 1, 1⟩, setPageCount (setNext (fun _ => 0) 0 0) 0 1) := rfl
  exact ⟨_, ⟨_, _, _, _, ran, Later.start⟩, rfl, rfl⟩

end NanoOs.PageAllocator
