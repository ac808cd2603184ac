import NanoOs.DeviceTree
import NanoOs.PageAllocatorRuns
import NanoOs.UsableRegions

/-!
# The page allocator at boot

RAM and its reserved ranges come from the device tree; the kernel image and the
device tree itself are reserved after them, in the same vector.  What the vector
has no room for is not reserved.
-/

namespace NanoOs.PageAllocator

open Memory Dtb LinkedLists List

def maxReservedMemory : Nat := 16

def maxUsableMemory : Nat := maxReservedMemory + 1

/-- The result of `page_allocator::init`: the RAM it returns, the allocator, the
memory with the free list in it, and the initrd it found. -/
structure Boot where
  ram : Region
  allocator : PageAllocator
  memory : ByteMemory
  initrd : Initrd

def expectMemory : Option Region → Checked Region
  | some ram => .ok ram
  | none => .error (.assertion "Failed to collect memory map")

section Initialisation

variable (memory : ByteMemory) (initrd : Initrd) (bound dtbPtr imagePhysEnd : Nat)

/-- `page_allocator::init`, on the static allocator. -/
def globalInit (allocator : PageAllocator) : Checked Boot := do
  let context ← parseDtb memory dtbPtr
  let (found, reserved, initrd) ← collectMemoryMap memory bound dtbPtr
    (BoundedVector.empty : BoundedVector Region maxReservedMemory) initrd
  let ram ← expectMemory found
  let imageEnd ← alignUp imagePhysEnd
  let reserved := reserved.push ⟨ram.start, imageEnd⟩
  let blobEnd ← checkedAdd dtbPtr context.totalSize
  let blobEnd ← alignUp blobEnd
  let reserved := reserved.push ⟨alignDown dtbPtr, blobEnd⟩
  let usable := computeUsableRegions ram reserved
    (BoundedVector.empty : BoundedVector Region maxUsableMemory)
  let (allocator, memory) ← allocator.init memory usable.items
  .ok ⟨ram, allocator, memory, initrd⟩

structure Reservations where
  ram : Region
  ranges : List Region
  deriving Repr, DecidableEq

/-- The ranges of the device tree, the kernel image and the device tree itself. -/
def reservations : Checked Reservations := do
  let context ← parseDtb memory dtbPtr
  let collector ← collectAll memory bound dtbPtr initrd
  let ram ← expectMemory collector.memory
  let imageEnd ← alignUp imagePhysEnd
  let blobEnd ← checkedAdd dtbPtr context.totalSize
  let blobEnd ← alignUp blobEnd
  .ok ⟨ram, collector.reserved ++ [⟨ram.start, imageEnd⟩, ⟨alignDown dtbPtr, blobEnd⟩]⟩

end Initialisation

def Overlaps (page : Nat) (range : Region) : Prop :=
  ∃ offset < pageSize, range.Contains (page + offset)

/-- No page that overlaps one of the ranges is in the free list, or returned by
a later `alloc`. -/
def Boot.Keeps (boot : Boot) (ranges : List Region) : Prop :=
  ∀ page, ∀ range ∈ ranges, Overlaps page range →
    ¬ OnFreeList boot.allocator boot.memory page ∧
    ∀ state, Later ⟨boot.allocator, boot.memory, []⟩ state → ∀ allocator memory,
      state.allocator.alloc state.memory ≠ .ok (some page, allocator, memory)

namespace Reservations

def kept (reserved : Reservations) : List Region := reserved.ranges.take maxReservedMemory

def dropped (reserved : Reservations) : List Region := reserved.ranges.drop maxReservedMemory

def InRam (reserved : Reservations) (page : Nat) : Prop :=
  page % pageSize = 0 ∧ reserved.ram.start ≤ page ∧ page + pageSize ≤ reserved.ram.stop

/-- Nothing is reserved from address 0 to the end of the page, so that it lies
in a block that the free list cannot hold. -/
def AtNull (reserved : Reservations) (page : Nat) : Prop :=
  reserved.ram.start = 0 ∧ ∀ address < page + pageSize, ¬ Covered reserved.kept address

/-- The ranges that do not fit add nothing to those that do. -/
def Fit (reserved : Reservations) : Prop :=
  ∀ page, reserved.InRam page → (∃ range ∈ reserved.dropped, Overlaps page range) →
    (∃ range ∈ reserved.kept, Overlaps page range) ∨ reserved.AtNull page

end Reservations

variable {regions : List Region}

section Runs

variable {memory : ByteMemory} {initrd : Initrd} {bound dtbPtr imagePhysEnd : Nat}
  {allocator : PageAllocator} {boot : Boot}

/-- The vector as `init` fills it. -/
def Reservations.vector (reserved : Reservations) : BoundedVector Region maxReservedMemory :=
  reserved.ranges.foldl BoundedVector.push BoundedVector.empty

def Reservations.usable (reserved : Reservations) : List Region :=
  (computeUsableRegions reserved.ram reserved.vector
    (BoundedVector.empty : BoundedVector Region maxUsableMemory)).items

theorem Reservations.items_vector (reserved : Reservations) :
    reserved.vector.items = reserved.kept :=
  BoundedVector.items_pushAll _ _

theorem globalInit_eq_ok
    (booted : globalInit memory initrd bound dtbPtr imagePhysEnd allocator = .ok boot) :
    ∃ reserved, reservations memory initrd bound dtbPtr imagePhysEnd = .ok reserved ∧
      reserved.ram.stop < 2 ^ 64 ∧
      allocator.init memory reserved.usable = .ok (boot.allocator, boot.memory) := by
  obtain ⟨context, parsed, booted⟩ := bind_eq_ok.mp booted
  obtain ⟨⟨found, vector, foundInitrd⟩, collected, booted⟩ := bind_eq_ok.mp booted
  obtain ⟨ram, expected, booted⟩ := bind_eq_ok.mp booted
  obtain ⟨imageEnd, image, booted⟩ := bind_eq_ok.mp booted
  obtain ⟨blobStop, added, booted⟩ := bind_eq_ok.mp booted
  obtain ⟨blobEnd, blob, booted⟩ := bind_eq_ok.mp booted
  obtain ⟨⟨listed, after⟩, initialised, booted⟩ := bind_eq_ok.mp booted
  cases booted
  rw [collectMemoryMap_eq] at collected
  cases all : collectAll memory bound dtbPtr initrd with
  | error fault =>
    rw [all] at collected
    cases collected
  | ok collector =>
    rw [all] at collected
    obtain ⟨rfl, rest⟩ := Prod.mk.inj (Except.ok.inj collected)
    obtain ⟨rfl, rfl⟩ := Prod.mk.inj rest
    refine ⟨⟨ram, collector.reserved ++ [⟨ram.start, imageEnd⟩, ⟨alignDown dtbPtr, blobEnd⟩]⟩,
      ?_, ?_, ?_⟩
    · unfold reservations
      rw [parsed, ok_bind, all, ok_bind, expected, ok_bind, image, ok_bind, added, ok_bind, blob,
        ok_bind]
    · have found : collector.memory = some ram := by
        cases inTree : collector.memory with
        | none =>
          rw [inTree] at expected
          cases expected
        | some region =>
          rw [inTree] at expected
          rw [Except.ok.inj expected]
      exact (collectAll_bounded memory bound dtbPtr initrd collector all ram found).2
    · unfold Reservations.usable Reservations.vector
      rw [foldl_append]
      exact initialised

theorem aligned_of_initFrom {booted : PageAllocator × ByteMemory}
    (ran : allocator.initFrom memory regions = .ok booted) :
    ∀ region ∈ regions, region.start % pageSize = 0 ∧ region.stop % pageSize = 0 := by
  induction regions generalizing allocator memory with
  | nil => simp
  | cons region rest ih =>
    obtain ⟨_, -, ran⟩ := bind_eq_ok.mp ran
    obtain ⟨_, -, ran⟩ := bind_eq_ok.mp ran
    obtain ⟨length, -, ran⟩ := bind_eq_ok.mp ran
    obtain ⟨startAligned, ran⟩ := ensure_bind_eq_ok.mp ran
    obtain ⟨stopAligned, ran⟩ := ensure_bind_eq_ok.mp ran
    obtain ⟨⟨freed, after⟩, -, ran⟩ := bind_eq_ok.mp ran
    simp only [mem_cons, forall_eq_or_imp]
    exact ⟨⟨startAligned, stopAligned⟩, ih ran⟩

end Runs

section Usable

variable {reserved : Reservations} {page : Nat}

theorem Reservations.room (reserved : Reservations) :
    reserved.vector.items.length < maxUsableMemory :=
  Nat.lt_succ_of_le reserved.vector.fits

theorem Reservations.covered_usable_iff (reserved : Reservations) (address : Nat) :
    Covered reserved.usable address ↔
      reserved.ram.Contains address ∧ ¬ Covered reserved.kept address := by
  unfold usable
  rw [covered_usable reserved.room, reserved.items_vector]

theorem Reservations.apart (reserved : Reservations) :
    reserved.usable.Pairwise fun first second => first.stop < second.start :=
  (separated_usable reserved.room).1

theorem Reservations.nonempty (reserved : Reservations) :
    ∀ region ∈ reserved.usable, region.start < region.stop :=
  (separated_usable reserved.room).2

theorem Reservations.eq_of_touching {first second : Region} (isFirst : first ∈ reserved.usable)
    (isSecond : second ∈ reserved.usable) (before : second.start ≤ first.stop)
    (behind : first.start ≤ second.stop) : first = second := by
  by_contra different
  have _ : Std.Symm fun first second : Region =>
      first.stop < second.start ∨ second.stop < first.start := ⟨fun _ _ => Or.symm⟩
  have either : reserved.usable.Pairwise fun first second =>
      first.stop < second.start ∨ second.stop < first.start := reserved.apart.imp Or.inl
  have apart := either.forall isFirst isSecond different
  omega

theorem Reservations.isUsable (ramBound : reserved.ram.stop < 2 ^ 64)
    (aligned : ∀ region ∈ reserved.usable,
      region.start % pageSize = 0 ∧ region.stop % pageSize = 0) : Usable reserved.usable := by
  refine ⟨aligned, reserved.nonempty, ?_, reserved.apart.imp fun apart => Or.inl apart.le⟩
  intro region member
  have nonempty := reserved.nonempty region member
  have last : Covered reserved.usable (region.stop - 1) :=
    ⟨region, member, by omega, by omega⟩
  have inRam := ((reserved.covered_usable_iff _).mp last).1.2
  omega

/-- A block at the null address counts as free, but the list goes on without
it. -/
theorem Usable.lists_init_null {region : Region} {rest : List Region}
    (usable : Usable (region :: rest)) (atZero : region.start = 0)
    (nonnull : ∀ other ∈ rest, other.start ≠ 0) (allocator : PageAllocator) (memory : ByteMemory) :
    ∃ booted after lost nodes, allocator.init memory (region :: rest) = .ok (booted, after) ∧
      Lists (rest.flatMap regionPages) lost ⟨booted, after, []⟩ nodes := by
  obtain ⟨start, stop⟩ := region
  obtain rfl : start = 0 := atZero
  obtain ⟨startAligned, stopAligned⟩ := usable.aligned _ mem_cons_self
  have nonempty := usable.nonempty _ mem_cons_self
  have total := length_lt_of_nodup usable.nodup usable.bounded_pages
  rw [flatMap_cons, length_append, regionPages, length_blockPages] at total
  dsimp only at total
  have counted : checkedAdd 0 ((stop - 0) / pageSize) = .ok ((stop - 0) / pageSize) := by
    rw [checkedAdd_of_lt (by omega), Nat.zero_add]
  have empty : Lists (rest.flatMap regionPages) ((stop - 0) / pageSize)
      ⟨{ allocator with head := 0, freePages := (stop - 0) / pageSize },
        setPageCount (setNext memory 0 0) 0 ((stop - 0) / pageSize), rest.flatMap regionPages⟩ [] :=
    ⟨rfl, by simp, List.Perm.refl _, (Nat.zero_add _).symm, by omega⟩
  obtain ⟨freed, after, nodes, ran, lists⟩ :=
    empty.initFrom usable.tail (usable.tail.pageSet nonnull)
  have initialised : ({ allocator with head := 0, freePages := 0 } : PageAllocator).initFrom memory
      (⟨0, stop⟩ :: rest) = .ok (freed, after) := by
    rw [initFrom_cons rest _ memory startAligned stopAligned nonempty]
    unfold PageAllocator.dealloc
    rw [counted, ok_bind]
    exact ran
  obtain ⟨booted, bootRan, bootLists⟩ := lists.init initialised
  exact ⟨booted, after, _, nodes, bootRan, bootLists⟩

/-- The pages of the regions that the free list can hold. -/
def Reservations.pages (reserved : Reservations) : List Nat :=
  (reserved.usable.filter fun region => region.start ≠ 0).flatMap regionPages

theorem Usable.filter (usable : Usable regions) (select : Region → Bool) :
    Usable (regions.filter select) :=
  ⟨fun region member => usable.aligned region (mem_of_mem_filter member),
    fun region member => usable.nonempty region (mem_of_mem_filter member),
    fun region member => usable.bounded region (mem_of_mem_filter member),
    usable.disjoint.filter select⟩

theorem Reservations.pageSet (usable : Usable reserved.usable) : PageSet reserved.pages := by
  refine (usable.filter _).pageSet ?_
  intro region member
  simpa using of_mem_filter member

/-- A page in RAM that overlaps no reserved range lies in one usable region. -/
theorem Reservations.exists_region (inRam : reserved.InRam page)
    (clear : ¬ ∃ range ∈ reserved.kept, Overlaps page range) :
    ∃ region ∈ reserved.usable, region.start ≤ page ∧ page + pageSize ≤ region.stop := by
  obtain ⟨-, lower, upper⟩ := inRam
  have covered : ∀ offset < pageSize, Covered reserved.usable (page + offset) := by
    intro offset inPage
    refine (reserved.covered_usable_iff _).mpr ⟨⟨by omega, by omega⟩, ?_⟩
    rintro ⟨range, isKept, contains⟩
    exact clear ⟨range, isKept, offset, inPage, contains⟩
  obtain ⟨region, member, starts, stops⟩ := covered 0 (by decide)
  refine ⟨region, member, starts, ?_⟩
  by_contra short
  obtain ⟨other, otherMember, otherStarts, otherStops⟩ := covered (region.stop - page) (by omega)
  have same := reserved.eq_of_touching member otherMember (by omega) (by omega)
  subst same
  omega

/-- The pages of the free list are those of RAM that overlap no reserved range
that fits and do not lie in a block at the null address. -/
theorem Reservations.mem_pages (usable : Usable reserved.usable) :
    page ∈ reserved.pages ↔ reserved.InRam page ∧
      (¬ ∃ range ∈ reserved.kept, Overlaps page range) ∧ ¬ reserved.AtNull page := by
  constructor
  · intro member
    obtain ⟨region, isListed, inRegion⟩ := mem_flatMap.mp member
    have isUsable := mem_of_mem_filter isListed
    have nonnull : region.start ≠ 0 := by simpa using of_mem_filter isListed
    obtain ⟨startAligned, stopAligned⟩ := usable.aligned region isUsable
    obtain ⟨aligned, lower, upper⟩ := (mem_regionPages startAligned stopAligned).mp inRegion
    have free : ∀ offset < pageSize, reserved.ram.Contains (page + offset) ∧
        ¬ Covered reserved.kept (page + offset) := fun offset inPage =>
      (reserved.covered_usable_iff _).mp ⟨region, isUsable, by omega, by omega⟩
    have first := (free 0 (by decide)).1
    have last := (free (pageSize - 1) (by decide)).1
    unfold Region.Contains at first last
    refine ⟨⟨aligned, by omega, by omega⟩, ?_, ?_⟩
    · rintro ⟨range, isKept, offset, inPage, contains⟩
      exact (free offset inPage).2 ⟨range, isKept, contains⟩
    · rintro ⟨atZero, clear⟩
      have before : Covered reserved.usable (region.start - 1) :=
        (reserved.covered_usable_iff _).mpr ⟨⟨by omega, by omega⟩, clear _ (by omega)⟩
      obtain ⟨other, isOther, otherStarts, otherStops⟩ := before
      have same := reserved.eq_of_touching isUsable isOther (by omega) (by omega)
      subst same
      omega
  · rintro ⟨inRam, clear, notNull⟩
    obtain ⟨region, isUsable, lower, upper⟩ := reserved.exists_region inRam clear
    obtain ⟨startAligned, stopAligned⟩ := usable.aligned region isUsable
    have nonnull : region.start ≠ 0 := by
      intro atZero
      have covered : ∀ address < page + pageSize, reserved.ram.Contains address ∧
          ¬ Covered reserved.kept address := fun address inBlock =>
        (reserved.covered_usable_iff _).mp ⟨region, isUsable, by omega, by omega⟩
      have positive : 0 < pageSize := by decide
      have ramStart := (covered 0 (by omega)).1.1
      exact notNull ⟨by omega, fun address inBlock => (covered address inBlock).2⟩
    refine mem_flatMap.mpr ⟨region, mem_filter.mpr ⟨isUsable, by simpa using nonnull⟩, ?_⟩
    exact (mem_regionPages startAligned stopAligned).mpr ⟨inRam.1, lower, upper⟩

/-- Of regions in order only the first one can start at the null address. -/
theorem Usable.lists_init_apart (usable : Usable regions)
    (apart : regions.Pairwise fun first second => first.stop < second.start)
    (allocator : PageAllocator) (memory : ByteMemory) :
    ∃ booted after lost nodes, allocator.init memory regions = .ok (booted, after) ∧
      Lists ((regions.filter fun region => region.start ≠ 0).flatMap regionPages) lost
        ⟨booted, after, []⟩ nodes := by
  by_cases nonnull : ∀ region ∈ regions, region.start ≠ 0
  · have all : (regions.filter fun region => region.start ≠ 0) = regions :=
      filter_eq_self.mpr (by simpa using nonnull)
    rw [all]
    obtain ⟨booted, after, nodes, ran, lists⟩ := usable.lists_init nonnull allocator memory
    exact ⟨booted, after, 0, nodes, ran, lists⟩
  · cases regions with
    | nil => exact absurd (by simp) nonnull
    | cons region rest =>
      have later : ∀ other ∈ rest, other.start ≠ 0 := by
        intro other member
        have behind := rel_of_pairwise_cons apart member
        omega
      have atZero : region.start = 0 := by
        by_contra positive
        refine nonnull ?_
        simp only [mem_cons, forall_eq_or_imp]
        exact ⟨positive, later⟩
      have others : ((region :: rest).filter fun region => region.start ≠ 0) = rest := by
        rw [filter_cons_of_neg (by simpa using atZero)]
        exact filter_eq_self.mpr (by simpa using later)
      rw [others]
      exact usable.lists_init_null atZero later allocator memory

end Usable

section Boot

variable {memory : ByteMemory} {initrd : Initrd} {bound dtbPtr imagePhysEnd page : Nat}
  {allocator : PageAllocator} {boot : Boot} {reserved : Reservations}

/-- After `init` the free list holds the pages of the usable regions. -/
theorem Reservations.lists (ramBound : reserved.ram.stop < 2 ^ 64)
    (ran : allocator.init memory reserved.usable = .ok (boot.allocator, boot.memory)) :
    Usable reserved.usable ∧
      ∃ lost nodes, Lists reserved.pages lost ⟨boot.allocator, boot.memory, []⟩ nodes := by
  obtain ⟨freed, initialised, -⟩ := bind_eq_ok.mp ran
  have usable := reserved.isUsable ramBound (aligned_of_initFrom initialised)
  obtain ⟨booted, after, lost, nodes, ranAgain, lists⟩ :=
    usable.lists_init_apart reserved.apart allocator memory
  rw [ran] at ranAgain
  cases ranAgain
  exact ⟨usable, lost, nodes, lists⟩

variable {lost : Nat} {nodes : List Nat}

theorem Lists.onFreeList_iff {pages : List Nat} {state : Holding}
    (lists : Lists pages lost state nodes) (pageSet : PageSet pages) :
    OnFreeList state.allocator state.memory page ↔ page ∈ freeList state.memory nodes := by
  constructor
  · rintro ⟨others, linked, nonnull, member⟩
    have absent : 0 ∉ nodes := fun isNode =>
      pageSet.nonzero (lists.free_mem (lists.node_mem isNode))
    rw [lists.linked.unique linked absent nonnull]
    exact member
  · exact lists.onFreeList pageSet

theorem Lists.alloc_mem {pages : List Nat} {state : Holding} {after : PageAllocator}
    {changed : ByteMemory} (lists : Lists pages lost state nodes) (pageSet : PageSet pages)
    (ran : state.allocator.alloc state.memory = .ok (some page, after, changed)) :
    page ∈ pages := by
  cases nodes with
  | nil =>
    rw [lists.alloc_nil] at ran
    cases (Prod.mk.inj (Except.ok.inj ran)).1
  | cons node rest =>
    obtain ⟨given, allocated, later, remaining, ranAgain, -, givenLists⟩ :=
      lists.alloc_cons pageSet
    rw [ranAgain] at ran
    obtain ⟨same, -⟩ := Prod.mk.inj (Except.ok.inj ran)
    cases same
    exact givenLists.held_mem mem_cons_self

/-- `init` keeps every reservation exactly if no page of the free list overlaps
one of them. -/
theorem Reservations.keeps_iff (usable : Usable reserved.usable)
    (lists : Lists reserved.pages lost ⟨boot.allocator, boot.memory, []⟩ nodes)
    (ranges : List Region) :
    boot.Keeps ranges ↔ ∀ page ∈ reserved.pages, ¬ ∃ range ∈ ranges, Overlaps page range := by
  have pageSet := reserved.pageSet usable
  have isFree : ∀ page, OnFreeList boot.allocator boot.memory page ↔ page ∈ reserved.pages := by
    intro page
    have partition := lists.partition
    rw [append_nil] at partition
    exact (lists.onFreeList_iff pageSet).trans partition.mem_iff
  constructor
  · rintro keeps page isListed ⟨range, isRange, overlaps⟩
    exact (keeps page range isRange overlaps).1 ((isFree page).mpr isListed)
  · intro clear page range isRange overlaps
    have notListed : page ∉ reserved.pages := fun isListed =>
      clear page isListed ⟨range, isRange, overlaps⟩
    refine ⟨fun onList => notListed ((isFree page).mp onList), ?_⟩
    intro state later after changed ran
    obtain ⟨remaining, laterLists⟩ := later.lists pageSet ⟨nodes, lists⟩
    exact notListed (laterLists.alloc_mem pageSet ran)

/-- Whenever `init` returns, it keeps all reservations exactly if the ranges that
do not fit in its vector add nothing to those that do. -/
theorem boot_keeps_reservations_iff
    (booted : globalInit memory initrd bound dtbPtr imagePhysEnd allocator = .ok boot) :
    ∃ reserved, reservations memory initrd bound dtbPtr imagePhysEnd = .ok reserved ∧
      (boot.Keeps reserved.ranges ↔ reserved.Fit) := by
  obtain ⟨reserved, found, ramBound, ran⟩ := globalInit_eq_ok booted
  obtain ⟨usable, lost, nodes, lists⟩ := reserved.lists ramBound ran
  refine ⟨reserved, found, (reserved.keeps_iff usable lists _).trans ?_⟩
  have split : reserved.kept ++ reserved.dropped = reserved.ranges := take_append_drop _ _
  constructor
  · rintro clear page inRam ⟨range, isDropped, overlaps⟩
    by_contra neither
    obtain ⟨notKept, notNull⟩ := not_or.mp neither
    refine clear page ((reserved.mem_pages usable).mpr ⟨inRam, notKept, notNull⟩) ?_
    exact ⟨range, split ▸ mem_append_right _ isDropped, overlaps⟩
  · rintro fit page isListed ⟨range, isRange, overlaps⟩
    obtain ⟨inRam, notKept, notNull⟩ := (reserved.mem_pages usable).mp isListed
    rw [← split] at isRange
    rcases mem_append.mp isRange with isKept | isDropped
    · exact notKept ⟨range, isKept, overlaps⟩
    · exact (fit page inRam ⟨range, isDropped, overlaps⟩).elim notKept notNull

/-- Whatever is allocated, returned and overwritten after `init`, the pages that are free or held
are the pages of RAM outside the reservations that fit, each once. -/
theorem boot_pages_exact
    (booted : globalInit memory initrd bound dtbPtr imagePhysEnd allocator = .ok boot) :
    ∃ reserved, reservations memory initrd bound dtbPtr imagePhysEnd = .ok reserved ∧
      ∀ state, Later ⟨boot.allocator, boot.memory, []⟩ state → ∃ nodes,
        Segment (next state.memory) state.allocator.head nodes 0 ∧
        (freeList state.memory nodes ++ state.held).Nodup ∧
        ∀ page, page ∈ freeList state.memory nodes ++ state.held ↔ reserved.InRam page ∧
          (¬ ∃ range ∈ reserved.kept, Overlaps page range) ∧ ¬ reserved.AtNull page := by
  obtain ⟨reserved, found, ramBound, ran⟩ := globalInit_eq_ok booted
  obtain ⟨usable, lost, first, listed⟩ := reserved.lists ramBound ran
  have pageSet := reserved.pageSet usable
  refine ⟨reserved, found, fun state later => ?_⟩
  obtain ⟨nodes, lists⟩ := later.lists pageSet ⟨first, listed⟩
  exact ⟨nodes, lists.linked, lists.nodup pageSet, fun page =>
    lists.partition.mem_iff.trans (reserved.mem_pages usable)⟩

end Boot

section Trees

def bigEndian (count value : Nat) : List UInt8 :=
  (List.range count).map fun index => UInt8.ofNat (value >>> (8 * (count - 1 - index)))

def fdtNode (name : String) (content : List UInt8) : List UInt8 :=
  bigEndian 4 fdtBeginNode ++ literal name ++ List.replicate (4 - name.length % 4) 0 ++ content ++
    bigEndian 4 fdtEndNode

/-- The property `reg`, whose name is at the start of the strings. -/
def fdtReg (region : Region) : List UInt8 :=
  bigEndian 4 fdtProp ++ bigEndian 4 16 ++ bigEndian 4 0 ++ bigEndian 8 region.start ++
    bigEndian 8 (region.stop - region.start)

def fdtBlob (ram : Region) (ranges : List Region) : List UInt8 :=
  let tree := fdtNode "" (fdtNode "memory@80000000" (fdtReg ram) ++
    fdtNode "reserved-memory" (ranges.flatMap fun range => fdtNode "range" (fdtReg range))) ++
    bigEndian 4 fdtEnd
  bigEndian 4 fdtMagic ++ bigEndian 4 (44 + tree.length) ++ bigEndian 4 44 ++ bigEndian 4 40 ++
    List.replicate 24 0 ++ literal "reg" ++ [0] ++ tree

/-- Memory with a blob in it, whose bytes are digits of one number. -/
def blobMemory (base : Nat) (blob : List UInt8) : ByteMemory :=
  let number := blob.foldl (fun value byte => value * 256 + byte.toNat) 0
  let stop := base + blob.length
  fun address =>
    if base ≤ address ∧ address < stop then UInt8.ofNat (number >>> (8 * (stop - 1 - address)))
    else 0

/-- `init` with the device tree at `0x8000_2000` and a kernel of two pages, and
then `alloc`. -/
def initAndAlloc (memory : ByteMemory) : Checked (Option Nat) := do
  let boot ← globalInit memory ⟨0, 0⟩ 1000 0x8000_2000 0x8000_1800 new
  let (page, _) ← boot.allocator.alloc boot.memory
  .ok page

theorem initAndAlloc_eq_ok {memory : ByteMemory} {page : Option Nat}
    (ran : initAndAlloc memory = .ok page) :
    ∃ boot after, globalInit memory ⟨0, 0⟩ 1000 0x8000_2000 0x8000_1800 new = .ok boot ∧
      boot.allocator.alloc boot.memory = .ok (page, after) := by
  obtain ⟨boot, booted, ran⟩ := bind_eq_ok.mp ran
  obtain ⟨⟨given, after⟩, allocated, ran⟩ := bind_eq_ok.mp ran
  cases ran
  exact ⟨boot, after, booted, allocated⟩

def roomyTree : ByteMemory :=
  blobMemory 0x8000_2000 (fdtBlob ⟨0x8000_0000, 0x8001_2000⟩ [⟨0x8001_0000, 0x8001_1000⟩])

theorem roomyTree_reservations : reservations roomyTree ⟨0, 0⟩ 1000 0x8000_2000 0x8000_1800 =
    .ok ⟨⟨0x8000_0000, 0x8001_2000⟩, [⟨0x8001_0000, 0x8001_1000⟩, ⟨0x8000_0000, 0x8000_2000⟩,
      ⟨0x8000_2000, 0x8000_3000⟩]⟩ := by
  decide +kernel

theorem roomyTree_keeps : ∃ boot reserved after,
    globalInit roomyTree ⟨0, 0⟩ 1000 0x8000_2000 0x8000_1800 new = .ok boot ∧
      reservations roomyTree ⟨0, 0⟩ 1000 0x8000_2000 0x8000_1800 = .ok reserved ∧
      boot.Keeps reserved.ranges ∧
      boot.allocator.alloc boot.memory = .ok (some 0x8001_1000, after) := by
  have ran : initAndAlloc roomyTree = .ok (some 0x8001_1000) := by decide +kernel
  obtain ⟨boot, after, booted, allocated⟩ := initAndAlloc_eq_ok ran
  obtain ⟨reserved, found, iff⟩ := boot_keeps_reservations_iff booted
  have fit : reserved.Fit := by
    obtain rfl := Except.ok.inj (found.symm.trans roomyTree_reservations)
    rintro page - ⟨range, isDropped, -⟩
    cases isDropped
  exact ⟨boot, reserved, after, booted, found, iff.mpr fit, allocated⟩

/-- Of eighteen pages, four are reserved. -/
theorem roomyTree_pages : ∃ boot,
    globalInit roomyTree ⟨0, 0⟩ 1000 0x8000_2000 0x8000_1800 new = .ok boot ∧
      ∀ state, Later ⟨boot.allocator, boot.memory, []⟩ state → ∃ nodes,
        Segment (next state.memory) state.allocator.head nodes 0 ∧
        (freeList state.memory nodes ++ state.held).Nodup ∧
        ∀ page, page ∈ freeList state.memory nodes ++ state.held ↔ page % 4096 = 0 ∧
          (0x8000_3000 ≤ page ∧ page < 0x8001_0000 ∨ page = 0x8001_1000) := by
  obtain ⟨boot, -, booted, -⟩ :=
    initAndAlloc_eq_ok (by decide +kernel : initAndAlloc roomyTree = .ok (some 0x8001_1000))
  obtain ⟨reserved, found, pages⟩ := boot_pages_exact booted
  obtain rfl := Except.ok.inj (found.symm.trans roomyTree_reservations)
  refine ⟨boot, booted, fun state later => ?_⟩
  obtain ⟨nodes, linked, nodup, member⟩ := pages state later
  refine ⟨nodes, linked, nodup, fun page => (member page).trans ?_⟩
  constructor
  · rintro ⟨⟨aligned, lower, upper⟩, clear, -⟩
    have outside : ∀ range ∈ ([⟨0x8001_0000, 0x8001_1000⟩, ⟨0x8000_0000, 0x8000_2000⟩,
        ⟨0x8000_2000, 0x8000_3000⟩] : List Region), ¬ range.Contains page :=
      fun range isKept contained => clear ⟨range, isKept, 0, by decide, contained⟩
    simp only [forall_mem_cons, Region.Contains] at outside
    unfold pageSize at aligned upper
    dsimp only at lower upper
    omega
  · rintro ⟨aligned, inside⟩
    refine ⟨⟨aligned, ?_, ?_⟩, ?_, fun atNull => absurd atNull.1 (by decide)⟩
    · dsimp only
      omega
    · unfold pageSize
      dsimp only
      omega
    · rintro ⟨range, isKept, offset, inPage, lower, upper⟩
      unfold pageSize at inPage
      have isRange : range ∈ ([⟨0x8001_0000, 0x8001_1000⟩, ⟨0x8000_0000, 0x8000_2000⟩,
        ⟨0x8000_2000, 0x8000_3000⟩] : List Region) := isKept
      simp only [mem_cons, not_mem_nil, or_false] at isRange
      rcases isRange with rfl | rfl | rfl <;> (dsimp only at lower upper; omega)

/-- The same RAM with sixteen reserved pages, which leave the kernel only. -/
def crowdedTree : ByteMemory :=
  blobMemory 0x8000_2000 (fdtBlob ⟨0x8000_0000, 0x8001_2000⟩
    ((List.range 16).map fun index => ⟨0x8000_2000 + index * pageSize,
      0x8000_3000 + index * pageSize⟩))

/-- Sixteen ranges fill the vector, the range of the kernel image is dropped, and
the first `alloc` returns a page of the kernel. -/
theorem crowdedTree_gives_kernel : ∃ boot reserved after,
    globalInit crowdedTree ⟨0, 0⟩ 1000 0x8000_2000 0x8000_1800 new = .ok boot ∧
      reservations crowdedTree ⟨0, 0⟩ 1000 0x8000_2000 0x8000_1800 = .ok reserved ∧
      ⟨0x8000_0000, 0x8000_2000⟩ ∈ reserved.ranges ∧
      Overlaps 0x8000_1000 ⟨0x8000_0000, 0x8000_2000⟩ ∧
      boot.allocator.alloc boot.memory = .ok (some 0x8000_1000, after) ∧
      ¬ boot.Keeps reserved.ranges := by
  have ran : initAndAlloc crowdedTree = .ok (some 0x8000_1000) := by decide +kernel
  obtain ⟨boot, after, booted, allocated⟩ := initAndAlloc_eq_ok ran
  obtain ⟨reserved, found, -⟩ := globalInit_eq_ok booted
  have known : (reservations crowdedTree ⟨0, 0⟩ 1000 0x8000_2000 0x8000_1800).map
      (fun reserved => decide (⟨0x8000_0000, 0x8000_2000⟩ ∈ reserved.ranges)) = .ok true := by
    decide +kernel
  have isReserved : ⟨0x8000_0000, 0x8000_2000⟩ ∈ reserved.ranges := by
    rw [found] at known
    exact of_decide_eq_true (Except.ok.inj known)
  have overlaps : Overlaps 0x8000_1000 ⟨0x8000_0000, 0x8000_2000⟩ := ⟨0, by decide, by decide⟩
  refine ⟨boot, reserved, after, booted, found, isReserved, overlaps, allocated, ?_⟩
  intro keeps
  exact (keeps _ _ isReserved overlaps).2 _ Later.start after.1 after.2 allocated

end Trees

end NanoOs.PageAllocator
