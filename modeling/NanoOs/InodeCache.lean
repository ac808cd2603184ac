import NanoOs.BlockDispatcher
import NanoOs.LruCache
import Mathlib.Data.List.Pairwise

/-!
# The inode cache

Threads that look up inodes of one superblock.  A lookup that misses gives up
the lock of the cache while it reads the inode, and other threads may run until
it inserts what it read.  Each inode that is read gets an allocation of its own.
-/

namespace NanoOs.InodeCaches

open BlockDisk (BlockError)
open LruCaches List

/-- A call of `get_or_read_inode` that missed: the inode it reads, and the value
once it is read. -/
structure Call (Value : Type) where
  thread : Nat
  number : Nat
  created : Option (Arc Value)

/-- The cache, the values that callers hold for inode numbers, and the calls
that are under way. -/
structure Inodes (Value : Type) where
  cache : LruCache Nat Value
  handles : List (Nat × Arc Value)
  calls : List (Call Value)
  allocations : Nat

inductive Action (Value : Type)
  | getInode (thread number : Nat)
  | readInode (thread : Nat) (result : Except BlockError Value)
  | insert (thread : Nat)
  | clone (index : Nat)
  | drop (index : Nat)

variable {Value : Type}

def initial (capacity : Nat) : Inodes Value := ⟨LruCache.new capacity, [], [], 0⟩

namespace Inodes

def held (inodes : Inodes Value) (allocation : Nat) : Nat :=
  inodes.handles.countP (fun handle => handle.2.allocation = allocation) +
    inodes.calls.countP fun call => call.created.any fun arc => arc.allocation = allocation

def call (inodes : Inodes Value) (thread : Nat) : Option (Call Value) :=
  inodes.calls.find? fun call => call.thread = thread

def others (inodes : Inodes Value) (thread : Nat) : List (Call Value) :=
  inodes.calls.filter fun call => call.thread ≠ thread

/-- `get_or_read_inode` until it returns or waits for the disk. -/
def getInode (inodes : Inodes Value) (thread number : Nat) : Inodes Value :=
  match inodes.cache.get number with
  | some (arc, cache) =>
      { inodes with cache := cache, handles := (number, arc) :: inodes.handles }
  | none => { inodes with calls := ⟨thread, number, none⟩ :: inodes.calls }

def perform (inodes : Inodes Value) : Action Value → Option (Inodes Value)
  | .getInode thread number =>
      if (inodes.call thread).isSome then none else some (inodes.getInode thread number)
  | .readInode thread result => do
      let call ← inodes.call thread
      if call.created.isSome then none
      else
        match result with
        | .error _ => some { inodes with calls := inodes.others thread }
        | .ok value =>
            some { inodes with
              calls := { call with created := some ⟨inodes.allocations, value⟩ } ::
                inodes.others thread
              allocations := inodes.allocations + 1 }
  | .insert thread => do
      let call ← inodes.call thread
      let arc ← call.created
      some { inodes with
        cache := inodes.cache.insert inodes.held call.number arc
        handles := (call.number, arc) :: inodes.handles
        calls := inodes.others thread }
  | .clone index => do
      let handle ← inodes.handles[index]?
      some { inodes with handles := handle :: inodes.handles }
  | .drop index => do
      let _ ← inodes.handles[index]?
      some { inodes with handles := inodes.handles.eraseIdx index }

end Inodes

/-- The states reached by actions that are allowed where they are taken. -/
inductive Reaches (allowed : Inodes Value → Action Value → Prop) (start : Inodes Value) :
    Inodes Value → Prop
  | refl : Reaches allowed start start
  | step {inodes next : Inodes Value} (reached : Reaches allowed start inodes)
      (action : Action Value) (isAllowed : allowed inodes action)
      (performed : inodes.perform action = some next) : Reaches allowed start next

/-- At most one slot per inode number, and one allocation for all the values of
a number. -/
structure OneInode (inodes : Inodes Value) : Prop where
  keys : (inodes.cache.slots.map Prod.fst).Nodup
  same : ∀ first ∈ inodes.handles ++ inodes.cache.slots,
    ∀ second ∈ inodes.handles ++ inodes.cache.slots,
      first.1 = second.1 → first.2.allocation = second.2.allocation

/-- No inode is looked up while another thread reads it. -/
def Careful (inodes : Inodes Value) : Action Value → Prop
  | .getInode _ number => ∀ call ∈ inodes.calls, call.number ≠ number
  | _ => True

/-- The action completes a call or is about a value already held. -/
def Completing (_ : Inodes Value) : Action Value → Prop
  | .getInode _ _ => False
  | _ => True

/-- What holds while no inode is looked up during a read of it. -/
structure Sound (inodes : Inodes Value) : Prop where
  keys : (inodes.cache.slots.map Prod.fst).Nodup
  pinned : ∀ handle ∈ inodes.handles, handle ∈ inodes.cache.slots
  absent : ∀ call ∈ inodes.calls, ∀ slot ∈ inodes.cache.slots, slot.1 ≠ call.number
  alone : inodes.calls.Pairwise fun first second => first.number ≠ second.number
  threads : inodes.calls.Pairwise fun first second => first.thread ≠ second.thread
  older : ∀ call ∈ inodes.calls, ∀ arc, call.created = some arc →
    arc.allocation < inodes.allocations

variable {call : Call Value} {allowed : Inodes Value → Action Value → Prop} {arc : Arc Value}

section Sound

variable {inodes next : Inodes Value} {thread number : Nat}

theorem sound_initial (capacity : Nat) : Sound (initial capacity : Inodes Value) :=
  { keys := nodup_nil
    pinned := fun _ member => absurd member not_mem_nil
    absent := fun _ member => absurd member not_mem_nil
    alone := List.Pairwise.nil
    threads := List.Pairwise.nil
    older := fun _ member => absurd member not_mem_nil }

theorem Sound.oneInode (sound : Sound inodes) : OneInode inodes := by
  refine ⟨sound.keys, ?_⟩
  have cached : ∀ entry ∈ inodes.handles ++ inodes.cache.slots, entry ∈ inodes.cache.slots := by
    intro entry member
    rcases mem_append.mp member with isHandle | isSlot
    · exact sound.pinned entry isHandle
    · exact isSlot
  intro first firstMember second secondMember sameNumber
  rw [inj_on_of_nodup_map sound.keys (cached first firstMember) (cached second secondMember)
    sameNumber]

theorem mem_of_call (found : inodes.call thread = some call) :
    call ∈ inodes.calls ∧ call.thread = thread := by
  refine ⟨mem_of_find?_eq_some found, ?_⟩
  simpa using find?_some found

theorem mem_others : call ∈ inodes.others thread ↔ call ∈ inodes.calls ∧ call.thread ≠ thread := by
  simp [Inodes.others]

section

variable (sound : Sound inodes)

include sound

theorem Sound.others (thread : Nat) : Sound { inodes with calls := inodes.others thread } :=
  { keys := sound.keys
    pinned := sound.pinned
    absent := fun call member => sound.absent call (mem_others.mp member).1
    alone := sound.alone.filter _
    threads := sound.threads.filter _
    older := fun call member => sound.older call (mem_others.mp member).1 }

theorem Sound.apart {call other : Call Value} (found : inodes.call thread = some call)
    (inOthers : other ∈ inodes.others thread) : call.number ≠ other.number := by
  obtain ⟨member, threadEq⟩ := mem_of_call found
  obtain ⟨inCalls, otherThread⟩ := mem_others.mp inOthers
  have _ : Std.Symm fun first second : Call Value => first.number ≠ second.number :=
    ⟨fun _ _ => Ne.symm⟩
  refine sound.alone.forall member inCalls ?_
  rintro rfl
  exact otherThread threadEq

theorem Sound.handles {handles : List (Nat × Arc Value)}
    (pinned : ∀ handle ∈ handles, handle ∈ inodes.cache.slots) :
    Sound { inodes with handles := handles } :=
  { sound with pinned := pinned }

theorem Sound.getInode (idle : inodes.call thread = none)
    (careful : ∀ call ∈ inodes.calls, call.number ≠ number) :
    Sound (inodes.getInode thread number) := by
  unfold Inodes.getInode
  cases found : inodes.cache.get number with
  | some hit =>
    obtain ⟨cached, reordered⟩ := get_eq_some found
    exact
      { keys := ((reordered.map Prod.fst).nodup_iff).mpr sound.keys
        pinned := by
          intro handle member
          rcases mem_cons.mp member with rfl | older
          · exact reordered.mem_iff.mpr cached
          · exact reordered.mem_iff.mpr (sound.pinned handle older)
        absent := fun call member slot inCache =>
          sound.absent call member slot (reordered.mem_iff.mp inCache)
        alone := sound.alone
        threads := sound.threads
        older := sound.older }
  | none =>
    have missing := get_eq_none.mp found
    have notCalling : ∀ call ∈ inodes.calls, thread ≠ call.thread := by
      intro call member same
      have other := find?_eq_none.mp idle call member
      simp [same] at other
    exact
      { keys := sound.keys
        pinned := sound.pinned
        absent := by
          intro call member
          rcases mem_cons.mp member with rfl | older
          · exact missing
          · exact sound.absent call older
        alone := pairwise_cons.mpr
          ⟨fun call member => (careful call member).symm, sound.alone⟩
        threads := pairwise_cons.mpr ⟨notCalling, sound.threads⟩
        older := by
          intro call member
          rcases mem_cons.mp member with rfl | older
          · rintro arc ⟨⟩
          · exact sound.older call older }

theorem Sound.created (found : inodes.call thread = some call) (value : Value) :
    Sound { inodes with
      calls := { call with created := some ⟨inodes.allocations, value⟩ } :: inodes.others thread
      allocations := inodes.allocations + 1 } := by
  obtain ⟨member, threadEq⟩ := mem_of_call found
  have rest := sound.others thread
  exact
    { keys := sound.keys
      pinned := sound.pinned
      absent := by
        intro other inCalls
        rcases mem_cons.mp inCalls with rfl | inOthers
        · exact sound.absent call member
        · exact rest.absent other inOthers
      alone := pairwise_cons.mpr ⟨fun other inOthers =>
        (sound.apart found inOthers : call.number ≠ other.number), rest.alone⟩
      threads := pairwise_cons.mpr
        ⟨fun other inOthers => threadEq ▸ (mem_others.mp inOthers).2.symm, rest.threads⟩
      older := by
        intro other inCalls arc isCreated
        rcases mem_cons.mp inCalls with rfl | inOthers
        · cases isCreated
          exact Nat.lt_succ_self _
        · exact Nat.lt_succ_of_lt (rest.older other inOthers arc isCreated) }

/-- The inode of a call enters the cache, and no value that is held leaves it. -/
theorem Sound.insert (found : inodes.call thread = some call) :
    Sound { inodes with
      cache := inodes.cache.insert inodes.held call.number arc
      handles := (call.number, arc) :: inodes.handles
      calls := inodes.others thread } := by
  have member := (mem_of_call found).1
  have kept := evictLoop_sublist inodes.held inodes.cache.slots.length
    (inodes.cache.slots.length + 1 - inodes.cache.capacity) inodes.cache.slots
  have rest := sound.others thread
  exact
    { keys := by
        refine nodup_cons.mpr ⟨?_, (kept.map Prod.fst).nodup sound.keys⟩
        intro duplicate
        obtain ⟨slot, inCache, sameNumber⟩ := mem_map.mp duplicate
        exact sound.absent call member slot (kept.subset inCache) sameNumber
      pinned := by
        intro handle inHandles
        rcases mem_cons.mp inHandles with rfl | older
        · exact mem_cons_self
        · refine mem_cons_of_mem _ (mem_evictLoop (sound.pinned handle older) ?_ _ _)
          exact Nat.add_pos_left
            (countP_pos_iff.mpr ⟨handle, older, decide_eq_true rfl⟩) _
      absent := by
        intro other inOthers slot inCache
        rcases mem_cons.mp inCache with rfl | older
        · exact sound.apart found inOthers
        · exact rest.absent other inOthers slot (kept.subset older)
      alone := rest.alone
      threads := rest.threads
      older := rest.older }

/-- Careful actions keep the invariant, and so do those that complete a call. -/
theorem Sound.perform (action : Action Value) (careful : Careful inodes action)
    (performed : inodes.perform action = some next) : Sound next := by
  cases action with
  | getInode thread number =>
    simp only [Inodes.perform] at performed
    split at performed
    · cases performed
    · rename_i idle
      cases performed
      exact sound.getInode (Option.not_isSome_iff_eq_none.mp idle) careful
  | readInode thread result =>
    simp only [Inodes.perform, Option.bind_eq_bind, Option.bind_eq_some_iff] at performed
    obtain ⟨call, found, performed⟩ := performed
    split at performed
    · cases performed
    · cases result with
      | error error =>
        cases performed
        exact sound.others thread
      | ok value =>
        cases performed
        exact sound.created found value
  | insert thread =>
    simp only [Inodes.perform, Option.bind_eq_bind, Option.bind_eq_some_iff] at performed
    obtain ⟨call, found, arc, -, performed⟩ := performed
    cases performed
    exact sound.insert found
  | clone index =>
    simp only [Inodes.perform, Option.bind_eq_bind, Option.bind_eq_some_iff] at performed
    obtain ⟨handle, found, performed⟩ := performed
    cases performed
    refine sound.handles ?_
    intro other member
    rcases mem_cons.mp member with rfl | older
    · exact sound.pinned other (mem_of_getElem? found)
    · exact sound.pinned other older
  | drop index =>
    simp only [Inodes.perform, Option.bind_eq_bind, Option.bind_eq_some_iff] at performed
    obtain ⟨handle, -, performed⟩ := performed
    cases performed
    exact sound.handles fun other member => sound.pinned other (mem_of_mem_eraseIdx member)

theorem Sound.reaches (careful : ∀ state action, allowed state action → Careful state action)
    (reached : Reaches allowed inodes next) : Sound next := by
  induction reached with
  | refl => exact sound
  | step _ action isAllowed performed ih =>
    exact ih.perform action (careful _ action isAllowed) performed

end

end Sound

section Overlap

variable {inodes : Inodes Value} {thread : Nat}

theorem Reaches.trans {first second third : Inodes Value} (early : Reaches allowed first second)
    (late : Reaches allowed second third) : Reaches allowed first third := by
  induction late with
  | refl => exact early
  | step _ action isAllowed performed ih => exact ih.step action isAllowed performed

theorem perform_insert (found : inodes.call thread = some call)
    (created : call.created = some arc) :
    inodes.perform (.insert thread) =
      some { inodes with
        cache := inodes.cache.insert inodes.held call.number arc
        handles := (call.number, arc) :: inodes.handles
        calls := inodes.others thread } := by
  simp only [Inodes.perform, found, created, Option.bind_eq_bind, Option.bind_some]

/-- A call that is under way can be completed: its caller then holds a value,
the one it had read or a new one, and the other calls are as before. -/
theorem exists_completed (value : Value) (found : inodes.call thread = some call) :
    ∃ after arc, Reaches Completing inodes after ∧
      after.handles = (call.number, arc) :: inodes.handles ∧
      after.calls = inodes.others thread ∧
      (call.created = some arc ∨ call.created = none ∧ arc.allocation = inodes.allocations ∧
        after.allocations = inodes.allocations + 1) := by
  cases created : call.created with
  | some arc =>
    refine ⟨{ inodes with
      cache := inodes.cache.insert inodes.held call.number arc
      handles := (call.number, arc) :: inodes.handles
      calls := inodes.others thread }, arc, ?_, rfl, rfl, Or.inl rfl⟩
    exact .step .refl (.insert thread) trivial (perform_insert found created)
  | none =>
    let filled : Call Value := { call with created := some ⟨inodes.allocations, value⟩ }
    let middle : Inodes Value :=
      { inodes with
        calls := filled :: inodes.others thread
        allocations := inodes.allocations + 1 }
    have threadEq : filled.thread = thread := (mem_of_call found).2
    have read : inodes.perform (.readInode thread (.ok value)) = some middle := by
      simp only [Inodes.perform, found, created, Option.bind_eq_bind, Option.bind_some,
        Option.isSome_none, Bool.false_eq_true, if_false]
      rfl
    have refound : middle.call thread = some filled := by
      simp [Inodes.call, middle, threadEq]
    have rest : middle.others thread = inodes.others thread := by
      simp [Inodes.others, middle, threadEq]
    refine ⟨{ middle with
      cache := middle.cache.insert middle.held filled.number ⟨inodes.allocations, value⟩
      handles := (filled.number, ⟨inodes.allocations, value⟩) :: middle.handles
      calls := middle.others thread }, ⟨inodes.allocations, value⟩, ?_, rfl, rest,
      Or.inr ⟨rfl, rfl, rfl⟩⟩
    exact .step (.step .refl (.readInode thread (.ok value)) trivial read) (.insert thread) trivial
      (perform_insert refound rfl)

theorem Sound.call_eq_some (sound : Sound inodes) (member : call ∈ inodes.calls) :
    inodes.call call.thread = some call := by
  cases found : inodes.call call.thread with
  | none =>
    have other := find?_eq_none.mp found call member
    simp at other
  | some first =>
    obtain ⟨firstMember, sameThread⟩ := mem_of_call found
    have _ : Std.Symm fun first second : Call Value => first.thread ≠ second.thread :=
      ⟨fun _ _ => Ne.symm⟩
    by_contra different
    exact sound.threads.forall firstMember member (fun same => different (by rw [same]))
      sameThread

/-- Two overlapping reads of one inode leave two values of it. -/
theorem Sound.overlap (sound : Sound inodes) (value : Value) (idle : inodes.call thread = none)
    (member : call ∈ inodes.calls) :
    ∃ after, Reaches Completing (inodes.getInode thread call.number) after ∧ ¬ OneInode after := by
  have missed : inodes.getInode thread call.number =
      { inodes with calls := ⟨thread, call.number, none⟩ :: inodes.calls } := by
    unfold Inodes.getInode
    rw [get_eq_none.mpr (sound.absent call member)]
  have apart : ∀ other ∈ inodes.calls, other.thread ≠ thread := by
    intro other otherMember same
    have notFound := find?_eq_none.mp idle other otherMember
    simp [same] at notFound
  have found : (inodes.getInode thread call.number).call thread =
      some ⟨thread, call.number, none⟩ := by
    simp [missed, Inodes.call]
  have rest : (inodes.getInode thread call.number).others thread = inodes.calls := by
    rw [missed]
    simp only [Inodes.others, ne_eq, not_true_eq_false, decide_false, Bool.false_eq_true,
      not_false_eq_true, filter_cons_of_neg, filter_eq_self, decide_eq_true_eq]
    exact apart
  obtain ⟨first, firstArc, firstReached, firstHandles, firstCalls, firstNew⟩ :=
    exists_completed value found
  have stillThere : first.call call.thread = some call := by
    have same : first.call call.thread = inodes.call call.thread := by
      unfold Inodes.call
      rw [firstCalls, rest]
    rw [same, sound.call_eq_some member]
  obtain ⟨second, secondArc, secondReached, secondHandles, -, secondNew⟩ :=
    exists_completed value stillThere
  refine ⟨second, firstReached.trans secondReached, ?_⟩
  intro oneInode
  have same : firstArc.allocation = secondArc.allocation :=
    oneInode.same (call.number, firstArc) (by simp [secondHandles, firstHandles])
      (call.number, secondArc) (by simp [secondHandles]) rfl
  have allocations : (inodes.getInode thread call.number).allocations = inodes.allocations := by
    rw [missed]
  rcases firstNew with created | ⟨-, firstAllocation, firstAllocations⟩
  · cases created
  · rcases secondNew with created | ⟨-, secondAllocation, -⟩
    · have older := sound.older call member secondArc created
      omega
    · omega

end Overlap

/-- While no inode is looked up during a read of it by another thread, all the
values of an inode number are one allocation and the cache has one slot for it.
This stays so through a further lookup, whatever completes after it, exactly
when no other thread reads the same inode. -/
theorem oneInode_iff_careful {capacity : Nat} {inodes : Inodes Value}
    (reached : Reaches Careful (initial capacity) inodes) (value : Value) :
    OneInode inodes ∧ ∀ thread number, inodes.call thread = none →
      ((∀ after, Reaches Completing (inodes.getInode thread number) after → OneInode after) ↔
        Careful inodes (.getInode thread number)) := by
  have sound : Sound inodes := (sound_initial capacity).reaches (fun _ _ => id) reached
  refine ⟨sound.oneInode, ?_⟩
  intro thread number idle
  constructor
  · intro always call member sameNumber
    subst sameNumber
    obtain ⟨after, completed, two⟩ := sound.overlap value idle member
    exact two (always after completed)
  · intro careful after completed
    refine ((sound.getInode idle careful).reaches ?_ completed).oneInode
    intro state action completing
    cases action with
    | getInode => exact completing.elim
    | _ => trivial

def performAll (inodes : Inodes Value) (actions : List (Action Value)) : Option (Inodes Value) :=
  actions.foldlM (fun inodes action => inodes.perform action) inodes

/-- Two threads that look up inode 7 at the same time hold two allocations of
it, and the cache has two slots for it. -/
theorem concurrent_lookups_duplicate :
    ∃ inodes, performAll (initial 32)
        [.getInode 1 7, .getInode 2 7, .readInode 1 (.ok ()), .insert 1, .readInode 2 (.ok ()),
          .insert 2] = some inodes ∧
      inodes.handles = [(7, ⟨1, ()⟩), (7, ⟨0, ()⟩)] ∧
      inodes.cache.slots.map Prod.fst = [7, 7] ∧ ¬ OneInode inodes :=
  ⟨_, rfl, rfl, rfl, fun oneInode => absurd oneInode.keys (by decide)⟩

/-- A lookup behind the first one finds its inode.  While the first one reads, the
second is the one that breaks it. -/
theorem second_lookup_overlaps :
    (∃ inodes : Inodes Unit, Reaches Careful (initial 32) inodes ∧
      inodes.handles = [(7, ⟨0, ()⟩), (7, ⟨0, ()⟩)] ∧ OneInode inodes) ∧
    let inodes : Inodes Unit := (initial 32).getInode 1 7
    OneInode inodes ∧
      ¬ ∀ after, Reaches Completing (inodes.getInode 2 7) after → OneInode after := by
  have reached : Reaches Careful (initial 32 : Inodes Unit) ((initial 32).getInode 1 7) :=
    .step .refl (.getInode 1 7) (fun _ member => absurd member not_mem_nil) rfl
  have found := ((reached.step (.readInode 1 (.ok ())) trivial rfl).step
    (.insert 1) trivial rfl).step
    (.getInode 2 7) (fun _ member => absurd member not_mem_nil) rfl
  obtain ⟨oneInode, lookups⟩ := oneInode_iff_careful reached ()
  refine ⟨⟨_, found, rfl, (oneInode_iff_careful found ()).1⟩, oneInode, ?_⟩
  rw [lookups 2 7 rfl]
  exact fun careful => careful ⟨1, 7, none⟩ mem_cons_self rfl

end NanoOs.InodeCaches
