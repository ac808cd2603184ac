import NanoOs.BlockDispatcher
import NanoOs.LruCache

/-!
# The block cache

Threads that read blocks through `CachedVolume`.  A call that misses gives up the lock
of the cache while it reads the block from the inner volume, so that other threads may
read the same block in between and insert it as well.  What the calls return is the
inner volume's.
-/

namespace NanoOs.BlockCaches

open BlockDisk (BlockError)
open LruCaches List

def cacheCapacity : Nat := 16

/-- A call of `get_block` that missed, and the buffer once the inner volume gave it. -/
structure Call (Bytes : Type) where
  thread : Nat
  lba : Nat
  buf : Option (Arc Bytes)

/-- A call that returned, of the cache or of the inner volume. -/
structure Returned (Bytes : Type) where
  thread : Nat
  lba : Nat
  result : Except BlockError (Arc Bytes)

/-- The cache, the calls under way, the buffers that callers hold, and what the inner
volume and `get_block` returned so far. -/
structure CachedVolume (Bytes : Type) where
  cache : LruCache Nat Bytes
  calls : List (Call Bytes)
  handles : List (Arc Bytes)
  innerReads : List (Returned Bytes)
  returns : List (Returned Bytes)

/-- The steps of threads.  The inner volume may give out a buffer that it or others
keep, whose clones elsewhere count in an insert. -/
inductive Action (Bytes : Type)
  | getBlock (thread lba : Nat)
  | innerRead (thread : Nat) (result : Except BlockError (Arc Bytes))
  | insert (thread : Nat) (elsewhere : Nat → Nat)
  | clone (index : Nat)
  | drop (index : Nat)

variable {Bytes : Type}

namespace CachedVolume

def new : CachedVolume Bytes := ⟨LruCache.new cacheCapacity, [], [], [], []⟩

/-- The clones of an allocation outside the cache and known here. -/
def held (volume : CachedVolume Bytes) (allocation : Nat) : Nat :=
  volume.handles.countP (fun arc => arc.allocation = allocation) +
    volume.calls.countP fun call => call.buf.any fun arc => arc.allocation = allocation

def call (volume : CachedVolume Bytes) (thread : Nat) : Option (Call Bytes) :=
  volume.calls.find? fun call => call.thread = thread

def others (volume : CachedVolume Bytes) (thread : Nat) : List (Call Bytes) :=
  volume.calls.filter fun call => call.thread ≠ thread

/-- `get_block` up to its return for a hit, or up to the inner read. -/
def getBlock (volume : CachedVolume Bytes) (thread lba : Nat) : CachedVolume Bytes :=
  match volume.cache.get lba with
  | some (arc, cache) =>
      { volume with
        cache := cache
        handles := arc :: volume.handles
        returns := ⟨thread, lba, .ok arc⟩ :: volume.returns }
  | none => { volume with calls := ⟨thread, lba, none⟩ :: volume.calls }

/-- The inner volume answers a call: an error is returned at once. -/
def innerRead (volume : CachedVolume Bytes) (call : Call Bytes)
    (result : Except BlockError (Arc Bytes)) : CachedVolume Bytes :=
  let read : Returned Bytes := ⟨call.thread, call.lba, result⟩
  match result with
  | .error _ =>
      { volume with
        calls := volume.others call.thread
        innerReads := read :: volume.innerReads
        returns := read :: volume.returns }
  | .ok arc =>
      { volume with
        calls := { call with buf := some arc } :: volume.others call.thread
        innerReads := read :: volume.innerReads }

/-- The buffer of a call enters the cache and is returned. -/
def insert (volume : CachedVolume Bytes) (elsewhere : Nat → Nat) (call : Call Bytes)
    (arc : Arc Bytes) : CachedVolume Bytes :=
  { volume with
    cache := volume.cache.insert (fun allocation => volume.held allocation + elsewhere allocation)
      call.lba arc
    calls := volume.others call.thread
    handles := arc :: volume.handles
    returns := ⟨call.thread, call.lba, .ok arc⟩ :: volume.returns }

def perform (volume : CachedVolume Bytes) : Action Bytes → Option (CachedVolume Bytes)
  | .getBlock thread lba =>
      if (volume.call thread).isSome then none else some (volume.getBlock thread lba)
  | .innerRead thread result => do
      let call ← volume.call thread
      if call.buf.isSome then none else some (volume.innerRead call result)
  | .insert thread elsewhere => do
      let call ← volume.call thread
      let arc ← call.buf
      some (volume.insert elsewhere call arc)
  | .clone index => do
      let handle ← volume.handles[index]?
      some { volume with handles := handle :: volume.handles }
  | .drop index => do
      let _ ← volume.handles[index]?
      some { volume with handles := volume.handles.eraseIdx index }

end CachedVolume

/-- The inner volume gives the contents of a block whenever it does not fail. -/
def Unchanging (contents : Nat → Bytes) (volume : CachedVolume Bytes) : Action Bytes → Prop
  | .innerRead thread (.ok arc) =>
      ∀ call, volume.call thread = some call → arc.value = contents call.lba
  | _ => True

/-- The states that threads reach over an unchanging inner volume. -/
inductive Reaches (contents : Nat → Bytes) : CachedVolume Bytes → Prop
  | new : Reaches contents .new
  | step {volume next : CachedVolume Bytes} (reached : Reaches contents volume)
      (action : Action Bytes) (unchanging : Unchanging contents volume action)
      (performed : volume.perform action = some next) : Reaches contents next

/-- What was returned is the contents of the block, or an error of the inner volume. -/
structure Returned.Transparent (returned : Returned Bytes) (contents : Nat → Bytes)
    (innerReads : List (Returned Bytes)) : Prop where
  bytes : ∀ arc, returned.result = .ok arc → arc.value = contents returned.lba
  failed : ∀ error, returned.result = .error error → returned ∈ innerReads

/-- The buffers in the cache and in calls hold the contents of their blocks. -/
structure Sound (contents : Nat → Bytes) (volume : CachedVolume Bytes) : Prop where
  cached : ∀ slot ∈ volume.cache.slots, slot.2.value = contents slot.1
  read : ∀ call ∈ volume.calls, ∀ arc, call.buf = some arc → arc.value = contents call.lba
  returned : ∀ returned ∈ volume.returns, returned.Transparent contents volume.innerReads

section Sound

variable {contents : Nat → Bytes} {volume next : CachedVolume Bytes} {thread : Nat}
  {call : Call Bytes} {arc : Arc Bytes}

theorem transparent_ok (thread lba : Nat) (innerReads : List (Returned Bytes))
    (bytes : arc.value = contents lba) :
    (⟨thread, lba, .ok arc⟩ : Returned Bytes).Transparent contents innerReads where
  bytes := by
    rintro _ ⟨⟩
    exact bytes
  failed := by
    rintro error ⟨⟩

theorem Returned.Transparent.mono {returned read : Returned Bytes}
    {innerReads : List (Returned Bytes)} (transparent : returned.Transparent contents innerReads) :
    returned.Transparent contents (read :: innerReads) where
  bytes := transparent.bytes
  failed := fun error failed => mem_cons_of_mem _ (transparent.failed error failed)

theorem sound_new (contents : Nat → Bytes) : Sound contents .new where
  cached := forall_mem_nil _
  read := forall_mem_nil _
  returned := forall_mem_nil _

theorem mem_of_call (found : volume.call thread = some call) : call ∈ volume.calls := by
  exact mem_of_find?_eq_some found

theorem Sound.others (sound : Sound contents volume) (thread : Nat) :
    ∀ call ∈ volume.others thread, ∀ arc, call.buf = some arc → arc.value = contents call.lba :=
  fun call member => sound.read call (mem_of_mem_filter member)

theorem Sound.getBlock (sound : Sound contents volume) (thread lba : Nat) :
    Sound contents (volume.getBlock thread lba) := by
  unfold CachedVolume.getBlock
  cases found : volume.cache.get lba with
  | none =>
    refine ⟨sound.cached, forall_mem_cons.mpr ⟨?_, sound.read⟩, sound.returned⟩
    rintro arc ⟨⟩
  | some hit =>
    obtain ⟨cached, reordered⟩ := get_eq_some found
    refine ⟨?_, sound.read, forall_mem_cons.mpr ⟨?_, sound.returned⟩⟩
    · intro slot member
      exact sound.cached slot (reordered.mem_iff.mp member)
    · exact transparent_ok thread lba _ (sound.cached _ cached)

theorem Sound.innerRead_error (sound : Sound contents volume) (call : Call Bytes)
    (error : BlockError) : Sound contents (volume.innerRead call (.error error)) := by
  refine ⟨sound.cached, sound.others call.thread, forall_mem_cons.mpr ⟨?_, ?_⟩⟩
  · constructor
    · rintro arc ⟨⟩
    · exact fun _ _ => mem_cons_self
  · exact fun returned member => (sound.returned returned member).mono

theorem Sound.innerRead_ok (sound : Sound contents volume) (bytes : arc.value = contents call.lba) :
    Sound contents (volume.innerRead call (.ok arc)) := by
  refine ⟨sound.cached, forall_mem_cons.mpr ⟨?_, sound.others call.thread⟩, ?_⟩
  · rintro _ ⟨⟩
    exact bytes
  · exact fun returned member => (sound.returned returned member).mono

/-- A block may be inserted beside a slot for it: both hold its contents. -/
theorem Sound.insert (sound : Sound contents volume) (elsewhere : Nat → Nat)
    (bytes : arc.value = contents call.lba) :
    Sound contents (volume.insert elsewhere call arc) := by
  refine ⟨forall_mem_cons.mpr ⟨bytes, ?_⟩, sound.others call.thread,
    forall_mem_cons.mpr ⟨transparent_ok _ _ _ bytes, sound.returned⟩⟩
  intro slot member
  exact sound.cached slot ((evictLoop_sublist _ _ _ _).subset member)

theorem Sound.perform (sound : Sound contents volume) (action : Action Bytes)
    (unchanging : Unchanging contents volume action)
    (performed : volume.perform action = some next) : Sound contents next := by
  cases action with
  | getBlock thread lba =>
    simp only [CachedVolume.perform] at performed
    split at performed
    · cases performed
    · cases performed
      exact sound.getBlock thread lba
  | innerRead thread result =>
    simp only [CachedVolume.perform, Option.bind_eq_bind, Option.bind_eq_some_iff] at performed
    obtain ⟨call, found, performed⟩ := performed
    split at performed
    · cases performed
    · cases performed
      cases result with
      | error error => exact sound.innerRead_error call error
      | ok arc => exact sound.innerRead_ok (unchanging call found)
  | insert thread elsewhere =>
    simp only [CachedVolume.perform, Option.bind_eq_bind, Option.bind_eq_some_iff] at performed
    obtain ⟨call, found, arc, read, performed⟩ := performed
    cases performed
    exact sound.insert elsewhere (sound.read call (mem_of_call found) arc read)
  | clone index =>
    simp only [CachedVolume.perform, Option.bind_eq_bind, Option.bind_eq_some_iff] at performed
    obtain ⟨handle, -, performed⟩ := performed
    cases performed
    exact ⟨sound.cached, sound.read, sound.returned⟩
  | drop index =>
    simp only [CachedVolume.perform, Option.bind_eq_bind, Option.bind_eq_some_iff] at performed
    obtain ⟨handle, -, performed⟩ := performed
    cases performed
    exact ⟨sound.cached, sound.read, sound.returned⟩

theorem Reaches.sound (reached : Reaches contents volume) : Sound contents volume := by
  induction reached with
  | new => exact sound_new contents
  | step _ action unchanging performed ih => exact ih.perform action unchanging performed

theorem perform_innerRead_error {error : BlockError}
    (performed : volume.perform (.innerRead thread (.error error)) = some next) :
    next.cache = volume.cache := by
  simp only [CachedVolume.perform, Option.bind_eq_bind, Option.bind_eq_some_iff] at performed
  obtain ⟨call, -, performed⟩ := performed
  split at performed
  · cases performed
  · cases performed
    rfl

end Sound

/-- In every run, the block cache returns what the inner volume holds and fails only
with it, and a read that fails leaves the cache as it was. -/
theorem Reaches.transparent {contents : Nat → Bytes} {volume : CachedVolume Bytes}
    (reached : Reaches contents volume) :
    (∀ returned ∈ volume.returns,
        (∀ arc, returned.result = .ok arc → arc.value = contents returned.lba) ∧
        ∀ error, returned.result = .error error → returned ∈ volume.innerReads) ∧
      ∀ thread error next, volume.perform (.innerRead thread (.error error)) = some next →
        next.cache = volume.cache := by
  constructor
  · intro returned member
    have transparent := reached.sound.returned returned member
    exact ⟨transparent.bytes, transparent.failed⟩
  · exact fun _ _ _ performed => perform_innerRead_error performed

/-- Two threads that miss the same block leave two slots for it, and a third call
returns its contents all the same. -/
theorem twoMisses_transparent : ∃ volume : CachedVolume Nat,
    volume.cache.slots.map Prod.fst = [8, 8] ∧ volume.returns.map Returned.lba = [8, 8, 8] ∧
      ∀ returned ∈ volume.returns, ∀ arc, returned.result = .ok arc →
        arc.value = returned.lba + 1 := by
  have first : Reaches (· + 1) _ := .step .new (.getBlock 1 8) trivial rfl
  have second : Reaches (· + 1) _ := .step first (.getBlock 2 8) trivial rfl
  have firstRead : Reaches (· + 1) _ := .step second (.innerRead 1 (.ok ⟨0, 9⟩))
    (by rintro _ ⟨⟩; rfl) rfl
  have firstInsert : Reaches (· + 1) _ := .step firstRead (.insert 1 fun _ => 0) trivial rfl
  have secondRead : Reaches (· + 1) _ := .step firstInsert (.innerRead 2 (.ok ⟨1, 9⟩))
    (by rintro _ ⟨⟩; rfl) rfl
  have secondInsert : Reaches (· + 1) _ := .step secondRead (.insert 2 fun _ => 0) trivial rfl
  have third : Reaches (· + 1) _ := .step secondInsert (.getBlock 3 8) trivial rfl
  exact ⟨_, rfl, rfl, fun returned member => (third.transparent.1 returned member).1⟩

end NanoOs.BlockCaches
