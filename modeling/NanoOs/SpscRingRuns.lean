import NanoOs.SpscRing
import NanoOs.CheckedArithmetic

/-!
# The ring buffer under interleaving

The producer's calls of `push_slice` and the consumer's calls of `pop` take their
steps in any order.  Each atomic load, each copy into the buffer, the read of a
byte and each atomic store is a step of its own.  Beside the ring the state
records the calls of `push_slice` that returned and the bytes that `pop` returned.
-/

namespace NanoOs.SpscRing

variable {size : Nat}

/-- The ranges of a `copy_from_slice`, in the buffer and in the data. -/
structure Copy where
  start : Nat
  stop : Nat
  first : Nat
  last : Nat

def Copy.into (copy : Copy) (buf : ByteMemory) (data : List UInt8) : ByteMemory :=
  buf.writeBytes copy.start (copy.stop - copy.start) fun index => data.getD (copy.first + index) 0

def copyFromSlice (ring : SpscRing size) (data : List UInt8) (copy : Copy) :
    Checked (SpscRing size) := do
  ensure (copy.start ≤ copy.stop ∧ copy.stop ≤ size) "range out of range for slice"
  ensure (copy.first ≤ copy.last ∧ copy.last ≤ data.length) "range out of range for slice"
  ensure (copy.stop - copy.start = copy.last - copy.first)
    "copy_from_slice: source slice length does not match destination slice length"
  .ok { ring with buf := copy.into ring.buf data }

/-- What `push_slice` computes after its loads: how much it copies and in which
pieces, or that there is no space. -/
def planCopies (size head tail length : Nat) : Checked (Option (Nat × List Copy)) := do
  let wrapped ← checkedAdd tail size
  let distance ← checkedSub wrapped head
  let space ← checkedSub distance 1
  let available := space % size
  if available = 0 then .ok none
  else
    let toCopy := min length available
    let contiguous ← checkedSub size head
    if toCopy ≤ contiguous then do
      let stop ← checkedAdd head toCopy
      .ok (some (toCopy, [⟨head, stop, 0, toCopy⟩]))
    else do
      let rest ← checkedSub toCopy contiguous
      .ok (some (toCopy, [⟨head, size, 0, contiguous⟩, ⟨0, rest, contiguous, toCopy⟩]))

/-- A call of `push_slice`: its data, how many bytes were unread when it loaded
the tail, and how many bytes it accepts. -/
structure Push where
  data : List UInt8
  unread : Nat
  accepted : Nat

inductive Producer
  | idle
  | loadedHead (data : List UInt8) (head : Nat)
  | copying (push : Push) (head : Nat) (copies : List Copy)

inductive Consumer
  | idle
  | loadedTail (tail : Nat)
  | loadedHead (tail : Nat)
  | loadedByte (tail : Nat) (byte : UInt8)

structure System (size : Nat) where
  ring : SpscRing size
  producer : Producer
  consumer : Consumer
  pushes : List Push
  popped : List UInt8

/-- Whose step is next; an idle producer begins to push the data. -/
inductive Move
  | produce (data : List UInt8)
  | consume

namespace System

def new (positive : 0 < size) : System size := ⟨.new positive, .idle, .idle, [], []⟩

def accepted (system : System size) : List UInt8 :=
  system.pushes.flatMap fun push => push.data.take push.accepted

def unread (system : System size) : Nat := system.accepted.length - system.popped.length

def produce (system : System size) (data : List UInt8) : Checked (System size) :=
  match system.producer with
  | .idle => .ok { system with producer := .loadedHead data system.ring.head }
  | .loadedHead data head => do
      match ← planCopies size head system.ring.tail data.length with
      | none =>
          .ok { system with
            producer := .idle
            pushes := system.pushes ++ [⟨data, system.unread, 0⟩] }
      | some (toCopy, copies) =>
          .ok { system with producer := .copying ⟨data, system.unread, toCopy⟩ head copies }
  | .copying push head (copy :: copies) => do
      let ring ← system.ring.copyFromSlice push.data copy
      .ok { system with ring, producer := .copying push head copies }
  | .copying push head [] => do
      let stop ← checkedAdd head push.accepted
      .ok { system with
        ring := { system.ring with
          head := stop % size, headLt := Nat.mod_lt _ system.ring.positive }
        producer := .idle
        pushes := system.pushes ++ [push] }

def consume (system : System size) : Checked (System size) :=
  match system.consumer with
  | .idle => .ok { system with consumer := .loadedTail system.ring.tail }
  | .loadedTail tail =>
      .ok { system with consumer := if system.ring.head = tail then .idle else .loadedHead tail }
  | .loadedHead tail => do
      ensure (tail < size) "index out of bounds"
      .ok { system with consumer := .loadedByte tail (system.ring.buf tail) }
  | .loadedByte tail byte => do
      let next ← checkedAdd tail 1
      .ok { system with
        ring := { system.ring with
          tail := next % size, tailLt := Nat.mod_lt _ system.ring.positive }
        consumer := .idle
        popped := system.popped ++ [byte] }

def step (system : System size) : Move → Checked (System size)
  | .produce data => system.produce data
  | .consume => system.consume

def run (system : System size) : List Move → Checked (System size)
  | [] => .ok system
  | move :: moves => do
      let next ← system.step move
      next.run moves

end System

/-- The pieces to be copied follow each other in the data from `first` on, each
without going around the end of the buffer. -/
inductive Pending (size head toCopy : Nat) : Nat → List Copy → Prop
  | done : Pending size head toCopy toCopy []
  | piece {first : Nat} {copy : Copy} {copies : List Copy} (source : copy.first = first)
      (ordered : first ≤ copy.last) (within : copy.last ≤ toCopy)
      (start : copy.start = (head + first) % size)
      (stop : copy.stop = copy.start + (copy.last - first)) (fits : copy.stop ≤ size)
      (rest : Pending size head toCopy copy.last copies) :
      Pending size head toCopy first (copy :: copies)

structure Copying (ring : SpscRing size) (push : Push) (head : Nat) (copies : List Copy) :
    Prop where
  sameHead : head = ring.head
  fits : push.accepted + ring.count < size
  accepts : push.accepted = min push.data.length (size - 1 - push.unread)
  pending : ∃ first, Pending size head push.accepted first copies ∧
    ∀ index < first, ring.buf ((head + index) % size) = push.data.getD index 0

def Producer.Consistent (ring : SpscRing size) : Producer → Prop
  | .idle => True
  | .loadedHead _ head => head = ring.head
  | .copying push head copies => Copying ring push head copies

def Consumer.Consistent (ring : SpscRing size) : Consumer → Prop
  | .idle => True
  | .loadedTail tail => tail = ring.tail
  | .loadedHead tail => tail = ring.tail ∧ 0 < ring.count
  | .loadedByte tail byte => tail = ring.tail ∧ 0 < ring.count ∧ byte = ring.buf ring.tail

structure System.Consistent (system : System size) : Prop where
  fifo : system.accepted = system.popped ++ system.ring.contents
  accepts : ∀ push ∈ system.pushes,
    push.accepted = min push.data.length (size - 1 - push.unread)
  producer : system.producer.Consistent system.ring
  consumer : system.consumer.Consistent system.ring

theorem System.Consistent.unread_eq {system : System size} (consistent : system.Consistent) :
    system.unread = system.ring.count := by
  rw [unread, consistent.fifo, List.length_append, length_contents, Nat.add_sub_cancel_left]

variable {ring : SpscRing size} {push : Push} {head : Nat} {copy : Copy} {copies : List Copy}

theorem Copying.apart (copying : Copying ring push head (copy :: copies)) {index : Nat}
    (inside : index < ring.count) :
    (ring.tail + index) % size < copy.start ∨ copy.stop ≤ (ring.tail + index) % size := by
  obtain ⟨rfl, fits, -, first, pending, -⟩ := copying
  cases pending with
  | piece source ordered within start stop _ _ =>
    have headLt := ring.headLt
    have cases := ring.count_cases
    rw [mod_size (by omega)] at start ⊢
    split at start <;> split <;> omega

/-- A copy does not panic, and one piece less is left to copy. -/
theorem Copying.copied (copying : Copying ring push head (copy :: copies)) :
    ∃ buf, ring.copyFromSlice push.data copy = .ok { ring with buf } ∧
      (∀ index < ring.count, buf ((ring.tail + index) % size) =
        ring.buf ((ring.tail + index) % size)) ∧
      Copying { ring with buf } push head copies := by
  have apart : ∀ index < ring.count, _ := fun index inside => copying.apart inside
  obtain ⟨rfl, fits, accepts, first, pending, written⟩ := copying
  cases pending with
  | piece source ordered within start stop inBuffer rest =>
    have headLt := ring.headLt
    refine ⟨copy.into ring.buf push.data, ?_, fun index inside => ?_, rfl, fits, accepts,
      copy.last, rest, ?_⟩
    · unfold copyFromSlice
      rw [ensure_bind (by omega), ensure_bind (by omega),
        ensure_bind (by omega)]
    · exact ByteMemory.writeBytes_outside _ _ (by have := apart index inside; omega)
    · intro index before
      dsimp only [Copy.into]
      rw [mod_size (by omega)] at start
      by_cases earlier : index < first
      · rw [ByteMemory.writeBytes_outside, written index earlier]
        rw [mod_size (by omega)]
        split at start <;> split <;> omega
      · have position : (ring.head + index) % size = copy.start + (index - first) := by
          rw [mod_size (by omega)]
          split at start <;> split <;> omega
        rw [position, ByteMemory.writeBytes_inside _ _ (by omega)]
        exact congrArg (push.data.getD · 0) (by omega)

theorem planCopies_cases (ring : SpscRing size) (array : size < 2 ^ 63) (length : Nat) :
    (size - 1 - ring.count = 0 ∧ planCopies size ring.head ring.tail length = .ok none) ∨
      ∃ copies, planCopies size ring.head ring.tail length =
          .ok (some (min length (size - 1 - ring.count), copies)) ∧
        Pending size ring.head (min length (size - 1 - ring.count)) 0 copies := by
  have headLt := ring.headLt
  have tailLt := ring.tailLt
  unfold planCopies
  rw [checkedAdd_bind (by omega), checkedSub_bind (by omega),
    checkedSub_bind (by omega), ring.available_eq]
  by_cases full : size - 1 - ring.count = 0
  · exact .inl ⟨full, if_pos full⟩
  · right
    generalize toCopyEq : min length (size - 1 - ring.count) = toCopy
    have here : ring.head = (ring.head + 0) % size := (Nat.mod_eq_of_lt headLt).symm
    rw [if_neg full, checkedSub_bind (by omega), toCopyEq]
    by_cases contiguous : toCopy ≤ size - ring.head
    · rw [if_pos contiguous, checkedAdd_bind (by omega)]
      exact ⟨_, rfl, .piece rfl (Nat.zero_le _) le_rfl here rfl (by dsimp only; omega) .done⟩
    · rw [if_neg contiguous, checkedSub_bind (by omega)]
      have around : 0 = (ring.head + (size - ring.head)) % size := by
        rw [Nat.add_sub_cancel' headLt.le, Nat.mod_self]
      refine ⟨_, rfl, .piece rfl (Nat.zero_le _) (by dsimp only; omega) here
        (by dsimp only; omega) le_rfl ?_⟩
      exact .piece rfl (by dsimp only; omega) le_rfl around (by dsimp only; omega)
        (by dsimp only; omega) .done

theorem Consumer.Consistent.later {consumer : Consumer} {after : SpscRing size}
    (consistent : consumer.Consistent ring) (sameTail : after.tail = ring.tail)
    (more : ring.count ≤ after.count)
    (kept : 0 < ring.count → after.buf ring.tail = ring.buf ring.tail) :
    consumer.Consistent after := by
  cases consumer with
  | idle => trivial
  | loadedTail tail => exact consistent.trans sameTail.symm
  | loadedHead tail => exact ⟨consistent.1.trans sameTail.symm, consistent.2.trans_le more⟩
  | loadedByte tail byte =>
    obtain ⟨same, some, read⟩ := consistent
    refine ⟨same.trans sameTail.symm, some.trans_le more, ?_⟩
    rw [read, sameTail, kept some]

namespace System

variable {system : System size}

theorem Consistent.produce (consistent : system.Consistent) (array : size < 2 ^ 63)
    (data : List UInt8) : ∃ next, system.produce data = .ok next ∧ next.Consistent := by
  obtain ⟨ring, producer, consumer, pushes, popped⟩ := system
  have unreadEq := consistent.unread_eq
  obtain ⟨fifo, accepts, isProducer, isConsumer⟩ := consistent
  cases producer with
  | idle => exact ⟨_, rfl, fifo, accepts, rfl, isConsumer⟩
  | loadedHead data head =>
    obtain rfl : head = ring.head := isProducer
    rcases ring.planCopies_cases array data.length with ⟨full, plan⟩ | ⟨copies, plan, pending⟩
    · dsimp only [System.produce]
      rw [plan, ok_bind]
      refine ⟨_, rfl, ?_, ?_, trivial, isConsumer⟩
      · simpa [accepted] using fifo
      · intro push member
        rcases List.mem_append.mp member with old | new
        · exact accepts push old
        · rw [List.mem_singleton.mp new, unreadEq]
          dsimp only
          omega
    · dsimp only [System.produce]
      rw [plan, ok_bind]
      refine ⟨_, rfl, fifo, accepts, ?_, isConsumer⟩
      have bound := ring.count_lt
      refine ⟨rfl, by dsimp only; omega, by rw [unreadEq], 0, pending, ?_⟩
      intro index before
      omega
  | copying push head copies =>
    cases copies with
    | cons copy copies =>
      obtain ⟨buf, copied, kept, copying⟩ := Copying.copied isProducer
      dsimp only [System.produce]
      rw [copied, ok_bind]
      refine ⟨_, rfl, ?_, accepts, copying, ?_⟩
      · exact fifo.trans (congrArg _ (contents_kept kept).symm)
      · refine isConsumer.later rfl le_rfl fun some => ?_
        have first := kept 0 some
        rwa [Nat.add_zero, Nat.mod_eq_of_lt ring.tailLt] at first
    | nil =>
      obtain ⟨sameHead, fits, accepted, first, pending, written⟩ := isProducer
      obtain rfl : head = ring.head := sameHead
      cases pending
      have headLt := ring.headLt
      have added : checkedAdd ring.head push.accepted = .ok _ := checkedAdd_of_lt (by omega)
      dsimp only [System.produce]
      rw [added, ok_bind]
      refine ⟨_, rfl, ?_, ?_, trivial, ?_⟩
      · have longer := ring.contents_advance fits (by omega) written
        simp only [System.accepted, List.flatMap_append, List.flatMap_cons, List.flatMap_nil,
          List.append_nil] at fifo ⊢
        rw [fifo, List.append_assoc]
        exact congrArg _ longer.symm
      · intro other member
        rcases List.mem_append.mp member with old | new
        · exact accepts other old
        · rw [List.mem_singleton.mp new]
          exact accepted
      · have counted := ring.count_advance fits
        exact isConsumer.later rfl (by unfold advance at counted; dsimp only; omega) fun _ => rfl

theorem Consistent.consume (consistent : system.Consistent) (array : size < 2 ^ 63) :
    ∃ next, system.consume = .ok next ∧ next.Consistent := by
  obtain ⟨ring, producer, consumer, pushes, popped⟩ := system
  obtain ⟨fifo, accepts, isProducer, isConsumer⟩ := consistent
  have tailLt := ring.tailLt
  cases consumer with
  | idle => exact ⟨_, rfl, fifo, accepts, isProducer, rfl⟩
  | loadedTail tail =>
    obtain rfl : tail = ring.tail := isConsumer
    refine ⟨_, rfl, fifo, accepts, isProducer, ?_⟩
    dsimp only
    split
    · trivial
    · have cases := ring.count_cases
      exact ⟨rfl, by omega⟩
  | loadedHead tail =>
    obtain ⟨sameTail, some⟩ := isConsumer
    obtain rfl : tail = ring.tail := sameTail
    dsimp only [System.consume]
    rw [ensure_bind tailLt]
    exact ⟨_, rfl, fifo, accepts, isProducer, rfl, some, rfl⟩
  | loadedByte tail byte =>
    obtain ⟨sameTail, some, read⟩ := isConsumer
    obtain rfl : tail = ring.tail := sameTail
    have added : checkedAdd ring.tail 1 = .ok _ := checkedAdd_of_lt (by omega)
    dsimp only [System.consume]
    rw [added, ok_bind]
    refine ⟨_, rfl, ?_, accepts, ?_, trivial⟩
    · have shorter := contents_skip some
      rw [shorter, ← read, List.append_cons] at fifo
      exact fifo
    · cases producer with
      | idle => trivial
      | loadedHead data head => exact isProducer
      | copying push head copies =>
        have counted : ring.skip.count + 1 = ring.count := count_skip some
        have fits : push.accepted + ring.count < size := isProducer.fits
        exact ⟨isProducer.sameHead, show push.accepted + ring.skip.count < size by omega,
          isProducer.accepts, isProducer.pending⟩

theorem consistent_new (positive : 0 < size) : (new positive).Consistent := by
  refine ⟨(contents_new positive).symm, ?_, trivial, trivial⟩
  intro push member
  cases member

theorem Consistent.run (consistent : system.Consistent) (array : size < 2 ^ 63)
    (moves : List Move) : ∃ after, system.run moves = .ok after ∧ after.Consistent := by
  induction moves generalizing system with
  | nil => exact ⟨system, rfl, consistent⟩
  | cons move moves ih =>
    have stepped : ∃ next, system.step move = .ok next ∧ next.Consistent := by
      cases move with
      | produce data => exact consistent.produce array data
      | consume => exact consistent.consume array
    obtain ⟨next, ran, nextConsistent⟩ := stepped
    unfold System.run
    rw [ran, ok_bind]
    exact ih nextConsistent

/-- Under every interleaving the ring is a bounded first-in first-out buffer.  The
array of a ring has, as every array, less than 2^63 bytes. -/
theorem run_fifo (two : 2 ≤ size) (array : size < 2 ^ 63) (moves : List Move) :
    ∃ system, (new (Nat.zero_lt_of_lt two)).run moves = .ok system ∧
      system.popped <+: system.accepted ∧
      system.ring.head < size ∧ system.ring.tail < size ∧ system.unread ≤ size - 1 ∧
      (∀ push head copy copies, system.producer = .copying push head (copy :: copies) →
        ∀ index < system.unread, (system.ring.tail + index) % size < copy.start ∨
          copy.stop ≤ (system.ring.tail + index) % size) ∧
      ∀ push ∈ system.pushes, push.accepted = min push.data.length (size - 1 - push.unread) := by
  obtain ⟨system, ran, consistent⟩ := (consistent_new (Nat.zero_lt_of_lt two)).run array moves
  have bound := system.ring.count_lt
  have unreadEq := consistent.unread_eq
  refine ⟨system, ran, ⟨_, consistent.fifo.symm⟩, system.ring.headLt, system.ring.tailLt,
    by omega, ?_, consistent.accepts⟩
  intro push head copy copies phase index inside
  have copying := consistent.producer
  rw [phase] at copying
  exact copying.apart (by omega)

/-- Three bytes are pushed, two of them popped, and of three more bytes two are accepted,
which go around the end of the buffer. -/
def fourSlotsMoves : List Move :=
  List.replicate 4 (.produce [1, 2, 3]) ++ List.replicate 8 .consume ++
    List.replicate 5 (.produce [4, 5, 6]) ++ List.replicate 8 .consume

theorem fourSlots_fifo :
    ∃ system, (new (show 0 < 4 by decide)).run fourSlotsMoves = .ok system ∧
      system.popped = [1, 2, 3, 4] ∧ system.accepted = [1, 2, 3, 4, 5] ∧ system.ring.head = 1 ∧
      system.popped <+: system.accepted ∧
      ∀ push ∈ system.pushes, push.accepted = min push.data.length (4 - 1 - push.unread) := by
  obtain ⟨system, ran, ordered, -, -, -, -, accepts⟩ :=
    run_fifo (show 2 ≤ 4 by decide) (by decide) fourSlotsMoves
  have evaluated : ((new (show 0 < 4 by decide)).run fourSlotsMoves).map (fun system =>
      (system.popped, system.accepted, system.ring.head)) =
      .ok ([1, 2, 3, 4], [1, 2, 3, 4, 5], 1) := by
    decide +kernel
  rw [ran] at evaluated
  obtain ⟨popped, accepted, head⟩ := by
    simpa only [Except.map, Except.ok.injEq, Prod.mk.injEq] using evaluated
  exact ⟨system, ran, popped, accepted, head, ordered, accepts⟩

end System

end NanoOs.SpscRing
