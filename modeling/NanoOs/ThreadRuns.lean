import NanoOs.ThreadScheduling

/-!
# Runs of the scheduler

Every run of the thread operations, called where the kernel calls them.
Operations are atomic: interrupts are taken only in the idle loop, in the
window of a yield and in user mode, that is between operations.  A run records
the messages delivered to and received by each thread and which threads are
inside `receive_message`.
-/

namespace NanoOs.Threads

open Function List ThreadManager Kernel

variable {Data : Type}

/-- The kernel, the threads created but not yet added, and the record of the
run. -/
structure System (Data : Type) where
  kernel : Kernel Data
  boxed : List (Thread Data)
  receiving : Nat → Bool
  delivered : Nat → List (Message Data)
  received : Nat → List (Message Data)

def noteDelivery (manager : ThreadManager Data) (delivered : Nat → List (Message Data))
    (targetId : Nat) (message : Message Data) : Nat → List (Message Data) :=
  match manager.getThread targetId with
  | some _ => Function.update delivered targetId (delivered targetId ++ [message])
  | none => delivered

inductive Operation (Data : Type)
  | setIdleThread
  | newThread
  | add (thread : Thread Data)
  | startScheduler
  | scheduleIfReady
  | yieldNow
  | blockNow
  | exit
  | wakeThread (targetId : Nat)
  | sendMessage (targetId : Nat) (message : Message Data)
  | sendMessageUrgent (targetId : Nat) (message : Message Data)
  | receiveMessage

namespace System

def boot : System Data where
  kernel := ⟨ThreadManager.new, .null, none⟩
  boxed := []
  receiving := fun _ => false
  delivered := fun _ => []
  received := fun _ => []

/-- Where each operation is called.  The scheduler is entered from the boot
code, the idle loop, and the operations of the current thread of the table; a
thread inside `receive_message` only repeats its loop.  Waking and sending are
also open to interrupts, and creating and adding threads to the boot code, which
creates no thread once the identifiers have run out. -/
def Calls (system : System Data) : Operation Data → Prop
  | .setIdleThread | .startScheduler => system.kernel.current = .null
  | .scheduleIfReady => system.kernel.current = .idle
  | .yieldNow | .blockNow | .exit | .sendMessageUrgent _ _ =>
      ∃ threadId, system.kernel.current = .thread threadId ∧ system.receiving threadId = false
  | .receiveMessage => ∃ threadId, system.kernel.current = .thread threadId
  | .add thread => thread ∈ system.boxed
  | .newThread => system.kernel.manager.nextId + 1 < 2 ^ 64
  | .wakeThread _ | .sendMessage _ _ => True

def perform (system : System Data) : Operation Data → Checked (System Data)
  | .setIdleThread => .ok { system with kernel := system.kernel.setIdleThread }
  | .newThread =>
      let (thread, kernel) := system.kernel.newThread
      .ok { system with kernel := kernel, boxed := thread :: system.boxed }
  | .add thread =>
      .ok { system with
        kernel := system.kernel.add thread
        boxed := system.boxed.filter fun other => other.id ≠ thread.id }
  | .startScheduler => do
      let kernel ← system.kernel.startScheduler
      .ok { system with kernel := kernel }
  | .scheduleIfReady => do
      let kernel ← system.kernel.scheduleIfReady
      .ok { system with kernel := kernel }
  | .yieldNow => do
      let kernel ← system.kernel.yieldImpl
      .ok { system with kernel := kernel }
  | .blockNow => do
      let kernel ← system.kernel.blockImpl
      .ok { system with kernel := kernel }
  | .exit => do
      let kernel ← system.kernel.exit
      .ok { system with kernel := kernel }
  | .wakeThread targetId => .ok { system with kernel := system.kernel.wakeThread targetId }
  | .sendMessage targetId message =>
      .ok { system with
        kernel := system.kernel.sendMessage targetId message
        delivered := noteDelivery system.kernel.manager system.delivered targetId message }
  | .sendMessageUrgent targetId message => do
      let kernel ← system.kernel.sendMessageUrgentImpl targetId message
      .ok { system with
        kernel := kernel
        delivered := noteDelivery system.kernel.manager system.delivered targetId message }
  | .receiveMessage => do
      let threadId ← system.kernel.currentId
      match ← system.kernel.receiveMessage with
      | (some message, kernel) =>
          .ok { system with
            kernel := kernel
            receiving := Function.update system.receiving threadId false
            received :=
              Function.update system.received threadId (system.received threadId ++ [message]) }
      | (none, kernel) =>
          .ok { system with
            kernel := kernel
            receiving := Function.update system.receiving threadId true }

end System

inductive Reachable : System Data → Prop
  | boot : Reachable System.boot
  | step {system next : System Data} (reached : Reachable system) (operation : Operation Data)
      (called : system.Calls operation) (performed : system.perform operation = .ok next) :
      Reachable next

structure Recorded (manager : ThreadManager Data) (boxed : List (Thread Data))
    (receiving : Nat → Bool) (delivered received : Nat → List (Message Data)) : Prop where
  kept : ∀ threadId thread, manager.threadTable threadId = some thread →
    delivered threadId = received threadId ++ thread.inbox
  waits : ∀ threadId thread, manager.threadTable threadId = some thread →
    thread.state = .blocked → receiving threadId = true → thread.inbox = []
  ordered : ∀ threadId, received threadId <+: delivered threadId
  unused : ∀ threadId, manager.nextId ≤ threadId ∨ threadId ∈ boxed.map Thread.id →
    manager.threadTable threadId = none ∧ delivered threadId = [] ∧ received threadId = []
  fresh : ∀ thread ∈ boxed, thread.id ≠ 0 ∧ thread.id < manager.nextId ∧
    thread.state = .ready ∧ thread.inbox = []
  distinct : (boxed.map Thread.id).Nodup
  positive : 0 < manager.nextId

section Record

variable {manager : ThreadManager Data} {boxed : List (Thread Data)} {receiving : Nat → Bool}
  {delivered received : Nat → List (Message Data)} {threadId : Nat} {thread old : Thread Data}

section

variable (recorded : Recorded manager boxed receiving delivered received)

include recorded

theorem Recorded.mail {after : ThreadManager Data} (same : Kernel.SameMail manager after) :
    Recorded after boxed receiving delivered received := by
  obtain ⟨sameNext, sameStanding⟩ := same
  have standing : ∀ threadId thread, after.threadTable threadId = some thread →
      ∃ old, manager.threadTable threadId = some old ∧ thread.inbox = old.inbox ∧
        (thread.state = .blocked → old.state = .blocked) := by
    intro threadId thread found
    have equal := sameStanding threadId
    rw [found, Option.map_some, eq_comm, Option.map_eq_some_iff] at equal
    obtain ⟨old, oldFound, standingEq⟩ := equal
    obtain ⟨inboxEq, blockedEq⟩ := Prod.mk.inj standingEq
    refine ⟨old, oldFound, inboxEq.symm, ?_⟩
    intro isBlocked
    simpa [isBlocked] using blockedEq
  refine ⟨?_, ?_, recorded.ordered, ?_, ?_, recorded.distinct, sameNext ▸ recorded.positive⟩
  · intro threadId thread found
    obtain ⟨old, oldFound, inboxEq, -⟩ := standing threadId thread found
    rw [inboxEq]
    exact recorded.kept threadId old oldFound
  · intro threadId thread found isBlocked isReceiving
    obtain ⟨old, oldFound, inboxEq, stays⟩ := standing threadId thread found
    rw [inboxEq]
    exact recorded.waits threadId old oldFound (stays isBlocked) isReceiving
  · intro threadId isUnused
    rw [← sameNext] at isUnused
    obtain ⟨missing, nothing⟩ := recorded.unused threadId isUnused
    refine ⟨?_, nothing⟩
    have equal := sameStanding threadId
    rw [missing] at equal
    simpa using equal
  · rw [← sameNext]
    exact recorded.fresh

variable {deliveredAfter : Nat → List (Message Data)}
  {enqueue : ThreadManager Data → Nat → ThreadManager Data}

theorem Recorded.setThread {receivingAfter : Nat → Bool}
    {receivedAfter : Nat → List (Message Data)} (found : manager.threadTable threadId = some old)
    (kept : deliveredAfter threadId = receivedAfter threadId ++ thread.inbox)
    (waits : thread.state = .blocked → receivingAfter threadId = true → thread.inbox = [])
    (elsewhere : ∀ other, other ≠ threadId → receivingAfter other = receiving other ∧
      deliveredAfter other = delivered other ∧ receivedAfter other = received other) :
    Recorded (manager.setThread threadId thread) boxed receivingAfter deliveredAfter
      receivedAfter := by
  refine ⟨?_, ?_, ?_, ?_, recorded.fresh, recorded.distinct, recorded.positive⟩
  · intro other entry isFound
    by_cases equal : other = threadId
    · subst equal
      have entryEq : thread = entry := by simpa [ThreadManager.setThread] using isFound
      rw [← entryEq]
      exact kept
    · obtain ⟨-, deliveredEq, receivedEq⟩ := elsewhere other equal
      rw [deliveredEq, receivedEq]
      apply recorded.kept other entry
      simpa [ThreadManager.setThread, equal] using isFound
  · intro other entry isFound
    by_cases equal : other = threadId
    · subst equal
      have entryEq : thread = entry := by simpa [ThreadManager.setThread] using isFound
      rw [← entryEq]
      exact waits
    · rw [(elsewhere other equal).1]
      apply recorded.waits other entry
      simpa [ThreadManager.setThread, equal] using isFound
  · intro other
    by_cases equal : other = threadId
    · subst equal
      rw [kept]
      exact prefix_append _ _
    · obtain ⟨-, deliveredEq, receivedEq⟩ := elsewhere other equal
      rw [deliveredEq, receivedEq]
      exact recorded.ordered other
  · intro other isUnused
    obtain ⟨missing, nothing⟩ := recorded.unused other isUnused
    have equal : other ≠ threadId := by
      rintro rfl
      rw [found] at missing
      cases missing
    obtain ⟨-, deliveredEq, receivedEq⟩ := elsewhere other equal
    rw [deliveredEq, receivedEq]
    refine ⟨?_, nothing⟩
    simpa [ThreadManager.setThread, equal] using missing

theorem Recorded.queue (queue : List Nat) :
    Recorded { manager with readyQueue := queue } boxed receiving delivered received :=
  ⟨recorded.kept, recorded.waits, recorded.ordered, recorded.unused, recorded.fresh,
    recorded.distinct, recorded.positive⟩

theorem Recorded.wake (enqueues : Enqueues enqueue)
    (found : manager.threadTable threadId = some old)
    (kept : deliveredAfter threadId = received threadId ++ thread.inbox)
    (elsewhere : ∀ other, other ≠ threadId → deliveredAfter other = delivered other) :
    Recorded (manager.wake enqueue threadId thread) boxed receiving deliveredAfter received := by
  unfold ThreadManager.wake
  split
  · obtain ⟨queue, queueEq, -⟩ :=
      enqueues (manager.setThread threadId { thread with state := .ready }) threadId
    have woken : Recorded (manager.setThread threadId { thread with state := .ready }) boxed
        receiving deliveredAfter received := by
      refine recorded.setThread found kept ?_ ?_
      · intro isBlocked
        cases isBlocked
      · exact fun other different => ⟨rfl, elsewhere other different, rfl⟩
    rw [queueEq]
    exact woken.queue queue
  · rename_i notBlocked
    refine recorded.setThread found kept ?_ ?_
    · exact fun isBlocked => absurd isBlocked notBlocked
    · exact fun other different => ⟨rfl, elsewhere other different, rfl⟩

theorem Recorded.deliver (enqueues : Enqueues enqueue) (targetId : Nat) (message : Message Data) :
    Recorded (manager.deliver enqueue targetId message) boxed receiving
      (noteDelivery manager delivered targetId message) received := by
  unfold ThreadManager.deliver noteDelivery
  cases found : manager.getThread targetId with
  | none => exact recorded
  | some target =>
    refine recorded.wake enqueues found ?_ ?_
    · simp [recorded.kept targetId target found]
    · exact fun other different => update_of_ne different _ _

theorem Recorded.remove (threadId : Nat) :
    Recorded (manager.removeThread threadId) boxed receiving delivered received := by
  have remains : ∀ other entry, (manager.removeThread threadId).threadTable other = some entry →
      manager.threadTable other = some entry := by
    intro other entry isFound
    by_cases equal : other = threadId
    · simp [removeThread, equal] at isFound
    · simpa [removeThread, equal] using isFound
  refine ⟨?_, ?_, recorded.ordered, ?_, recorded.fresh, recorded.distinct, recorded.positive⟩
  · exact fun other entry isFound => recorded.kept other entry (remains other entry isFound)
  · exact fun other entry isFound => recorded.waits other entry (remains other entry isFound)
  · intro other isUnused
    obtain ⟨missing, nothing⟩ := recorded.unused other isUnused
    refine ⟨?_, nothing⟩
    by_cases equal : other = threadId
    · simp [removeThread, equal]
    · simpa [removeThread, equal] using missing

theorem Recorded.newThread (room : manager.nextId + 1 < 2 ^ 64) :
    Recorded { manager with nextId := (manager.nextId + 1) % 2 ^ 64 }
      (⟨manager.nextId, .ready, []⟩ :: boxed) receiving delivered received := by
  rw [Nat.mod_eq_of_lt room]
  refine ⟨recorded.kept, recorded.waits, recorded.ordered, ?_, ?_, ?_, Nat.succ_pos _⟩
  · intro threadId isUnused
    apply recorded.unused
    simp only [map_cons, mem_cons] at isUnused
    rcases isUnused with beyond | rfl | isBoxed
    · left
      omega
    · exact Or.inl (Nat.le_refl _)
    · exact Or.inr isBoxed
  · intro thread member
    rcases mem_cons.mp member with rfl | isOld
    · exact ⟨Nat.pos_iff_ne_zero.mp recorded.positive, Nat.lt_succ_self _, rfl, rfl⟩
    · obtain ⟨nonzero, bound, isReady, empty⟩ := recorded.fresh thread isOld
      exact ⟨nonzero, Nat.lt_succ_of_lt bound, isReady, empty⟩
  · refine nodup_cons.mpr ⟨?_, recorded.distinct⟩
    intro member
    obtain ⟨thread, isBoxed, idEq⟩ := mem_map.mp member
    have bound := (recorded.fresh thread isBoxed).2.1
    simp only at idEq
    omega

theorem Recorded.add (member : thread ∈ boxed) :
    Recorded (manager.addThread thread) (boxed.filter fun other => other.id ≠ thread.id)
      receiving delivered received := by
  obtain ⟨-, bound, isReady, empty⟩ := recorded.fresh thread member
  have nothing := (recorded.unused thread.id (Or.inr (mem_map_of_mem member))).2
  have remaining : ∀ other, other ∈ boxed.filter (fun other => other.id ≠ thread.id) →
      other ∈ boxed ∧ other.id ≠ thread.id := by
    intro other isKept
    simpa using mem_filter.mp isKept
  refine ⟨?_, ?_, recorded.ordered, ?_, ?_, ?_, recorded.positive⟩
  · intro other entry isFound
    by_cases equal : other = thread.id
    · subst equal
      have entryEq : thread = entry := by
        simpa [addThread, ThreadManager.setThread] using isFound
      rw [nothing.1, nothing.2, ← entryEq, empty]
      rfl
    · apply recorded.kept other entry
      simpa [addThread, ThreadManager.setThread, equal] using isFound
  · intro other entry isFound
    by_cases equal : other = thread.id
    · subst equal
      have entryEq : thread = entry := by
        simpa [addThread, ThreadManager.setThread] using isFound
      rw [← entryEq, isReady]
      intro isBlocked
      cases isBlocked
    · apply recorded.waits other entry
      simpa [addThread, ThreadManager.setThread, equal] using isFound
  · intro other isUnused
    have different : other ≠ thread.id := by
      rintro rfl
      rcases isUnused with beyond | isBoxed
      · have beyond : manager.nextId ≤ thread.id := beyond
        omega
      · obtain ⟨again, isKept, idEq⟩ := mem_map.mp isBoxed
        exact (remaining again isKept).2 idEq
    have older : manager.nextId ≤ other ∨ other ∈ boxed.map Thread.id := by
      refine isUnused.imp id fun isBoxed => ?_
      obtain ⟨again, isKept, idEq⟩ := mem_map.mp isBoxed
      exact idEq ▸ mem_map_of_mem (remaining again isKept).1
    obtain ⟨missing, nothingElse⟩ := recorded.unused other older
    refine ⟨?_, nothingElse⟩
    simpa [addThread, ThreadManager.setThread, different] using missing
  · exact fun other isKept => recorded.fresh other (remaining other isKept).1
  · exact recorded.distinct.sublist (filter_sublist.map Thread.id)

end

end Record

structure System.Sound (system : System Data) : Prop where
  consistent : Consistent system.kernel.manager system.kernel.running
  recorded : Recorded system.kernel.manager system.boxed system.receiving system.delivered
    system.received

theorem System.sound_boot : (System.boot : System Data).Sound := by
  refine ⟨⟨?_, by simp [System.boot, new], ?_, ?_⟩, ?_⟩
  · intro threadId thread found
    cases found
  · intro threadId
    simp [System.boot, new, ThreadManager.InState]
  · intro threadId
    simp [System.boot, new, ThreadManager.InState, running]
  · refine ⟨?_, ?_, ?_, ?_, ?_, ?_, ?_⟩ <;> simp [System.boot, new]

/-- The operation does not find a queued thread missing, and keeps the
invariant if it returns. -/
def Advances (outcome : Checked (System Data)) : Prop :=
  outcome ≠ .error threadNotFound ∧ ∀ next, outcome = .ok next → next.Sound

variable {system : System Data}

theorem advances_ok (sound : system.Sound) : Advances (.ok system) := by
  refine ⟨by simp, ?_⟩
  intro next outcome
  exact Except.ok.inj outcome ▸ sound

theorem advances_of_settles {mail : ThreadManager Data} {outcome : Checked (Kernel Data)}
    {boxed : List (Thread Data)} {receiving : Nat → Bool}
    {delivered received : Nat → List (Message Data)} (settles : Kernel.Settles mail outcome)
    (recorded : Recorded mail boxed receiving delivered received) :
    Advances (do
      let kernel ← outcome
      .ok ⟨kernel, boxed, receiving, delivered, received⟩) := by
  obtain ⟨found, reaches⟩ := settles
  cases outcome with
  | error fault =>
    refine ⟨fun isFault => found (congrArg Except.error (Except.error.inj isFault)), ?_⟩
    intro next impossible
    cases impossible
  | ok kernel =>
    obtain ⟨consistent, same, -⟩ := reaches kernel rfl
    exact advances_ok ⟨consistent, recorded.mail same⟩

namespace System.Sound

variable {system : System Data} {threadId : Nat}

theorem current (sound : system.Sound) (isCurrent : system.kernel.current = .thread threadId) :
    Consistent system.kernel.manager (some threadId) ∧
      ∃ thread, system.kernel.manager.threadTable threadId = some thread ∧
        thread.state = .running := by
  have consistent := sound.consistent
  have isRunner : system.kernel.running = some threadId := by
    unfold running
    rw [isCurrent]
  rw [isRunner] at consistent
  exact ⟨consistent, (consistent.runs threadId).mpr rfl⟩

theorem settles_schedule (sound : system.Sound) (noRunner : system.kernel.running = none) :
    Kernel.Settles system.kernel.manager system.kernel.schedule :=
  Kernel.settles_schedule (noRunner ▸ sound.consistent) ⟨rfl, fun _ => rfl⟩

theorem advances_receiveMessage (sound : system.Sound)
    (isCurrent : system.kernel.current = .thread threadId) :
    Advances (system.perform .receiveMessage) := by
  obtain ⟨consistent, thread, found, isRunning⟩ := sound.current isCurrent
  have kept := sound.recorded.kept threadId thread found
  dsimp only [System.perform]
  unfold receiveMessage
  rw [currentId_of_thread isCurrent, ok_bind, ok_bind]
  obtain ⟨id, state, inbox⟩ := thread
  simp only [getThread, found]
  cases inbox with
  | cons message rest =>
    apply advances_ok
    refine ⟨?_, ?_⟩
    · exact sound.consistent.setSame ⟨_, found, rfl⟩
    · refine sound.recorded.setThread found ?_ ?_ ?_
      · simpa using kept
      · intro isBlocked
        rw [isRunning] at isBlocked
        cases isBlocked
      · exact fun other different => ⟨update_of_ne different _ _, rfl,
          update_of_ne different _ _⟩
  | nil =>
    have settles := settles_blockImpl isCurrent consistent found
    have recorded : Recorded
        (system.kernel.manager.setThread threadId ⟨id, .blocked, []⟩) system.boxed
        (update system.receiving threadId true) system.delivered system.received :=
      sound.recorded.setThread found kept (fun _ _ => rfl)
        (fun other different => ⟨update_of_ne different _ _, rfl, rfl⟩)
    simpa [bind_assoc] using advances_of_settles settles recorded

/-- Every operation, called where the kernel calls it, keeps the invariant. -/
theorem advances {operation : Operation Data} (sound : system.Sound)
    (called : system.Calls operation) : Advances (system.perform operation) := by
  cases operation with
  | setIdleThread => exact advances_ok ⟨sound.consistent, sound.recorded⟩
  | newThread =>
    apply advances_ok
    refine ⟨?_, sound.recorded.newThread called⟩
    obtain ⟨keys, nodup, queued, runs⟩ := sound.consistent
    refine ⟨?_, nodup, queued, runs⟩
    intro threadId thread found
    obtain ⟨nonzero, bound⟩ := keys threadId thread found
    exact ⟨nonzero, (Nat.lt_succ_of_lt bound).trans_eq (Nat.mod_eq_of_lt called).symm⟩
  | add thread =>
    apply advances_ok
    obtain ⟨nonzero, bound, isReady, -⟩ := sound.recorded.fresh thread called
    have missing := (sound.recorded.unused thread.id
      (Or.inr (mem_map_of_mem called))).1
    exact ⟨sound.consistent.add ⟨nonzero, bound⟩ isReady missing,
      (sound.recorded.add called).queue _⟩
  | startScheduler =>
    have atBoot : system.kernel.current = .null := called
    exact advances_of_settles (sound.settles_schedule (by simp [running, atBoot]))
      sound.recorded
  | scheduleIfReady =>
    have atIdle : system.kernel.current = .idle := called
    dsimp only [System.perform]
    unfold scheduleIfReady
    split
    · exact advances_ok sound
    · exact advances_of_settles (sound.settles_schedule (by simp [running, atIdle]))
        sound.recorded
  | yieldNow =>
    obtain ⟨threadId, isCurrent, -⟩ := called
    obtain ⟨consistent, thread, found, isRunning⟩ := sound.current isCurrent
    exact advances_of_settles
      (settles_yieldImpl isCurrent consistent found isRunning) sound.recorded
  | blockNow =>
    obtain ⟨threadId, isCurrent, notReceiving⟩ := called
    obtain ⟨consistent, thread, found, -⟩ := sound.current isCurrent
    refine advances_of_settles (settles_blockImpl isCurrent consistent found) ?_
    refine sound.recorded.setThread found (sound.recorded.kept threadId thread found) ?_
      (fun _ _ => ⟨rfl, rfl, rfl⟩)
    intro _ isReceiving
    rw [notReceiving] at isReceiving
    cases isReceiving
  | exit =>
    obtain ⟨threadId, isCurrent, -⟩ := called
    obtain ⟨consistent, -⟩ := sound.current isCurrent
    exact advances_of_settles (settles_exit isCurrent consistent)
      (sound.recorded.remove threadId)
  | wakeThread targetId =>
    apply advances_ok
    unfold wakeThread
    cases found : system.kernel.manager.getThread targetId with
    | none => exact sound
    | some target =>
      exact ⟨sound.consistent.wake enqueues_enqueueReady ⟨target, found, rfl⟩,
        sound.recorded.wake enqueues_enqueueReady found
          (sound.recorded.kept targetId target found) (fun _ _ => rfl)⟩
  | sendMessage targetId message =>
    exact advances_ok ⟨sound.consistent.deliver enqueues_enqueueReady targetId message,
      sound.recorded.deliver enqueues_enqueueReady targetId message⟩
  | sendMessageUrgent targetId message =>
    obtain ⟨threadId, isCurrent, -⟩ := called
    obtain ⟨consistent, -⟩ := sound.current isCurrent
    exact advances_of_settles
      (settles_sendMessageUrgentImpl isCurrent consistent targetId message)
      (sound.recorded.deliver enqueues_enqueueReadyFront targetId message)
  | receiveMessage =>
    obtain ⟨threadId, isCurrent⟩ := called
    exact sound.advances_receiveMessage isCurrent

end System.Sound

theorem Reachable.sound (reached : Reachable system) : system.Sound := by
  induction reached with
  | boot => exact System.sound_boot
  | step _ operation called performed ih => exact (ih.advances called).2 _ performed

/-- In every state of a run the ready queue lists exactly the ready threads,
once each; at most one thread of the table runs, it is the current one and not
queued; and no operation finds a queued thread missing from the table. -/
theorem scheduler_consistent {system : System Data} (reached : Reachable system) :
    system.kernel.manager.readyQueue.Nodup ∧
    (∀ threadId, threadId ∈ system.kernel.manager.readyQueue ↔
      system.kernel.manager.InState .ready threadId) ∧
    (∀ threadId, system.kernel.manager.InState .blocked threadId →
      threadId ∉ system.kernel.manager.readyQueue) ∧
    (∀ threadId, system.kernel.manager.InState .running threadId →
      system.kernel.current = .thread threadId ∧
        threadId ∉ system.kernel.manager.readyQueue) ∧
    (∀ first second, system.kernel.manager.InState .running first →
      system.kernel.manager.InState .running second → first = second) ∧
    ∀ operation, system.Calls operation →
      system.perform operation ≠ .error threadNotFound := by
  have sound := reached.sound
  have consistent := sound.consistent
  refine ⟨consistent.nodup, consistent.queued, ?_, ?_, ?_, ?_⟩
  · exact fun threadId isBlocked => consistent.not_queued isBlocked (by decide)
  · intro threadId isRunning
    refine ⟨?_, consistent.not_queued isRunning (by decide)⟩
    have runner := (consistent.runs threadId).mp isRunning
    unfold running at runner
    split at runner
    · rename_i currentEq
      rw [currentEq, Option.some.inj runner]
    · cases runner
  · intro first second firstRuns secondRuns
    have firstRunner := (consistent.runs first).mp firstRuns
    have secondRunner := (consistent.runs second).mp secondRuns
    rw [firstRunner] at secondRunner
    exact Option.some.inj secondRunner
  · exact fun operation called => (sound.advances called).1

/-- Two threads are created, added and started; the first one blocks in
`receive_message`, so that the second one runs.  That one sends two messages and waits
for an answer, so that the first one receives the first of them. -/
theorem secondRuns_reachable :
    (∃ system : System Nat, Reachable system ∧ system.kernel.current = .thread 2) ∧
    ∃ system : System Nat, Reachable system ∧ system.delivered 1 = [⟨2, 7⟩, ⟨2, 8⟩] ∧
      system.received 1 = [⟨2, 7⟩] ∧
      system.kernel.manager.threadTable 1 = some ⟨1, .running, [⟨2, 8⟩]⟩ ∧
      system.receiving 2 = true ∧
      system.kernel.manager.threadTable 2 = some ⟨2, .blocked, []⟩ := by
  have booted : Reachable (System.boot : System Nat) := Reachable.boot
  have created := booted.step .setIdleThread rfl rfl
    |>.step .newThread (by decide : 1 + 1 < 2 ^ 64) rfl
    |>.step (.add ⟨1, .ready, []⟩) (mem_singleton.mpr rfl) rfl
    |>.step .newThread (by decide : 2 + 1 < 2 ^ 64) rfl
    |>.step (.add ⟨2, .ready, []⟩) (mem_singleton.mpr rfl) rfl
  have second := (created.step .startScheduler rfl rfl).step .receiveMessage ⟨1, rfl⟩ rfl
  have first := second.step (.sendMessage 1 ⟨2, 7⟩) trivial rfl
    |>.step (.sendMessage 1 ⟨2, 8⟩) trivial rfl
    |>.step .receiveMessage ⟨2, rfl⟩ rfl
  exact ⟨⟨_, second, rfl⟩, _, first.step .receiveMessage ⟨1, rfl⟩ rfl, rfl, rfl, rfl, rfl, rfl⟩

theorem secondRuns_consistent : ∃ system : System Nat, Reachable system ∧
    system.kernel.current = .thread 2 ∧ system.Calls .receiveMessage ∧
    system.perform .receiveMessage ≠ .error threadNotFound := by
  obtain ⟨⟨system, reached, isCurrent⟩, -⟩ := secondRuns_reachable
  exact ⟨system, reached, isCurrent, ⟨2, isCurrent⟩,
    (scheduler_consistent reached).2.2.2.2.2 .receiveMessage ⟨2, isCurrent⟩⟩

/-- In every state of a run each thread has received a prefix of what was
delivered to it, the rest being its inbox, and a thread blocked in
`receive_message` has an empty inbox. -/
theorem messages_in_order {system : System Data} (reached : Reachable system) :
    (∀ threadId, system.received threadId <+: system.delivered threadId) ∧
    (∀ threadId thread, system.kernel.manager.threadTable threadId = some thread →
      system.delivered threadId = system.received threadId ++ thread.inbox) ∧
    ∀ threadId thread, system.kernel.manager.threadTable threadId = some thread →
      thread.state = .blocked → system.receiving threadId = true → thread.inbox = [] := by
  have recorded := reached.sound.recorded
  exact ⟨recorded.ordered, recorded.kept, recorded.waits⟩

theorem firstReceives_in_order : ∃ system : System Nat, Reachable system ∧
    system.delivered 1 = [⟨2, 7⟩, ⟨2, 8⟩] ∧ system.received 1 <+: system.delivered 1 ∧
    system.received 1 = [⟨2, 7⟩] ∧
    (∃ thread, system.kernel.manager.threadTable 1 = some thread ∧ thread.inbox = [⟨2, 8⟩] ∧
      system.delivered 1 = system.received 1 ++ thread.inbox) ∧
    ∃ thread, system.kernel.manager.threadTable 2 = some thread ∧ thread.state = .blocked ∧
      system.receiving 2 = true ∧ thread.inbox = [] := by
  obtain ⟨-, system, reached, delivered, received, first, isReceiving, second⟩ :=
    secondRuns_reachable
  obtain ⟨ordered, kept, waits⟩ := messages_in_order reached
  exact ⟨system, reached, delivered, ordered 1, received, ⟨_, first, rfl, kept 1 _ first⟩,
    _, second, rfl, isReceiving, waits 2 _ second rfl isReceiving⟩

end NanoOs.Threads
