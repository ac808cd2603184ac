import NanoOs.Thread

/-!
# Consistency of the ready queue

`Consistent` relates the thread table, the ready queue and the thread that
runs.  Every scheduler operation is a short sequence of edits of the manager:
waking a thread, retiring the running one, and picking the next.
-/

namespace NanoOs.Threads

open Function ThreadManager

def Kernel.running {Data : Type} (kernel : Kernel Data) : Option Nat :=
  match kernel.current with
  | .thread threadId => some threadId
  | _ => none

/-- What the choice of the running thread does not affect: the inbox of a
thread and whether it is blocked. -/
def Thread.standing {Data : Type} (thread : Thread Data) : List (Message Data) × Bool :=
  (thread.inbox, decide (thread.state = .blocked))

variable {Data : Type} {manager : ThreadManager Data} {runner : Option Nat} {threadId : Nat}
  {thread : Thread Data}

def ThreadManager.InState (manager : ThreadManager Data) (state : ThreadState) (threadId : Nat) :
    Prop :=
  ∃ thread, manager.threadTable threadId = some thread ∧ thread.state = state

/-- The queue lists exactly the ready threads, once each, and the running
thread is the given one. -/
structure Consistent (manager : ThreadManager Data) (runner : Option Nat) : Prop where
  keys : ∀ threadId thread, manager.threadTable threadId = some thread →
    threadId ≠ 0 ∧ threadId < manager.nextId
  nodup : manager.readyQueue.Nodup
  queued : ∀ threadId, threadId ∈ manager.readyQueue ↔ manager.InState .ready threadId
  runs : ∀ threadId, manager.InState .running threadId ↔ runner = some threadId

variable {other : Nat} {state : ThreadState}

theorem ThreadManager.inState_setThread :
    (manager.setThread threadId thread).InState state other ↔
      (other = threadId ∧ thread.state = state) ∨
        (other ≠ threadId ∧ manager.InState state other) := by
  unfold ThreadManager.InState setThread
  by_cases equal : other = threadId
  · simp [equal]
  · simp [equal]

theorem ThreadManager.inState_unique {first second : ThreadState}
    (one : manager.InState first threadId) (other : manager.InState second threadId) :
    first = second := by
  obtain ⟨thread, found, rfl⟩ := one
  obtain ⟨again, foundAgain, rfl⟩ := other
  rw [found] at foundAgain
  rw [Option.some.inj foundAgain]

theorem Consistent.setSame (consistent : Consistent manager runner)
    (present : manager.InState thread.state threadId) :
    Consistent (manager.setThread threadId thread) runner := by
  have same : ∀ state other, (manager.setThread threadId thread).InState state other ↔
      manager.InState state other := by
    intro state other
    rw [inState_setThread]
    by_cases equal : other = threadId
    · subst equal
      constructor
      · rintro (⟨-, rfl⟩ | ⟨different, -⟩)
        · exact present
        · exact absurd rfl different
      · intro inState
        exact Or.inl ⟨rfl, inState_unique present inState⟩
    · simp [equal]
  refine ⟨?_, consistent.nodup, ?_, ?_⟩
  · intro other found isFound
    by_cases equal : other = threadId
    · subst equal
      obtain ⟨old, oldFound, -⟩ := present
      exact consistent.keys other old oldFound
    · apply consistent.keys other found
      simpa [setThread, equal] using isFound
  · intro other
    rw [same]
    exact consistent.queued other
  · intro other
    rw [same]
    exact consistent.runs other

/-- A ready thread that is queued: the shape shared by waking, adding and
yielding. -/
theorem Consistent.setReady {queue : List Nat} {left : Option Nat}
    (consistent : Consistent manager runner)
    (key : threadId ≠ 0 ∧ threadId < manager.nextId) (isReady : thread.state = .ready)
    (unqueued : threadId ∉ manager.readyQueue)
    (queue_iff : ∀ other, other ∈ queue ↔ other = threadId ∨ other ∈ manager.readyQueue)
    (queueNodup : queue.Nodup)
    (retired : ∀ other, left = some other ↔ other ≠ threadId ∧ runner = some other) :
    Consistent
      { manager.setThread threadId thread with readyQueue := queue } left := by
  refine ⟨?_, queueNodup, ?_, ?_⟩
  · intro other found isFound
    by_cases equal : other = threadId
    · subst equal
      exact key
    · apply consistent.keys other found
      simpa [setThread, equal] using isFound
  · intro other
    rw [queue_iff, consistent.queued]
    change _ ↔ (manager.setThread threadId thread).InState .ready other
    rw [inState_setThread]
    by_cases equal : other = threadId
    · simp [equal, isReady]
    · simp [equal]
  · intro other
    change (manager.setThread threadId thread).InState .running other ↔ _
    rw [inState_setThread, retired, consistent.runs]
    by_cases equal : other = threadId
    · simp [equal, isReady]
    · simp [equal]

def Enqueues (enqueue : ThreadManager Data → Nat → ThreadManager Data) : Prop :=
  ∀ manager threadId, ∃ queue, enqueue manager threadId = { manager with readyQueue := queue } ∧
    (∀ other, other ∈ queue ↔ other = threadId ∨ other ∈ manager.readyQueue) ∧
    (manager.readyQueue.Nodup → threadId ∉ manager.readyQueue → queue.Nodup)

theorem enqueues_enqueueReady :
    Enqueues (enqueueReady : ThreadManager Data → Nat → ThreadManager Data) := by
  intro manager threadId
  refine ⟨_, rfl, ?_, ?_⟩
  · intro other
    simp [or_comm]
  · intro nodup fresh
    exact List.nodup_append.mpr ⟨nodup, by simp, by
      rintro first member second isSecond rfl
      exact fresh (List.mem_singleton.mp isSecond ▸ member)⟩

theorem enqueues_enqueueReadyFront :
    Enqueues (enqueueReadyFront : ThreadManager Data → Nat → ThreadManager Data) := by
  intro manager threadId
  refine ⟨_, rfl, ?_, ?_⟩
  · intro other
    simp
  · intro nodup fresh
    exact List.nodup_cons.mpr ⟨fresh, nodup⟩

section

variable (consistent : Consistent manager runner)

include consistent

theorem Consistent.not_queued (inState : manager.InState state threadId)
    (notReady : state ≠ .ready) : threadId ∉ manager.readyQueue := by
  intro member
  exact notReady (inState_unique inState ((consistent.queued threadId).mp member))

variable {enqueue : ThreadManager Data → Nat → ThreadManager Data}

theorem Consistent.wake (enqueues : Enqueues enqueue)
    (present : manager.InState thread.state threadId) :
    Consistent (manager.wake enqueue threadId thread) runner := by
  unfold ThreadManager.wake
  split
  · rename_i isBlocked
    rw [isBlocked] at present
    have unqueued := consistent.not_queued present (by decide)
    obtain ⟨queue, queueEq, queue_iff, queueNodup⟩ :=
      enqueues (manager.setThread threadId { thread with state := .ready }) threadId
    rw [queueEq]
    obtain ⟨old, oldFound, oldState⟩ := present
    refine consistent.setReady (consistent.keys threadId old oldFound) rfl unqueued queue_iff
      (queueNodup consistent.nodup unqueued) ?_
    intro other
    constructor
    · intro isRunning
      refine ⟨?_, isRunning⟩
      rintro rfl
      have runningNow := (consistent.runs other).mpr isRunning
      exact absurd (inState_unique ⟨old, oldFound, oldState⟩ runningNow) (by decide)
    · exact fun both => both.2
  · exact consistent.setSame present

theorem Consistent.add (key : thread.id ≠ 0 ∧ thread.id < manager.nextId)
    (isReady : thread.state = .ready) (missing : manager.threadTable thread.id = none) :
    Consistent ((manager.addThread thread).enqueueReady thread.id) runner := by
  have absent : ∀ state, ¬ manager.InState state thread.id := by
    rintro state ⟨entry, found, -⟩
    rw [missing] at found
    cases found
  have unqueued : thread.id ∉ manager.readyQueue := fun member =>
    absent .ready ((consistent.queued thread.id).mp member)
  obtain ⟨queue, queueEq, queue_iff, queueNodup⟩ :=
    enqueues_enqueueReady (manager.addThread thread) thread.id
  rw [queueEq]
  refine consistent.setReady key isReady unqueued queue_iff
    (queueNodup consistent.nodup unqueued) ?_
  intro other
  constructor
  · intro isRunner
    refine ⟨?_, isRunner⟩
    rintro rfl
    exact absent .running ((consistent.runs thread.id).mpr isRunner)
  · exact fun both => both.2

theorem Consistent.deliver (enqueues : Enqueues enqueue) (targetId : Nat) (message : Message Data) :
    Consistent (manager.deliver enqueue targetId message) runner := by
  unfold ThreadManager.deliver
  split
  · rename_i target found
    exact consistent.wake enqueues ⟨target, found, rfl⟩
  · exact consistent

end

theorem Consistent.retireReady (consistent : Consistent manager (some threadId))
    (found : manager.threadTable threadId = some thread) :
    Consistent ((manager.setThread threadId { thread with state := .ready }).enqueueReady threadId)
      none := by
  have isRunning := (consistent.runs threadId).mpr rfl
  have unqueued := consistent.not_queued isRunning (by decide)
  obtain ⟨queue, queueEq, queue_iff, queueNodup⟩ :=
    enqueues_enqueueReady (manager.setThread threadId { thread with state := .ready }) threadId
  rw [queueEq]
  refine consistent.setReady (consistent.keys threadId thread found) rfl unqueued queue_iff
    (queueNodup consistent.nodup unqueued) ?_
  intro other
  simp only [reduceCtorEq, Option.some.injEq, false_iff, not_and]
  exact fun different equal => different equal.symm

/-- The running thread stops without being queued: its entry is replaced by a
blocked thread or removed. -/
theorem Consistent.retire {table : Nat → Option (Thread Data)}
    (consistent : Consistent manager (some threadId))
    (elsewhere : ∀ other, other ≠ threadId → table other = manager.threadTable other)
    (stopped : ∀ stopped, table threadId = some stopped → stopped.state = .blocked) :
    Consistent { manager with threadTable := table } none := by
  have same : ∀ state other, other ≠ threadId →
      (ThreadManager.InState { manager with threadTable := table } state other ↔
        manager.InState state other) := by
    intro state other different
    unfold ThreadManager.InState
    simp only [elsewhere other different]
  have isRunning := (consistent.runs threadId).mpr rfl
  have notStopped : ∀ state, state ≠ .blocked →
      ¬ ThreadManager.InState { manager with threadTable := table } state threadId := by
    rintro state different ⟨found, isFound, rfl⟩
    exact different (stopped found isFound)
  refine ⟨?_, consistent.nodup, ?_, ?_⟩
  · intro other found isFound
    by_cases equal : other = threadId
    · subst equal
      obtain ⟨old, oldFound, -⟩ := isRunning
      exact consistent.keys other old oldFound
    · exact consistent.keys other found (elsewhere other equal ▸ isFound)
  · intro other
    by_cases equal : other = threadId
    · subst equal
      constructor
      · exact fun member => absurd member (consistent.not_queued isRunning (by decide))
      · exact fun inState => absurd inState (notStopped .ready (by decide))
    · rw [same _ other equal]
      exact consistent.queued other
  · intro other
    simp only [reduceCtorEq, iff_false]
    by_cases equal : other = threadId
    · subst equal
      exact notStopped .running (by decide)
    · rw [same _ other equal, consistent.runs]
      exact fun isSame => equal (Option.some.inj isSame).symm

namespace Kernel

variable {kernel after : Kernel Data}

def SameMail (before after : ThreadManager Data) : Prop :=
  before.nextId = after.nextId ∧ ∀ threadId,
    (after.threadTable threadId).map Thread.standing =
      (before.threadTable threadId).map Thread.standing

theorem sameMail_setThread {old : Thread Data} (found : manager.threadTable threadId = some old)
    (sameStanding : thread.standing = old.standing) :
    SameMail manager (manager.setThread threadId thread) := by
  refine ⟨rfl, ?_⟩
  intro other
  by_cases equal : other = threadId
  · subst equal
    simp [setThread, found, sameStanding]
  · simp [setThread, equal]

/-- With no thread running, the scheduler always finds the thread it dequeues,
and leaves a consistent state. -/
theorem schedule_spec (consistent : Consistent kernel.manager none) :
    kernel.schedule ≠ .error threadNotFound ∧
      ∀ after, kernel.schedule = .ok after →
        Consistent after.manager after.running ∧ SameMail kernel.manager after.manager ∧
          after.current ≠ .null := by
  unfold schedule dequeueReady
  cases queueEq : kernel.manager.readyQueue with
  | nil =>
    simp only [enterIdle]
    cases kernel.idleThread with
    | none =>
      exact ⟨by simp [idleNotInitialized, threadNotFound], fun after outcome => by cases outcome⟩
    | some state =>
      refine ⟨by simp, ?_⟩
      intro after outcome
      cases outcome
      exact ⟨consistent, ⟨rfl, fun _ => rfl⟩, by simp⟩
  | cons nextId rest =>
    have isReady : kernel.manager.InState .ready nextId := by
      rw [← consistent.queued, queueEq]
      simp
    obtain ⟨thread, found, threadReady⟩ := isReady
    have nodup := consistent.nodup
    rw [queueEq] at nodup
    obtain ⟨notAgain, restNodup⟩ := List.nodup_cons.mp nodup
    simp only [getThread, found]
    refine ⟨by simp, ?_⟩
    intro after outcome
    cases outcome
    refine ⟨⟨?_, restNodup, ?_, ?_⟩,
      sameMail_setThread found (by simp [Thread.standing, threadReady]), by simp⟩
    · intro other entry isFound
      by_cases equal : other = nextId
      · subst equal
        exact consistent.keys other thread found
      · apply consistent.keys other entry
        simpa [setThread, equal] using isFound
    · intro other
      rw [inState_setThread]
      change other ∈ rest ↔ _ ∨ (_ ∧ kernel.manager.InState .ready other)
      rw [← consistent.queued, queueEq]
      by_cases equal : other = nextId
      · simp [equal, notAgain]
      · simp [equal]
    · intro other
      rw [inState_setThread]
      change _ ∨ (_ ∧ kernel.manager.InState .running other) ↔ some nextId = some other
      rw [consistent.runs]
      simp [eq_comm]

/-- The call reaches a consistent state, with the mail of the given manager,
unless it stops for want of an idle thread. -/
def Settles (mail : ThreadManager Data) (outcome : Checked (Kernel Data)) : Prop :=
  outcome ≠ .error threadNotFound ∧
    ∀ after, outcome = .ok after →
      Consistent after.manager after.running ∧ SameMail mail after.manager ∧
        after.current ≠ .null

theorem SameMail.trans {first second third : ThreadManager Data} (former : SameMail first second)
    (latter : SameMail second third) : SameMail first third :=
  ⟨former.1.trans latter.1, fun threadId => (latter.2 threadId).trans (former.2 threadId)⟩

theorem settles_schedule {mail : ThreadManager Data} (consistent : Consistent kernel.manager none)
    (same : SameMail mail kernel.manager) : Settles mail kernel.schedule := by
  obtain ⟨found, reaches⟩ := schedule_spec consistent
  refine ⟨found, ?_⟩
  intro after outcome
  obtain ⟨consistentAfter, sameAfter, started⟩ := reaches after outcome
  exact ⟨consistentAfter, same.trans sameAfter, started⟩

section Current

variable (isCurrent : kernel.current = .thread threadId)
  (consistent : Consistent kernel.manager (some threadId))
  (found : kernel.manager.threadTable threadId = some thread)
  (isRunning : thread.state = .running)

include isCurrent

theorem currentId_of_thread : kernel.currentId = .ok threadId := by
  unfold currentId
  rw [isCurrent]

include found

theorem setCurrentState_of_thread (state : ThreadState) :
    kernel.setCurrentState state =
      { kernel with
        manager := kernel.manager.setThread threadId { thread with state := state } } := by
  unfold setCurrentState
  rw [isCurrent]
  simp only [getThread, found]

include consistent

theorem settles_blockImpl :
    Settles (kernel.manager.setThread threadId { thread with state := .blocked })
      kernel.blockImpl := by
  unfold blockImpl
  rw [currentId_of_thread isCurrent, ok_bind, setCurrentState_of_thread isCurrent found]
  refine settles_schedule (consistent.retire ?_ ?_) ⟨rfl, fun _ => rfl⟩
  · intro other different
    exact update_of_ne different _ _
  · intro stopped isStopped
    rw [update_self] at isStopped
    rw [← Option.some.inj isStopped]

omit found in
theorem settles_exit : Settles (kernel.manager.removeThread threadId) kernel.exit := by
  unfold exit
  rw [currentId_of_thread isCurrent, ok_bind]
  refine settles_schedule (consistent.retire ?_ ?_) ⟨rfl, fun _ => rfl⟩
  · intro other different
    exact update_of_ne different _ _
  · intro stopped isStopped
    rw [update_self] at isStopped
    cases isStopped

include found isRunning in
theorem settles_yieldImpl : Settles kernel.manager kernel.yieldImpl := by
  unfold yieldImpl
  rw [currentId_of_thread isCurrent, ok_bind, setCurrentState_of_thread isCurrent found]
  exact settles_schedule (consistent.retireReady found)
    (sameMail_setThread found (by simp [Thread.standing, isRunning]))

end Current

theorem setThread_comm {first second : Thread Data} (different : threadId ≠ other) :
    (manager.setThread threadId first).setThread other second =
      (manager.setThread other second).setThread threadId first := by
  unfold setThread
  simp only [ThreadManager.mk.injEq, and_true]
  exact update_comm different _ _ _

/-- Marking the running thread ready commutes with a delivery, also with one to
the thread itself. -/
private theorem deliver_setReady (found : manager.threadTable threadId = some thread)
    (isRunning : thread.state = .running) (targetId : Nat) (message : Message Data) :
    ∃ entry,
      (manager.deliver enqueueReadyFront targetId message).threadTable threadId =
        some entry ∧
      (manager.setThread threadId { thread with state := .ready }).deliver
          enqueueReadyFront targetId message =
        (manager.deliver enqueueReadyFront targetId message).setThread threadId
          { entry with state := .ready } := by
  unfold ThreadManager.deliver getThread
  by_cases equal : targetId = threadId
  · subst equal
    refine ⟨{ thread with inbox := thread.inbox ++ [message] }, ?_, ?_⟩
    · simp [found, ThreadManager.wake, isRunning, setThread]
    · simp only [found, ThreadManager.wake, isRunning]
      simp [setThread]
  · have unchanged : (manager.setThread threadId { thread with state := .ready }).threadTable
        targetId = manager.threadTable targetId := update_of_ne equal _ _
    rw [unchanged]
    refine ⟨thread, ?_, ?_⟩
    · cases targetFound : manager.threadTable targetId with
      | none => exact found
      | some target =>
        have stays : threadId ≠ targetId := Ne.symm equal
        simp only [ThreadManager.wake, enqueueReadyFront,
          setThread]
        split <;> simp [stays, found]
    · cases targetFound : manager.threadTable targetId with
      | none => rfl
      | some target =>
        simp only [ThreadManager.wake]
        split
        · rw [setThread_comm (Ne.symm equal)]
          rfl
        · rw [setThread_comm (Ne.symm equal)]

/-- An urgent send is a delivery to the front of the queue followed by a
yield. -/
theorem sendMessageUrgentImpl_eq (isCurrent : kernel.current = .thread threadId)
    (found : kernel.manager.threadTable threadId = some thread)
    (isRunning : thread.state = .running) (targetId : Nat) (message : Message Data) :
    kernel.sendMessageUrgentImpl targetId message =
      yieldImpl
        { kernel with
          manager :=
            kernel.manager.deliver enqueueReadyFront targetId message } := by
  obtain ⟨entry, entryFound, commutes⟩ :=
    deliver_setReady found isRunning targetId message
  have stillCurrent : Kernel.current
      { kernel with
        manager := kernel.manager.deliver enqueueReadyFront targetId message } =
      .thread threadId := isCurrent
  unfold sendMessageUrgentImpl yieldImpl
  rw [currentId_of_thread isCurrent, ok_bind, setCurrentState_of_thread isCurrent found,
    currentId_of_thread stillCurrent, ok_bind, setCurrentState_of_thread stillCurrent entryFound]
  simp only [commutes]

theorem settles_sendMessageUrgentImpl (isCurrent : kernel.current = .thread threadId)
    (consistent : Consistent kernel.manager (some threadId)) (targetId : Nat)
    (message : Message Data) :
    Settles (kernel.manager.deliver enqueueReadyFront targetId message)
      (kernel.sendMessageUrgentImpl targetId message) := by
  have delivered := consistent.deliver enqueues_enqueueReadyFront targetId message
  obtain ⟨thread, found, isRunning⟩ := (consistent.runs threadId).mpr rfl
  obtain ⟨entry, entryFound, entryRunning⟩ := (delivered.runs threadId).mpr rfl
  rw [sendMessageUrgentImpl_eq isCurrent found isRunning]
  exact settles_yieldImpl isCurrent delivered entryFound entryRunning

end Kernel

end NanoOs.Threads
