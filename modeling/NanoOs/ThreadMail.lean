import NanoOs.ThreadRuns

/-!
# The mail of one thread

What an operation does to the table and to the record of a run, as seen by the
threads it does not concern: a thread stays in the table until it exits, its
record grows only by messages sent to it, and `receive_message` takes the first
of them.
-/

namespace NanoOs.Threads

open Function ThreadManager Kernel

variable {Data : Type}

/-- The message an operation sends and the thread it sends it to. -/
def Operation.sends : Operation Data → Option (Nat × Message Data)
  | .sendMessage targetId message | .sendMessageUrgent targetId message =>
      some (targetId, message)
  | _ => none

def ThreadManager.Lives (manager : ThreadManager Data) (threadId : Nat) : Prop :=
  (manager.threadTable threadId).isSome = true

variable {message : Message Data} {targetId : Nat}

section Table

variable {manager after : ThreadManager Data} {threadId : Nat}
  {enqueue : ThreadManager Data → Nat → ThreadManager Data}

section

variable (lives : manager.Lives threadId)

include lives

theorem ThreadManager.Lives.setThread (other : Nat) (thread : Thread Data) :
    (manager.setThread other thread).Lives threadId := by
  by_cases equal : threadId = other
  · simp [ThreadManager.Lives, ThreadManager.setThread, equal]
  · have same : (manager.setThread other thread).threadTable threadId =
        manager.threadTable threadId := update_of_ne equal _ _
    unfold ThreadManager.Lives
    rw [same]
    exact lives

theorem ThreadManager.Lives.wake (enqueues : Enqueues enqueue) (other : Nat)
    (thread : Thread Data) : (manager.wake enqueue other thread).Lives threadId := by
  unfold ThreadManager.wake
  split
  · obtain ⟨queue, queueEq, -⟩ :=
      enqueues (manager.setThread other { thread with state := .ready }) other
    rw [queueEq]
    exact lives.setThread other _
  · exact lives.setThread other _

theorem ThreadManager.Lives.deliver (enqueues : Enqueues enqueue) (targetId : Nat)
    (message : Message Data) : (manager.deliver enqueue targetId message).Lives threadId := by
  unfold ThreadManager.deliver
  split
  · exact lives.wake enqueues targetId _
  · exact lives

theorem ThreadManager.Lives.mail (same : Kernel.SameMail manager after) : after.Lives threadId := by
  have standing := congrArg Option.isSome (same.2 threadId)
  simp only [Option.isSome_map] at standing
  unfold ThreadManager.Lives at lives ⊢
  rw [← lives]
  exact standing

end

theorem ThreadManager.InState.wake_blocked (enqueues : Enqueues enqueue) {other : Nat}
    {thread : Thread Data}
    (blocked : (manager.wake enqueue other thread).InState .blocked threadId) :
    threadId ≠ other ∧ manager.InState .blocked threadId := by
  unfold ThreadManager.wake at blocked
  split at blocked
  · obtain ⟨queue, queueEq, -⟩ :=
      enqueues (manager.setThread other { thread with state := .ready }) other
    rw [queueEq] at blocked
    rcases inState_setThread.mp blocked with ⟨-, isReady⟩ | kept
    · cases isReady
    · exact kept
  · next awake =>
      rcases inState_setThread.mp blocked with ⟨-, isBlocked⟩ | kept
      · exact absurd isBlocked awake
      · exact kept

theorem ThreadManager.InState.deliver_blocked (enqueues : Enqueues enqueue)
    (blocked : (manager.deliver enqueue targetId message).InState .blocked threadId) :
    manager.InState .blocked threadId := by
  unfold ThreadManager.deliver at blocked
  split at blocked
  · exact (blocked.wake_blocked enqueues).2
  · exact blocked

theorem ThreadManager.InState.mail_blocked (blocked : after.InState .blocked threadId)
    (same : Kernel.SameMail manager after) : manager.InState .blocked threadId := by
  obtain ⟨thread, found, isBlocked⟩ := blocked
  have standing := same.2 threadId
  rw [found, Option.map_some] at standing
  obtain ⟨before, foundBefore, sameStanding⟩ := Option.map_eq_some_iff.mp standing.symm
  refine ⟨before, foundBefore, ?_⟩
  have sameBlocked := congrArg Prod.snd sameStanding
  simpa [Thread.standing, isBlocked] using sameBlocked

end Table

inductive Mailed (system : System Data) : Operation Data → ThreadManager Data → Prop
  | same {operation : Operation Data} : Mailed system operation system.kernel.manager
  | newThread : Mailed system .newThread
      { system.kernel.manager with nextId := (system.kernel.manager.nextId + 1) % 2 ^ 64 }
  | add {thread : Thread Data} (boxed : thread ∈ system.boxed) :
      Mailed system (.add thread) (system.kernel.manager.setThread thread.id thread)
  | block {operation : Operation Data} {runner : Nat} {thread : Thread Data}
      (isBlocking : operation = .blockNow ∨ operation = .receiveMessage)
      (isCurrent : system.kernel.current = .thread runner)
      (found : system.kernel.manager.threadTable runner = some thread) :
      Mailed system operation
        (system.kernel.manager.setThread runner { thread with state := .blocked })
  | receive {runner : Nat} {thread : Thread Data} {rest : List (Message Data)}
      (isCurrent : system.kernel.current = .thread runner) (isRunning : thread.state = .running) :
      Mailed system .receiveMessage
        (system.kernel.manager.setThread runner { thread with inbox := rest })
  | exit {runner : Nat} (isCurrent : system.kernel.current = .thread runner) :
      Mailed system .exit (system.kernel.manager.removeThread runner)
  | wake {targetId : Nat} {target : Thread Data} :
      Mailed system (.wakeThread targetId)
        (system.kernel.manager.wake ThreadManager.enqueueReady targetId target)
  | send {targetId : Nat} {message : Message Data} :
      Mailed system (.sendMessage targetId message)
        (system.kernel.manager.deliver ThreadManager.enqueueReady targetId message)
  | sendUrgent {targetId : Nat} {message : Message Data} :
      Mailed system (.sendMessageUrgent targetId message)
        (system.kernel.manager.deliver ThreadManager.enqueueReadyFront targetId message)

namespace System

variable {system next : System Data} {operation : Operation Data} {threadId : Nat}
  {outcome : Checked (Kernel Data)} {runner : Nat}

theorem sameMail_of_settles {mail : ThreadManager Data} {rebuild : Kernel Data → System Data}
    (settles : Kernel.Settles mail outcome)
    (sameKernel : ∀ kernel, (rebuild kernel).kernel = kernel)
    (performed : (do let kernel ← outcome; .ok (rebuild kernel) : Checked (System Data)) =
      .ok next) : Kernel.SameMail mail next.kernel.manager := by
  cases outcome with
  | error fault => cases performed
  | ok kernel =>
    have nextEq : rebuild kernel = next := Except.ok.inj performed
    rw [← nextEq, sameKernel]
    exact (settles.2 kernel rfl).2.1

/-- `receive_message` takes the first message not yet received, or blocks if
there is none. -/
theorem Sound.receives (sound : system.Sound) (isCurrent : system.kernel.current = .thread runner)
    (performed : system.perform .receiveMessage = .ok next) :
    next.delivered = system.delivered ∧
    ((∃ message rest kernel, system.kernel.receiveMessage = .ok (some message, kernel) ∧
        system.delivered runner = system.received runner ++ message :: rest ∧
        next.received = update system.received runner
          (system.received runner ++ [message])) ∨
      (∃ kernel, system.kernel.receiveMessage = .ok (none, kernel) ∧
        system.delivered runner = system.received runner ∧ next.received = system.received)) ∧
    ∀ threadId, system.kernel.manager.Lives threadId → next.kernel.manager.Lives threadId := by
  obtain ⟨consistent, ⟨id, state, inbox⟩, found, -⟩ := sound.current isCurrent
  have kept := sound.recorded.kept runner _ found
  dsimp only [perform] at performed
  unfold receiveMessage at performed ⊢
  rw [currentId_of_thread isCurrent, ok_bind, ok_bind] at performed
  rw [currentId_of_thread isCurrent, ok_bind]
  simp only [getThread, found] at performed ⊢
  cases inbox with
  | cons message rest =>
    cases performed
    refine ⟨rfl, Or.inl ⟨message, rest, _, rfl, kept, rfl⟩, ?_⟩
    exact fun threadId lives => lives.setThread runner _
  | nil =>
    have settles := settles_blockImpl isCurrent consistent found
    cases blocked : system.kernel.blockImpl with
    | error fault =>
      simp only [blocked] at performed
      cases performed
    | ok kernel =>
      simp only [blocked] at performed
      cases performed
      refine ⟨rfl, Or.inr ⟨kernel, rfl, by simpa using kept, rfl⟩, ?_⟩
      exact fun threadId lives =>
        (lives.setThread runner _).mail (settles.2 kernel blocked).2.1

variable {boxed : List (Thread Data)} {delivered received : Nat → List (Message Data)}
  {receiving : Nat → Bool}

theorem record_of_bind
    (performed : (do
      let kernel ← outcome
      .ok ⟨kernel, boxed, receiving, delivered, received⟩ : Checked (System Data)) = .ok next) :
    next.receiving = receiving ∧ next.delivered = delivered ∧ next.received = received := by
  cases outcome with
  | error fault => cases performed
  | ok kernel =>
    cases performed
    exact ⟨rfl, rfl, rfl⟩

/-- Only sending adds to the record of deliveries, and only receiving to that
of receptions. -/
theorem record_perform (performed : system.perform operation = .ok next)
    (different : operation ≠ .receiveMessage) :
    next.delivered =
      (match operation.sends with
      | some (targetId, message) =>
        noteDelivery system.kernel.manager system.delivered targetId message
      | none => system.delivered) ∧
    next.received = system.received := by
  cases operation with
  | receiveMessage => exact absurd rfl different
  | setIdleThread | newThread | add _ | wakeThread _ | sendMessage _ _ =>
    cases performed
    exact ⟨rfl, rfl⟩
  | startScheduler | scheduleIfReady | yieldNow | blockNow | exit | sendMessageUrgent _ _ =>
    exact (record_of_bind performed).2

theorem delivered_of_unsent (performed : system.perform operation = .ok next)
    (different : operation ≠ .receiveMessage)
    (unsent : ∀ message, operation.sends ≠ some (threadId, message)) :
    next.delivered threadId = system.delivered threadId := by
  rw [(record_perform performed different).1]
  cases sends : operation.sends with
  | none => rfl
  | some sent =>
    obtain ⟨targetId, message⟩ := sent
    have elsewhere : threadId ≠ targetId := by
      rintro rfl
      exact unsent message sends
    simp only [noteDelivery]
    cases system.kernel.manager.getThread targetId with
    | none => rfl
    | some target => exact update_of_ne elsewhere _ _

theorem Sound.receive_mailed (sound : system.Sound)
    (isCurrent : system.kernel.current = .thread runner)
    (performed : system.perform .receiveMessage = .ok next) :
    ∃ mail, Mailed system .receiveMessage mail ∧ Kernel.SameMail mail next.kernel.manager := by
  obtain ⟨consistent, ⟨id, state, inbox⟩, found, isRunning⟩ := sound.current isCurrent
  dsimp only [perform] at performed
  unfold receiveMessage at performed
  rw [currentId_of_thread isCurrent, ok_bind, ok_bind] at performed
  simp only [getThread, found] at performed
  cases inbox with
  | cons message rest =>
    cases performed
    exact ⟨_, .receive isCurrent isRunning, rfl, fun _ => rfl⟩
  | nil =>
    have settles := settles_blockImpl isCurrent consistent found
    refine ⟨_, .block (.inr rfl) isCurrent found, ?_⟩
    cases blocked : system.kernel.blockImpl with
    | error fault =>
      simp only [blocked] at performed
      cases performed
    | ok kernel =>
      simp only [blocked] at performed
      cases performed
      exact (settles.2 kernel blocked).2.1

section

variable (sound : system.Sound) (called : system.Calls operation)
  (performed : system.perform operation = .ok next)

include sound called performed

/-- What an operation does to the table, apart from the choice of the running
thread. -/
theorem Sound.mailed :
    ∃ mail, Mailed system operation mail ∧ Kernel.SameMail mail next.kernel.manager := by
  cases operation with
  | setIdleThread =>
    cases performed
    exact ⟨_, .same, rfl, fun _ => rfl⟩
  | newThread =>
    cases performed
    exact ⟨_, .newThread, rfl, fun _ => rfl⟩
  | add thread =>
    cases performed
    exact ⟨_, .add called, rfl, fun _ => rfl⟩
  | startScheduler =>
    have atBoot : system.kernel.current = .null := called
    exact ⟨_, .same, sameMail_of_settles
      (sound.settles_schedule (by simp [running, atBoot])) (fun _ => rfl) performed⟩
  | scheduleIfReady =>
    have atIdle : system.kernel.current = .idle := called
    dsimp only [perform] at performed
    unfold scheduleIfReady at performed
    split at performed
    · cases performed
      exact ⟨_, .same, rfl, fun _ => rfl⟩
    · exact ⟨_, .same, sameMail_of_settles
        (sound.settles_schedule (by simp [running, atIdle])) (fun _ => rfl) performed⟩
  | yieldNow =>
    obtain ⟨runner, isCurrent, -⟩ := called
    obtain ⟨consistent, thread, found, isRunning⟩ := sound.current isCurrent
    exact ⟨_, .same, sameMail_of_settles
      (settles_yieldImpl isCurrent consistent found isRunning) (fun _ => rfl) performed⟩
  | blockNow =>
    obtain ⟨runner, isCurrent, -⟩ := called
    obtain ⟨consistent, thread, found, -⟩ := sound.current isCurrent
    exact ⟨_, .block (.inl rfl) isCurrent found, sameMail_of_settles
      (settles_blockImpl isCurrent consistent found) (fun _ => rfl) performed⟩
  | exit =>
    obtain ⟨runner, isCurrent, -⟩ := called
    obtain ⟨consistent, -⟩ := sound.current isCurrent
    exact ⟨_, .exit isCurrent, sameMail_of_settles (settles_exit isCurrent consistent)
      (fun _ => rfl) performed⟩
  | wakeThread targetId =>
    cases performed
    unfold wakeThread
    split
    · exact ⟨_, .wake, rfl, fun _ => rfl⟩
    · exact ⟨_, .same, rfl, fun _ => rfl⟩
  | sendMessage targetId message =>
    cases performed
    exact ⟨_, .send, rfl, fun _ => rfl⟩
  | sendMessageUrgent targetId message =>
    obtain ⟨runner, isCurrent, -⟩ := called
    obtain ⟨consistent, -⟩ := sound.current isCurrent
    exact ⟨_, .sendUrgent, sameMail_of_settles
      (settles_sendMessageUrgentImpl isCurrent consistent targetId message)
      (fun _ => rfl) performed⟩
  | receiveMessage =>
    obtain ⟨runner, isCurrent⟩ := called
    exact sound.receive_mailed isCurrent performed

theorem Sound.lives (stays : operation = .exit → system.kernel.current ≠ .thread threadId)
    (lives : system.kernel.manager.Lives threadId) : next.kernel.manager.Lives threadId := by
  obtain ⟨mail, mailed, same⟩ := sound.mailed called performed
  refine ThreadManager.Lives.mail ?_ same
  cases mailed with
  | same => exact lives
  | newThread => exact lives
  | add boxed => exact lives.setThread _ _
  | block isBlocking isCurrent found => exact lives.setThread _ _
  | receive isCurrent isRunning => exact lives.setThread _ _
  | @exit runner isCurrent =>
    have different : threadId ≠ runner := by
      rintro rfl
      exact stays rfl isCurrent
    have kept : (system.kernel.manager.removeThread runner).threadTable threadId =
        system.kernel.manager.threadTable threadId := update_of_ne different _ _
    unfold ThreadManager.Lives
    rw [kept]
    exact lives
  | wake => exact lives.wake enqueues_enqueueReady _ _
  | send => exact lives.deliver enqueues_enqueueReady _ _
  | sendUrgent => exact lives.deliver enqueues_enqueueReadyFront _ _

theorem Sound.blocked_before
    (elsewhere : operation = .blockNow ∨ operation = .receiveMessage →
      system.kernel.current ≠ .thread threadId)
    (blocked : next.kernel.manager.InState .blocked threadId) :
    system.kernel.manager.InState .blocked threadId := by
  obtain ⟨mail, mailed, same⟩ := sound.mailed called performed
  have blockedMail := blocked.mail_blocked same
  cases mailed with
  | same => exact blockedMail
  | newThread => exact blockedMail
  | add boxed =>
    rcases inState_setThread.mp blockedMail with ⟨-, isBlocked⟩ | kept
    · have isReady := (sound.recorded.fresh _ boxed).2.2.1
      rw [isReady] at isBlocked
      cases isBlocked
    · exact kept.2
  | block isBlocking isCurrent found =>
    rcases inState_setThread.mp blockedMail with ⟨rfl, -⟩ | kept
    · exact absurd isCurrent (elsewhere isBlocking)
    · exact kept.2
  | receive isCurrent isRunning =>
    rcases inState_setThread.mp blockedMail with ⟨-, isBlocked⟩ | kept
    · have isBlocked : _ = ThreadState.blocked := isBlocked
      rw [isRunning] at isBlocked
      cases isBlocked
    · exact kept.2
  | exit isCurrent =>
    obtain ⟨thread, found, isBlocked⟩ := blockedMail
    dsimp only [removeThread] at found
    rw [update_apply] at found
    split at found
    · cases found
    · exact ⟨thread, found, isBlocked⟩
  | wake => exact (blockedMail.wake_blocked enqueues_enqueueReady).2
  | send => exact blockedMail.deliver_blocked enqueues_enqueueReady
  | sendUrgent => exact blockedMail.deliver_blocked enqueues_enqueueReadyFront

end

theorem awake_of_wakeThread (performed : system.perform (.wakeThread threadId) = .ok next) :
    ¬ next.kernel.manager.InState .blocked threadId := by
  cases performed
  unfold wakeThread
  split
  · exact fun blocked => (blocked.wake_blocked enqueues_enqueueReady).1 rfl
  · next missing =>
      rintro ⟨thread, found, -⟩
      rw [getThread, found] at missing
      cases missing

theorem runs_of_received {kernel : Kernel Data}
    (isCurrent : system.kernel.current = .thread runner)
    (received : system.kernel.receiveMessage = .ok (some message, kernel))
    (performed : system.perform .receiveMessage = .ok next) :
    next.kernel.current = .thread runner ∧ next.receiving runner = false := by
  dsimp only [perform] at performed
  rw [currentId_of_thread isCurrent, ok_bind, received, ok_bind] at performed
  have sameCurrent : kernel.current = system.kernel.current := by
    unfold receiveMessage at received
    rw [currentId_of_thread isCurrent, ok_bind] at received
    split at received
    · exact congrArg (fun outcome => outcome.2.current) (Except.ok.inj received.symm)
    · obtain ⟨_, -, isNone⟩ := bind_eq_ok.mp received
      cases isNone
  cases performed
  exact ⟨sameCurrent.trans isCurrent, update_self ..⟩

theorem receiving_perform (called : system.Calls operation)
    (performed : system.perform operation = .ok next)
    (elsewhere : operation = .receiveMessage → system.kernel.current ≠ .thread threadId) :
    next.receiving threadId = system.receiving threadId := by
  cases operation with
  | receiveMessage =>
    obtain ⟨runner, isCurrent⟩ := called
    have different : threadId ≠ runner := by
      rintro rfl
      exact elsewhere rfl isCurrent
    dsimp only [perform] at performed
    rw [currentId_of_thread isCurrent, ok_bind] at performed
    obtain ⟨⟨received, kernel⟩, -, isNext⟩ := bind_eq_ok.mp performed
    cases received <;> rw [← Except.ok.inj isNext] <;> exact update_of_ne different _ _
  | setIdleThread | newThread | add _ | wakeThread _ | sendMessage _ _ =>
    rw [← Except.ok.inj performed]
  | startScheduler | scheduleIfReady | yieldNow | blockNow | exit | sendMessageUrgent _ _ =>
    rw [(record_of_bind performed).1]

theorem Sound.received_elsewhere (sound : system.Sound) (called : system.Calls operation)
    (performed : system.perform operation = .ok next)
    (elsewhere : operation = .receiveMessage → system.kernel.current ≠ .thread threadId) :
    next.received threadId = system.received threadId := by
  by_cases receives : operation = .receiveMessage
  · subst receives
    obtain ⟨runner, isCurrent⟩ := called
    have different : threadId ≠ runner := by
      rintro rfl
      exact elsewhere rfl isCurrent
    obtain ⟨-, found, -⟩ := sound.receives isCurrent performed
    rcases found with ⟨message, rest, kernel, -, -, receivedEq⟩ | ⟨kernel, -, -, receivedEq⟩
    · rw [receivedEq, update_of_ne different]
    · rw [receivedEq]
  · rw [(record_perform performed receives).2]

theorem Sound.current_lives (sound : system.Sound)
    (isCurrent : system.kernel.current = .thread threadId) :
    system.kernel.manager.Lives threadId := by
  obtain ⟨-, thread, found, -⟩ := sound.current isCurrent
  unfold ThreadManager.Lives
  rw [found]
  rfl

/-- A message has been put into an inbox, and nothing else has been sent or
received. -/
structure Posts (system next : System Data) (targetId : Nat) (message : Message Data) :
    Prop where
  sound : next.Sound
  delivered : next.delivered =
    Function.update system.delivered targetId (system.delivered targetId ++ [message])
  received : next.received = system.received
  lives : ∀ threadId, system.kernel.manager.Lives threadId → next.kernel.manager.Lives threadId

theorem Sound.posts (sound : system.Sound) (performed : system.perform operation = .ok next)
    (called : system.Calls operation) (sends : operation.sends = some (targetId, message))
    (lives : system.kernel.manager.Lives targetId) : Posts system next targetId message := by
  have different : operation ≠ .receiveMessage := by
    rintro rfl
    cases sends
  have stays : operation ≠ .exit := by
    rintro rfl
    cases sends
  obtain ⟨deliveredEq, receivedEq⟩ := record_perform performed different
  obtain ⟨target, found⟩ := Option.isSome_iff_exists.mp lives
  refine ⟨(sound.advances called).2 next performed, ?_, receivedEq, ?_⟩
  · rw [deliveredEq, sends]
    simp only [noteDelivery, getThread, found]
  · exact fun threadId => sound.lives called performed (fun isExit => absurd isExit stays)

end System

end NanoOs.Threads
