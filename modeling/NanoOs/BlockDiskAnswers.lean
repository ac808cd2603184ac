import NanoOs.BlockDisk

/-!
# Answers of the block disk

Every request handled by the dispatcher is answered once, in flight, in hand or
pending, and its answer carries the outcome of its own read.  The invariant
accounts for each thread's requests by the order of its own calls.
-/

namespace NanoOs.BlockDisk

open Function List

open Threads (System Operation Message Current ThreadManager)

def requests (messages : List (Message BlockMessage)) : List PendingRequest :=
  messages.filterMap fun message =>
    match message.data with
    | .readRequest request => some request
    | _ => none

def completions (messages : List (Message BlockMessage)) : List ReadStatus :=
  messages.filterMap fun message =>
    match message.data with
    | .readComplete status => some status
    | _ => none

def Phase.held : Phase → List PendingRequest
  | .handling (.readRequest request) | .issuing request | .refusing request _ => [request]
  | _ => []

def Phase.completion : Phase → List ReadStatus
  | .handling (.readComplete status) | .answering _ status => [status]
  | _ => []

def Phase.refused : Phase → List Outcome
  | .refusing request error => [(request, .error error)]
  | _ => []

/-- What the slot `REQUEST` holds, for a given read in flight. -/
def Phase.Slot (request : Option Request) (inFlight : Option PendingRequest) : Phase → Prop
  | .receiving | .handling _ => request = inFlight.map fun read => ⟨read.requesterTid⟩
  | .answering current _ =>
      request = none ∧ inFlight.map PendingRequest.requesterTid = some current.requesterTid
  | .dequeuing | .issuing _ | .refusing _ _ => request = none ∧ inFlight = none

/-- The read in flight is running on the device, or has completed and its
completion is on the way to the dispatcher. -/
inductive Pipeline :
    Option PendingRequest → List PendingRequest → List ReadStatus → List Outcome → Prop
  | free : Pipeline none [] [] []
  | running (request : PendingRequest) : Pipeline (some request) [request] [] []
  | completed (request : PendingRequest) (status : ReadStatus) :
      Pipeline (some request) [] [status] [(request, status)]

variable {inFlight : Option PendingRequest} {status : ReadStatus}

section Pipeline

variable {started : List PendingRequest} {waiting : List ReadStatus} {rest : List Outcome}

theorem Pipeline.of_none (piped : Pipeline none started waiting rest) :
    started = [] ∧ waiting = [] ∧ rest = [] := by
  cases piped
  exact ⟨rfl, rfl, rfl⟩

theorem Pipeline.of_completion {read : PendingRequest}
    (piped : Pipeline (some read) started (status :: waiting) rest) :
    started = [] ∧ waiting = [] ∧ rest = [(read, status)] := by
  cases piped
  exact ⟨rfl, rfl, rfl⟩

end Pipeline

namespace Disk

def answeredTo (disk : Disk) (threadId : Nat) : List Outcome :=
  disk.answered.filter fun outcome => outcome.1.requesterTid = threadId

def response (disk : Disk) (outcome : Outcome) : Message BlockMessage :=
  ⟨disk.dispatcherTid, .readResponse outcome.2⟩

/-- The requests the dispatcher has taken from its inbox. -/
def handled (disk : Disk) : List PendingRequest :=
  requests (disk.threads.received disk.dispatcherTid)

def issuedBy (disk : Disk) (threadId : Nat) : List PendingRequest :=
  (requests (disk.threads.delivered disk.dispatcherTid)).filter
    fun request => request.requesterTid = threadId

def unanswered (disk : Disk) : List PendingRequest :=
  disk.inFlight.toList ++ disk.phase.held ++ disk.dispatcher.pending

/-- The outcomes not yet answered, and where the read in flight is. -/
def Piped (disk : Disk) (phase : Phase) (inFlight : Option PendingRequest)
    (started : List PendingRequest) (outcomes answered : List Outcome) : Prop :=
  ∀ inbox, disk.threads.delivered disk.dispatcherTid =
      disk.threads.received disk.dispatcherTid ++ inbox →
    ∃ rest, outcomes = answered ++ phase.refused ++ rest ∧
      Pipeline inFlight started (phase.completion ++ completions inbox) rest

structure Sound (reads : Nat → Prop) (disk : Disk) : Prop where
  threads : disk.threads.Sound
  nonzero : disk.dispatcherTid ≠ 0
  apart : ¬ reads disk.dispatcherTid
  lives : disk.threads.kernel.manager.Lives disk.dispatcherTid
  callers : ∀ threadId request, disk.calls threadId = some request →
    reads threadId ∧ disk.threads.kernel.manager.Lives threadId
  issued : ∀ threadId, disk.issuedBy threadId =
    (disk.returned threadId).map Prod.fst ++ (disk.calls threadId).toList
  conserved : disk.handled.Perm (disk.answered.map Prod.fst ++ disk.unanswered)
  responses : ∀ threadId, reads threadId →
    disk.threads.delivered threadId = (disk.answeredTo threadId).map disk.response
  collected : ∀ threadId, reads threadId →
    disk.threads.received threadId = (disk.returned threadId).map disk.response
  matched : ∀ threadId, disk.returned threadId <+: disk.answeredTo threadId
  readers : ∀ outcome ∈ disk.answered, reads outcome.1.requesterTid
  slot : disk.phase.Slot disk.dispatcher.request disk.inFlight
  pipeline : disk.Piped disk.phase disk.inFlight disk.started disk.outcomes disk.answered

variable {reads : Nat → Prop} {disk next : Disk} {threadId : Nat}

theorem Sound.handled_prefix (sound : disk.Sound reads) (threadId : Nat) :
    (disk.handled.filter fun request => request.requesterTid = threadId) <+:
      (disk.returned threadId).map Prod.fst ++ (disk.calls threadId).toList := by
  rw [← sound.issued threadId]
  have ordered := sound.threads.recorded.ordered disk.dispatcherTid
  exact (ordered.filterMap _).filter _

theorem Sound.handled_perm (sound : disk.Sound reads) (threadId : Nat) :
    (disk.handled.filter fun request => request.requesterTid = threadId).Perm
      ((disk.answeredTo threadId).map Prod.fst ++
        disk.unanswered.filter fun request => request.requesterTid = threadId) := by
  have permuted := sound.conserved.filter fun request => request.requesterTid = threadId
  rw [filter_append, filter_map] at permuted
  exact permuted

/-- A thread has at most one request that it has no result of. -/
theorem Sound.balance (sound : disk.Sound reads) (threadId : Nat) :
    (disk.answeredTo threadId).length +
        (disk.unanswered.filter fun request => request.requesterTid = threadId).length ≤
      (disk.returned threadId).length + (disk.calls threadId).toList.length := by
  have permuted := (sound.handled_perm threadId).length_eq
  have bounded := (sound.handled_prefix threadId).length_le
  rw [length_append, length_map] at permuted bounded
  omega

variable {request : PendingRequest} {threads : System BlockMessage} {message : Message BlockMessage}

theorem Sound.calling (sound : disk.Sound reads) (member : request ∈ disk.unanswered) :
    reads request.requesterTid ∧
      disk.threads.kernel.manager.Lives request.requesterTid := by
  have balance := sound.balance request.requesterTid
  have matched := (sound.matched request.requesterTid).length_le
  have counted : 0 < (disk.unanswered.filter
      fun other => other.requesterTid = request.requesterTid).length :=
    length_pos_of_mem (mem_filter.mpr ⟨member, by simp⟩)
  cases called : disk.calls request.requesterTid with
  | none =>
    rw [called] at balance
    simp only [Option.toList_none, length_nil] at balance
    omega
  | some current => exact sound.callers _ current called

/-- The next answer to a thread inside `read_blocks` is that of its request, and
the last one. -/
theorem Sound.own_answer (sound : disk.Sound reads) {outcome : Outcome} {rest : List Outcome}
    (called : disk.calls threadId = some request)
    (answered : disk.answeredTo threadId = disk.returned threadId ++ outcome :: rest) :
    rest = [] ∧ outcome.1 = request := by
  have balance := sound.balance threadId
  have permuted := sound.handled_perm threadId
  have isPrefix := sound.handled_prefix threadId
  rw [answered, called] at balance
  simp only [length_append, length_cons, Option.toList_some, length_nil]
    at balance
  have noRest : rest = [] := eq_nil_of_length_eq_zero (by omega)
  have noneLeft : (disk.unanswered.filter fun request => request.requesterTid = threadId) = [] :=
    eq_nil_of_length_eq_zero (by omega)
  subst noRest
  rw [noneLeft, answered, append_nil, map_append] at permuted
  rw [called] at isPrefix
  have complete := isPrefix.eq_of_length (by rw [permuted.length_eq]; simp)
  rw [complete] at permuted
  have singles := (perm_append_left_iff _).mp permuted
  refine ⟨rfl, ?_⟩
  simpa using singles.symm

def Concerns (reads : Nat → Prop) (disk : Disk) (threadId : Nat) : Prop :=
  threadId = disk.dispatcherTid ∨ reads threadId

/-- What happens between other threads leaves the invariant alone. -/
theorem Sound.frame (sound : disk.Sound reads) (threadsSound : threads.Sound)
    (same : ∀ threadId, disk.Concerns reads threadId →
      threads.delivered threadId = disk.threads.delivered threadId ∧
        threads.received threadId = disk.threads.received threadId)
    (lives : ∀ threadId, threadId = disk.dispatcherTid ∨ (disk.calls threadId).isSome = true →
      disk.threads.kernel.manager.Lives threadId → threads.kernel.manager.Lives threadId) :
    Sound reads { disk with threads := threads } := by
  obtain ⟨sameDelivered, sameReceived⟩ := same disk.dispatcherTid (Or.inl rfl)
  refine ⟨threadsSound, sound.nonzero, sound.apart, lives _ (Or.inl rfl) sound.lives, ?_, ?_, ?_,
    ?_, ?_, sound.matched, sound.readers, sound.slot, ?_⟩
  · intro threadId request called
    obtain ⟨isReader, livesBefore⟩ := sound.callers threadId request called
    have isCaller : disk.calls threadId = some request := called
    exact ⟨isReader, lives threadId (Or.inr (by simp [isCaller])) livesBefore⟩
  · intro threadId
    have issued := sound.issued threadId
    unfold issuedBy at issued ⊢
    rw [sameDelivered]
    exact issued
  · have conserved := sound.conserved
    unfold handled at conserved ⊢
    rw [sameReceived]
    exact conserved
  · intro threadId isReader
    rw [(same threadId (Or.inr isReader)).1]
    exact sound.responses threadId isReader
  · intro threadId isReader
    rw [(same threadId (Or.inr isReader)).2]
    exact sound.collected threadId isReader
  · intro inbox inboxEq
    rw [sameDelivered, sameReceived] at inboxEq
    exact sound.pipeline inbox inboxEq

theorem Sound.nothing_waiting (sound : disk.Sound reads) (isReader : reads threadId)
    (notCalling : disk.calls threadId = none) :
    disk.threads.delivered threadId = disk.threads.received threadId := by
  have balance := sound.balance threadId
  rw [notCalling, Option.toList_none, length_nil] at balance
  rw [sound.responses threadId isReader, sound.collected threadId isReader,
    (sound.matched threadId).eq_of_length_le (by omega)]

variable {operation : Operation BlockMessage} {outcomes : List Outcome}
  {started : List PendingRequest} {phase : Phase}

theorem Outside.elsewhere (outside : disk.Outside reads operation)
    (sends : operation.sends = some (threadId, message)) : ¬ disk.Concerns reads threadId := by
  rintro (isDispatcher | isReader)
  · cases operation with
    | sendMessage _ _ | sendMessageUrgent _ _ =>
      exact outside.1 ((Prod.mk.inj (Option.some.inj sends)).1.trans isDispatcher)
    | _ => cases sends
  · cases operation with
    | sendMessage _ _ | sendMessageUrgent _ _ =>
      exact outside.2 ((Prod.mk.inj (Option.some.inj sends)).1 ▸ isReader)
    | _ => cases sends

theorem Sound.other (sound : disk.Sound reads) (called : disk.Calls reads (.other operation))
    (performed : disk.perform (.other operation) = .ok next) : next.Sound reads := by
  obtain ⟨calls, outside⟩ := called
  obtain ⟨threads, threadsPerformed, isNext⟩ := bind_eq_ok.mp performed
  cases isNext
  have threadsSound := (sound.threads.advances calls).2 threads threadsPerformed
  refine sound.frame threadsSound ?_ ?_
  · intro threadId concerns
    by_cases isReceive : operation = .receiveMessage
    · subst isReceive
      obtain ⟨runner, isCurrent⟩ := calls
      obtain ⟨notDispatcher, notCalling⟩ := outside runner isCurrent
      obtain ⟨sameDelivered, received, -⟩ := sound.threads.receives isCurrent threadsPerformed
      refine ⟨congrFun sameDelivered threadId, ?_⟩
      rcases received with ⟨message, rest, _, _, waiting, receivedEq⟩ | ⟨_, _, _, receivedEq⟩
      · have different : threadId ≠ runner := by
          rintro rfl
          rcases concerns with isDispatcher | isReader
          · exact notDispatcher isDispatcher
          · rw [sound.nothing_waiting isReader notCalling] at waiting
            simp at waiting
        rw [receivedEq, update_of_ne different]
      · rw [receivedEq]
    · have receivedEq := (System.record_perform threadsPerformed isReceive).2
      refine ⟨?_, congrFun receivedEq threadId⟩
      refine System.delivered_of_unsent threadsPerformed isReceive fun message sends => ?_
      exact outside.elsewhere sends concerns
  · intro threadId concerns lives
    refine sound.threads.lives calls threadsPerformed ?_ lives
    rintro rfl isCurrent
    obtain ⟨notDispatcher, notCalling⟩ := outside threadId isCurrent
    rcases concerns with isDispatcher | isCalling
    · exact notDispatcher isDispatcher
    · simp [notCalling] at isCalling

theorem Sound.reader_ne (sound : disk.Sound reads) (isReader : reads threadId) :
    threadId ≠ disk.dispatcherTid := by
  rintro rfl
  exact sound.apart isReader

theorem requests_concat (messages : List (Message BlockMessage)) (message : Message BlockMessage) :
    requests (messages ++ [message]) = requests messages ++ requests [message] :=
  filterMap_append

theorem completions_concat (messages : List (Message BlockMessage))
    (message : Message BlockMessage) :
    completions (messages ++ [message]) = completions messages ++ completions [message] :=
  filterMap_append

theorem completions_cons (message : Message BlockMessage)
    (messages : List (Message BlockMessage)) :
    completions (message :: messages) = completions [message] ++ completions messages :=
  filterMap_append (l := [message])

theorem handling_held (message : Message BlockMessage) :
    (Phase.handling message.data).held = requests [message] := by
  obtain ⟨sender, request | status | status⟩ := message <;> rfl

theorem handling_completion (message : Message BlockMessage) :
    (Phase.handling message.data).completion = completions [message] := by
  obtain ⟨sender, request | status | status⟩ := message <;> rfl

theorem Sound.posted {calls : Nat → Option PendingRequest} (sound : disk.Sound reads)
    (posts : System.Posts disk.threads threads disk.dispatcherTid message)
    (callers : ∀ threadId request, calls threadId = some request →
      reads threadId ∧ disk.threads.kernel.manager.Lives threadId)
    (issued : ∀ threadId, disk.issuedBy threadId ++
        (requests [message]).filter (fun request => request.requesterTid = threadId) =
      (disk.returned threadId).map Prod.fst ++ (calls threadId).toList)
    (pipeline : ∀ rest waiting, disk.outcomes = disk.answered ++ disk.phase.refused ++ rest →
      Pipeline disk.inFlight disk.started waiting rest →
      ∃ after, outcomes = disk.answered ++ disk.phase.refused ++ after ∧
        Pipeline disk.inFlight started (waiting ++ completions [message]) after) :
    Sound reads
      { disk with
        threads := threads, calls := calls, started := started, outcomes := outcomes } := by
  refine ⟨posts.sound, sound.nonzero, sound.apart, posts.lives _ sound.lives, ?_, ?_, ?_, ?_, ?_,
    sound.matched, sound.readers, sound.slot, ?_⟩
  · intro threadId request isCalling
    obtain ⟨isReader, lives⟩ := callers threadId request isCalling
    exact ⟨isReader, posts.lives threadId lives⟩
  · intro threadId
    rw [← issued threadId]
    unfold issuedBy
    simp only [posts.delivered, update_self, requests_concat, filter_append]
  · have conserved := sound.conserved
    unfold handled at conserved ⊢
    simp only [posts.received]
    exact conserved
  · intro threadId isReader
    simp only [posts.delivered, update_of_ne (sound.reader_ne isReader)]
    exact sound.responses threadId isReader
  · intro threadId isReader
    rw [posts.received]
    exact sound.collected threadId isReader
  · intro inbox inboxEq
    obtain ⟨front, frontEq⟩ := sound.threads.recorded.ordered disk.dispatcherTid
    have inboxIs : inbox = front ++ [message] := by
      rw [posts.delivered, posts.received, update_self, ← frontEq, append_assoc]
        at inboxEq
      exact (append_cancel_left inboxEq).symm
    obtain ⟨rest, outcomesEq, piped⟩ := sound.pipeline front frontEq.symm
    rw [inboxIs, completions_concat, ← append_assoc]
    exact pipeline rest _ outcomesEq piped

theorem Sound.readBlocks {lba : Nat} {buffer : Buffer} (sound : disk.Sound reads)
    (called : disk.Calls reads (.readBlocks lba buffer))
    (performed : disk.perform (.readBlocks lba buffer) = .ok next) : next.Sound reads := by
  obtain ⟨threadId, isCurrent, notReceiving, isReader, notCalling⟩ := called
  dsimp only [perform] at performed
  rw [Threads.Kernel.currentId_of_thread isCurrent, ok_bind] at performed
  obtain ⟨threads, sent, isNext⟩ := bind_eq_ok.mp performed
  cases isNext
  unfold requestReadBlock at sent
  rw [if_pos sound.nonzero] at sent
  have posts := sound.threads.posts sent ⟨threadId, isCurrent, notReceiving⟩ rfl sound.lives
  refine sound.posted posts ?_ ?_ ?_
  · intro other request isCalling
    by_cases equal : other = threadId
    · subst equal
      exact ⟨isReader, sound.threads.current_lives isCurrent⟩
    · rw [update_of_ne equal] at isCalling
      exact sound.callers other request isCalling
  · intro other
    rw [sound.issued other]
    by_cases equal : other = threadId
    · subst equal
      simp [requests, notCalling]
    · simp [requests, equal, Ne.symm equal]
  · intro rest waiting outcomesEq piped
    exact ⟨rest, outcomesEq, by simpa [completions] using piped⟩

theorem Sound.complete (sound : disk.Sound reads)
    (called : disk.Calls reads (.complete request status))
    (performed : disk.perform (.complete request status) = .ok next) : next.Sound reads := by
  obtain ⟨threads, sent, isNext⟩ := bind_eq_ok.mp performed
  cases isNext
  unfold sendReadCompletion at sent
  rw [if_pos sound.nonzero] at sent
  have isStarted : request ∈ disk.started := called
  have posts := sound.threads.posts sent trivial rfl sound.lives
  refine sound.posted posts sound.callers ?_ ?_
  · intro threadId
    rw [sound.issued threadId]
    simp [requests]
  · intro rest waiting outcomesEq piped
    refine ⟨rest ++ [(request, status)], by rw [outcomesEq, append_assoc], ?_⟩
    generalize disk.inFlight = inFlight at piped ⊢
    generalize disk.started = started at piped isStarted ⊢
    cases piped with
    | free => cases isStarted
    | running running =>
      rw [mem_singleton.mp isStarted, erase_cons_head]
      exact Pipeline.completed running status
    | completed => cases isStarted

theorem receiveMessage_spec {after : System BlockMessage}
    {received : Option (Message BlockMessage)} (sound : threads.Sound)
    (isCurrent : threads.kernel.current = .thread threadId)
    (done : receiveMessage threads = .ok (received, after)) :
    after.Sound ∧ after.delivered = threads.delivered ∧
      (∀ other, threads.kernel.manager.Lives other → after.kernel.manager.Lives other) ∧
      ((received = none ∧ after.received = threads.received) ∨
        ∃ message rest, received = some message ∧
          threads.delivered threadId = threads.received threadId ++ message :: rest ∧
          after.received = update threads.received threadId
            (threads.received threadId ++ [message])) := by
  obtain ⟨⟨found, kernel⟩, isFound, rest⟩ := bind_eq_ok.mp done
  obtain ⟨system, performed, isAfter⟩ := bind_eq_ok.mp rest
  obtain ⟨receivedEq, systemEq⟩ := Prod.mk.inj (Except.ok.inj isAfter)
  subst receivedEq systemEq
  have called : threads.Calls .receiveMessage := ⟨threadId, isCurrent⟩
  obtain ⟨deliveredEq, cases, lives⟩ := sound.receives isCurrent performed
  refine ⟨(sound.advances called).2 system performed, deliveredEq, lives, ?_⟩
  rcases cases with ⟨message, rest, _, again, waiting, receivedEq⟩ | ⟨_, again, _, receivedEq⟩
  · rw [isFound] at again
    exact Or.inr ⟨message, rest, (Prod.mk.inj (Except.ok.inj again)).1, waiting, receivedEq⟩
  · rw [isFound] at again
    exact Or.inl ⟨(Prod.mk.inj (Except.ok.inj again)).1, receivedEq⟩

theorem Sound.receive (sound : disk.Sound reads) (called : disk.Calls reads .receive)
    (performed : disk.perform .receive = .ok next) : next.Sound reads := by
  obtain ⟨isCurrent, isReceiving⟩ := called
  obtain ⟨⟨received, threads⟩, done, isNext⟩ := bind_eq_ok.mp performed
  obtain ⟨threadsSound, deliveredEq, lives, found⟩ :=
    receiveMessage_spec sound.threads isCurrent done
  rcases found with ⟨rfl, receivedEq⟩ | ⟨message, rest, rfl, waiting, receivedEq⟩
  · cases isNext
    refine sound.frame threadsSound ?_ (fun threadId _ => lives threadId)
    exact fun threadId _ => ⟨congrFun deliveredEq threadId, congrFun receivedEq threadId⟩
  · cases isNext
    have slot := sound.slot
    have conserved := sound.conserved
    unfold handled unanswered at conserved
    rw [isReceiving] at slot conserved
    refine ⟨threadsSound, sound.nonzero, sound.apart, lives _ sound.lives, ?_, ?_, ?_, ?_, ?_,
      sound.matched, sound.readers, slot, ?_⟩
    · intro threadId request isCalling
      obtain ⟨isReader, livesBefore⟩ := sound.callers threadId request isCalling
      exact ⟨isReader, lives threadId livesBefore⟩
    · intro threadId
      have issued := sound.issued threadId
      unfold issuedBy at issued ⊢
      rw [deliveredEq]
      exact issued
    · unfold handled unanswered
      simp only [receivedEq, update_self, requests_concat, handling_held]
      refine (conserved.append_right (requests [message])).trans ?_
      simp only [Phase.held, append_nil, append_assoc]
      refine List.Perm.append_left _ (List.Perm.append_left _ ?_)
      exact perm_append_comm
    · intro threadId isReader
      rw [deliveredEq]
      exact sound.responses threadId isReader
    · intro threadId isReader
      simp only [receivedEq, update_of_ne (sound.reader_ne isReader)]
      exact sound.collected threadId isReader
    · intro inbox inboxEq
      have frontEq : disk.threads.delivered disk.dispatcherTid =
          disk.threads.received disk.dispatcherTid ++ message :: inbox := by
        rw [deliveredEq, receivedEq, update_self] at inboxEq
        simpa using inboxEq
      have piped := sound.pipeline (message :: inbox) frontEq
      rw [isReceiving] at piped
      rw [handling_completion, ← completions_cons]
      exact piped

/-- The message a thread inside `read_blocks` finds is the response to its own
request. -/
theorem Sound.response_found {rest : List (Message BlockMessage)} (sound : disk.Sound reads)
    (isReader : reads threadId) (isCalling : disk.calls threadId = some request)
    (waiting : disk.threads.delivered threadId =
      disk.threads.received threadId ++ message :: rest) :
    ∃ outcome, disk.answeredTo threadId = disk.returned threadId ++ [outcome] ∧
      message = disk.response outcome ∧ outcome.1 = request := by
  obtain ⟨later, answeredEq⟩ := sound.matched threadId
  rw [sound.responses threadId isReader, sound.collected threadId isReader, ← answeredEq,
    map_append] at waiting
  have laterEq := append_cancel_left waiting
  cases later with
  | nil => cases laterEq
  | cons outcome others =>
    obtain ⟨rfl, requestEq⟩ := sound.own_answer isCalling answeredEq.symm
    exact ⟨outcome, answeredEq.symm, (cons.inj laterEq).1.symm, requestEq⟩

theorem Sound.awaitResponse (sound : disk.Sound reads)
    (called : disk.Calls reads .awaitResponse)
    (performed : disk.perform .awaitResponse = .ok next) : next.Sound reads := by
  obtain ⟨threadId, isCurrent, isCalling⟩ := called
  obtain ⟨request, isCalling⟩ := Option.isSome_iff_exists.mp isCalling
  obtain ⟨isReader, -⟩ := sound.callers threadId request isCalling
  dsimp only [perform] at performed
  rw [Threads.Kernel.currentId_of_thread isCurrent, ok_bind] at performed
  obtain ⟨⟨received, threads⟩, done, isNext⟩ := bind_eq_ok.mp performed
  obtain ⟨threadsSound, deliveredEq, lives, found⟩ :=
    receiveMessage_spec sound.threads isCurrent done
  rcases found with ⟨rfl, receivedEq⟩ | ⟨message, rest, rfl, waiting, receivedEq⟩
  · cases isNext
    refine sound.frame threadsSound ?_ (fun threadId _ => lives threadId)
    exact fun threadId _ => ⟨congrFun deliveredEq threadId, congrFun receivedEq threadId⟩
  · obtain ⟨outcome, answeredEq, messageEq, requestEq⟩ :=
      sound.response_found isReader isCalling waiting
    have resultEq : (disk.calls threadId).toList.map
        (fun request => (request, responseStatus message.data)) = [outcome] := by
      rw [isCalling, messageEq, ← requestEq]
      rfl
    rw [← Except.ok.inj isNext, resultEq]
    have notDispatcher := (sound.reader_ne isReader).symm
    refine ⟨threadsSound, sound.nonzero, sound.apart, lives _ sound.lives, ?_, ?_, ?_, ?_, ?_, ?_,
      sound.readers, sound.slot, ?_⟩
    · intro other otherRequest otherCalling
      by_cases equal : other = threadId
      · subst equal
        simp at otherCalling
      · simp only [update_of_ne equal] at otherCalling
        obtain ⟨otherReads, otherLives⟩ := sound.callers other otherRequest otherCalling
        exact ⟨otherReads, lives other otherLives⟩
    · intro other
      have issued := sound.issued other
      unfold issuedBy at issued ⊢
      rw [deliveredEq, issued]
      by_cases equal : other = threadId
      · subst equal
        simp [isCalling, requestEq]
      · simp [equal]
    · have conserved := sound.conserved
      unfold handled at conserved ⊢
      simp only [receivedEq, update_of_ne notDispatcher]
      exact conserved
    · intro other otherReads
      rw [deliveredEq]
      exact sound.responses other otherReads
    · intro other otherReads
      have collected := sound.collected other otherReads
      by_cases equal : other = threadId
      · subst equal
        simp only [receivedEq, update_self, map_append, collected, messageEq]
        rfl
      · simp only [receivedEq, update_of_ne equal]
        exact collected
    · intro other
      by_cases equal : other = threadId
      · subst equal
        simp only [update_self, ← answeredEq]
        exact prefix_rfl
      · simp only [update_of_ne equal]
        exact sound.matched other
    · intro inbox inboxEq
      simp only [deliveredEq, receivedEq, update_of_ne notDispatcher] at inboxEq
      exact sound.pipeline inbox inboxEq

section Piped

variable {started : List PendingRequest} {outcomes answered : List Outcome}
  {request : PendingRequest}

theorem Piped.answer {current : Request}
    (piped : disk.Piped (.answering current status) (some request) started outcomes answered) :
    disk.Piped .dequeuing none started outcomes (answered ++ [(request, status)]) := by
  intro inbox inboxEq
  obtain ⟨rest, outcomesEq, before⟩ := piped inbox inboxEq
  obtain ⟨noneStarted, noneWaiting, restEq⟩ := before.of_completion
  refine ⟨[], ?_, ?_⟩
  · simpa [Phase.refused, restEq] using outcomesEq
  · have noneLeft : completions inbox = [] := noneWaiting
    rw [noneStarted, noneLeft]
    exact Pipeline.free

theorem Piped.accept (piped : disk.Piped (.issuing request) none started outcomes answered) :
    disk.Piped .receiving (some request) (started ++ [request]) outcomes answered := by
  intro inbox inboxEq
  obtain ⟨rest, outcomesEq, before⟩ := piped inbox inboxEq
  obtain ⟨noneStarted, noneWaiting, restEq⟩ := before.of_none
  refine ⟨rest, outcomesEq, ?_⟩
  have noneLeft : completions inbox = [] := noneWaiting
  rw [noneStarted, noneLeft, restEq]
  exact Pipeline.running request

theorem Piped.refuse (piped : disk.Piped (.issuing request) none started outcomes answered)
    (error : BlockError) :
    disk.Piped (.refusing request error) none started (outcomes ++ [(request, .error error)])
      answered := by
  intro inbox inboxEq
  obtain ⟨rest, outcomesEq, before⟩ := piped inbox inboxEq
  obtain ⟨-, -, restEq⟩ := before.of_none
  refine ⟨rest, ?_, before⟩
  simp [outcomesEq, restEq, Phase.refused]

theorem Piped.answerRefused {error : BlockError}
    (piped : disk.Piped (.refusing request error) none started outcomes answered) :
    disk.Piped .receiving none started outcomes (answered ++ [(request, .error error)]) := by
  intro inbox inboxEq
  obtain ⟨rest, outcomesEq, before⟩ := piped inbox inboxEq
  exact ⟨rest, by simpa [Phase.refused] using outcomesEq, before⟩

end Piped

theorem Sound.moved {dispatcher : Dispatcher} (sound : disk.Sound reads)
    (sameRequests : disk.unanswered.Perm (inFlight.toList ++ phase.held ++ dispatcher.pending))
    (slot : phase.Slot dispatcher.request inFlight)
    (piped : disk.Piped phase inFlight started outcomes disk.answered) :
    Sound reads
      { disk with
        dispatcher := dispatcher
        phase := phase
        inFlight := inFlight
        started := started
        outcomes := outcomes } :=
  ⟨sound.threads, sound.nonzero, sound.apart, sound.lives, sound.callers, sound.issued,
    sound.conserved.trans (sameRequests.append_left _), sound.responses, sound.collected,
    sound.matched, sound.readers, slot, piped⟩

theorem Sound.answers (sound : disk.Sound reads)
    (sent : disk.threads.perform
      (.sendMessage request.requesterTid (disk.response (request, status))) = .ok threads)
    (sameRequests : disk.unanswered.Perm
      (request :: (inFlight.toList ++ phase.held ++ disk.dispatcher.pending)))
    (slot : phase.Slot disk.dispatcher.request inFlight)
    (piped : disk.Piped phase inFlight disk.started disk.outcomes
      (disk.answered ++ [(request, status)])) :
    Sound reads
      { disk with
        threads := threads
        phase := phase
        inFlight := inFlight
        answered := disk.answered ++ [(request, status)] } := by
  obtain ⟨isReader, requesterLives⟩ := sound.calling (sameRequests.symm.subset mem_cons_self)
  have posts := sound.threads.posts sent trivial rfl requesterLives
  have notDispatcher := (sound.reader_ne isReader).symm
  have sameDelivered : threads.delivered disk.dispatcherTid =
      disk.threads.delivered disk.dispatcherTid := by
    rw [posts.delivered, update_of_ne notDispatcher]
  refine ⟨posts.sound, sound.nonzero, sound.apart, posts.lives _ sound.lives, ?_, ?_, ?_, ?_, ?_,
    ?_, ?_, slot, ?_⟩
  · intro threadId other isCalling
    obtain ⟨otherReads, otherLives⟩ := sound.callers threadId other isCalling
    exact ⟨otherReads, posts.lives threadId otherLives⟩
  · intro threadId
    have issued := sound.issued threadId
    unfold issuedBy at issued ⊢
    rw [sameDelivered]
    exact issued
  · have conserved := sound.conserved.trans (sameRequests.append_left _)
    unfold handled at conserved ⊢
    simp only [posts.received, map_append, map_cons, map_nil, append_assoc,
      singleton_append]
    simpa [unanswered] using conserved
  · intro threadId otherReads
    have responses := sound.responses threadId otherReads
    unfold answeredTo at responses ⊢
    by_cases equal : threadId = request.requesterTid
    · subst equal
      simp [posts.delivered, responses, response]
    · simp only [posts.delivered, update_of_ne equal, responses]
      simp [Ne.symm equal, response]
  · intro threadId otherReads
    rw [posts.received]
    exact sound.collected threadId otherReads
  · intro threadId
    refine (sound.matched threadId).trans ?_
    unfold answeredTo
    simp only [filter_append]
    exact prefix_append _ _
  · intro outcome member
    rcases mem_append.mp member with isOld | isNew
    · exact sound.readers outcome isOld
    · rw [mem_singleton.mp isNew]
      exact isReader
  · intro inbox inboxEq
    rw [sameDelivered, posts.received] at inboxEq
    exact piped inbox inboxEq

theorem respond_singleton (disk : Disk) (requesterTid : Nat) (status : ReadStatus) :
    disk.respond [(requesterTid, status)] = disk.threads.perform
      (.sendMessage requesterTid ⟨disk.dispatcherTid, .readResponse status⟩) := by
  simp only [respond, foldlM_cons, foldlM_nil, bind_pure]

theorem Sound.advance {answer : ReadStatus} (sound : disk.Sound reads)
    (called : disk.Calls reads (.advance answer))
    (performed : disk.perform (.advance answer) = .ok next) : next.Sound reads := by
  obtain ⟨threads, dispatcherTid, ⟨current, pending⟩, phase, started, calls, inFlight, outcomes,
    answered, returned⟩ := disk
  have slot := sound.slot
  have piped := sound.pipeline
  cases phase with
  | receiving => exact absurd rfl called.2
  | handling message =>
    have current_eq : current = inFlight.map fun read => ⟨read.requesterTid⟩ := slot
    rcases message with request | status | status
    · cases inFlight with
      | none =>
        subst current_eq
        cases performed
        exact sound.moved (List.Perm.refl _) ⟨rfl, rfl⟩ piped
      | some read =>
        subst current_eq
        cases performed
        refine sound.moved ?_ rfl piped
        exact List.Perm.cons read (perm_append_singleton request pending).symm
    · cases inFlight with
      | none =>
        obtain ⟨inbox, inboxEq⟩ := sound.threads.recorded.ordered dispatcherTid
        obtain ⟨rest, -, impossible⟩ := piped inbox inboxEq.symm
        cases impossible.of_none.2.1
      | some read =>
        subst current_eq
        cases performed
        exact sound.moved (List.Perm.refl _) ⟨rfl, rfl⟩ piped
    · cases performed
      exact sound.moved (List.Perm.refl _) slot piped
  | answering request status =>
    obtain ⟨rfl, isRequest⟩ := slot
    cases inFlight with
    | none => cases isRequest
    | some read =>
      obtain ⟨after, sent, isNext⟩ := bind_eq_ok.mp performed
      have sameTid : read.requesterTid = request.requesterTid := Option.some.inj isRequest
      cases isNext
      refine sound.answers ?_ (List.Perm.refl _) ⟨rfl, rfl⟩ piped.answer
      rw [← sent, sameTid]
      exact (respond_singleton _ _ _).symm
  | dequeuing =>
    obtain ⟨rfl, rfl⟩ := slot
    cases pending with
    | nil =>
      cases performed
      exact sound.moved (List.Perm.refl _) rfl piped
    | cons first rest =>
      cases performed
      exact sound.moved (List.Perm.refl _) ⟨rfl, rfl⟩ piped
  | issuing request =>
    obtain ⟨rfl, rfl⟩ := slot
    cases answer with
    | ok value =>
      cases performed
      exact sound.moved (List.Perm.refl _) rfl piped.accept
    | error error =>
      cases performed
      exact sound.moved (List.Perm.refl _) ⟨rfl, rfl⟩ (piped.refuse error)
  | refusing request error =>
    obtain ⟨rfl, rfl⟩ := slot
    obtain ⟨after, sent, isNext⟩ := bind_eq_ok.mp performed
    cases isNext
    refine sound.answers ?_ (List.Perm.refl _) rfl piped.answerRefused
    rw [← sent]
    exact (respond_singleton _ _ _).symm

theorem Sound.step {action : Action} (sound : disk.Sound reads)
    (called : disk.Calls reads action) (performed : disk.perform action = .ok next) :
    next.Sound reads := by
  cases action with
  | other operation => exact sound.other called performed
  | readBlocks lba buffer => exact sound.readBlocks called performed
  | awaitResponse => exact sound.awaitResponse called performed
  | receive => exact sound.receive called performed
  | advance answer => exact sound.advance called performed
  | complete request status => exact sound.complete called performed

theorem sound_spawn (reached : Threads.Reachable threads) (called : threads.Calls .newThread)
    (quiet : ∀ threadId, reads threadId → threads.delivered threadId = [])
    (spawned : spawnDispatcher threads = .ok disk) (apart : ¬ reads disk.dispatcherTid) :
    disk.Sound reads := by
  have recorded := reached.sound.recorded
  obtain ⟨created, isCreated, rest⟩ := bind_eq_ok.mp spawned
  obtain ⟨added, isAdded, isDisk⟩ := bind_eq_ok.mp rest
  have createdSound := (reached.sound.advances called).2 _ isCreated
  cases isCreated
  have addedSound := (createdSound.advances mem_cons_self).2 _ isAdded
  cases isAdded
  cases isDisk
  obtain ⟨-, noneDelivered, noneReceived⟩ :=
    recorded.unused threads.kernel.manager.nextId (Or.inl (Nat.le_refl _))
  refine ⟨addedSound, Nat.pos_iff_ne_zero.mp recorded.positive, apart, ?_, ?_, ?_, ?_, ?_, ?_, ?_,
    ?_, rfl, ?_⟩
  · exact Option.isSome_iff_exists.mpr ⟨_, update_self _ _ _⟩
  · intro threadId request isCalling
    cases isCalling
  · intro threadId
    change (requests (threads.delivered threads.kernel.manager.nextId)).filter _ = []
    rw [noneDelivered]
    rfl
  · change (requests (threads.received threads.kernel.manager.nextId)).Perm []
    rw [noneReceived]
    exact List.Perm.refl _
  · intro threadId isReader
    exact quiet threadId isReader
  · intro threadId isReader
    have ordered := recorded.ordered threadId
    rw [quiet threadId isReader] at ordered
    exact prefix_nil.mp ordered
  · exact fun threadId => nil_prefix
  · intro outcome member
    cases member
  · intro inbox inboxEq
    have empty : inbox = [] := by
      rw [noneDelivered, noneReceived] at inboxEq
      exact inboxEq.symm
    subst empty
    exact ⟨[], rfl, Pipeline.free⟩

end Disk

theorem Runs.sound {reads : Nat → Prop} {disk : Disk} (reached : Runs reads disk) :
    disk.Sound reads := by
  induction reached with
  | spawn reached called quiet spawned apart =>
    exact Disk.sound_spawn reached called quiet spawned apart
  | step _ action called performed ih => exact ih.step called performed

/-- In every state of a run the requests handled by the dispatcher are those
answered, the one in flight, the one in hand and those pending, and between
messages none is in hand.  Each answered request caused one response, to its
requester and with the outcome of its own read, and each call of `read_blocks`
that has returned returned that outcome. -/
theorem one_answer_per_request {reads : Nat → Prop} {disk : Disk} (reached : Runs reads disk) :
    disk.handled.Perm
      (disk.answered.map Prod.fst ++
        (disk.inFlight.toList ++ disk.phase.held ++ disk.dispatcher.pending)) ∧
    (disk.phase = .receiving → disk.phase.held = [] ∧
      disk.dispatcher.request = disk.inFlight.map fun read => ⟨read.requesterTid⟩) ∧
    disk.answered <+: disk.outcomes ∧
    (∀ outcome ∈ disk.answered, reads outcome.1.requesterTid) ∧
    (∀ threadId, reads threadId →
      disk.threads.delivered threadId = (disk.answeredTo threadId).map disk.response) ∧
    ∀ threadId, disk.returned threadId <+: disk.answeredTo threadId := by
  have sound := reached.sound
  refine ⟨sound.conserved, ?_, ?_, sound.readers, sound.responses, sound.matched⟩
  · intro isReceiving
    have slot := sound.slot
    rw [isReceiving] at slot ⊢
    exact ⟨rfl, slot⟩
  · obtain ⟨inbox, inboxEq⟩ := sound.threads.recorded.ordered disk.dispatcherTid
    obtain ⟨rest, outcomesEq, -⟩ := sound.pipeline inbox inboxEq.symm
    rw [outcomesEq, append_assoc]
    exact prefix_append _ _

section SingleReader

private def block : Buffer := ⟨0x80400000, 512⟩

private def firstRead : PendingRequest := ⟨7, block, 1⟩

/-- Thread 1 creates the disk and calls `read_blocks`, the read fails at the
device, and the call returns. -/
private theorem failedRead_runs :
    ∃ disk, Runs (· = 1) disk ∧ disk.returned 1 = [(firstRead, .error .timeout)] := by
  have booted : Threads.Reachable (System.boot : System BlockMessage) := Threads.Reachable.boot
  have created := booted.step .newThread (by decide : 1 + 1 < 2 ^ 64) rfl
  have added := created.step (.add ⟨1, .ready, []⟩) mem_cons_self rfl
  have withIdle := added.step .setIdleThread rfl rfl
  have started := withIdle.step .startScheduler rfl rfl
  have spawned : Runs (· = 1) _ := Runs.spawn started (by decide : 2 + 1 < 2 ^ 64)
    (by rintro _ rfl; rfl) rfl (by decide)
  have called := spawned.step (.readBlocks 7 block) ⟨1, rfl, rfl, rfl, rfl⟩ rfl
  have taken := called.step .receive ⟨rfl, rfl⟩ rfl
  have issuing := taken.step (.advance (.ok ())) ⟨rfl, by rintro ⟨⟩⟩ rfl
  have issued := issuing.step (.advance (.ok ())) ⟨rfl, by rintro ⟨⟩⟩ rfl
  have parked := issued.step .receive ⟨rfl, rfl⟩ rfl
  have waiting := parked.step .awaitResponse ⟨1, rfl, rfl⟩ rfl
  have completed := waiting.step (.complete firstRead (.error .timeout)) mem_cons_self rfl
  have woken := completed.step (.other .scheduleIfReady) ⟨rfl, trivial⟩ rfl
  have noticed := woken.step .receive ⟨rfl, rfl⟩ rfl
  have answering := noticed.step (.advance (.ok ())) ⟨rfl, by rintro ⟨⟩⟩ rfl
  have answered := answering.step (.advance (.ok ())) ⟨rfl, by rintro ⟨⟩⟩ rfl
  have finished := answered.step (.advance (.ok ())) ⟨rfl, by rintro ⟨⟩⟩ rfl
  have yielded := finished.step .receive ⟨rfl, rfl⟩ rfl
  have returned := yielded.step .awaitResponse ⟨1, rfl, rfl⟩ rfl
  exact ⟨_, returned, rfl⟩

/-- The call of thread 1 returned the status of its own completion. -/
theorem failedRead_answered :
    ∃ disk, Runs (· = 1) disk ∧ disk.returned 1 = [(firstRead, .error .timeout)] ∧
      disk.returned 1 <+: disk.answeredTo 1 ∧ disk.answered <+: disk.outcomes := by
  obtain ⟨disk, runs, returned⟩ := failedRead_runs
  obtain ⟨-, -, outcomes, -, -, matched⟩ := one_answer_per_request runs
  exact ⟨disk, runs, returned, matched 1, outcomes⟩

end SingleReader

end NanoOs.BlockDisk
