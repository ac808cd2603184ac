import NanoOs.BlockDispatcher
import NanoOs.ThreadMail

/-!
# The block disk

The threads that call `read_blocks`, the dispatcher thread and the device, over
the kernel's threads and inboxes.  The driver may refuse a read; each read it
accepts it completes once.  Any other operation of the kernel may come between,
as long as it sends nothing to the dispatcher or to a thread that reads.  The
run is recorded: the read in flight, what became of each read at the device,
the responses sent, and what each call returned.
-/

namespace NanoOs.BlockDisk

open Threads (System Operation Message Current)

abbrev Outcome := PendingRequest × ReadStatus

structure Disk where
  threads : System BlockMessage
  dispatcherTid : Nat
  dispatcher : Dispatcher
  phase : Phase
  started : List PendingRequest
  calls : Nat → Option PendingRequest
  inFlight : Option PendingRequest
  outcomes : List Outcome
  answered : List Outcome
  returned : Nat → List Outcome

inductive Action
  | other (operation : Operation BlockMessage)
  | readBlocks (lba : Nat) (buffer : Buffer)
  | awaitResponse
  | receive
  | advance (answer : ReadStatus)
  | complete (request : PendingRequest) (status : ReadStatus)

/-- `spawn_dispatcher`: the dispatcher thread is created, its identifier
published, and the thread added. -/
def spawnDispatcher (threads : System BlockMessage) : Checked Disk := do
  let (thread, _) := threads.kernel.newThread
  let threads ← threads.perform .newThread
  let threads ← threads.perform (.add thread)
  .ok
    { threads := threads
      dispatcherTid := thread.id
      dispatcher := Dispatcher.initial
      phase := .receiving
      started := []
      calls := fun _ => none
      inFlight := none
      outcomes := []
      answered := []
      returned := fun _ => [] }

/-- One iteration of the loop of `receive_message`, with what it returned. -/
def receiveMessage (threads : System BlockMessage) :
    Checked (Option (Message BlockMessage) × System BlockMessage) := do
  let (message, _) ← threads.kernel.receiveMessage
  let threads ← threads.perform .receiveMessage
  .ok (message, threads)

/-- What `read_blocks` returns for the message it receives. -/
def responseStatus : BlockMessage → ReadStatus
  | .readResponse status => status
  | _ => .error .ioError

namespace Disk

def requestReadBlock (disk : Disk) (request : PendingRequest) : Checked (System BlockMessage) :=
  if disk.dispatcherTid ≠ 0 then
    disk.threads.perform
      (.sendMessageUrgent disk.dispatcherTid ⟨request.requesterTid, .readRequest request⟩)
  else
    .ok disk.threads

def sendReadCompletion (disk : Disk) (status : ReadStatus) : Checked (System BlockMessage) :=
  if disk.dispatcherTid ≠ 0 then
    disk.threads.perform (.sendMessage disk.dispatcherTid ⟨0, .readComplete status⟩)
  else
    .ok disk.threads

def respond (disk : Disk) (sent : List (Nat × ReadStatus)) : Checked (System BlockMessage) :=
  sent.foldlM
    (fun threads (requesterTid, status) =>
      threads.perform (.sendMessage requesterTid ⟨disk.dispatcherTid, .readResponse status⟩))
    disk.threads

def note (disk : Disk) (answer : ReadStatus) : Disk :=
  match disk.phase, answer with
  | .answering _ status, _ =>
      { disk with
        inFlight := none
        answered := disk.answered ++ disk.inFlight.toList.map fun request => (request, status) }
  | .refusing request error, _ =>
      { disk with answered := disk.answered ++ [(request, .error error)] }
  | .issuing request, .ok () =>
      { disk with inFlight := some request, started := disk.started ++ [request] }
  | .issuing request, .error error =>
      { disk with outcomes := disk.outcomes ++ [(request, .error error)] }
  | _, _ => disk

def perform (disk : Disk) : Action → Checked Disk
  | .other operation => do
      let threads ← disk.threads.perform operation
      .ok { disk with threads := threads }
  | .readBlocks lba buffer => do
      let requesterTid ← disk.threads.kernel.currentId
      let request : PendingRequest := ⟨lba % 2 ^ 32, buffer, requesterTid⟩
      let threads ← disk.requestReadBlock request
      .ok { disk with
        threads := threads
        calls := Function.update disk.calls requesterTid (some request) }
  | .awaitResponse => do
      let requesterTid ← disk.threads.kernel.currentId
      match ← receiveMessage disk.threads with
      | (some message, threads) =>
          let results := (disk.calls requesterTid).toList.map fun request =>
            (request, responseStatus message.data)
          .ok { disk with
            threads := threads
            calls := Function.update disk.calls requesterTid none
            returned :=
              Function.update disk.returned requesterTid (disk.returned requesterTid ++ results) }
      | (none, threads) => .ok { disk with threads := threads }
  | .receive => do
      match ← receiveMessage disk.threads with
      | (some message, threads) =>
          .ok { disk with threads := threads, phase := .handling message.data }
      | (none, threads) => .ok { disk with threads := threads }
  | .advance answer => do
      let (dispatcher, phase, effects) := disk.dispatcher.advance disk.phase answer
      let threads ← disk.respond effects.sent
      .ok { disk.note answer with threads := threads, dispatcher := dispatcher, phase := phase }
  | .complete request status => do
      let threads ← disk.sendReadCompletion status
      .ok { disk with
        threads := threads
        started := disk.started.erase request
        outcomes := disk.outcomes ++ [(request, status)] }

/-- An operation that leaves the disk alone: it sends nothing to the dispatcher
or to a thread that reads, and neither the dispatcher nor a thread inside
`read_blocks` exits or receives by it. -/
def Outside (disk : Disk) (reads : Nat → Prop) : Operation BlockMessage → Prop
  | .sendMessage targetId _ | .sendMessageUrgent targetId _ =>
      targetId ≠ disk.dispatcherTid ∧ ¬ reads targetId
  | .exit | .receiveMessage =>
      ∀ threadId, disk.threads.kernel.current = .thread threadId →
        threadId ≠ disk.dispatcherTid ∧ disk.calls threadId = none
  | _ => True

def Calls (disk : Disk) (reads : Nat → Prop) : Action → Prop
  | .other operation => disk.threads.Calls operation ∧ disk.Outside reads operation
  | .readBlocks _ _ => ∃ threadId, disk.threads.kernel.current = .thread threadId ∧
      disk.threads.receiving threadId = false ∧ reads threadId ∧ disk.calls threadId = none
  | .awaitResponse => ∃ threadId, disk.threads.kernel.current = .thread threadId ∧
      (disk.calls threadId).isSome = true
  | .receive => disk.threads.kernel.current = .thread disk.dispatcherTid ∧
      disk.phase = .receiving
  | .advance _ => disk.threads.kernel.current = .thread disk.dispatcherTid ∧
      disk.phase ≠ .receiving
  | .complete request _ => request ∈ disk.started

end Disk

/-- The states reached once the disk is created, if the threads that read
receive nothing but responses. -/
inductive Runs (reads : Nat → Prop) : Disk → Prop
  | spawn {threads : System BlockMessage} {disk : Disk} (reached : Threads.Reachable threads)
      (called : threads.Calls .newThread)
      (quiet : ∀ threadId, reads threadId → threads.delivered threadId = [])
      (spawned : spawnDispatcher threads = .ok disk) (apart : ¬ reads disk.dispatcherTid) :
      Runs reads disk
  | step {disk next : Disk} (reached : Runs reads disk) (action : Action)
      (called : disk.Calls reads action) (performed : disk.perform action = .ok next) :
      Runs reads next

end NanoOs.BlockDisk
