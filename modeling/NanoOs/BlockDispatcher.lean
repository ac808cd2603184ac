import Mathlib.Data.List.Basic

/-!
# The block dispatcher

The thread that owns a block driver.  It keeps at most one read in flight,
queues further requests, and answers each requester.  The driver is left open:
every call of `start_read` is given its answer.
-/

namespace NanoOs.BlockDisk

inductive BlockError
  | timeout
  | ioError
  | invalidInput
  deriving Repr, DecidableEq

abbrev ReadStatus := Except BlockError Unit

structure Buffer where
  address : Nat
  length : Nat
  deriving Repr, DecidableEq

structure PendingRequest where
  sector : Nat
  buffer : Buffer
  requesterTid : Nat
  deriving Repr, DecidableEq

inductive BlockMessage
  | readRequest (request : PendingRequest)
  | readComplete (status : ReadStatus)
  | readResponse (status : ReadStatus)

structure Request where
  requesterTid : Nat
  deriving Repr, DecidableEq

/-- The slot `REQUEST` and the queue of the main loop. -/
structure Dispatcher where
  request : Option Request
  pending : List PendingRequest
  deriving Repr, DecidableEq

/-- What handling one message does besides changing the dispatcher: the reads
started on the driver and the responses sent. -/
structure Effects where
  started : List PendingRequest
  sent : List (Nat × ReadStatus)

def Effects.none : Effects := ⟨[], []⟩

namespace Dispatcher

def initial : Dispatcher := ⟨.none, []⟩

/-- Issue a read, with the driver's answer to `start_read`. -/
def issueRead (dispatcher : Dispatcher) (request : PendingRequest) (answer : ReadStatus) :
    Dispatcher × Effects :=
  match answer with
  | .ok () => ({ dispatcher with request := some ⟨request.requesterTid⟩ }, ⟨[request], []⟩)
  | .error error => (dispatcher, ⟨[request], [(request.requesterTid, .error error)]⟩)

/-- One turn of the main loop.  At most one read is issued, whose answer is
given. -/
def handle (dispatcher : Dispatcher) (message : BlockMessage) (answer : ReadStatus) :
    Dispatcher × Effects :=
  match message with
  | .readRequest request =>
      if dispatcher.request.isSome then
        ({ dispatcher with pending := dispatcher.pending ++ [request] }, .none)
      else
        dispatcher.issueRead request answer
  | .readComplete status =>
      match dispatcher.request with
      | some current =>
          let response := (current.requesterTid, status)
          match dispatcher.pending with
          | next :: rest =>
              let (after, effects) := issueRead ⟨.none, rest⟩ next answer
              (after, { effects with sent := response :: effects.sent })
          | [] => (⟨.none, []⟩, ⟨[], [response]⟩)
      | .none => (dispatcher, .none)
  | .readResponse _ => (dispatcher, .none)

end Dispatcher

/-- Where the dispatcher thread stands in its main loop.  It prints between
these points, and printing can yield to other threads. -/
inductive Phase
  | receiving
  | handling (message : BlockMessage)
  | answering (current : Request) (status : ReadStatus)
  | dequeuing
  | issuing (request : PendingRequest)
  | refusing (request : PendingRequest) (error : BlockError)

namespace Dispatcher

/-- The main loop from one such point to the next, with the driver's answer if
a read is issued. -/
def advance (dispatcher : Dispatcher) (phase : Phase) (answer : ReadStatus) :
    Dispatcher × Phase × Effects :=
  match phase with
  | .receiving => (dispatcher, .receiving, .none)
  | .handling (.readRequest request) =>
      if dispatcher.request.isSome then
        ({ dispatcher with pending := dispatcher.pending ++ [request] }, .receiving, .none)
      else
        (dispatcher, .issuing request, .none)
  | .handling (.readComplete status) =>
      match dispatcher.request with
      | some current => ({ dispatcher with request := .none }, .answering current status, .none)
      | .none => (dispatcher, .receiving, .none)
  | .handling (.readResponse _) => (dispatcher, .receiving, .none)
  | .answering current status => (dispatcher, .dequeuing, ⟨[], [(current.requesterTid, status)]⟩)
  | .dequeuing =>
      match dispatcher.pending with
      | next :: rest => ({ dispatcher with pending := rest }, .issuing next, .none)
      | [] => (dispatcher, .receiving, .none)
  | .issuing request =>
      match answer with
      | .ok () =>
          ({ dispatcher with request := some ⟨request.requesterTid⟩ }, .receiving, ⟨[request], []⟩)
      | .error error => (dispatcher, .refusing request error, ⟨[request], []⟩)
  | .refusing request error =>
      (dispatcher, .receiving, ⟨[], [(request.requesterTid, .error error)]⟩)

/-- Several moves of the main loop, with their effects in order. -/
def turn (answer : ReadStatus) : Nat → Dispatcher → Phase → Dispatcher × Phase × Effects
  | 0, dispatcher, phase => (dispatcher, phase, .none)
  | moves + 1, dispatcher, phase =>
      let (next, nextPhase, effects) := dispatcher.advance phase answer
      let (last, lastPhase, later) := turn answer moves next nextPhase
      (last, lastPhase, ⟨effects.started ++ later.started, effects.sent ++ later.sent⟩)

/-- Moved along without interruption, the main loop handles a message as
`handle` does. -/
theorem turn_eq_handle (dispatcher : Dispatcher) (message : BlockMessage) (answer : ReadStatus) :
    dispatcher.turn answer 5 (.handling message) =
      ((dispatcher.handle message answer).1, .receiving, (dispatcher.handle message answer).2) := by
  obtain ⟨slot, pending⟩ := dispatcher
  rcases message with request | status | status
  · rcases slot with _ | current <;> rcases answer with _ | _ <;> rfl
  · rcases slot with _ | current <;> rcases pending with _ | ⟨next, rest⟩ <;>
      rcases answer with _ | _ <;> rfl
  · rfl

end Dispatcher

/-- A run of the main loop: the dispatcher, the requests in order of arrival,
and the requests in the order in which they were started. -/
structure Service where
  dispatcher : Dispatcher
  arrived : List PendingRequest
  started : List PendingRequest

namespace Service

def initial : Service := ⟨Dispatcher.initial, [], []⟩

def arrival : BlockMessage → List PendingRequest
  | .readRequest request => [request]
  | _ => []

def serve (service : Service) (message : BlockMessage) (answer : ReadStatus) : Service :=
  let (dispatcher, effects) := service.dispatcher.handle message answer
  { dispatcher := dispatcher
    arrived := service.arrived ++ arrival message
    started := service.started ++ effects.started }

/-- The states after each message, the first one included. -/
def trace (service : Service) : List (BlockMessage × ReadStatus) → List Service
  | [] => [service]
  | (message, answer) :: rest => service :: (service.serve message answer).trace rest

/-- No request waits while the device is free, and reads have been started in
order of arrival. -/
def Orderly (service : Service) : Prop :=
  (service.dispatcher.pending ≠ [] → service.dispatcher.request.isSome = true) ∧
    service.started <+: service.arrived

/-- When a completion lets the first waiting request go ahead of another one,
the driver accepts it. -/
def Accepts (service : Service) (message : BlockMessage) (answer : ReadStatus) : Prop :=
  match message, service.dispatcher.request, service.dispatcher.pending with
  | .readComplete _, some _, _ :: _ :: _ => answer = .ok ()
  | _, _, _ => True

def AcceptsAll (service : Service) : List (BlockMessage × ReadStatus) → Prop
  | [] => True
  | (message, answer) :: rest =>
      service.Accepts message answer ∧ (service.serve message answer).AcceptsAll rest

/-- What holds in orderly runs: the arrivals are the started requests followed
by the waiting ones. -/
structure Queued (service : Service) : Prop where
  arrivals : service.arrived = service.started ++ service.dispatcher.pending
  busy : service.dispatcher.pending ≠ [] → service.dispatcher.request.isSome = true

variable {service : Service} {message : BlockMessage} {answer : ReadStatus}

theorem queued_initial : initial.Queued :=
  ⟨rfl, fun waiting => absurd rfl waiting⟩

theorem mem_trace_self (service : Service) (steps : List (BlockMessage × ReadStatus)) :
    service ∈ service.trace steps := by
  cases steps with
  | nil => exact List.mem_singleton_self service
  | cons step rest => exact List.mem_cons_self

theorem Queued.orderly (queued : service.Queued) : service.Orderly :=
  ⟨queued.busy, queued.arrivals ▸ List.prefix_append _ _⟩

/-- Issuing a read with an empty queue behind it, or one the driver accepts,
keeps the arrivals in order. -/
theorem queued_issueRead {arrived started : List PendingRequest} {request : PendingRequest}
    {rest : List PendingRequest} (arrivals : arrived = started ++ request :: rest)
    (accepted : rest ≠ [] → answer = .ok ()) :
    Queued
      { dispatcher := (Dispatcher.issueRead ⟨none, rest⟩ request answer).1
        arrived := arrived
        started := started ++ (Dispatcher.issueRead ⟨none, rest⟩ request answer).2.started } := by
  subst arrivals
  cases answer with
  | ok value => exact ⟨by simp [Dispatcher.issueRead], fun _ => rfl⟩
  | error error =>
    have empty : rest = [] := by
      by_contra waiting
      cases accepted waiting
    subst empty
    exact ⟨by simp [Dispatcher.issueRead], fun waiting => absurd rfl waiting⟩

theorem Queued.serve (queued : service.Queued) (accepts : service.Accepts message answer) :
    (service.serve message answer).Queued := by
  obtain ⟨⟨current, pending⟩, arrived, started⟩ := service
  obtain ⟨arrivals, busy⟩ := queued
  dsimp only at arrivals busy
  cases message with
  | readRequest request =>
    cases current with
    | some current =>
      refine ⟨?_, fun _ => rfl⟩
      simp [Service.serve, Dispatcher.handle, arrival, arrivals, Effects.none]
    | none =>
      have empty : pending = [] := by
        by_contra waiting
        cases busy waiting
      subst empty
      exact queued_issueRead (by simp [arrivals, arrival]) (fun waiting => absurd rfl waiting)
  | readComplete status =>
    cases current with
    | none =>
      refine ⟨?_, busy⟩
      simp [Service.serve, Dispatcher.handle, arrival, arrivals, Effects.none]
    | some current =>
      cases pending with
      | nil =>
        refine ⟨?_, fun waiting => absurd rfl waiting⟩
        simp [Service.serve, Dispatcher.handle, arrival, arrivals]
      | cons next rest =>
        refine queued_issueRead (by simp [arrivals, arrival]) ?_
        intro waiting
        cases rest with
        | nil => exact absurd rfl waiting
        | cons _ _ => exact accepts
  | readResponse status =>
    refine ⟨?_, busy⟩
    simp [Service.serve, Dispatcher.handle, arrival, arrivals, Effects.none]

/-- A refused read leaves the requests behind it waiting for a free device. -/
theorem not_orderly_of_refused (refused : ¬ service.Accepts message answer) :
    ¬ (service.serve message answer).Orderly := by
  obtain ⟨⟨current, pending⟩, arrived, started⟩ := service
  rcases message with request | status | status
  · exact absurd trivial refused
  · rcases current with _ | current
    · exact absurd trivial refused
    · rcases pending with _ | ⟨next, _ | ⟨second, rest⟩⟩
      · exact absurd trivial refused
      · exact absurd trivial refused
      · cases answer with
        | ok value => exact absurd rfl refused
        | error error =>
          intro orderly
          cases orderly.1 (List.cons_ne_nil second rest)
  · exact absurd trivial refused

theorem Queued.orderly_iff (queued : service.Queued)
    (steps : List (BlockMessage × ReadStatus)) :
    (∀ state ∈ service.trace steps, state.Orderly) ↔ service.AcceptsAll steps := by
  induction steps generalizing service with
  | nil => simpa [trace, AcceptsAll] using queued.orderly
  | cons step rest ih =>
    obtain ⟨message, answer⟩ := step
    simp only [trace, AcceptsAll, List.forall_mem_cons]
    constructor
    · rintro ⟨_, orderly⟩
      have accepts : service.Accepts message answer := by
        by_contra refused
        exact not_orderly_of_refused refused (orderly _ (mem_trace_self _ rest))
      exact ⟨accepts, (ih (queued.serve accepts)).mp orderly⟩
    · rintro ⟨accepts, acceptsRest⟩
      exact ⟨queued.orderly, (ih (queued.serve accepts)).mpr acceptsRest⟩

/-- A run of the dispatcher is orderly after every message exactly if the driver
never refuses a waiting read that other requests wait behind. -/
theorem orderly_iff_acceptsAll (steps : List (BlockMessage × ReadStatus)) :
    (∀ state ∈ initial.trace steps, state.Orderly) ↔ initial.AcceptsAll steps :=
  queued_initial.orderly_iff steps

def sectorRead (sector requesterTid : Nat) : PendingRequest :=
  ⟨sector, ⟨0x80400000, 512⟩, requesterTid⟩

/-- Three requests, then a completion after which the driver refuses the second
one, then a fourth request. -/
def strandingRun : List (BlockMessage × ReadStatus) :=
  [(.readRequest (sectorRead 1 11), .ok ()), (.readRequest (sectorRead 2 12), .ok ()),
    (.readRequest (sectorRead 3 13), .ok ()), (.readComplete (.ok ()), .error .ioError),
    (.readRequest (sectorRead 4 14), .ok ())]

/-- The third request is left waiting for a free device, and the fourth one
overtakes it. -/
theorem strandingRun_not_orderly :
    (∃ state ∈ initial.trace strandingRun,
      state.dispatcher.pending ≠ [] ∧ state.dispatcher.request = none) ∧
    ∃ state ∈ initial.trace strandingRun, ¬ state.started <+: state.arrived := by
  refine ⟨⟨_, .tail _ (.tail _ (.tail _ (.tail _ (.head _)))), by decide, rfl⟩, ?_⟩
  exact ⟨_, .tail _ (.tail _ (.tail _ (.tail _ (.tail _ (.head _))))), by decide⟩

end Service

end NanoOs.BlockDisk
