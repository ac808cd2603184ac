import NanoOs.CheckedArithmetic

/-!
# Kernel threads

The thread manager, the scheduler and the message operations.  A context
switch is modelled by the change of the current thread; registers, stacks and
user contexts are left out.  The word carried by a message is kept generic, so
that a boxed value stands for the address of its box.
-/

namespace NanoOs.Threads

inductive ThreadState
  | running
  | ready
  | blocked
  deriving Repr, DecidableEq

structure Message (Data : Type) where
  sender : Nat
  data : Data

structure Thread (Data : Type) where
  id : Nat
  state : ThreadState
  inbox : List (Message Data)

structure ThreadManager (Data : Type) where
  threadTable : Nat → Option (Thread Data)
  readyQueue : List Nat
  nextId : Nat

variable {Data : Type}

namespace ThreadManager

def new : ThreadManager Data where
  threadTable := fun _ => none
  readyQueue := []
  nextId := 1

def allocateThreadId (manager : ThreadManager Data) : Nat × ThreadManager Data :=
  (manager.nextId, { manager with nextId := (manager.nextId + 1) % 2 ^ 64 })

def setThread (manager : ThreadManager Data) (threadId : Nat) (thread : Thread Data) :
    ThreadManager Data :=
  { manager with threadTable := Function.update manager.threadTable threadId (some thread) }

def addThread (manager : ThreadManager Data) (thread : Thread Data) : ThreadManager Data :=
  manager.setThread thread.id thread

def getThread (manager : ThreadManager Data) (threadId : Nat) : Option (Thread Data) :=
  manager.threadTable threadId

def removeThread (manager : ThreadManager Data) (threadId : Nat) : ThreadManager Data :=
  { manager with threadTable := Function.update manager.threadTable threadId none }

def enqueueReady (manager : ThreadManager Data) (threadId : Nat) : ThreadManager Data :=
  { manager with readyQueue := manager.readyQueue ++ [threadId] }

def enqueueReadyFront (manager : ThreadManager Data) (threadId : Nat) : ThreadManager Data :=
  { manager with readyQueue := threadId :: manager.readyQueue }

def dequeueReady (manager : ThreadManager Data) : Option Nat × ThreadManager Data :=
  match manager.readyQueue with
  | [] => (none, manager)
  | threadId :: rest => (some threadId, { manager with readyQueue := rest })

/-- Write back a thread found in the table, waking it if it is blocked. -/
def wake (manager : ThreadManager Data)
    (enqueue : ThreadManager Data → Nat → ThreadManager Data) (threadId : Nat)
    (thread : Thread Data) : ThreadManager Data :=
  if thread.state = .blocked then
    enqueue (manager.setThread threadId { thread with state := .ready }) threadId
  else
    manager.setThread threadId thread

def deliver (manager : ThreadManager Data)
    (enqueue : ThreadManager Data → Nat → ThreadManager Data) (targetId : Nat)
    (message : Message Data) : ThreadManager Data :=
  match manager.getThread targetId with
  | some target =>
      manager.wake enqueue targetId { target with inbox := target.inbox ++ [message] }
  | none => manager

end ThreadManager

/-- What `CURRENT_THREAD` points to: nothing yet, the idle thread, or a thread
of the table. -/
inductive Current
  | null
  | idle
  | thread (id : Nat)
  deriving Repr, DecidableEq

/-- The thread manager, the current thread, and the state of the idle thread
once it is registered. -/
structure Kernel (Data : Type) where
  manager : ThreadManager Data
  current : Current
  idleThread : Option ThreadState

def noCurrentThread : Fault := .assertion "No current thread"

def threadNotFound : Fault := .assertion "Thread in ready queue not found"

def idleNotInitialized : Fault := .assertion "Idle thread not initialized"

namespace Kernel

/-- The identifier of `Thread::current()`. -/
def currentId (kernel : Kernel Data) : Checked Nat :=
  match kernel.current with
  | .null => .error noCurrentThread
  | .idle => .ok 0
  | .thread id => .ok id

/-- Assign the state of the thread `CURRENT_THREAD` points to. -/
def setCurrentState (kernel : Kernel Data) (state : ThreadState) : Kernel Data :=
  match kernel.current with
  | .null => kernel
  | .idle => { kernel with idleThread := some state }
  | .thread id =>
      match kernel.manager.getThread id with
      | some thread =>
          { kernel with manager := kernel.manager.setThread id { thread with state := state } }
      | none => kernel

def setIdleThread (kernel : Kernel Data) : Kernel Data :=
  { kernel with idleThread := some .ready }

/-- `Thread::new`: a thread with the next identifier, not yet in the table. -/
def newThread (kernel : Kernel Data) : Thread Data × Kernel Data :=
  let (threadId, manager) := kernel.manager.allocateThreadId
  (⟨threadId, .ready, []⟩, { kernel with manager := manager })

def add (kernel : Kernel Data) (thread : Thread Data) : Kernel Data :=
  { kernel with manager := (kernel.manager.addThread thread).enqueueReady thread.id }

def enterIdle (kernel : Kernel Data) : Checked (Kernel Data) :=
  match kernel.idleThread with
  | none => .error idleNotInitialized
  | some _ => .ok { kernel with idleThread := some .running, current := .idle }

def schedule (kernel : Kernel Data) : Checked (Kernel Data) :=
  match kernel.manager.dequeueReady with
  | (some nextId, manager) =>
      match manager.getThread nextId with
      | some thread =>
          .ok { kernel with
            manager := manager.setThread nextId { thread with state := .running }
            current := .thread nextId }
      | none => .error threadNotFound
  | (none, manager) => enterIdle { kernel with manager := manager }

def startScheduler (kernel : Kernel Data) : Checked (Kernel Data) := kernel.schedule

def scheduleIfReady (kernel : Kernel Data) : Checked (Kernel Data) :=
  if kernel.manager.readyQueue.isEmpty then .ok kernel else kernel.schedule

/-- `yield_impl` after the interrupt window. -/
def yieldImpl (kernel : Kernel Data) : Checked (Kernel Data) := do
  let currentId ← kernel.currentId
  let kernel := kernel.setCurrentState .ready
  schedule { kernel with manager := kernel.manager.enqueueReady currentId }

def exit (kernel : Kernel Data) : Checked (Kernel Data) := do
  let currentId ← kernel.currentId
  schedule { kernel with manager := kernel.manager.removeThread currentId }

def blockImpl (kernel : Kernel Data) : Checked (Kernel Data) := do
  let _ ← kernel.currentId
  schedule (kernel.setCurrentState .blocked)

def sendMessage (kernel : Kernel Data) (targetId : Nat) (message : Message Data) :
    Kernel Data :=
  { kernel with
    manager := kernel.manager.deliver ThreadManager.enqueueReady targetId message }

def wakeThread (kernel : Kernel Data) (targetId : Nat) : Kernel Data :=
  match kernel.manager.getThread targetId with
  | some target =>
      { kernel with
        manager := kernel.manager.wake ThreadManager.enqueueReady targetId target }
  | none => kernel

def sendMessageUrgentImpl (kernel : Kernel Data) (targetId : Nat) (message : Message Data) :
    Checked (Kernel Data) := do
  let currentId ← kernel.currentId
  let kernel := kernel.setCurrentState .ready
  let manager := kernel.manager.deliver ThreadManager.enqueueReadyFront targetId message
  schedule { kernel with manager := manager.enqueueReady currentId }

/-- One iteration of the loop of `receive_message`: take the first message, or
block and try again when rescheduled. -/
def receiveMessage (kernel : Kernel Data) : Checked (Option (Message Data) × Kernel Data) := do
  let currentId ← kernel.currentId
  match kernel.manager.getThread currentId with
  | some ⟨id, state, message :: rest⟩ =>
      .ok (some message,
        { kernel with manager := kernel.manager.setThread currentId ⟨id, state, rest⟩ })
  | _ => do
      let kernel ← kernel.blockImpl
      .ok (none, kernel)

end Kernel

end NanoOs.Threads
