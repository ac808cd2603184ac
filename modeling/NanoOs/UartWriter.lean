import NanoOs.SpscRing
import NanoOs.ThreadRuns

/-!
# The UART writer thread

Write requests are messages to the writer thread.  It pushes their bytes into a
ring buffer, from which the writer and the TX interrupt handler fill the FIFO of
the UART.  The writer blocks when it has no request and when the ring buffer is
full.  A step of the writer goes from one push, flag test or blocking call to the
next; interrupts are taken when the writer is not the running thread.
-/

namespace NanoOs

open Threads

namespace UartWriter

def txRingSize : Nat := 1024

def txFifoSize : Nat := 16

def carriageReturn : UInt8 := 0x0d
def lineFeed : UInt8 := 0x0a

/-- The ring buffer, the flag and the interrupt enable bit of the TX pump, and
the bytes written to the FIFO so far. -/
structure Pump where
  ring : SpscRing txRingSize
  txActive : Bool
  interruptEnabled : Bool
  fifo : List UInt8

namespace Pump

def new : Pump where
  ring := SpscRing.new (by decide)
  txActive := false
  interruptEnabled := false
  fifo := []

def enableTxInterrupt (pump : Pump) : Pump :=
  { pump with interruptEnabled := true }

def disableTxInterrupt (pump : Pump) : Pump :=
  { pump with interruptEnabled := false }

/-- The loop of `drain_ring_to_fifo`, for some more bytes. -/
def drainLoop : Nat → Pump → Pump
  | 0, pump =>
      if pump.ring.isEmpty then pump else { pump with txActive := true }.enableTxInterrupt
  | count + 1, pump =>
      match pump.ring.pop with
      | (some byte, ring) => drainLoop count { pump with ring := ring, fifo := pump.fifo ++ [byte] }
      | (none, ring) => { pump with ring := ring, txActive := false }.disableTxInterrupt

def drainRingToFifo (pump : Pump) : Pump :=
  drainLoop txFifoSize pump

end Pump

/-- Where `write_data` goes on: at the top of its loop, or at the line feed
before what remains. -/
inductive Resume
  | loop (remaining : List UInt8)
  | newline (remaining : List UInt8)

/-- Where the writer is: in `receive_message`, in `write_data`, or in one of the
loops of `push_slice_blocking`, with what is left to push. -/
inductive Phase
  | receive
  | write (resume : Resume)
  | push (remaining : List UInt8) (resume : Resume)
  | wait (remaining : List UInt8) (resume : Resume)

/-- The threads, the pump, the flags that the writer and the interrupt handler
share, and where the writer is. -/
structure Console where
  threads : System (List UInt8)
  writerThreadId : Nat
  pump : Pump
  waitingForSpace : Bool
  bufferSpaceAvailable : Bool
  phase : Phase

/-- `init`: the writer thread is created, its identifier published, and the
thread added. -/
def init (threads : System (List UInt8)) : Checked Console := do
  let (thread, _) := threads.kernel.newThread
  let threads ← threads.perform .newThread
  let threads ← threads.perform (.add thread)
  .ok
    { threads := threads
      writerThreadId := thread.id
      pump := Pump.new
      waitingForSpace := false
      bufferSpaceAvailable := false
      phase := .receive }

/-- A turn of the loop of `write_data` over what remains. -/
def writeTurn (remaining : List UInt8) : Phase :=
  let newlinePos := remaining.findIdx? (· == lineFeed)
  let chunkEnd := newlinePos.getD remaining.length
  let resume : Resume :=
    match newlinePos with
    | some _ => .newline (remaining.drop (chunkEnd + 1))
    | none => .loop []
  if 0 < chunkEnd then .push (remaining.take chunkEnd) resume else .write resume

namespace Console

/-- A turn of the loop of `push_slice_blocking`. -/
def pushTurn (console : Console) (remaining : List UInt8) (resume : Resume) : Console :=
  let (pushed, ring) := console.pump.ring.pushSlice remaining
  let pump := { console.pump with ring := ring }
  if pushed = 0 then
    { console with
      pump := { pump with txActive := true }.enableTxInterrupt
      bufferSpaceAvailable := false
      waitingForSpace := true
      phase := .wait remaining resume }
  else
    { console with pump := pump, phase := .push (remaining.drop pushed) resume }

def advance (console : Console) : Checked Console :=
  match console.phase with
  | .receive => do
      let (message, _) ← console.threads.kernel.receiveMessage
      let threads ← console.threads.perform .receiveMessage
      match message with
      | some message =>
          .ok { console with threads := threads, phase := .write (.loop message.data) }
      | none => .ok { console with threads := threads }
  | .write (.loop []) =>
      .ok { console with pump := console.pump.drainRingToFifo, phase := .receive }
  | .write (.loop (byte :: rest)) => .ok { console with phase := writeTurn (byte :: rest) }
  | .write (.newline remaining) =>
      .ok { console with phase := .push [carriageReturn, lineFeed] (.loop remaining) }
  | .push [] resume => .ok { console with phase := .write resume }
  | .push (byte :: rest) resume => .ok (console.pushTurn (byte :: rest) resume)
  | .wait remaining resume =>
      if console.bufferSpaceAvailable then
        .ok { console with waitingForSpace := false, phase := .push remaining resume }
      else do
        let threads ← console.threads.perform .blockNow
        .ok { console with threads := threads }

def notifyTxReady (console : Console) : Checked Console :=
  let console := { console with pump := console.pump.drainRingToFifo }
  if console.waitingForSpace then do
    let threads ← console.threads.perform (.wakeThread console.writerThreadId)
    .ok { console with
      threads := threads
      waitingForSpace := false
      bufferSpaceAvailable := true }
  else .ok console

end Console

/-- What can happen: an operation on threads other than a step of the writer
(`send_write` is one, sending an urgent message), a step of the writer, and a TX
interrupt. -/
inductive Action
  | other (operation : Operation (List UInt8))
  | writer
  | txInterrupt

namespace Console

def perform (console : Console) : Action → Checked Console
  | .other operation => do
      let threads ← console.threads.perform operation
      .ok { console with threads := threads }
  | .writer => console.advance
  | .txInterrupt => console.notifyTxReady

/-- Operations of the running thread are those of other threads than the
writer. -/
def Outside (console : Console) : Operation (List UInt8) → Prop
  | .yieldNow | .blockNow | .exit | .receiveMessage | .sendMessageUrgent _ _ =>
      console.threads.kernel.current ≠ .thread console.writerThreadId
  | _ => True

def Calls (console : Console) : Action → Prop
  | .other operation => console.threads.Calls operation ∧ console.Outside operation
  | .writer => console.threads.kernel.current = .thread console.writerThreadId
  | .txInterrupt => console.threads.kernel.current ≠ .thread console.writerThreadId

end Console

inductive Runs : Console → Prop
  | init {threads : System (List UInt8)} {console : Console} (reached : Threads.Reachable threads)
      (called : threads.Calls .newThread) (created : init threads = .ok console) : Runs console
  | step {console next : Console} (reached : Runs console) (action : Action)
      (called : console.Calls action) (performed : console.perform action = .ok next) : Runs next

end UartWriter

end NanoOs
