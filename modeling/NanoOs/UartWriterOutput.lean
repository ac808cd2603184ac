import NanoOs.UartWriter
import NanoOs.ThreadMail

/-!
# The output of the UART writer

In every run the bytes in the FIFO, in the ring buffer, still to be pushed and
in the inbox of the writer are together what was requested, in order and with a
carriage return before each line feed.  A writer that waits for space is woken by
the next TX interrupt, and the interrupt is enabled while a blocked writer has
left bytes in the ring buffer.
-/

namespace NanoOs

open Threads List

namespace UartWriter

/-! ## What is requested -/

def crlf (data : List UInt8) : List UInt8 :=
  data.flatMap fun byte => if byte = lineFeed then [carriageReturn, lineFeed] else [byte]

/-- The output that a sequence of write requests asks for. -/
def requested (messages : List (Message (List UInt8))) : List UInt8 :=
  crlf (messages.flatMap fun message => message.data)

def Resume.pending : Resume → List UInt8
  | .loop remaining => crlf remaining
  | .newline remaining => [carriageReturn, lineFeed] ++ crlf remaining

def Phase.pending : Phase → List UInt8
  | .receive => []
  | .write resume => resume.pending
  | .push remaining resume => remaining ++ resume.pending
  | .wait remaining resume => remaining ++ resume.pending

theorem crlf_append (first second : List UInt8) :
    crlf (first ++ second) = crlf first ++ crlf second :=
  flatMap_append

theorem crlf_cons_lineFeed (rest : List UInt8) :
    crlf (lineFeed :: rest) = [carriageReturn, lineFeed] ++ crlf rest := by
  rfl

theorem crlf_of_no_lineFeed {data : List UInt8} (none : ∀ byte ∈ data, byte ≠ lineFeed) :
    crlf data = data := by
  induction data with
  | nil => rfl
  | cons byte data ih =>
    obtain ⟨notHere, notThere⟩ := forall_mem_cons.mp none
    have rest := ih notThere
    rw [crlf] at rest ⊢
    rw [flatMap_cons, if_neg notHere, rest]
    rfl

theorem requested_append (first second : List (Message (List UInt8))) :
    requested (first ++ second) = requested first ++ requested second := by
  rw [requested, flatMap_append, crlf_append]
  rfl

variable {remaining : List UInt8} {threads : System (List UInt8)} {console : Console}

theorem split_at_lineFeed {index : Nat}
    (position : remaining.findIdx? (· == lineFeed) = some index) :
    remaining = remaining.take index ++ lineFeed :: remaining.drop (index + 1) ∧
      ∀ byte ∈ remaining.take index, byte ≠ lineFeed := by
  obtain ⟨inside, isLineFeed, first⟩ := findIdx?_eq_some_iff_getElem.mp position
  constructor
  · have next : remaining.drop index = lineFeed :: remaining.drop (index + 1) := by
      rw [drop_eq_getElem_cons inside, beq_iff_eq.mp isLineFeed]
    rw [← next, take_append_drop]
  · intro byte isEarlier
    obtain ⟨earlier, bound, rfl⟩ := mem_iff_getElem.mp isEarlier
    rw [length_take] at bound
    simpa using first earlier (by omega)

theorem pending_writeTurn (remaining : List UInt8) :
    (writeTurn remaining).pending = crlf remaining := by
  have pushed : ∀ (chunk : List UInt8) (resume : Resume),
      (if 0 < chunk.length then Phase.push chunk resume else .write resume).pending =
        chunk ++ resume.pending := by
    intro chunk resume
    split
    · rfl
    · next empty =>
        rw [length_eq_zero_iff.mp (Nat.eq_zero_of_not_pos empty)]
        rfl
  unfold writeTurn
  cases position : remaining.findIdx? (· == lineFeed) with
  | none =>
    have noLineFeed : ∀ byte ∈ remaining, byte ≠ lineFeed := by
      simpa using findIdx?_eq_none_iff.mp position
    dsimp only
    rw [Option.getD_none, take_length, pushed, crlf_of_no_lineFeed noLineFeed]
    exact append_nil remaining
  | some index =>
    obtain ⟨split, noLineFeed⟩ := split_at_lineFeed position
    have inside : (remaining.take index).length = index := by
      have := (findIdx?_eq_some_iff_getElem.mp position).1
      rw [length_take]
      omega
    have turn := pushed (remaining.take index) (.newline (remaining.drop (index + 1)))
    rw [inside] at turn
    refine turn.trans ?_
    conv_rhs => rw [split]
    rw [crlf_append, crlf_of_no_lineFeed noLineFeed, crlf_cons_lineFeed]
    rfl

theorem writeTurn_cases (remaining : List UInt8) :
    ∃ resume, writeTurn remaining = .write resume ∨
      ∃ chunk, writeTurn remaining = .push chunk resume := by
  unfold writeTurn
  dsimp only
  split
  · exact ⟨_, .inr ⟨_, rfl⟩⟩
  · exact ⟨_, .inl rfl⟩

/-! ## The pump -/

/-- Draining moves the first bytes, and leaves the interrupt enabled if it
leaves bytes. -/
theorem Pump.drainLoop_spec (count : Nat) (pump : Pump) :
    (drainLoop count pump).ring.contents = pump.ring.contents.drop count ∧
      (drainLoop count pump).fifo = pump.fifo ++ pump.ring.contents.take count ∧
      ((drainLoop count pump).ring.contents ≠ [] →
        (drainLoop count pump).interruptEnabled = true) := by
  induction count generalizing pump with
  | zero =>
    rw [drainLoop]
    split
    · next empty =>
        rw [SpscRing.isEmpty_iff] at empty
        simp [empty]
    · simp [enableTxInterrupt]
  | succ count ih =>
    rw [drainLoop]
    cases contents : pump.ring.contents with
    | nil =>
      rw [SpscRing.pop_nil contents]
      simp [disableTxInterrupt, contents]
    | cons byte rest =>
      obtain ⟨popped, others⟩ := SpscRing.pop_cons contents
      have split : pump.ring.pop = (some byte, pump.ring.pop.2) := by rw [← popped]
      rw [split]
      have after := ih { pump with ring := pump.ring.pop.2, fifo := pump.fifo ++ [byte] }
      rw [others] at after
      simpa using after

def Pump.sent (pump : Pump) : List UInt8 :=
  pump.fifo ++ pump.ring.contents

theorem Pump.sent_drain (pump : Pump) : pump.drainRingToFifo.sent = pump.sent := by
  obtain ⟨contents, fifo, -⟩ := drainLoop_spec txFifoSize pump
  rw [sent, drainRingToFifo, contents, fifo, append_assoc, take_append_drop, sent]

theorem Pump.enabled_drain {pump : Pump} (left : pump.drainRingToFifo.ring.contents ≠ []) :
    pump.drainRingToFifo.interruptEnabled = true :=
  (drainLoop_spec txFifoSize pump).2.2 left

namespace Console

def Blocked (console : Console) : Prop :=
  console.threads.kernel.manager.InState .blocked console.writerThreadId

/-- What holds of the flags where the writer is: while it waits for space it has
not been told of any, or it is awake. -/
def Alert (console : Console) : Prop :=
  match console.phase with
  | .receive => console.pump.ring.contents ≠ [] → console.pump.interruptEnabled = true
  | .wait _ _ =>
      (console.bufferSpaceAvailable = false ∧ console.waitingForSpace = true ∧
        console.pump.interruptEnabled = true) ∨
      (console.bufferSpaceAvailable = true ∧ ¬ console.Blocked)
  | _ => ¬ console.Blocked

structure Sound (console : Console) : Prop where
  threads : console.threads.Sound
  lives : console.threads.kernel.manager.Lives console.writerThreadId
  conserved : console.pump.sent ++ console.phase.pending =
    requested (console.threads.received console.writerThreadId)
  outside : console.phase ≠ .receive → console.threads.receiving console.writerThreadId = false
  alert : console.Alert

variable {console next : Console}

theorem Sound.not_blocked (sound : console.Sound)
    (isCurrent : console.threads.kernel.current = .thread console.writerThreadId) :
    ¬ console.Blocked := by
  intro blocked
  obtain ⟨-, running⟩ := sound.threads.current isCurrent
  cases ThreadManager.inState_unique blocked running

theorem Alert.mono (alert : console.Alert)
    (blocked : { console with threads := threads }.Blocked → console.Blocked) :
    { console with threads := threads }.Alert := by
  unfold Alert at alert ⊢
  dsimp only
  split at alert
  · exact alert
  · exact alert.imp_right fun both => ⟨both.1, fun after => both.2 (blocked after)⟩
  · exact fun after => alert (blocked after)

variable {operation : Operation (List UInt8)}

/-- The writer keeps its place while threads run that do not concern it. -/
theorem Sound.moved (sound : console.Sound) (called : console.threads.Calls operation)
    (performed : console.threads.perform operation = .ok threads)
    (elsewhere : operation = .exit ∨ operation = .blockNow ∨ operation = .receiveMessage →
      console.threads.kernel.current ≠ .thread console.writerThreadId) :
    { console with threads := threads }.Sound where
  threads := (sound.threads.advances called).2 threads performed
  lives := sound.threads.lives called performed (fun exits => elsewhere (.inl exits)) sound.lives
  conserved := by
    refine sound.conserved.trans (congrArg requested ?_)
    exact (sound.threads.received_elsewhere called performed
      fun receives => elsewhere (.inr (.inr receives))).symm
  outside isOutside := by
    rw [← sound.outside isOutside]
    exact System.receiving_perform called performed
      fun receives => elsewhere (.inr (.inr receives))
  alert := sound.alert.mono fun blocked =>
    sound.threads.blocked_before called performed (fun blocks => elsewhere (.inr blocks)) blocked

/-- Another thread runs, or an interrupt wakes a thread or sends a message. -/
theorem Sound.other (sound : console.Sound) (called : console.Calls (.other operation))
    (performed : console.perform (.other operation) = .ok next) : next.Sound := by
  obtain ⟨threads, isThreads, isNext⟩ := bind_eq_ok.mp performed
  cases isNext
  refine sound.moved called.1 isThreads ?_
  have outside := called.2
  rintro (rfl | rfl | rfl) <;> exact outside

/-- A TX interrupt drains the ring buffer, and wakes a writer that waits. -/
theorem Sound.txInterrupt (sound : console.Sound)
    (performed : console.notifyTxReady = .ok next) : next.Sound := by
  unfold notifyTxReady at performed
  dsimp only at performed
  have conserved := sound.conserved
  rw [← console.pump.sent_drain] at conserved
  split at performed
  · obtain ⟨threads, isThreads, isNext⟩ := bind_eq_ok.mp performed
    have called : console.threads.Calls (.wakeThread console.writerThreadId) := trivial
    have moved := sound.moved called isThreads (by rintro (own | own | own) <;> cases own)
    have awake := System.awake_of_wakeThread isThreads
    cases isNext
    refine ⟨moved.threads, moved.lives, ?_, moved.outside, ?_⟩
    · rw [← moved.conserved]
      exact congrArg (· ++ console.phase.pending) console.pump.sent_drain
    · unfold Alert
      split
      · exact Pump.enabled_drain
      · exact .inr ⟨rfl, awake⟩
      · exact awake
  · next notWaiting =>
      cases performed
      refine ⟨sound.threads, sound.lives, conserved, sound.outside, ?_⟩
      have alert := sound.alert
      unfold Alert at alert ⊢
      dsimp only
      split at alert
      · exact Pump.enabled_drain
      · rcases alert with ⟨-, waiting, -⟩ | awake
        · exact absurd waiting notWaiting
        · exact .inr awake
      · exact alert

section Steps

variable {threads after : System (List UInt8)} {writerThreadId : Nat} {pump : Pump}
  {waiting space : Bool} {remaining : List UInt8} {resume : Resume}

theorem Sound.receive
    (sound : Sound ⟨threads, writerThreadId, pump, waiting, space, .receive⟩)
    (isCurrent : threads.kernel.current = .thread writerThreadId)
    (performed : advance ⟨threads, writerThreadId, pump, waiting, space, .receive⟩ = .ok next) :
    next.Sound := by
  obtain ⟨⟨message, kernel⟩, isReceived, rest⟩ := bind_eq_ok.mp performed
  obtain ⟨after, isAfter, isNext⟩ := bind_eq_ok.mp rest
  have called : threads.Calls .receiveMessage := ⟨_, isCurrent⟩
  have afterSound := (sound.threads.advances called).2 after isAfter
  obtain ⟨-, found, lives⟩ := sound.threads.receives isCurrent isAfter
  rcases found with ⟨first, others, _, again, -, received⟩ | ⟨_, again, -, received⟩
  · cases isReceived.symm.trans again
    obtain ⟨stillCurrent, notReceiving⟩ := System.runs_of_received isCurrent isReceived isAfter
    cases isNext
    have awake : ¬ after.kernel.manager.InState .blocked writerThreadId := by
      intro blocked
      cases ThreadManager.inState_unique blocked (afterSound.current stillCurrent).2
    refine ⟨afterSound, lives _ sound.lives, ?_, fun _ => notReceiving, awake⟩
    have conserved := sound.conserved
    dsimp only [Phase.pending, Resume.pending] at conserved ⊢
    rw [received, Function.update_self, requested_append, ← conserved, append_nil, requested,
      flatMap_singleton]
  · cases isReceived.symm.trans again
    cases isNext
    refine ⟨afterSound, lives _ sound.lives, ?_, fun outside => absurd rfl outside, sound.alert⟩
    exact sound.conserved.trans (congrArg requested (congrFun received.symm writerThreadId))

theorem Sound.block
    (sound : Sound ⟨threads, writerThreadId, pump, waiting, false, .wait remaining resume⟩)
    (isCurrent : threads.kernel.current = .thread writerThreadId)
    (performed : threads.perform .blockNow = .ok after) :
    Sound ⟨after, writerThreadId, pump, waiting, false, .wait remaining resume⟩ := by
  have outside := sound.outside Phase.noConfusion
  have called : threads.Calls .blockNow := ⟨_, isCurrent, outside⟩
  refine ⟨(sound.threads.advances called).2 after performed,
    sound.threads.lives called performed (fun exits => by cases exits) sound.lives, ?_,
    fun _ => ?_, ?_⟩
  · refine sound.conserved.trans (congrArg requested ?_)
    exact (sound.threads.received_elsewhere called performed fun receives => by cases receives).symm
  · rw [← outside]
    exact System.receiving_perform called performed fun receives => by cases receives
  · rcases sound.alert with isWaiting | ⟨isSpace, -⟩
    · exact .inl isWaiting
    · cases isSpace

/-- The writer pushes what fits, or waits for space. -/
theorem Sound.pushTurn
    (sound : Sound ⟨threads, writerThreadId, pump, waiting, space, .push remaining resume⟩)
    (isCurrent : threads.kernel.current = .thread writerThreadId) :
    (Console.pushTurn ⟨threads, writerThreadId, pump, waiting, space, .push remaining resume⟩
      remaining resume).Sound := by
  have contents := pump.ring.contents_pushSlice remaining
  have conserved := sound.conserved
  have outside := sound.outside Phase.noConfusion
  unfold Console.pushTurn
  dsimp only [Phase.pending] at conserved ⊢
  split
  · next full =>
      rw [full, take_zero, append_nil] at contents
      refine ⟨sound.threads, sound.lives, ?_, fun _ => outside, .inl ⟨rfl, rfl, rfl⟩⟩
      rw [← conserved, Pump.sent, Pump.sent, ← contents]
      rfl
  · refine ⟨sound.threads, sound.lives, ?_, fun _ => outside, sound.not_blocked isCurrent⟩
    rw [← conserved, Pump.sent, Pump.sent, contents]
    dsimp only [Phase.pending]
    simp only [append_assoc]
    rw [← append_assoc (take _ _), take_append_drop]

theorem Sound.writeTurn {byte : UInt8} {rest : List UInt8}
    (sound : Sound ⟨threads, writerThreadId, pump, waiting, space, .write (.loop (byte :: rest))⟩)
    (isCurrent : threads.kernel.current = .thread writerThreadId)
    (performed : Console.advance
      ⟨threads, writerThreadId, pump, waiting, space, .write (.loop (byte :: rest))⟩ = .ok next) :
    next.Sound := by
  have awake := sound.not_blocked isCurrent
  cases performed
  refine ⟨sound.threads, sound.lives, ?_, fun _ => sound.outside Phase.noConfusion, ?_⟩
  · rw [← sound.conserved]
    exact congrArg (pump.sent ++ ·) (pending_writeTurn (byte :: rest))
  · obtain ⟨resume, isWrite | ⟨chunk, isPush⟩⟩ := writeTurn_cases (byte :: rest)
    · unfold Alert
      rw [isWrite]
      exact awake
    · unfold Alert
      rw [isPush]
      exact awake

end Steps

theorem Sound.advance (sound : console.Sound)
    (isCurrent : console.threads.kernel.current = .thread console.writerThreadId)
    (performed : console.advance = .ok next) : next.Sound := by
  have awake := sound.not_blocked isCurrent
  obtain ⟨threads, writerThreadId, pump, waiting, space, phase⟩ := console
  cases phase with
  | receive => exact sound.receive isCurrent performed
  | write resume =>
    have outside := sound.outside Phase.noConfusion
    cases resume with
    | newline remaining =>
      cases performed
      exact ⟨sound.threads, sound.lives, sound.conserved, fun _ => outside, awake⟩
    | loop remaining =>
      cases remaining with
      | nil =>
        cases performed
        refine ⟨sound.threads, sound.lives, ?_, fun _ => outside, Pump.enabled_drain⟩
        rw [← sound.conserved]
        exact congrArg (· ++ []) pump.sent_drain
      | cons byte rest => exact sound.writeTurn isCurrent performed
  | push remaining resume =>
    cases remaining with
    | nil =>
      cases performed
      exact ⟨sound.threads, sound.lives, sound.conserved,
        fun _ => sound.outside Phase.noConfusion, awake⟩
    | cons byte rest =>
      cases performed
      exact sound.pushTurn isCurrent
  | wait remaining resume =>
    cases space with
    | true =>
      cases performed
      exact ⟨sound.threads, sound.lives, sound.conserved,
        fun _ => sound.outside Phase.noConfusion, awake⟩
    | false =>
      obtain ⟨blocked, isBlocked, isNext⟩ := bind_eq_ok.mp performed
      cases isNext
      exact sound.block isCurrent isBlocked

theorem Sound.waiting {resume : Resume} (sound : console.Sound)
    (isWaiting : console.phase = .wait remaining resume) (blocked : console.Blocked) :
    console.waitingForSpace = true ∧ console.pump.interruptEnabled = true := by
  have alert := sound.alert
  unfold Alert at alert
  rw [isWaiting] at alert
  rcases alert with ⟨-, waiting, enabled⟩ | ⟨-, awake⟩
  · exact ⟨waiting, enabled⟩
  · exact absurd blocked awake

theorem Sound.enabled (sound : console.Sound) (blocked : console.Blocked)
    (left : console.pump.ring.contents ≠ []) : console.pump.interruptEnabled = true := by
  cases isPhase : console.phase with
  | wait remaining resume => exact (sound.waiting isPhase blocked).2
  | receive =>
    have alert := sound.alert
    unfold Alert at alert
    rw [isPhase] at alert
    exact alert left
  | write resume | push remaining resume =>
    have alert := sound.alert
    unfold Alert at alert
    rw [isPhase] at alert
    exact absurd blocked alert

theorem wakes_txInterrupt (waiting : console.waitingForSpace = true) :
    ∃ next, console.perform .txInterrupt = .ok next ∧ ¬ next.Blocked := by
  have woken : console.threads.perform (.wakeThread console.writerThreadId) = .ok
      { console.threads with
        kernel := console.threads.kernel.wakeThread console.writerThreadId } := rfl
  have performed : console.perform .txInterrupt = .ok
      { console with
        pump := console.pump.drainRingToFifo
        threads :=
          { console.threads with
            kernel := console.threads.kernel.wakeThread console.writerThreadId }
        waitingForSpace := false
        bufferSpaceAvailable := true } := by
    rw [perform, notifyTxReady, if_pos waiting]
    rfl
  exact ⟨_, performed, System.awake_of_wakeThread woken⟩

theorem Sound.perform {action : Action} (sound : console.Sound) (called : console.Calls action)
    (performed : console.perform action = .ok next) : next.Sound := by
  cases action with
  | other operation => exact sound.other called performed
  | writer => exact sound.advance called performed
  | txInterrupt => exact sound.txInterrupt performed

end Console

theorem sound_init (reached : Threads.Reachable threads) (called : threads.Calls .newThread)
    (created : init threads = .ok console) : console.Sound := by
  have recorded := reached.sound.recorded
  obtain ⟨withThread, isCreated, rest⟩ := bind_eq_ok.mp created
  obtain ⟨added, isAdded, isConsole⟩ := bind_eq_ok.mp rest
  have createdSound := (reached.sound.advances called).2 _ isCreated
  cases isCreated
  have addedSound := (createdSound.advances mem_cons_self).2 _ isAdded
  cases isAdded
  cases isConsole
  obtain ⟨-, -, noneReceived⟩ :=
    recorded.unused threads.kernel.manager.nextId (.inl (Nat.le_refl _))
  refine ⟨addedSound, ?_, ?_, fun outside => absurd rfl outside, ?_⟩
  · exact Option.isSome_iff_exists.mpr ⟨_, Function.update_self _ _ _⟩
  · change Pump.new.sent ++ [] = requested (threads.received threads.kernel.manager.nextId)
    rw [noneReceived]
    exact congrArg (· ++ []) (SpscRing.contents_new (by decide))
  · exact fun left => absurd (SpscRing.contents_new (by decide)) left

theorem Runs.sound (reached : Runs console) : console.Sound := by
  induction reached with
  | init reached called created => exact sound_init reached called created
  | step _ action called performed ih => exact ih.perform called performed

/-- In every state of a run the FIFO has received a prefix of what the delivered
requests ask for, and the rest is in the ring buffer, still to be pushed or in
the inbox.  A writer blocked for space has its flag set, so that a TX interrupt
wakes it, and the interrupt is enabled while a blocked writer leaves bytes in the
ring buffer. -/
theorem console_output {console : Console} (reached : Runs console) :
    console.pump.fifo <+: requested (console.threads.delivered console.writerThreadId) ∧
    (∃ thread, console.threads.kernel.manager.threadTable console.writerThreadId = some thread ∧
      console.pump.fifo ++ console.pump.ring.contents ++ console.phase.pending ++
        requested thread.inbox =
          requested (console.threads.delivered console.writerThreadId)) ∧
    (console.Blocked → ∀ remaining resume, console.phase = .wait remaining resume →
      console.waitingForSpace = true ∧
        ∃ next, console.perform .txInterrupt = .ok next ∧ ¬ next.Blocked) ∧
    (console.Blocked → console.pump.ring.contents ≠ [] →
      console.pump.interruptEnabled = true) := by
  have sound := reached.sound
  obtain ⟨thread, found⟩ := Option.isSome_iff_exists.mp sound.lives
  have all : console.pump.fifo ++ console.pump.ring.contents ++ console.phase.pending ++
      requested thread.inbox = requested (console.threads.delivered console.writerThreadId) := by
    rw [sound.threads.recorded.kept _ thread found, requested_append, ← sound.conserved]
    rfl
  refine ⟨?_, ⟨thread, found, all⟩, ?_, ?_⟩
  · rw [← all, append_assoc, append_assoc]
    exact prefix_append _ _
  · intro blocked remaining resume isWaiting
    have waiting := (sound.waiting isWaiting blocked).1
    exact ⟨waiting, Console.wakes_txInterrupt waiting⟩
  · exact sound.enabled

/-- A thread sends a letter and a line feed, and the writer writes them out. -/
theorem letter_written :
    ∃ console, Runs console ∧ console.pump.fifo = [0x61, 0x0d, 0x0a] ∧
      console.pump.fifo <+: requested (console.threads.delivered console.writerThreadId) := by
  have booted : Threads.Reachable (System.boot : System (List UInt8)) := .boot
  have created := booted.step .newThread (by decide : 1 + 1 < 2 ^ 64) rfl
  have added := created.step (.add ⟨1, .ready, []⟩) mem_cons_self rfl
  have withIdle := added.step .setIdleThread rfl rfl
  have started := withIdle.step .startScheduler rfl rfl
  have spawned : Runs _ := .init started (by decide : 2 + 1 < 2 ^ 64) rfl
  have sent := spawned.step (.other (.sendMessageUrgent 2 ⟨1, [0x61, 0x0a]⟩))
    ⟨⟨1, rfl, rfl⟩, fun same => by cases same⟩ rfl
  have received := sent.step .writer rfl rfl
  have split := received.step .writer rfl rfl
  have pushed := split.step .writer rfl rfl
  have atNewline := pushed.step .writer rfl rfl
  have replaced := atNewline.step .writer rfl rfl
  have pushedNewline := replaced.step .writer rfl rfl
  have atEnd := pushedNewline.step .writer rfl rfl
  have drained := atEnd.step .writer rfl rfl
  exact ⟨_, drained, by decide +kernel, (console_output drained).1⟩

end UartWriter

end NanoOs
