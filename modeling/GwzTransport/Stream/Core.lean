import GwzTransport.Lib.Transition
import GwzTransport.Stream.Machine

/-!
# What a stream machine can do

The protocol state of a machine without its bookkeeping: `core` forgets the I/O clock, the
statistics and the retained failure texts, and keeps of the close deadline only whether there is
one.  `Move` lists every change a public operation can make to that state, with everything the
operation checked first.  `Step.move` says that the machine makes no other change, so later
results are proved by cases on `Move` and never look into the operations again.

A body of the nine kinds that travel on an open stream is a `Body`; `Config.seal` is the envelope
a machine puts it into and `bodyOf` is what `accept` finds in an envelope.
-/

namespace GwzTransport.Stream

open Protocol MachineInt

/-! ### Bodies -/

/-- The bodies of an open stream's messages. -/
inductive Body
  | data (d : Data)
  | window (w : Window)
  | flush (b : Barrier)
  | flushed (b : Barrier)
  | endWrite (e : EndWrite)
  | close (c : Close)
  | closed (c : Closed)
  | cancel (c : Cancel)
  | failed (f : Failure)
  deriving DecidableEq

/-- The body that an envelope's kind selects. -/
def bodyOf (e : Envelope) : Option Body :=
  match e.kind with
  | .data => e.data.map .data
  | .window => e.window.map .window
  | .flush => e.flush.map .flush
  | .flushed => e.flushed.map .flushed
  | .endWrite => e.endWrite.map .endWrite
  | .close => e.close.map .close
  | .closed => e.closed.map .closed
  | .cancel => e.cancel.map .cancel
  | .failed => e.failed.map .failed
  | _ => none

/-- The header of every message of the stream. -/
def Config.envelope (k : Config) (kind : MessageKind) : Envelope :=
  { version := k.profileVersion, sessionId := k.sessionId, streamId := k.streamId, kind := kind }

/-- The envelope of a body. -/
def Config.seal (k : Config) : Body → Envelope
  | .data d => { k.envelope .data with data := some d }
  | .window w => { k.envelope .window with window := some w }
  | .flush b => { k.envelope .flush with flush := some b }
  | .flushed b => { k.envelope .flushed with flushed := some b }
  | .endWrite e => { k.envelope .endWrite with endWrite := some e }
  | .close c => { k.envelope .close with close := some c }
  | .closed c => { k.envelope .closed with closed := some c }
  | .cancel c => { k.envelope .cancel with cancel := some c }
  | .failed f => { k.envelope .failed with failed := some f }

@[simp] theorem bodyOf_seal (k : Config) (b : Body) : bodyOf (k.seal b) = some b := by
  cases b <;> rfl

/-- The body that announces a failure of one's own. -/
def failureBody (side : Side) (error : Error) : Body :=
  if (error = .cancelled ∨ error = .timeout) ∧ side = .initiator ∨ error = .cancelled then
    .cancel { reason := if error = .timeout then .timeout else .cancelled }
  else
    .failed { detail := none, setupCause := none
              code := if error = .timeout then .timeout else .protocol
              effect := .possible, facts := none }

theorem failureMessage_eq (m : StreamMachine) (error : Error) :
    m.failureMessage error = m.config.seal (failureBody m.config.side error) := by
  unfold StreamMachine.failureMessage failureBody
  split_ifs <;> rfl

/-- `b` announces a failure. -/
def Body.IsFailure : Body → Prop
  | .cancel _ | .failed _ => True
  | _ => False

theorem failureBody_isFailure (side : Side) (error : Error) :
    (failureBody side error).IsFailure := by
  unfold failureBody; split_ifs <;> trivial

/-! ### What an event shows -/

namespace Event

/-- The bytes a write accepted. -/
def accepted : Event → List UInt8
  | (.call (.write input), .count (.ok n)) => input.take n
  | _ => []

/-- The bytes a read returned. -/
def returned : Event → List UInt8
  | (.call (.read _), .bytes (.ok bytes)) => bytes
  | _ => []

/-- The message handed out. -/
def emitted : Event → Option Envelope
  | (.nextMessage, .message e) => e
  | _ => none

/-- The ticket a flush returned. -/
def ticket : Event → Option FlushTicket
  | (.call .startFlush, .ticket (.ok t)) => some t
  | _ => none

/-- Nothing of the stream itself shows in the event. -/
structure Silent (e : Event) : Prop where
  accepted : e.accepted = []
  returned : e.returned = []
  emitted : e.emitted = none
  ticket : e.ticket = none
  receive : ∀ message, e.1 ≠ .receive message

end Event

/-! ### The protocol state -/

structure Core where
  config : Config
  send : List UInt8
  recv : List UInt8
  now : ℕ
  batchDeadline : Option ℕ
  forceSend : Bool
  sent : ℤ
  received : ℤ
  consumed : ℤ
  peerLimit : ℤ
  advertisedLimit : ℤ
  endRequested : Bool
  endSent : Bool
  endReceived : Bool
  flush : Option PendingFlush
  flushSerial : ℤ
  flushAcked : ℤ
  peerFlush : Option Barrier
  peerFlushSerial : ℤ
  closing : Bool
  closeSent : Bool
  closeReceived : Bool
  discarding : Bool
  discarded : Bool
  closePending : Option Closed
  completed : Option CloseResult
  error : Option Error
  terminalMessage : Option Envelope

/-- The protocol state of a machine. -/
def StreamMachine.core (m : StreamMachine) : Core where
  config := m.config
  send := m.send
  recv := m.recv
  now := m.now
  batchDeadline := m.batchDeadline
  forceSend := m.forceSend
  sent := m.sent
  received := m.received
  consumed := m.consumed
  peerLimit := m.peerLimit
  advertisedLimit := m.advertisedLimit
  endRequested := m.endRequested
  endSent := m.endSent
  endReceived := m.endReceived
  flush := m.flush
  flushSerial := m.flushSerial
  flushAcked := m.flushAcked
  peerFlush := m.peerFlush
  peerFlushSerial := m.peerFlushSerial
  closing := m.closeDeadline.isSome
  closeSent := m.closeSent
  closeReceived := m.closeReceived
  discarding := m.discarding
  discarded := m.discarded
  closePending := m.closePending
  completed := m.completed
  error := m.error
  terminalMessage := m.terminalMessage

namespace Core

/-- Neither failed nor completed. -/
def Live (c : Core) : Prop := c.error = none ∧ c.completed = none

/-- The state after a failure that tells the peer nothing. -/
def failed (c : Core) (error : Error) : Core :=
  { c with error := some error, send := [], flush := none, peerFlush := none
           closePending := none, batchDeadline := none }

/-- The last message of a failed machine, set or cleared. -/
def tell (c : Core) (message : Option Envelope) : Core := { c with terminalMessage := message }

/-- The state after a failure that the peer is told about. -/
def failedWith (c : Core) (error : Error) (message : Envelope) : Core :=
  (c.failed error).tell (some message)

/-- The failure of this side's own making, announced to the peer. -/
def failedSelf (c : Core) (error : Error) : Core :=
  c.failedWith error (c.config.seal (failureBody c.config.side error))

/-- The state after asking for an answer: what is buffered may be sent at once. -/
def nudge (c : Core) : Core := { c with forceSend := c.forceSend || !c.send.isEmpty }

/-- The state after `k` received bytes were handed to the application. -/
def drop (c : Core) (k : ℕ) : Core :=
  { c with recv := c.recv.drop k, consumed := c.consumed + k }

/-- The state after a read into `n` bytes of output that returned `k` bytes. -/
def read (c : Core) (n k : ℕ) : Core :=
  { c with
    forceSend := c.forceSend || (decide (n ≠ 0) && !c.send.isEmpty)
    recv := c.recv.drop k, consumed := c.consumed + k }

theorem read_zero (c : Core) : c.read 0 0 = c := by simp [read]

theorem read_eq (c : Core) {n : ℕ} (hn : n ≠ 0) (k : ℕ) : c.read n k = c.nudge.drop k := by
  simp [read, nudge, drop, hn]

/-- How far the peer's data has reached its sink on this side. -/
def sinkOffset (c : Core) : ℤ :=
  if c.config.side = .initiator then c.received else c.consumed

/-- How many bytes the next data message takes. -/
def dataCount (c : Core) : ℕ :=
  min (min c.send.length c.config.maxPayload) (asUsize (c.peerLimit - c.sent))

/-- The state after the next data message: with the last byte the batch is over. -/
def pushed (c : Core) : Core :=
  { c with
    send := c.send.drop c.dataCount, sent := c.sent + c.dataCount
    batchDeadline := if c.send.drop c.dataCount = [] then none else c.batchDeadline
    forceSend := if c.send.drop c.dataCount = [] then false else c.forceSend }

/-- The checks `accept` makes on a body. -/
def Accepts (c : Core) : Body → Prop
  | .data d => (checkedAdd d.offset d.payload.length).isSome = true ∧ c.endReceived = false ∧
      d.offset = c.received ∧ d.payload ≠ [] ∧ d.payload.length ≤ c.config.maxPayload ∧
      d.offset + d.payload.length ≤ c.advertisedLimit ∧
      (c.discarding = true ∨ c.recv.length + d.payload.length ≤ c.config.receiveWindow)
  | .window w => w.maxOffset ≤ c.peerLimit ∨
      w.maxOffset ≤ satAddInt c.sent c.config.peerReceiveWindow
  | .flush b => c.peerFlush = none ∧ c.peerFlushSerial < b.barrierId ∧ b.offset = c.received ∧
      c.endReceived = false
  | .flushed b => c.flush = some ⟨b.barrierId, b.offset, true⟩
  | .endWrite e => e.finalOffset = c.received
  | .close x => c.config.side = .endpoint ∧ c.endReceived = true ∧ x.finalOffset = c.received
  | .closed _ => c.config.side = .initiator ∧ c.closeSent = true ∧ c.endReceived = true
  | .cancel _ => True
  | .failed _ => True

/-- The state after an accepted body. -/
def after (c : Core) : Body → Core
  | .data d =>
    { c with
      recv := if c.discarding then c.recv else c.recv ++ d.payload
      consumed := if c.discarding then d.offset + d.payload.length else c.consumed
      discarded := c.discarding || c.discarded
      received := d.offset + d.payload.length }
  | .window w => { c with peerLimit := max c.peerLimit w.maxOffset }
  | .flush b => { c with peerFlushSerial := b.barrierId, peerFlush := some b }
  | .flushed b => { c with flushAcked := b.barrierId, flush := none }
  | .endWrite _ => { c with endReceived := true }
  | .close _ => { c with closeReceived := true, closing := c.closing || !c.closeReceived }
  | .closed x =>
    match x.failure with
    | some failure => c.failed (.peerFailed failure.code failure.effect)
    | none =>
      { c with
        completed := some ⟨x.disposition, c.discarded || x.unreadResponseDiscarded, x.facts⟩ }
  | .cancel x => c.failed (if x.reason = .timeout then .timeout else .cancelled)
  | .failed f => c.failed (.peerFailed f.code f.effect)

theorem after_data_discarding (c : Core) (h : c.discarding = true) (d : Data) :
    c.after (.data d) =
      { c with consumed := d.offset + d.payload.length, discarded := true
               received := d.offset + d.payload.length } := by
  simp [after, h]

theorem after_data_keeping (c : Core) (h : c.discarding = false) (d : Data) :
    c.after (.data d) =
      { c with recv := c.recv ++ d.payload, received := d.offset + d.payload.length } := by
  simp [after, h]

theorem after_closed_failed (c : Core) {x : Closed} {f : Failure} (h : x.failure = some f) :
    c.after (.closed x) = c.failed (.peerFailed f.code f.effect) := by
  simp [after, h]

theorem after_closed_done (c : Core) {x : Closed} (h : x.failure = none) :
    c.after (.closed x) =
      { c with
        completed := some
          ⟨x.disposition, c.discarded || x.unreadResponseDiscarded, x.facts⟩ } := by
  simp [after, h]

/-! What no body changes -/

@[simp] theorem after_config (c : Core) (b : Body) : (c.after b).config = c.config := by
  cases b with
  | closed x => simp only [after]; split <;> rfl
  | _ => rfl

@[simp] theorem after_sent (c : Core) (b : Body) : (c.after b).sent = c.sent := by
  cases b with
  | closed x => simp only [after]; split <;> rfl
  | _ => rfl

@[simp] theorem after_advertisedLimit (c : Core) (b : Body) :
    (c.after b).advertisedLimit = c.advertisedLimit := by
  cases b with
  | closed x => simp only [after]; split <;> rfl
  | _ => rfl

@[simp] theorem after_endSent (c : Core) (b : Body) : (c.after b).endSent = c.endSent := by
  cases b with
  | closed x => simp only [after]; split <;> rfl
  | _ => rfl

@[simp] theorem after_closeSent (c : Core) (b : Body) : (c.after b).closeSent = c.closeSent := by
  cases b with
  | closed x => simp only [after]; split <;> rfl
  | _ => rfl

@[simp] theorem after_discarding (c : Core) (b : Body) : (c.after b).discarding = c.discarding := by
  cases b with
  | closed x => simp only [after]; split <;> rfl
  | _ => rfl

theorem not_live_failed (c : Core) (error : Error) : ¬ (c.failed error).Live :=
  fun h => nomatch h.1

theorem not_live_after_closed (c : Core) (x : Closed) : ¬ (c.after (.closed x)).Live := by
  unfold after
  dsimp only
  split
  · exact not_live_failed _ _
  · exact fun h => nomatch h.2

/-- An envelope that `accept` takes: this stream's header, admitted, with an acceptable body. -/
structure Receivable (c : Core) (e : Envelope) (b : Body) : Prop where
  session : e.sessionId = c.config.sessionId
  stream : e.streamId = c.config.streamId
  version : e.version = c.config.profileVersion
  admitted : Codec.admitLimited e c.config.receiveLimits = .ok ()
  body : bodyOf e = some b
  accepts : c.Accepts b

/-- The admission of a body by the peer, checked before the body is kept for sending. -/
def Admitted (c : Core) (b : Body) : Prop :=
  Codec.admitLimited (c.config.seal b) c.config.peerLimits = .ok ()

end Core

/-! ### Moves -/

/-- Everything an operation can do to the protocol state. -/
inductive Move (c : Core) : Event → Core → Prop
  /-- A refused or repeated call, a report to the I/O clock, nothing to send. -/
  | idle {e} (silent : e.Silent) : Move c e c
  | tick {t} (time : c.now ≤ t) : Move c (.call (.advance t), .done (.ok ())) { c with now := t }
  | write {input n} (live : c.Live) (ended : c.endRequested = false)
      (unflushed : c.flush = none) (pos : 0 < n) (within : n ≤ input.length)
      (room : c.send.length + n ≤ c.config.sendBuffer)
      (range : c.sent + c.send.length + n ≤ i64Max) :
      Move c (.call (.write input), .count (.ok n))
        { c with
          send := c.send ++ input.take n
          batchDeadline :=
            if c.send = [] then some (satAdd c.now c.config.coalesceDelayMs)
            else c.batchDeadline }
  /-- A write past the largest offset. -/
  | overflow {input} (live : c.Live) (range : ((checkedAdd c.sent c.send.length).bind (checkedAdd ·
        (min input.length (c.config.sendBuffer - c.send.length) : ℕ))) = none) :
      Move c (.call (.write input), .count (.error .protocol)) (c.failedSelf .protocol)
  /-- A read takes what is there; an empty answer or an error takes nothing. -/
  | read {n k r} (count : k = min n c.recv.length)
      (result : r = .ok (c.recv.take k) ∨ k = 0 ∧ ∀ bytes, r = .ok bytes → bytes = []) :
      Move c (.call (.read n), .bytes r) (c.read n k)
  | flush (live : c.Live) (free : c.flush = none) (ended : c.endSent = false) :
      Move c (.call .startFlush, .ticket (.ok ⟨c.flushSerial + 1⟩))
        { c with
          flushSerial := c.flushSerial + 1
          flush := some ⟨c.flushSerial + 1, c.sent + c.send.length, false⟩
          forceSend := true }
  | reflush {f} (live : c.Live) (pending : c.flush = some f) :
      Move c (.call .startFlush, .ticket (.ok ⟨f.id⟩)) c
  | flushOverflow (live : c.Live) (range : checkedAdd c.sent c.send.length = none) :
      Move c (.call .startFlush, .ticket (.error .protocol))
        { c with flushSerial := c.flushSerial + 1 }
  | endWrite (live : c.Live) (first : c.endRequested = false) :
      Move c (.call .endWrite, .done (.ok ())) { c with endRequested := true, forceSend := true }
  | startClose (live : c.Live) (side : c.config.side = .initiator) (first : c.closing = false) :
      Move c (.call .startClose, .done (.ok ()))
        { c with
          closing := true, discarding := true
          discarded := c.discarded || !c.recv.isEmpty
          consumed := c.consumed + c.recv.length, recv := [], endRequested := true
          forceSend := c.forceSend || !c.endRequested }
  | completeClose {e x} (silent : e.Silent) (live : c.Live)
      (side : c.config.side = .endpoint) (closed : c.closeReceived = true)
      (sentEnd : c.endSent = true) (gotEnd : c.endReceived = true) (empty : c.recv = [])
      (answered : c.peerFlush = none) (flushed : c.flush = none) (first : c.closePending = none)
      (unread : x.unreadResponseDiscarded = c.discarded) (admitted : c.Admitted (.closed x)) :
      Move c e { c with closePending := some x }
  /-- Cancelled by the host, or a deadline has passed. -/
  | fail {e t error} (silent : e.Silent) (live : c.Live)
      (time : c.now ≤ t) (why : error = .cancelled ∨ error = .timeout) :
      Move c e ({ c with now := t }.failedSelf error)
  | failTerminal {f} (live : c.Live) (side : c.config.side = .endpoint)
      (admitted : c.Admitted (.failed f)) :
      Move c (.call (.failTerminal f), .done (.ok ()))
        (c.failedWith (.peerFailed f.code f.effect) (c.config.seal (.failed f)))
  | disconnect (live : c.Live) :
      Move c (.call .disconnect, .done (.ok ()))
        ((c.failed .carrierLost).tell none)
  | hangUp (dead : ¬ c.Live) :
      Move c (.call .disconnect, .done (.ok ())) (c.tell none)
  | sendTerminal {e} (pending : c.terminalMessage = some e) :
      Move c (.nextMessage, .message (some e)) (c.tell none)
  | sendFlushed {b} (live : c.Live) (pending : c.peerFlush = some b)
      (reached : b.offset ≤ c.sinkOffset) :
      Move c (.nextMessage, .message (some (c.config.seal (.flushed b))))
        { c with peerFlush := none }
  | sendWindow (live : c.Live)
      (more : c.advertisedLimit < satAddInt c.consumed c.config.receiveWindow) :
      Move c (.nextMessage, .message (some (c.config.seal
          (.window ⟨satAddInt c.consumed c.config.receiveWindow⟩))))
        { c with advertisedLimit := satAddInt c.consumed c.config.receiveWindow }
  | sendClosed {x} (live : c.Live) (pending : c.closePending = some x) :
      Move c (.nextMessage, .message (some (c.config.seal (.closed x))))
        { c with
          closePending := none
          completed := some ⟨x.disposition, x.unreadResponseDiscarded, x.facts⟩ }
  | sendFlush {f} (live : c.Live) (pending : c.flush = some f)
      (unsent : f.sent = false) (drained : c.sent = f.offset) :
      Move c (.nextMessage, .message (some (c.config.seal (.flush ⟨f.id, f.offset⟩))))
        { c with flush := some { f with sent := true } }
  | sendData (live : c.Live) (unsent : c.send ≠ []) (credit : 0 < asUsize (c.peerLimit - c.sent)) :
      Move c (.nextMessage, .message (some (c.config.seal
          (.data ⟨c.sent, c.send.take c.dataCount⟩))))
        c.pushed
  | sendEnd (live : c.Live) (requested : c.endRequested = true) (first : c.endSent = false)
      (drained : c.send = [])
      (flushed : ∀ f, c.flush = some f → f.sent = true ∨ c.sent ≠ f.offset) :
      Move c (.nextMessage, .message (some (c.config.seal (.endWrite ⟨c.sent⟩))))
        { c with endSent := true }
  | sendClose (live : c.Live) (side : c.config.side = .initiator) (closing : c.closing = true)
      (ended : c.endSent = true) (first : c.closeSent = false) :
      Move c (.nextMessage, .message (some (c.config.seal (.close ⟨c.sent⟩))))
        { c with closeSent := true }
  | ignore {e} (dead : ¬ c.Live) : Move c (.receive e, .done (.ok ())) c
  | expire {e} (live : c.Live) :
      Move c (.receive e, .done (.error .timeout)) (c.failedSelf .timeout)
  | refuse {e} (live : c.Live) (bad : ∀ b, ¬ c.Receivable e b) :
      Move c (.receive e, .done (.error .protocol)) (c.failedSelf .protocol)
  | take {e b} (live : c.Live) (good : c.Receivable e b) :
      Move c (.receive e, .done (.ok ())) (c.after b)

/-! ### The machine makes no other moves -/

namespace Event

theorem silent_done (c : Call) (r : Except Error Unit) : Silent (.call c, .done r) := by
  cases c <;> exact ⟨rfl, rfl, rfl, rfl, by simp⟩

theorem silent_write_error (input : List UInt8) (e : Error) :
    Silent (.call (.write input), .count (.error e)) :=
  ⟨rfl, rfl, rfl, rfl, by simp⟩

theorem silent_write_zero (input : List UInt8) :
    Silent (.call (.write input), .count (.ok 0)) :=
  ⟨by simp [accepted], rfl, rfl, rfl, by simp⟩

theorem silent_flush_error (e : Error) : Silent (.call .startFlush, .ticket (.error e)) :=
  ⟨rfl, rfl, rfl, rfl, by simp⟩

theorem silent_nothing : Silent (.nextMessage, .message none) :=
  ⟨rfl, rfl, rfl, rfl, by simp⟩

end Event

namespace StreamMachine

variable (m : StreamMachine)

theorem live_eq_ok : m.live = .ok () ↔ m.core.Live := by
  unfold live Core.Live core
  cases m.error <;> cases m.completed <;> simp

theorem live_of_not_over (h : ¬ (m.error.isSome || m.completed.isSome) = true) : m.core.Live := by
  simpa [Core.Live, core] using h

theorem not_live_of_over (h : (m.error.isSome || m.completed.isSome) = true) : ¬ m.core.Live := by
  simp only [Core.Live, core, not_and]
  intro he hc
  simp [he, hc] at h

@[simp] theorem core_touch : m.touch.core = m.core := rfl

variable {m}

theorem core_fail_true (h : m.core.Live) (error : Error) :
    (m.fail error true).core = m.core.failedSelf error := by
  have hl : (m.error.isSome || m.completed.isSome) = false := by
    simpa [Core.Live, core] using h
  simp only [fail, hl, Bool.false_eq_true, if_false, if_true, core_touch, failureMessage_eq]
  rfl

theorem core_fail_false (h : m.core.Live) (error : Error) :
    (m.fail error false).core = m.core.failed error := by
  have hl : (m.error.isSome || m.completed.isSome) = false := by
    simpa [Core.Live, core] using h
  simp only [fail, hl, Bool.false_eq_true, if_false, core_touch]
  rfl

theorem fail_of_dead (h : ¬ m.core.Live) (error : Error) (notify : Bool) :
    m.fail error notify = m := by
  unfold fail
  rw [if_pos]
  by_contra hl
  exact h (m.live_of_not_over hl)

variable (m)

theorem move_write (input : List UInt8) :
    Move m.core (.call (.write input), .count (m.write input).2) (m.write input).1.core := by
  unfold write
  split
  · exact .idle (Event.silent_write_error _ _)
  next hlive =>
    have hl := m.live_eq_ok.1 hlive
    dsimp only
    split_ifs with hend hempty hflush hcount hrange hsend
    · exact .idle (Event.silent_write_error _ _)
    · exact .idle (Event.silent_write_zero _)
    · exact .idle (Event.silent_write_error _ _)
    · exact .idle (Event.silent_write_error _ _)
    · rw [core_fail_true hl]
      exact .overflow hl (Option.isNone_iff_eq_none.1 hrange)
    all_goals
      have hmax := le_of_checkedAdd_bind hrange
      have hwrite : Move m.core (.call (.write input), _) _ :=
        Move.write hl (Bool.eq_false_of_not_eq_true hend) (Option.not_isSome_iff_eq_none.1 hflush)
          (Nat.pos_of_ne_zero hcount) (Nat.min_le_left _ _) (by simp only [core]; omega) hmax
    · rwa [if_pos (show m.core.send = [] from List.isEmpty_iff.1 hsend)] at hwrite
    · rwa [if_neg (show m.core.send ≠ [] from mt List.isEmpty_iff.2 hsend)] at hwrite

theorem core_nudge : m.nudge.core = m.core.nudge := by
  unfold nudge Core.nudge
  split_ifs with h
  · simp only [Bool.and_eq_true, Bool.not_eq_true'] at h
    simp [core, touch, h.1]
  · cases hf : m.forceSend <;> cases hs : m.send.isEmpty <;> simp_all [core]

theorem readSome_of_nil (h : m.recv = []) (n : ℕ) :
    (m.readSome n).1 = m ∧ ∀ bytes, (m.readSome n).2 = .ok bytes → bytes = [] := by
  unfold readSome
  rw [h, List.isEmpty_nil, Bool.not_true, if_neg Bool.false_ne_true]
  split
  · simp
  · split_ifs <;> simp

theorem readSome_of_ne_nil (h : m.recv ≠ []) (n : ℕ) :
    (m.readSome n).1.core = m.core.drop (min n m.recv.length) ∧
      (m.readSome n).2 = .ok (m.recv.take (min n m.recv.length)) := by
  unfold readSome
  rw [if_pos (by simpa using h)]
  exact ⟨rfl, rfl⟩

theorem move_read (n : ℕ) :
    Move m.core (.call (.read n), .bytes (m.read n).2) (m.read n).1.core := by
  have hrecv : m.nudge.recv = m.recv := by unfold nudge; split_ifs <;> rfl
  by_cases hn : n = 0
  · subst hn
    have hread := Move.read (c := m.core) (n := 0) (k := 0) (r := .ok []) (by simp)
      (.inr ⟨rfl, by simp⟩)
    rwa [Core.read_zero] at hread
  · have hmove := fun hresult => Move.read (c := m.core) (n := n) (r := (m.nudge.readSome n).2)
      rfl hresult
    rw [m.core.read_eq hn] at hmove
    rw [read, if_neg hn]
    by_cases h : m.recv = []
    · obtain ⟨hsame, hbytes⟩ := m.nudge.readSome_of_nil (hrecv.trans h) n
      have hk : min n m.core.recv.length = 0 := by
        rw [show m.core.recv = [] from h, List.length_nil, Nat.min_zero]
      rw [hsame, core_nudge]
      have := hmove (.inr ⟨hk, hbytes⟩)
      rw [hk] at this
      simpa [Core.drop] using this
    · obtain ⟨hcore, hresult⟩ := m.nudge.readSome_of_ne_nil (by rwa [hrecv]) n
      rw [hcore, core_nudge, hrecv]
      exact hmove (.inl (by rw [hresult, hrecv]; rfl))

theorem move_startFlush :
    Move m.core (.call .startFlush, .ticket m.startFlush.2) m.startFlush.1.core := by
  unfold startFlush
  split
  · exact .idle (Event.silent_flush_error _)
  next hlive =>
    have hl := m.live_eq_ok.1 hlive
    split
    next f hf => exact .reflush hl hf
    next hf =>
      split_ifs with hend
      · exact .idle (Event.silent_flush_error _)
      · split
        · exact .idle (Event.silent_flush_error _)
        next serial hserial =>
          obtain ⟨rfl, -, -⟩ := checkedAdd_eq_some hserial
          dsimp only
          split
          next hoffset => exact .flushOverflow hl hoffset
          next offset hoffset =>
            obtain ⟨rfl, -, -⟩ := checkedAdd_eq_some hoffset
            exact .flush hl hf (Bool.eq_false_of_not_eq_true hend)

theorem move_endWrite :
    Move m.core (.call .endWrite, .done m.endWrite.2) m.endWrite.1.core := by
  unfold endWrite
  split
  · exact .idle (Event.silent_done _ _)
  next hlive =>
    split_ifs with hend
    · exact .idle (Event.silent_done _ _)
    · exact .endWrite (m.live_eq_ok.1 hlive) (Bool.eq_false_of_not_eq_true hend)

theorem move_completeClose (call : Call) (disposition : Disposition) (facts : Facts)
    (failure : Option Failure) :
    Move m.core (.call call, .done (m.completeCloseWithFailure disposition facts failure).2)
      (m.completeCloseWithFailure disposition facts failure).1.core := by
  unfold completeCloseWithFailure
  split
  · exact .idle (Event.silent_done _ _)
  next hlive =>
    dsimp only
    split_ifs with hside hready hpending
    · exact .idle (Event.silent_done _ _)
    · exact .idle (Event.silent_done _ _)
    · exact .idle (Event.silent_done _ _)
    · simp only [Bool.or_eq_true, Bool.not_eq_true', not_or, Bool.not_eq_false,
        Option.isSome_iff_ne_none, ne_eq, not_not, List.isEmpty_iff] at hready hpending hside
      obtain ⟨⟨⟨⟨⟨hclosed, hend⟩, hgot⟩, hrecv⟩, hanswered⟩, hflush⟩ := hready
      split
      · exact .idle (Event.silent_done _ _)
      next hadm =>
        exact .completeClose (Event.silent_done _ _) (m.live_eq_ok.1 hlive) hside hclosed hend
          hgot hrecv hanswered hflush hpending rfl hadm

theorem move_failTerminal (failure : Failure) :
    Move m.core (.call (.failTerminal failure), .done (m.failTerminal failure).2)
      (m.failTerminal failure).1.core := by
  unfold failTerminal
  split
  · exact .idle (Event.silent_done _ _)
  next hlive =>
    have hl := m.live_eq_ok.1 hlive
    dsimp only
    split_ifs with hside
    · exact .idle (Event.silent_done _ _)
    · split
      · exact .idle (Event.silent_done _ _)
      next hadm =>
        have hfail := core_fail_false (m := { m with failureFacts := failure.facts }) hl
          (.peerFailed failure.code failure.effect)
        have hmove := Move.failTerminal hl (not_not.1 hside) hadm
        rw [Core.failedWith, ← show _ = m.core.failed _ from hfail] at hmove
        exact hmove

theorem endWrite_of_live (hl : m.core.Live) :
    m.endWrite.2 = .ok () ∧ m.endWrite.1.core =
      { m.core with endRequested := true
                    forceSend := m.core.forceSend || !m.core.endRequested } := by
  unfold endWrite
  rw [m.live_eq_ok.2 hl]
  cases hend : m.endRequested <;> simp [core, touch, hend]

theorem move_startClose :
    Move m.core (.call .startClose, .done m.startClose.2) m.startClose.1.core := by
  unfold startClose
  split
  · exact .idle (Event.silent_done _ _)
  · split
    · exact .idle (Event.silent_done _ _)
    next hlive =>
      have hl := m.live_eq_ok.1 hlive
      split_ifs with hside hclosing
      · exact .idle (Event.silent_done _ _)
      · exact .idle (Event.silent_done _ _)
      · obtain ⟨hok, hcore⟩ := m.startDiscarding.endWrite_of_live hl
        have hmove := Move.startClose hl (not_not.1 hside) (Bool.eq_false_of_not_eq_true hclosing)
        split
        next e he => simp [he] at hok
        next m' he =>
          rw [he] at hcore
          rw [core_touch, hcore]
          exact hmove

theorem move_disconnect :
    Move m.core (.call .disconnect, .done (.ok ())) m.disconnect.core := by
  have hcore : m.disconnect.core = (m.fail .carrierLost false).core.tell none := rfl
  rw [hcore]
  by_cases hl : m.core.Live
  · rw [core_fail_false hl]
    exact .disconnect hl
  · rw [fail_of_dead hl]
    exact .hangUp hl

theorem move_cancel : Move m.core (.call .cancel, .done (.ok ())) m.cancel.core := by
  unfold cancel
  by_cases hl : m.core.Live
  · rw [core_fail_true hl]
    exact .fail (Event.silent_done _ _) hl le_rfl (.inl rfl)
  · rw [fail_of_dead hl]
    exact .idle (Event.silent_done _ _)

/-- A due deadline fails the machine and is reported. -/
theorem move_timeout (hl : m.core.Live) {c : Call} {r : Except Error Unit} :
    Move m.core (.call c, .done r) (m.fail .timeout true).core := by
  rw [core_fail_true hl]
  exact .fail (Event.silent_done _ _) hl le_rfl (.inr rfl)

theorem move_setIoState (state : IoState) :
    Move m.core (.call (.setIoState state), .done (m.setIoState state).2)
      (m.setIoState state).1.core := by
  unfold setIoState
  split
  · exact .idle (Event.silent_done _ _)
  · split
    · exact .idle (Event.silent_done _ _)
    next hlive =>
      have hl := m.live_eq_ok.1 hlive
      split_ifs with hclose
      · exact .idle (Event.silent_done _ _)
      · unfold expireIoIfDue
        split_ifs with hexpired
        · exact m.move_timeout hl
        · dsimp only
          split_ifs with hsame hdue
          · exact .idle (Event.silent_done _ _)
          · exact move_timeout { m with io := m.io.setState m.now state } hl
          · exact .idle (Event.silent_done _ _)

theorem move_recordIoProgress (bytes : ℕ) :
    Move m.core (.call (.recordIoProgress bytes), .done (m.recordIoProgress bytes).2)
      (m.recordIoProgress bytes).1.core := by
  unfold recordIoProgress
  split
  · exact .idle (Event.silent_done _ _)
  · split
    · exact .idle (Event.silent_done _ _)
    next hlive =>
      have hl := m.live_eq_ok.1 hlive
      split_ifs with hclose
      · exact .idle (Event.silent_done _ _)
      · unfold expireIoIfDue
        split_ifs with hexpired
        · exact m.move_timeout hl
        · dsimp only
          split <;> exact .idle (Event.silent_done _ _)

theorem move_advance (t : ℕ) :
    Move m.core (.call (.advance t), .done (.ok ())) (m.advance t).core := by
  unfold advance
  split_ifs with ht
  · exact .idle (Event.silent_done _ _)
  · have ht : m.core.now ≤ t := Nat.le_of_not_lt ht
    dsimp only
    split_ifs with hover hexpired hbatch
    · exact .tick ht
    · have hl : m.core.Live := m.live_of_not_over hover
      rw [core_fail_true (m := { m with now := t }) hl]
      exact .fail (Event.silent_done _ _) hl ht (.inr rfl)
    · exact .tick ht
    · exact .tick ht

theorem move_call (c : Call) : Move m.core (.call c, (m.call c).2) (m.call c).1.core := by
  cases c with
  | write input => exact m.move_write input
  | read n => exact m.move_read n
  | startFlush => exact m.move_startFlush
  | endWrite => exact m.move_endWrite
  | startClose => exact m.move_startClose
  | completeClose disposition facts => exact m.move_completeClose _ disposition facts none
  | completeCloseFailure disposition facts code effect =>
    exact m.move_completeClose _ disposition facts _
  | failTerminal failure => exact m.move_failTerminal failure
  | cancel => exact m.move_cancel
  | disconnect => exact m.move_disconnect
  | setIoState state => exact m.move_setIoState state
  | recordIoProgress bytes => exact m.move_recordIoProgress bytes
  | advance t => exact m.move_advance t

/-! ### Deliveries -/

/-- `r` is the right verdict on the body `b`: its effect if it is acceptable, else a protocol
error. -/
def Judged (b : Body) (r : Except Error StreamMachine) : Prop :=
  (m.core.Accepts b ∧ ∃ m', r = .ok m' ∧ m'.core = m.core.after b) ∨
    (¬ m.core.Accepts b ∧ r = .error .protocol)

variable {m}

theorem Judged.touch {b : Body} {r : Except Error StreamMachine} (h : m.Judged b r) :
    m.Judged b (r.map StreamMachine.touch) := by
  obtain ⟨ha, m', rfl, hm'⟩ | ⟨ha, rfl⟩ := h
  · exact .inl ⟨ha, m'.touch, rfl, hm'⟩
  · exact .inr ⟨ha, rfl⟩

theorem judged_data (d : Data) : m.Judged (.data d) (m.acceptData d) := by
  unfold acceptData
  split
  next hfinish => exact .inr ⟨fun ⟨ha, _⟩ => by simp [hfinish] at ha, rfl⟩
  next finish hfinish =>
    have hsome : (checkedAdd d.offset d.payload.length).isSome = true := by rw [hfinish]; rfl
    obtain ⟨rfl, -, -⟩ := checkedAdd_eq_some hfinish
    split_ifs with hbad hdiscarding hroom
    · refine .inr ⟨fun ⟨_, hend, hoffset, hne, hmax, hlimit, _⟩ => ?_, rfl⟩
      simp only [core] at hend hoffset hmax hlimit
      simp [hend, hoffset, hne] at hbad
      omega
    all_goals
      simp only [Bool.or_eq_true, bne_iff_ne, decide_eq_true_eq, not_or, not_not, not_lt,
        Bool.not_eq_true, List.isEmpty_eq_false_iff] at hbad
      obtain ⟨⟨⟨⟨hend, hoffset⟩, hne⟩, hmax⟩, hlimit⟩ := hbad
    · refine .inl ⟨⟨hsome, hend, hoffset, hne, hmax, hlimit, .inl hdiscarding⟩, _, rfl, ?_⟩
      exact (m.core.after_data_discarding hdiscarding d).symm
    · refine .inr ⟨fun ha => ?_, rfl⟩
      exact ha.2.2.2.2.2.2.elim hdiscarding (Nat.not_le_of_gt hroom)
    · refine .inl ⟨⟨hsome, hend, hoffset, hne, hmax, hlimit, .inr (Nat.le_of_not_gt hroom)⟩, _,
        rfl, ?_⟩
      exact (m.core.after_data_keeping (Bool.eq_false_of_not_eq_true hdiscarding) d).symm

theorem judged_window (w : Window) :
    m.Judged (.window w) (if w.maxOffset ≤ m.peerLimit then .ok m
      else if w.maxOffset > satAddInt m.sent m.config.peerReceiveWindow then .error .protocol
      else .ok (StreamMachine.touch { m with peerLimit := w.maxOffset })) := by
  split_ifs with hold hnew
  · refine .inl ⟨.inl hold, m, rfl, ?_⟩
    rw [Core.after, max_eq_left (show w.maxOffset ≤ m.core.peerLimit from hold)]
  · refine .inr ⟨fun ha => ha.elim hold (not_le_of_gt hnew), rfl⟩
  · refine .inl ⟨.inr (le_of_not_gt hnew), _, rfl, ?_⟩
    rw [Core.after, max_eq_right (show m.core.peerLimit ≤ w.maxOffset from le_of_not_ge hold)]
    rfl

theorem judged_flush (b : Barrier) : m.Judged (.flush b) (m.acceptFlush b) := by
  unfold acceptFlush
  split_ifs with hbad
  · refine .inr ⟨fun ⟨hfree, hserial, hoffset, hend⟩ => ?_, rfl⟩
    simp only [core] at hfree hserial hoffset hend
    simp [hfree, hoffset, hend] at hbad
    omega
  · simp only [Bool.or_eq_true, bne_iff_ne, decide_eq_true_eq, not_or, not_not, not_le,
      Bool.not_eq_true, Option.isSome_eq_false_iff, Option.isNone_iff_eq_none] at hbad
    obtain ⟨⟨⟨hfree, hserial⟩, hoffset⟩, hend⟩ := hbad
    exact .inl ⟨⟨hfree, hserial, hoffset, hend⟩, _, rfl, rfl⟩

theorem judged_flushed (b : Barrier) : m.Judged (.flushed b) (m.acceptFlushed b) := by
  unfold acceptFlushed
  split
  next hnone =>
    refine .inr ⟨fun ha => ?_, rfl⟩
    have ha : m.flush = some _ := ha
    simp [hnone] at ha
  next f hf =>
    have hflush : m.core.flush = some f := hf
    split_ifs with hbad
    · refine .inr ⟨fun ha => ?_, rfl⟩
      obtain rfl := Option.some.inj (hflush.symm.trans ha)
      simp at hbad
    · simp only [Bool.or_eq_true, bne_iff_ne, Bool.not_eq_true', not_or, not_not,
        Bool.not_eq_false] at hbad
      obtain ⟨⟨hsent, hid⟩, hoffset⟩ := hbad
      refine .inl ⟨?_, _, rfl, ?_⟩
      · rw [Core.Accepts, hflush, ← hsent, ← hid, ← hoffset]
      · rw [Core.after, ← hid]
        rfl

theorem judged_endWrite (e : EndWrite) :
    m.Judged (.endWrite e) (if e.finalOffset ≠ m.received then .error .protocol
      else .ok (StreamMachine.touch { m with endReceived := true })) := by
  split_ifs with h
  · exact .inr ⟨h, rfl⟩
  · exact .inl ⟨not_not.1 h, _, rfl, rfl⟩

theorem judged_close (x : Close) : m.Judged (.close x) (m.acceptClose (some x)) := by
  unfold acceptClose
  split
  next hbad =>
    refine .inr ⟨fun ⟨hside, hend, _⟩ => ?_, rfl⟩
    simp only [core] at hside hend
    simp [hside, hend] at hbad
  next hbad =>
    simp only [Bool.or_eq_true, decide_eq_true_eq, Bool.not_eq_true', not_or, not_not,
      Bool.not_eq_false, ne_eq] at hbad
    obtain ⟨hside, hend⟩ := hbad
    dsimp only
    split_ifs with hoffset hclosed
    · exact .inr ⟨fun ha => hoffset ha.2.2, rfl⟩
    · refine .inl ⟨⟨hside, hend, not_not.1 hoffset⟩, m, rfl, ?_⟩
      simp [Core.after, core, hclosed]
    · refine .inl ⟨⟨hside, hend, not_not.1 hoffset⟩, _, rfl, ?_⟩
      simp [Core.after, core, hclosed, stopIoClock]

theorem judged_closed (hl : m.core.Live) (x : Closed) :
    m.Judged (.closed x) (m.acceptClosed (some x)) := by
  unfold acceptClosed
  split_ifs with hbad
  · refine .inr ⟨fun ⟨hside, hsent, hend⟩ => ?_, rfl⟩
    simp only [core] at hside hsent hend
    simp [hside, hsent, hend] at hbad
  · simp only [Bool.or_eq_true, decide_eq_true_eq, Bool.not_eq_true', not_or, not_not,
      Bool.not_eq_false, ne_eq] at hbad
    obtain ⟨⟨hside, hsent⟩, hend⟩ := hbad
    refine .inl ⟨⟨hside, hsent, hend⟩, ?_⟩
    dsimp only [Core.after]
    cases hx : x.failure with
    | none => exact ⟨_, rfl, rfl⟩
    | some f =>
      refine ⟨_, rfl, ?_⟩
      exact core_fail_false (m := { m with failureFacts := some x.facts }) hl
        (.peerFailed f.code f.effect)

theorem judged_failed (hl : m.core.Live) (f : Failure) :
    m.Judged (.failed f) (.ok (m.acceptFailed f)) :=
  .inl ⟨trivial, _, rfl, core_fail_false (m := { m with failureFacts := f.facts }) hl
    (.peerFailed f.code f.effect)⟩

/-- A machine finds the body that the envelope's kind selects and judges it, or there is none. -/
theorem acceptBody_spec (hl : m.core.Live) (e : Envelope) :
    match bodyOf e with
    | some b => m.Judged b (m.acceptBody e)
    | none => m.acceptBody e = .error .protocol := by
  unfold bodyOf acceptBody
  cases e.kind <;> dsimp only
  case data => cases e.data with
    | none => rfl
    | some d => exact (judged_data d).touch
  case window => cases e.window with
    | none => rfl
    | some w => exact judged_window w
  case flush => cases e.flush with
    | none => rfl
    | some b => exact (judged_flush b).touch
  case flushed => cases e.flushed with
    | none => rfl
    | some b => exact (judged_flushed b).touch
  case endWrite => cases e.endWrite with
    | none => rfl
    | some x => exact judged_endWrite x
  case close => cases e.close with
    | none => simp [acceptClose, Except.map]
    | some x => exact (judged_close x).touch
  case closed => cases e.closed with
    | none => simp [acceptClosed, Except.map]
    | some x => exact (judged_closed hl x).touch
  case cancel => cases e.cancel with
    | none => rfl
    | some x => exact .inl ⟨trivial, _, rfl, core_fail_false hl _⟩
  case failed => cases e.failed with
    | none => rfl
    | some f => exact (judged_failed hl f).touch

theorem accept_spec (hl : m.core.Live) (e : Envelope) :
    (∃ b m', m.core.Receivable e b ∧ m.accept e = .ok m' ∧ m'.core = m.core.after b) ∨
      (m.accept e = .error .protocol ∧ ∀ b, ¬ m.core.Receivable e b) := by
  unfold accept
  split_ifs with hheader
  · refine .inr ⟨rfl, fun b hb => ?_⟩
    exact hheader.elim (· hb.session) (·.elim (· hb.stream) (· hb.version))
  · simp only [not_or, not_not] at hheader
    obtain ⟨hsession, hstream, hversion⟩ := hheader
    split
    next hadm => exact .inr ⟨rfl, fun b hb => by simpa [core, hadm] using hb.admitted⟩
    next hadm =>
      have hbody := acceptBody_spec hl e
      split at hbody
      next b hb =>
        obtain ⟨ha, m', hr, hm'⟩ | ⟨ha, hr⟩ := hbody
        · exact .inl ⟨b, m', ⟨hsession, hstream, hversion, hadm, hb, ha⟩, hr, hm'⟩
        · refine .inr ⟨hr, fun b' hb' => ?_⟩
          obtain rfl := Option.some.inj (hb.symm.trans hb'.body)
          exact ha hb'.accepts
      next hb => exact .inr ⟨hbody, fun b' hb' => Option.some_ne_none _ (hb'.body.symm.trans hb)⟩

variable (m)

theorem move_receive (e : Envelope) :
    Move m.core (.receive e, .done (m.receive e).2) (m.receive e).1.core := by
  unfold receive
  split
  next hover => exact .ignore (m.not_live_of_over hover)
  next hover =>
    have hl := m.live_of_not_over hover
    unfold expireIoIfDue
    split_ifs with hexpired
    · rw [core_fail_true hl]
      exact .expire hl
    · dsimp only
      obtain ⟨b, m', hgood, hr, hm'⟩ | ⟨hr, hbad⟩ := accept_spec hl e
      · rw [hr]
        dsimp only
        rw [hm']
        exact .take hl hgood
      · rw [hr]
        dsimp only
        rw [core_fail_true hl]
        exact .refuse hl hbad

/-! ### Messages handed out -/

theorem sendData_spec : m.sendData.1.core = m.core.pushed ∧ m.sendData.2 =
    m.config.seal (.data ⟨m.core.sent, m.core.send.take m.core.dataCount⟩) := by
  unfold sendData Core.pushed
  dsimp only
  split
  next hempty =>
    have hdrop : m.core.send.drop m.core.dataCount = [] := List.isEmpty_iff.1 hempty
    simp only [if_pos hdrop]
    exact ⟨rfl, rfl⟩
  next hempty =>
    have hdrop : ¬ m.core.send.drop m.core.dataCount = [] := mt List.isEmpty_iff.2 hempty
    simp only [if_neg hdrop]
    exact ⟨rfl, rfl⟩

theorem move_nextData (hl : m.core.Live)
    (hflush : ∀ f, m.core.flush = some f → f.sent = true ∨ m.core.sent ≠ f.offset) :
    Move m.core (.nextMessage, .message m.nextData.2) m.nextData.1.core := by
  unfold nextData
  split_ifs with hdata hend hclose
  · simp only [Bool.and_eq_true, Bool.not_eq_true', List.isEmpty_eq_false_iff,
      decide_eq_true_eq] at hdata
    obtain ⟨hcore, hmessage⟩ := m.sendData_spec
    rw [hcore, hmessage]
    exact .sendData hl hdata.1.1 hdata.2
  · simp only [Bool.and_eq_true, Bool.not_eq_true', List.isEmpty_iff] at hend
    exact .sendEnd hl hend.1.1 hend.1.2 hend.2 hflush
  · obtain ⟨hside, hclosing, hended, hfirst⟩ := hclose
    exact .sendClose hl hside hclosing hended (Bool.eq_false_of_not_eq_true hfirst)
  · exact .idle Event.silent_nothing

theorem move_nextControl (hl : m.core.Live) :
    Move m.core (.nextMessage, .message m.nextControl.2) m.nextControl.1.core := by
  unfold nextControl
  dsimp only
  split
  next hlimit => exact .sendWindow hl hlimit
  next =>
    split
    next closed hclosed => exact .sendClosed hl hclosed
    next =>
      split
      next hflush => exact m.move_nextData hl fun f hf => by simp [core, hflush] at hf
      next f hflush =>
        split_ifs with hsend
        · simp only [Bool.and_eq_true, Bool.not_eq_true', beq_iff_eq] at hsend
          exact .sendFlush hl hflush hsend.1 hsend.2
        · refine m.move_nextData hl fun f' hf' => ?_
          obtain rfl := Option.some.inj (hflush.symm.trans hf')
          cases hs : f.sent with
          | true => exact .inl rfl
          | false => exact .inr fun h => hsend (by simp [hs, show m.sent = f.offset from h])

theorem move_nextMessage :
    Move m.core (.nextMessage, .message m.nextMessage.2) m.nextMessage.1.core := by
  unfold nextMessage
  split
  next e he => exact .sendTerminal he
  next =>
    split
    next => exact .idle Event.silent_nothing
    next hover =>
      have hl := m.live_of_not_over hover
      split
      next => exact m.move_nextControl hl
      next b hb =>
        split_ifs with hreached
        · exact .sendFlushed hl hb hreached
        · exact m.move_nextControl hl

end StreamMachine

/-- **Every step of a machine is a move of its protocol state.** -/
theorem Step.move {m m' : StreamMachine} {e : Event} (h : Step m e m') :
    Move m.core e m'.core := by
  obtain ⟨op, outcome⟩ := e
  have hop : Move m.core (op, (m.step op).2) (m.step op).1.core := by
    cases op with
    | call c => exact m.move_call c
    | receive e => exact m.move_receive e
    | nextMessage => exact m.move_nextMessage
  rwa [show m.step op = (m', outcome) from h] at hop

theorem Move.config_eq {c c' : Core} {e : Event} (h : Move c e c') : c'.config = c.config := by
  cases h with
  | take => exact Core.after_config _ _
  | _ => rfl

theorem config_of_run {m m' : StreamMachine} {tr : List Event} (h : Transition.Run Step m tr m') :
    m'.config = m.config :=
  h.invariant (P := fun _ m' => m'.config = m.config) rfl
    fun _ _ _ _ _ hc hstep => hstep.move.config_eq.trans hc

/-! ### Executions -/

/-- The operations one after the other, with what each of them answered. -/
def StreamMachine.exec (m : StreamMachine) : List Op → StreamMachine × List Event
  | [] => (m, [])
  | op :: ops =>
    let r := m.step op
    let rest := r.1.exec ops
    (rest.1, (op, r.2) :: rest.2)

theorem StreamMachine.run_exec (m : StreamMachine) (ops : List Op) :
    Transition.Run Step m (m.exec ops).2 (m.exec ops).1 := by
  induction ops generalizing m with
  | nil => exact .nil
  | cons op ops ih => exact .cons (show Step m (op, (m.step op).2) (m.step op).1 from rfl) (ih _)

/-- A valid configuration with small buffers. -/
def Config.small (side : Side) : Config :=
  { Config.new "s" 1 side with
    sendBuffer := 8, receiveWindow := 8, peerReceiveWindow := 8, maxPayload := 4 }

theorem Config.small_validate (side : Side) : (Config.small side).validate = .ok () := by
  cases side <;> rfl

end GwzTransport.Stream
