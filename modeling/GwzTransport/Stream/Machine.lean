import GwzTransport.Stream.Config

/-!
# The stream machine

`stream/state.rs`, `stream/machine.rs`, `stream/incoming.rs` and `stream/outgoing.rs`: one side
of an open stream as a deterministic state machine.  Each public call takes the state and returns
the next state with its result; `receive` takes one delivered message and `nextMessage` hands out
the next one.

`Op` lists everything a host can do with a machine and `step` performs it, so that a run of the
machine is a list of operations with their outcomes.
-/

namespace GwzTransport.Stream

open Protocol MachineInt Checks

/-- A flush that waits for its answer. -/
structure PendingFlush where
  id : ℤ
  offset : ℤ
  sent : Bool
  deriving DecidableEq

/-- One side of a stream. -/
structure StreamMachine where
  config : Config
  send : List UInt8
  recv : List UInt8
  now : ℕ
  io : IoClock
  batchDeadline : Option ℕ
  forceSend : Bool
  sent : ℤ
  received : ℤ
  consumed : ℤ
  peerLimit : ℤ
  advertisedLimit : ℤ
  endRequested : Bool
  endSent : Bool
  endReceived : Bool
  flush : Option PendingFlush
  flushSerial : ℤ
  flushAcked : ℤ
  peerFlush : Option Barrier
  peerFlushSerial : ℤ
  closeDeadline : Option ℕ
  closeSent : Bool
  closeReceived : Bool
  discarding : Bool
  discarded : Bool
  closePending : Option Closed
  completed : Option CloseResult
  error : Option Error
  failureFacts : Option Facts
  retainedFailure : Option Failure
  terminalMessage : Option Envelope
  peakSend : ℕ
  peakRecv : ℕ
  revision : ℕ
  deriving DecidableEq

namespace StreamMachine

/-- The state a validated configuration starts in. -/
def initial (config : Config) : StreamMachine where
  config := config
  send := []
  recv := []
  now := 0
  io := IoClock.new config.ioTimeoutMs config.interactionBudgetMs
  batchDeadline := none
  forceSend := false
  sent := 0
  received := 0
  consumed := 0
  peerLimit := config.peerReceiveWindow
  advertisedLimit := config.receiveWindow
  endRequested := false
  endSent := false
  endReceived := false
  flush := none
  flushSerial := 0
  flushAcked := 0
  peerFlush := none
  peerFlushSerial := 0
  closeDeadline := none
  closeSent := false
  closeReceived := false
  discarding := false
  discarded := false
  closePending := none
  completed := none
  error := none
  failureFacts := none
  retainedFailure := none
  terminalMessage := none
  peakSend := 0
  peakRecv := 0
  revision := 0

def new (config : Config) : Except Error StreamMachine :=
  match config.validate with
  | .error e => .error e
  | .ok () => .ok (initial config)

/-! ### Common parts -/

def live (m : StreamMachine) : Except Error Unit :=
  match m.error with
  | some e => .error e
  | none => if m.completed.isSome then .error .closed else .ok ()

/-- A wrapping counter of observable changes. -/
def touch (m : StreamMachine) : StreamMachine :=
  { m with revision := (m.revision + 1) % (u64Max + 1) }

/-- A message of this stream with no body yet. -/
def envelope (m : StreamMachine) (kind : MessageKind) : Envelope :=
  { version := m.config.profileVersion, sessionId := m.config.sessionId
    streamId := m.config.streamId, kind := kind }

def stopIoClock (m : StreamMachine) : StreamMachine := { m with io := m.io.stop m.now }

/-- What the peer is told when this side fails by itself. -/
def failureMessage (m : StreamMachine) (error : Error) : Envelope :=
  if (error = .cancelled ∨ error = .timeout) ∧ m.config.side = .initiator ∨ error = .cancelled then
    { m.envelope .cancel with
      cancel := some { reason := if error = .timeout then .timeout else .cancelled } }
  else
    { m.envelope .failed with
      failed := some
        { detail := none, setupCause := none
          code := if error = .timeout then .timeout else .protocol
          effect := .possible, facts := none } }

/-- The stream ends with an error. -/
def fail (m : StreamMachine) (error : Error) (notify : Bool) : StreamMachine :=
  if m.error.isSome || m.completed.isSome then m
  else
    let m' := { m with
      error := some error, send := [], flush := none, peerFlush := none, closePending := none
      batchDeadline := none, io := m.io.stop m.now }
    let m' := if notify then { m' with terminalMessage := some (m'.failureMessage error) } else m'
    m'.touch

/-- Whether the close deadline or the I/O clock has run out. -/
def expired (m : StreamMachine) : Bool := m.closeDeadline.any (· ≤ m.now) || m.io.due m.now

def expireIoIfDue (m : StreamMachine) : StreamMachine × Except Error Unit :=
  if m.expired then (m.fail .timeout true, .error .timeout) else (m, .ok ())

/-! ### Application calls -/

/-- Bytes to send; how many fit. -/
def write (m : StreamMachine) (input : List UInt8) : StreamMachine × Except Error ℕ :=
  match m.live with
  | .error e => (m, .error e)
  | .ok () =>
    if m.endRequested then (m, .error .writeClosed)
    else if input.isEmpty then (m, .ok 0)
    else if m.flush.isSome then (m, .error .wouldBlock)
    else
      let count := min input.length (m.config.sendBuffer - m.send.length)
      if count = 0 then (m, .error .wouldBlock)
      else if ((checkedAdd m.sent m.send.length).bind (checkedAdd · count)).isNone then
        (m.fail .protocol true, .error .protocol)
      else
        let m' := if m.send.isEmpty then
            { m with batchDeadline := some (satAdd m.now m.config.coalesceDelayMs) }
          else m
        let m' := { m' with send := m.send ++ input.take count }
        let m' := { m' with peakSend := max m'.peakSend m'.send.length }
        (m'.touch, .ok count)

/-- Asking for an answer makes a buffered request eligible at once. -/
def nudge (m : StreamMachine) : StreamMachine :=
  if !m.send.isEmpty && !m.forceSend then touch { m with forceSend := true } else m

/-- What `read` answers to a non-empty output, after the nudge. -/
def readSome (m : StreamMachine) (n : ℕ) : StreamMachine × Except Error (List UInt8) :=
  if !m.recv.isEmpty then
    let count := min n m.recv.length
    (touch { m with recv := m.recv.drop count, consumed := m.consumed + count },
      .ok (m.recv.take count))
  else match m.error with
  | some e => (m, .error e)
  | none =>
    if m.discarding || m.completed.isSome then (m, .error .closed)
    else if m.endReceived then (m, .ok [])
    else (m, .error .wouldBlock)

/-- The bytes a read into `n` bytes of output is given. -/
def read (m : StreamMachine) (n : ℕ) : StreamMachine × Except Error (List UInt8) :=
  if n = 0 then (m, .ok []) else m.nudge.readSome n

/-- A barrier behind the bytes so far. -/
def startFlush (m : StreamMachine) : StreamMachine × Except Error FlushTicket :=
  match m.live with
  | .error e => (m, .error e)
  | .ok () =>
    match m.flush with
    | some flush => (m, .ok ⟨flush.id⟩)
    | none =>
      if m.endSent then (m, .error .writeClosed)
      else match checkedAdd m.flushSerial 1 with
      | none => (m, .error .protocol)
      | some serial =>
        let m := { m with flushSerial := serial }
        match checkedAdd m.sent m.send.length with
        | none => (m, .error .protocol)
        | some offset =>
          (touch { m with flush := some ⟨serial, offset, false⟩, forceSend := true },
            .ok ⟨serial⟩)

def flushComplete (m : StreamMachine) (ticket : FlushTicket) : Except Error Bool :=
  match m.error with
  | some e => .error e
  | none => .ok (decide (ticket.id ≤ m.flushAcked))

def endWrite (m : StreamMachine) : StreamMachine × Except Error Unit :=
  match m.live with
  | .error e => (m, .error e)
  | .ok () =>
    if m.endRequested then (m, .ok ())
    else (touch { m with endRequested := true, forceSend := true }, .ok ())

/-- What `start_close` does before it ends the write side: unread input is dropped for good. -/
def startDiscarding (m : StreamMachine) : StreamMachine :=
  let m := m.stopIoClock
  { m with
    closeDeadline := some (satAdd m.now m.config.closeTimeoutMs)
    discarding := true
    discarded := m.discarded || !m.recv.isEmpty
    consumed := m.consumed + m.recv.length
    recv := [] }

/-- The initiator asks to close. -/
def startClose (m : StreamMachine) : StreamMachine × Except Error Unit :=
  if m.completed.isSome then (m, .ok ())
  else match m.live with
  | .error e => (m, .error e)
  | .ok () =>
    if m.config.side ≠ .initiator then (m, .error .wrongSide)
    else if m.closeDeadline.isSome then (m, .ok ())
    else match m.startDiscarding.endWrite with
    | (m, .error e) => (m, .error e)
    | (m, .ok ()) => (m.touch, .ok ())

def closedMessage (m : StreamMachine) (closed : Closed) : Envelope :=
  { m.envelope .closed with closed := some closed }

def completeCloseWithFailure (m : StreamMachine) (disposition : Disposition) (facts : Facts)
    (failure : Option Failure) : StreamMachine × Except Error Unit :=
  match m.live with
  | .error e => (m, .error e)
  | .ok () =>
    if m.config.side ≠ .endpoint then (m, .error .wrongSide)
    else if !m.closeReceived || !m.endSent || !m.endReceived || !m.recv.isEmpty ||
        m.peerFlush.isSome || m.flush.isSome then (m, .error .wouldBlock)
    else if m.closePending.isSome then (m, .ok ())
    else
      let closed : Closed :=
        { disposition, facts, unreadResponseDiscarded := m.discarded, failure }
      match Codec.admitLimited (m.closedMessage closed) m.config.peerLimits with
      | .error _ => (m, .error .protocol)
      | .ok () => (touch { m with closePending := some closed }, .ok ())

def completeClose (m : StreamMachine) (disposition : Disposition) (facts : Facts) :
    StreamMachine × Except Error Unit :=
  m.completeCloseWithFailure disposition facts none

def completeCloseFailure (m : StreamMachine) (disposition : Disposition) (facts : Facts)
    (code : ErrorCode) (effect : Effect) : StreamMachine × Except Error Unit :=
  m.completeCloseWithFailure disposition facts
    (some { detail := none, setupCause := none, code, effect, facts := none })

def failTerminal (m : StreamMachine) (failure : Failure) : StreamMachine × Except Error Unit :=
  match m.live with
  | .error e => (m, .error e)
  | .ok () =>
    if m.config.side ≠ .endpoint then (m, .error .wrongSide)
    else
      let message := { m.envelope .failed with failed := some failure }
      match Codec.admitLimited message m.config.peerLimits with
      | .error _ => (m, .error .protocol)
      | .ok () =>
        let m := { m with failureFacts := failure.facts }
        let m := m.fail (.peerFailed failure.code failure.effect) false
        ({ m with terminalMessage := some message }, .ok ())

def closeResult (m : StreamMachine) : Except Error CloseResult :=
  match m.error with
  | some e => .error e
  | none => match m.completed with
    | some r => .ok r
    | none => .error .wouldBlock

def cancel (m : StreamMachine) : StreamMachine := m.fail .cancelled true

def disconnect (m : StreamMachine) : StreamMachine :=
  touch { m.fail .carrierLost false with terminalMessage := none }

def setIoState (m : StreamMachine) (state : IoState) : StreamMachine × Except Error Unit :=
  if m.config.side ≠ .endpoint then (m, .error .wrongSide)
  else match m.live with
  | .error e => (m, .error e)
  | .ok () =>
    if m.closeDeadline.isSome || m.closeReceived then (m, .error .wrongState)
    else match m.expireIoIfDue with
    | (m, .error e) => (m, .error e)
    | (m, .ok ()) =>
      let before := m.io.status m.now
      let m := { m with io := m.io.setState m.now state }
      if before.state = state then (m, .ok ())
      else if m.io.due m.now then (m.fail .timeout true, .error .timeout)
      else (m, .ok ())

def recordIoProgress (m : StreamMachine) (bytes : ℕ) : StreamMachine × Except Error Unit :=
  if m.config.side ≠ .endpoint then (m, .error .wrongSide)
  else match m.live with
  | .error e => (m, .error e)
  | .ok () =>
    if m.closeDeadline.isSome || m.closeReceived then (m, .error .wrongState)
    else match m.expireIoIfDue with
    | (m, .error e) => (m, .error e)
    | (m, .ok ()) =>
      match m.io.progress m.now bytes m.config.ioTimeoutMs with
      | .error e => (m, .error e)
      | .ok io => ({ m with io := io }, .ok ())

def ioStatus (m : StreamMachine) : IoStatus := m.io.status m.now

/-- Time passes. -/
def advance (m : StreamMachine) (nowMs : ℕ) : StreamMachine :=
  if nowMs < m.now then m
  else
    let wasDue := m.batchDeadline.any (· ≤ m.now)
    let m := { m with now := nowMs }
    if m.error.isSome || m.completed.isSome then m
    else if m.expired then m.fail .timeout true
    else if !wasDue && m.batchDeadline.any (· ≤ m.now) then m.touch
    else m

def nextDeadline (m : StreamMachine) : Option ℕ :=
  if m.error.isSome || m.completed.isSome then none
  else
    let batch := m.batchDeadline.filter fun deadline => decide (deadline > m.now) && !m.forceSend
    ([m.io.deadline, batch, m.closeDeadline].filterMap id).min?

/-! ### Incoming messages -/

def acceptData (m : StreamMachine) (data : Data) : Except Error StreamMachine :=
  match checkedAdd data.offset data.payload.length with
  | none => .error .protocol
  | some finish =>
    if m.endReceived || data.offset != m.received || data.payload.isEmpty ||
        decide (data.payload.length > m.config.maxPayload) || decide (finish > m.advertisedLimit)
    then .error .protocol
    else if m.discarding then
      .ok { m with consumed := finish, discarded := true, received := finish }
    else if m.recv.length + data.payload.length > m.config.receiveWindow then .error .protocol
    else
      let recv := m.recv ++ data.payload
      .ok { m with recv := recv, peakRecv := max m.peakRecv recv.length, received := finish }

def acceptFlush (m : StreamMachine) (barrier : Barrier) : Except Error StreamMachine :=
  if m.peerFlush.isSome || decide (barrier.barrierId ≤ m.peerFlushSerial) ||
      barrier.offset != m.received || m.endReceived then .error .protocol
  else .ok { m with peerFlushSerial := barrier.barrierId, peerFlush := some barrier }

def acceptFlushed (m : StreamMachine) (barrier : Barrier) : Except Error StreamMachine :=
  match m.flush with
  | none => .error .protocol
  | some pending =>
    if !pending.sent || pending.id != barrier.barrierId || pending.offset != barrier.offset then
      .error .protocol
    else .ok { m with flushAcked := pending.id, flush := none }

def acceptClose (m : StreamMachine) (close : Option Close) : Except Error StreamMachine :=
  if m.config.side ≠ .endpoint || !m.endReceived then .error .protocol
  else match close with
  | none => .error .protocol
  | some close =>
    if close.finalOffset ≠ m.received then .error .protocol
    else if m.closeReceived then .ok m
    else
      let m := stopIoClock { m with closeReceived := true }
      .ok { m with closeDeadline := some (satAdd m.now m.config.closeTimeoutMs) }

def acceptClosed (m : StreamMachine) (closed : Option Closed) : Except Error StreamMachine :=
  if m.config.side ≠ .initiator || !m.closeSent || !m.endReceived then .error .protocol
  else match closed with
  | none => .error .protocol
  | some closed =>
    match closed.failure with
    | some failure =>
      let m := { m with failureFacts := some closed.facts }
      let m := m.fail (.peerFailed failure.code failure.effect) false
      .ok { m with retainedFailure := some failure }
    | none =>
      let result : CloseResult :=
        { disposition := closed.disposition
          unreadResponseDiscarded := m.discarded || closed.unreadResponseDiscarded
          facts := closed.facts }
      .ok { m with completed := some result }

def acceptFailed (m : StreamMachine) (failure : Failure) : StreamMachine :=
  let m := { m with failureFacts := failure.facts }
  let m := m.fail (.peerFailed failure.code failure.effect) false
  { m with retainedFailure := some failure }

/-- The message's own part of `accept`, after header and admission. -/
def acceptBody (m : StreamMachine) (message : Envelope) : Except Error StreamMachine :=
  match message.kind with
  | .data => (required .protocol message.data).bind fun data => (m.acceptData data).map touch
  | .window => (required .protocol message.window).bind fun window =>
    -- a limit that grants nothing new is ignored and not even counted as a change
    if window.maxOffset ≤ m.peerLimit then .ok m
    else if window.maxOffset > satAddInt m.sent m.config.peerReceiveWindow then .error .protocol
    else .ok (touch { m with peerLimit := window.maxOffset })
  | .flush =>
    (required .protocol message.flush).bind fun barrier => (m.acceptFlush barrier).map touch
  | .flushed =>
    (required .protocol message.flushed).bind fun barrier => (m.acceptFlushed barrier).map touch
  | .endWrite => (required .protocol message.endWrite).bind fun ending =>
    if ending.finalOffset ≠ m.received then .error .protocol
    else .ok (touch { m with endReceived := true })
  | .close => (m.acceptClose message.close).map touch
  | .closed => (m.acceptClosed message.closed).map touch
  | .cancel => (required .protocol message.cancel).bind fun cancel =>
    .ok (m.fail (if cancel.reason = .timeout then .timeout else .cancelled) false).touch
  | .failed =>
    (required .protocol message.failed).bind fun failure => .ok (m.acceptFailed failure).touch
  | _ => .error .protocol

/-- A body that was received. -/
def accept (m : StreamMachine) (message : Envelope) : Except Error StreamMachine :=
  if message.sessionId ≠ m.config.sessionId ∨ message.streamId ≠ m.config.streamId ∨
      message.version ≠ m.config.profileVersion then .error .protocol
  else match Codec.admitLimited message m.config.receiveLimits with
  | .error _ => .error .protocol
  | .ok () => m.acceptBody message

/-- Deliver one ordered message.  `accept` changes nothing when it refuses. -/
def receive (m : StreamMachine) (message : Envelope) : StreamMachine × Except Error Unit :=
  if m.error.isSome || m.completed.isSome then (m, .ok ())
  else match m.expireIoIfDue with
  | (m, .error e) => (m, .error e)
  | (m, .ok ()) =>
    match m.accept message with
    | .ok m' => (m', .ok ())
    | .error e => (m.fail .protocol true, .error e)

/-! ### Outgoing messages -/

/-- How far the peer's data has reached its sink on this side. -/
def sinkOffset (m : StreamMachine) : ℤ :=
  if m.config.side = .initiator then m.received else m.consumed

/-- Whether buffered data may be sent now. -/
def eligible (m : StreamMachine) : Bool :=
  m.forceSend || decide (m.send.length ≥ m.config.maxPayload) ||
    m.send.length == m.config.sendBuffer || m.batchDeadline.any (· ≤ m.now)

/-- The credit left, as the source computes it: a cast, so a negative difference would wrap. -/
def credit (m : StreamMachine) : ℕ := asUsize (m.peerLimit - m.sent)

def dataCount (m : StreamMachine) : ℕ :=
  min (min m.send.length m.config.maxPayload) m.credit

/-- The message that carries the next bytes of the send buffer, and the state after it. -/
def sendData (m : StreamMachine) : StreamMachine × Envelope :=
  let count := m.dataCount
  let data : Data := { offset := m.sent, payload := m.send.take count }
  let m := { m with send := m.send.drop count, sent := m.sent + count }
  let m := if m.send.isEmpty then { m with batchDeadline := none, forceSend := false } else m
  (m.touch, { m.envelope .data with data := some data })

/-- After the control slots: data, then the half-close, then the close request. -/
def nextData (m : StreamMachine) : StreamMachine × Option Envelope :=
  if !m.send.isEmpty && m.eligible && decide (m.credit > 0) then
    (m.sendData.1, some m.sendData.2)
  else if m.endRequested && !m.endSent && m.send.isEmpty then
    (touch { m with endSent := true },
      some { m.envelope .endWrite with endWrite := some { finalOffset := m.sent } })
  else if m.config.side = .initiator ∧ m.closeDeadline.isSome ∧ m.endSent ∧ ¬ m.closeSent then
    (touch { m with closeSent := true },
      some { m.envelope .close with close := some { finalOffset := m.sent } })
  else (m, none)

/-- The control slots after flush answers: credit, the final result, the flush request. -/
def nextControl (m : StreamMachine) : StreamMachine × Option Envelope :=
  let limit := satAddInt m.consumed m.config.receiveWindow
  if limit > m.advertisedLimit then
    (touch { m with advertisedLimit := limit },
      some { m.envelope .window with window := some { maxOffset := limit } })
  else match m.closePending with
  | some closed =>
    let result : CloseResult :=
      { disposition := closed.disposition
        unreadResponseDiscarded := closed.unreadResponseDiscarded
        facts := closed.facts }
    (touch { m with closePending := none, completed := some result },
      some (m.closedMessage closed))
  | none =>
    match m.flush with
    | none => m.nextData
    | some flush =>
      if !flush.sent && m.sent == flush.offset then
        (touch { m with flush := some { flush with sent := true } },
          some { m.envelope .flush with
            flush := some { barrierId := flush.id, offset := flush.offset } })
      else m.nextData

/-- The next message to send. -/
def nextMessage (m : StreamMachine) : StreamMachine × Option Envelope :=
  match m.terminalMessage with
  | some message => (touch { m with terminalMessage := none }, some message)
  | none =>
    if m.error.isSome || m.completed.isSome then (m, none)
    else match m.peerFlush with
    | none => m.nextControl
    | some barrier =>
      if barrier.offset ≤ m.sinkOffset then
        (touch { m with peerFlush := none },
          some { m.envelope .flushed with flushed := some barrier })
      else m.nextControl

end StreamMachine

/-! ### Operations -/

/-- The calls of an application or of its host. -/
inductive Call
  | write (input : List UInt8)
  | read (n : ℕ)
  | startFlush
  | endWrite
  | startClose
  | completeClose (disposition : Disposition) (facts : Facts)
  | completeCloseFailure (disposition : Disposition) (facts : Facts) (code : ErrorCode)
      (effect : Effect)
  | failTerminal (failure : Failure)
  | cancel
  | disconnect
  | setIoState (state : IoState)
  | recordIoProgress (bytes : ℕ)
  | advance (nowMs : ℕ)
  deriving DecidableEq

/-- What an operation answers. -/
inductive Outcome
  | count (r : Except Error ℕ)
  | bytes (r : Except Error (List UInt8))
  | ticket (r : Except Error FlushTicket)
  | done (r : Except Error Unit)
  | message (m : Option Envelope)

def StreamMachine.call (m : StreamMachine) : Call → StreamMachine × Outcome
  | .write input => let r := m.write input; (r.1, .count r.2)
  | .read n => let r := m.read n; (r.1, .bytes r.2)
  | .startFlush => let r := m.startFlush; (r.1, .ticket r.2)
  | .endWrite => let r := m.endWrite; (r.1, .done r.2)
  | .startClose => let r := m.startClose; (r.1, .done r.2)
  | .completeClose disposition facts =>
    let r := m.completeClose disposition facts; (r.1, .done r.2)
  | .completeCloseFailure disposition facts code effect =>
    let r := m.completeCloseFailure disposition facts code effect; (r.1, .done r.2)
  | .failTerminal failure => let r := m.failTerminal failure; (r.1, .done r.2)
  | .cancel => (m.cancel, .done (.ok ()))
  | .disconnect => (m.disconnect, .done (.ok ()))
  | .setIoState state => let r := m.setIoState state; (r.1, .done r.2)
  | .recordIoProgress bytes => let r := m.recordIoProgress bytes; (r.1, .done r.2)
  | .advance nowMs => (m.advance nowMs, .done (.ok ()))

/-- Everything that can happen to one machine. -/
inductive Op
  | call (c : Call)
  | receive (message : Envelope)
  | nextMessage
  deriving DecidableEq

def StreamMachine.step (m : StreamMachine) : Op → StreamMachine × Outcome
  | .call c => m.call c
  | .receive message => let r := m.receive message; (r.1, .done r.2)
  | .nextMessage => let r := m.nextMessage; (r.1, .message r.2)

/-- An operation with its outcome. -/
abbrev Event := Op × Outcome

/-- The machine as a transition system. -/
def Step (m : StreamMachine) (e : Event) (m' : StreamMachine) : Prop := m.step e.1 = (m', e.2)

end GwzTransport.Stream
