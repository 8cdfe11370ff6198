import GwzTransport.Lib.SortedMap
import GwzTransport.Lib.Transition
import GwzTransport.Binding

/-!
# The sequenced kernel

Profile 3 numbers the frames of every stream, so that a carrier may reorder and repeat them.
`Outbound` gives a frame its number when it enters the bounded local queue.  `Receiver` puts the
frames of one direction back in order: the next frame of a stream is handed to the application at
once, later frames are held, and an abortive frame overtakes what it makes pointless.

* `Outbound.new`, `enqueue`, `pop`: the sender;
* `Receiver.new`, `register`, `advance`, `submit`, `retry`: the receiver;
* `Receiver.call` and `Receiver.Step`: one call with everything the caller sees of it.

While a call works on a stream, the stream is out of the receiver's map; `Turn` is what such a
work leaves.  The application is asked through a callback, and a call stops at the first frame
that is not accepted.  So the answer to a frame depends on what was accepted before it, and a
callback is a function of the number of frames already accepted during the call.
-/

namespace GwzTransport.Sequenced

open Protocol MachineInt Checks

def maxLifetimeStreams : ℕ := 4096
def maxActiveStreams : ℕ := 64
def maxReorderPerStream : ℕ := 8
def maxReorderPerBinding : ℕ := 32
def gapTimeoutMs : ℕ := 30000

/-- What a stream's record and a held frame weigh beside their content: sizes that the target
fixes (`RECORD_CHARGE`, `FRAME_OVERHEAD`). -/
structure Layout where
  recordCharge : ℕ
  frameOverhead : ℕ

/-- Which side sends. -/
inductive Direction
  | initiator
  | endpoint
  deriving DecidableEq

/-- Why a call fails. -/
inductive Error
  | invalidMessage | wrongSession | capacity | wouldBlock | protocol | gapTimeout | applyRejected
  | closed
  deriving DecidableEq

/-- The application's refusals. -/
inductive ApplyError
  | wouldBlock
  | rejected
  deriving DecidableEq

/-- What became of a frame. -/
inductive Status
  | buffered | applied | superseded | alreadyResolved
  deriving DecidableEq

/-- A frame with its status. -/
structure Resolution where
  streamId : ℤ
  messageSeq : ℤ
  status : Status
  deriving DecidableEq

/-- What a submission answers. -/
structure Report where
  submitted : Status
  resolved : List Resolution
  deriving DecidableEq

def validLimits (lay : Layout) (limits : Limits) : Except Error Unit :=
  refuseIf (!Binding.validSequencedLimits lay.frameOverhead lay.recordCharge limits) .capacity

def firstKind : Direction → MessageKind → Bool
  | .initiator, kind => kind == .open_ || kind == .checkIdentity
  | .endpoint, kind =>
    kind == .opened || kind == .openFailed || kind == .identityChecked ||
      kind == .identityCheckFailed || kind == .failed

def abortive (kind : MessageKind) : Bool :=
  kind == .openFailed || kind == .identityCheckFailed || kind == .failed || kind == .cancel

/-- The last frame of its sender. -/
def senderFinal (kind : MessageKind) : Bool :=
  abortive kind || kind == .closed || kind == .identityChecked

def charge (message : Envelope) (limits : Limits) : Except Error ℕ :=
  orError .invalidMessage (Codec.allocationCharge message limits)

/-- What a frame weighs in a queue. -/
def frameCharge (lay : Layout) (message : Envelope) (limits : Limits) : Except Error ℕ := do
  let c ← charge message limits
  return satAdd c lay.frameOverhead

/-! ### The sender -/

/-- The numbering sender. -/
structure Outbound where
  sessionId : String
  direction : Direction
  limits : Limits
  maxQueued : ℕ
  queue : List (Envelope × ℕ)
  queuedCharge : ℕ
  next : SortedMap ℤ ℤ
  ended : SortedMap ℤ Bool
  closeSent : SortedMap ℤ Unit

namespace Outbound

def new (lay : Layout) (sessionId : String) (direction : Direction) (limits : Limits)
    (maxQueued : ℕ) : Except Error Outbound := do
  validLimits lay limits
  refuseIf (sessionId.isEmpty || maxQueued == 0 ||
    decide (asUsize (limits.queuedFrames - limits.controlReserveFrames) < maxQueued)) .capacity
  return { sessionId, direction, limits, maxQueued, queue := [], queuedCharge := 0
           next := .empty, ended := .empty, closeSent := .empty }

/-- The frames that may follow the sender's own `Close`. -/
def afterClose (kind : MessageKind) : Bool :=
  kind == .window || kind == .flushed || kind == .cancel || kind == .failed

/-- The checks of a new frame before it gets a number. -/
def admitFrame (o : Outbound) (message : Envelope) : Except Error Unit := do
  refuseIf (message.sessionId != o.sessionId) .wrongSession
  refuseIf (message.version != 3 || decide (message.streamId ≤ 0) || message.messageSeq.isSome)
    .invalidMessage
  refuseIf (o.ended.get? message.streamId).isSome .closed
  refuseIf ((o.closeSent.get? message.streamId).isSome && !afterClose message.kind) .protocol
  let newStream := (o.next.get? message.streamId).isNone
  refuseIf (newStream && decide (maxLifetimeStreams ≤ o.next.size)) .capacity
  refuseIf (newStream && decide (maxActiveStreams ≤ o.next.size - o.ended.size)) .capacity
  refuseIf (newStream && !firstKind o.direction message.kind) .protocol

/-- Whether the queue has no room for a frame; control frames may use the reserve. -/
def full (o : Outbound) (kind : MessageKind) (frameCharge : ℕ) : Bool :=
  let control := kind != .data
  let frameLimit := o.maxQueued + if control then asUsize o.limits.controlReserveFrames else 0
  let byteLimit :=
    asUsize (o.limits.queuedBytes - if control then 0 else o.limits.controlReserveBytes)
  decide (frameLimit ≤ o.queue.length) || decide (byteLimit < satAdd o.queuedCharge frameCharge)

def enqueue (lay : Layout) (o : Outbound) (message : Envelope) :
    Except Error (Outbound × ℤ) := do
  o.admitFrame message
  let sequence := (o.next.get? message.streamId).getD 1
  let next ← required .capacity (checkedAdd sequence 1)
  let message := { message with messageSeq := some sequence }
  let c ← frameCharge lay message o.limits
  refuseIf (o.full message.kind c) .wouldBlock
  return ({ o with
    queuedCharge := o.queuedCharge + c
    queue := o.queue ++ [(message, c)]
    next := o.next.insert message.streamId next
    closeSent :=
      if message.kind == .close then o.closeSent.insert message.streamId () else o.closeSent
    ended :=
      if senderFinal message.kind then o.ended.insert message.streamId true else o.ended },
    sequence)

def pop (o : Outbound) : Option (Envelope × Outbound) :=
  match o.queue with
  | [] => none
  | (message, c) :: rest =>
    some (message, { o with queue := rest, queuedCharge := o.queuedCharge - c })

end Outbound

/-! ### The receiver -/

/-- A frame that is held. -/
structure Pending where
  message : Envelope
  charge : ℕ

/-- What is known of a stream. -/
structure StreamState where
  expected : ℤ
  pending : SortedMap ℤ Pending
  gapSince : Option ℕ
  opening : Option Envelope
  terminal : Option (ℤ × Envelope)

def StreamState.new : StreamState where
  expected := 1
  pending := .empty
  gapSince := none
  opening := none
  terminal := none

/-- The ordering receiver. -/
structure Receiver where
  sessionId : String
  direction : Direction
  limits : Limits
  streams : SortedMap ℤ StreamState
  bufferedFrames : ℕ
  bufferedCharge : ℕ
  retainedCharge : ℕ
  failed : Bool

/-- The application's answer to a frame, after so many frames that it accepted during the same
call. -/
abbrev Apply := ℕ → Envelope → Except ApplyError Unit

/-- What a piece of work on one stream leaves: the receiver without the stream, the stream, the
result, and the frames the application accepted on the way. -/
structure Turn (α : Type) where
  receiver : Receiver
  state : StreamState
  result : Except Error α
  applied : List Envelope

namespace Receiver

def new (lay : Layout) (sessionId : String) (direction : Direction) (limits : Limits) :
    Except Error Receiver := do
  validLimits lay limits
  refuseIf sessionId.isEmpty .invalidMessage
  return { sessionId, direction, limits, streams := .empty, bufferedFrames := 0
           bufferedCharge := 0, retainedCharge := 0, failed := false }

def availableBytes (r : Receiver) : ℕ :=
  asUsize (r.limits.queuedBytes - r.limits.controlReserveBytes)

/-- Room for a missing first frame. -/
def predecessorReserve (lay : Layout) (r : Receiver) : ℕ :=
  asUsize (r.limits.encodedFrame + r.limits.decodeAllocation) + lay.frameOverhead

/-- The weight of the records of the streams in the map and of one more. -/
def records (lay : Layout) (r : Receiver) : ℕ :=
  satMul (satAdd r.streams.size 1) lay.recordCharge

def register (lay : Layout) (r : Receiver) (streamId : ℤ) : Except Error Receiver := do
  refuseIf r.failed .closed
  refuseIf (decide (streamId ≤ 0) || (r.streams.get? streamId).isSome) .protocol
  let active := r.streams.countWhere fun state => state.terminal.isNone
  refuseIf (decide (maxLifetimeStreams ≤ r.streams.size) || decide (maxActiveStreams ≤ active))
    .capacity
  refuseIf (decide (r.availableBytes < satAdd (satAdd (satAdd (r.records lay) r.retainedCharge)
    r.bufferedCharge) (r.predecessorReserve lay))) .capacity
  return { r with streams := r.streams.insert streamId .new }

/-- Whether a stream has waited too long for a frame. -/
def overdue (r : Receiver) (now : ℕ) : Bool :=
  r.streams.toList.any fun e => e.2.gapSince.any fun start =>
    decide (satAdd start gapTimeoutMs ≤ now)

def advance (r : Receiver) (now : ℕ) : Receiver × Except Error Unit :=
  if r.failed then (r, .error .closed)
  else if r.overdue now then ({ r with failed := true }, .error .gapTimeout)
  else (r, .ok ())

def uncharge (r : Receiver) (c : ℕ) : Receiver :=
  { r with bufferedFrames := r.bufferedFrames - 1, bufferedCharge := r.bufferedCharge - c }

def checkRetain (lay : Layout) (r : Receiver) (c releasing : ℕ) : Except Error Unit :=
  refuseIf (decide (r.availableBytes < satAdd (satAdd (satAdd (r.records lay) r.retainedCharge)
    (r.bufferedCharge - releasing)) c)) .wouldBlock

/-- Whether there is no room to hold one more frame; a frame that came too early leaves room for
the frame it waits for. -/
def crowded (lay : Layout) (r : Receiver) (state : StreamState) (c : ℕ) (outOfOrder : Bool) :
    Bool :=
  let outOfOrderCount := (state.pending.keysWhere fun sequence _ =>
    decide (state.expected < sequence)).length
  let reserve := if outOfOrder then r.predecessorReserve lay else 0
  (outOfOrder && (decide (maxReorderPerStream ≤ outOfOrderCount) ||
      decide (maxReorderPerBinding ≤ r.bufferedFrames))) ||
    decide (r.availableBytes < satAdd (satAdd (satAdd (satAdd r.bufferedCharge r.retainedCharge)
      (r.records lay)) c) reserve) ||
    decide (asUsize (r.limits.queuedFrames - r.limits.controlReserveFrames) <
      r.bufferedFrames + 1 + outOfOrder.toNat)

/-- `buffer`: the frame is held under its number. -/
def buffer (lay : Layout) (r : Receiver) (state : StreamState) (message : Envelope)
    (sequence : ℤ) (c now : ℕ) (outOfOrder : Bool) : Turn Report :=
  if r.crowded lay state c outOfOrder then ⟨r, state, .error .wouldBlock, []⟩
  else
    ⟨{ r with bufferedFrames := r.bufferedFrames + 1, bufferedCharge := r.bufferedCharge + c },
      { state with
        gapSince := some (state.gapSince.getD now)
        pending := state.pending.insert sequence ⟨message, c⟩ },
      .ok ⟨.buffered, []⟩, []⟩

/-- What `mark_applied` does with a last frame that has held frames behind it. -/
abbrev Branch := Receiver → StreamState → Receiver × StreamState × Except Error Unit

/-- The branch of the source. -/
abbrev answerProtocol : Branch := fun r state => (r, state, .error .protocol)

/-- `mark_applied`; every frame that gets here has a number.  The branch is a parameter of all that
is built on it, with the source's as default. -/
def markApplied (r : Receiver) (state : StreamState) (message : Envelope) (c : ℕ)
    (branch : Branch := answerProtocol) : Receiver × StreamState × Except Error Unit :=
  let sequence := message.messageSeq.getD 0
  let opens := sequence == 1 && !senderFinal message.kind
  let r := if opens then { r with retainedCharge := r.retainedCharge + c } else r
  let state := if opens then { state with opening := some message } else state
  match checkedAdd sequence 1 with
  | none => (r, state, .error .capacity)
  | some next =>
    let state := { state with expected := next }
    if senderFinal message.kind then
      if !state.pending.isEmpty then branch r state
      else
        (if sequence != 1 then { r with retainedCharge := r.retainedCharge + c } else r,
          { state with terminal := some (sequence, message) }, .ok ())
    else (r, state, .ok ())

/-- The end of a drain: without held frames there is no gap. -/
def drained (r : Receiver) (state : StreamState) : Turn (List Resolution) :=
  ⟨r, if state.pending.isEmpty then { state with gapSince := none } else state, .ok [], []⟩

/-- The loop of `drain_pending`, with the number of frames accepted so far and a bound on the
rounds; a round takes one frame out of `pending`. -/
def drainRounds (streamId : ℤ) (apply : Apply) (rounds accepted : ℕ) (r : Receiver)
    (state : StreamState) (branch : Branch := answerProtocol) : Turn (List Resolution) :=
  match rounds with
  | 0 => r.drained state
  | rounds + 1 =>
    match state.pending.get? state.expected with
    | none => r.drained state
    | some held =>
      let rest := state.pending.erase state.expected
      if senderFinal held.message.kind && !rest.isEmpty then ⟨r, state, .error .protocol, []⟩
      else
        match apply accepted held.message with
        | .error .wouldBlock => r.drained state
        | .error .rejected => ⟨r, { state with pending := rest }, .error .applyRejected, []⟩
        | .ok () =>
          match (r.uncharge held.charge).markApplied { state with pending := rest } held.message
              held.charge branch with
          | (r, state, .error e) => ⟨r, state, .error e, [held.message]⟩
          | (r, state, .ok ()) =>
            let turn := drainRounds streamId apply rounds (accepted + 1) r state branch
            { turn with
              result := turn.result.map
                (⟨streamId, held.message.messageSeq.getD 0, .applied⟩ :: ·)
              applied := held.message :: turn.applied }

def drainPending (r : Receiver) (state : StreamState) (streamId : ℤ) (apply : Apply)
    (accepted : ℕ) (branch : Branch := answerProtocol) : Turn (List Resolution) :=
  drainRounds streamId apply (state.pending.size + 1) accepted r state branch

/-- The answer to a frame whose number is already taken or overtaken, if it is. -/
def remembered (state : StreamState) (message : Envelope) (sequence : ℤ) :
    Option (Except Error Report) :=
  match state.terminal with
  | some (last, terminal) => some <|
    if sequence == 1 && state.opening.any (fun opening => opening != message) then
      .error .protocol
    else if sequence < last then
      .ok ⟨if sequence < state.expected then .alreadyResolved else .superseded, []⟩
    else if sequence == last && message == terminal then .ok ⟨.alreadyResolved, []⟩
    else .error .protocol
  | none =>
    if sequence < state.expected then some <|
      if sequence == 1 && state.opening != some message then .error .protocol
      else .ok ⟨.alreadyResolved, []⟩
    else
      match state.pending.get? sequence with
      | some held => some <|
        if held.message != message then .error .protocol else .ok ⟨.buffered, []⟩
      | none => none

/-- Whether a frame may overtake the frames before it. -/
def overtakes (direction : Direction) (state : StreamState) (kind : MessageKind)
    (sequence : ℤ) : Bool :=
  decide (state.expected < sequence) && abortive kind &&
    (state.opening.isSome || (direction == .initiator && kind == .cancel))

/-- An abortive frame that overtakes: what is held of the stream is dropped. -/
def supersede (lay : Layout) (r : Receiver) (state : StreamState) (message : Envelope)
    (sequence : ℤ) (c : ℕ) (apply : Apply) : Turn Report :=
  if state.pending.toList.any
      (fun e => decide (e.1 < sequence) && senderFinal e.2.message.kind) then
    ⟨r, state, .error .protocol, []⟩
  else if state.pending.toList.any (fun e => decide (satAddInt sequence 1 ≤ e.1)) then
    ⟨r, state, .error .protocol, []⟩
  else
    match r.checkRetain lay c (state.pending.sum (·.charge)) with
    | .error e => ⟨r, state, .error e, []⟩
    | .ok () =>
      match apply 0 message with
      | .error .wouldBlock => ⟨r, state, .error .wouldBlock, []⟩
      | .error .rejected => ⟨r, state, .error .applyRejected, []⟩
      | .ok () =>
        let r := state.pending.toList.foldl (fun r e => r.uncharge e.2.charge) r
        ⟨{ r with retainedCharge := r.retainedCharge + c },
          { state with
            pending := .empty
            terminal := some (sequence, message)
            gapSince := none },
          .ok ⟨.applied, state.pending.toList.map (fun e =>
            ⟨message.streamId, e.1, .superseded⟩) ++ [⟨message.streamId, sequence, .applied⟩]⟩,
          [message]⟩

/-- The frame a stream waits for: applied, with the held frames that follow it. -/
def applyNext (lay : Layout) (r : Receiver) (state : StreamState) (message : Envelope)
    (sequence : ℤ) (c now : ℕ) (apply : Apply) (branch : Branch := answerProtocol) :
    Turn Report :=
  if senderFinal message.kind && !state.pending.isEmpty then ⟨r, state, .error .protocol, []⟩
  else
    match if sequence == 1 || senderFinal message.kind then r.checkRetain lay c 0 else .ok () with
    | .error e => ⟨r, state, .error e, []⟩
    | .ok () =>
      match apply 0 message with
      | .error .wouldBlock => r.buffer lay state message sequence c now false
      | .error .rejected => ⟨r, state, .error .applyRejected, []⟩
      | .ok () =>
        match r.markApplied state message c branch with
        | (r, state, .error e) => ⟨r, state, .error e, [message]⟩
        | (r, state, .ok ()) =>
          let turn := r.drainPending state message.streamId apply 1 branch
          { turn with
            result := turn.result.map fun resolved =>
              ⟨.applied, ⟨message.streamId, sequence, .applied⟩ :: resolved⟩
            applied := message :: turn.applied }

def submitInner (lay : Layout) (r : Receiver) (state : StreamState) (message : Envelope)
    (sequence : ℤ) (c now : ℕ) (apply : Apply) (branch : Branch := answerProtocol) :
    Turn Report :=
  match remembered state message sequence with
  | some answer => ⟨r, state, answer, []⟩
  | none =>
    if sequence == 1 && !firstKind r.direction message.kind then ⟨r, state, .error .protocol, []⟩
    else if overtakes r.direction state message.kind sequence then
      r.supersede lay state message sequence c apply
    else if state.expected < sequence then r.buffer lay state message sequence c now true
    else r.applyNext lay state message sequence c now apply branch

/-- Whether a failed work ends the receiver. -/
def fatal {α : Type} : Except Error α → Bool
  | .error .protocol => true
  | .error .applyRejected => true
  | _ => false

/-- The stream goes back into the map. -/
def restore {α : Type} (streamId : ℤ) (turn : Turn α) : Receiver :=
  { turn.receiver with
    streams := turn.receiver.streams.insert streamId turn.state
    failed := turn.receiver.failed || fatal turn.result }

/-- The receiver while a stream is worked on. -/
def without (r : Receiver) (streamId : ℤ) : Receiver :=
  { r with streams := r.streams.erase streamId }

/-- The checks of a submitted frame; its number and its weight. -/
def checkFrame (lay : Layout) (r : Receiver) (message : Envelope) : Except Error (ℤ × ℕ) := do
  refuseIf (message.sessionId != r.sessionId) .wrongSession
  refuseIf (message.version != 3 || decide (message.streamId ≤ 0)) .invalidMessage
  let sequence ← required .invalidMessage message.messageSeq
  let c ← frameCharge lay message r.limits
  return (sequence, c)

/-- What the caller and the application see of a call. -/
structure Answer (α : Type) where
  result : Except Error α
  applied : List Envelope

/-- A frame arrives. -/
def submit (lay : Layout) (r : Receiver) (message : Envelope) (now : ℕ) (apply : Apply)
    (branch : Branch := answerProtocol) : Receiver × Answer Report :=
  match r.advance now with
  | (r, .error e) => (r, ⟨.error e, []⟩)
  | (r, .ok ()) =>
    match r.checkFrame lay message with
    | .error e => (r, ⟨.error e, []⟩)
    | .ok (sequence, c) =>
      match r.streams.get? message.streamId with
      | none => (r, ⟨.error .protocol, []⟩)
      | some state =>
        let turn := (r.without message.streamId).submitInner lay state message sequence c now apply
          branch
        (restore message.streamId turn, ⟨turn.result, turn.applied⟩)

/-- What `retry` reports. -/
def retried (state : StreamState) (resolved : List Resolution) : Report :=
  ⟨if resolved.isEmpty then
      if state.pending.isEmpty then .alreadyResolved else .buffered
    else .applied, resolved⟩

/-- Held frames are tried again. -/
def retry (r : Receiver) (streamId : ℤ) (now : ℕ) (apply : Apply)
    (branch : Branch := answerProtocol) : Receiver × Answer Report :=
  match r.advance now with
  | (r, .error e) => (r, ⟨.error e, []⟩)
  | (r, .ok ()) =>
    match r.streams.get? streamId with
    | none => (r, ⟨.error .protocol, []⟩)
    | some state =>
      let turn := (r.without streamId).drainPending state streamId apply 0 branch
      let turn : Turn Report := { turn with result := turn.result.map (retried turn.state) }
      (restore streamId turn, ⟨turn.result, turn.applied⟩)

/-! ### Calls and runs -/

/-- The calls of a receiver. -/
inductive Call
  | register (streamId : ℤ)
  | advance (now : ℕ)
  | submit (message : Envelope) (now : ℕ) (apply : Apply)
  | retry (streamId : ℤ) (now : ℕ) (apply : Apply)

/-- A call's answer, with its report if it makes one. -/
abbrev Outcome := Answer (Option Report)

def call (lay : Layout) (r : Receiver) : Call → Receiver × Outcome
  | .register streamId =>
    match r.register lay streamId with
    | .ok r' => (r', ⟨.ok none, []⟩)
    | .error e => (r, ⟨.error e, []⟩)
  | .advance now => ((r.advance now).1, ⟨(r.advance now).2.map fun _ => none, []⟩)
  | .submit message now apply =>
    let (r', answer) := r.submit lay message now apply
    (r', ⟨answer.result.map some, answer.applied⟩)
  | .retry streamId now apply =>
    let (r', answer) := r.retry streamId now apply
    (r', ⟨answer.result.map some, answer.applied⟩)

/-- One call of the host. -/
def Step (lay : Layout) (r : Receiver) (l : Call × Outcome) (r' : Receiver) : Prop :=
  r.call lay l.1 = (r', l.2)

end Receiver

end GwzTransport.Sequenced
