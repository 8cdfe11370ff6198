import GwzTransport.Binding

/-!
# Stream configuration and the I/O clock

`stream/mod.rs` and `stream/io_clock.rs`: the configuration of one side of a stream with its
validation, the errors a stream reports, and the host-reported accounting of active I/O.
-/

namespace GwzTransport.Stream

open Protocol MachineInt

/-- The ends of a stream. -/
inductive Side
  | initiator | endpoint
  deriving DecidableEq

/-- The other side. -/
def Side.peer : Side → Side
  | .initiator => .endpoint
  | .endpoint => .initiator

@[simp] theorem Side.peer_peer (s : Side) : s.peer.peer = s := by cases s <;> rfl
@[simp] theorem Side.peer_ne (s : Side) : s.peer ≠ s := by cases s <;> decide
@[simp] theorem Side.ne_peer (s : Side) : s ≠ s.peer := by cases s <;> decide

theorem Side.eq_or_eq_peer (s t : Side) : t = s ∨ t = s.peer := by
  cases s <;> cases t <;> simp [Side.peer]

/-- The errors of a stream. -/
inductive Error
  | wouldBlock | invalidConfig | protocol | cancelled | carrierLost | timeout | wrongState
  | writeClosed | closed | wrongSide | waiterCapacity
  | peerFailed (code : ErrorCode) (effect : Effect)
  deriving DecidableEq

/-- The configuration of one end of a stream. -/
structure Config where
  sessionId : String
  streamId : ℤ
  side : Side
  profileVersion : ℤ
  receiveLimits : Limits
  peerLimits : Limits
  sendBuffer : ℕ
  receiveWindow : ℕ
  peerReceiveWindow : ℕ
  maxPayload : ℕ
  coalesceDelayMs : ℕ
  closeTimeoutMs : ℕ
  ioTimeoutMs : ℕ
  interactionBudgetMs : ℕ
  maxWaiters : ℕ
  deriving DecidableEq

/-- The defaults of the source. -/
def Config.new (sessionId : String) (streamId : ℤ) (side : Side) : Config where
  sessionId := sessionId
  streamId := streamId
  side := side
  profileVersion := 1
  receiveLimits := Binding.defaultLimits
  peerLimits := Binding.defaultLimits
  sendBuffer := 65536
  receiveWindow := 65536
  peerReceiveWindow := 65536
  maxPayload := 16384
  coalesceDelayMs := 100
  closeTimeoutMs := 5000
  ioTimeoutMs := 3000
  interactionBudgetMs := 120000
  maxWaiters := 64

/-- Whether negotiated limits are valid and usable. -/
def limitsUsable (limits : Limits) : Bool :=
  (Codec.limits limits).isOk && (Binding.usable limits).isOk

/-- Whether a field is out of range, or in conflict with the negotiated limits. -/
def Config.outOfRange (k : Config) : Bool := decide
  (k.sessionId.isEmpty = true ∨ k.sessionId.utf8ByteSize > 128 ∨ k.streamId ≤ 0 ∨
    ¬ (1 ≤ k.profileVersion ∧ k.profileVersion ≤ 2) ∨
    k.sendBuffer = 0 ∨ k.sendBuffer > 4194304 ∨
    k.receiveWindow = 0 ∨ k.receiveWindow > 4194304 ∨
    k.peerReceiveWindow = 0 ∨ k.peerReceiveWindow > 4194304 ∨
    k.maxPayload = 0 ∨ k.maxPayload > 65536 ∨ k.closeTimeoutMs = 0 ∨
    k.ioTimeoutMs > i32Max ∨ k.interactionBudgetMs > 86400000 ∨
    k.maxWaiters = 0 ∨ k.maxWaiters > 1024 ∨
    (k.receiveWindow : ℤ) > k.receiveLimits.receiveWindow ∨
    (k.peerReceiveWindow : ℤ) > k.peerLimits.receiveWindow ∨
    (k.maxPayload : ℤ) > min k.receiveLimits.dataPayload k.peerLimits.dataPayload ∨
    (k.sendBuffer : ℤ) > k.peerLimits.queuedBytes - k.peerLimits.controlReserveBytes)

/-- The largest data message the stream can emit, at the largest offset. -/
def Config.probe (k : Config) : Envelope :=
  { version := 1, sessionId := k.sessionId, streamId := k.streamId, kind := .data
    data := some { offset := i64Max - k.maxPayload, payload := List.replicate k.maxPayload 0 } }

/-- The checks of a configuration. -/
def Config.validate (k : Config) : Except Error Unit :=
  if !([k.receiveLimits, k.peerLimits].all limitsUsable) then .error .invalidConfig
  else if k.outOfRange then .error .invalidConfig
  else if !([k.receiveLimits, k.peerLimits].all
      fun limits => (Codec.admitLimited k.probe limits).isOk) then .error .invalidConfig
  else .ok ()

/-- The name of a flush. -/
structure FlushTicket where
  id : ℤ
  deriving DecidableEq

/-- What a close gave. -/
structure CloseResult where
  disposition : Disposition
  unreadResponseDiscarded : Bool
  facts : Facts
  deriving DecidableEq

/-! ### The I/O clock -/

/-- What an end waits for. -/
inductive IoState
  | idle | network | backpressure | interaction
  deriving DecidableEq

/-- What a caller sees of the clock. -/
structure IoStatus where
  state : IoState
  remainingNetworkMs : ℕ
  remainingInteractionMs : ℕ
  activeDeadline : Option ℕ
  deriving DecidableEq

/-- The clock of the waits. -/
structure IoClock where
  state : IoState
  networkRemainingMs : ℕ
  interactionRemainingMs : ℕ
  deadline : Option ℕ
  deriving DecidableEq

namespace IoClock

/-- A clock that waits for nothing. -/
def new (networkMs interactionMs : ℕ) : IoClock := ⟨.idle, networkMs, interactionMs, none⟩

/-- The running budget is charged up to now. -/
def account (c : IoClock) (now : ℕ) : IoClock :=
  match c.deadline with
  | none => c
  | some deadline =>
    let remaining := deadline - now
    match c.state with
    | .network => { c with networkRemainingMs := remaining, deadline := none }
    | .interaction => { c with interactionRemainingMs := remaining, deadline := none }
    | .idle | .backpressure => { c with deadline := none }

/-- Another wait, on its own budget. -/
def setState (c : IoClock) (now : ℕ) (state : IoState) : IoClock :=
  if c.state = state then c
  else
    let c := c.account now
    { c with
      state := state
      deadline := match state with
        | .network =>
          if c.networkRemainingMs > 0 then some (satAdd now c.networkRemainingMs) else none
        | .interaction => some (satAdd now c.interactionRemainingMs)
        | .idle | .backpressure => none }

/-- Recorded progress refills the network budget; it is refused outside the network state. -/
def progress (c : IoClock) (now bytes timeoutMs : ℕ) : Except Error IoClock :=
  if bytes = 0 then .ok c
  else if c.state ≠ .network then .error .wrongState
  else .ok { c with
    networkRemainingMs := timeoutMs
    deadline := if timeoutMs > 0 then some (satAdd now timeoutMs) else none }

/-- The clock stops. -/
def stop (c : IoClock) (now : ℕ) : IoClock := { c.account now with state := .idle }

/-- A deadline has passed. -/
def due (c : IoClock) (now : ℕ) : Bool := c.deadline.any (· ≤ now)

/-- The budgets as they are now. -/
def status (c : IoClock) (now : ℕ) : IoStatus :=
  let left (fallback : ℕ) : ℕ := (c.deadline.map (· - now)).getD fallback
  { state := c.state
    remainingNetworkMs :=
      if c.state = .network then left c.networkRemainingMs else c.networkRemainingMs
    remainingInteractionMs :=
      if c.state = .interaction then left c.interactionRemainingMs
      else c.interactionRemainingMs
    activeDeadline := c.deadline }

end IoClock

end GwzTransport.Stream
