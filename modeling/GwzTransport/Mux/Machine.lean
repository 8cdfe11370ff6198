import Mathlib.Data.String.Basic
import GwzTransport.Mux.Types

/-!
# The request multiplexer

`mux/mod.rs` and `mux/routing.rs`: one side of a session.  The initiator registers requests,
bootstraps the session, starts streams and reads actions; the endpoint answers.  Both sides queue
what they send in `outbound`, what the host is to do in `actions`, and keep a route for each open
stream.

An operation that checks before it changes anything returns `Except Error Mux`; `cancel`,
`finish` and `receive` may fail after a change, so they return the new state beside their result.
`Mux.call` runs any public operation.
-/

/-- One side of a session; `endpointConfig` is present at the endpoint. -/
structure GwzTransport.Mux where
  profile : GwzTransport.Binding.Profile
  config : GwzTransport.Mux.Config
  session : String
  endpointConfig : Option GwzTransport.Binding.EndpointConfig
  phase : GwzTransport.Mux.Phase
  binding : Option GwzTransport.Binding
  offer : Option GwzTransport.Mux.Attachment
  acknowledgement : Option GwzTransport.Mux.Attachment
  rejection : Option GwzTransport.Protocol.Failure
  bootstrapDeadline : Option ℕ
  requests : SortedMap String GwzTransport.Mux.Request
  usedRequests : List String
  routes : SortedMap ℤ GwzTransport.Mux.Route
  highestId : ℤ
  outbound : GwzTransport.Mux.Queue
  actions : GwzTransport.Mux.Queue
  now : ℕ

namespace GwzTransport.Mux

open Protocol MachineInt Checks Binding

/-! ### Construction -/

def badConfig (session : String) (endpoint : Option EndpointConfig) (config : Config) : Bool :=
  !identifier session || config.maxRequests == 0 || decide (config.maxRequests > 4096) ||
    config.maxStreams == 0 || decide (config.maxStreams > 1024) ||
    config.bootstrapTimeoutMs == 0 || config.cleanupTimeoutMs == 0 || config.maxCheckMs == 0 ||
    decide (config.maxCheckMs > 120000) || !(usable config.limits).isOk ||
    !(Codec.limits config.limits).isOk ||
    endpoint.any fun e => e.role != config.role || e.endpointId.isEmpty || e.trustOwner.isEmpty ||
      !Codec.capabilities e.schemes e.policies || !(Codec.limits e.limits).isOk ||
      !noGreater e.limits config.limits

/-- A side before its first call. -/
def fresh (profile : Profile) (session : String) (endpoint : Option EndpointConfig)
    (config : Config) : Mux where
  profile := profile
  config := config
  session := session
  endpointConfig := endpoint
  phase := .unbound
  binding := none
  offer := none
  acknowledgement := none
  rejection := none
  bootstrapDeadline := none
  requests := .empty
  usedRequests := []
  routes := .empty
  highestId := 0
  outbound := .empty
  actions := .empty
  now := 0

def new (profile : Profile) (session : String) (endpoint : Option EndpointConfig)
    (config : Config) : Except Error Mux := do
  refuseIf (badConfig session endpoint config) .invalidRequest
  return fresh profile session endpoint config

def initiator (profile : Profile) (session : String) (config : Config) : Except Error Mux :=
  new profile session none config

def endpoint (profile : Profile) (session : String) (endpoint : EndpointConfig)
    (config : Config) : Except Error Mux :=
  new profile session (some endpoint) config

variable (m : Mux)

/-! ### Parts shared by the operations -/

def live : Except Error Unit := refuseIf (m.phase == .closed) .closed

def liveRequest (request : String) : Except Error Unit := do
  m.live
  refuseIf ((m.requests.get? request).all (·.sealed)) .invalidRequest

/-- The limits in force: the bound ones once there is a binding. -/
def limits : Limits := (m.binding.map Binding.limits).getD m.config.limits

/-- The message kinds that do not draw on the control reserve. -/
def controlKind : MessageKind → Bool
  | .data | .open_ | .checkIdentity => false
  | _ => true

def charge (item : Attachment) : Except Error ℕ := do
  let charge ← orError .protocol (Codec.allocationCharge item.2 m.limits)
  return charge + item.1.utf8ByteSize + 128

/-- A message is queued, if there is room. -/
def enqueue (item : Attachment) (outgoing : Bool) : Except Error Mux := do
  refuseIf (!identifier item.1) .invalidRequest
  let charge ← m.charge item
  let control := controlKind item.2.kind
  if outgoing then
    refuseIf (!m.outbound.canPush charge control m.limits) .wouldBlock
    return { m with outbound := m.outbound.push item charge control }
  else
    refuseIf (!m.actions.canPush charge control m.limits) .wouldBlock
    return { m with actions := m.actions.push item charge control }

/-- The session ends. -/
def disconnect : Mux :=
  { m with
    phase := .closed
    binding := none
    offer := none
    acknowledgement := none
    requests := .empty
    routes := .empty
    outbound := .empty
    actions := .empty }

def message (id : ℤ) (kind : MessageKind) : Except Error Envelope := do
  m.live
  refuseIf (m.phase != .ready) .wrongState
  return { version := 2, sessionId := m.session, streamId := id, kind }

/-! ### Validation -/

/-- The facts that are checked against the route. -/
def statedFacts (message : Envelope) : List Facts :=
  [message.opened.map (·.facts), message.closed.map (·.facts), message.openFailed.bind (·.facts),
    message.failed.bind (·.facts)].reduceOption

/-- A credential source that the policy of the stream did not ask for. -/
def misstates (scheme : Option Scheme) (policy : Option AuthPolicy) (facts : Facts) : Bool :=
  (facts.method == .gh && scheme == some .https &&
      !(policy == some .gh || policy == some .windowsConfigured)) ||
    (facts.method == .sspi &&
      (scheme != some .https || !policy.any Codec.native ||
        (policy == some .windowsDefault &&
          facts.native.any fun native => native.source == .configured)))

/-- A reused connection may have offered a credential only where the policy has one. -/
def reusesCredential (scheme : Option Scheme) (policy : Option AuthPolicy) (opened : Opened) :
    Bool :=
  scheme == some .https &&
    (((policy == some .gh || policy == some .windowsConfigured) && opened.facts.method == .gh) ||
      (policy.any Codec.native && opened.facts.method == .sspi))

def validateOpened (message : Envelope) : Except Error Unit := do
  (statedFacts message).forM fun facts => do
    let route ← required .protocol (m.routes.get? message.streamId)
    refuseIf (misstates route.scheme route.policy facts) .protocol
  match message.opened with
  | none => return
  | some opened =>
    let binding ← required .protocol m.binding
    refuseIf (opened.endpointId != binding.endpointId ||
      opened.trustOwner != binding.trustOwner ||
      !noGreater opened.receiveLimits binding.limits) .protocol
    if opened.reused && opened.facts.credentialOffered then
      let route ← required .protocol (m.routes.get? message.streamId)
      refuseIf (!reusesCredential route.scheme route.policy opened) .protocol

def validateOpen (message : Envelope) : Except Error Unit := do
  let bound ← required .wrongState m.binding
  if message.kind == .open_ then orError .protocol (bound.checkOpen message)
  else orError .protocol (bound.checkIdentity message)

/-- Whether a message may follow in a stream's state. -/
def validKind (fromEndpoint : Bool) : Kind → MessageKind → Bool
  | .check, kind =>
    if fromEndpoint then kind == .identityChecked || kind == .identityCheckFailed
    else kind == .cancel
  | .opening, kind =>
    if fromEndpoint then kind == .opened || kind == .openFailed else kind == .cancel
  | .stream, .data | .stream, .window | .stream, .flush | .stream, .flushed | .stream, .endWrite
  | .stream, .failed => true
  | .stream, .close | .stream, .cancel => !fromEndpoint
  | .stream, .closed => fromEndpoint
  | .stream, _ => false

def validateTransition (state : Kind) (kind : MessageKind) (outgoing : Bool) :
    Except Error Unit :=
  refuseIf (!validKind (m.endpointConfig.isSome == outgoing) state kind) .protocol

/-- The route's new state, or its removal. -/
def transition (message : Envelope) : Mux :=
  if message.kind = .opened then
    match m.routes.get? message.streamId with
    | none => m
    | some route =>
      { m with routes := m.routes.insert message.streamId { route with kind := .stream } }
  else if ends message.kind then { m with routes := m.routes.erase message.streamId }
  else m

/-! ### Requests and streams -/

def register (request : String) (operation : Option String) : Except Error Mux := do
  m.live
  refuseIf (m.phase == .rejecting) .rejected
  refuseIf (!identifier request || m.usedRequests.contains request ||
    operation.any (fun o => !identifier o) ||
    (m.endpointConfig.isNone && operation.isNone)) .invalidRequest
  refuseIf (m.usedRequests.length == m.config.maxRequests) .capacity
  return { m with
    usedRequests := request :: m.usedRequests
    requests := m.requests.insert request ⟨operation, false, none⟩ }

/-- The offer of an initiator. -/
def bindOffer : Envelope where
  version := 1
  sessionId := m.session
  streamId := 0
  kind := .bind
  bind := some
    { versions := [2]
      role := m.config.role
      schemes := [.ssh, .https]
      policies :=
        [.sshAmbient, .sshExplicit, .anonymous, .gh, .windowsConfigured, .windowsDefault]
      receiveLimits := m.config.limits }

def begin (request : String) : Except Error Mux := do
  m.liveRequest request
  refuseIf m.endpointConfig.isSome .wrongState
  match m.phase with
  | .unbound =>
    let item := (request, m.bindOffer)
    let queued ← m.enqueue item true
    return { queued with
      offer := some item
      phase := .binding
      bootstrapDeadline := some (satAdd m.now m.config.bootstrapTimeoutMs) }
  | .binding | .ready => return m
  | .rejecting => throw .rejected
  | .closed => throw .closed

/-- The route of a stream that a message starts. -/
def routeFor (request : String) (message : Envelope) (kind : Kind) (timeout : Option ℕ) :
    Route where
  request := request
  kind := kind
  scheme := message.open_.map (·.destination.scheme)
  policy := message.open_.map (·.policy)
  deadline := timeout.map (satAdd m.now)
  cancel := none

def start (request : String) (kind : Kind) (timeout : Option ℕ) (fill : Envelope → Envelope) :
    Except Error (Mux × ℤ) := do
  refuseIf (m.endpointConfig.isSome || m.phase != .ready) .wrongState
  refuseIf (decide (m.routes.size ≥ m.config.maxStreams)) .capacity
  let id ← required .capacity (checkedAdd m.highestId 1)
  let message ← m.message id .open_
  let message := fill message
  m.validateOpen message
  let queued ← m.enqueue (request, message) true
  return ({ queued with
    highestId := id
    routes := m.routes.insert id (m.routeFor request message kind timeout) }, id)

def checkIdentity (request : String) (identity : Identity) (timeoutMs : ℕ) :
    Except Error (Mux × ℤ) := do
  m.liveRequest request
  refuseIf (timeoutMs == 0 || decide (timeoutMs > m.config.maxCheckMs)) .invalidRequest
  let binding ← required .wrongState m.binding
  let operationId ← required .wrongState ((m.requests.get? request).bind (·.operation))
  m.start request .check (some timeoutMs) fun message =>
    { message with
      kind := .checkIdentity
      checkIdentity := some ⟨binding.endpointId, operationId, identity, timeoutMs⟩ }

def open_ (request : String) (body : Open) : Except Error (Mux × ℤ) := do
  m.liveRequest request
  refuseIf ((m.requests.get? request).bind (·.operation) != some body.operationId) .invalidRequest
  m.start request .opening none fun message => { message with open_ := some body }

/-- A message of the host. -/
def send (request : String) (message : Envelope) : Except Error Mux := do
  m.live
  let route ← required .invalidRequest (m.routes.get? message.streamId)
  refuseIf (route.request != request || message.sessionId != m.session || message.version != 2)
    .invalidRequest
  m.validateTransition route.kind message.kind true
  m.validateOpened message
  let binding ← required .wrongState m.binding
  orError .protocol (Codec.admitLimited message binding.limits)
  let queued ← m.enqueue (request, message) true
  return queued.transition message

/-! ### What is handed out -/

def nextAction : Mux × Option Attachment :=
  match m.actions.pop with
  | none => (m, none)
  | some (item, rest) => ({ m with actions := rest }, some item)

def popOutbound : Mux × Option Attachment :=
  match m.outbound.pop with
  | none => (m, none)
  | some (item, rest) => ({ m with outbound := rest }, some item)

/-- The failure that ends a stream locally. -/
def endingFailure (kind : Kind) (code : ErrorCode) : Failure where
  code := code
  effect := if kind = .check then .none else .possible
  facts := none
  setupCause := none
  detail := none

/-- The message that ends a stream in its state with a failure. -/
def ending (message : Envelope) (kind : Kind) (code : ErrorCode) : Envelope :=
  match kind with
  | .check => { message with
      kind := .identityCheckFailed, identityCheckFailed := some (endingFailure kind code) }
  | .opening => { message with
      kind := .openFailed, openFailed := some (endingFailure kind code) }
  | .stream => { message with kind := .failed, failed := some (endingFailure kind code) }

def cancelling (message : Envelope) (reason : ErrorCode) : Envelope :=
  { message with kind := .cancel, cancel := some ⟨reason⟩ }

/-- A cancelled stream whose opening message is no longer queued. -/
def pendingCancel (id : ℤ) (route : Route) : Bool :=
  route.cancel.isSome && !m.outbound.attachments.any fun item =>
    item.2.streamId == id && starts item.2.kind

/-- The reserved slot of a cancelled stream: the initiator asks for the end, the endpoint ends the
stream. -/
def handSlot (id : ℤ) (route : Route) : Mux × Option Attachment :=
  match route.cancel, m.message id .cancel with
  | some reason, .ok message =>
    if m.endpointConfig.isNone then
      ({ m with routes := m.routes.insert id { route with cancel := none } },
        some (route.request, cancelling message reason))
    else
      ({ m with routes := m.routes.erase id },
        some (route.request, ending message route.kind reason))
  | _, _ => (m, none)

/-- The next message for the peer. -/
def nextMessage : Mux × Option Attachment :=
  if m.phase = .rejecting then (m.disconnect, m.popOutbound.2)
  else if (m.outbound.attachments.head?).any (fun item => item.2.streamId == 0) then
    m.popOutbound
  else match m.routes.toList.find? fun entry => m.pendingCancel entry.1 entry.2 with
    | none => m.popOutbound
    | some (id, route) => m.handSlot id route

/-! ### Cancellation -/

/-- The row sealed and its queued traffic dropped. -/
def sealRow (request : String) (row : Request) : Mux :=
  { m with
    requests := m.requests.insert request
      { row with sealed := true
                 cleanupDeadline := some (satAdd m.now m.config.cleanupTimeoutMs) }
    outbound := m.outbound.discard request }

/-- The request's unfinished actions dropped. -/
def dropActions (request : String) : Mux :=
  { m with actions := m.actions.retain fun item => item.1 != request || terminal item.2.kind }

/-- The request's routes marked. -/
def cancelRoutes (request : String) : Mux :=
  { m with
    routes := m.routes.map fun _ route =>
      if route.request = request then
        { route with cancel := some .cancelled
                     deadline := some (satAdd m.now m.config.cleanupTimeoutMs) }
      else route }

def routesOf (request : String) : List ℤ :=
  m.routes.keysWhere fun _ route => route.request == request

/-- The endpoint's worker is told of each cancelled stream; without room the session ends. -/
def notices (request : String) : Mux → List ℤ → Mux × Except Error Unit
  | m, [] => (m.cancelRoutes request, .ok ())
  | m, id :: ids =>
    match m.message id .cancel with
    | .error e => (m, .error e)
    | .ok message =>
      match m.enqueue (request, cancelling message .cancelled) false with
      | .error _ => (m.disconnect, .error .closed)
      | .ok queued => notices request queued ids

/-- A request is sealed and its streams end. -/
def cancel (request : String) : Mux × Except Error Unit :=
  if m.phase = .closed then (m, .error .closed)
  else if m.phase = .binding ∧ m.offer.any (fun offer => offer.1 == request) then
    (m.disconnect, .ok ())
  else match m.requests.get? request with
  | none => (m, .error .invalidRequest)
  | some row =>
    if row.sealed then (m, .ok ())
    else if m.endpointConfig.isSome then
      notices request ((m.sealRow request row).dropActions request) (m.routesOf request)
    else ((m.sealRow request row).cancelRoutes request, .ok ())

/-- Whether a request still has a stream or an undelivered terminal. -/
def unfinished (request : String) : Bool :=
  !(m.routesOf request).isEmpty || m.outbound.hasTerminal request || m.actions.hasTerminal request

def finish (request : String) : Mux × Except Error Unit :=
  match m.cancel request with
  | (m, .error e) => (m, .error e)
  | (m, .ok ()) =>
    if m.unfinished request then (m, .error .wouldBlock)
    else ({ m with requests := m.requests.erase request }, .ok ())

/-! ### Time -/

/-- One route that reached its deadline: both sides' messages, then the route's removal. -/
def expire : Mux → List ℤ → Mux
  | m, [] => m
  | m, id :: ids =>
    match m.routes.get? id, m.message id .failed with
    | some route, .ok message =>
      let code := if (m.requests.get? route.request).any (·.sealed) then ErrorCode.cancelled
        else .timeout
      let outgoing := m.endpointConfig.isSome
      let queued := do
        let queued ← m.enqueue (route.request, ending message route.kind code) outgoing
        queued.enqueue (route.request, cancelling message code) !outgoing
      match queued with
      | .error _ => m.disconnect
      | .ok queued => expire { queued with routes := queued.routes.erase id } ids
    | _, _ => m

/-- A sealed request whose terminal was not taken in time. -/
def stalled (request : String) (row : Request) : Bool :=
  row.cleanupDeadline.any (fun t => decide (t ≤ m.now)) &&
    (m.outbound.hasTerminal request || m.actions.hasTerminal request)

/-- The bootstrap ran out of time. -/
def bootstrapExpired : Bool :=
  m.bootstrapDeadline.any fun t =>
    (m.phase == .binding || m.phase == .rejecting) && decide (t ≤ m.now)

def expired : List ℤ :=
  m.routes.keysWhere fun _ route => route.deadline.any fun t => decide (t ≤ m.now)

/-- Time passes. -/
def advance (now : ℕ) : Mux :=
  let m := { m with now := max m.now now }
  if m.requests.toList.any (fun entry => m.stalled entry.1 entry.2) then m.disconnect
  else if m.bootstrapExpired then m.disconnect
  else m.expire m.expired

/-! ### Received messages -/

def rejectBinding (request : String) (failure : Failure) : Except Error Mux := do
  orError .protocol (Codec.bindRejection failure)
  let queued ← m.enqueue (request, { version := 1, sessionId := m.session, streamId := 0
                                     kind := .bindRejected, bindRejected := some failure }) true
  return { queued with
    rejection := some failure
    phase := .rejecting
    bootstrapDeadline := some (satAdd m.now m.config.bootstrapTimeoutMs) }

/-- The endpoint's answer to an offer. -/
def answerOffer (k : EndpointConfig) (item : Attachment) : Except Error Mux :=
  if item.2.bind.all fun bind => !bind.versions.contains 2 then
    m.rejectBinding item.1 (Binding.failure .unsupportedVersion)
  else match k.accept m.profile item.2 with
  | .error refusal => m.rejectBinding item.1 refusal
  | .ok (reply, bound) => do
    refuseIf (reply.bound.all fun b => b.version != 2) .protocol
    let queued ← m.enqueue (item.1, reply) true
    return { queued with
      acknowledgement := some (item.1, reply)
      binding := some bound
      phase := .ready }

/-- The initiator's reading of the answer to its offer. -/
def readAnswer (item : Attachment) : Except Error Mux := do
  refuseIf (m.phase != .binding) .protocol
  let offer ← required .protocol m.offer
  refuseIf (item.1 != offer.1) .protocol
  if item.2.kind = .bindRejected then
    let failure ← required .protocol item.2.bindRejected
    orError .protocol (Codec.bindRejection failure)
    return { m with rejection := some failure }.disconnect
  else
    let bound ← orError .protocol (verify m.profile offer.2 item.2)
    refuseIf (item.2.bound.all fun b => b.version != 2) .protocol
    return { m with
      binding := some bound
      acknowledgement := some item
      bootstrapDeadline := none
      phase := .ready }

def bootstrap (item : Attachment) : Except Error Mux :=
  if m.endpointConfig.isNone ∧ m.phase = .ready ∧ m.acknowledgement = some item then .ok m
  else do
    orError .protocol (m.liveRequest item.1)
    match m.endpointConfig with
    | some k =>
      refuseIf (item.2.kind != .bind || m.phase != .unbound) .protocol
      m.answerOffer k item
    | none => m.readAnswer item

/-- The operation, the first state and the timeout of a received stream. -/
def admitStart (message : Envelope) : Except Error (String × Kind × Option ℕ) :=
  match message.open_ with
  | some body => .ok (body.operationId, .opening, none)
  | none => do
    let check ← required .protocol message.checkIdentity
    refuseIf (decide (asUsize check.timeoutMs > m.config.maxCheckMs)) .protocol
    return (check.operationId, .check, some (asUsize check.timeoutMs))

/-- A new stream at the endpoint. -/
def receiveStart (item : Attachment) : Except Error Mux := do
  refuseIf m.endpointConfig.isNone .protocol
  if item.2.streamId ≤ m.highestId then return m
  orError .protocol (m.liveRequest item.1)
  refuseIf (m.routes.size == m.config.maxStreams) .capacity
  m.validateOpen item.2
  let (operation, kind, timeout) ← m.admitStart item.2
  let row ← required .protocol (m.requests.get? item.1)
  refuseIf (!identifier operation || row.operation.any (· != operation)) .protocol
  let queued ← m.enqueue item false
  return { queued with
    requests := m.requests.insert item.1 { row with operation := some operation }
    highestId := item.2.streamId
    routes := m.routes.insert item.2.streamId (m.routeFor item.1 item.2 kind timeout) }

/-- A further message of a stream. -/
def receiveNext (item : Attachment) : Except Error Mux :=
  match m.routes.get? item.2.streamId with
  | none => if item.2.streamId ≤ m.highestId then .ok m else .error .protocol
  | some route => do
    refuseIf (route.request != item.1) .protocol
    m.validateTransition route.kind item.2.kind false
    m.validateOpened item.2
    let queued ← m.enqueue item false
    return queued.transition item.2

def receiveIn (item : Attachment) : Except Error Mux := do
  refuseIf (!identifier item.1) .protocol
  orError .protocol (Codec.admitLimited item.2 m.limits)
  if item.2.streamId = 0 then m.bootstrap item
  else do
    refuseIf (m.phase != .ready || item.2.version != 2) .protocol
    if starts item.2.kind then m.receiveStart item else m.receiveNext item

/-- The errors of `receiveIn` that end the session. -/
def Error.fatal : Error → Bool
  | .protocol | .invalidRequest | .capacity => true
  | _ => false

/-- A message of the peer. -/
def receive (item : Attachment) : Mux × Except Error Unit :=
  if m.phase = .closed then (m, .error .closed)
  else if item.2.sessionId ≠ m.session then (m, .ok ())
  else match m.receiveIn item with
  | .ok m => (m, .ok ())
  | .error e => (if e.fatal then m.disconnect else m, .error e)

/-! ### Calls -/

/-- The calls of a multiplexer. -/
inductive Call
  | register (request : String) (operation : Option String)
  | begin (request : String)
  | checkIdentity (request : String) (identity : Identity) (timeoutMs : ℕ)
  | open_ (request : String) (body : Open)
  | send (request : String) (message : Envelope)
  | nextAction
  | nextMessage
  | cancel (request : String)
  | finish (request : String)
  | advance (now : ℕ)
  | disconnect
  | receive (item : Attachment)

/-- What a call returns. -/
inductive Outcome
  | done (result : Except Error Unit)
  | stream (result : Except Error ℤ)
  | item (item : Option Attachment)

/-- The state after an operation that changes nothing when it fails. -/
def settle (m : Mux) : Except Error Mux → Mux × Outcome
  | .ok m => (m, .done (.ok ()))
  | .error e => (m, .done (.error e))

def settleStream (m : Mux) : Except Error (Mux × ℤ) → Mux × Outcome
  | .ok (m, id) => (m, .stream (.ok id))
  | .error e => (m, .stream (.error e))

def call : Call → Mux × Outcome
  | .register request operation => m.settle (m.register request operation)
  | .begin request => m.settle (m.begin request)
  | .checkIdentity request identity timeoutMs =>
    m.settleStream (m.checkIdentity request identity timeoutMs)
  | .open_ request body => m.settleStream (m.open_ request body)
  | .send request message => m.settle (m.send request message)
  | .nextAction => (m.nextAction.1, .item m.nextAction.2)
  | .nextMessage => (m.nextMessage.1, .item m.nextMessage.2)
  | .cancel request => ((m.cancel request).1, .done (m.cancel request).2)
  | .finish request => ((m.finish request).1, .done (m.finish request).2)
  | .advance now => (m.advance now, .done (.ok ()))
  | .disconnect => (m.disconnect, .done (.ok ()))
  | .receive item => ((m.receive item).1, .done (m.receive item).2)

end GwzTransport.Mux
