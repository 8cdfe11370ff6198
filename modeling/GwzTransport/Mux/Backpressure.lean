import GwzTransport.Lib.Method
import GwzTransport.Mux.Runs

/-!
# A refused call changes nothing

`begin`, `check_identity`, `open`, `send` and `receive` take `&mut self`: what they wrote before
an error would stay.  `InPlace` has them once more with every write where the source has it, around
the call of `enqueue`.  Each of them makes its last check before its first write, so it behaves as
the function of `Mux` with its name (`Attempt.call_eq`), and a call that is answered `WouldBlock`
may be presented again later (`wouldBlock_changes_nothing`).
-/

namespace GwzTransport.Mux

open Protocol MachineInt Checks Binding Method

namespace InPlace

/-- A message is queued, if its lane has room. -/
def enqueue (item : Attachment) (outgoing : Bool) : EStateM Error Mux Unit := do
  asks fun _ => refuseIf (!identifier item.1) .invalidRequest
  let charge ← asks (·.charge item)
  let control := controlKind item.2.kind
  if outgoing then
    asks fun m => refuseIf (!m.outbound.canPush charge control m.limits) .wouldBlock
    modify fun m => { m with outbound := m.outbound.push item charge control }
  else
    asks fun m => refuseIf (!m.actions.canPush charge control m.limits) .wouldBlock
    modify fun m => { m with actions := m.actions.push item charge control }

/-- The stream of a message moves on. -/
def transition (message : Envelope) : EStateM Error Mux Unit :=
  modify (Mux.transition · message)

/-- The offer of a session. -/
def begin (request : String) : EStateM Error Mux Unit := do
  asks (·.liveRequest request)
  asks fun m => refuseIf m.endpointConfig.isSome .wrongState
  let m ← get
  match m.phase with
  | .unbound =>
    let item := (request, m.bindOffer)
    enqueue item true
    modify fun m => { m with offer := some item }
    modify fun m => { m with phase := .binding }
    modify fun m => { m with
      bootstrapDeadline := some (satAdd m.now m.config.bootstrapTimeoutMs) }
  | .binding | .ready => return
  | .rejecting => throw .rejected
  | .closed => throw .closed

/-- A stream is opened with its first message. -/
def start (request : String) (kind : Kind) (timeout : Option ℕ) (fill : Envelope → Envelope) :
    EStateM Error Mux ℤ := do
  asks fun m => refuseIf (m.endpointConfig.isSome || m.phase != .ready) .wrongState
  asks fun m => refuseIf (decide (m.routes.size ≥ m.config.maxStreams)) .capacity
  let id ← asks fun m => required .capacity (checkedAdd m.highestId 1)
  let message ← asks (·.message id .open_)
  let message := fill message
  asks (·.validateOpen message)
  enqueue (request, message) true
  modify fun m => { m with highestId := id }
  modify fun m => { m with routes := m.routes.insert id (m.routeFor request message kind timeout) }
  return id

/-- The check of an identity. -/
def checkIdentity (request : String) (identity : Identity) (timeoutMs : ℕ) :
    EStateM Error Mux ℤ := do
  asks (·.liveRequest request)
  asks fun m => refuseIf (timeoutMs == 0 || decide (timeoutMs > m.config.maxCheckMs))
    .invalidRequest
  let binding ← asks fun m => required .wrongState m.binding
  let operationId ← asks fun m =>
    required .wrongState ((m.requests.get? request).bind (·.operation))
  start request .check (some timeoutMs) fun message =>
    { message with
      kind := .checkIdentity
      checkIdentity := some ⟨binding.endpointId, operationId, identity, timeoutMs⟩ }

/-- An `Open`. -/
def open_ (request : String) (body : Open) : EStateM Error Mux ℤ := do
  asks (·.liveRequest request)
  asks fun m => refuseIf ((m.requests.get? request).bind (·.operation) != some body.operationId)
    .invalidRequest
  start request .opening none fun message => { message with open_ := some body }

/-- A message of a stream. -/
def send (request : String) (message : Envelope) : EStateM Error Mux Unit := do
  asks (·.live)
  let route ← asks fun m => required .invalidRequest (m.routes.get? message.streamId)
  asks fun m => refuseIf (route.request != request || message.sessionId != m.session ||
    message.version != 2) .invalidRequest
  asks (·.validateTransition route.kind message.kind true)
  asks (·.validateOpened message)
  let binding ← asks fun m => required .wrongState m.binding
  asks fun _ => orError .protocol (Codec.admitLimited message binding.limits)
  enqueue (request, message) true
  transition message

/-! ### Received messages -/

/-- The answer to an offer that is refused. -/
def rejectBinding (request : String) (failure : Failure) : EStateM Error Mux Unit := do
  asks fun _ => orError .protocol (Codec.bindRejection failure)
  let m ← get
  enqueue (request, { version := 1, sessionId := m.session, streamId := 0
                      kind := .bindRejected, bindRejected := some failure }) true
  modify fun m => { m with rejection := some failure }
  modify fun m => { m with phase := .rejecting }
  modify fun m => { m with
    bootstrapDeadline := some (satAdd m.now m.config.bootstrapTimeoutMs) }

/-- An endpoint answers an offer. -/
def answerOffer (k : EndpointConfig) (item : Attachment) : EStateM Error Mux Unit := do
  if item.2.bind.all fun bind => !bind.versions.contains 2 then
    rejectBinding item.1 (Binding.failure .unsupportedVersion)
  else match k.accept (← get).profile item.2 with
  | .error refusal => rejectBinding item.1 refusal
  | .ok (reply, bound) =>
    asks fun _ => refuseIf (reply.bound.all fun b => b.version != 2) .protocol
    enqueue (item.1, reply) true
    modify fun m => { m with acknowledgement := some (item.1, reply) }
    modify fun m => { m with binding := some bound }
    modify fun m => { m with phase := .ready }

/-- An initiator reads the answer. -/
def readAnswer (item : Attachment) : EStateM Error Mux Unit := do
  asks fun m => refuseIf (m.phase != .binding) .protocol
  let offer ← asks fun m => required .protocol m.offer
  asks fun _ => refuseIf (item.1 != offer.1) .protocol
  if item.2.kind = .bindRejected then
    let failure ← asks fun _ => required .protocol item.2.bindRejected
    asks fun _ => orError .protocol (Codec.bindRejection failure)
    modify fun m => { m with rejection := some failure }
    modify Mux.disconnect
  else
    let bound ← asks fun m => orError .protocol (verify m.profile offer.2 item.2)
    asks fun _ => refuseIf (item.2.bound.all fun b => b.version != 2) .protocol
    modify fun m => { m with binding := some bound }
    modify fun m => { m with acknowledgement := some item }
    modify fun m => { m with bootstrapDeadline := none }
    modify fun m => { m with phase := .ready }

/-- A message outside every stream. -/
def bootstrap (item : Attachment) : EStateM Error Mux Unit := do
  let m ← get
  if m.endpointConfig.isNone ∧ m.phase = .ready ∧ m.acknowledgement = some item then return
  asks fun m => orError .protocol (m.liveRequest item.1)
  match m.endpointConfig with
  | some k =>
    asks fun m => refuseIf (item.2.kind != .bind || m.phase != .unbound) .protocol
    answerOffer k item
  | none => readAnswer item

/-- The first message of a stream. -/
def receiveStart (item : Attachment) : EStateM Error Mux Unit := do
  asks fun m => refuseIf m.endpointConfig.isNone .protocol
  if item.2.streamId ≤ (← get).highestId then return
  asks fun m => orError .protocol (m.liveRequest item.1)
  asks fun m => refuseIf (m.routes.size == m.config.maxStreams) .capacity
  asks (·.validateOpen item.2)
  let (operation, kind, timeout) ← asks (·.admitStart item.2)
  let row ← asks fun m => required .protocol (m.requests.get? item.1)
  asks fun _ => refuseIf (!identifier operation || row.operation.any (· != operation)) .protocol
  enqueue item false
  modify fun m => { m with
    requests := m.requests.insert item.1 { row with operation := some operation } }
  modify fun m => { m with highestId := item.2.streamId }
  modify fun m => { m with
    routes := m.routes.insert item.2.streamId (m.routeFor item.1 item.2 kind timeout) }

/-- A later message of a stream. -/
def receiveNext (item : Attachment) : EStateM Error Mux Unit := do
  let m ← get
  match m.routes.get? item.2.streamId with
  | none => if item.2.streamId ≤ m.highestId then return else throw .protocol
  | some route =>
    asks fun _ => refuseIf (route.request != item.1) .protocol
    asks (·.validateTransition route.kind item.2.kind false)
    asks (·.validateOpened item.2)
    enqueue item false
    transition item.2

/-- A message of the session. -/
def receiveIn (item : Attachment) : EStateM Error Mux Unit := do
  asks fun _ => refuseIf (!identifier item.1) .protocol
  asks fun m => orError .protocol (Codec.admitLimited item.2 m.limits)
  if item.2.streamId = 0 then bootstrap item
  else
    asks fun m => refuseIf (m.phase != .ready || item.2.version != 2) .protocol
    if starts item.2.kind then receiveStart item else receiveNext item

/-- A message; a fatal error ends the session. -/
def receive (item : Attachment) : EStateM Error Mux Unit := do
  asks (·.live)
  if item.2.sessionId ≠ (← get).session then return
  tryCatch (receiveIn item) fun e => do
    if e.fatal then modify Mux.disconnect
    throw e

/-! ### What they behave as -/

variable {m : Mux} {item : Attachment}

/-- An operation that only gives the new state. -/
def state (n : Mux) : Mux × Unit := (n, ())

theorem enqueue_run (m : Mux) (item : Attachment) (outgoing : Bool) :
    (enqueue item outgoing).run m = settled state m (m.enqueue item outgoing) := by
  refine run_asks_bind fun _ _ => run_asks_bind fun charge _ => ?_
  cases outgoing with
  | true => exact run_asks_bind fun _ _ => rfl
  | false => exact run_asks_bind fun _ _ => rfl

theorem begin_run (m : Mux) (request : String) :
    (begin request).run m = settled state m (m.begin request) := by
  refine run_asks_bind fun _ _ => run_asks_bind fun _ _ => ?_
  rw [run_get_bind]
  cases hphase : m.phase with
  | unbound =>
    refine run_bind_updates (enqueue_run m _ true) fun n hn => ?_
    obtain ⟨-, -, -, -, -, -, -, hconfig, -, -, -, hnow⟩ := enqueue_keeps hn
    rw [← hconfig, ← hnow]
    rfl
  | binding => rfl
  | rejecting => rfl
  | ready => rfl
  | closed => rfl

theorem start_run (m : Mux) (request : String) (kind : Kind) (timeout : Option ℕ)
    (fill : Envelope → Envelope) :
    (start request kind timeout fill).run m = settled id m (m.start request kind timeout fill) := by
  refine run_asks_bind fun _ _ => run_asks_bind fun _ _ => run_asks_bind fun stream _ =>
    run_asks_bind fun message _ => run_asks_bind fun _ _ => ?_
  refine run_bind_updates (enqueue_run m _ true) fun n hn => ?_
  obtain ⟨hroutes, -, -, -, -, -, -, -, -, -, -, hnow⟩ := enqueue_keeps hn
  simp only [routeFor]
  rw [← hroutes, ← hnow]
  rfl

theorem checkIdentity_run (m : Mux) (request : String) (identity : Identity) (timeoutMs : ℕ) :
    (checkIdentity request identity timeoutMs).run m =
      settled id m (m.checkIdentity request identity timeoutMs) :=
  run_asks_bind fun _ _ => run_asks_bind fun _ _ => run_asks_bind fun _ _ =>
    run_asks_bind fun _ _ => start_run m _ _ _ _

theorem open_run (m : Mux) (request : String) (body : Open) :
    (open_ request body).run m = settled id m (m.open_ request body) :=
  run_asks_bind fun _ _ => run_asks_bind fun _ _ => start_run m _ _ _ _

theorem send_run (m : Mux) (request : String) (message : Envelope) :
    (send request message).run m = settled state m (m.send request message) := by
  refine run_asks_bind fun _ _ => run_asks_bind fun _ _ => run_asks_bind fun _ _ =>
    run_asks_bind fun _ _ => run_asks_bind fun _ _ => run_asks_bind fun _ _ =>
    run_asks_bind fun _ _ => ?_
  exact run_bind_updates (enqueue_run m _ true) fun n _ => rfl

theorem rejectBinding_run (m : Mux) (request : String) (failure : Failure) :
    (rejectBinding request failure).run m = settled state m (m.rejectBinding request failure) := by
  refine run_asks_bind fun _ _ => ?_
  rw [run_get_bind]
  refine run_bind_updates (enqueue_run m _ true) fun n hn => ?_
  obtain ⟨-, -, -, -, -, -, -, hconfig, -, -, -, hnow⟩ := enqueue_keeps hn
  rw [← hconfig, ← hnow]
  rfl

theorem answerOffer_run (m : Mux) (k : EndpointConfig) (item : Attachment) :
    (answerOffer k item).run m = settled state m (m.answerOffer k item) := by
  unfold answerOffer Mux.answerOffer
  split_ifs
  · exact rejectBinding_run m _ _
  · rw [run_get_bind]
    cases k.accept m.profile item.2 with
    | error refusal => exact rejectBinding_run m _ _
    | ok accepted =>
      refine run_asks_bind fun _ _ => ?_
      exact run_bind_updates (enqueue_run m _ true) fun n _ => rfl

theorem readAnswer_run (m : Mux) (item : Attachment) :
    (readAnswer item).run m = settled state m (m.readAnswer item) := by
  refine run_asks_bind fun _ _ => run_asks_bind fun offer _ => run_asks_bind fun _ _ => ?_
  split_ifs
  · exact run_asks_bind fun _ _ => run_asks_bind fun _ _ => rfl
  · exact run_asks_bind fun _ _ => run_asks_bind fun _ _ => rfl

theorem bootstrap_run (m : Mux) (item : Attachment) :
    (bootstrap item).run m = settled state m (m.bootstrap item) := by
  unfold bootstrap Mux.bootstrap
  rw [run_get_bind]
  split_ifs
  · rfl
  · refine run_asks_bind fun _ _ => ?_
    cases m.endpointConfig with
    | some k => exact run_asks_bind fun _ _ => answerOffer_run m k item
    | none => exact readAnswer_run m item

theorem receiveStart_run (m : Mux) (item : Attachment) :
    (receiveStart item).run m = settled state m (m.receiveStart item) := by
  refine run_asks_bind fun _ _ => ?_
  rw [run_get_bind]
  split_ifs
  · rfl
  refine run_asks_bind fun _ _ => run_asks_bind fun _ _ => run_asks_bind fun _ _ =>
    run_asks_bind fun _ _ => run_asks_bind fun row _ => run_asks_bind fun _ _ => ?_
  refine run_bind_updates (enqueue_run m _ false) fun n hn => ?_
  obtain ⟨hroutes, hrequests, -, -, -, -, -, -, -, -, -, hnow⟩ := enqueue_keeps hn
  simp only [routeFor]
  rw [← hroutes, ← hrequests, ← hnow]
  rfl

theorem receiveNext_run (m : Mux) (item : Attachment) :
    (receiveNext item).run m = settled state m (m.receiveNext item) := by
  unfold receiveNext Mux.receiveNext
  rw [run_get_bind]
  cases m.routes.get? item.2.streamId with
  | none =>
    dsimp only
    split_ifs
    · rfl
    · rfl
  | some route =>
    refine run_asks_bind fun _ _ => run_asks_bind fun _ _ => run_asks_bind fun _ _ => ?_
    exact run_bind_updates (enqueue_run m _ false) fun n _ => rfl

theorem receiveIn_run (m : Mux) (item : Attachment) :
    (receiveIn item).run m = settled state m (m.receiveIn item) := by
  refine run_asks_bind fun _ _ => run_asks_bind fun _ _ => ?_
  split_ifs
  · exact bootstrap_run m item
  · exact run_asks_bind fun _ _ => receiveStart_run m item
  · exact run_asks_bind fun _ _ => receiveNext_run m item

/-- `receive` ends the session on some of the errors of `receiveIn`; what it gives is what the
function gives in both components. -/
theorem receive_run (m : Mux) (item : Attachment) :
    (receive item).run m = match (m.receive item).2 with
      | .ok () => .ok () (m.receive item).1
      | .error e => .error e (m.receive item).1 := by
  by_cases hclosed : m.phase = .closed
  · have hlive : m.live = .error .closed := by rw [live, hclosed]; rfl
    simp only [receive, Mux.receive, if_pos hclosed, EStateM.run, bind, EStateM.bind, asks, hlive]
  have hlive : m.live = .ok () := live_eq_ok.2 hclosed
  have hrun : (receive item).run m = EStateM.run (if item.2.sessionId ≠ m.session then pure ()
      else tryCatch (receiveIn item) fun e => do
        if e.fatal then modify Mux.disconnect
        throw e) m := by
    simp only [receive, EStateM.run, bind, EStateM.bind, asks, hlive]
    rfl
  rw [hrun, Mux.receive, if_neg hclosed]
  split_ifs with hsession
  · rfl
  rw [run_tryCatch (receiveIn_run m item)]
  cases m.receiveIn item with
  | ok n => rfl
  | error e => cases e <;> rfl

end InPlace

/-! ### Attempts -/

/-- A call that may be answered `WouldBlock` and presented again. -/
inductive Attempt
  | begin (request : String)
  | checkIdentity (request : String) (identity : Identity) (timeoutMs : ℕ)
  | open_ (request : String) (body : Open)
  | send (request : String) (message : Envelope)
  | receive (item : Attachment)

namespace Attempt

/-- The method of an attempt. -/
def method : Attempt → EStateM Error Mux Outcome
  | .begin request => do InPlace.begin request; return .done (.ok ())
  | .checkIdentity request identity timeoutMs => do
    return .stream (.ok (← InPlace.checkIdentity request identity timeoutMs))
  | .open_ request body => do return .stream (.ok (← InPlace.open_ request body))
  | .send request message => do InPlace.send request message; return .done (.ok ())
  | .receive item => do InPlace.receive item; return .done (.ok ())

/-- The call of an attempt. -/
def call : Attempt → Call
  | .begin request => .begin request
  | .checkIdentity request identity timeoutMs => .checkIdentity request identity timeoutMs
  | .open_ request body => .open_ request body
  | .send request message => .send request message
  | .receive item => .receive item

/-- The outcome of a call that failed. -/
def failed (e : Error) : Attempt → Outcome
  | .checkIdentity .. | .open_ .. => .stream (.error e)
  | .begin _ | .send .. | .receive _ => .done (.error e)

end Attempt

/-- The state and the outcome that a method gives. -/
def answered (a : Attempt) : EStateM.Result Error Mux Outcome → Mux × Outcome
  | .ok outcome n => (n, outcome)
  | .error e n => (n, a.failed e)

theorem answered_settle {m : Mux} {a : Attempt} {x : EStateM Error Mux Unit} {r : Except Error Mux}
    (ha : ∀ e, a.failed e = .done (.error e)) (h : x.run m = settled InPlace.state m r) :
    answered a ((do x; return Outcome.done (.ok ())).run m) = m.settle r := by
  have hrun : (do x; return Outcome.done (.ok ())).run m =
      settled (fun n => (n, Outcome.done (.ok ()))) m (r >>= fun n => pure n) :=
    run_bind_updates h fun n _ => rfl
  rw [hrun]
  cases r with
  | ok n => rfl
  | error e => exact congrArg (Prod.mk m) (ha e)

theorem answered_settleStream {m : Mux} {a : Attempt} {x : EStateM Error Mux ℤ}
    {r : Except Error (Mux × ℤ)} (ha : ∀ e, a.failed e = .stream (.error e))
    (h : x.run m = settled id m r) :
    answered a ((do return Outcome.stream (.ok (← x))).run m) = m.settleStream r := by
  have hrun : (do return Outcome.stream (.ok (← x))).run m =
      settled (fun p => (p.1, Outcome.stream (.ok p.2))) m (r >>= fun p => pure p) :=
    run_bind_updates h fun p _ => rfl
  rw [hrun]
  cases r with
  | ok n => rfl
  | error e => exact congrArg (Prod.mk m) (ha e)

/-- The statements of the source in their order give what the function of `Mux` gives. -/
theorem Attempt.call_eq (m : Mux) (a : Attempt) : m.call a.call = answered a (a.method.run m) := by
  cases a with
  | «begin» request => exact (answered_settle (fun _ => rfl) (InPlace.begin_run m request)).symm
  | checkIdentity request identity timeoutMs =>
    exact (answered_settleStream (fun _ => rfl)
      (InPlace.checkIdentity_run m request identity timeoutMs)).symm
  | open_ request body =>
    exact (answered_settleStream (fun _ => rfl) (InPlace.open_run m request body)).symm
  | send request message =>
    exact (answered_settle (fun _ => rfl) (InPlace.send_run m request message)).symm
  | receive item =>
    have hrun : InPlace.receive item m = _ := InPlace.receive_run m item
    simp only [Attempt.call, Mux.call, Attempt.method, EStateM.run, bind, EStateM.bind, hrun]
    cases (m.receive item).2 with
    | ok _ => rfl
    | error e => rfl

theorem eq_of_settle_error {m m' : Mux} {r : Except Error Mux} {e : Error}
    (h : m.settle r = (m', .done (.error e))) : m' = m := by
  cases r with
  | ok n => cases h
  | error e' =>
    cases h
    rfl

theorem eq_of_settleStream_error {m m' : Mux} {r : Except Error (Mux × ℤ)} {e : Error}
    (h : m.settleStream r = (m', .stream (.error e))) : m' = m := by
  cases r with
  | ok n => cases h
  | error e' =>
    cases h
    rfl

/-- Only the errors of `receive` that end the session change anything. -/
theorem receive_wouldBlock {m m' : Mux} {item : Attachment}
    (h : m.receive item = (m', .error .wouldBlock)) : m' = m := by
  unfold Mux.receive at h
  split at h
  · cases h
  · split at h
    · cases h
    · split at h
      · cases h
      · cases h
        rfl

theorem Attempt.eq_of_call {m m' : Mux} {a : Attempt}
    (h : m.call a.call = (m', a.failed .wouldBlock)) : m' = m := by
  cases a with
  | «begin» request => exact eq_of_settle_error h
  | checkIdentity request identity timeoutMs => exact eq_of_settleStream_error h
  | open_ request body => exact eq_of_settleStream_error h
  | send request message => exact eq_of_settle_error h
  | receive item =>
    obtain ⟨hstate, hresult⟩ := Prod.mk.inj h
    exact receive_wouldBlock (Prod.ext hstate (Outcome.done.inj hresult))

/-- Backpressure is atomic: a method that fails with `WouldBlock`, in whatever state, leaves the
state as it found it.  So the calls that follow, the same one among them, give what they would have
given without the attempt. -/
theorem wouldBlock_changes_nothing (m m' : Mux) (a : Attempt)
    (h : a.method.run m = .error .wouldBlock m') :
    m' = m ∧ ∀ cs : List Call, replay m (a.call :: cs) =
      ((a.call, a.failed .wouldBlock) :: (replay m cs).1, (replay m cs).2) := by
  have hcall : m.call a.call = (m', a.failed .wouldBlock) := by
    rw [a.call_eq, h]
    rfl
  have hm : m' = m := Attempt.eq_of_call hcall
  subst hm
  refine ⟨rfl, fun cs => ?_⟩
  rw [replay, hcall]

/-- An endpoint whose queue of outgoing messages is full. -/
def fullEndpoint : Mux :=
  (replay smallEndpoint (upToOpen ++ [.send "r" (openedMessage 1), .send "r" (windowMessage 1),
    .send "r" (windowMessage 1), .send "r" (windowMessage 1)])).2

theorem wouldBlock_changes_nothing_window :
    ∃ m', (Attempt.send "r" (windowMessage 1)).method.run fullEndpoint = .error .wouldBlock m' ∧
      m' = fullEndpoint := by
  have hblocked : (match (Attempt.send "r" (windowMessage 1)).method.run fullEndpoint with
      | .ok _ _ => false
      | .error e _ => e == .wouldBlock) = true := by decide +kernel
  cases hrun : (Attempt.send "r" (windowMessage 1)).method.run fullEndpoint with
  | ok o n =>
    rw [hrun] at hblocked
    cases hblocked
  | error e n =>
    rw [hrun] at hblocked
    obtain rfl : e = .wouldBlock := by simpa using hblocked
    exact ⟨n, rfl, (wouldBlock_changes_nothing _ _ _ hrun).1⟩

end GwzTransport.Mux
