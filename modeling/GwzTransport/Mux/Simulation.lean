import GwzTransport.Mux.Router

/-!
# The multiplexer simulates its router

`Mux.router` forgets charges, limits and deadlines.  Every call of a multiplexer, whatever it
answers, is a run of moves of the router that shows what the call handed out.

* `Checked`: what a message that is sent was checked for;
* `cancel_cases`, `expire_moves`, `receive_moves`: what the longer calls are made of;
* `Orderly`: what the rules ask of the host; `call_moves`: the simulation.
-/

namespace GwzTransport.Mux

open Protocol MachineInt Checks Binding Transition

variable {ρ : Rules} {m m' : Mux} {item : Attachment} {request : String} {id : ℤ}
  {message : Envelope} {route : Route}

/-! ### What a sent message was checked for -/

/-- `validateOpened` for a stream that is there. -/
def validOpened (binding : Option Binding) (s : Stream) (message : Envelope) :
    Except Error Unit := do
  (statedFacts message).forM fun facts =>
    refuseIf (misstates s.scheme s.policy facts) Error.protocol
  match message.opened with
  | none => return
  | some opened =>
    let binding ← required .protocol binding
    refuseIf (opened.endpointId != binding.endpointId ||
      opened.trustOwner != binding.trustOwner ||
      !noGreater opened.receiveLimits binding.limits) .protocol
    if opened.reused && opened.facts.credentialOffered then
      refuseIf (!reusesCredential s.scheme s.policy opened) .protocol

theorem validateOpened_eq (h : m.routes.get? message.streamId = some route) :
    m.validateOpened message = validOpened m.binding route.stream message := by
  simp only [validateOpened, validOpened, h]
  rfl

structure Checked (m : Mux) (s : Stream) (item : Attachment) : Prop where
  name : identifier item.1 = true
  session : item.2.sessionId = m.session
  version : item.2.version = 2
  admitted : Codec.admitLimited item.2 m.limits = .ok ()
  opened : validOpened m.binding s item.2 = .ok ()

theorem admitLimited_of_allocationCharge {limits : Limits} {n : ℕ}
    (h : Codec.allocationCharge message limits = .ok n) :
    Codec.admitLimited message limits = .ok () := by
  obtain ⟨_, hl, h⟩ := bind_eq_ok.1 h
  obtain ⟨_, he, hw⟩ := bind_eq_ok.1 h
  exact bind_eq_ok.2 ⟨(), hl, bind_eq_ok.2 ⟨(), he, bind_eq_ok.2 ⟨n, hw, rfl⟩⟩⟩

theorem enqueue_eq_ok {outgoing : Bool} (h : m.enqueue item outgoing = .ok m') :
    identifier item.1 = true ∧ Codec.admitLimited item.2 m.limits = .ok () ∧ ∃ charge control,
      m' = if outgoing then { m with outbound := m.outbound.push item charge control }
        else { m with actions := m.actions.push item charge control } := by
  obtain ⟨_, hname, h⟩ := bind_eq_ok.1 h
  obtain ⟨n, hcharge, h⟩ := bind_eq_ok.1 h
  obtain ⟨c, hcharge, -⟩ := bind_eq_ok.1 hcharge
  refine ⟨by simpa using refuseIf_eq_ok.1 hname,
    admitLimited_of_allocationCharge (orError_eq_ok.1 hcharge), n, controlKind item.2.kind, ?_⟩
  cases outgoing with
  | true =>
    obtain ⟨_, -, h⟩ := bind_eq_ok.1 h
    cases h
    rfl
  | false =>
    obtain ⟨_, -, h⟩ := bind_eq_ok.1 h
    cases h
    rfl

/-! ### Routers of changed states -/

theorem router_setRoute (m : Mux) (id : ℤ) (route : Route) :
    { m with routes := m.routes.insert id route }.router =
      m.router.setRoute id (some route.stream) :=
  Router.ext rfl (m.routes.map_get?_insert (Option.map Route.stream) id route) rfl rfl rfl

theorem router_dropRoute (m : Mux) (id : ℤ) :
    { m with routes := m.routes.erase id }.router = m.router.setRoute id none :=
  Router.ext rfl (m.routes.map_get?_erase (Option.map Route.stream) id) rfl rfl rfl

theorem router_start (m : Mux) (item : Attachment) (h : route.stream = .first item) :
    { m with
      highestId := item.2.streamId
      routes := m.routes.insert item.2.streamId route }.router = m.router.start item := by
  refine Router.ext rfl ?_ rfl rfl rfl
  have hins := m.routes.map_get?_insert (Option.map Route.stream) item.2.streamId route
  rwa [Option.map_some, h] at hins

theorem router_setRow (m : Mux) (request : String) (row : Request) :
    { m with requests := m.requests.insert request row }.router =
      m.router.setRow request row.view :=
  Router.ext (m.requests.map_get?_insert (Option.bind · Request.view) request row) rfl rfl rfl rfl

/-- A queued item, in the queue it went to. -/
theorem router_enqueue {outgoing : Bool} (h : m.enqueue item outgoing = .ok m') :
    m'.router = if outgoing then m.router.queue item else m.router.act item := by
  obtain ⟨-, -, charge, control, rfl⟩ := enqueue_eq_ok h
  cases outgoing with
  | true => exact Router.ext rfl rfl rfl (by simp [router, Router.queue]) rfl
  | false => exact Router.ext rfl rfl rfl rfl (by simp [router, Router.act])

/-- Queueing changes a queue and nothing else. -/
theorem enqueue_keeps {outgoing : Bool} (h : m.enqueue item outgoing = .ok m') :
    m'.routes = m.routes ∧ m'.requests = m.requests ∧ m'.phase = m.phase ∧
      m'.binding = m.binding ∧ m'.session = m.session ∧
      m'.endpointConfig = m.endpointConfig ∧ m'.usedRequests = m.usedRequests ∧
      m'.config = m.config ∧ m'.offer = m.offer ∧ m'.profile = m.profile ∧
      m'.highestId = m.highestId ∧ m'.now = m.now := by
  obtain ⟨-, -, charge, control, rfl⟩ := enqueue_eq_ok h
  cases outgoing <;> exact ⟨rfl, rfl, rfl, rfl, rfl, rfl, rfl, rfl, rfl, rfl, rfl, rfl⟩

/-- The route's change with a message. -/
theorem router_transition (h : m.routes.get? message.streamId = some route) :
    (m.transition message).router =
      m.router.setRoute message.streamId (route.stream.after message.kind) := by
  by_cases hopened : message.kind = .opened
  · have hafter : route.stream.after message.kind = some { route with kind := .stream }.stream := by
      rw [hopened]
      rfl
    rw [transition, if_pos hopened, h, hafter]
    exact router_setRoute m _ _
  by_cases hends : ends message.kind = true
  · have hafter : route.stream.after message.kind = none := by
      simp [Stream.after, Kind.after, hopened, hends]
    rw [transition, if_neg hopened, if_pos hends, hafter]
    exact router_dropRoute m _
  · have hafter : route.stream.after message.kind = some route.stream := by
      simp [Stream.after, Kind.after, hopened, hends]
    rw [transition, if_neg hopened, if_neg hends, hafter]
    have hsame : m.router.routes message.streamId = some route.stream := by
      simp [router, h]
    rw [Router.setRoute, ← hsame, Function.update_eq_self]

/-! ### Requests and streams -/

theorem live_eq_ok {u : Unit} : m.live = .ok u ↔ m.phase ≠ .closed := by
  rw [live, refuseIf_eq_ok, beq_eq_false_iff_ne]

theorem liveRequest_eq_ok {u : Unit} (h : m.liveRequest request = .ok u) :
    m.phase ≠ .closed ∧ ∃ row, m.requests.get? request = some row ∧ row.sealed = false := by
  obtain ⟨_, hlive, h⟩ := bind_eq_ok.1 h
  rw [refuseIf_eq_ok] at h
  refine ⟨live_eq_ok.1 hlive, ?_⟩
  cases hrow : m.requests.get? request with
  | none => rw [hrow] at h; cases h
  | some row => exact ⟨row, rfl, by simpa [hrow] using h⟩

theorem rows_of_live {row : Request}
    (h : m.requests.get? request = some row) (hs : row.sealed = false) :
    m.router.rows request = some row.operation := by
  simp [router, h, Request.view, hs]

theorem register_made {operation : Option String} (h : m.register request operation = .ok m') :
    request ∉ m.usedRequests ∧ m' = { m with
      usedRequests := request :: m.usedRequests
      requests := m.requests.insert request ⟨operation, false, none⟩ } := by
  obtain ⟨_, -, h⟩ := bind_eq_ok.1 h
  obtain ⟨_, -, h⟩ := bind_eq_ok.1 h
  obtain ⟨_, hbad, h⟩ := bind_eq_ok.1 h
  obtain ⟨_, -, h⟩ := bind_eq_ok.1 h
  cases h
  refine ⟨fun hmem => ?_, rfl⟩
  simp [refuseIf_eq_ok, hmem] at hbad

theorem register_move {operation : Option String}
    (hused : ∀ request, m.requests.get? request ≠ none → request ∈ m.usedRequests)
    (h : m.register request operation = .ok m') : Move ρ m.router none m'.router := by
  obtain ⟨hnew, rfl⟩ := register_made h
  have hfresh : m.requests.get? request = none := by
    by_contra hne
    exact hnew (hused request hne)
  have hnone : m.router.rows request = none := by simp [router, hfresh]
  have hrouter : { m with
      usedRequests := request :: m.usedRequests
      requests := m.requests.insert request ⟨operation, false, none⟩ }.router =
        m.router.setRow request (some operation) := router_setRow m request _
  rw [hrouter]
  exact .register operation hnone

/-- A message without its body, as `message` makes it. -/
def blank (m : Mux) (id : ℤ) (kind : MessageKind) : Envelope :=
  { version := 2, sessionId := m.session, streamId := id, kind }

theorem message_eq_ok {kind : MessageKind}
    (h : m.message id kind = .ok message) : m.phase = .ready ∧ message = m.blank id kind := by
  obtain ⟨_, -, h⟩ := bind_eq_ok.1 h
  obtain ⟨_, hphase, h⟩ := bind_eq_ok.1 h
  cases h
  exact ⟨by simpa [refuseIf_eq_ok] using hphase, rfl⟩

theorem begin_move (h : m.begin request = .ok m') :
    m' = m ∨ m.phase = .unbound ∧ m.endpointConfig = none ∧
      ∃ queued, m.enqueue (request, m.bindOffer) true = .ok queued ∧
        m' = { queued with
          offer := some (request, m.bindOffer)
          phase := .binding
          bootstrapDeadline := some (satAdd m.now m.config.bootstrapTimeoutMs) } := by
  obtain ⟨_, -, h⟩ := bind_eq_ok.1 h
  obtain ⟨_, hside, h⟩ := bind_eq_ok.1 h
  have hside : m.endpointConfig = none := by simpa [refuseIf_eq_ok] using hside
  cases hphase : m.phase <;> simp only [hphase] at h
  case unbound =>
    obtain ⟨queued, hq, h⟩ := bind_eq_ok.1 h
    cases h
    exact .inr ⟨rfl, hside, queued, hq, rfl⟩
  case binding => cases h; exact .inl rfl
  case ready => cases h; exact .inl rfl
  case rejecting => cases h
  case closed => cases h

/-- What a started stream's first message was checked for. -/
structure StartChecked (m : Mux) (item : Attachment) : Prop where
  checked : Checked m (.first item) item
  valid : m.validateOpen item.2 = .ok ()
  room : m.routes.size < m.config.maxStreams
  next : item.2.streamId = m.highestId + 1
  started : ∃ operation timeout,
    m.admitStart item.2 = .ok (operation, Kind.first item.2.kind, timeout) ∧
      m.router.rows item.1 = some (some operation)

theorem start_eq_ok {kind : Kind} {timeout : Option ℕ}
    {fill : Envelope → Envelope} (h : m.start request kind timeout fill = .ok (m', id)) :
    m.endpointConfig = none ∧ m.phase = .ready ∧ m.routes.size < m.config.maxStreams ∧
      id = m.highestId + 1 ∧ m.validateOpen (fill (m.blank id .open_)) = .ok () ∧
      ∃ queued, m.enqueue (request, fill (m.blank id .open_)) true = .ok queued ∧
        m' = { queued with
          highestId := id
          routes := m.routes.insert id
            (m.routeFor request (fill (m.blank id .open_)) kind timeout) } := by
  obtain ⟨_, hside, h⟩ := bind_eq_ok.1 h
  obtain ⟨_, hroom, h⟩ := bind_eq_ok.1 h
  obtain ⟨_, hid, h⟩ := bind_eq_ok.1 h
  obtain ⟨message, hmessage, h⟩ := bind_eq_ok.1 h
  obtain ⟨_, hvalid, h⟩ := bind_eq_ok.1 h
  obtain ⟨queued, hq, h⟩ := bind_eq_ok.1 h
  cases h
  obtain ⟨hphase, rfl⟩ := message_eq_ok hmessage
  have hside : m.endpointConfig = none ∧ m.phase = .ready := by
    simpa [refuseIf_eq_ok] using hside
  have hroom : m.routes.size < m.config.maxStreams := by simpa [refuseIf_eq_ok] using hroom
  obtain ⟨hid, -⟩ := checkedAdd_eq_some (required_eq_ok.1 hid)
  exact ⟨hside.1, hside.2, hroom, hid, hvalid, queued, hq, rfl⟩

/-- A stream started from a first message with its own body only. -/
theorem start_move {kind : Kind} {timeout : Option ℕ}
    {fill : Envelope → Envelope} {operation : String} {timeout' : Option ℕ}
    (ho : ∀ item, StartChecked m item → ρ.valid (.first item) item)
    (hside : ρ.endpoint = m.endpointConfig.isSome)
    (hrow : m.router.rows request = some (some operation))
    (hfill : fill (m.blank id .open_) = { m.blank id .open_ with
      kind := (fill (m.blank id .open_)).kind
      open_ := (fill (m.blank id .open_)).open_
      checkIdentity := (fill (m.blank id .open_)).checkIdentity })
    (hstarts : starts (fill (m.blank id .open_)).kind = true)
    (hkind : kind = Kind.first (fill (m.blank id .open_)).kind)
    (hadmitStart : m.admitStart (fill (m.blank id .open_)) = .ok (operation, kind, timeout'))
    (h : m.start request kind timeout fill = .ok (m', id)) :
    StartChecked m (request, fill (m.blank id .open_)) ∧
      Move ρ m.router (some (.started (request, fill (m.blank id .open_)))) m'.router := by
  obtain ⟨hnone, hphase, hroom, hid, hvalid, queued, hq, rfl⟩ := start_eq_ok h
  generalize hx : fill (m.blank id .open_) = x at *
  have hstream : x.streamId = id := by rw [hfill]; rfl
  obtain ⟨hname, hadmitted, -⟩ := enqueue_eq_ok hq
  have hchecked : Checked m (.first (request, x)) (request, x) := by
    refine ⟨hname, ?_, ?_, hadmitted, ?_⟩
    · show x.sessionId = m.session
      rw [hfill]
      rfl
    · show x.version = 2
      rw [hfill]
      rfl
    · show validOpened m.binding _ x = .ok ()
      rw [hfill]
      rfl
  have hstart : StartChecked m (request, x) :=
    ⟨hchecked, hvalid, hroom, hstream.trans hid, operation, timeout', hkind ▸ hadmitStart, hrow⟩
  refine ⟨hstart, ?_⟩
  have hroute : (m.routeFor request x kind timeout).stream = .first (request, x) := by
    simp [routeFor, Route.stream, Stream.first, hkind]
  obtain ⟨hroutes, hrequests, -⟩ := enqueue_keeps hq
  have hrouter : { queued with
      highestId := id
      routes := m.routes.insert id (m.routeFor request x kind timeout) }.router =
        (m.router.start (request, x)).queue (request, x) := by
    rw [← hroutes, ← hstream, router_start queued (request, x) hroute, router_enqueue hq]
    rfl
  rw [hrouter]
  exact .start (by rw [hside, hnone]; rfl) hstarts
    (by show m.highestId < x.streamId; omega) (ho _ hstart)

theorem asUsize_natCast_le (n : ℕ) : asUsize n ≤ n := by
  unfold asUsize
  omega

theorem open_move {body : Open} (ho : ∀ item, StartChecked m item → ρ.valid (.first item) item)
    (hside : ρ.endpoint = m.endpointConfig.isSome)
    (h : m.open_ request body = .ok (m', id)) : ∃ x, StartChecked m x ∧ x.1 = request ∧
      Move ρ m.router (some (.started x)) m'.router := by
  obtain ⟨_, hlive, h⟩ := bind_eq_ok.1 h
  obtain ⟨_, hop, h⟩ := bind_eq_ok.1 h
  obtain ⟨-, row, hrow, hsealed⟩ := liveRequest_eq_ok hlive
  rw [refuseIf_eq_ok, hrow, bne_eq_false_iff_eq] at hop
  have hrows : m.router.rows request = some (some body.operationId) := by
    rw [rows_of_live hrow hsealed]
    exact congrArg some hop
  obtain ⟨hs, hmove⟩ := start_move ho hside hrows rfl rfl rfl rfl h
  exact ⟨_, hs, rfl, hmove⟩

theorem checkIdentity_move {identity : Identity} {timeoutMs : ℕ}
    (ho : ∀ item, StartChecked m item → ρ.valid (.first item) item)
    (hside : ρ.endpoint = m.endpointConfig.isSome)
    (h : m.checkIdentity request identity timeoutMs = .ok (m', id)) :
    ∃ x, StartChecked m x ∧ x.1 = request ∧ Move ρ m.router (some (.started x)) m'.router := by
  obtain ⟨_, hlive, h⟩ := bind_eq_ok.1 h
  obtain ⟨_, htimeout, h⟩ := bind_eq_ok.1 h
  obtain ⟨b, hb, h⟩ := bind_eq_ok.1 h
  obtain ⟨operation, hop, h⟩ := bind_eq_ok.1 h
  obtain ⟨-, row, hrow, hsealed⟩ := liveRequest_eq_ok hlive
  rw [required_eq_ok, hrow] at hop
  have hrows : m.router.rows request = some (some operation) := by
    rw [rows_of_live hrow hsealed]
    exact congrArg some hop
  have hle : asUsize timeoutMs ≤ m.config.maxCheckMs := by
    have := asUsize_natCast_le timeoutMs
    have : timeoutMs ≤ m.config.maxCheckMs := by
      simp only [refuseIf_eq_ok, Bool.or_eq_false_iff, decide_eq_false_iff_not, not_lt] at htimeout
      exact htimeout.2
    omega
  have hadmitStart : m.admitStart { m.blank id .open_ with
      kind := .checkIdentity
      checkIdentity := some ⟨b.endpointId, operation, identity, timeoutMs⟩ } =
        .ok (operation, .check, some (asUsize timeoutMs)) := by
    refine bind_eq_ok.2 ⟨_, required_eq_ok.2 rfl, bind_eq_ok.2 ⟨(), ?_, rfl⟩⟩
    exact refuseIf_eq_ok.2 (by simpa using hle)
  obtain ⟨hs, hmove⟩ := start_move ho hside hrows rfl rfl rfl hadmitStart h
  exact ⟨_, hs, rfl, hmove⟩

/-- A message queued on a stream that is there. -/
theorem router_send {queued : Mux} (hroute : m.routes.get? message.streamId = some route)
    (hq : m.enqueue (request, message) true = .ok queued) :
    (queued.transition message).router =
      (m.router.setRoute message.streamId (route.stream.after message.kind)).queue
        (request, message) := by
  obtain ⟨hroutes, -⟩ := enqueue_keeps hq
  rw [router_transition (hroutes ▸ hroute), router_enqueue hq]
  rfl

/-- What a sent message was checked for. -/
theorem send_eq_ok (h : m.send request message = .ok m') :
    ∃ route, m.routes.get? message.streamId = some route ∧ route.request = request ∧
      validKind m.endpointConfig.isSome route.kind message.kind = true ∧
      Checked m route.stream (request, message) ∧
      m'.router = (m.router.setRoute message.streamId (route.stream.after message.kind)).queue
        (request, message) := by
  obtain ⟨_, -, h⟩ := bind_eq_ok.1 h
  obtain ⟨route, hroute, h⟩ := bind_eq_ok.1 h
  obtain ⟨_, hsame, h⟩ := bind_eq_ok.1 h
  obtain ⟨_, hkind, h⟩ := bind_eq_ok.1 h
  obtain ⟨_, hopened, h⟩ := bind_eq_ok.1 h
  obtain ⟨b, hb, h⟩ := bind_eq_ok.1 h
  obtain ⟨_, -, h⟩ := bind_eq_ok.1 h
  obtain ⟨queued, hq, h⟩ := bind_eq_ok.1 h
  cases h
  rw [required_eq_ok] at hroute
  obtain ⟨hname, hadmitted, -⟩ := enqueue_eq_ok hq
  have hsame : (route.request = request ∧ message.sessionId = m.session) ∧ message.version = 2 := by
    simpa [refuseIf_eq_ok] using hsame
  have hkind : validKind m.endpointConfig.isSome route.kind message.kind = true := by
    simpa [validateTransition, refuseIf_eq_ok] using hkind
  rw [validateOpened_eq hroute] at hopened
  exact ⟨route, hroute, hsame.1.1, hkind,
    ⟨hname, hsame.1.2, hsame.2, hadmitted, hopened⟩, router_send hroute hq⟩

/-! ### What is handed out -/

theorem popOutbound_move (m : Mux) : m.popOutbound = (m, none) ∧ m.router.outbound = [] ∨
    ∃ item, m.popOutbound.2 = some item ∧ Move ρ m.router (some (.message item))
      m.popOutbound.1.router := by
  unfold popOutbound
  cases hpop : m.outbound.pop with
  | none => exact .inl ⟨rfl, Queue.pop_eq_none.1 hpop⟩
  | some p =>
    obtain ⟨item, rest⟩ := p
    exact .inr ⟨item, rfl, .handOut (Queue.attachments_of_pop hpop)⟩

theorem nextAction_move (m : Mux) : m.nextAction = (m, none) ∨
    ∃ item, m.nextAction.2 = some item ∧ Move ρ m.router (some (.action item))
      m.nextAction.1.router := by
  unfold nextAction
  cases hpop : m.actions.pop with
  | none => exact .inl rfl
  | some p =>
    obtain ⟨item, rest⟩ := p
    exact .inr ⟨item, rfl, .handAction (Queue.attachments_of_pop hpop)⟩

/-- The rules that a state's own checks and side meet. -/
structure Obeys (m : Mux) (ρ : Rules) : Prop where
  side : ρ.endpoint = m.endpointConfig.isSome
  start : ∀ item, StartChecked m item → ρ.valid (.first item) item
  send : ∀ s item, Checked m s item → ρ.valid s item
  slot : ∀ {id route reason message}, m.routes.get? id = some route → route.cancel = some reason →
    m.message id .cancel = .ok message →
      ρ.valid route.stream (route.request, cancelling message reason) ∧
        ρ.valid route.stream (route.request, ending message route.kind reason)

theorem ending_kind (message : Envelope) (kind : Kind) (code : ErrorCode) :
    (ending message kind code).kind = kind.ending := by
  cases kind <;> rfl

theorem ending_streamId (message : Envelope) (kind : Kind) (code : ErrorCode) :
    (ending message kind code).streamId = message.streamId := by
  cases kind <;> rfl

theorem handSlot_move (ho : Obeys m ρ)
    (hroute : m.routes.get? id = some route) (hpending : m.pendingCancel id route = true) :
    m.handSlot id route = (m, none) ∨
      ∃ item, (m.handSlot id route).2 = some item ∧
        Move ρ m.router (some (.message item)) (m.handSlot id route).1.router := by
  have hcancelled : route.cancel.isSome = true := (Bool.and_eq_true_iff.1 hpending).1
  obtain ⟨reason, hreason⟩ := Option.isSome_iff_exists.1 hcancelled
  have hgone : ∀ x ∈ m.router.outbound, x.2.streamId = id → starts x.2.kind = false := by
    have := (Bool.and_eq_true_iff.1 hpending).2
    simpa [router] using this
  cases hmessage : m.message id .cancel with
  | error e => exact .inl (by simp only [handSlot, hreason, hmessage])
  | ok message =>
    obtain ⟨hask, hend⟩ := ho.slot hroute hreason hmessage
    obtain ⟨-, rfl⟩ := message_eq_ok hmessage
    have hrouter : m.router.routes id = some route.stream := by simp [router, hroute]
    refine .inr ?_
    simp only [handSlot, hreason, hmessage]
    cases hside : m.endpointConfig.isNone with
    | true =>
      refine ⟨_, rfl, ?_⟩
      rw [if_pos rfl, router_setRoute]
      have hinit : ρ.endpoint = false := by
        rw [ho.side, ← Option.not_isNone, hside]
        rfl
      exact .ask (s := route.stream) hinit hrouter hcancelled rfl rfl hask hgone
    | false =>
      refine ⟨_, rfl, ?_⟩
      have hid : (ending (m.blank id .cancel) route.kind reason).streamId = id :=
        ending_streamId _ _ _
      have hend' : ρ.endpoint = true := by
        rw [ho.side, ← Option.not_isNone, hside]
        rfl
      rw [if_neg Bool.false_ne_true, router_dropRoute]
      rw [← hid] at hrouter
      have hmove := Move.giveUp (s := route.stream) hend' hrouter hcancelled rfl
        (ending_kind _ _ _) hend
      rwa [hid] at hmove

theorem mem_of_find? {p : ℤ × Route → Bool}
    (h : m.routes.toList.find? p = some (id, route)) : m.routes.get? id = some route :=
  m.routes.mem_toList.1 (List.mem_of_find?_eq_some h)

/-- The marks of items handed out. -/
def Mark.handed : Mark → Bool
  | .message _ | .action _ => true
  | _ => false

/-- What a call handed out. -/
def handedBy : Call → Outcome → List Mark
  | .nextMessage, .item (some item) => [.message item]
  | .nextAction, .item (some item) => [.action item]
  | _, _ => []

/-- How the marks of a call's moves come from the call and its outcome. -/
structure Shows (m : Mux) (c : Call) (n : Mux) (o : Outcome) (marks : List Mark) : Prop where
  handed : marks.filter Mark.handed = handedBy c o
  heard : ∀ x, .heard x ∈ marks → c = .receive x ∧ o = .done (.ok ()) ∧
    x.2.sessionId = m.session ∧ (starts x.2.kind = true → m.highestId < x.2.streamId)
  missed : ∀ x, c = .receive x → o = .done (.ok ()) → x.2.sessionId = m.session →
    starts x.2.kind = true → .heard x ∈ marks ∨ x.2.streamId ≤ m.highestId
  closed : .closed ∈ marks → n.phase = .closed

theorem Shows.of_quiet {c : Call} {n : Mux} {o : Outcome} {marks : List Mark}
    (hc : ∀ x, c ≠ .receive x) (hm : marks.filter Mark.handed = handedBy c o)
    (hheard : ∀ x, .heard x ∉ marks) (hclosed : .closed ∈ marks → n.phase = .closed) :
    Shows m c n o marks :=
  ⟨hm, fun x hx => absurd hx (hheard x), fun x hx => absurd hx (hc x), hclosed⟩

/-- The moves of a call and what they show. -/
def Moves (ρ : Rules) (m : Mux) (c : Call) : Prop :=
  ∃ marks, Weak (Move ρ) m.router marks (m.call c).1.router ∧
    Shows m c (m.call c).1 (m.call c).2 marks

theorem disconnect_move (m : Mux) : Move ρ m.router (some .closed) m.disconnect.router := .close

theorem nextMessage_moves (ho : Obeys m ρ) : Moves ρ m .nextMessage := by
  -- a message, or nothing, from the queue or from a slot
  have hone : ∀ {x : Mux × Option Attachment},
      (x = (m, none) ∨ ∃ item, x.2 = some item ∧
        Move ρ m.router (some (.message item)) x.1.router) →
      m.nextMessage = x → Moves ρ m .nextMessage := by
    rintro x (rfl | ⟨item, hitem, hmove⟩) hx
    · refine ⟨[], by rw [call, hx]; exact .refl _, ?_⟩
      refine .of_quiet (fun x => by rintro ⟨⟩) ?_ (fun x => by simp) (by simp)
      simp [call, hx, handedBy]
    · refine ⟨[.message item], by rw [call, hx]; exact .visible hmove, ?_⟩
      refine .of_quiet (fun x => by rintro ⟨⟩) ?_ (fun x => by simp) (by simp)
      simp [call, hx, hitem, handedBy, Mark.handed]
  by_cases hphase : m.phase = .rejecting
  · have hx : m.nextMessage = (m.disconnect, m.popOutbound.2) := by
      rw [nextMessage, if_pos hphase]
    rcases popOutbound_move (ρ := ρ) m with ⟨hp, -⟩ | ⟨item, hitem, hmove⟩
    · refine ⟨[.closed], ?_, ?_⟩
      · rw [call, hx]
        exact .visible (disconnect_move m)
      · refine .of_quiet (fun x => by rintro ⟨⟩) ?_ (fun x => by simp) fun _ => ?_
        · simp [call, hx, hp, handedBy, Mark.handed]
        · rw [call, hx]
          rfl
    · refine ⟨[.message item, .closed], ?_, ?_⟩
      · rw [call, hx]
        have hsame : m.disconnect.router = m.popOutbound.1.router.closed := by
          unfold popOutbound
          cases m.outbound.pop <;> rfl
        refine (Weak.visible hmove).trans (.visible ?_)
        rw [hsame]
        exact .close
      · refine .of_quiet (fun x => by rintro ⟨⟩) ?_ (fun x => by simp) fun _ => ?_
        · simp only [call, hx, hitem, handedBy]
          rfl
        · rw [call, hx]
          rfl
  have hpop := (popOutbound_move (ρ := ρ) m).imp_left And.left
  by_cases hzero : (m.outbound.attachments.head?).any (fun item => item.2.streamId == 0) = true
  · exact hone hpop (by rw [nextMessage, if_neg hphase, if_pos hzero])
  cases hfind : m.routes.toList.find? fun entry => m.pendingCancel entry.1 entry.2 with
  | none => exact hone hpop (by rw [nextMessage, if_neg hphase, if_neg hzero, hfind])
  | some entry =>
    obtain ⟨id, route⟩ := entry
    have hpending : m.pendingCancel id route = true := by
      simpa using List.find?_some hfind
    exact hone (handSlot_move ho (mem_of_find? hfind) hpending)
      (by rw [nextMessage, if_neg hphase, if_neg hzero, hfind])

/-! ### Cancellation -/

/-- The marks of what a side does for itself. -/
def Mark.inner : Mark → Bool
  | .message _ | .action _ | .heard _ => false
  | _ => true

theorem Shows.of_inner {c : Call} {n : Mux} {o : Outcome} {marks : List Mark}
    (hc : ∀ x, c ≠ .receive x) (ho : handedBy c o = []) (hm : ∀ k ∈ marks, k.inner = true)
    (hclosed : .closed ∈ marks → n.phase = .closed) : Shows m c n o marks := by
  refine .of_quiet hc ?_ (fun x hx => ?_) hclosed
  · rw [ho, List.filter_eq_nil_iff]
    intro k hk
    have := hm k hk
    cases k <;> simp_all [Mark.handed, Mark.inner]
  · have := hm _ hx
    cases this

theorem router_sealRow (m : Mux) (request : String) (row : Request) :
    (m.sealRow request row).router =
      { m.router.setRow request none with
        outbound := m.router.outbound.filter (Queue.kept request) } := by
  refine Router.ext ?_ rfl rfl ?_ rfl
  · exact m.requests.map_get?_insert (Option.bind · Request.view) request _
  · simp [router, sealRow, Queue.discard]

theorem router_dropActions (m : Mux) (request : String) :
    (m.dropActions request).router = { m.router with
      actions := m.router.actions.filter fun item => item.1 != request ||
      terminal item.2.kind } := by
  refine Router.ext rfl rfl rfl rfl ?_
  simp [router, dropActions]

theorem router_cancelRoutes (m : Mux) (request : String) :
    (m.cancelRoutes request).router = m.router.mark request := by
  refine Router.ext rfl ?_ rfl rfl rfl
  funext id
  simp only [router, cancelRoutes, Router.mark, SortedMap.get?_map]
  cases m.routes.get? id with
  | none => rfl
  | some route =>
    by_cases h : route.request = request
    · simp [Route.stream, h]
    · simp [Route.stream, h]

theorem cancelRoutes_moves (hkept : ∀ x ∈ m.router.outbound, Queue.kept request x = true) :
    Weak (Move ρ) m.router [] (m.cancelRoutes request).router := by
  rw [router_cancelRoutes]
  exact .silent (.mark request hkept)

/-- The notices of a cancellation, to the end of the list or of the session. -/
theorem notices_moves (hside : ρ.endpoint = true) :
    ∀ (ids : List ℤ) (m : Mux),
      (∀ id ∈ ids, ∃ route, m.routes.get? id = some route ∧ route.request = request) →
      (∀ x ∈ m.router.outbound, Queue.kept request x = true) →
      ∃ marks, Weak (Move ρ) m.router marks (notices request m ids).1.router ∧
        (marks = [] ∨ marks = [.closed] ∧ (notices request m ids).1.phase = .closed) := by
  intro ids
  induction ids with
  | nil => exact fun m _ hkept => ⟨[], cancelRoutes_moves hkept, .inl rfl⟩
  | cons id ids ih =>
    intro m hids hkept
    obtain ⟨route, hroute, hrequest⟩ := hids id List.mem_cons_self
    cases hmessage : m.message id .cancel with
    | error e => exact ⟨[], by rw [notices, hmessage]; exact .refl _, .inl rfl⟩
    | ok message =>
      cases hq : m.enqueue (request, cancelling message .cancelled) false with
      | error e =>
        simp only [notices, hmessage, hq]
        exact ⟨[.closed], .visible (disconnect_move m), .inr ⟨rfl, rfl⟩⟩
      | ok queued =>
        obtain ⟨-, rfl⟩ := message_eq_ok hmessage
        obtain ⟨hroutes, -⟩ := enqueue_keeps hq
        have hrouter := router_enqueue hq
        have hmove : Move ρ m.router none queued.router := by
          rw [hrouter]
          refine .notice (s := route.stream) hside ?_ hrequest rfl
          simp [router, cancelling, blank, hroute]
        obtain ⟨marks, hw, hmarks⟩ := ih queued
          (fun id hid => hroutes ▸ hids id (List.mem_cons_of_mem _ hid))
          (by rw [hrouter]; exact hkept)
        simp only [notices, hmessage, hq]
        exact ⟨marks, (Weak.silent hmove).trans hw, hmarks⟩

theorem mem_routesOf :
    id ∈ m.routesOf request ↔ ∃ route, m.routes.get? id = some route ∧ route.request = request := by
  simp [routesOf, SortedMap.mem_keysWhere]

theorem kept_of_sealRow (m : Mux) (request : String) (row : Request) :
    ∀ x ∈ (m.sealRow request row).router.outbound, Queue.kept request x = true := by
  rw [router_sealRow]
  intro x hx
  exact (List.mem_filter.1 hx).2

/-- What cancelling does: nothing, the end of a session that still binds, or a row sealed and its
streams removed, which an endpoint's worker is told of. -/
theorem cancel_cases (m : Mux) (request : String) :
    (∃ e, m.cancel request = (m, .error e)) ∨
      (m.phase = .binding ∧ m.cancel request = (m.disconnect, .ok ())) ∨
      ∃ row, m.requests.get? request = some row ∧ m.phase ≠ .closed ∧
        (row.sealed = true ∧ m.cancel request = (m, .ok ()) ∨
          m.endpointConfig.isSome = true ∧ m.cancel request =
            notices request ((m.sealRow request row).dropActions request) (m.routesOf request) ∨
          m.cancel request = ((m.sealRow request row).cancelRoutes request, .ok ())) := by
  by_cases hclosed : m.phase = .closed
  · exact .inl ⟨_, by rw [cancel, if_pos hclosed]⟩
  unfold cancel
  rw [if_neg hclosed]
  by_cases hoffer : m.phase = .binding ∧ m.offer.any (fun offer => offer.1 == request)
  · exact .inr (.inl ⟨hoffer.1, if_pos hoffer⟩)
  rw [if_neg hoffer]
  split
  · exact .inl ⟨_, rfl⟩
  next row hrow =>
    refine .inr (.inr ⟨row, hrow, hclosed, ?_⟩)
    split_ifs with hsealed hend
    · exact .inl ⟨hsealed, rfl⟩
    · exact .inr (.inl ⟨hend, rfl⟩)
    · exact .inr (.inr rfl)

/-- Whether `cancel` has a request to seal. -/
def cancels (m : Mux) (request : String) : Bool :=
  m.phase != .closed && (m.requests.get? request).any fun row => !row.sealed

theorem cancel_of_not_cancels (h : m.cancels request = false) :
    (m.cancel request).1 = m ∨ (m.cancel request).1 = m.disconnect := by
  unfold cancel
  split_ifs with hclosed hoffer
  · exact .inl rfl
  · exact .inr rfl
  all_goals
    split
    · exact .inl rfl
    next row hrow =>
      have hsealed : row.sealed = true := by simpa [cancels, hclosed, hrow] using h
      rw [if_pos hsealed]
      exact .inl rfl

theorem cancel_moves (hside : ρ.endpoint = m.endpointConfig.isSome)
    (htidy : ρ.tidy → m.cancels request = true → ∀ x ∈ m.router.outbound, x.1 = request →
      x.2.kind ≠ .opened) :
    ∃ marks, Weak (Move ρ) m.router marks (m.cancel request).1.router ∧
      (∀ k ∈ marks, k = .sealed request ∨ k = .closed) ∧
      (.closed ∈ marks → (m.cancel request).1.phase = .closed) := by
  by_cases hcancels : m.cancels request = false
  · rcases cancel_of_not_cancels hcancels with hr | hr <;> rw [hr]
    · exact ⟨[], .refl _, by simp, by simp⟩
    · exact ⟨[.closed], .visible (disconnect_move m), by simp, fun _ => rfl⟩
  have hseal : ∀ row, Move ρ m.router (some (.sealed request)) (m.sealRow request row).router := by
    intro row
    rw [router_sealRow]
    exact .discard request fun h => htidy h (by simpa using hcancels)
  rcases m.cancel_cases request with
    ⟨e, hr⟩ | ⟨-, hr⟩ | ⟨row, -, -, ⟨-, hr⟩ | ⟨hend, hr⟩ | hr⟩ <;> rw [hr]
  · exact ⟨[], .refl _, by simp, by simp⟩
  · exact ⟨[.closed], .visible (disconnect_move m), by simp, fun _ => rfl⟩
  · exact ⟨[], .refl _, by simp, by simp⟩
  · have hdrop : Move ρ (m.sealRow request row).router none
        ((m.sealRow request row).dropActions request).router := by
      rw [router_dropActions]
      exact .dropActions request
    obtain ⟨marks, hw, hmarks⟩ := notices_moves (ρ := ρ) (by rw [hside, hend])
      (m.routesOf request) ((m.sealRow request row).dropActions request)
      (fun id hid => mem_routesOf.1 hid)
      (by rw [router_dropActions]; exact kept_of_sealRow m request row)
    refine ⟨.sealed request :: marks,
      (Weak.visible (hseal row)).trans ((Weak.silent hdrop).trans hw), ?_, ?_⟩
    all_goals rcases hmarks with rfl | ⟨rfl, hphase⟩
    · simp
    · simp
    · simp
    · exact fun _ => hphase
  · exact ⟨[.sealed request],
      (Weak.visible (hseal row)).trans (cancelRoutes_moves (kept_of_sealRow m request row)),
      by simp, by simp⟩

/-- A cancelled request is not live. -/
theorem rows_of_cancel (h : (m.cancel request).2 = .ok ()) :
    (m.cancel request).1.router.rows request = none := by
  have hnone : ∀ row, (m.sealRow request row).router.rows request = none := by
    intro row
    rw [router_sealRow]
    simp [Router.setRow]
  rcases m.cancel_cases request with
    ⟨e, hr⟩ | ⟨-, hr⟩ | ⟨row, hrow, -, ⟨hsealed, hr⟩ | ⟨-, hr⟩ | hr⟩ <;> rw [hr] at h ⊢
  · cases h
  · rfl
  · simp [router, hrow, Request.view, hsealed]
  · -- the notices leave the rows alone, or end the session
    have hnotices : ∀ (ids : List ℤ) (n : Mux), n.router.rows request = none →
        (notices request n ids).1.router.rows request = none := by
      intro ids
      induction ids with
      | nil =>
        intro n hn
        rw [notices, router_cancelRoutes]
        exact hn
      | cons id ids ih =>
        intro n hn
        rw [notices]
        split
        · exact hn
        · split
          · rfl
          next queued hq =>
            refine ih queued ?_
            rw [router_enqueue hq]
            exact hn
    exact hnotices _ _ (hnone row)
  · rw [router_cancelRoutes]
    exact hnone row

theorem finish_router (m : Mux) (request : String) :
    (m.finish request).1.router = (m.cancel request).1.router ∧
      (m.finish request).1.phase = (m.cancel request).1.phase := by
  have hrows : (m.cancel request).2 = .ok () →
      (m.cancel request).1.router.rows request = none := rows_of_cancel
  unfold finish
  cases hc : m.cancel request with
  | mk n r =>
    rw [hc] at hrows
    cases r with
    | error e => exact ⟨rfl, rfl⟩
    | ok u =>
      dsimp only
      split_ifs with hun
      · exact ⟨rfl, rfl⟩
      · refine ⟨Router.ext ?_ rfl rfl rfl rfl, rfl⟩
        have herase := n.requests.map_get?_erase (Option.bind · Request.view) request
        have hsame : n.router.rows request = (none : Option Request).bind Request.view :=
          hrows rfl
        rw [← hsame] at herase
        exact herase.trans (Function.update_eq_self request n.router.rows)

/-! ### Deadlines -/

theorem Checked.congr {s : Stream} {n : Mux} (hsession : n.session = m.session)
    (hbinding : n.binding = m.binding) (hconfig : n.config = m.config) (h : Checked n s item) :
    Checked m s item := by
  have hlimits : n.limits = m.limits := by rw [limits, limits, hbinding, hconfig]
  exact ⟨h.name, hsession ▸ h.session, h.version, hlimits ▸ h.admitted, hbinding ▸ h.opened⟩

theorem validOpened_ending (binding : Option Binding) (s : Stream) (id : ℤ) (kind : Kind)
    (kind' : MessageKind) (code : ErrorCode) :
    validOpened binding s (ending (m.blank id kind') kind code) = .ok () := by
  cases kind <;> rfl

theorem ending_header (message : Envelope) (kind : Kind) (code : ErrorCode) :
    (ending message kind code).sessionId = message.sessionId ∧
      (ending message kind code).version = message.version := by
  cases kind <;> exact ⟨rfl, rfl⟩

/-- One expired stream: its end for one side, its cancellation for the other. -/
theorem expireOne_moves {code : ErrorCode}
    {queued n : Mux} (hside : ρ.endpoint = m.endpointConfig.isSome)
    (hsend : ∀ s item, Checked m s item → ρ.valid s item)
    (hroute : m.routes.get? id = some route) (hmessage : m.message id .failed = .ok message)
    (hq : m.enqueue (route.request, ending message route.kind code) m.endpointConfig.isSome =
      .ok queued)
    (hn : queued.enqueue (route.request, cancelling message code) (!m.endpointConfig.isSome) =
      .ok n) :
    ∃ marks, Weak (Move ρ) m.router marks { n with routes := n.routes.erase id }.router ∧
      ∀ k ∈ marks, k = .expired id := by
  obtain ⟨-, rfl⟩ := message_eq_ok hmessage
  obtain ⟨-, -, -, hbinding, hsession, -, -, hconfig, -⟩ := enqueue_keeps hq
  obtain ⟨hname, hadmitted, -⟩ := enqueue_eq_ok hq
  obtain ⟨hname', hadmitted', -⟩ := enqueue_eq_ok hn
  have hlimits : queued.limits = m.limits := by rw [limits, limits, hbinding, hconfig]
  have hstream : m.router.routes id = some route.stream := by simp [router, hroute]
  have hid : (ending (m.blank id .failed)
      route.kind code).streamId = id := ending_streamId _ _ _
  have hafter : route.stream.after (ending (m.blank id .failed) route.kind code).kind = none := by
    rw [ending_kind, Stream.after]
    show (route.kind.after route.kind.ending).map _ = none
    rw [Kind.after_ending]
    rfl
  rw [router_dropRoute, router_enqueue hn, router_enqueue hq]
  cases hend : m.endpointConfig.isSome with
  | true =>
    -- the endpoint's host is told, then the end is queued for the peer
    have hnotice : Move ρ m.router none (m.router.act (route.request,
        cancelling (m.blank id .failed)
          code)) :=
      .notice (s := route.stream) (by rw [hside, hend]) hstream rfl rfl
    have hvalid :
        ρ.valid route.stream (route.request, ending (m.blank id .failed) route.kind code) :=
      hsend _ _ ⟨hname, (ending_header _ _ _).1, (ending_header _ _ _).2, hadmitted,
        validOpened_ending _ _ _ _ _ _⟩
    have hsent := @Move.send ρ
      (m.router.act (route.request, cancelling (m.blank id .failed) code))
      (route.request, ending (m.blank id .failed) route.kind code) route.stream
      (by show m.router.routes _ = _; rw [hid]; exact hstream) rfl
      (by rw [hside, hend, ending_kind]; exact validKind_ending _) hvalid
      (fun _ _ => ρ.late_of_ends (by rw [ending_kind]; exact ends_ending _))
    rw [hafter, hid] at hsent
    exact ⟨[], (Weak.silent hnotice).trans (.silent hsent), by simp⟩
  | false =>
    -- the cancellation is queued for the peer, then the initiator's host is told
    have hvalid : ρ.valid route.stream (route.request, cancelling (m.blank id .failed) code) :=
      hsend _ _ ⟨hname', rfl, rfl, hlimits ▸ hadmitted', rfl⟩
    have hsent := @Move.send ρ m.router
      (route.request, cancelling (m.blank id .failed) code) route.stream hstream rfl
      (by rw [hside, hend]; exact validKind_cancel _) hvalid
      (fun h => by rw [hside, hend] at h; cases h)
    have hsame : m.router.setRoute id (route.stream.after .cancel) = m.router := by
      have : route.stream.after .cancel = m.router.routes id := by rw [hstream]; rfl
      rw [this, Router.setRoute, Function.update_eq_self]
    have hsent' : Move ρ m.router none (m.router.queue
        (route.request, cancelling (m.blank id .failed) code)) := by
      change Move ρ m.router none ((m.router.setRoute id (route.stream.after .cancel)).queue _)
        at hsent
      rwa [hsame] at hsent
    have hexpire := @Move.expire ρ (m.router.queue (route.request, cancelling
        (m.blank id .failed) code)) (route.request, ending (m.blank id .failed) route.kind code)
      route.stream (by rw [hside, hend])
      (by show m.router.routes _ = _; rw [hid]; exact hstream) rfl (ending_kind _ _ _)
    rw [hid] at hexpire
    exact ⟨[.expired id], (Weak.silent hsent').trans (.visible hexpire), by simp⟩

theorem expire_moves (hside : ρ.endpoint = m.endpointConfig.isSome)
    (hsend : ∀ s item, Checked m s item → ρ.valid s item) (ids : List ℤ) :
    ∃ marks, Weak (Move ρ) m.router marks (m.expire ids).router ∧
      (∀ k ∈ marks, k = .closed ∨ ∃ id, k = .expired id) ∧
      (.closed ∈ marks → (m.expire ids).phase = .closed) := by
  induction ids generalizing m with
  | nil => exact ⟨[], .refl _, by simp, by simp⟩
  | cons id ids ih =>
    rw [expire]
    split
    next route message hroute hmessage =>
      dsimp only
      split
      · exact ⟨[.closed], .visible (disconnect_move m), by simp, fun _ => rfl⟩
      next n hn =>
        obtain ⟨queued, hq, hn⟩ := bind_eq_ok.1 hn
        obtain ⟨marks, hw, hmarks⟩ := expireOne_moves hside hsend hroute hmessage hq hn
        obtain ⟨-, -, -, hbinding, hsession, hend, -, hconfig, -⟩ := enqueue_keeps hq
        obtain ⟨-, -, -, hbinding', hsession', hend', -, hconfig', -⟩ := enqueue_keeps hn
        obtain ⟨marks', hw', hmarks', hclosed⟩ := ih
          (m := { n with routes := n.routes.erase id })
          (by rw [hside]; exact congrArg Option.isSome (hend'.trans hend).symm)
          (fun s item hc => hsend s item (Checked.congr
            (n := { n with routes := n.routes.erase id }) (hsession'.trans hsession)
            (hbinding'.trans hbinding) (hconfig'.trans hconfig) hc))
        refine ⟨marks ++ marks', hw.trans hw', ?_, ?_⟩
        · intro k hk
          rcases List.mem_append.1 hk with hk | hk
          · exact .inr ⟨id, hmarks k hk⟩
          · exact hmarks' k hk
        · intro hk
          rcases List.mem_append.1 hk with hk | hk
          · cases hmarks _ hk
          · exact hclosed hk
    · exact ⟨[], .refl _, by simp, by simp⟩

theorem advance_moves (now : ℕ) (hside : ρ.endpoint = m.endpointConfig.isSome)
    (hsend : ∀ s item, Checked m s item → ρ.valid s item) :
    ∃ marks, Weak (Move ρ) m.router marks (m.advance now).router ∧
      (∀ k ∈ marks, k = .closed ∨ ∃ id, k = .expired id) ∧
      (.closed ∈ marks → (m.advance now).phase = .closed) := by
  unfold advance
  dsimp only
  split_ifs
  · exact ⟨[.closed], .visible (disconnect_move m), by simp, fun _ => rfl⟩
  · exact ⟨[.closed], .visible (disconnect_move m), by simp, fun _ => rfl⟩
  · exact expire_moves (m := { m with now := max m.now now }) hside
      (fun s item hc => hsend s item (Checked.congr (n := { m with now := max m.now now }) rfl
        rfl rfl hc)) _

/-! ### Received messages -/

theorem envelope_of_admitLimited {limits : Limits}
    (h : Codec.admitLimited message limits = .ok ()) : Codec.envelope message = .ok () :=
  ((Codec.admitLimited_eq_ok_iff _ _).1 h).2.1

/-- A queued message of the bootstrap. -/
theorem control_move {n : Mux} (hzero : item.2.streamId = 0)
    (hq : m.enqueue item true = .ok n) : Move ρ m.router (some (.control item)) n.router := by
  rw [router_enqueue hq]
  exact .control hzero

theorem rejectBinding_eq_ok {failure : Failure}
    (h : m.rejectBinding request failure = .ok m') : ∃ item, item.2.streamId = 0 ∧
      item.2.kind = .bindRejected ∧ m'.phase = .rejecting ∧
      Move ρ m.router (some (.control item)) m'.router := by
  obtain ⟨_, -, h⟩ := bind_eq_ok.1 h
  obtain ⟨queued, hq, h⟩ := bind_eq_ok.1 h
  cases h
  refine ⟨(request, { version := 1, sessionId := m.session, streamId := 0, kind := .bindRejected,
                      bindRejected := some failure }), rfl, rfl, rfl, ?_⟩
  show Move ρ m.router _ queued.router
  exact control_move rfl hq

/-- How the endpoint answers an offer: with a binding, or with a refusal. -/
theorem answerOffer_eq_ok {k : EndpointConfig} (h : m.answerOffer k item = .ok m') :
    (∃ refusal, refusal.2.streamId = 0 ∧ refusal.2.kind = .bindRejected ∧
        m'.phase = .rejecting ∧ Move ρ m.router (some (.control refusal)) m'.router) ∨
      ∃ reply bound queued, k.accept m.profile item.2 = .ok (reply, bound) ∧
        m.enqueue (item.1, reply) true = .ok queued ∧ m' = { queued with
          acknowledgement := some (item.1, reply)
          binding := some bound
          phase := .ready } := by
  unfold answerOffer at h
  split_ifs at h with hversions
  · exact .inl (rejectBinding_eq_ok h)
  · cases haccept : k.accept m.profile item.2 with
    | error refusal =>
      rw [haccept] at h
      exact .inl (rejectBinding_eq_ok h)
    | ok p =>
      obtain ⟨reply, bound⟩ := p
      rw [haccept] at h
      obtain ⟨_, -, h⟩ := bind_eq_ok.1 h
      obtain ⟨queued, hq, h⟩ := bind_eq_ok.1 h
      cases h
      exact .inr ⟨reply, bound, queued, rfl, hq, rfl⟩

theorem streamId_of_accept {profile : Profile} {k : EndpointConfig} {offer reply : Envelope}
    {b : Binding} (h : k.accept profile offer = .ok (reply, b)) : reply.streamId = 0 := by
  obtain ⟨-, requested, -, hn⟩ := negotiated_of_accept h
  rw [hn.acknowledges]

/-- How the initiator reads the answer to its offer. -/
theorem readAnswer_eq_ok (h : m.readAnswer item = .ok m') : m.phase = .binding ∧
    ∃ offer, m.offer = some offer ∧
      ((∃ failure, item.2.kind = .bindRejected ∧
          m' = { m with rejection := some failure }.disconnect) ∨
        ∃ bound, item.2.kind ≠ .bindRejected ∧ verify m.profile offer.2 item.2 = .ok bound ∧
          m' = { m with
            binding := some bound
            acknowledgement := some item
            bootstrapDeadline := none
            phase := .ready }) := by
  obtain ⟨_, hphase, h⟩ := bind_eq_ok.1 h
  obtain ⟨offer, hoffer, h⟩ := bind_eq_ok.1 h
  obtain ⟨_, -, h⟩ := bind_eq_ok.1 h
  have hphase : m.phase = .binding := by simpa [refuseIf_eq_ok] using hphase
  refine ⟨hphase, offer, required_eq_ok.1 hoffer, ?_⟩
  split_ifs at h with hkind
  · obtain ⟨failure, -, h⟩ := bind_eq_ok.1 h
    obtain ⟨_, -, h⟩ := bind_eq_ok.1 h
    cases h
    exact .inl ⟨failure, hkind, rfl⟩
  · obtain ⟨bound, hverify, h⟩ := bind_eq_ok.1 h
    obtain ⟨_, -, h⟩ := bind_eq_ok.1 h
    cases h
    exact .inr ⟨bound, hkind, orError_eq_ok.1 hverify, rfl⟩

theorem bootstrap_eq_ok (h : m.bootstrap item = .ok m') :
    m' = m ∨ (∃ k, m.endpointConfig = some k ∧ m.phase = .unbound ∧ item.2.kind = .bind ∧
      m.answerOffer k item = .ok m') ∨
      m.endpointConfig = none ∧ m.readAnswer item = .ok m' := by
  unfold bootstrap at h
  split_ifs at h with hack
  · cases h
    exact .inl rfl
  · obtain ⟨_, -, h⟩ := bind_eq_ok.1 h
    cases hend : m.endpointConfig with
    | none =>
      rw [hend] at h
      exact .inr (.inr ⟨rfl, h⟩)
    | some k =>
      rw [hend] at h
      obtain ⟨_, hbind, h⟩ := bind_eq_ok.1 h
      have hbind : item.2.kind = .bind ∧ m.phase = .unbound := by
        simpa [refuseIf_eq_ok] using hbind
      exact .inr (.inl ⟨k, rfl, hbind.2, hbind.1, h⟩)

theorem bootstrap_moves (h : m.bootstrap item = .ok m') :
    ∃ marks, Weak (Move ρ) m.router marks m'.router ∧
      (∀ k ∈ marks, k.inner = true) ∧ (.closed ∈ marks → m'.phase = .closed) := by
  rcases bootstrap_eq_ok h with rfl | ⟨k, -, -, -, h⟩ | ⟨-, h⟩
  · exact ⟨[], .refl _, by simp, by simp⟩
  · rcases answerOffer_eq_ok (ρ := ρ) h with ⟨refusal, -, -, -, hmove⟩ |
      ⟨reply, bound, queued, haccept, hq, rfl⟩
    · exact ⟨[.control refusal], .visible hmove, by simp [Mark.inner], by simp⟩
    · refine ⟨[.control (item.1, reply)], .visible ?_, by simp [Mark.inner], by simp⟩
      show Move ρ m.router _ queued.router
      exact control_move (streamId_of_accept haccept) hq
  · obtain ⟨-, offer, -, ⟨failure, -, rfl⟩ | ⟨bound, -, -, rfl⟩⟩ := readAnswer_eq_ok h
    · exact ⟨[.closed], .visible (disconnect_move m), by simp [Mark.inner], fun _ => rfl⟩
    · exact ⟨[], .refl _, by simp, by simp⟩

/-- The checks of a new stream at the endpoint. -/
theorem receiveStart_eq_ok (hadmitted : Codec.admitLimited item.2 m.limits = .ok ())
    (hstarts : starts item.2.kind = true) (h : m.receiveStart item = .ok m') :
    m' = m ∧ item.2.streamId ≤ m.highestId ∨
      m.endpointConfig.isSome = true ∧ m.highestId < item.2.streamId ∧
        ∃ operation, m'.router = ((m.router.setRow item.1 (some (some operation))).start item).act
          item := by
  obtain ⟨_, hend, h⟩ := bind_eq_ok.1 h
  have hend : m.endpointConfig.isSome = true := by
    rw [← Option.not_isNone, refuseIf_eq_ok.1 hend]
    rfl
  split_ifs at h with hold
  · cases h
    exact .inl ⟨rfl, hold⟩
  obtain ⟨_, hlive, h⟩ := bind_eq_ok.1 h
  obtain ⟨_, -, h⟩ := bind_eq_ok.1 h
  obtain ⟨_, hvalid, h⟩ := bind_eq_ok.1 h
  obtain ⟨⟨operation, kind, timeout⟩, hadmitStart, h⟩ := bind_eq_ok.1 h
  obtain ⟨row, hrow, h⟩ := bind_eq_ok.1 h
  obtain ⟨_, -, h⟩ := bind_eq_ok.1 h
  obtain ⟨queued, hq, h⟩ := bind_eq_ok.1 h
  cases h
  obtain ⟨-, row', hrow', hsealed⟩ := liveRequest_eq_ok (orError_eq_ok.1 hlive)
  rw [required_eq_ok, hrow'] at hrow
  cases hrow
  have hkind : kind = Kind.first item.2.kind := by
    by_cases hopen : item.2.kind = .open_
    · obtain ⟨b, hb, hvalid⟩ := bind_eq_ok.1 hvalid
      rw [if_pos (by simpa using hopen), orError_eq_ok] at hvalid
      obtain ⟨_, -, hvalid⟩ := bind_eq_ok.1 hvalid
      obtain ⟨body, hbody, -⟩ := bind_eq_ok.1 hvalid
      rw [admitStart, required_eq_ok.1 hbody] at hadmitStart
      cases hadmitStart
      rw [Kind.first, if_pos hopen]
    · have hcheck : item.2.kind = .checkIdentity := by
        cases hk : item.2.kind <;> simp_all [starts]
      rw [admitStart, Codec.open_of_checkIdentity (envelope_of_admitLimited hadmitted) hcheck]
        at hadmitStart
      obtain ⟨check, -, hadmitStart⟩ := bind_eq_ok.1 hadmitStart
      obtain ⟨_, -, hadmitStart⟩ := bind_eq_ok.1 hadmitStart
      cases hadmitStart
      rw [Kind.first, if_neg hopen]
  refine .inr ⟨hend, not_le.1 hold, operation, ?_⟩
  have hroute : (m.routeFor item.1 item.2 kind timeout).stream = .first item := by
    simp [routeFor, Route.stream, Stream.first, hkind]
  obtain ⟨hroutes, hrequests, -⟩ := enqueue_keeps hq
  have hview : ({ row with operation := some operation } : Request).view =
      some (some operation) := by
    simp [Request.view, hsealed]
  have hset := router_setRow queued item.1 { row with operation := some operation }
  rw [hview, router_enqueue hq] at hset
  rw [← hroutes, ← hrequests]
  refine (router_start { queued with requests := (queued.requests.insert item.1
    { row with operation := some operation }) } item hroute).trans ?_
  rw [hset]
  rfl

theorem receiveNext_eq_ok (h : m.receiveNext item = .ok m') :
    m' = m ∧ m.routes.get? item.2.streamId = none ∨
      ∃ route, m.routes.get? item.2.streamId = some route ∧ route.request = item.1 ∧
        validKind (!m.endpointConfig.isSome) route.kind item.2.kind = true ∧
        m'.router = (m.router.setRoute item.2.streamId (route.stream.after item.2.kind)).act
          item := by
  unfold receiveNext at h
  cases hroute : m.routes.get? item.2.streamId with
  | none =>
    rw [hroute] at h
    split_ifs at h
    · cases h
      exact .inl ⟨rfl, rfl⟩
  | some route =>
    rw [hroute] at h
    obtain ⟨_, hrequest, h⟩ := bind_eq_ok.1 h
    obtain ⟨_, hkind, h⟩ := bind_eq_ok.1 h
    obtain ⟨_, -, h⟩ := bind_eq_ok.1 h
    obtain ⟨queued, hq, h⟩ := bind_eq_ok.1 h
    cases h
    refine .inr ⟨route, rfl, by simpa [refuseIf_eq_ok] using hrequest, ?_, ?_⟩
    · simpa [validateTransition, refuseIf_eq_ok] using hkind
    · obtain ⟨hroutes, -⟩ := enqueue_keeps hq
      rw [router_transition (hroutes ▸ hroute), router_enqueue hq]
      rfl

theorem receiveIn_moves (hside : ρ.endpoint = m.endpointConfig.isSome)
    (h : m.receiveIn item = .ok m') :
    ∃ marks, Weak (Move ρ) m.router marks m'.router ∧
      (∀ k ∈ marks, k.inner = true ∨ k = .heard item ∧
        (starts item.2.kind = true → m.highestId < item.2.streamId)) ∧
      (.closed ∈ marks → m'.phase = .closed) ∧
      (starts item.2.kind = true → .heard item ∈ marks ∨ item.2.streamId ≤ m.highestId) := by
  obtain ⟨_, -, h⟩ := bind_eq_ok.1 h
  obtain ⟨_, hadmitted, h⟩ := bind_eq_ok.1 h
  have hadmitted := orError_eq_ok.1 hadmitted
  split_ifs at h with hzero hstarts
  · obtain ⟨marks, hw, hinner, hclosed⟩ := bootstrap_moves (ρ := ρ) h
    refine ⟨marks, hw, fun k hk => .inl (hinner k hk), hclosed, fun hstarts => ?_⟩
    -- no message of a stream has stream 0
    have hpos := (Codec.streamId_of_envelope (envelope_of_admitLimited hadmitted)).2
    have hwire : 3 < item.2.kind.wire.toNat := by
      cases hk : item.2.kind <;> simp_all [starts, MessageKind.wire]
    have := hpos hwire
    omega
  · obtain ⟨_, -, h⟩ := bind_eq_ok.1 h
    rcases receiveStart_eq_ok hadmitted hstarts h with ⟨rfl, hold⟩ |
      ⟨hend, hnew, operation, hrouter⟩
    · exact ⟨[], .refl _, by simp, by simp, fun _ => .inr hold⟩
    · refine ⟨[.heard item], .visible ?_, by simp [hnew], by simp, fun _ => .inl (by simp)⟩
      rw [hrouter]
      exact .hearStart operation (by rw [hside, hend]) hstarts hnew
  · obtain ⟨_, -, h⟩ := bind_eq_ok.1 h
    rcases receiveNext_eq_ok h with ⟨rfl, -⟩ | ⟨route, hroute, hrequest, hkind, hrouter⟩
    · exact ⟨[], .refl _, by simp, by simp, fun h => absurd h hstarts⟩
    · refine ⟨[.heard item], .visible ?_, by simp [hstarts], by simp, fun h => absurd h hstarts⟩
      rw [hrouter]
      exact .hear (s := route.stream) (by simp [router, hroute]) hrequest
        (by rw [hside]; exact hkind)

theorem receive_moves (hside : ρ.endpoint = m.endpointConfig.isSome) :
    Moves ρ m (.receive item) := by
  have hstay : ∀ r, m.receive item = (m, r) → (r = .ok () → item.2.sessionId ≠ m.session) →
      Moves ρ m (.receive item) := by
    intro r hr hother
    refine ⟨[], by rw [call, hr]; exact .refl _, rfl, by simp, ?_, by simp⟩
    rintro x ⟨⟩ hok hsession
    rw [call, hr] at hok
    exact absurd hsession (hother (by simpa using hok))
  by_cases hclosed : m.phase = .closed
  · exact hstay (.error .closed) (by rw [receive, if_pos hclosed]) (by rintro ⟨⟩)
  by_cases hsession : item.2.sessionId ≠ m.session
  · exact hstay (.ok ()) (by rw [receive, if_neg hclosed, if_pos hsession]) fun _ => hsession
  cases hr : m.receiveIn item with
  | error e =>
    have hcall : m.receive item = (if e.fatal then m.disconnect else m, .error e) := by
      rw [receive, if_neg hclosed, if_neg hsession, hr]
    by_cases hfatal : e.fatal = true
    · rw [if_pos hfatal] at hcall
      refine ⟨[.closed], by rw [call, hcall]; exact .visible (disconnect_move m), rfl, by simp, ?_,
        fun _ => by rw [call, hcall]; rfl⟩
      rintro x ⟨⟩ hok
      rw [call, hcall] at hok
      cases hok
    · rw [if_neg hfatal] at hcall
      exact hstay _ hcall (by rintro ⟨⟩)
  | ok n =>
    have hcall : m.receive item = (n, .ok ()) := by
      rw [receive, if_neg hclosed, if_neg hsession, hr]
    obtain ⟨marks, hw, hmarks, hclosed, hmissed⟩ := receiveIn_moves hside hr
    refine ⟨marks, by rw [call, hcall]; exact hw, ?_, ?_, ?_, by rw [call, hcall]; exact hclosed⟩
    · show marks.filter Mark.handed = []
      rw [List.filter_eq_nil_iff]
      intro k hk
      rcases hmarks k hk with hin | ⟨rfl, -⟩
      · cases k <;> simp_all [Mark.handed, Mark.inner]
      · simp [Mark.handed]
    · intro x hx
      rcases hmarks _ hx with hin | ⟨heq, hnew⟩
      · cases hin
      · cases heq
        exact ⟨rfl, by rw [call, hcall], not_not.1 hsession, hnew⟩
    · rintro x ⟨⟩ - - hstarts
      exact hmissed hstarts

/-! ### Every call -/

/-- What the rules ask of the host before a call. -/
def Orderly (ρ : Rules) (m : Mux) : Call → Prop
  | .send request message => ρ.endpoint = true → (m.send request message).isOk = true →
    ∀ route, m.routes.get? message.streamId = some route → route.cancel.isSome = true →
      ρ.late message.kind
  | .cancel request | .finish request => ρ.tidy → m.cancels request = true →
    ∀ x ∈ m.outbound.attachments, x.1 = request → x.2.kind ≠ .opened
  | _ => True

/-- A request's row is among the used requests. -/
def RowsUsed (m : Mux) : Prop :=
  ∀ request, m.requests.get? request ≠ none → request ∈ m.usedRequests

theorem settle_moves {c : Call} {r : Except Error Mux} (hc : m.call c = m.settle r)
    (hreceive : ∀ x, c ≠ .receive x)
    (h : ∀ n, r = .ok n → ∃ marks, Weak (Move ρ) m.router marks n.router ∧
      ∀ k ∈ marks, k.inner = true ∧ k ≠ .closed) : Moves ρ m c := by
  have hnone : ∀ e, handedBy c (.done e) = [] := by
    intro e
    cases c <;> rfl
  cases r with
  | error e =>
    refine ⟨[], by rw [hc]; exact .refl _, ?_⟩
    rw [hc]
    exact .of_inner hreceive (hnone _) (by simp) (by simp)
  | ok n =>
    obtain ⟨marks, hw, hmarks⟩ := h n rfl
    refine ⟨marks, by rw [hc]; exact hw, ?_⟩
    rw [hc]
    exact .of_inner hreceive (hnone _) (fun k hk => (hmarks k hk).1)
      fun hk => absurd rfl (hmarks _ hk).2

theorem settleStream_moves {c : Call} {r : Except Error (Mux × ℤ)}
    (hc : m.call c = m.settleStream r) (hreceive : ∀ x, c ≠ .receive x)
    (h : ∀ n id, r = .ok (n, id) → ∃ item, Move ρ m.router (some (.started item)) n.router) :
    Moves ρ m c := by
  have hnone : ∀ e, handedBy c (.stream e) = [] := by
    intro e
    cases c <;> rfl
  cases r with
  | error e =>
    refine ⟨[], by rw [hc]; exact .refl _, ?_⟩
    rw [hc]
    exact .of_inner hreceive (hnone _) (by simp) (by simp)
  | ok p =>
    obtain ⟨item, hmove⟩ := h p.1 p.2 rfl
    refine ⟨[.started item], by rw [hc]; exact .visible hmove, ?_⟩
    rw [hc]
    exact .of_inner hreceive (hnone _) (by simp [Mark.inner]) (by simp)

/-- Every call is a run of moves that shows what the call did. -/
theorem call_moves {c : Call} (ho : Obeys m ρ) (hused : RowsUsed m) (hc : Orderly ρ m c) :
    Moves ρ m c := by
  have hinner : ∀ {marks : List Mark} {n : Mux} {o : Outcome}, (∀ x, c ≠ .receive x) →
      handedBy c o = [] → m.call c = (n, o) → Weak (Move ρ) m.router marks n.router →
      (∀ k ∈ marks, k.inner = true) → (.closed ∈ marks → n.phase = .closed) → Moves ρ m c := by
    intro marks n o hreceive hnone hcall hw hmarks hclosed
    refine ⟨marks, by rw [hcall]; exact hw, ?_⟩
    rw [hcall]
    exact .of_inner hreceive hnone hmarks hclosed
  cases c with
  | register request operation =>
    refine settle_moves rfl (fun x => by rintro ⟨⟩) fun n hn => ?_
    exact ⟨[], .silent (register_move hused hn), by simp⟩
  | «begin» request =>
    refine settle_moves rfl (fun x => by rintro ⟨⟩) fun n hn => ?_
    rcases begin_move hn with rfl | ⟨-, -, queued, hq, rfl⟩
    · exact ⟨[], .refl _, by simp⟩
    · refine ⟨[.control (request, m.bindOffer)], .visible ?_, by simp [Mark.inner]⟩
      show Move ρ m.router _ queued.router
      exact control_move rfl hq
  | checkIdentity request identity timeoutMs =>
    refine settleStream_moves rfl (fun x => by rintro ⟨⟩) fun n id hn => ?_
    obtain ⟨x, -, -, hmove⟩ := checkIdentity_move ho.start ho.side hn
    exact ⟨x, hmove⟩
  | open_ request body =>
    refine settleStream_moves rfl (fun x => by rintro ⟨⟩) fun n id hn => ?_
    obtain ⟨x, -, -, hmove⟩ := open_move ho.start ho.side hn
    exact ⟨x, hmove⟩
  | send request message =>
    refine settle_moves rfl (fun x => by rintro ⟨⟩) fun n hn => ?_
    obtain ⟨route, hroute, hrequest, hkind, hchecked, hrouter⟩ := send_eq_ok hn
    refine ⟨[], .silent ?_, by simp⟩
    rw [hrouter]
    exact @Move.send ρ m.router (request, message) route.stream (by simp [router, hroute])
      hrequest (by rw [ho.side]; exact hkind) (ho.send _ _ hchecked)
      fun hend hcancel => hc hend (by rw [hn]; rfl) route hroute hcancel
  | nextAction =>
    rcases nextAction_move (ρ := ρ) m with hnone | ⟨item, hitem, hmove⟩
    · refine ⟨[], by rw [call, hnone]; exact .refl _, ?_⟩
      rw [call, hnone]
      exact .of_inner (fun x => by rintro ⟨⟩) rfl (by simp) (by simp)
    · refine ⟨[.action item], .visible hmove, ?_⟩
      refine .of_quiet (fun x => by rintro ⟨⟩) ?_ (fun x => by simp) (by simp)
      simp only [call, hitem, handedBy]
      rfl
  | nextMessage => exact nextMessage_moves ho
  | cancel request =>
    obtain ⟨marks, hw, hmarks, hclosed⟩ := cancel_moves ho.side hc
    refine hinner (fun x => by rintro ⟨⟩) rfl rfl hw (fun k hk => ?_) hclosed
    rcases hmarks k hk with rfl | rfl <;> rfl
  | finish request =>
    obtain ⟨marks, hw, hmarks, hclosed⟩ := cancel_moves ho.side hc
    obtain ⟨hrouter, hphase⟩ := finish_router m request
    refine hinner (fun x => by rintro ⟨⟩) rfl rfl (hrouter ▸ hw) (fun k hk => ?_)
      (hphase ▸ hclosed)
    rcases hmarks k hk with rfl | rfl <;> rfl
  | advance now =>
    obtain ⟨marks, hw, hmarks, hclosed⟩ := advance_moves now ho.side ho.send
    refine hinner (fun x => by rintro ⟨⟩) rfl rfl hw (fun k hk => ?_) hclosed
    rcases hmarks k hk with rfl | ⟨id, rfl⟩ <;> rfl
  | disconnect =>
    exact hinner (fun x => by rintro ⟨⟩) rfl rfl (.visible (disconnect_move m))
      (by simp [Mark.inner])
      fun _ => rfl
  | receive item => exact receive_moves ho.side

end GwzTransport.Mux
