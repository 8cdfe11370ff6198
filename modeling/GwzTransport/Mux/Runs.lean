import GwzTransport.Mux.Simulation

/-!
# Runs of a multiplexer

What no call changes, what a call may change of the phase and of the highest stream id, and what it
does to the two queues: a few edits, one after the other, in which an item is queued, handed out,
discarded with its request, or all of them go with the session.

* `Queues.Step`: the edits, and what `can_push` checked of an item that was queued;
* `Kept`: what cancellation, deadlines and the hand-out of items leave alone;
* `Frame`: what every call leaves alone, with the order of the phases;
* `call_makes`: every call does both, under the limits in force before it;
* `Begun`: a multiplexer that has not reached its `Ready` phase has no stream yet.
-/

namespace GwzTransport.Mux

open Protocol MachineInt Checks Binding Transition

variable {m m' n : Mux} {item : Attachment}

/-! ### Edits -/

structure Queues where
  outbound : Queue
  actions : Queue

def queues (m : Mux) : Queues := ⟨m.outbound, m.actions⟩

/-- One change of the queues. -/
inductive Edit
  | queued
  | message (item : Attachment)
  | action (item : Attachment)
  | discarded (request : String)
  | dropped (request : String)
  | cleared

/-- An item's place: everything up to it is within the limits, and if it is a data item, all data up
to it is within the part outside the control reserve. -/
structure Fits (limits : Limits) (item : Queued) (upto : List Queued) : Prop where
  bytes : ((upto.map (·.charge)).sum : ℕ) ≤ limits.queuedBytes
  frames : (upto.length : ℤ) ≤ limits.queuedFrames
  dataBytes : item.control = false →
    ((dataCharges upto).sum : ℤ) ≤ limits.queuedBytes - limits.controlReserveBytes
  dataFrames : item.control = false →
    ((dataCharges upto).length : ℤ) ≤ limits.queuedFrames - limits.controlReserveFrames

theorem dataCharges_sublist {items items' : List Queued} (h : items.Sublist items') :
    (dataCharges items).Sublist (dataCharges items') :=
  (h.filter _).map _

theorem Fits.sublist {limits : Limits} {item : Queued} {upto upto' : List Queued}
    (h : Fits limits item upto) (hsub : upto'.Sublist upto) : Fits limits item upto' := by
  have hbytes : (upto'.map (·.charge)).sum ≤ (upto.map (·.charge)).sum :=
    (hsub.map _).sum_le_sum fun _ _ => Nat.zero_le _
  have hdata : (dataCharges upto').sum ≤ (dataCharges upto).sum :=
    (dataCharges_sublist hsub).sum_le_sum fun _ _ => Nat.zero_le _
  have hframes : (dataCharges upto').length ≤ (dataCharges upto).length :=
    (dataCharges_sublist hsub).length_le
  have hlength := hsub.length_le
  refine ⟨?_, ?_, fun hc => ?_, fun hc => ?_⟩
  · have := h.bytes
    omega
  · have := h.frames
    omega
  · have := h.dataBytes hc
    omega
  · have := h.dataFrames hc
    omega

theorem asUsize_limits {limits : Limits} (h : Codec.limits limits = .ok ()) :
    (asUsize limits.queuedBytes : ℤ) = limits.queuedBytes ∧
      (asUsize limits.queuedFrames : ℤ) = limits.queuedFrames ∧
      (asUsize (limits.queuedBytes - limits.controlReserveBytes) : ℤ) =
        limits.queuedBytes - limits.controlReserveBytes ∧
      (asUsize (limits.queuedFrames - limits.controlReserveFrames) : ℤ) =
        limits.queuedFrames - limits.controlReserveFrames := by
  have h := refuseIf_eq_ok.1 h
  simp only [List.any_cons, List.any_nil, Bool.or_eq_false_iff, decide_eq_false_iff_not, not_le,
    not_lt, ge_iff_le, gt_iff_lt] at h
  unfold asUsize
  omega

/-- What `can_push` checks, for limits that the codec accepts. -/
theorem fits_of_canPush {limits : Limits} {q : Queue} {item : Attachment} {charge : ℕ}
    {control : Bool} (hlimits : Codec.limits limits = .ok ())
    (h : q.canPush charge control limits = true) :
    Fits limits ⟨item, charge, control⟩ (q.items ++ [⟨item, charge, control⟩]) := by
  obtain ⟨hbytes, hframes, hdata, hslots⟩ := asUsize_limits hlimits
  simp only [Queue.canPush, Bool.and_eq_true, Bool.or_eq_true, decide_eq_true_eq] at h
  obtain ⟨⟨hb, hf⟩, hd⟩ := h
  have hsum : q.bytes + charge = ((q.push item charge control).items.map (·.charge)).sum :=
    (q.push item charge control).bytes_eq
  refine ⟨hsum ▸ by omega, ?_, fun hcontrol => ?_, fun hcontrol => ?_⟩
  · rw [List.length_append, List.length_singleton]
    omega
  · obtain rfl : control = false := hcontrol
    have hsum : q.dataBytes + charge = (dataCharges (q.push item charge false).items).sum :=
      (q.push item charge false).dataBytes_eq
    obtain ⟨hdb, -⟩ := hd.resolve_left Bool.false_ne_true
    exact hsum ▸ by omega
  · obtain rfl : control = false := hcontrol
    have hcount : q.dataFrames + 1 = (dataCharges (q.push item charge false).items).length :=
      (q.push item charge false).dataFrames_eq
    obtain ⟨-, hdf⟩ := hd.resolve_left Bool.false_ne_true
    exact hcount ▸ by omega

inductive Queues.Step (limits : Limits) : Queues → Edit → Queues → Prop
  | send {q item charge control} :
    Fits limits ⟨item, charge, control⟩ (q.outbound.items ++ [⟨item, charge, control⟩]) →
    Step limits q .queued { q with outbound := q.outbound.push item charge control }
  | act {q item charge control} :
    Fits limits ⟨item, charge, control⟩ (q.actions.items ++ [⟨item, charge, control⟩]) →
    Step limits q .queued { q with actions := q.actions.push item charge control }
  | handOut {q item rest} : q.outbound.pop = some (item, rest) →
    Step limits q (.message item) { q with outbound := rest }
  | handAction {q item rest} : q.actions.pop = some (item, rest) →
    Step limits q (.action item) { q with actions := rest }
  | discard {q} (request : String) :
    Step limits q (.discarded request) { q with outbound := q.outbound.discard request }
  | dropActions {q} (request : String) : Step limits q (.dropped request) { q with
      actions := q.actions.retain fun item => item.1 != request || terminal item.2.kind }
  | clear {q} : Step limits q .cleared ⟨.empty, .empty⟩

/-- The queues change by edits of a kind, made under the given limits. -/
def Edited (limits : Limits) (A : Edit → Prop) (m n : Mux) : Prop :=
  ∃ edits, Run (Queues.Step limits) m.queues edits n.queues ∧ ∀ e ∈ edits, A e

variable {limits : Limits} {A : Edit → Prop}

theorem Edited.of_eq (h : n.queues = m.queues) : Edited limits A m n :=
  ⟨[], h ▸ .nil, fun _ he => absurd he List.not_mem_nil⟩

theorem Edited.refl (m : Mux) : Edited limits A m m := .of_eq rfl

theorem Edited.single {e : Edit} (he : A e) (h : Queues.Step limits m.queues e n.queues) :
    Edited limits A m n :=
  ⟨[e], .single h, fun _ he' => List.mem_singleton.1 he' ▸ he⟩

theorem Edited.trans {k : Mux} (h : Edited limits A m n) (h' : Edited limits A n k) :
    Edited limits A m k := by
  obtain ⟨edits, hrun, hA⟩ := h
  obtain ⟨edits', hrun', hA'⟩ := h'
  exact ⟨edits ++ edits', hrun.append hrun', fun e he => (List.mem_append.1 he).elim (hA e) (hA' e)⟩

/-- An item is queued, and then other things change. -/
theorem Edited.enqueue {outgoing : Bool} {queued : Mux} (hA : A .queued)
    (h : m.enqueue item outgoing = .ok queued) (hn : n.queues = queued.queues) :
    Edited m.limits A m n := by
  obtain ⟨_, -, h⟩ := bind_eq_ok.1 h
  obtain ⟨charge, hcharge, h⟩ := bind_eq_ok.1 h
  obtain ⟨_, hcharge, -⟩ := bind_eq_ok.1 hcharge
  obtain ⟨_, hlimits, -⟩ := bind_eq_ok.1 (orError_eq_ok.1 hcharge)
  refine .single hA ?_
  rw [hn]
  cases outgoing with
  | true =>
    obtain ⟨_, hroom, h⟩ := bind_eq_ok.1 h
    cases h
    have hroom : m.outbound.canPush charge (controlKind item.2.kind) m.limits = true := by
      simpa using refuseIf_eq_ok.1 hroom
    exact .send (fits_of_canPush hlimits hroom)
  | false =>
    obtain ⟨_, hroom, h⟩ := bind_eq_ok.1 h
    cases h
    have hroom : m.actions.canPush charge (controlKind item.2.kind) m.limits = true := by
      simpa using refuseIf_eq_ok.1 hroom
    exact .act (fits_of_canPush hlimits hroom)

theorem limits_enqueue {outgoing : Bool} (h : m.enqueue item outgoing = .ok n) :
    n.limits = m.limits := by
  obtain ⟨-, -, -, hbinding, -, -, -, hconfig, -⟩ := enqueue_keeps h
  rw [Mux.limits, Mux.limits, hbinding, hconfig]

/-! ### Changes within a session -/

/-- A change of queues, routes and rows, perhaps to the end of the session. -/
structure Kept (m n : Mux) : Prop where
  session : n.session = m.session
  side : n.endpointConfig = m.endpointConfig
  config : n.config = m.config
  profile : n.profile = m.profile
  used : n.usedRequests = m.usedRequests
  highest : n.highestId = m.highestId
  rows : ∀ request, n.requests.get? request ≠ none → m.requests.get? request ≠ none
  phase : n.phase = m.phase ∧ n.binding = m.binding ∧ n.offer = m.offer ∨ n.phase = .closed

theorem Kept.refl (m : Mux) : Kept m m :=
  ⟨rfl, rfl, rfl, rfl, rfl, rfl, fun _ h => h, .inl ⟨rfl, rfl, rfl⟩⟩

theorem Kept.trans {k : Mux} (h : Kept m n) (h' : Kept n k) : Kept m k where
  session := h'.session.trans h.session
  side := h'.side.trans h.side
  config := h'.config.trans h.config
  profile := h'.profile.trans h.profile
  used := h'.used.trans h.used
  highest := h'.highest.trans h.highest
  rows := fun request hr => h.rows request (h'.rows request hr)
  phase := by
    rcases h'.phase with ⟨hphase, hbinding, hoffer⟩ | hclosed
    · rw [hphase, hbinding, hoffer]
      exact h.phase
    · exact .inr hclosed

theorem Kept.disconnect (m : Mux) : Kept m m.disconnect :=
  ⟨rfl, rfl, rfl, rfl, rfl, rfl, fun _ h => absurd rfl h, .inr rfl⟩

theorem Kept.enqueue {outgoing : Bool} (h : m.enqueue item outgoing = .ok n) : Kept m n := by
  obtain ⟨-, hrequests, hphase, hbinding, hsession, hside, hused, hconfig, hoffer, hprofile,
    hhighest, -⟩ := enqueue_keeps h
  exact ⟨hsession, hside, hconfig, hprofile, hused, hhighest, fun r hr => hrequests ▸ hr,
    .inl ⟨hphase, hbinding, hoffer⟩⟩

/-- Queues, routes and time change alone. -/
theorem Kept.state (m : Mux) (outbound actions : Queue) (routes : SortedMap ℤ Route) (now : ℕ) :
    Kept m { m with outbound, actions, routes, now } :=
  ⟨rfl, rfl, rfl, rfl, rfl, rfl, fun _ h => h, .inl ⟨rfl, rfl, rfl⟩⟩

theorem Kept.sealRow {request : String} {row : Request} (h : m.requests.get? request = some row) :
    Kept m (m.sealRow request row) := by
  refine ⟨rfl, rfl, rfl, rfl, rfl, rfl, fun r hr => ?_, .inl ⟨rfl, rfl, rfl⟩⟩
  by_cases hreq : r = request
  · rw [hreq, h]
    exact Option.some_ne_none _
  · rwa [Mux.sealRow, m.requests.get?_insert_of_ne hreq] at hr

/-- What a sent message makes. -/
theorem send_made {request : String} {message : Envelope} (h : m.send request message = .ok n) :
    ∃ queued, m.enqueue (request, message) true = .ok queued ∧ n = queued.transition message := by
  obtain ⟨_, -, h⟩ := bind_eq_ok.1 h
  obtain ⟨_, -, h⟩ := bind_eq_ok.1 h
  obtain ⟨_, -, h⟩ := bind_eq_ok.1 h
  obtain ⟨_, -, h⟩ := bind_eq_ok.1 h
  obtain ⟨_, -, h⟩ := bind_eq_ok.1 h
  obtain ⟨_, -, h⟩ := bind_eq_ok.1 h
  obtain ⟨_, -, h⟩ := bind_eq_ok.1 h
  obtain ⟨queued, hq, h⟩ := bind_eq_ok.1 h
  cases h
  exact ⟨queued, hq, rfl⟩

/-- A change that edits the queues. -/
structure Change (limits : Limits) (A : Edit → Prop) (m n : Mux) : Prop where
  kept : Kept m n
  edited : Edited limits A m n

namespace Change

theorem state (m : Mux) (routes : SortedMap ℤ Route) (now : ℕ) :
    Change limits A m { m with routes, now } := ⟨.state m _ _ _ _, .of_eq rfl⟩

theorem refl (m : Mux) : Change limits A m m := ⟨.refl m, .refl m⟩

theorem trans {k : Mux} (h : Change limits A m n) (h' : Change limits A n k) :
    Change limits A m k := ⟨h.kept.trans h'.kept, h.edited.trans h'.edited⟩

theorem disconnect (hA : A .cleared) (m : Mux) : Change limits A m m.disconnect :=
  ⟨.disconnect m, .single hA .clear⟩

theorem enqueue {outgoing : Bool} (hA : A .queued) (h : m.enqueue item outgoing = .ok n) :
    Change m.limits A m n := ⟨.enqueue h, .enqueue hA h rfl⟩

theorem transition (m : Mux) (message : Envelope) : Change limits A m (m.transition message) := by
  unfold Mux.transition
  split_ifs
  · split
    · exact .refl m
    · exact .state m _ _
  · exact .state m _ _
  · exact .refl m

theorem send (hA : A .queued) {request : String} {message : Envelope}
    (h : m.send request message = .ok n) : Change m.limits A m n := by
  obtain ⟨queued, hq, rfl⟩ := send_made h
  exact (enqueue hA hq).trans (.transition queued message)

theorem popOutbound (m : Mux) (hA : ∀ x, m.popOutbound.2 = some x → A (.message x)) :
    Change limits A m m.popOutbound.1 := by
  unfold Mux.popOutbound at hA ⊢
  split
  · exact .refl m
  next item rest hpop =>
    rw [hpop] at hA
    exact ⟨.state m _ _ _ _, .single (hA item rfl) (.handOut hpop)⟩

theorem nextAction (m : Mux) (hA : ∀ x, m.nextAction.2 = some x → A (.action x)) :
    Change m.limits A m m.nextAction.1 := by
  unfold Mux.nextAction at hA ⊢
  split
  · exact .refl m
  next item rest hpop =>
    rw [hpop] at hA
    exact ⟨.state m _ _ _ _, .single (hA item rfl) (.handAction hpop)⟩

theorem nextMessage (m : Mux) (hclear : m.nextMessage.1.phase = .closed → A .cleared)
    (hA : ∀ x, m.nextMessage.2 = some x → A (.message x)) :
    Change m.limits A m m.nextMessage.1 := by
  unfold Mux.nextMessage at hclear hA ⊢
  split_ifs at hclear hA ⊢
  · exact .disconnect (hclear rfl) m
  · exact .popOutbound m hA
  · split at hA
    · exact .popOutbound m hA
    · unfold Mux.handSlot
      split
      · split_ifs
        · exact .state m _ _
        · exact .state m _ _
      · exact .refl m

theorem notices {request : String} (hA : A .queued) (ids : List ℤ) :
    ∀ m : Mux, ((notices request m ids).1.phase = .closed → A .cleared) →
      Change m.limits A m (notices request m ids).1 := by
  induction ids with
  | nil => exact fun m _ => .state m _ _
  | cons id ids ih =>
    intro m hclear
    rw [Mux.notices] at hclear ⊢
    split at hclear
    · exact .refl m
    · split at hclear
      · exact .disconnect (hclear rfl) m
      next queued hq => exact (enqueue hA hq).trans (limits_enqueue hq ▸ ih queued hclear)

theorem cancel {request : String} (hA : A .queued) (hdiscard : A (.discarded request))
    (hdrop : A (.dropped request)) (hclear : (m.cancel request).1.phase = .closed → A .cleared) :
    Change m.limits A m (m.cancel request).1 := by
  rcases m.cancel_cases request with
    ⟨e, hr⟩ | ⟨-, hr⟩ | ⟨row, hrow, -, ⟨-, hr⟩ | hr⟩
  · exact hr ▸ .refl m
  · rw [hr] at hclear ⊢
    exact .disconnect (hclear rfl) m
  · exact hr ▸ .refl m
  have hseal : Change m.limits A m (m.sealRow request row) :=
    ⟨.sealRow hrow, .single hdiscard (.discard request)⟩
  have hdropped : Change m.limits A (m.sealRow request row)
      ((m.sealRow request row).dropActions request) :=
    ⟨.state _ _ _ _ _, .single hdrop (.dropActions request)⟩
  rcases hr with ⟨-, hr⟩ | hr <;> rw [hr] at hclear ⊢
  · exact hseal.trans (hdropped.trans (notices hA _ _ hclear))
  · exact hseal.trans (.state _ _ _)

theorem finish {request : String} (hA : A .queued) (hdiscard : A (.discarded request))
    (hdrop : A (.dropped request)) (hclear : (m.finish request).1.phase = .closed → A .cleared) :
    Change m.limits A m (m.finish request).1 := by
  have hcancel : ((m.cancel request).1.phase = .closed → A .cleared) →
      Change m.limits A m (m.cancel request).1 := cancel hA hdiscard hdrop
  unfold Mux.finish at hclear ⊢
  split at hclear
  next n e hc =>
    rw [hc] at hcancel
    exact hcancel hclear
  next n hc =>
    rw [hc] at hcancel
    split_ifs at hclear ⊢
    · exact hcancel hclear
    · refine (hcancel hclear).trans ⟨⟨rfl, rfl, rfl, rfl, rfl, rfl, fun r hr => ?_,
        .inl ⟨rfl, rfl, rfl⟩⟩, .of_eq rfl⟩
      by_cases hreq : r = request
      · rw [hreq, n.requests.get?_erase_self] at hr
        exact absurd rfl hr
      · rwa [n.requests.get?_erase_of_ne hreq] at hr

theorem expire (hA : A .queued) (ids : List ℤ) :
    ∀ m : Mux, ((m.expire ids).phase = .closed → A .cleared) →
      Change m.limits A m (m.expire ids) := by
  induction ids with
  | nil => exact fun m _ => .refl m
  | cons id ids ih =>
    intro m hclear
    rw [Mux.expire] at hclear ⊢
    split at hclear
    · dsimp only at hclear ⊢
      split at hclear
      · exact .disconnect (hclear rfl) m
      next n hn =>
        obtain ⟨queued, hq, hn⟩ := bind_eq_ok.1 hn
        have hrest := ih { n with routes := n.routes.erase id } hclear
        have hlimits : { n with routes := n.routes.erase id }.limits = m.limits :=
          (limits_enqueue hn).trans (limits_enqueue hq)
        rw [hlimits] at hrest
        have hnotice : Change m.limits A queued n := limits_enqueue hq ▸ enqueue hA hn
        exact (enqueue hA hq).trans (hnotice.trans ((Change.state n _ _).trans hrest))
    · exact .refl m

theorem advance (hA : A .queued) {now : ℕ}
    (hclear : (m.advance now).phase = .closed → A .cleared) :
    Change m.limits A m (m.advance now) := by
  have hnow : Change m.limits A m { m with now := max m.now now } := .state m _ _
  unfold Mux.advance at hclear ⊢
  dsimp only at hclear ⊢
  split_ifs at hclear ⊢
  · exact hnow.trans (.disconnect (hclear rfl) _)
  · exact hnow.trans (.disconnect (hclear rfl) _)
  · exact hnow.trans (expire hA _ { m with now := max m.now now } hclear)

end Change

/-! ### What every call keeps -/

/-- What every call keeps. -/
structure Frame (m n : Mux) : Prop where
  session : n.session = m.session
  side : n.endpointConfig = m.endpointConfig
  config : n.config = m.config
  profile : n.profile = m.profile
  used : m.usedRequests ⊆ n.usedRequests
  rows : RowsUsed m → RowsUsed n
  highest : n.highestId = m.highestId ∨ m.phase = .ready
  ready : m.phase = .ready → n.phase = .ready ∧ n.binding = m.binding ∨ n.phase = .closed
  rejecting : m.phase = .rejecting → n.phase = .rejecting ∨ n.phase = .closed
  closed : m.phase = .closed → n.phase = .closed

theorem Kept.frame (h : Kept m n) : Frame m n where
  session := h.session
  side := h.side
  config := h.config
  profile := h.profile
  used := fun _ hr => h.used ▸ hr
  rows := fun hu request hr => h.used ▸ hu request (h.rows request hr)
  highest := .inl h.highest
  ready := fun hready => h.phase.imp_left fun hp => ⟨hp.1.trans hready, hp.2.1⟩
  rejecting := fun hphase => h.phase.imp_left fun hp => hp.1.trans hphase
  closed := fun hclosed => by
    rcases h.phase with ⟨hp, -⟩ | hp
    · exact hp.trans hclosed
    · exact hp

/-- A change from a state that is neither ready nor rejecting nor closed. -/
theorem Frame.of_opening (hsession : n.session = m.session)
    (hside : n.endpointConfig = m.endpointConfig) (hconfig : n.config = m.config)
    (hprofile : n.profile = m.profile) (hused : m.usedRequests ⊆ n.usedRequests)
    (hrows : RowsUsed m → RowsUsed n) (hhighest : n.highestId = m.highestId)
    (hphase : m.phase ≠ .ready ∧ m.phase ≠ .rejecting ∧ m.phase ≠ .closed) : Frame m n :=
  ⟨hsession, hside, hconfig, hprofile, hused, hrows, .inl hhighest, fun h => absurd h hphase.1,
    fun h => absurd h hphase.2.1, fun h => absurd h hphase.2.2⟩

/-- What a call keeps, and the edits it makes. -/
structure Makes (limits : Limits) (A : Edit → Prop) (m n : Mux) : Prop where
  frame : Frame m n
  edited : Edited limits A m n

theorem Change.makes (h : Change limits A m n) : Makes limits A m n := ⟨h.kept.frame, h.edited⟩

theorem rowsUsed_insert {request : String} {row : Request} (row' : Request)
    (h : m.requests.get? request = some row) (hu : RowsUsed m) :
    RowsUsed { m with requests := m.requests.insert request row' } := by
  intro r hr
  by_cases hreq : r = request
  · exact hreq ▸ hu request (by rw [h]; exact Option.some_ne_none _)
  · exact hu r (by rwa [m.requests.get?_insert_of_ne hreq] at hr)

/-- What the first message of a stream makes; an old one makes nothing. -/
theorem receiveStart_made (h : m.receiveStart item = .ok n) : n = m ∨
    ∃ queued row operation kind timeout, m.enqueue item false = .ok queued ∧
      m.requests.get? item.1 = some row ∧ n = { queued with
        requests := m.requests.insert item.1 { row with operation := some operation }
        highestId := item.2.streamId
        routes := m.routes.insert item.2.streamId (m.routeFor item.1 item.2 kind timeout) } := by
  obtain ⟨_, -, h⟩ := bind_eq_ok.1 h
  split_ifs at h
  · cases h
    exact .inl rfl
  obtain ⟨_, -, h⟩ := bind_eq_ok.1 h
  obtain ⟨_, -, h⟩ := bind_eq_ok.1 h
  obtain ⟨_, -, h⟩ := bind_eq_ok.1 h
  obtain ⟨⟨operation, kind, timeout⟩, -, h⟩ := bind_eq_ok.1 h
  obtain ⟨row, hrow, h⟩ := bind_eq_ok.1 h
  obtain ⟨_, -, h⟩ := bind_eq_ok.1 h
  obtain ⟨queued, hq, h⟩ := bind_eq_ok.1 h
  cases h
  exact .inr ⟨queued, row, operation, kind, timeout, hq, required_eq_ok.1 hrow, rfl⟩

/-- What a further message makes; one of an old stream makes nothing. -/
theorem receiveNext_made (h : m.receiveNext item = .ok n) : n = m ∨
    ∃ queued, m.enqueue item false = .ok queued ∧ n = queued.transition item.2 := by
  unfold Mux.receiveNext at h
  split at h
  · split_ifs at h
    · cases h
      exact .inl rfl
  · obtain ⟨_, -, h⟩ := bind_eq_ok.1 h
    obtain ⟨_, -, h⟩ := bind_eq_ok.1 h
    obtain ⟨_, -, h⟩ := bind_eq_ok.1 h
    obtain ⟨queued, hq, h⟩ := bind_eq_ok.1 h
    cases h
    exact .inr ⟨queued, hq, rfl⟩

namespace Makes

theorem refl (m : Mux) : Makes limits A m m := (Change.refl m).makes

theorem register {request : String} {operation : Option String}
    (h : m.register request operation = .ok n) : Makes limits A m n := by
  obtain ⟨-, rfl⟩ := register_made h
  refine ⟨⟨rfl, rfl, rfl, rfl, fun _ hr => List.mem_cons_of_mem _ hr, fun hu r hr => ?_, .inl rfl,
    fun h => .inl ⟨h, rfl⟩, .inl, fun h => h⟩, .of_eq rfl⟩
  by_cases hreq : r = request
  · exact hreq ▸ List.mem_cons_self
  · exact List.mem_cons_of_mem _ (hu r (by rwa [m.requests.get?_insert_of_ne hreq] at hr))

theorem begin (hA : A .queued) {request : String} (h : m.begin request = .ok n) :
    Makes m.limits A m n := by
  rcases begin_move h with rfl | ⟨hphase, -, queued, hq, rfl⟩
  · exact .refl _
  · have hk := Kept.enqueue hq
    exact ⟨.of_opening hk.session hk.side hk.config hk.profile hk.frame.used
      hk.frame.rows hk.highest
      (by rw [hphase]; decide), .enqueue hA hq rfl⟩

theorem start (hA : A .queued) {request : String} {kind : Kind} {timeout : Option ℕ}
    {fill : Envelope → Envelope} {id : ℤ} (h : m.start request kind timeout fill = .ok (n, id)) :
    Makes m.limits A m n := by
  obtain ⟨-, hready, -, -, -, queued, hq, rfl⟩ := start_eq_ok h
  have hf := (Kept.enqueue hq).frame
  exact ⟨⟨hf.session, hf.side, hf.config, hf.profile, hf.used, hf.rows, .inr hready, hf.ready,
    hf.rejecting, hf.closed⟩, .enqueue hA hq rfl⟩

theorem bootstrap (hA : A .queued) (hclear : n.phase = .closed → A .cleared)
    (h : m.bootstrap item = .ok n) : Makes m.limits A m n := by
  rcases bootstrap_eq_ok h with rfl | ⟨k, -, hphase, -, h⟩ | ⟨-, h⟩
  · exact .refl _
  · have hopening : ∀ {x : Attachment} {q : Mux}, m.enqueue x true = .ok q → n.session = q.session →
        n.endpointConfig = q.endpointConfig → n.config = q.config → n.profile = q.profile →
        n.requests = q.requests → n.usedRequests = q.usedRequests → n.highestId = q.highestId →
        n.queues = q.queues → Makes m.limits A m n := by
      intro x q hq hsession hside hconfig hprofile hrequests hused hhighest hqueues
      have hk := Kept.enqueue hq
      refine ⟨.of_opening (hsession.trans hk.session) (hside.trans hk.side)
        (hconfig.trans hk.config) (hprofile.trans hk.profile)
        (fun _ hr => hused ▸ hk.frame.used hr) (fun hu request hr => ?_)
        (hhighest.trans hk.highest) (by rw [hphase]; decide), .enqueue hA hq hqueues⟩
      exact hused ▸ hk.frame.rows hu request (hrequests ▸ hr)
    have hreject : ∀ {failure : Failure}, m.rejectBinding item.1 failure = .ok n →
        Makes m.limits A m n := by
      intro failure h
      obtain ⟨_, -, h⟩ := bind_eq_ok.1 h
      obtain ⟨queued, hq, h⟩ := bind_eq_ok.1 h
      cases h
      exact hopening hq rfl rfl rfl rfl rfl rfl rfl rfl
    unfold answerOffer at h
    split_ifs at h
    · exact hreject h
    · split at h
      · exact hreject h
      · obtain ⟨_, -, h⟩ := bind_eq_ok.1 h
        obtain ⟨queued, hq, h⟩ := bind_eq_ok.1 h
        cases h
        exact hopening hq rfl rfl rfl rfl rfl rfl rfl rfl
  · obtain ⟨hphase, offer, -, ⟨failure, -, rfl⟩ | ⟨bound, -, -, rfl⟩⟩ := readAnswer_eq_ok h
    · exact ⟨.of_opening rfl rfl rfl rfl (fun _ hr => hr) (fun _ _ hr => absurd rfl hr) rfl
        (by rw [hphase]; decide), .single (hclear rfl) .clear⟩
    · exact ⟨.of_opening rfl rfl rfl rfl (fun _ hr => hr) (fun hu => hu) rfl
        (by rw [hphase]; decide), .of_eq rfl⟩

theorem receiveStart (hA : A .queued) (hready : m.phase = .ready)
    (h : m.receiveStart item = .ok n) : Makes m.limits A m n := by
  rcases receiveStart_made h with rfl | ⟨queued, row, operation, kind, timeout, hq, hrow, rfl⟩
  · exact .refl _
  have hk := Kept.enqueue hq
  have hf := hk.frame
  refine ⟨⟨hf.session, hf.side, hf.config, hf.profile, hf.used, fun hu request hr => ?_,
    .inr hready, hf.ready, hf.rejecting, hf.closed⟩, .enqueue hA hq rfl⟩
  have hu' := rowsUsed_insert { row with operation := some operation } hrow hu request hr
  exact hk.used ▸ hu'

theorem receiveNext (hA : A .queued) (h : m.receiveNext item = .ok n) : Makes m.limits A m n := by
  rcases receiveNext_made h with rfl | ⟨queued, hq, rfl⟩
  · exact .refl _
  · exact ((Change.enqueue hA hq).trans (.transition queued item.2)).makes

theorem receive (hA : A .queued) (hclear : (m.receive item).1.phase = .closed → A .cleared) :
    Makes m.limits A m (m.receive item).1 := by
  unfold Mux.receive at hclear ⊢
  split_ifs at hclear ⊢
  · exact .refl m
  · exact .refl m
  · split at hclear
    next n hn =>
      obtain ⟨_, -, hn⟩ := bind_eq_ok.1 hn
      obtain ⟨_, -, hn⟩ := bind_eq_ok.1 hn
      split_ifs at hn
      · exact .bootstrap hA hclear hn
      · obtain ⟨_, hready, hn⟩ := bind_eq_ok.1 hn
        have hready : m.phase = .ready ∧ item.2.version = 2 := by
          simpa [refuseIf_eq_ok] using hready
        exact .receiveStart hA hready.1 hn
      · obtain ⟨_, -, hn⟩ := bind_eq_ok.1 hn
        exact .receiveNext hA hn
    next e he =>
      dsimp only at hclear ⊢
      split_ifs at hclear ⊢
      · exact (Change.disconnect (hclear rfl) m).makes
      · exact .refl m

theorem settle {r : Except Error Mux} (h : ∀ n, r = .ok n → Makes limits A m n) :
    Makes limits A m (m.settle r).1 := by
  cases r with
  | error e => exact .refl m
  | ok n => exact h n rfl

theorem settleStream {r : Except Error (Mux × ℤ)}
    (h : ∀ n id, r = .ok (n, id) → Makes limits A m n) :
    Makes limits A m (m.settleStream r).1 := by
  cases r with
  | error e => exact .refl m
  | ok p => exact h p.1 p.2 rfl

end Makes

/-- What an edit says of the call that made it, its outcome and the state after it. -/
def Edit.Of (c : Call) (o : Outcome) (n : Mux) : Edit → Prop
  | .queued => True
  | .message item => c = .nextMessage ∧ o = .item (some item)
  | .action item => c = .nextAction ∧ o = .item (some item)
  | .discarded request | .dropped request => c = .cancel request ∨ c = .finish request
  | .cleared => n.phase = .closed

/-- What a call queues, it queues under the limits in force before it: where a call binds the
session, the answer is queued first. -/
theorem call_makes (m : Mux) (c : Call) :
    Makes m.limits (Edit.Of c (m.call c).2 (m.call c).1) m (m.call c).1 := by
  cases c with
  | register request operation => exact .settle fun n hn => .register hn
  | «begin» request => exact .settle fun n hn => .begin trivial hn
  | checkIdentity request identity timeoutMs =>
    refine .settleStream fun n id hn => ?_
    obtain ⟨_, -, hn⟩ := bind_eq_ok.1 hn
    obtain ⟨_, -, hn⟩ := bind_eq_ok.1 hn
    obtain ⟨_, -, hn⟩ := bind_eq_ok.1 hn
    obtain ⟨_, -, hn⟩ := bind_eq_ok.1 hn
    exact .start trivial hn
  | open_ request body =>
    refine .settleStream fun n id hn => ?_
    obtain ⟨_, -, hn⟩ := bind_eq_ok.1 hn
    obtain ⟨_, -, hn⟩ := bind_eq_ok.1 hn
    exact .start trivial hn
  | send request message => exact .settle fun n hn => (Change.send trivial hn).makes
  | nextAction => exact (Change.nextAction m fun x hx => ⟨rfl, congrArg Outcome.item hx⟩).makes
  | nextMessage => exact (Change.nextMessage m id fun x hx => ⟨rfl, congrArg Outcome.item hx⟩).makes
  | cancel request => exact (Change.cancel trivial (.inl rfl) (.inl rfl) id).makes
  | finish request => exact (Change.finish trivial (.inr rfl) (.inr rfl) id).makes
  | advance now => exact (Change.advance trivial id).makes
  | disconnect => exact (Change.disconnect (show m.disconnect.phase = .closed from rfl) m).makes
  | receive item => exact .receive trivial id

theorem Frame.call (m : Mux) (c : Call) : Frame m (m.call c).1 := (call_makes m c).frame

/-! ### Runs -/

/-- One call with its outcome. -/
def Step (m : Mux) (l : Call × Outcome) (n : Mux) : Prop := m.call l.1 = (n, l.2)

/-- What holds of every state of a run. -/
structure Begun (m : Mux) : Prop where
  rows : RowsUsed m
  early : m.phase ≠ .ready → m.phase ≠ .closed → m.highestId = 0

theorem Begun.step {l : Call × Outcome} (h : Begun m) (hs : Step m l n) : Begun n := by
  have hf : Frame m n := by
    have := Frame.call m l.1
    rwa [hs] at this
  refine ⟨hf.rows h.rows, fun hready hclosed => ?_⟩
  have hm : m.phase ≠ .ready := by
    intro hp
    rcases hf.ready hp with ⟨hp, -⟩ | hp
    · exact hready hp
    · exact hclosed hp
  have hm' : m.phase ≠ .closed := fun hp => hclosed (hf.closed hp)
  rcases hf.highest with heq | hp
  · rw [heq]
    exact h.early hm hm'
  · exact absurd hp hm

theorem new_eq_ok {profile : Profile} {session : String} {endpoint : Option EndpointConfig}
    {config : Config} (h : new profile session endpoint config = .ok m) :
    badConfig session endpoint config = false ∧ m = fresh profile session endpoint config := by
  obtain ⟨_, hbad, h⟩ := bind_eq_ok.1 h
  cases h
  exact ⟨refuseIf_eq_ok.1 hbad, rfl⟩

theorem new_of_good {profile : Profile} {session : String} {endpoint : Option EndpointConfig}
    {config : Config} (h : badConfig session endpoint config = false) :
    new profile session endpoint config = .ok (fresh profile session endpoint config) :=
  bind_eq_ok.2 ⟨(), refuseIf_eq_ok.2 h, rfl⟩

theorem Begun.new {profile : Profile} {session : String} {endpoint : Option EndpointConfig}
    {config : Config} (h : new profile session endpoint config = .ok m) : Begun m := by
  obtain ⟨-, rfl⟩ := new_eq_ok h
  exact ⟨fun _ hr => absurd rfl hr, fun _ _ => rfl⟩

/-- The run of a list of calls. -/
def replay (m : Mux) : List Call → List (Call × Outcome) × Mux
  | [] => ([], m)
  | c :: cs =>
    let rest := replay (m.call c).1 cs
    ((c, (m.call c).2) :: rest.1, rest.2)

theorem run_replay (m : Mux) (cs : List Call) : Run Step m (replay m cs).1 (replay m cs).2 := by
  induction cs generalizing m with
  | nil => exact .nil
  | cons c cs ih => exact .cons (show Step m (c, (m.call c).2) (m.call c).1 from rfl) (ih _)

/-- In every run a session keeps its name, side and settings, once bound also its binding until it
ends, and its end is final; a request's name is registered once, also after `finish`. -/
theorem session_course (m : Mux) (cs : List Call) :
    let n := (replay m cs).2
    (n.session = m.session ∧ n.endpointConfig = m.endpointConfig ∧ n.config = m.config ∧
      n.profile = m.profile) ∧
    (m.phase = .ready → n.phase = .ready ∧ n.binding = m.binding ∨ n.phase = .closed) ∧
    (m.phase = .closed → n.phase = .closed) ∧
    ∀ request ∈ m.usedRequests, ∀ operation n', n.register request operation ≠ .ok n' := by
  induction cs generalizing m with
  | nil =>
    refine ⟨⟨rfl, rfl, rfl, rfl⟩, fun h => .inl ⟨h, rfl⟩, id,
      fun request hused operation n' h => ?_⟩
    exact (register_made h).1 hused
  | cons c cs ih =>
    have hf := Frame.call m c
    obtain ⟨⟨h₁, h₂, h₃, h₄⟩, hready, hclosed, hnames⟩ := ih (m.call c).1
    refine ⟨⟨h₁.trans hf.session, h₂.trans hf.side, h₃.trans hf.config, h₄.trans hf.profile⟩,
      fun h => ?_, fun h => hclosed (hf.closed h), fun request h => hnames request (hf.used h)⟩
    rcases hf.ready h with ⟨hp, hb⟩ | hp
    · exact hb ▸ hready hp
    · exact .inr (hclosed hp)

/-- Whether every call of a list meets a condition on the state before it. -/
def allowed (p : Mux → Call → Bool) (m : Mux) : List Call → Bool
  | [] => true
  | c :: cs => p m c && allowed p (m.call c).1 cs

theorem run_of_allowed {p : Mux → Call → Bool} {m : Mux} {cs : List Call}
    (h : allowed p m cs = true) :
    Run (fun m l n => p m l.1 = true ∧ Step m l n) m (replay m cs).1 (replay m cs).2 := by
  induction cs generalizing m with
  | nil => exact .nil
  | cons c cs ih =>
    obtain ⟨hc, hcs⟩ := Bool.and_eq_true_iff.1 h
    exact .cons ⟨hc, show Step m (c, (m.call c).2) (m.call c).1 from rfl⟩ (ih hcs)

/-! ### A small session

Limits and messages for concrete runs. -/

def smallLimits : Limits where
  encodedFrame := 4096
  dataPayload := 4096
  metadataBytes := 256
  nesting := 10
  collectionEntries := 128
  decodeAllocation := 65536
  queuedBytes := 73728
  queuedFrames := 4
  receiveWindow := 4096
  controlReserveBytes := 4096
  controlReserveFrames := 2

def smallConfig : Config := { defaultConfig with limits := smallLimits, maxStreams := 2 }

def sshEndpoint : EndpointConfig where
  endpointId := "e"
  role := .driver
  schemes := [.ssh]
  policies := [.sshAmbient]
  limits := smallLimits
  trustOwner := "t"

def smallInitiator : Mux := fresh .stable "s" none smallConfig

def smallEndpoint : Mux := fresh .stable "s" (some sshEndpoint) smallConfig

theorem smallInitiator_new : initiator .stable "s" smallConfig = .ok smallInitiator :=
  new_of_good (by decide +kernel)

theorem smallEndpoint_new : endpoint .stable "s" sshEndpoint smallConfig = .ok smallEndpoint :=
  new_of_good (by decide +kernel)

def sshOpen : Open where
  endpointId := "e"
  operationId := "o"
  destination := ⟨.ssh, "host", 22, "/path", some "git", none⟩
  service := .uploadPackAdvertisement
  identity := ⟨.ambient, none, none⟩
  policy := .sshAmbient
  deadlines := ⟨1, 1, 1, 1, 1⟩
  receiveLimits := smallLimits

def openMessage (id : ℤ) : Envelope where
  version := 2
  sessionId := "s"
  streamId := id
  kind := .open_
  open_ := some sshOpen

def openedMessage (id : ℤ) : Envelope where
  version := 2
  sessionId := "s"
  streamId := id
  kind := .opened
  opened := some ⟨"c", false, "e", "t", ⟨.none, false, none, none, none, none, none⟩, smallLimits⟩

def windowMessage (id : ℤ) : Envelope where
  version := 2
  sessionId := "s"
  streamId := id
  kind := .window
  window := some ⟨1⟩

/-- The endpoint's calls up to its first stream. -/
def upToOpen : List Call :=
  [.register "r" none, .receive ("r", smallInitiator.bindOffer), .nextMessage,
    .receive ("r", openMessage 1)]

end GwzTransport.Mux
