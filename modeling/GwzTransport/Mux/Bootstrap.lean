import GwzTransport.Mux.Runs

/-!
# Two sides of a session, and how they come to agree

`Pair` is an initiator and an endpoint with a channel in each direction.  A step of the pair is a
call on one side: what `next_message` hands out enters the channel, `receive` takes the head of
the other one, and a delivery that is answered `WouldBlock` stays at the head.

Until both sides are ready a session passes through few states (`Stage`): nothing was said, the
offer is on its way, the answer is.  Nothing else can be in a queue or in a channel then
(`Bare`), so the initiator installs the binding that the endpoint has.
-/

namespace GwzTransport.Mux

open Protocol MachineInt Checks Binding Transition

/-! ### Pairs -/

structure Pair where
  initiator : Mux
  endpoint : Mux
  toEndpoint : List Attachment
  toInitiator : List Attachment

/-- What a call puts into the channel to the peer. -/
def sent : Call → Outcome → List Attachment
  | .nextMessage, .item x => x.toList
  | _, _ => []

/-- What a call leaves in the channel from the peer. -/
def left (channel : List Attachment) : Call → Outcome → List Attachment
  | .receive _, .done (.error .wouldBlock) => channel
  | .receive _, _ => channel.tail
  | _, _ => channel

/-- A message is received from the head of the channel. -/
def carries (channel : List Attachment) : Call → Prop
  | .receive x => channel.head? = some x
  | _ => True

/-- The steps of a pair; the label tells whether the endpoint was called. -/
inductive Pair.Step : Pair → Bool × Call × Outcome → Pair → Prop
  | initiator {p c o m} : p.initiator.call c = (m, o) → carries p.toInitiator c →
      Step p (false, c, o)
        ⟨m, p.endpoint, p.toEndpoint ++ sent c o, left p.toInitiator c o⟩
  | endpoint {p c o m} : p.endpoint.call c = (m, o) → carries p.toEndpoint c →
      Step p (true, c, o)
        ⟨p.initiator, m, left p.toEndpoint c o, p.toInitiator ++ sent c o⟩

/-- A pair before its first call. -/
def Pair.fresh (initiator endpoint : Mux) : Pair := ⟨initiator, endpoint, [], []⟩

/-! ### A side before its first stream -/

/-- The kinds of the messages of the bootstrap. -/
def bootstrapKind : MessageKind → Bool
  | .bind | .bound | .bindRejected => true
  | _ => false

/-- No stream yet. -/
structure Bare (m : Mux) : Prop where
  routes : m.routes = .empty
  highest : m.highestId = 0
  actions : m.actions.attachments = []
  control : ∀ x ∈ m.outbound.attachments, x.2.streamId = 0 ∧ bootstrapKind x.2.kind = true

/-- An acknowledgement of a binding. -/
def Acknowledges (x : Attachment) (b : Binding) : Prop :=
  x.2.bound = some b.bound ∧ x.2.sessionId = b.sessionId

/-- The change of phase of a side without streams, with the message it queues. -/
inductive Turn (m : Mux) (c : Call) (o : Outcome) (n : Mux) : List Attachment → Prop
  | stay : n.phase = m.phase → n.binding = m.binding → Turn m c o n []
  | offer (request : String) : m.endpointConfig = none → m.phase = .unbound →
      n.phase = .binding → Turn m c o n [(request, m.bindOffer)]
  | accept {x y k b} : c = .receive y →
      o = .done (.ok ()) → m.endpointConfig = some k → m.phase = .unbound →
      y.2.sessionId = m.session → k.accept m.profile y.2 = .ok (x.2, b) → n.phase = .ready →
      n.binding = some b → Turn m c o n [x]
  | read {y b} : c = .receive y → o = .done (.ok ()) →
      m.endpointConfig = none → m.phase = .binding → Acknowledges y b → n.phase = .ready →
      n.binding = some b → Turn m c o n []

variable {m n : Mux} {c : Call} {o : Outcome}

theorem kept_of_bootstrapKind {request : String} {x : Attachment}
    (h : bootstrapKind x.2.kind = true) : Queue.kept request x = true := by
  cases hk : x.2.kind <;> simp_all [bootstrapKind, Queue.kept]

theorem attachments_discard (h : Bare m) (request : String) :
    (m.outbound.discard request).attachments = m.outbound.attachments := by
  rw [Queue.discard, Queue.attachments_retain]
  exact List.filter_eq_self.2 fun x hx => kept_of_bootstrapKind (h.control x hx).2

theorem cancelRoutes_empty (h : m.routes = .empty) (request : String) :
    (m.cancelRoutes request).routes = .empty := by
  simp only [cancelRoutes, h]
  rfl

/-- A message of the bootstrap may be queued. -/
theorem Bare.enqueue {item : Attachment} (h : Bare m) (hq : m.enqueue item true = .ok n)
    (hitem : item.2.streamId = 0 ∧ bootstrapKind item.2.kind = true) :
    Bare n ∧ n.outbound.attachments = m.outbound.attachments ++ [item] := by
  obtain ⟨hroutes, -, -, -, -, -, -, -, -, -, hhighest, -⟩ := enqueue_keeps hq
  have hrouter := router_enqueue hq
  have hout : n.outbound.attachments = m.outbound.attachments ++ [item] :=
    congrArg Router.outbound hrouter
  have hact : n.actions.attachments = m.actions.attachments := congrArg Router.actions hrouter
  refine ⟨⟨hroutes.trans h.routes, hhighest.trans h.highest, hact.trans h.actions, ?_⟩, hout⟩
  intro x hx
  rw [hout] at hx
  rcases List.mem_append.1 hx with hx | hx
  · exact h.control x hx
  · exact List.mem_singleton.1 hx ▸ hitem

/-- What a call of a side without streams leads to: the end of the session, or another side
without streams. -/
def Advances (m : Mux) (c : Call) (o : Outcome) (n : Mux) : Prop :=
  n.phase = .closed ∨ (n.phase = .rejecting ∧ m.endpointConfig.isSome = true) ∨
    ∃ posted, Turn m c o n posted ∧ Bare n ∧
      sent c o ++ n.outbound.attachments = m.outbound.attachments ++ posted

theorem Advances.refl (h : Bare m) (ho : sent c o = []) : Advances m c o m :=
  .inr (.inr ⟨[], .stay rfl rfl, h, by simp [ho]⟩)

/-- A change that the phase, the queues and the routes do not see. -/
theorem Advances.of_quiet (h : Bare m) (ho : sent c o = []) (hphase : n.phase = m.phase)
    (hbinding : n.binding = m.binding) (hroutes : n.routes = m.routes)
    (hhighest : n.highestId = m.highestId)
    (hactions : n.actions.attachments = m.actions.attachments)
    (hout : n.outbound.attachments = m.outbound.attachments) : Advances m c o n :=
  .inr (.inr ⟨[], .stay hphase hbinding, ⟨hroutes.trans h.routes, hhighest.trans h.highest,
    hactions.trans h.actions, hout ▸ h.control⟩, by simp [ho, hout]⟩)

theorem Advances.nextMessage (h : Bare m) (hphase : m.phase ≠ .rejecting) :
    Advances m .nextMessage (.item m.nextMessage.2) m.nextMessage.1 := by
  have hpop : m.nextMessage = m.popOutbound := by
    rw [Mux.nextMessage, if_neg hphase]
    split_ifs
    · rfl
    · rw [h.routes]
      rfl
  rw [hpop]
  unfold popOutbound
  cases hq : m.outbound.pop with
  | none => exact .refl h rfl
  | some entry =>
    obtain ⟨item, rest⟩ := entry
    have hout := Queue.attachments_of_pop hq
    refine .inr (.inr ⟨[], .stay rfl rfl, ⟨h.routes, h.highest, h.actions, fun x hx => ?_⟩, ?_⟩)
    · exact h.control x (by rw [hout]; exact List.mem_cons_of_mem _ hx)
    · simp [sent, hout]

theorem Advances.cancel (h : Bare m) (request : String) (c : Call) (ho : sent c o = []) :
    Advances m c o (m.cancel request).1 := by
  rcases m.cancel_cases request with
    ⟨e, hr⟩ | ⟨-, hr⟩ | ⟨row, -, -, ⟨-, hr⟩ | ⟨-, hr⟩ | hr⟩ <;> rw [hr]
  · exact .refl h ho
  · exact .inl rfl
  · exact .refl h ho
  · -- no stream is there to be told of
    have hids : m.routesOf request = [] := by
      rw [routesOf, h.routes]
      rfl
    rw [hids, notices]
    refine .of_quiet h ho rfl rfl ?_ rfl ?_ (attachments_discard h request)
    · rw [h.routes]
      exact cancelRoutes_empty h.routes request
    · show (m.actions.retain _).attachments = _
      rw [Queue.attachments_retain, h.actions]
      rfl
  · refine .of_quiet h ho rfl rfl ?_ rfl rfl (attachments_discard h request)
    rw [h.routes]
    exact cancelRoutes_empty h.routes request

theorem Advances.finish (h : Bare m) (request : String) (ho : sent (.finish request) o = []) :
    Advances m (.finish request) o (m.finish request).1 := by
  have hcancel := Advances.cancel (o := o) h request (.finish request) ho
  unfold Mux.finish
  cases hc : m.cancel request with
  | mk k r =>
    rw [hc] at hcancel
    cases r with
    | error e => exact hcancel
    | ok u =>
      dsimp only
      split_ifs
      · exact hcancel
      · rcases hcancel with hp | hp | ⟨posted, hturn, hbare, hout⟩
        · exact .inl hp
        · exact .inr (.inl hp)
        · refine .inr (.inr ⟨posted, ?_, ⟨hbare.routes, hbare.highest, hbare.actions,
            hbare.control⟩,
            hout⟩)
          cases hturn with
          | stay h₁ h₂ => exact .stay h₁ h₂
          | offer r h₁ h₂ h₃ => exact .offer r h₁ h₂ h₃
          | accept hy _ _ _ _ _ _ _ => cases hy
          | read hy _ _ _ _ _ _ => cases hy

theorem Advances.advance (h : Bare m) (now : ℕ) (c : Call) (ho : sent c o = []) :
    Advances m c o (m.advance now) := by
  unfold Mux.advance
  dsimp only
  split_ifs
  · exact .inl rfl
  · exact .inl rfl
  · have hids : { m with now := max m.now now }.expired = [] := by
      rw [expired, h.routes]
      rfl
    rw [hids, expire]
    exact .of_quiet h ho rfl rfl rfl rfl rfl rfl

/-- An installed binding is the one that was acknowledged. -/
theorem acknowledges_of_verify {profile : Profile} {offer : Envelope} {x : Attachment} {b : Binding}
    (h : verify profile offer x.2 = .ok b) : Acknowledges x b := by
  unfold verify at h
  obtain ⟨_, -, h⟩ := bind_eq_ok.1 h
  obtain ⟨_, -, h⟩ := bind_eq_ok.1 h
  obtain ⟨requested, -, h⟩ := bind_eq_ok.1 h
  obtain ⟨bound, hbound, h⟩ := bind_eq_ok.1 h
  obtain ⟨_, -, h⟩ := bind_eq_ok.1 h
  obtain ⟨_, -, h⟩ := bind_eq_ok.1 h
  obtain ⟨_, -, h⟩ := bind_eq_ok.1 h
  cases h
  exact ⟨required_eq_ok.1 hbound, rfl⟩

theorem acknowledges_of_accept {profile : Profile} {k : EndpointConfig} {offer : Envelope}
    {x : Attachment} {b : Binding} (h : k.accept profile offer = .ok (x.2, b)) :
    Acknowledges x b := by
  obtain ⟨-, requested, -, hn⟩ := negotiated_of_accept h
  rw [Acknowledges, hn.acknowledges, hn.session]
  exact ⟨rfl, rfl⟩

theorem Advances.receive (h : Bare m) (hready : m.phase ≠ .ready) (x : Attachment) :
    Advances m (.receive x) (.done (m.receive x).2) (m.receive x).1 := by
  by_cases hclosed : m.phase = .closed
  · rw [Mux.receive, if_pos hclosed]
    exact .inl hclosed
  by_cases hsession : x.2.sessionId ≠ m.session
  · rw [Mux.receive, if_neg hclosed, if_pos hsession]
    exact .refl h rfl
  cases hr : m.receiveIn x with
  | error e =>
    rw [Mux.receive, if_neg hclosed, if_neg hsession, hr]
    dsimp only
    split_ifs
    · exact .inl rfl
    · exact .refl h rfl
  | ok n =>
    rw [Mux.receive, if_neg hclosed, if_neg hsession, hr]
    obtain ⟨_, -, hr⟩ := bind_eq_ok.1 hr
    obtain ⟨_, -, hr⟩ := bind_eq_ok.1 hr
    split_ifs at hr with hzero hstarts
    · rcases bootstrap_eq_ok hr with rfl | ⟨k, hk, hphase, -, hr⟩ | ⟨hside, hr⟩
      · exact .refl h rfl
      · rcases answerOffer_eq_ok (ρ := ⟨true, fun _ _ => True, fun _ => True, False,
          fun _ => trivial⟩) hr with ⟨-, -, -, hp, -⟩ | ⟨reply, bound, queued, haccept, hq, rfl⟩
        · exact .inr (.inl ⟨hp, by simp [hk]⟩)
        · obtain ⟨-, requested, -, hn⟩ := negotiated_of_accept haccept
          obtain ⟨hbare, hout⟩ := h.enqueue hq (by rw [hn.acknowledges]; exact ⟨rfl, rfl⟩)
          exact .inr (.inr ⟨[(x.1, reply)], .accept rfl rfl hk hphase (not_not.1 hsession) haccept
            rfl rfl, ⟨hbare.routes, hbare.highest, hbare.actions, hbare.control⟩, hout⟩)
      · obtain ⟨hphase, offer, -, ⟨failure, -, rfl⟩ | ⟨bound, -, hverify, rfl⟩⟩ :=
          readAnswer_eq_ok hr
        · exact .inl rfl
        · exact .inr (.inr ⟨[], .read rfl rfl hside hphase (acknowledges_of_verify hverify) rfl rfl,
            ⟨h.routes, h.highest, h.actions, h.control⟩, by simp [sent]⟩)
    · obtain ⟨_, hphase, -⟩ := bind_eq_ok.1 hr
      simp [refuseIf_eq_ok, hready] at hphase
    · obtain ⟨_, hphase, -⟩ := bind_eq_ok.1 hr
      simp [refuseIf_eq_ok, hready] at hphase

/-- Only an initiator that is ready starts a stream. -/
theorem ready_of_open {request : String} {body : Open} {q : Mux × ℤ}
    (h : m.open_ request body = .ok q) : m.endpointConfig = none ∧ m.phase = .ready := by
  obtain ⟨_, -, h⟩ := bind_eq_ok.1 h
  obtain ⟨_, -, h⟩ := bind_eq_ok.1 h
  obtain ⟨hside, hphase, -⟩ := start_eq_ok h
  exact ⟨hside, hphase⟩

theorem ready_of_checkIdentity {request : String} {identity : Identity} {timeoutMs : ℕ}
    {q : Mux × ℤ} (h : m.checkIdentity request identity timeoutMs = .ok q) :
    m.endpointConfig = none ∧ m.phase = .ready := by
  obtain ⟨_, -, h⟩ := bind_eq_ok.1 h
  obtain ⟨_, -, h⟩ := bind_eq_ok.1 h
  obtain ⟨_, -, h⟩ := bind_eq_ok.1 h
  obtain ⟨_, -, h⟩ := bind_eq_ok.1 h
  obtain ⟨hside, hphase, -⟩ := start_eq_ok h
  exact ⟨hside, hphase⟩

/-- What any call does to a side without streams.  An initiator that is ready may start one, and a
side that is ready may hear of one. -/
theorem advances_call (h : Bare m) (hrejecting : m.phase ≠ .rejecting)
    (hready : m.phase = .ready → m.endpointConfig.isSome = true ∧ ∀ x, c ≠ .receive x)
    (hcall : m.call c = (n, o)) : Advances m c o n := by
  have hstart : ¬ (m.endpointConfig = none ∧ m.phase = .ready) := by
    rintro ⟨hside, hphase⟩
    have := (hready hphase).1
    rw [hside] at this
    cases this
  cases c with
  | register request operation =>
    rw [call] at hcall
    cases hr : m.register request operation with
    | error e =>
      rw [hr] at hcall
      cases hcall
      exact .refl h rfl
    | ok m' =>
      rw [hr] at hcall
      cases hcall
      obtain ⟨-, rfl⟩ := register_made hr
      exact .of_quiet h rfl rfl rfl rfl rfl rfl rfl
  | «begin» request =>
    rw [call] at hcall
    cases hr : m.begin request with
    | error e =>
      rw [hr] at hcall
      cases hcall
      exact .refl h rfl
    | ok m' =>
      rw [hr] at hcall
      cases hcall
      rcases begin_move hr with rfl | ⟨hphase, hside, queued, hq, rfl⟩
      · exact .refl h rfl
      · obtain ⟨hbare, hout⟩ := h.enqueue hq ⟨rfl, rfl⟩
        exact .inr (.inr ⟨_, .offer request hside hphase rfl,
          ⟨hbare.routes, hbare.highest, hbare.actions, hbare.control⟩, hout⟩)
  | checkIdentity request identity timeoutMs =>
    rw [call] at hcall
    cases hr : m.checkIdentity request identity timeoutMs with
    | error e =>
      rw [hr] at hcall
      cases hcall
      exact .refl h rfl
    | ok p =>
      exact absurd (ready_of_checkIdentity hr) hstart
  | open_ request body =>
    rw [call] at hcall
    cases hr : m.open_ request body with
    | error e =>
      rw [hr] at hcall
      cases hcall
      exact .refl h rfl
    | ok p =>
      exact absurd (ready_of_open hr) hstart
  | send request message =>
    rw [call] at hcall
    cases hr : m.send request message with
    | error e =>
      rw [hr] at hcall
      cases hcall
      exact .refl h rfl
    | ok m' =>
      obtain ⟨route, hroute, -⟩ := send_eq_ok hr
      rw [h.routes] at hroute
      cases hroute
  | nextAction =>
    have hnone : m.nextAction = (m, none) := by
      rw [nextAction, Queue.pop_eq_none.2 h.actions]
    rw [call, hnone] at hcall
    cases hcall
    exact .refl h rfl
  | nextMessage =>
    cases hcall
    exact .nextMessage h hrejecting
  | cancel request =>
    cases hcall
    exact .cancel h request _ rfl
  | finish request =>
    cases hcall
    exact .finish h request rfl
  | advance now =>
    cases hcall
    exact .advance h now _ rfl
  | disconnect =>
    cases hcall
    exact .inl rfl
  | receive x =>
    cases hcall
    exact .receive h (fun hp => (hready hp).2 x rfl) x

/-! ### Stages of a session -/

/-- A session that will never be bound, or no longer is. -/
def Pair.Ended (p : Pair) : Prop :=
  p.initiator.phase = .closed ∨ p.endpoint.phase = .closed ∨ p.endpoint.phase = .rejecting

/-- Both sides ready with nothing on its way yet. -/
structure Pair.Joined (p : Pair) : Prop where
  ready : p.initiator.phase = .ready ∧ p.endpoint.phase = .ready
  bare : Bare p.initiator ∧ Bare p.endpoint
  silent : p.toEndpoint ++ p.initiator.outbound.attachments = [] ∧
    p.toInitiator ++ p.endpoint.outbound.attachments = []
  bound : ∃ k offer reply b, p.endpoint.endpointConfig = some k ∧
    k.accept p.endpoint.profile offer = .ok (reply, b) ∧ b.sessionId = p.endpoint.session ∧
    p.initiator.binding = some b ∧ p.endpoint.binding = some b

/-- The states of a pair up to the first stream; `Q` is what holds once both sides are ready. -/
inductive Pair.Stage (Q : Pair → Prop) (p : Pair) : Prop
  | ended : p.Ended → Stage Q p
  | unbound : p.initiator.phase = .unbound → p.endpoint.phase = .unbound →
      Bare p.initiator → Bare p.endpoint →
      p.toEndpoint ++ p.initiator.outbound.attachments = [] →
      p.toInitiator ++ p.endpoint.outbound.attachments = [] → Stage Q p
  | offered : p.initiator.phase = .binding → p.endpoint.phase = .unbound →
      Bare p.initiator → Bare p.endpoint →
      (p.toEndpoint ++ p.initiator.outbound.attachments).length ≤ 1 →
      p.toInitiator ++ p.endpoint.outbound.attachments = [] → Stage Q p
  | answered {b k offer reply} : p.initiator.phase = .binding → p.endpoint.phase = .ready →
      Bare p.initiator → Bare p.endpoint → p.endpoint.endpointConfig = some k →
      k.accept p.endpoint.profile offer = .ok (reply, b) → b.sessionId = p.endpoint.session →
      p.endpoint.binding = some b →
      p.toEndpoint ++ p.initiator.outbound.attachments = [] →
      (p.toInitiator ++ p.endpoint.outbound.attachments = [] ∨
        ∃ x, p.toInitiator ++ p.endpoint.outbound.attachments = [x] ∧ Acknowledges x b) → Stage Q p
  | ready : p.initiator.phase = .ready → p.endpoint.phase = .ready → Q p → Stage Q p

/-! ### One step of a pair -/

/-- A refused offer stays refused. -/
theorem rejecting_call (h : m.phase = .rejecting) (hcall : m.call c = (n, o)) :
    n.phase = .rejecting ∨ n.phase = .closed := by
  have hf := Frame.call m c
  rw [hcall] at hf
  exact hf.rejecting h

/-- What a call takes from its channel: nothing, or the head. -/
theorem left_cases {channel : List Attachment} (c : Call) (o : Outcome) (h : carries channel c) :
    left channel c o = channel ∨ ∃ x, c = .receive x ∧ channel = x :: left channel c o := by
  cases c with
  | receive x =>
    obtain ⟨rest, rfl⟩ : ∃ rest, channel = x :: rest := by
      cases channel with
      | nil => cases h
      | cons y rest => exact ⟨rest, by rw [Option.some.inj h]⟩
    unfold left
    split
    · exact .inl rfl
    · exact .inr ⟨x, rfl, rfl⟩
    · exact .inl rfl
  | _ => exact .inl rfl

/-- A message that was received has left its channel. -/
theorem left_received {channel : List Attachment} {y : Attachment}
    (h : carries channel (.receive y)) :
    channel = y :: left channel (.receive y) (.done (.ok ())) := by
  cases channel with
  | nil => cases h
  | cons z rest =>
    cases h
    rfl

/-- A taken head of two joined lists. -/
theorem taken_cases {channel : List Attachment} (queued : List Attachment) {c : Call} {o : Outcome}
    (h : carries channel c) :
    left channel c o ++ queued = channel ++ queued ∨
      ∃ x, c = .receive x ∧ channel ++ queued = x :: (left channel c o ++ queued) := by
  rcases left_cases c o h with heq | ⟨x, hc, heq⟩
  · exact .inl (by rw [heq])
  · exact .inr ⟨x, hc, by nth_rewrite 1 [heq]; rfl⟩

theorem taken_nil {channel queued : List Attachment} (c : Call) (o : Outcome)
    (hc : carries channel c) (h : channel ++ queued = []) : left channel c o ++ queued = [] := by
  rcases taken_cases queued (o := o) hc with heq | ⟨x, -, heq⟩
  · rw [heq, h]
  · rw [h] at heq
    cases heq

/-- Nothing is delivered from an empty channel. -/
theorem not_carries {channel queued : List Attachment} {x : Attachment}
    (h : channel ++ queued = []) : ¬ carries channel (.receive x) := by
  rw [(List.append_eq_nil_iff.1 h).1]
  exact fun hc => by cases hc

theorem Pair.Ended.step {p p' : Pair} {l : Bool × Call × Outcome} (h : p.Ended)
    (hs : p.Step l p') : p'.Ended := by
  cases hs with
  | @initiator c o m hcall _ =>
    rcases h with h | h
    · have hf := Frame.call p.initiator c
      rw [hcall] at hf
      exact .inl (hf.closed h)
    · exact .inr h
  | @endpoint c o m hcall _ =>
    have hf := Frame.call p.endpoint c
    rw [hcall] at hf
    rcases h with h | h | h
    · exact .inl h
    · exact .inr (.inl (hf.closed h))
    · exact .inr ((rejecting_call h hcall).symm)

/-- A call of an initiator that is not bound, with the channel it sends on. -/
theorem initiator_turn (channel : List Attachment) (h : Bare m) (hside : m.endpointConfig = none)
    (hphase : m.phase = .unbound ∨ m.phase = .binding) (hcall : m.call c = (n, o)) :
    n.phase = .closed ∨ Bare n ∧ ∃ posted, channel ++ sent c o ++ n.outbound.attachments =
        channel ++ m.outbound.attachments ++ posted ∧
      (posted = [] ∧ n.phase = m.phase ∨
        posted.length = 1 ∧ m.phase = .unbound ∧ n.phase = .binding ∨
        posted = [] ∧ m.phase = .binding ∧ ∃ y b, c = .receive y ∧ o = .done (.ok ()) ∧
          Acknowledges y b ∧ n.phase = .ready ∧ n.binding = some b) := by
  have hnot : m.phase ≠ .rejecting ∧ m.phase ≠ .ready := by
    rcases hphase with hp | hp <;> simp [hp]
  rcases advances_call h hnot.1 (fun hp => absurd hp hnot.2) hcall with hp | ⟨-, hs⟩ |
    ⟨posted, hturn, hbare, hout⟩
  · exact .inl hp
  · simp [hside] at hs
  refine .inr ⟨hbare, posted, by rw [List.append_assoc, hout, ← List.append_assoc], ?_⟩
  cases hturn with
  | stay hp _ => exact .inl ⟨rfl, hp⟩
  | offer request _ hp hn => exact .inr (.inl ⟨rfl, hp, hn⟩)
  | accept _ _ hs _ _ _ _ _ => simp [hside] at hs
  | read hc ho _ hp hack hn hb => exact .inr (.inr ⟨rfl, hp, _, _, hc, ho, hack, hn, hb⟩)

/-- A call of an endpoint without streams, with the channel it sends on. -/
theorem endpoint_turn (channel : List Attachment) (h : Bare m)
    (hside : m.endpointConfig.isSome = true) (hphase : m.phase ≠ .rejecting)
    (hready : m.phase = .ready → ∀ x, c ≠ .receive x) (hcall : m.call c = (n, o)) :
    (n.phase = .closed ∨ n.phase = .rejecting) ∨ Bare n ∧ Frame m n ∧ ∃ posted,
      channel ++ sent c o ++ n.outbound.attachments =
        channel ++ m.outbound.attachments ++ posted ∧
      (posted = [] ∧ n.phase = m.phase ∧ n.binding = m.binding ∨
        ∃ x y k b, posted = [x] ∧ c = .receive y ∧ o = .done (.ok ()) ∧
          m.endpointConfig = some k ∧ m.phase = .unbound ∧ y.2.sessionId = m.session ∧
          k.accept m.profile y.2 = .ok (x.2, b) ∧ n.phase = .ready ∧ n.binding = some b) := by
  have hframe := Frame.call m c
  rw [hcall] at hframe
  rcases advances_call h hphase (fun hp => ⟨hside, hready hp⟩) hcall with hp | ⟨hp, -⟩ |
    ⟨posted, hturn, hbare, hout⟩
  · exact .inl (.inl hp)
  · exact .inl (.inr hp)
  refine .inr ⟨hbare, hframe, posted, by rw [List.append_assoc, hout, ← List.append_assoc], ?_⟩
  cases hturn with
  | stay hp hb => exact .inl ⟨rfl, hp, hb⟩
  | offer _ hs _ _ => simp [hs] at hside
  | accept hc ho hk hp hs ha hn hb => exact .inr ⟨_, _, _, _, rfl, hc, ho, hk, hp, hs, ha, hn, hb⟩
  | read _ _ hs _ _ _ _ => simp [hs] at hside

/-- The next stage of a session. -/
theorem Pair.Stage.step {Q : Pair → Prop} {p p' : Pair} {l : Bool × Call × Outcome}
    (h : p.Stage Q) (hi : p.initiator.endpointConfig = none)
    (he : p.endpoint.endpointConfig.isSome = true) (hs : p.Step l p')
    (hjoin : p'.Joined → Q p')
    (hready : p.initiator.phase = .ready → p.endpoint.phase = .ready → Q p → p'.Stage Q) :
    p'.Stage Q := by
  cases h with
  | ended h => exact .ended (h.step hs)
  | ready hip hep hq => exact hready hip hep hq
  | unbound hip hep hib heb hg hf =>
    cases hs with
    | @initiator c o m hcall hcarry =>
      have hf' := taken_nil c o hcarry hf
      rcases initiator_turn p.toEndpoint hib hi (.inl hip) hcall with hp | ⟨hbare, posted, hg',
        ⟨rfl, hphase⟩ | ⟨hone, -, hphase⟩ | ⟨-, hphase, -⟩⟩
      · exact .ended (.inl hp)
      · exact .unbound (hphase.trans hip) hep hbare heb (by rw [hg', hg]; rfl) hf'
      · exact .offered hphase hep hbare heb (by rw [hg', hg]; exact hone.le) hf'
      · rw [hip] at hphase
        cases hphase
    | @endpoint c o m hcall hcarry =>
      rcases endpoint_turn p.toInitiator heb he (by simp [hep]) (by simp [hep]) hcall with hp |
        ⟨hbare, -, posted, hf', ⟨rfl, hphase, -⟩ | ⟨x, y, k, b, -, rfl, -⟩⟩
      · exact .ended (.inr hp)
      · exact .unbound hip (hphase.trans hep) hib hbare (taken_nil c o hcarry hg)
          (by rw [hf', hf]; rfl)
      · exact absurd hcarry (not_carries hg)
  | offered hip hep hib heb hg hf =>
    cases hs with
    | @initiator c o m hcall hcarry =>
      have hf' := taken_nil c o hcarry hf
      rcases initiator_turn p.toEndpoint hib hi (.inr hip) hcall with hp | ⟨hbare, posted, hg',
        ⟨rfl, hphase⟩ | ⟨-, hphase, -⟩ | ⟨-, -, y, b, rfl, -⟩⟩
      · exact .ended (.inl hp)
      · exact .offered (hphase.trans hip) hep hbare heb (by rw [hg', List.append_nil]; exact hg) hf'
      · rw [hip] at hphase
        cases hphase
      · exact absurd hcarry (not_carries hf)
    | @endpoint c o m hcall hcarry =>
      rcases endpoint_turn p.toInitiator heb he (by simp [hep]) (by simp [hep]) hcall with hp |
        ⟨hbare, hframe, posted, hf', ⟨rfl, hphase, -⟩ |
          ⟨x, y, k, b, rfl, rfl, rfl, hk, -, hsession, haccept, hphase, hbinding⟩⟩
      · exact .ended (.inr hp)
      · refine .offered hip (hphase.trans hep) hib hbare ?_ (by rw [hf', hf]; rfl)
        rcases taken_cases p.initiator.outbound.attachments (o := o) hcarry with heq | ⟨x, -, heq⟩
        · rw [heq]
          exact hg
        · rw [heq] at hg
          exact (Nat.le_succ _).trans hg
      · -- the offer was all there was
        rw [left_received hcarry, List.cons_append, List.length_cons] at hg
        have hbs : b.sessionId = m.session := by
          obtain ⟨-, requested, -, hn⟩ := negotiated_of_accept haccept
          rw [hn.session, hsession, hframe.session]
        exact .answered hip hphase hib hbare (hframe.side.trans hk)
          (by rw [hframe.profile]; exact haccept) hbs hbinding
          (List.length_eq_zero_iff.1 (Nat.le_zero.1 (Nat.le_of_succ_le_succ hg)))
          (.inr ⟨x, by rw [hf', hf]; rfl, acknowledges_of_accept haccept⟩)
  | @answered b k offer reply hip hep hib heb hk haccept hsession hbinding hg hf =>
    cases hs with
    | @initiator c o m hcall hcarry =>
      rcases initiator_turn p.toEndpoint hib hi (.inr hip) hcall with hp | ⟨hbare, posted, hg',
        ⟨rfl, hphase⟩ | ⟨-, hphase, -⟩ | ⟨rfl, -, y, b', rfl, rfl, hack, hphase, hbound⟩⟩
      · exact .ended (.inl hp)
      · refine .answered (hphase.trans hip) hep hbare heb hk haccept hsession hbinding
          (by rw [hg', hg]; rfl) ?_
        rcases taken_cases p.endpoint.outbound.attachments (o := o) hcarry with heq | ⟨x, -, heq⟩
        · rw [heq]
          exact hf
        · rcases hf with hf | ⟨y, hf, -⟩
          · rw [hf] at heq
            cases heq
          · rw [hf] at heq
            exact .inl (List.cons.inj heq).2.symm
      · rw [hip] at hphase
        cases hphase
      · rcases hf with hf | ⟨x, hf, hx⟩
        · exact absurd hcarry (not_carries hf)
        rw [left_received hcarry] at hf
        obtain ⟨rfl, hf'⟩ := List.cons.inj hf
        have hb : b' = b := by
          obtain ⟨h₁, h₂⟩ := hack
          obtain ⟨h₃, h₄⟩ := hx
          rw [h₁] at h₃
          rw [h₂] at h₄
          cases b
          cases b'
          simp_all
        exact .ready hphase hep (hjoin ⟨⟨hphase, hep⟩, ⟨hbare, heb⟩, ⟨by rw [hg', hg]; rfl, hf'⟩,
          k, offer, reply, b, hk, haccept, hsession, hb ▸ hbound, hbinding⟩)
    | @endpoint c o m hcall hcarry =>
      have hnot : ∀ x, c ≠ .receive x := by
        rintro x rfl
        exact not_carries hg hcarry
      rcases endpoint_turn p.toInitiator heb he (by simp [hep]) (fun _ => hnot) hcall with hp |
        ⟨hbare, hframe, posted, hf', ⟨rfl, hphase, hbind⟩ | ⟨_, _, _, _, -, hc, -⟩⟩
      · exact .ended (.inr hp)
      · rw [List.append_nil] at hf'
        exact .answered hip (hphase.trans hep) hib hbare (hframe.side.trans hk)
          (by rw [hframe.profile]; exact haccept) (by rw [hframe.session]; exact hsession)
          (hbind.trans hbinding) (taken_nil c o hcarry hg) (by rw [hf']; exact hf)
      · exact absurd hc (hnot _)

/-! ### Runs of a pair -/

/-- What no step of a pair changes. -/
structure Pair.Sides (p p' : Pair) : Prop where
  initiator : p'.initiator.endpointConfig = p.initiator.endpointConfig
  endpoint : p'.endpoint.endpointConfig = p.endpoint.endpointConfig

theorem Pair.Step.sides {p p' : Pair} {l : Bool × Call × Outcome} (h : p.Step l p') :
    p.Sides p' := by
  cases h with
  | @initiator c o m hcall _ =>
    have hf := Frame.call p.initiator c
    rw [hcall] at hf
    exact ⟨hf.side, rfl⟩
  | @endpoint c o m hcall _ =>
    have hf := Frame.call p.endpoint c
    rw [hcall] at hf
    exact ⟨rfl, hf.side⟩

theorem Pair.stage_fresh {Q : Pair → Prop} {profile profile' : Profile} {session session' : String}
    {k : EndpointConfig} {config config' : Config} {i e : Mux}
    (hi : Mux.initiator profile session config = .ok i)
    (he : Mux.endpoint profile' session' k config' = .ok e) : (Pair.fresh i e).Stage Q := by
  obtain ⟨-, rfl⟩ := new_eq_ok hi
  obtain ⟨-, rfl⟩ := new_eq_ok he
  exact .unbound rfl rfl ⟨rfl, rfl, rfl, fun x hx => (by cases hx)⟩
    ⟨rfl, rfl, rfl, fun x hx => (by cases hx)⟩ rfl rfl

/-- The stage of a session along a run. -/
theorem Pair.stage_of_run {Step : Pair → Bool × Call × Outcome → Pair → Prop} {Q : Pair → Prop}
    {profile profile' : Profile} {session session' : String} {k : EndpointConfig}
    {config config' : Config} {i e : Mux} (hi : Mux.initiator profile session config = .ok i)
    (he : Mux.endpoint profile' session' k config' = .ok e) {tr : List (Bool × Call × Outcome)}
    {p : Pair} (hr : Run Step (Pair.fresh i e) tr p) (hstep : ∀ p l p', Step p l p' → p.Step l p')
    (hjoin : ∀ p : Pair, p.Joined → Q p)
    (hready : ∀ p l p', Step p l p' → p.initiator.phase = .ready → p.endpoint.phase = .ready →
      Q p → p'.Stage Q) : p.Stage Q := by
  have hside : i.endpointConfig = none ∧ e.endpointConfig.isSome = true := by
    obtain ⟨-, rfl⟩ := new_eq_ok hi
    obtain ⟨-, rfl⟩ := new_eq_ok he
    exact ⟨rfl, rfl⟩
  have hall := hr.invariant (P := fun _ p => p.Stage Q ∧ (Pair.fresh i e).Sides p)
    ⟨Pair.stage_fresh hi he, ⟨rfl, rfl⟩⟩ (fun _ p l p' _ hp hs => by
      have hs' := hstep p l p' hs
      refine ⟨hp.1.step (hp.2.initiator.trans hside.1) ?_ hs' (hjoin p') (hready p l p' hs), ?_⟩
      · rw [hp.2.endpoint]
        exact hside.2
      · exact ⟨hs'.sides.initiator.trans hp.2.initiator, hs'.sides.endpoint.trans hp.2.endpoint⟩)
  exact hall.1

/-- The initiator verifies what the endpoint accepted, with the endpoint's binding; what is bound
was offered and configured; and in every run of a pair, the two sides have the same binding
whenever both are ready. -/
theorem binding_agrees :
    (∀ (profile : Profile) (k : EndpointConfig) (offer reply : Envelope) (b : Binding),
      k.accept profile offer = .ok (reply, b) → verify profile offer reply = .ok b ∧
        ∃ requested, offer.bind = some requested ∧ Negotiated profile k offer reply requested b) ∧
    ∀ (profile profile' : Profile) (session session' : String) (k : EndpointConfig)
      (config config' : Config) (i e : Mux) (tr : List (Bool × Call × Outcome)) (p : Pair),
      initiator profile session config = .ok i → endpoint profile' session' k config' = .ok e →
      Run Pair.Step (Pair.fresh i e) tr p → p.initiator.phase = .ready →
      p.endpoint.phase = .ready → ∃ b, p.initiator.binding = some b ∧
      p.endpoint.binding = some b := by
  constructor
  · intro profile k offer reply b haccept
    obtain ⟨-, requested, hbind, hn⟩ := negotiated_of_accept haccept
    exact ⟨verify_of_accept haccept, requested, hbind, hn⟩
  · intro profile profile' session session' k config config' i e tr p hi he hr hip hep
    have hstage : p.Stage fun p => ∃ b, p.initiator.binding = some b ∧
        p.endpoint.binding = some b := by
      refine Pair.stage_of_run hi he hr (fun _ _ _ hs => hs) ?_ ?_
      · intro p hp
        obtain ⟨k, offer, reply, b, -, -, -, hbi, hbe⟩ := hp.bound
        exact ⟨b, hbi, hbe⟩
      · rintro p l p' hs hip hep ⟨b, hbi, hbe⟩
        -- a side that is ready keeps its binding, or closes
        cases hs with
        | @initiator c o m hcall _ =>
          have hf := Frame.call p.initiator c
          rw [hcall] at hf
          rcases hf.ready hip with ⟨hphase, hbinding⟩ | hphase
          · exact .ready hphase hep ⟨b, hbinding.trans hbi, hbe⟩
          · exact .ended (.inl hphase)
        | @endpoint c o m hcall _ =>
          have hf := Frame.call p.endpoint c
          rw [hcall] at hf
          rcases hf.ready hep with ⟨hphase, hbinding⟩ | hphase
          · exact .ready hip hphase ⟨b, hbi, hbinding.trans hbe⟩
          · exact .ended (.inr (.inl hphase))
    cases hstage with
    | ended h => simp [Pair.Ended, hip, hep] at h
    | unbound h _ _ _ _ _ => simp [hip] at h
    | offered h _ _ _ _ _ => simp [hip] at h
    | answered h _ _ _ _ _ _ _ _ _ => simp [hip] at h
    | ready _ _ hq => exact hq

/-! ### Concrete runs -/

/-- A call on one side, or the delivery of the next message to it. -/
inductive Pair.Act
  | call (endpoint : Bool) (c : Call)
  | deliver (endpoint : Bool)

/-- The call that an act stands for. -/
def Pair.Act.resolve (p : Pair) : Pair.Act → Option (Bool × Call)
  | .call _ (.receive _) => none
  | .call endpoint c => some (endpoint, c)
  | .deliver true => p.toEndpoint.head?.map fun x => (true, .receive x)
  | .deliver false => p.toInitiator.head?.map fun x => (false, .receive x)

def Pair.perform (p : Pair) : Bool → Call → Outcome × Pair
  | false, c =>
    let r := p.initiator.call c
    (r.2, ⟨r.1, p.endpoint, p.toEndpoint ++ sent c r.2, left p.toInitiator c r.2⟩)
  | true, c =>
    let r := p.endpoint.call c
    (r.2, ⟨p.initiator, r.1, left p.toEndpoint c r.2, p.toInitiator ++ sent c r.2⟩)

def Pair.play (p : Pair) : List Pair.Act → List (Bool × Call × Outcome) × Pair
  | [] => ([], p)
  | a :: acts =>
    match a.resolve p with
    | none => p.play acts
    | some (side, c) =>
      let r := p.perform side c
      let rest := r.2.play acts
      ((side, c, r.1) :: rest.1, rest.2)

theorem Pair.step_perform {p : Pair} {a : Pair.Act} {side : Bool} {c : Call}
    (h : a.resolve p = some (side, c)) :
    p.Step (side, c, (p.perform side c).1) (p.perform side c).2 := by
  have hcarry : carries (if side then p.toEndpoint else p.toInitiator) c := by
    cases a with
    | call endpoint c' =>
      cases c' <;> first | (cases h; exact trivial) | cases h
    | deliver endpoint =>
      cases endpoint with
      | false =>
        obtain ⟨x, hx, heq⟩ := Option.map_eq_some_iff.1 h
        cases heq
        exact hx
      | true =>
        obtain ⟨x, hx, heq⟩ := Option.map_eq_some_iff.1 h
        cases heq
        exact hx
  cases side with
  | false => exact .initiator rfl hcarry
  | true => exact .endpoint rfl hcarry

theorem Pair.run_play (p : Pair) (acts : List Pair.Act) :
    Run Pair.Step p (p.play acts).1 (p.play acts).2 := by
  induction acts generalizing p with
  | nil => exact .nil
  | cons a acts ih =>
    rw [Pair.play]
    cases hr : a.resolve p with
    | none => exact ih p
    | some r => exact .cons (Pair.step_perform hr) (ih _)

def smallPair : Pair := Pair.fresh smallInitiator smallEndpoint

/-- The calls of a bootstrap. -/
def bindPair : List Pair.Act :=
  [.call false (.register "r" (some "o")), .call true (.register "r" none),
    .call false (.begin "r"), .call false .nextMessage, .deliver true, .call true .nextMessage,
    .deliver false]

/-- After its bootstrap the small session is bound on both sides, to the same binding. -/
theorem binding_agrees_small : (smallPair.play bindPair).2.initiator.phase = .ready ∧
    (smallPair.play bindPair).2.endpoint.phase = .ready ∧
    ∃ b, (smallPair.play bindPair).2.initiator.binding = some b ∧
      (smallPair.play bindPair).2.endpoint.binding = some b := by
  have hi : (smallPair.play bindPair).2.initiator.phase = .ready := by decide +kernel
  have he : (smallPair.play bindPair).2.endpoint.phase = .ready := by decide +kernel
  exact ⟨hi, he, binding_agrees.2 _ _ _ _ _ _ _ _ _ _ _ smallInitiator_new smallEndpoint_new
    (Pair.run_play smallPair bindPair) hi he⟩

end GwzTransport.Mux
