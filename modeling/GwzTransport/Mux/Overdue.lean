import GwzTransport.Mux.Ledger
import GwzTransport.Mux.Queues

/-!
# The cancellation of an overdue stream

When an initiator's stream reaches its deadline, `advance` tells the host, queues a `Cancel` for the
endpoint and drops the route.  From then on the `Cancel` stands in the queue only: no route is left
whose slot could give it again.  It is handed out before the request is finished as long as nobody
cancels or finishes the request while it is queued (`overdue_cancel_handed`); a `cancel` or `finish`
meanwhile discards it (`overdue_cancel_discarded`).
-/

namespace GwzTransport.Mux

open Protocol MachineInt Checks Binding Transition

variable {m n : Mux} {x : Attachment} {id : ℤ}

/-! ### Queued messages -/

/-- A queued message stays queued until it is handed out, unless it is discarded with its request or
the session ends. -/
theorem mem_outbound_of_run {limits : Limits} {q q' : Queues} {edits : List Edit}
    (h : Run (Queues.Step limits) q edits q') (hx : x ∈ q.outbound.attachments) :
    x ∈ q'.outbound.attachments ∨ .message x ∈ edits ∨ .discarded x.1 ∈ edits ∨
      .cleared ∈ edits := by
  induction h with
  | nil => exact .inl hx
  | snoc _ hstep ih =>
    rcases ih with hx | hrest
    · cases hstep with
      | send _ => exact .inl (by simpa using .inl hx)
      | act _ => exact .inl hx
      | handOut hpop =>
        rw [Queue.attachments_of_pop hpop] at hx
        rcases List.mem_cons.1 hx with rfl | hx
        · exact .inr (.inl (by simp))
        · exact .inl hx
      | handAction _ => exact .inl hx
      | discard request =>
        by_cases hrequest : x.1 = request
        · exact .inr (.inr (.inl (by simp [hrequest])))
        · refine .inl ?_
          rw [Queue.discard, Queue.attachments_retain]
          exact List.mem_filter.2 ⟨hx, by simp [Queue.kept, hrequest]⟩
      | dropActions _ => exact .inl hx
      | clear => exact .inr (.inr (.inr (by simp)))
    · refine .inr (hrest.imp ?_ (Or.imp ?_ ?_)) <;> exact List.mem_append_left _

theorem mem_outbound_call {c : Call} (hx : x ∈ m.outbound.attachments)
    (hcancel : c ≠ .cancel x.1) (hfinish : c ≠ .finish x.1) :
    x ∈ (m.call c).1.outbound.attachments ∨ c = .nextMessage ∧ (m.call c).2 = .item (some x) ∨
      (m.call c).1.phase = .closed := by
  obtain ⟨edits, hrun, hedits⟩ := (call_makes m c).edited
  rcases mem_outbound_of_run hrun hx with hx | he | he | he
  · exact .inl hx
  · exact .inr (.inl (hedits _ he))
  · exact absurd (hedits _ he) (not_or.2 ⟨hcancel, hfinish⟩)
  · exact .inr (.inr (hedits _ he))

/-! ### Streams that are over -/

/-- A stream's id was used, and its route is gone. -/
def Over (id : ℤ) (r : Router) : Prop := r.routes id = none ∧ id ≤ r.highest

theorem over_move {ρ : Rules} {r r' : Router} {l : Option Mark} (h : Over id r)
    (hm : Move ρ r l r') : Over id r' := by
  obtain ⟨hnone, hle⟩ := h
  -- a move on a route that is there, and one that starts a later stream
  have hother : ∀ {id' : ℤ} {s : Stream} (s' : Option Stream), r.routes id' = some s →
      (r.setRoute id' s').routes id = none := by
    intro id' s s' hs
    have hne : id ≠ id' := by
      rintro rfl
      rw [hnone] at hs
      cases hs
    show Function.update r.routes id' s' id = none
    rw [Function.update_of_ne hne, hnone]
  have hlater : ∀ {id' : ℤ} (s' : Option Stream), r.highest < id' →
      (r.setRoute id' s').routes id = none := by
    intro id' s' hlt
    show Function.update r.routes id' s' id = none
    rw [Function.update_of_ne (by omega), hnone]
  cases hm with
  | register _ _ => exact ⟨hnone, hle⟩
  | start _ _ hnew _ => exact ⟨hlater _ hnew, hle.trans hnew.le⟩
  | hearStart _ _ _ hnew => exact ⟨hlater _ hnew, hle.trans hnew.le⟩
  | send hroute _ _ _ _ => exact ⟨hother _ hroute, hle⟩
  | hear hroute _ _ => exact ⟨hother _ hroute, hle⟩
  | notice _ _ _ _ => exact ⟨hnone, hle⟩
  | expire _ hroute _ _ => exact ⟨hother _ hroute, hle⟩
  | control _ => exact ⟨hnone, hle⟩
  | handOut _ => exact ⟨hnone, hle⟩
  | handAction _ => exact ⟨hnone, hle⟩
  | ask _ hroute _ _ _ _ _ => exact ⟨hother _ hroute, hle⟩
  | giveUp _ hroute _ _ _ _ => exact ⟨hother _ hroute, hle⟩
  | discard _ _ => exact ⟨hnone, hle⟩
  | dropActions _ => exact ⟨hnone, hle⟩
  | mark _ _ => exact ⟨by simp [Router.mark, hnone], hle⟩
  | close => exact ⟨rfl, hle⟩

theorem over_run {tr : List (Call × Outcome)} (hb : Begun m) (h : Over id m.router)
    (hr : Run Step m tr n) : Over id n.router := by
  obtain ⟨-, -, marks, hw, -⟩ := run_moves hb hr
  exact hw.invariant (P := Over id) (A := fun _ => True) (fun _ _ _ _ ho hm => over_move ho hm)
    (fun _ _ => trivial) h

/-! ### Deadlines -/

/-- A `Cancel` for a stream of a request is queued. -/
def CancelQueued (m : Mux) (request : String) (id : ℤ) : Prop :=
  ∃ message : Envelope, message.streamId = id ∧ message.kind = .cancel ∧
    (request, message) ∈ m.outbound.attachments

theorem mem_outbound_expire (ids : List ℤ) (hx : x ∈ m.outbound.attachments)
    (hopen : (m.expire ids).phase ≠ .closed) : x ∈ (m.expire ids).outbound.attachments := by
  obtain ⟨edits, hrun, hedits⟩ := (Change.expire (A := (· = .queued)) rfl ids m fun hclosed =>
    absurd hclosed hopen).edited
  rcases mem_outbound_of_run hrun hx with hx | he | he | he
  · exact hx
  · cases hedits _ he
  · cases hedits _ he
  · cases hedits _ he

/-- One overdue stream. -/
theorem expire_cons (m : Mux) (id : ℤ) (ids : List ℤ) :
    m.expire (id :: ids) = m ∨ m.expire (id :: ids) = m.disconnect ∨
      ∃ route code queued n, m.routes.get? id = some route ∧
        m.enqueue (route.request, ending (m.blank id .failed) route.kind code)
          m.endpointConfig.isSome = .ok queued ∧
        queued.enqueue (route.request, cancelling (m.blank id .failed) code)
          (!m.endpointConfig.isSome) = .ok n ∧
        m.expire (id :: ids) = { n with routes := n.routes.erase id }.expire ids := by
  rw [expire]
  split
  next route message hroute hmessage =>
    obtain ⟨-, rfl⟩ := message_eq_ok hmessage
    dsimp only
    split
    · exact .inr (.inl rfl)
    next n hn =>
      obtain ⟨queued, hq, hn⟩ := bind_eq_ok.1 hn
      exact .inr (.inr ⟨route, _, queued, n, hroute, hq, hn, rfl⟩)
  next => exact .inl rfl

/-- A stream that `expire` drops has its `Cancel` queued. -/
theorem cancelQueued_of_expire (ids : List ℤ) :
    ∀ (m : Mux) {route : Route}, m.endpointConfig = none → m.routes.get? id = some route →
      (m.expire ids).routes.get? id = none → (m.expire ids).phase ≠ .closed →
      CancelQueued (m.expire ids) route.request id := by
  induction ids with
  | nil =>
    intro m route _ hroute hnone _
    rw [expire, hroute] at hnone
    cases hnone
  | cons id' ids ih =>
    intro m route hside hroute hnone hopen
    rcases expire_cons m id' ids with heq | heq | ⟨route', code, queued, n, hroute', hq, hn, heq⟩
    · rw [heq, hroute] at hnone
      cases hnone
    · rw [heq] at hopen
      exact absurd rfl hopen
    · rw [heq] at hnone hopen ⊢
      obtain ⟨hroutes, -, -, -, -, hend, -⟩ := enqueue_keeps hq
      obtain ⟨hroutes', -, -, -, -, hend', -⟩ := enqueue_keeps hn
      by_cases hid : id' = id
      · -- its `Cancel` went into the queue here
        subst hid
        obtain rfl : route' = route := Option.some.inj (hroute'.symm.trans hroute)
        obtain ⟨-, -, charge, control, rfl⟩ := enqueue_eq_ok hn
        refine ⟨cancelling (m.blank id' .failed) code, rfl, rfl, mem_outbound_expire ids ?_ hopen⟩
        simp [hside]
      · refine ih { n with routes := n.routes.erase id' } ?_ ?_ hnone hopen
        · exact (hend'.trans hend).trans hside
        · rw [SortedMap.get?_erase_of_ne _ (Ne.symm hid), hroutes', hroutes, hroute]

theorem cancelQueued_of_advance {now : ℕ} {route : Route} (hside : m.endpointConfig = none)
    (hroute : m.routes.get? id = some route) (hnone : (m.advance now).routes.get? id = none)
    (hopen : (m.advance now).phase ≠ .closed) :
    CancelQueued (m.advance now) route.request id := by
  unfold advance at hnone hopen ⊢
  dsimp only at hnone hopen ⊢
  split_ifs at hnone hopen ⊢
  · exact absurd rfl hopen
  · exact absurd rfl hopen
  · exact cancelQueued_of_expire _ { m with now := max m.now now } hside hroute hnone hopen

/-! ### From the deadline to the end of the request -/

/-- Every queued `Cancel` of a request is of a stream that is still routed. -/
def cancelsRouted (m : Mux) (request : String) : Bool :=
  m.outbound.attachments.all fun item =>
    item.1 != request || item.2.kind != .cancel || (m.routes.get? item.2.streamId).isSome

/-- Where `cancel` and `finish` lose nothing: if there is something to cancel, or the request is
finished, every queued `Cancel` of the request is of a stream that is still routed. -/
def sparing (m : Mux) : Call → Bool
  | .cancel request => !m.cancels request || m.cancelsRouted request
  | .finish request =>
    !(m.cancels request || (m.finish request).2.isOk) || m.cancelsRouted request
  | _ => true

theorem not_cancelQueued {request : String} (h : m.cancelsRouted request = true)
    (hnone : m.routes.get? id = none) : ¬ CancelQueued m request id := by
  rintro ⟨message, rfl, hkind, hmem⟩
  simpa [hkind, hnone] using List.all_eq_true.1 h _ hmem

/-- A call with nothing to cancel leaves the queue as it is, or ends the session. -/
theorem queued_of_not_cancels {request : String} {c : Call}
    (hc : c = .cancel request ∨ c = .finish request) (h : m.cancels request = false) :
    (m.call c).1.outbound.attachments = m.outbound.attachments ∨ (m.call c).1.phase = .closed := by
  have hsame : (m.call c).1.router = (m.cancel request).1.router ∧
      (m.call c).1.phase = (m.cancel request).1.phase := by
    rcases hc with rfl | rfl
    · exact ⟨rfl, rfl⟩
    · exact finish_router m request
  rcases cancel_of_not_cancels h with heq | heq
  · rw [heq] at hsame
    exact .inl (congrArg Router.outbound hsame.1)
  · rw [heq] at hsame
    exact .inr hsame.2

/-- A `Cancel` for a stream of a request was handed out. -/
def CancelHanded (tr : List (Call × Outcome)) (request : String) (id : ℤ) : Prop :=
  ∃ message : Envelope, message.streamId = id ∧ message.kind = .cancel ∧
    (.nextMessage, .item (some (request, message))) ∈ tr

/-- What holds from the deadline on. -/
structure Owed (request : String) (id : ℤ) (tr : List (Call × Outcome)) (m : Mux) : Prop where
  begun : Begun m
  gone : Over id m.router
  owed : m.phase = .closed ∨ CancelHanded tr request id ∨ CancelQueued m request id

theorem Owed.get? {request : String} {tr : List (Call × Outcome)} (h : Owed request id tr m) :
    m.routes.get? id = none := by simpa [router] using h.gone.1

theorem Owed.step {request : String} {tr : List (Call × Outcome)} {l : Call × Outcome}
    (h : Owed request id tr m) (hsparing : sparing m l.1 = true) (hs : Step m l n) :
    Owed request id (tr ++ [l]) n := by
  refine ⟨h.begun.step hs, over_run h.begun h.gone (.single hs), ?_⟩
  have hcall : m.call l.1 = (n, l.2) := hs
  rcases h.owed with hclosed | ⟨message, hid, hkind, hmem⟩ | hqueued
  · have hframe := Frame.call m l.1
    rw [hcall] at hframe
    exact .inl (hframe.closed hclosed)
  · exact .inr (.inl ⟨message, hid, hkind, List.mem_append_left _ hmem⟩)
  · by_cases hc : l.1 = .cancel request ∨ l.1 = .finish request
    · have hcancels : m.cancels request = false := by
        by_contra hcancels
        refine not_cancelQueued ?_ h.get? hqueued
        rcases hc with hc | hc <;> rw [hc] at hsparing <;> simpa [sparing, hcancels] using hsparing
      obtain ⟨message, hid, hkind, hmem⟩ := hqueued
      have hcases := queued_of_not_cancels hc hcancels
      rw [hcall] at hcases
      rcases hcases with heq | hclosed
      · exact .inr (.inr ⟨message, hid, hkind, by rwa [heq]⟩)
      · exact .inl hclosed
    obtain ⟨hcancel, hfinish⟩ := not_or.1 hc
    obtain ⟨message, hid, hkind, hmem⟩ := hqueued
    have hcases := mem_outbound_call (c := l.1) hmem hcancel hfinish
    rw [hcall] at hcases
    rcases hcases with hmem | ⟨hc, ho⟩ | hclosed
    · exact .inr (.inr ⟨message, hid, hkind, hmem⟩)
    · refine .inr (.inl ⟨message, hid, hkind, ?_⟩)
      rw [← hc, ← ho]
      simp
    · exact .inl hclosed

theorem phase_of_finish {request : String} (h : (m.finish request).2 = .ok ()) :
    m.phase ≠ .closed := by
  intro hclosed
  have hcancel := (finish_ok h).1
  simp [cancel, hclosed] at hcancel

/-- In every run of an initiator: when a stream is dropped because its deadline passed, and from
then on no `cancel` or `finish` takes effect while a `Cancel` of the request is queued whose stream
is no longer routed, a `Cancel` of the stream is handed out before its request is finished.  (A
session that closes finishes no request.) -/
theorem overdue_cancel_handed {profile : Profile} {session : String} {config : Config}
    {m₀ m₁ m₂ : Mux} {tr tr' : List (Call × Outcome)} {now : ℕ} {route : Route}
    (h₀ : initiator profile session config = .ok m₀) (h₁ : Run Step m₀ tr m₁)
    (hroute : m₁.routes.get? id = some route) (hdropped : (m₁.advance now).routes.get? id = none)
    (h₂ : Run (fun m l n => sparing m l.1 = true ∧ Step m l n) (m₁.advance now) tr' m₂)
    (hsparing : sparing m₂ (.finish route.request) = true)
    (hfinish : (m₂.finish route.request).2 = .ok ()) : CancelHanded tr' route.request id := by
  obtain ⟨marks, hbooked⟩ := exists_booked h₀ h₁ id
  have hadvance : Step m₁ (.advance now, .done (.ok ())) (m₁.advance now) := rfl
  have hside : m₁.endpointConfig = none := by
    have hsame := (run_moves (Begun.new h₀) h₁).2.1
    obtain ⟨-, rfl⟩ := new_eq_ok h₀
    simpa [fresh] using hsame
  have hstream : m₁.router.routes id = some route.stream := by simp [router, hroute]
  have hid : id ≠ 0 := (hbooked.positive.routes id (by simp [hstream])).ne'
  have hreached : id ≤ m₁.highestId :=
    of_decide_eq_true ((hbooked.account hid).settled hstream).reached
  have howed : Owed route.request id [] (m₁.advance now) := by
    refine ⟨hbooked.begun.step hadvance, ⟨by simpa [router] using hdropped, ?_⟩, ?_⟩
    · show id ≤ (m₁.advance now).highestId
      rwa [(Change.advance (A := fun _ => True) trivial fun _ => trivial).kept.highest]
    · by_cases hopen : (m₁.advance now).phase = .closed
      · exact .inl hopen
      · exact .inr (.inr (cancelQueued_of_advance hside hroute hdropped hopen))
  have hlast : Owed route.request id tr' m₂ :=
    h₂.invariant (P := fun tr m => Owed route.request id tr m) howed
      fun _ _ _ _ _ ho hs => ho.step hs.1 hs.2
  rcases hlast.owed with hclosed | hhanded | hqueued
  · exact absurd hclosed (phase_of_finish hfinish)
  · exact hhanded
  · refine absurd hqueued (not_cancelQueued ?_ hlast.get?)
    simpa [sparing, hfinish, Except.isOk, Except.toBool] using hsparing

/-! ### A check that runs out of time -/

/-- The endpoint's answer to the small initiator. -/
def boundReply : Envelope :=
  match sshEndpoint.accept .stable smallInitiator.bindOffer with
  | .ok (reply, _) => reply
  | .error _ => smallInitiator.bindOffer

/-- An initiator's calls up to an identity check that was sent. -/
def upToCheck : List Call :=
  [.register "r" (some "o"), .begin "r", .nextMessage, .receive ("r", boundReply),
    .checkIdentity "r" ⟨.explicitKey, some "key", none⟩ 10, .nextMessage]

/-- The state with the check pending. -/
def checking : Mux := (replay smallInitiator upToCheck).2

/-- The `Cancel` of the check is taken before its request is finished. -/
theorem overdue_cancel_handed_check :
    (checking.advance 10).routes.get? 1 = none ∧
      ((replay (checking.advance 10) [.nextAction, .nextMessage]).2.finish "r").2 = .ok () ∧
      CancelHanded (replay (checking.advance 10) [.nextAction, .nextMessage]).1 "r" 1 := by
  have hdropped : (checking.advance 10).routes.get? 1 = none := by decide +kernel
  have hfinish : ((replay (checking.advance 10) [.nextAction, .nextMessage]).2.finish "r").2 =
      .ok () := by decide +kernel
  obtain ⟨route, hroute, hrequest⟩ := Option.map_eq_some_iff.1
    (show (checking.routes.get? 1).map (·.request) = some "r" by decide +kernel)
  refine ⟨hdropped, hfinish, hrequest ▸ overdue_cancel_handed smallInitiator_new
    (run_replay smallInitiator upToCheck) hroute hdropped (run_of_allowed ?_) ?_ ?_⟩
  · decide +kernel
  · rw [hrequest]
    decide +kernel
  · rw [hrequest]
    exact hfinish

/-- Whether a call handed out a `Cancel`. -/
def handsCancel : Outcome → Bool
  | .item (some item) => item.2.kind == .cancel
  | _ => false

/-- A host that takes the failed check and finishes the request before it asks for messages: the
session stays open, no `Cancel` was handed out, and none is left to be handed out. -/
theorem overdue_cancel_discarded :
    let run := replay smallInitiator (upToCheck ++ [.advance 10, .nextAction, .finish "r"])
    (checking.routes.get? 1).isSome = true ∧ (checking.advance 10).routes.get? 1 = none ∧
      run.2.phase = .ready ∧ run.2.requests.get? "r" = none ∧ ¬ CancelHanded run.1 "r" 1 ∧
      run.2.outbound.attachments = [] ∧ run.2.routes.size = 0 := by
  refine ⟨by decide +kernel, by decide +kernel, by decide +kernel, by decide +kernel, ?_,
    by decide +kernel, by decide +kernel⟩
  rintro ⟨message, -, hkind, hmem⟩
  have hnone : ∀ l ∈ (replay smallInitiator
      (upToCheck ++ [.advance 10, .nextAction, .finish "r"])).1, handsCancel l.2 = false := by
    decide +kernel
  simpa [handsCancel, hkind] using hnone _ hmem

end GwzTransport.Mux
