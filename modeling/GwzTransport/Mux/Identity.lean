import GwzTransport.Mux.Ledger

/-!
# Streams and requests keep their names

A stream's id is never used again, also when its route is gone, and what the host is told of a
stream carries the request under which it was opened.

* `Router.Keeps`: a change that opens no stream; every move is one or raises the highest id;
* `opened`, `openings`: the streams that a call, and a list of calls, adds to the routes;
* `Traced`: the routes and the queued actions against the streams that were opened.
-/

namespace GwzTransport.Mux

open Protocol MachineInt Checks Binding Transition

variable {m n : Mux} {item : Attachment} {ρ : Rules}

namespace Router

variable {r t u : Router} {l : Option Mark}

/-- The streams and the actions of `t` belong to streams of `r`, or were there. -/
structure Keeps (r t : Router) : Prop where
  routes : ∀ id s', t.routes id = some s' → ∃ s, r.routes id = some s ∧ s.request = s'.request
  actions : ∀ x ∈ t.actions, x ∈ r.actions ∨
    ∃ s, r.routes x.2.streamId = some s ∧ s.request = x.1

theorem Keeps.trans (h : r.Keeps t) (h' : t.Keeps u) : r.Keeps u where
  routes id s'' hs'' := by
    obtain ⟨s', hs', hrequest⟩ := h'.routes id s'' hs''
    obtain ⟨s, hs, heq⟩ := h.routes id s' hs'
    exact ⟨s, hs, heq.trans hrequest⟩
  actions x hx := by
    rcases h'.actions x hx with hx | ⟨s', hs', hrequest⟩
    · exact h.actions x hx
    · obtain ⟨s, hs, heq⟩ := h.routes _ s' hs'
      exact .inr ⟨s, hs, heq.trans hrequest⟩

/-- A change that leaves the routes. -/
theorem Keeps.quiet (hroutes : t.routes = r.routes) (hactions : t.actions ⊆ r.actions) :
    r.Keeps t :=
  ⟨fun _ s' hs' => ⟨s', hroutes ▸ hs', rfl⟩, fun _ hx => .inl (hactions hx)⟩

/-- A stream that changes or ends. -/
theorem Keeps.set {id : ℤ} {s : Stream} {s' : Option Stream} (hs : r.routes id = some s)
    (hs' : ∀ x, s' = some x → x.request = s.request) : r.Keeps (r.setRoute id s') where
  routes j x hx := by
    by_cases hj : j = id
    · subst hj
      dsimp only [setRoute] at hx
      rw [Function.update_self] at hx
      exact ⟨s, hs, (hs' x hx).symm⟩
    · dsimp only [setRoute] at hx
      rw [Function.update_of_ne hj] at hx
      exact ⟨x, hx, rfl⟩
  actions _ hx := .inl hx

/-- The host is told of a stream. -/
theorem Keeps.act (h : r.Keeps t) {s : Stream} (hs : r.routes item.2.streamId = some s)
    (hrequest : s.request = item.1) : r.Keeps (t.act item) where
  routes := h.routes
  actions x hx := by
    rcases List.mem_append.1 hx with hx | hx
    · exact h.actions x hx
    · rw [List.mem_singleton.1 hx]
      exact .inr ⟨s, hs, hrequest⟩

/-- Only a new stream raises the highest id, and only such a move adds a stream. -/
theorem keeps_move (hm : Move ρ r l t) :
    r.highest < t.highest ∨ t.highest = r.highest ∧ r.Keeps t := by
  have hall : r.actions ⊆ r.actions := fun _ hx => hx
  cases hm with
  | start _ _ hnew _ => exact .inl hnew
  | hearStart _ _ _ hnew => exact .inl hnew
  | register _ _ => exact .inr ⟨rfl, .quiet rfl hall⟩
  | @send item s hs _ _ _ _ =>
    have h : r.Keeps (r.setRoute item.2.streamId (s.after item.2.kind)) :=
      .set hs fun _ hx => request_of_after hx
    exact .inr ⟨rfl, h.routes, h.actions⟩
  | hear hs hrequest _ =>
    exact .inr ⟨rfl, (Keeps.set hs fun _ hx => request_of_after hx).act hs hrequest⟩
  | notice _ hs hrequest _ => exact .inr ⟨rfl, (Keeps.quiet rfl hall).act hs hrequest⟩
  | expire _ hs hrequest _ =>
    exact .inr ⟨rfl, (Keeps.set hs fun _ hx => by cases hx).act hs hrequest⟩
  | control _ => exact .inr ⟨rfl, .quiet rfl hall⟩
  | handOut _ => exact .inr ⟨rfl, .quiet rfl hall⟩
  | handAction hactions =>
    exact .inr ⟨rfl, .quiet rfl (hactions ▸ fun _ hx => List.mem_cons_of_mem _ hx)⟩
  | ask _ hs _ _ _ _ _ =>
    refine .inr ⟨rfl, .set hs ?_⟩
    rintro x ⟨⟩
    rfl
  | giveUp _ hs _ _ _ _ => exact .inr ⟨rfl, .set hs fun _ hx => by cases hx⟩
  | discard _ _ => exact .inr ⟨rfl, .quiet rfl hall⟩
  | dropActions _ => exact .inr ⟨rfl, .quiet rfl fun _ hx => (List.mem_filter.1 hx).1⟩
  | mark request _ =>
    refine .inr ⟨rfl, fun id s' hs' => ?_, fun _ hx => .inl hx⟩
    obtain ⟨s, hs, rfl⟩ := Option.map_eq_some_iff.1 hs'
    refine ⟨s, hs, ?_⟩
    split_ifs <;> rfl
  | close => exact .inr ⟨rfl, fun _ _ h => (by cases h), fun _ h => (by cases h)⟩

theorem keeps_weak {marks : List Mark} (hw : Weak (Move ρ) r marks t)
    (hsame : t.highest = r.highest) : r.Keeps t := by
  have h := hw.invariant (P := fun t => r.highest < t.highest ∨ t.highest = r.highest ∧ r.Keeps t)
    (A := fun _ => True) (fun t l u _ h hm => ?_) (by simp)
    (.inr ⟨rfl, .quiet rfl fun _ hx => hx⟩)
  · rcases h with h | ⟨-, h⟩
    · omega
    · exact h
  · rcases h with h | ⟨heq, h⟩ <;> rcases keeps_move hm with hm | ⟨heq', hm⟩
    · exact .inl (h.trans hm)
    · exact .inl (heq' ▸ h)
    · exact .inl (heq ▸ hm)
    · exact .inr ⟨heq'.trans heq, h.trans hm⟩

theorem started_move (h : Move ρ r (some (.started item)) t) :
    r.highest < item.2.streamId ∧ t = (r.start item).queue item := by
  cases h with
  | start _ _ hnew _ => exact ⟨hnew, rfl⟩

theorem mem_of_action (h : Move ρ r (some (.action item)) t) : item ∈ r.actions := by
  cases h with
  | handAction hactions =>
    rw [hactions]
    exact List.mem_cons_self

end Router

/-! ### The calls that open a stream -/

/-- A call opened a stream: `item` is the message with which it began. -/
structure Opens (m : Mux) (item : Attachment) (n : Mux) : Prop where
  above : m.highestId < item.2.streamId
  highest : n.highestId = item.2.streamId
  routes : n.router.routes = Function.update m.router.routes item.2.streamId (some (.first item))
  actions : ∀ x ∈ n.router.actions, x ∈ m.router.actions ∨ x = item

theorem opens_of_started (h : Move ρ m.router (some (.started item)) n.router) :
    Opens m item n := by
  obtain ⟨hnew, hrouter⟩ := Router.started_move h
  refine ⟨hnew, congrArg Router.highest hrouter, congrArg Router.routes hrouter, fun x hx => ?_⟩
  rw [hrouter] at hx
  exact .inl hx

/-- A received message opens the stream it names, or none. -/
theorem receive_opens (m : Mux) (item : Attachment) :
    (m.receive item).1.highestId = m.highestId ∨ Opens m item (m.receive item).1 := by
  unfold receive
  split_ifs
  · exact .inl rfl
  · exact .inl rfl
  split
  case h_2 e _ => split_ifs <;> exact .inl rfl
  next n hreceive =>
    obtain ⟨_, -, h⟩ := bind_eq_ok.1 hreceive
    obtain ⟨_, hadmitted, h⟩ := bind_eq_ok.1 h
    split_ifs at h with hzero hstarts
    · -- the bootstrap is over before the session is ready
      rcases bootstrap_eq_ok h with rfl | ⟨k, -, hphase, -⟩ | ⟨-, hanswer⟩
      · exact .inl rfl
      · refine .inl ((Makes.bootstrap (A := fun _ => True) trivial (fun _ => trivial)
          h).frame.highest.resolve_right ?_)
        rw [hphase]
        decide
      · refine .inl ((Makes.bootstrap (A := fun _ => True) trivial (fun _ => trivial)
          h).frame.highest.resolve_right ?_)
        rw [(readAnswer_eq_ok hanswer).1]
        decide
    · obtain ⟨_, -, h⟩ := bind_eq_ok.1 h
      rcases receiveStart_eq_ok (orError_eq_ok.1 hadmitted) hstarts h with
        ⟨rfl, -⟩ | ⟨-, hnew, operation, hrouter⟩
      · exact .inl rfl
      · refine .inr ⟨hnew, congrArg Router.highest hrouter, congrArg Router.routes hrouter, ?_⟩
        intro x hx
        rw [hrouter] at hx
        exact (List.mem_append.1 hx).imp_right List.mem_singleton.1
    · obtain ⟨_, -, h⟩ := bind_eq_ok.1 h
      rcases receiveNext_eq_ok h with ⟨rfl, -⟩ | ⟨route, -, -, -, hrouter⟩
      · exact .inl rfl
      · exact .inl (congrArg Router.highest hrouter)

theorem call_opens (m : Mux) (c : Call) :
    (m.call c).1.highestId = m.highestId ∨ ∃ item, Opens m item (m.call c).1 := by
  have hsettle : ∀ r : Except Error Mux, (∀ n, r = .ok n → n.highestId = m.highestId) →
      (m.settle r).1.highestId = m.highestId := by
    intro r h
    cases r with
    | ok n => exact h n rfl
    | error e => rfl
  have hstream : ∀ r : Except Error (Mux × ℤ), (∀ n id, r = .ok (n, id) → ∃ item, Opens m item n) →
      (m.settleStream r).1.highestId = m.highestId ∨ ∃ item, Opens m item (m.settleStream r).1 := by
    intro r h
    cases r with
    | ok p => exact .inr (h p.1 p.2 rfl)
    | error e => exact .inl rfl
  have ho := obeys_free m
  cases c with
  | register request operation =>
    refine .inl (hsettle _ fun n h => ?_)
    obtain ⟨-, rfl⟩ := register_made h
    rfl
  | «begin» request =>
    refine .inl (hsettle _ fun n h => ?_)
    rcases begin_move h with rfl | ⟨-, -, queued, hq, rfl⟩
    · rfl
    · exact (Kept.enqueue hq).highest
  | checkIdentity request identity timeoutMs =>
    refine hstream _ fun n id h => ?_
    obtain ⟨x, -, -, hmove⟩ := checkIdentity_move ho.start ho.side h
    exact ⟨x, opens_of_started hmove⟩
  | open_ request body =>
    refine hstream _ fun n id h => ?_
    obtain ⟨x, -, -, hmove⟩ := open_move ho.start ho.side h
    exact ⟨x, opens_of_started hmove⟩
  | send request message =>
    exact .inl (hsettle _ fun n h => (Change.send (A := fun _ => True) trivial h).kept.highest)
  | nextAction =>
    exact .inl (Change.nextAction (A := fun _ => True) m fun _ _ => trivial).kept.highest
  | nextMessage => exact .inl (Change.nextMessage (A := fun _ => True) m (fun _ => trivial)
      fun _ _ => trivial).kept.highest
  | cancel request => exact .inl (Change.cancel (A := fun _ => True) trivial trivial trivial
      fun _ => trivial).kept.highest
  | finish request => exact .inl (Change.finish (A := fun _ => True) trivial trivial trivial
      fun _ => trivial).kept.highest
  | advance now =>
    exact .inl (Change.advance (A := fun _ => True) trivial fun _ => trivial).kept.highest
  | disconnect => exact .inl rfl
  | receive item => exact (receive_opens m item).imp_right fun h => ⟨item, h⟩

/-! ### Streams of a session -/

/-- The streams among the routes of `n` that are not among those of `m`, with their requests. -/
def opened (m n : Mux) : List (ℤ × String) :=
  (n.routes.toList.filter fun e => (m.routes.get? e.1).isNone).map fun e => (e.1, e.2.request)

/-- The streams that some calls open, in their order. -/
def openings (m : Mux) : List Call → List (ℤ × String)
  | [] => []
  | c :: cs => opened m (m.call c).1 ++ openings (m.call c).1 cs

theorem mem_opened {p : ℤ × String} : p ∈ opened m n ↔
    m.router.routes p.1 = none ∧ ∃ s, n.router.routes p.1 = some s ∧ s.request = p.2 := by
  obtain ⟨id, request⟩ := p
  simp only [opened, List.mem_map, List.mem_filter, Prod.exists, n.routes.mem_toList, router,
    Option.isNone_iff_eq_none, Option.map_eq_none_iff, Option.map_eq_some_iff, Prod.mk.injEq]
  constructor
  · rintro ⟨id, route, ⟨hn, hm⟩, rfl, rfl⟩
    exact ⟨hm, _, ⟨route, hn, rfl⟩, rfl⟩
  · rintro ⟨hm, _, ⟨route, hn, rfl⟩, rfl⟩
    exact ⟨id, route, ⟨hn, hm⟩, rfl, rfl⟩

theorem pairwise_opened (m n : Mux) : ((opened m n).map (·.1)).Pairwise (· < ·) := by
  rw [opened, List.map_map, List.pairwise_map]
  exact n.routes.sorted.filter _

theorem opened_of_keeps (h : m.router.Keeps n.router) : opened m n = [] := by
  refine List.eq_nil_iff_forall_not_mem.2 fun p hp => ?_
  obtain ⟨hnone, s, hs, -⟩ := mem_opened.1 hp
  obtain ⟨s', hs', -⟩ := h.routes _ s hs
  rw [hnone] at hs'
  cases hs'

/-- The routes and the actions belong to streams that were opened, under their requests. -/
structure Traced (m : Mux) (streams : List (ℤ × String)) : Prop where
  begun : Begun m
  increasing : (streams.map (·.1)).Pairwise (· < ·)
  below : ∀ p ∈ streams, p.1 ≤ m.highestId
  routes : ∀ id s, m.router.routes id = some s → (id, s.request) ∈ streams
  actions : ∀ x ∈ m.router.actions, (x.2.streamId, x.1) ∈ streams

variable {streams : List (ℤ × String)}

theorem Traced.opens (h : Traced m streams) (hb : Begun n) (ho : Opens m item n) :
    Traced n (streams ++ opened m n) := by
  have hfree : m.router.routes item.2.streamId = none := by
    by_contra hne
    obtain ⟨s, hs⟩ := Option.ne_none_iff_exists'.1 hne
    exact absurd (h.below _ (h.routes _ s hs)) (not_le.2 ho.above)
  have hitem : (item.2.streamId, item.1) ∈ opened m n := by
    refine mem_opened.2 ⟨hfree, .first item, ?_, rfl⟩
    rw [ho.routes, Function.update_self]
  have hopened : ∀ p ∈ opened m n, p.1 = item.2.streamId := by
    intro p hp
    by_contra hne
    obtain ⟨hnone, s, hs, -⟩ := mem_opened.1 hp
    rw [ho.routes, Function.update_of_ne hne, hnone] at hs
    cases hs
  refine ⟨hb, ?_, fun p hp => ?_, fun id s hs => ?_, fun x hx => ?_⟩
  · rw [List.map_append]
    refine List.pairwise_append.2 ⟨h.increasing, pairwise_opened m n, fun a ha b hb => ?_⟩
    obtain ⟨p, hp, rfl⟩ := List.mem_map.1 ha
    obtain ⟨q, hq, rfl⟩ := List.mem_map.1 hb
    rw [hopened q hq]
    exact (h.below p hp).trans_lt ho.above
  · rw [ho.highest]
    rcases List.mem_append.1 hp with hp | hp
    · exact ((h.below p hp).trans_lt ho.above).le
    · exact (hopened p hp).le
  · by_cases hid : id = item.2.streamId
    · subst hid
      rw [ho.routes, Function.update_self] at hs
      cases hs
      exact List.mem_append_right _ hitem
    · rw [ho.routes, Function.update_of_ne hid] at hs
      exact List.mem_append_left _ (h.routes id s hs)
  · rcases ho.actions x hx with hx | rfl
    · exact List.mem_append_left _ (h.actions x hx)
    · exact List.mem_append_right _ hitem

theorem Traced.keeps (h : Traced m streams) (hb : Begun n) (hsame : n.highestId = m.highestId)
    (hk : m.router.Keeps n.router) : Traced n streams where
  begun := hb
  increasing := h.increasing
  below := hsame ▸ h.below
  routes id s' hs' := by
    obtain ⟨s, hs, hrequest⟩ := hk.routes id s' hs'
    exact hrequest ▸ h.routes id s hs
  actions x hx := by
    rcases hk.actions x hx with hx | ⟨s, hs, hrequest⟩
    · exact h.actions x hx
    · exact hrequest ▸ h.routes _ s hs

theorem Traced.call (h : Traced m streams) (c : Call) :
    Traced (m.call c).1 (streams ++ opened m (m.call c).1) := by
  have hb : Begun (m.call c).1 := h.begun.step (l := (c, (m.call c).2)) rfl
  rcases call_opens m c with hsame | ⟨item, ho⟩
  · obtain ⟨marks, hw, -⟩ := call_moves (obeys_free m) h.begun.rows (orderly_free c)
    have hk := Router.keeps_weak hw hsame
    rw [opened_of_keeps hk, List.append_nil]
    exact h.keeps hb hsame hk
  · exact h.opens hb ho

theorem Traced.replay (h : Traced m streams) (cs : List Call) :
    Traced (replay m cs).2 (streams ++ openings m cs) ∧
      (∀ item, (.nextAction, .item (some item)) ∈ (replay m cs).1 →
        (item.2.streamId, item.1) ∈ streams ++ openings m cs) := by
  induction cs generalizing m streams with
  | nil =>
    rw [openings, List.append_nil]
    exact ⟨h, fun _ h => (by cases h)⟩
  | cons c cs ih =>
    obtain ⟨hrest, hactions⟩ := ih (h.call c)
    rw [List.append_assoc] at hrest hactions
    refine ⟨hrest, fun item hmem => ?_⟩
    rcases List.mem_cons.1 hmem with heq | hmem
    · obtain ⟨rfl, hitem⟩ := Prod.mk.inj heq
      rcases nextAction_move (ρ := free m.endpointConfig.isSome) m with
        hnone | ⟨item', hitem', hmove⟩
      · rw [Mux.call, hnone] at hitem
        cases hitem
      · rw [Mux.call, hitem'] at hitem
        cases hitem
        exact List.mem_append_left _ (h.actions _ (Router.mem_of_action hmove))
    · exact hactions item hmem

/-- A name that was used stays used. -/
theorem used_replay (m : Mux) (cs : List Call) :
    m.usedRequests ⊆ (replay m cs).2.usedRequests ∧
      ∀ request operation, (.register request operation, .done (.ok ())) ∈ (replay m cs).1 →
        request ∈ (replay m cs).2.usedRequests := by
  induction cs generalizing m with
  | nil => exact ⟨fun _ h => h, fun _ _ h => (by cases h)⟩
  | cons c cs ih =>
    obtain ⟨hused, hregistered⟩ := ih (m.call c).1
    refine ⟨fun _ h => hused ((Frame.call m c).used h), fun request operation hmem => ?_⟩
    rcases List.mem_cons.1 hmem with heq | hmem
    · obtain ⟨rfl, hout⟩ := Prod.mk.inj heq
      refine hused ?_
      cases hregister : m.register request operation with
      | error e =>
        rw [Mux.call, hregister] at hout
        cases hout
      | ok n =>
        rw [Mux.call, hregister]
        obtain ⟨-, rfl⟩ := register_made hregister
        exact List.mem_cons_self
    · exact hregistered request operation hmem

/-- **Streams and requests keep their names.**  After any calls: the streams were opened under
increasing ids, every route and every action that was handed out belongs to one of them and carries
its request, a first message whose id is not above the highest opens no stream, and a request that
was registered is not registered again. -/
theorem streams_keep_names {profile : Profile} {session : String}
    {endpoint : Option EndpointConfig} {config : Config}
    (hnew : new profile session endpoint config = .ok m) (cs : List Call) :
    ((openings m cs).map (·.1)).Pairwise (· < ·) ∧
      (∀ p ∈ openings m cs, p.1 ≤ (replay m cs).2.highestId) ∧
      (∀ id route, (replay m cs).2.routes.get? id = some route →
        (id, route.request) ∈ openings m cs) ∧
      (∀ item, (.nextAction, .item (some item)) ∈ (replay m cs).1 →
        (item.2.streamId, item.1) ∈ openings m cs) ∧
      (∀ item : Attachment, starts item.2.kind = true →
        item.2.streamId ≤ (replay m cs).2.highestId →
        opened (replay m cs).2 ((replay m cs).2.receive item).1 = []) ∧
      ∀ request operation, (.register request operation, .done (.ok ())) ∈ (replay m cs).1 →
        ∀ operation', ((replay m cs).2.call (.register request operation')).2 ≠ .done (.ok ()) := by
  have hfresh : Traced m [] := by
    obtain ⟨-, rfl⟩ := new_eq_ok hnew
    exact ⟨.new hnew, .nil, fun _ hp => (by cases hp), fun _ _ hs => (by cases hs),
      fun _ hx => (by cases hx)⟩
  obtain ⟨h, hactions⟩ := hfresh.replay cs
  rw [List.nil_append] at h hactions
  refine ⟨h.increasing, h.below, fun id route hroute => ?_, hactions, fun item _ hle => ?_,
    fun request operation hmem operation' hout => ?_⟩
  · exact h.routes id route.stream (by simp [router, hroute])
  · rcases receive_opens (replay m cs).2 item with hsame | ho
    · obtain ⟨marks, hw, -⟩ :=
        call_moves (obeys_free _) h.begun.rows (orderly_free (.receive item))
      exact opened_of_keeps (Router.keeps_weak hw hsame)
    · exact absurd ho.above (not_lt.2 hle)
  · have hused := (used_replay m cs).2 request operation hmem
    cases hregister : (replay m cs).2.register request operation' with
    | ok n => exact (register_made hregister).1 hused
    | error e =>
      rw [Mux.call, hregister] at hout
      cases hout

/-- Two streams; the second leaves an id out, and the message that comes too late with it opens
nothing. -/
theorem streams_keep_names_late :
    let cs := upToOpen ++ [.nextAction, .receive ("r", openMessage 3)]
    openings smallEndpoint cs = [(1, "r"), (3, "r")] ∧
      opened (replay smallEndpoint cs).2 ((replay smallEndpoint cs).2.receive
        ("r", openMessage 2)).1 = [] := by
  intro cs
  have hle : (openMessage 2).streamId ≤ (replay smallEndpoint cs).2.highestId := by decide +kernel
  obtain ⟨-, -, -, -, hlate, -⟩ := streams_keep_names smallEndpoint_new cs
  exact ⟨by decide +kernel, hlate ("r", openMessage 2) rfl hle⟩

end GwzTransport.Mux
