import GwzTransport.Stream.Grammar

/-!
# One direction between two machines

A writer `w` and a reader `r` of one stream, with the messages `c` on their way from `w` to `r` and
the messages `d` on their way back.  `Link` is what holds between them whatever the two hosts do:

* the messages under way lead from what the reader knows to what the writer has said;
* the reader's bytes, those under way and those still buffered are the bytes the writer accepted;
* a flush is at one place at a time: with the writer, under way, with the reader, or answered;
* credit, half-close and close are known to the reader only after the writer's own step.

`Link.writer` and `Link.reader` keep the link when either side moves.
-/

namespace GwzTransport.Stream

open Protocol MachineInt Transition

/-! ### Bodies under way -/

/-- The flush requests among the bodies. -/
def flushes (c : List Body) : List Barrier :=
  c.filterMap fun
    | .flush b => some b
    | _ => none

/-- The flush answers among the bodies. -/
def answers (c : List Body) : List Barrier :=
  c.filterMap fun
    | .flushed b => some b
    | _ => none

@[simp] theorem flushes_append (c c' : List Body) : flushes (c ++ c') = flushes c ++ flushes c' :=
  List.filterMap_append

@[simp] theorem answers_append (c c' : List Body) : answers (c ++ c') = answers c ++ answers c' :=
  List.filterMap_append

@[simp] theorem flushes_nil : flushes [] = [] := rfl
@[simp] theorem answers_nil : answers [] = [] := rfl
@[simp] theorem flushes_flush (b : Barrier) : flushes [.flush b] = [b] := rfl
@[simp] theorem flushes_flushed (b : Barrier) : flushes [.flushed b] = [] := rfl
@[simp] theorem answers_flush (b : Barrier) : answers [.flush b] = [] := rfl
@[simp] theorem answers_flushed (b : Barrier) : answers [.flushed b] = [b] := rfl

@[simp] theorem payloads_append (c c' : List Body) :
    payloads (c ++ c') = payloads c ++ payloads c' :=
  List.flatMap_append

/-- After the half-close no data follows. -/
theorem payloads_of_ended {k : Config} {v v' : Wire} {c : List Body}
    (h : Run (Wire.Next k) v c v') (hv : v.ended = true) : payloads c = [] := by
  refine (h.invariant (P := fun c v' => payloads c = [] ∧ v'.ended = true) ⟨rfl, hv⟩
    fun c v₁ b v₂ _ ⟨hc, hv₁⟩ hnext => ?_).1
  refine ⟨?_, (hnext.le.ended hv₁).1⟩
  rw [payloads_append, hc]
  cases hnext with
  | data _ hmore => simp [hv₁] at hmore
  | failure _ hb => cases b <;> first | rfl | exact hb.elim
  | _ => rfl

/-- The body of a delivered message, whatever came of it. -/
def Event.taken : Event → List Body
  | (.receive e, _) => (bodyOf e).toList
  | _ => []

theorem Event.Silent.taken {e : Event} (h : e.Silent) : e.taken = [] := by
  unfold Event.taken
  split
  next message _ => exact absurd rfl (h.receive message)
  next => rfl

@[simp] theorem Event.taken_call (c : Call) (o : Outcome) : Event.taken (.call c, o) = [] := rfl

@[simp] theorem Event.taken_nextMessage (o : Outcome) : Event.taken (.nextMessage, o) = [] := rfl

/-! ### What a move changes -/

/-- The bytes of the writer: accepted ones join the buffer, sent ones leave it, and a failure
drops it. -/
structure OutBytes (c : Core) (e : Event) (c' : Core) : Prop where
  kept : c'.error = none →
    c.error = none ∧ c.send ++ e.accepted = payloads e.spoken ++ c'.send
  dropped : c'.error ≠ none →
    c'.send = [] ∧ e.accepted = [] ∧ payloads e.spoken = [] ∧ c'.endSent = c.endSent

/-- What a machine knows of its peer's messages. -/
def Core.view (c : Core) : Wire :=
  ⟨c.received, c.peerLimit, c.peerFlushSerial, c.endReceived, c.closeReceived, false⟩

/-- What a move does to that knowledge. -/
inductive Hearing (c : Core) (e : Event) (c' : Core) : Prop
  | nothing (quiet : e.taken = []) (same : c'.view = c.view) (live : c'.Live → c.Live)
  | take (b : Body) (got : e.taken = [b]) (live : c.Live) (accepts : c.Accepts b)
      (after : c' = c.after b)
  | wasted (dead : ¬ c'.Live) (same : c'.view = c.view)

/-- What a move does to the flushes of both directions. -/
inductive FlushMove (c : Core) (e : Event) (c' : Core) : Prop
  | still (said : flushes e.spoken = [] ∧ answers e.spoken = [])
      (kept : c'.Live → c.Live ∧ inFlight c'.flush = inFlight c.flush ∧
        c'.peerFlush = c.peerFlush ∧ flushes e.taken = [] ∧ answers e.taken = [])
  | ask (b : Barrier) (live : c.Live) (said : e.spoken = [.flush b]) (quiet : e.taken = [])
      (before : inFlight c.flush = none) (after : inFlight c'.flush = some b)
      (other : c'.peerFlush = c.peerFlush)
  | settle (b : Barrier) (live : c.Live) (quiet : e.spoken = []) (got : e.taken = [.flushed b])
      (before : inFlight c.flush = some b) (after : inFlight c'.flush = none)
      (other : c'.peerFlush = c.peerFlush)
  | asked (b : Barrier) (live : c.Live) (quiet : e.spoken = []) (got : e.taken = [.flush b])
      (before : c.peerFlush = none) (after : c'.peerFlush = some b)
      (other : inFlight c'.flush = inFlight c.flush)
  | answer (b : Barrier) (live : c.Live) (said : e.spoken = [.flushed b]) (quiet : e.taken = [])
      (before : c.peerFlush = some b) (after : c'.peerFlush = none)
      (reached : b.offset ≤ c.sinkOffset) (other : inFlight c'.flush = inFlight c.flush)

namespace Move

variable {c c' : Core} {e : Event}

theorem sent_le (h : Move c e c') : c.sent ≤ c'.sent := by
  cases h with
  | sendData => simp [Core.pushed]
  | take => exact (Core.after_sent _ _).ge
  | _ => exact le_rfl

theorem advertisedLimit_le (h : Move c e c') : c.advertisedLimit ≤ c'.advertisedLimit := by
  cases h with
  | sendWindow _ hmore => exact hmore.le
  | take => exact (Core.after_advertisedLimit _ _).ge
  | _ => exact le_rfl

theorem closeSent_of (h : Move c e c') (hc : c.closeSent = true) : c'.closeSent = true := by
  cases h with
  | sendClose => rfl
  | take => rwa [Core.after_closeSent]
  | _ => exact hc

theorem discarding_of (h : Move c e c') (hc : c.discarding = true) : c'.discarding = true := by
  cases h with
  | startClose => rfl
  | take => rwa [Core.after_discarding]
  | _ => exact hc

theorem discarding_eq_false (h : Move c e c') (hc : c'.discarding = false) :
    c.discarding = false := by
  by_contra hd
  simp [h.discarding_of (by simpa using hd)] at hc

theorem endSent_of (h : Move c e c') (hc : c.endSent = true) : c'.endSent = true := by
  cases h with
  | sendEnd => rfl
  | take => rwa [Core.after_endSent]
  | _ => exact hc

theorem endRequested_of (h : Move c e c') (hc : c.endRequested = true) :
    c'.endRequested = true := by
  cases h with
  | endWrite => rfl
  | startClose => rfl
  | @take _ b =>
    cases b with
    | closed x => unfold Core.after; dsimp only; split <;> exact hc
    | _ => exact hc
  | _ => exact hc

theorem accepted_of_endRequested (h : Move c e c') (hc : c.endRequested = true) :
    e.accepted = [] := by
  cases h with
  | idle hsilent => exact hsilent.accepted
  | write _ hopen => simp [hc] at hopen
  | completeClose hsilent => exact hsilent.accepted
  | fail hsilent => exact hsilent.accepted
  | _ => rfl

/-- After the half-close no more data is sent. -/
theorem sent_of_endSent (h : Move c e c') (hs : c.Sound) (hc : c.endSent = true) :
    c'.sent = c.sent ∧ payloads e.spoken = [] := by
  cases h with
  | idle hsilent => exact ⟨rfl, by rw [hsilent.spoken]; rfl⟩
  | fail hsilent => exact ⟨rfl, by rw [hsilent.spoken]; rfl⟩
  | completeClose hsilent => exact ⟨rfl, by rw [hsilent.spoken]; rfl⟩
  | read => exact ⟨rfl, by simp [payloads]⟩
  | sendTerminal hpending =>
    obtain ⟨-, b, rfl, hb⟩ := hs.terminal _ hpending
    refine ⟨rfl, ?_⟩
    rw [Event.spoken_seal]
    obtain ⟨error, rfl⟩ | ⟨f, rfl, -⟩ := hb
    · unfold failureBody; split_ifs <;> rfl
    · rfl
  | sendData _ hunsent => exact absurd (hs.end_sent hc).2.1 hunsent
  | take => exact ⟨Core.after_sent _ _, rfl⟩
  | sendFlushed | sendWindow | sendClosed | sendFlush | sendEnd | sendClose =>
    exact ⟨rfl, by rw [Event.spoken_seal]; rfl⟩
  | _ => exact ⟨rfl, rfl⟩

/-- The peer's limit moves only by a window message. -/
theorem peerLimit_cases (h : Move c e c') : c'.peerLimit = c.peerLimit ∨
    c.Live ∧ ∃ w, e.taken = [.window w] ∧ c'.peerLimit = max c.peerLimit w.maxOffset := by
  cases h with
  | @take message b hl good =>
    cases b with
    | window w => exact .inr ⟨hl, w, by simp [Event.taken, good.body], rfl⟩
    | closed x => left; unfold Core.after; dsimp only; split <;> rfl
    | _ => exact .inl rfl
  | _ => exact .inl rfl

/-- A terminal message announces a failure and is nothing else. -/
theorem spoken_terminal (hs : c.Sound) {message : Envelope}
    (h : c.terminalMessage = some message) :
    ∃ b : Body, b.IsFailure ∧ Event.spoken (.nextMessage, .message (some message)) = [b] := by
  obtain ⟨-, b, rfl, hb⟩ := hs.terminal _ h
  refine ⟨b, ?_, Event.spoken_seal _ _⟩
  obtain ⟨error, rfl⟩ | ⟨f, rfl, -⟩ := hb
  · exact failureBody_isFailure _ _
  · trivial

theorem outBytes (h : Move c e c') (hs : c.Sound) : OutBytes c e c' := by
  have still : c'.error = c.error → c'.send = c.send → c'.endSent = c.endSent →
      e.accepted = [] → payloads e.spoken = [] → OutBytes c e c' := by
    intro herror hsend hend haccepted hspoken
    constructor
    · intro h
      exact ⟨herror ▸ h, by simp [hsend, haccepted, hspoken]⟩
    · intro h
      exact ⟨hsend.trans (hs.failed (herror ▸ h)).2.1, haccepted, hspoken, hend⟩
  have fails : c'.error ≠ none → c'.send = [] → c'.endSent = c.endSent →
      e.accepted = [] → payloads e.spoken = [] → OutBytes c e c' :=
    fun herror hsend hend haccepted hspoken =>
      ⟨fun h => absurd h herror, fun _ => ⟨hsend, haccepted, hspoken, hend⟩⟩
  cases h with
  | idle hsilent => exact still rfl rfl rfl hsilent.accepted (by rw [hsilent.spoken]; rfl)
  | completeClose hsilent => exact still rfl rfl rfl hsilent.accepted (by rw [hsilent.spoken]; rfl)
  | write hl => exact ⟨fun _ => ⟨hl.1, rfl⟩, fun h => absurd hl.1 h⟩
  | read => exact still rfl rfl rfl rfl (by simp [payloads])
  | fail hsilent =>
    exact fails (Option.some_ne_none _) rfl rfl hsilent.accepted (by rw [hsilent.spoken]; rfl)
  | overflow | failTerminal | disconnect | expire | refuse =>
    exact fails (Option.some_ne_none _) rfl rfl rfl rfl
  | sendTerminal hpending =>
    obtain ⟨b, hb, hspoken⟩ := spoken_terminal hs hpending
    refine still rfl rfl rfl rfl ?_
    rw [hspoken]
    cases b <;> first | rfl | exact hb.elim
  | sendFlushed | sendWindow | sendClosed | sendFlush | sendClose =>
    exact still rfl rfl rfl rfl (by rw [Event.spoken_seal]; rfl)
  | sendEnd hl =>
    refine ⟨fun _ => ⟨hl.1, ?_⟩, fun h => absurd hl.1 h⟩
    rw [Event.spoken_seal]
    simp [payloads, Event.accepted]
  | sendData hl hunsent =>
    refine ⟨fun _ => ⟨hl.1, ?_⟩, fun h => absurd hl.1 h⟩
    rw [Event.spoken_seal]
    simp [payloads, Event.accepted, Core.pushed]
  | @take _ b hl =>
    cases b with
    | closed x =>
      cases hx : x.failure with
      | some f =>
        have hafter := c.after_closed_failed hx
        exact fails (by simp [hafter, Core.failed]) (by rw [hafter]; rfl) (by simp) rfl rfl
      | none =>
        have hafter := c.after_closed_done hx
        exact still (by rw [hafter]) (by rw [hafter]) (by simp) rfl rfl
    | cancel x => exact fails (Option.some_ne_none _) rfl rfl rfl rfl
    | failed f => exact fails (Option.some_ne_none _) rfl rfl rfl rfl
    | _ => exact still rfl rfl rfl rfl rfl
  | _ => exact still rfl rfl rfl rfl rfl

theorem flushMove (h : Move c e c') (hs : c.Sound) : FlushMove c e c' := by
  have dies : ¬ c'.Live → e.spoken = [] → FlushMove c e c' := fun hdead hspoken =>
    .still (by simp [hspoken, flushes, answers]) fun hl => absurd hl hdead
  cases h with
  | idle hsilent =>
    exact .still (by simp [hsilent.spoken, flushes, answers]) fun hl =>
      ⟨hl, rfl, rfl, by rw [hsilent.taken]; rfl, by rw [hsilent.taken]; rfl⟩
  | completeClose hsilent =>
    exact .still (by simp [hsilent.spoken, flushes, answers]) fun hl =>
      ⟨hl, rfl, rfl, by rw [hsilent.taken]; rfl, by rw [hsilent.taken]; rfl⟩
  | read => exact .still (by simp [flushes, answers]) fun hl => ⟨hl, rfl, rfl, rfl, rfl⟩
  | flush hl hfree => exact .still ⟨rfl, rfl⟩ fun _ => ⟨hl, by rw [hfree]; rfl, rfl, rfl, rfl⟩
  | fail hsilent => exact dies (Core.not_live_failed _ _) hsilent.spoken
  | overflow | failTerminal | disconnect | expire | refuse =>
    exact dies (Core.not_live_failed _ _) rfl
  | hangUp hdead => exact dies hdead rfl
  | ignore hdead => exact dies hdead rfl
  | sendTerminal hpending =>
    obtain ⟨b, hb, hspoken⟩ := spoken_terminal hs hpending
    refine .still ?_ fun hl => absurd hl.1 (hs.terminal _ hpending).1
    rw [hspoken]
    cases b <;> first | exact ⟨rfl, rfl⟩ | exact hb.elim
  | @sendFlushed b hl hb hreached =>
    exact .answer b hl (Event.spoken_seal _ _) rfl hb rfl hreached rfl
  | sendClosed =>
    exact .still (by rw [Event.spoken_seal]; exact ⟨rfl, rfl⟩) fun hl => (nomatch hl.2)
  | @sendFlush f hl hf hunsent =>
    exact .ask ⟨f.id, f.offset⟩ hl (Event.spoken_seal _ _) rfl (by simp [inFlight, hf, hunsent])
      rfl rfl
  | sendWindow | sendData | sendEnd | sendClose =>
    exact .still (by rw [Event.spoken_seal]; exact ⟨rfl, rfl⟩) fun hl => ⟨hl, rfl, rfl, rfl, rfl⟩
  | @take message b hl good =>
    have htaken : Event.taken (.receive message, .done (.ok ())) = [b] := by
      simp [Event.taken, good.body]
    have ha := good.accepts
    cases b with
    | flush b => exact .asked b hl rfl htaken ha.1 rfl rfl
    | flushed b =>
      exact .settle b hl rfl htaken (by rw [show c.flush = _ from ha]; rfl) rfl rfl
    | closed x => exact dies (c.not_live_after_closed x) rfl
    | cancel x => exact dies (Core.not_live_failed _ _) rfl
    | failed f => exact dies (Core.not_live_failed _ _) rfl
    | _ => exact .still ⟨rfl, rfl⟩ fun _ => ⟨hl, rfl, rfl, by rw [htaken]; rfl, by rw [htaken]; rfl⟩
  | _ => exact .still ⟨rfl, rfl⟩ fun hl => ⟨hl, rfl, rfl, rfl, rfl⟩

/-- A `Closed` that is sent was prepared, and completes the sender. -/
theorem closed_spoken (h : Move c e c') (hs : c.Sound) {x : Closed}
    (hx : .closed x ∈ e.spoken) : c.closePending = some x ∧
      c'.completed = some ⟨x.disposition, x.unreadResponseDiscarded, x.facts⟩ := by
  cases h with
  | idle hsilent | completeClose hsilent | fail hsilent => simp [hsilent.spoken] at hx
  | read => simp at hx
  | sendTerminal hpending =>
    obtain ⟨b, hb, hspoken⟩ := spoken_terminal hs hpending
    rw [hspoken, List.mem_singleton] at hx
    rw [← hx] at hb
    exact hb.elim
  | sendClosed _ hpending =>
    rw [Event.spoken_seal, List.mem_singleton] at hx
    obtain rfl := Body.closed.inj hx
    exact ⟨hpending, rfl⟩
  | sendFlushed | sendWindow | sendFlush | sendData | sendEnd | sendClose =>
    rw [Event.spoken_seal, List.mem_singleton] at hx
    cases hx
  | _ => cases hx

theorem hearing (h : Move c e c') : Hearing c e c' := by
  cases h with
  | idle hsilent => exact .nothing hsilent.taken rfl id
  | completeClose hsilent => exact .nothing hsilent.taken rfl id
  | fail hsilent hl => exact .nothing hsilent.taken rfl fun _ => hl
  | overflow hl | failTerminal hl | disconnect hl | sendClosed hl =>
    exact .nothing rfl rfl fun _ => hl
  | ignore hdead => exact .wasted hdead rfl
  | expire => exact .wasted (Core.not_live_failed _ _) rfl
  | refuse => exact .wasted (Core.not_live_failed _ _) rfl
  | take hl good => exact .take _ (by simp [Event.taken, good.body]) hl good.accepts rfl
  | _ => exact .nothing rfl rfl id

theorem sinkOffset_le (h : Move c e c') (hs : c.Sound) : c.sinkOffset ≤ c'.sinkOffset := by
  have both : c'.config = c.config → c.received ≤ c'.received → c.consumed ≤ c'.consumed →
      c.sinkOffset ≤ c'.sinkOffset := fun hconfig hreceived hconsumed => by
    unfold Core.sinkOffset
    rw [hconfig]
    split_ifs <;> assumption
  cases h with
  | read => exact both rfl le_rfl (by simp [Core.read])
  | startClose => exact both rfl le_rfl (by simp)
  | @take _ b hl good =>
    refine both (Core.after_config _ _) ?_ ?_
    · cases b with
      | data d =>
        have := good.accepts.2.2.1
        simp only [Core.after]
        omega
      | closed x => unfold Core.after; dsimp only; split <;> exact le_rfl
      | _ => exact le_rfl
    · cases b with
      | data d =>
        have := good.accepts.2.2.1
        have := hs.inbound.balance
        simp only [Core.after]
        split_ifs <;> omega
      | closed x => unfold Core.after; dsimp only; split <;> exact le_rfl
      | _ => exact le_rfl
  | _ => exact both rfl le_rfl le_rfl

theorem heard_eq_taken (h : Move c e c') (hl : c'.Live) : e.heard = e.taken := by
  cases h with
  | idle hsilent | completeClose hsilent => rw [hsilent.heard, hsilent.taken]
  | fail => exact absurd hl (Core.not_live_failed _ _)
  | ignore hdead => exact absurd hl hdead
  | expire | refuse => exact absurd hl (Core.not_live_failed _ _)
  | _ => rfl

/-- The move that completes a machine takes no data. -/
theorem taken_of_completing (h : Move c e c') (hl : c.Live) (hdone : c'.completed ≠ none) :
    payloads e.taken = [] := by
  cases h with
  | idle hsilent => rw [hsilent.taken]; rfl
  | completeClose hsilent => rw [hsilent.taken]; rfl
  | fail hsilent => rw [hsilent.taken]; rfl
  | ignore hdead => exact absurd hl hdead
  | expire => exact absurd hl.2 hdone
  | refuse => exact absurd hl.2 hdone
  | @take message b _ good =>
    cases b with
    | closed x => simp [Event.taken, good.body, payloads]
    | _ => exact absurd hl.2 hdone
  | _ => rfl

theorem discarded_of_dead (h : Move c e c') (hdead : ¬ c.Live) : c'.discarded = c.discarded := by
  cases h with
  | startClose hl => exact absurd hl hdead
  | take hl => exact absurd hl hdead
  | _ => rfl

/-- An initiator completes by the `Closed` it takes. -/
theorem completing (h : Move c e c') (hs : c.Sound) (hl : c.Live)
    (hside : c.config.side = .initiator) {result : CloseResult}
    (hresult : c'.completed = some result) :
    c'.discarded = c.discarded ∧ ∃ x, e.taken = [.closed x] ∧
      result = ⟨x.disposition, c.discarded || x.unreadResponseDiscarded, x.facts⟩ := by
  cases h with
  | sendClosed _ hpending =>
    have hp := hs.close_pending (by simp [hpending])
    simp [(hs.close_received hp.1).1] at hside
  | @take message b _ good =>
    cases b with
    | closed x =>
      cases hx : x.failure with
      | some f =>
        rw [c.after_closed_failed hx] at hresult
        exact nomatch hl.2.symm.trans hresult
      | none =>
        rw [c.after_closed_done hx] at hresult ⊢
        exact ⟨rfl, x, by simp [Event.taken, good.body], (Option.some.inj hresult).symm⟩
    | _ => exact nomatch hl.2.symm.trans hresult
  | _ => exact nomatch hl.2.symm.trans hresult

/-- The bytes of a reader that has not failed and keeps its input: what it takes joins the buffer,
what it returns leaves it.  After completion nothing is taken any more. -/
theorem inBytes (h : Move c e c') (herror : c'.error = none) (hkeep : c'.discarding = false)
    (hlate : c.completed ≠ none → payloads e.taken = []) :
    c.error = none ∧ e.returned ++ c'.recv = c.recv ++ payloads e.taken := by
  by_cases hl' : c'.Live
  · obtain ⟨hl, -, hbytes⟩ := h.kept hl' hkeep
    exact ⟨hl.1, by rw [hbytes, h.heard_eq_taken hl']⟩
  · have hdone : c'.completed ≠ none := fun hc => hl' ⟨herror, hc⟩
    by_cases hl : c.Live
    · obtain ⟨hrecv, hreturned⟩ := h.dying hl hl'
      exact ⟨hl.1, by rw [hrecv, hreturned, h.taken_of_completing hl hdone]; simp⟩
    · obtain ⟨herror', hcompleted, hbytes⟩ := h.dead hl
      rw [hcompleted] at hdone
      exact ⟨herror'.symm.trans herror, by rw [hbytes, hlate hdone, List.append_nil]⟩

end Move

/-- The reader's knowledge follows what the writer said. -/
theorem Core.view_after {k : Config} {c : Core} {b : Body} {v : Wire}
    (h : Wire.Next k c.view b v) : (c.after b).view = { v with finished := false } := by
  cases h with
  | data _ _ hoffset => simp only [Core.after, Core.view, hoffset]
  | window _ hup =>
    have hup : c.peerLimit ≤ _ := hup.le
    simp only [Core.after, Core.view, max_eq_right hup]
  | closed => unfold Core.after; dsimp only; split <;> rfl
  | failure _ hb => cases b <;> first | rfl | exact hb.elim
  | _ => rfl

theorem Core.view_after_live {k : Config} {c : Core} {b : Body} {v : Wire}
    (h : Wire.Next k c.view b v) (hl : (c.after b).Live) : (c.after b).view = v := by
  rw [Core.view_after h]
  cases h with
  | closed => exact absurd hl (Core.not_live_after_closed _ _)
  | failure _ hb =>
    cases b <;> first | exact hb.elim | exact absurd hl (Core.not_live_failed _ _)
  | _ => rfl

/-! ### The link -/

/-- What holds between a writer `w` and a reader `r` with `c` on its way to the reader and `d` on
its way back, after the writer accepted `acc` and the reader returned `ret`. -/
structure Link (w r : Core) (c d : List Body) (acc ret : List UInt8) : Prop where
  flow : r.Live → ∃ v, Run (Wire.Next w.config) r.view c v ∧ Says w v
  received_le : r.received ≤ w.sent
  granted : w.peerLimit ≤ r.advertisedLimit
  ended : r.endReceived = true → w.endSent = true ∧ r.received = w.sent ∧ payloads c = []
  closed : r.closeReceived = true → w.closeSent = true
  tokens : w.Live → r.Live →
    flushes c ++ r.peerFlush.toList ++ answers d = (inFlight w.flush).toList
  asked : r.Live → (flushes c ++ r.peerFlush.toList).length ≤ 1
  answered : w.Live → answers d = [] ∨ answers d = (inFlight w.flush).toList
  reached : ∀ b ∈ answers d, b.offset ≤ r.sinkOffset
  bytes : r.error = none → r.discarding = false →
    ∃ lost, ret ++ r.recv ++ payloads c ++ w.send ++ lost = acc ∧
      (w.error = none ∨ w.endSent = true → lost = [])
  front : r.discarding = false → ret ++ r.recv <+: acc
  closing : ∀ x, .closed x ∈ c → r.closeSent = true ∧ x.unreadResponseDiscarded = false ∧
    w.completed = some ⟨x.disposition, x.unreadResponseDiscarded, x.facts⟩
  agreed : r.config.side = .initiator → ∀ result, r.completed = some result →
    ∃ result', w.completed = some result' ∧ result.disposition = result'.disposition ∧
      result.facts = result'.facts ∧ result.unreadResponseDiscarded = r.discarded

namespace Link

variable {w w' r r' : Core} {c c' d d' : List Body} {acc ret acc' ret' : List UInt8} {e : Event}

/-- The writer moves. -/
theorem writer (hL : Link w r c d acc ret) (hR : Link r w d c acc' ret') (hs : w.Sound)
    (h : Move w e w') (hd : d = e.taken ++ d') :
    Link w' r (c ++ e.spoken) d' (acc ++ e.accepted) ret where
  flow hl := by
    obtain ⟨v, hrun, hv⟩ := hL.flow hl
    obtain ⟨v', hrun', hv'⟩ := hv.move hs h
    rw [h.config_eq]
    exact ⟨v', hrun.append hrun', hv'⟩
  received_le := hL.received_le.trans h.sent_le
  granted := by
    obtain hsame | ⟨hl, x, hx, hlimit⟩ := h.peerLimit_cases
    · rw [hsame]; exact hL.granted
    · -- the window was on its way, so the reader has advertised it
      obtain ⟨v, hrun, hv⟩ := hR.flow hl
      rw [hd, hx] at hrun
      obtain ⟨v₁, hnext, hrest⟩ := hrun.uncons
      have hle := (Wire.le_of_run hrest).limit
      have hx : x.maxOffset ≤ r.advertisedLimit := by
        rw [← hv.limit]
        cases hnext with
        | window => exact hle
        | failure _ hb => exact hb.elim
      rw [hlimit]
      exact max_le hL.granted hx
  ended hr := by
    obtain ⟨hend, hreceived, hc⟩ := hL.ended hr
    obtain ⟨hsent, hspoken⟩ := h.sent_of_endSent hs hend
    exact ⟨h.endSent_of hend, hreceived.trans hsent.symm, by simp [hc, hspoken]⟩
  closed hr := h.closeSent_of (hL.closed hr)
  tokens hl hr := by
    have hsplit : answers d = answers e.taken ++ answers d' := by rw [hd, answers_append]
    cases h.flushMove hs with
    | still said kept =>
      obtain ⟨hw, hflight, -, -, hquiet⟩ := kept hl
      rw [flushes_append, said.1, hflight, ← hL.tokens hw hr, hsplit, hquiet]
      simp
    | ask b hw said quiet before after =>
      have htokens := hL.tokens hw hr
      rw [before, hsplit, quiet] at htokens
      simp only [Option.toList_none, List.append_eq_nil_iff] at htokens
      obtain ⟨⟨hc, hpeer⟩, -, hd'⟩ := htokens
      simp [hc, hpeer, hd', said, after]
    | settle b hw quiet got before after =>
      have htokens := hL.tokens hw hr
      rw [before, hsplit, got] at htokens
      have hlen := congrArg List.length htokens
      simp only [answers_flushed, List.length_append, Option.toList_some, List.length_singleton]
        at hlen
      simp [List.eq_nil_of_length_eq_zero (show (flushes c).length = 0 by omega),
        List.eq_nil_of_length_eq_zero (show r.peerFlush.toList.length = 0 by omega),
        List.eq_nil_of_length_eq_zero (show (answers d').length = 0 by omega), quiet, after]
    | asked b hw quiet got _ _ other =>
      rw [other, ← hL.tokens hw hr, hsplit, got, quiet]
      simp
    | answer b hw said quiet _ _ _ other =>
      rw [other, ← hL.tokens hw hr, hsplit, quiet, said]
      simp
  asked hr := by
    have hasked := hL.asked hr
    cases h.flushMove hs with
    | still said => simpa [said.1] using hasked
    | ask b hw said _ before =>
      have htokens := hL.tokens hw hr
      rw [before] at htokens
      simp only [Option.toList_none, List.append_eq_nil_iff] at htokens
      simp [htokens.1.1, htokens.1.2, said]
    | settle b hw quiet => simpa [quiet] using hasked
    | asked b hw quiet => simpa [quiet] using hasked
    | answer b hw said => simpa [said] using hasked
  answered hl := by
    have hsplit : answers d = answers e.taken ++ answers d' := by rw [hd, answers_append]
    cases h.flushMove hs with
    | still _ kept =>
      obtain ⟨hw, hflight, -, -, hquiet⟩ := kept hl
      rw [hflight]
      simpa [hsplit, hquiet] using hL.answered hw
    | ask b hw _ quiet before =>
      have hd := hL.answered hw
      rw [before, hsplit, quiet] at hd
      exact .inl (by simpa using hd)
    | settle b hw _ got before =>
      have hd := hL.answered hw
      rw [before, hsplit, got] at hd
      exact .inl (by simpa using hd)
    | asked b hw _ got _ _ other =>
      rw [other]
      simpa [hsplit, got] using hL.answered hw
    | answer b hw _ quiet _ _ _ other =>
      rw [other]
      simpa [hsplit, quiet] using hL.answered hw
  reached b hb := hL.reached b (by rw [hd, answers_append]; exact List.mem_append_right _ hb)
  bytes hr hkeep := by
    obtain ⟨lost, hacc, hlost⟩ := hL.bytes hr hkeep
    have hout := h.outBytes hs
    by_cases hw : w'.error = none
    · obtain ⟨hw', hbytes⟩ := hout.kept hw
      obtain rfl := hlost (.inl hw')
      refine ⟨[], ?_, fun _ => rfl⟩
      rw [← hacc]
      simp only [payloads_append, List.append_nil, List.append_assoc, hbytes]
    · obtain ⟨hsend, haccepted, hspoken, hend⟩ := hout.dropped hw
      refine ⟨w.send ++ lost, ?_, fun hwhy => ?_⟩
      · rw [← hacc]
        simp [hsend, haccepted, hspoken]
      · have hended := hend ▸ hwhy.resolve_left hw
        simp [(hs.end_sent hended).2.1, hlost (.inr hended)]
  front hkeep := (hL.front hkeep).trans (List.prefix_append _ _)
  closing x hx := by
    rw [List.mem_append] at hx
    obtain hx | hx := hx
    · obtain ⟨hsent, hunread, hdone⟩ := hL.closing x hx
      refine ⟨hsent, hunread, ?_⟩
      rw [(h.dead fun hl => nomatch hdone.symm.trans hl.2).2.1, hdone]
    · obtain ⟨hpending, hdone⟩ := h.closed_spoken hs hx
      have hp := hs.close_pending (by simp [hpending])
      have hunread : w.discarded = false := by
        by_contra hdisc
        have hside := (hs.discarding (hs.discarded (by simpa using hdisc))).1
        simp [(hs.close_received hp.1).1] at hside
      exact ⟨hR.closed hp.1, (hs.close_admitted x hpending).1.trans hunread, hdone⟩
  agreed hside result hresult := by
    obtain ⟨result', hdone, hrest⟩ := hL.agreed hside result hresult
    refine ⟨result', ?_, hrest⟩
    rw [(h.dead fun hl => nomatch hdone.symm.trans hl.2).2.1, hdone]

/-- A body that the reader takes is the next thing the writer said. -/
theorem next_of_take (hL : Link w r c d acc ret) (hl : r.Live) {b : Body} (hc : c = b :: c') :
    ∃ v₁ v, Wire.Next w.config r.view b v₁ ∧ Run (Wire.Next w.config) v₁ c' v ∧ Says w v := by
  obtain ⟨v, hrun, hv⟩ := hL.flow hl
  rw [hc] at hrun
  obtain ⟨v₁, hnext, hrest⟩ := hrun.uncons
  exact ⟨v₁, v, hnext, hrest, hv⟩

theorem reader_bytes (hL : Link w r c d acc ret) (hs : r.Sound) (h : Move r e r')
    (hc : c = e.taken ++ c') (hr : r'.error = none) (hkeep : r'.discarding = false) :
    ∃ lost, ret ++ e.returned ++ r'.recv ++ payloads c' ++ w.send ++ lost = acc ∧
      (w.error = none ∨ w.endSent = true → lost = []) := by
  have hlate : r.completed ≠ none → payloads e.taken = [] := fun hdone => by
    have hbytes := (hL.ended (hs.completed hdone).2.1).2.2
    rw [hc, payloads_append, List.append_eq_nil_iff] at hbytes
    exact hbytes.1
  obtain ⟨herror, hbytes⟩ := h.inBytes hr hkeep hlate
  obtain ⟨lost, hacc, hlost⟩ := hL.bytes herror (h.discarding_eq_false hkeep)
  refine ⟨lost, ?_, hlost⟩
  rw [← hacc, hc, payloads_append, List.append_assoc ret, hbytes]
  simp only [List.append_assoc]

/-- The reader moves. -/
theorem reader (hL : Link w r c d acc ret) (hs : r.Sound) (h : Move r e r')
    (hc : c = e.taken ++ c') : Link w r' c' (d ++ e.spoken) acc (ret ++ e.returned) where
  flow hl := by
    cases h.hearing with
    | nothing quiet same live =>
      rw [same]
      simpa [hc, quiet] using hL.flow (live hl)
    | take b got live accepts after =>
      obtain ⟨v₁, v, hnext, hrest, hv⟩ := hL.next_of_take live (by rw [hc, got]; rfl)
      rw [after] at hl ⊢
      rw [Core.view_after_live hnext hl]
      exact ⟨v, hrest, hv⟩
    | wasted dead => exact absurd hl dead
  received_le := by
    cases h.hearing with
    | nothing _ same => exact (congrArg Wire.offset same).trans_le hL.received_le
    | take b got live accepts after =>
      obtain ⟨v₁, v, hnext, hrest, hv⟩ := hL.next_of_take live (by rw [hc, got]; rfl)
      have hoffset : r'.received = v₁.offset := by
        rw [after]
        exact congrArg Wire.offset (Core.view_after hnext)
      rw [hoffset, ← hv.offset]
      exact (Wire.le_of_run hrest).offset
    | wasted _ same => exact (congrArg Wire.offset same).trans_le hL.received_le
  granted := hL.granted.trans h.advertisedLimit_le
  ended hr := by
    have old : r'.view = r.view → w.endSent = true ∧ r'.received = w.sent ∧ payloads c' = [] := by
      intro same
      obtain ⟨hend, hreceived, hbytes⟩ :=
        hL.ended ((congrArg Wire.ended same).symm.trans hr)
      rw [hc, payloads_append, List.append_eq_nil_iff] at hbytes
      exact ⟨hend, (congrArg Wire.offset same).trans hreceived, hbytes.2⟩
    cases h.hearing with
    | nothing _ same => exact old same
    | take b got live accepts after =>
      obtain ⟨v₁, v, hnext, hrest, hv⟩ := hL.next_of_take live (by rw [hc, got]; rfl)
      have hview := Core.view_after hnext
      rw [← after] at hview
      have hv₁ : v₁.ended = true := (congrArg Wire.ended hview).symm.trans hr
      obtain ⟨hend, hoffset⟩ := (Wire.le_of_run hrest).ended hv₁
      refine ⟨hv.ended.symm.trans hend, ?_, payloads_of_ended hrest hv₁⟩
      exact (congrArg Wire.offset hview).trans (hoffset.symm.trans hv.offset)
    | wasted _ same => exact old same
  closed hr := by
    cases h.hearing with
    | nothing _ same => exact hL.closed ((congrArg Wire.closed same).symm.trans hr)
    | take b got live accepts after =>
      obtain ⟨v₁, v, hnext, hrest, hv⟩ := hL.next_of_take live (by rw [hc, got]; rfl)
      have hview := Core.view_after hnext
      rw [← after] at hview
      have hv₁ : v₁.closed = true := (congrArg Wire.closed hview).symm.trans hr
      exact hv.closed.symm.trans ((Wire.le_of_run hrest).closed hv₁)
    | wasted _ same => exact hL.closed ((congrArg Wire.closed same).symm.trans hr)
  tokens hw hl := by
    have hsplit : flushes c = flushes e.taken ++ flushes c' := by rw [hc, flushes_append]
    cases h.flushMove hs with
    | still said kept =>
      obtain ⟨hl, -, hpeer, hquiet, -⟩ := kept hl
      rw [answers_append, said.2, hpeer, ← hL.tokens hw hl, hsplit, hquiet]
      simp
    | asked b hr quiet got before after =>
      -- at most one flush is with the reader, so none is behind the one that arrives
      have hone := hL.asked hr
      simp only [hsplit, got, before, flushes_flush, Option.toList_none, List.length_append,
        List.length_singleton, List.length_nil] at hone
      have hc' : flushes c' = [] := List.eq_nil_of_length_eq_zero (by omega)
      rw [← hL.tokens hw hr]
      simp [hsplit, got, hc', before, after, quiet]
    | answer b hr said quiet before after =>
      have hone := hL.tokens hw hr
      rw [← hone, hsplit, before]
      have hlen := congrArg List.length hone
      have hle : (inFlight w.flush).toList.length ≤ 1 := Option.length_toList_le
      simp only [hsplit, before, List.length_append, Option.toList_some, List.length_singleton]
        at hlen
      simp [quiet, said, after, List.eq_nil_of_length_eq_zero
        (show (answers d).length = 0 by omega)]
    | ask b hr said quiet _ _ other =>
      rw [other, ← hL.tokens hw hr, hsplit, quiet, said]
      simp
    | settle b hr quiet got _ _ other =>
      rw [other, ← hL.tokens hw hr, hsplit, quiet, got]
      simp
  asked hl := by
    have hsplit : flushes c = flushes e.taken ++ flushes c' := by rw [hc, flushes_append]
    cases h.flushMove hs with
    | still _ kept =>
      obtain ⟨hl, -, hpeer, hquiet, -⟩ := kept hl
      simpa [hpeer, hsplit, hquiet] using hL.asked hl
    | asked b hr _ got before after =>
      simpa [after, hsplit, got, before] using hL.asked hr
    | answer b hr _ quiet before after =>
      have := hL.asked hr
      simp only [hsplit, quiet, before, flushes_nil, List.nil_append, List.length_append,
        Option.toList_some, List.length_singleton] at this
      simp only [after, Option.toList_none, List.append_nil]
      omega
    | ask b hr _ quiet _ _ other => simpa [other, hsplit, quiet] using hL.asked hr
    | settle b hr _ got _ _ other => simpa [other, hsplit, got] using hL.asked hr
  answered hw := by
    cases h.flushMove hs with
    | still said => simpa [said.2] using hL.answered hw
    | answer b hr said _ before =>
      have hone := hL.tokens hw hr
      have hlen := congrArg List.length hone
      have hle : (inFlight w.flush).toList.length ≤ 1 := Option.length_toList_le
      simp only [before, List.length_append, Option.toList_some, List.length_singleton] at hlen
      have hc : flushes c = [] := List.eq_nil_of_length_eq_zero (by omega)
      have hd : answers d = [] := List.eq_nil_of_length_eq_zero (by omega)
      right
      rw [← hone]
      simp [hc, hd, before, said]
    | ask b hr said => simpa [said] using hL.answered hw
    | settle b hr quiet => simpa [quiet] using hL.answered hw
    | asked b hr quiet => simpa [quiet] using hL.answered hw
  reached b hb := by
    rw [answers_append, List.mem_append] at hb
    refine le_trans ?_ (h.sinkOffset_le hs)
    obtain hb | hb := hb
    · exact hL.reached b hb
    · cases h.flushMove hs with
      | still said => simp [said.2] at hb
      | answer b' _ said _ _ _ reached =>
        rw [said, answers_flushed, List.mem_singleton] at hb
        exact hb ▸ reached
      | ask b' _ said => simp [said] at hb
      | settle b' _ quiet => simp [quiet] at hb
      | asked b' _ quiet => simp [quiet] at hb
  bytes := hL.reader_bytes hs h hc
  front hkeep := by
    have hkeep' := h.discarding_eq_false hkeep
    by_cases hr : r'.error = none
    · obtain ⟨lost, hacc, -⟩ := hL.reader_bytes hs h hc hr hkeep
      exact ⟨payloads c' ++ w.send ++ lost, by rw [← hacc]; simp only [List.append_assoc]⟩
    · have hsame : e.returned ++ r'.recv = r.recv := by
        by_cases hl : r.Live
        · obtain ⟨hrecv, hreturned⟩ := h.dying hl fun hl' => hr hl'.1
          rw [hrecv, hreturned, List.nil_append]
        · exact (h.dead hl).2.2
      rw [List.append_assoc, hsame]
      exact hL.front hkeep'
  closing x hx := by
    obtain ⟨hsent, hrest⟩ := hL.closing x (by rw [hc]; exact List.mem_append_right _ hx)
    exact ⟨h.closeSent_of hsent, hrest⟩
  agreed hside result hresult := by
    rw [h.config_eq] at hside
    by_cases hl : r.Live
    · obtain ⟨hdiscarded, x, htaken, rfl⟩ := h.completing hs hl hside hresult
      obtain ⟨-, hunread, hdone⟩ := hL.closing x (by rw [hc, htaken]; simp)
      exact ⟨_, hdone, rfl, rfl, by rw [hdiscarded, hunread, Bool.or_false]⟩
    · rw [(h.dead hl).2.1] at hresult
      rw [h.discarded_of_dead hl]
      exact hL.agreed hside result hresult

end Link

end GwzTransport.Stream
