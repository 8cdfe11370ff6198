import GwzTransport.Pool.Answers
import GwzTransport.Pool.Timely

/-!
# What the calls of the adapter and of the clock show

The second half of the lemmas of `Answers`: `connected` with its setup clock, the end of idle
connections and of the pool, `next_action`, the clocks of an opening connection, the host's
numbers, and `advance`.  `connected` relies on `Timely`: a connect that is acknowledged has not
missed its request's deadline, or `advance` would have cancelled it.
-/

namespace GwzTransport.Pool

open Protocol MachineInt Transition

namespace PoolMachine

variable {m m' : PoolMachine} {r : RequestId} {c : ConnectionId} {p : Pending} {e : Entry}
  {o : Opening}

/-! ### The end of a connect -/

theorem Owned.request_of_opening (h : Owned m) (hc : m.entries.get? c = some e)
    (he : e.state = .opening o) (ho : o.request = some r) :
    ∃ p, m.requests.get? r = some p ∧ p.state = .opening c := by
  have htie : e.tie = some (r, none, e.owner) := by simp [Entry.tie, he, ho]
  have ht := h.matching.target_of_holder ((holders_of_get hc).trans htie)
  obtain ⟨p, hr, hp⟩ := Option.bind_eq_some_iff.1 ht
  refine ⟨p, hr, ?_⟩
  cases hs : p.state <;> simp_all [Pending.tie]

/-- The request of an opening connection is told of its failure. -/
theorem Owned.answer_eq (h : Owned m) (hc : m.entries.get? c = some e) (he : e.state = .opening o)
    (ho : o.request = some r) (error : Error) :
    ∃ p, m.requests.get? r = some p ∧
      m.answer o.request error = m.requests.insert r { p with state := .failed error } := by
  obtain ⟨p, hr, -⟩ := h.request_of_opening hc he ho
  exact ⟨p, hr, by simp [answer, ho, hr]⟩

theorem connectedErr_move (h : Owned m) (hc : m.entries.get? c = some e)
    (he : e.state = .opening o) (hclock : o.clock.isSome = true) (failure : Failure) :
    ∃ t, m.connectedErr c o failure = some t ∧
      Move m (some (.event c (.connected false))) t := by
  have hv := fun error => Move.connectedErr hc he hclock error m.requests o.cancel.isSome m.revision
  unfold connectedErr
  rw [dispose_eq hc]
  cases ho : o.request with
  | none =>
    refine ⟨_, rfl, ?_⟩
    have := hv .cancelled
    rwa [show m.answer o.request .cancelled = m.requests by rw [ho]; rfl] at this
  | some r =>
    obtain ⟨p, hr, ha⟩ := h.answer_eq hc he ho
      (.connectFailed failure.code failure.effect failure.setupCause)
    simp only [setRequestState, hr, Option.bind_eq_bind, Option.bind_some, Option.pure_def]
    refine ⟨_, rfl, ?_⟩
    have := hv (.connectFailed failure.code failure.effect failure.setupCause)
    rwa [ha] at this

/-- After a successful connect the connection closes again, or it is reusable exactly if the
connect proved its identity. -/
def Proven (m : PoolMachine) (c : ConnectionId) (result : Except Failure (Option Identity)) :
    Prop :=
  ∀ proof e, result = .ok proof → m.entries.get? c = some e →
    e.state.isClosing = true ∨ e.reusable = proof.isSome

theorem Proven.of_shut {entries : SortedMap ConnectionId Entry} {reason : CloseReason}
    {deadline : ℕ} {result : Except Failure (Option Identity)}
    (h : m.entries = entries.insert c (e.shut reason deadline)) : Proven m c result := by
  intro proof x _ hx
  rw [h, SortedMap.get?_insert_self] at hx
  cases hx
  exact .inl rfl

theorem Proven.of_error (failure : Failure) : Proven m c (.error failure) := by
  intro proof x h
  cases h

/-- A connect that came too late, or under another identity: its request, if it still has one,
fails, and the connection closes at once. -/
theorem refuse_move (h : Owned m) (hc : m.entries.get? c = some e) (he : e.state = .opening o)
    (hclock : o.clock.isSome = true) (ho : o.request = some r) (error : Error)
    (reason : CloseReason) (result : Except Failure (Option Identity)) :
    ∃ t, ((m.setRequestState r (.failed error)).bind fun m => m.startClosing c reason) = some t ∧
      Move m (some (.event c (.connected true))) t ∧ Proven t c result := by
  have hopen : e.state.isClosing = false := by rw [he]; rfl
  obtain ⟨p, hr, ha⟩ := h.answer_eq hc he ho error
  simp only [setRequestState, hr, Option.bind_eq_bind, Option.bind_some, Option.pure_def]
  have hc' : (m.putRequest r { p with state := .failed error }).entries.get? c = some e := hc
  refine ⟨_, startClosing_eq hc' hopen reason, ?_, .of_shut rfl⟩
  have hv := Move.connectedClosing hc he hclock error reason (m.cleanupDeadline e) m.touch.revision
  rwa [ha] at hv

theorem closeLate_move (hc : m.entries.get? c = some e) (he : e.state = .opening o)
    (hclock : o.clock.isSome = true) (ho : o.request = none) (reason : CloseReason)
    (result : Except Failure (Option Identity)) :
    ∃ t, m.startClosing c reason = some t ∧ Move m (some (.event c (.connected true))) t ∧
      Proven t c result := by
  refine ⟨_, startClosing_eq hc (by rw [he]; rfl) reason, ?_, .of_shut rfl⟩
  have hv := Move.connectedClosing hc he hclock .cancelled reason (m.cleanupDeadline e)
    m.touch.revision
  rwa [show m.answer o.request .cancelled = m.requests by rw [ho]; rfl] at hv

theorem connectedOk_move (h : Owned m) (hc : m.entries.get? c = some e)
    (he : e.state = .opening o) (hclock : o.clock.isSome = true) (proof : Option Identity) :
    ∃ t, m.connectedOk c e o proof = some t ∧ Move m (some (.event c (.connected true))) t ∧
      Proven t c (.ok proof) := by
  have hok := h.entry_ok c e hc
  unfold connectedOk
  extract_lets cancelled mismatch
  rcases ho : o.request with _ | r
  · -- a connection without a request is a cancelled one
    have hcancel : cancelled = true := by
      simp only [Entry.Ok, he, ho, Option.isSome_none, Bool.false_eq_true, false_and, true_and,
        false_or] at hok
      exact hok.1
    rw [if_pos (by rw [hcancel]; rfl)]
    exact closeLate_move hc he hclock ho _ _
  · obtain ⟨p, hr, -⟩ := h.request_of_opening hc he ho
    split_ifs
    · exact refuse_move h hc he hclock ho .identityMismatch _ _
    · simp only [Option.bind_eq_bind, Option.bind_some, leaseId]
      split_ifs
      · simp only [hc, setRequestState, putEntry, hr, Option.bind_eq_bind, Option.bind_some,
          Option.pure_def]
        refine ⟨_, rfl, .connectedReady hr hc he ho hclock proof.isSome m.revision, ?_⟩
        intro proof' x hproof hx
        cases hproof
        cases (SortedMap.get?_insert_self _ _ _).symm.trans hx
        exact .inr rfl
      · exact refuse_move h hc he hclock ho .capacity .discarded _

/-- A connect that ends with its setup clock. -/
theorem connectedEnded_move (h : Owned m) (hc : m.entries.get? c = some e)
    (he : e.state = .opening o) (hclock : o.clock.isSome = true) (record : SetupTerminal)
    (result : Except Failure (Option Identity)) :
    ∃ t, m.connectedEnded c record (!result.isOk) = t.schedule ∧
      Move m (some (.event c (.connected result.isOk))) t ∧ Proven t c result := by
  unfold connectedEnded
  simp only [hc, Option.map_some, he]
  rcases ho : o.request with _ | r
  · cases result with
    | error failure =>
      refine ⟨_, rfl, ?_, .of_error failure⟩
      rw [dispose_eq hc]
      have hv := Move.connectedErr hc he hclock .cancelled m.requests (m.cancelledConnect c)
        m.revision
      rwa [show m.answer o.request .cancelled = m.requests by rw [ho]; rfl] at hv
    | ok proof =>
      obtain ⟨t, ht, hv⟩ := closeLate_move hc he hclock ho .cancelled (.ok proof)
      exact ⟨t, by simp [ht, Except.isOk, Except.toBool], hv⟩
  · obtain ⟨p, hr, ha⟩ := h.answer_eq hc he ho (.setupEnded record)
    cases result with
    | error failure =>
      have hc' : (m.putRequest r { p with state := .failed (.setupEnded record) }).entries.get? c =
        some e := hc
      simp only [setRequestState, hr, Option.bind_eq_bind, Option.bind_some, Option.pure_def]
      refine ⟨_, rfl, ?_, .of_error failure⟩
      have hv := Move.connectedErr hc he hclock (.setupEnded record)
        (m.requests.insert r { p with state := .failed (.setupEnded record) })
        (m.cancelledConnect c) m.revision
      rw [dispose_eq hc']
      rw [ha] at hv
      exact hv
    | ok proof =>
      obtain ⟨t, ht, hv⟩ := refuse_move h hc he hclock ho (.setupEnded record) .cancelled
        (.ok proof)
      refine ⟨t, ?_, hv⟩
      rw [← Option.bind_some (f := schedule), ← ht, Option.bind_assoc]
      rfl

/-- The branch of `connected` that cancels an expired opening is never taken. -/
theorem Timely.not_late (h : Timely m) {k : ConnectClock} (hc : m.entries.get? c = some e)
    (he : e.state = .opening o) (hk : o.clock = some k) (hs : k.isShared = false) :
    ((o.request.bind m.requests.get?).bind (·.absoluteDeadline)).any
      (fun time => decide (m.now ≥ time)) = false := by
  rw [Option.any_eq_false]
  rintro a ha
  obtain ⟨p, hp, ha⟩ := Option.bind_eq_some_iff.1 ha
  obtain ⟨r, ho, hr⟩ := Option.bind_eq_some_iff.1 hp
  have hclock := (h r p hr a ha).2.2 c e o hc he ho
  rw [hk] at hclock
  rcases hclock with hshared | ⟨hearly, -⟩
  · rw [hs] at hshared
    cases hshared
  · simpa using hearly

/-- What `connected` does past the setup clock: refuses, or ends the opening. -/
theorem connectedOpening_cases (h : Owned m) (result : Except Failure (Option Identity))
    (shared : Bool) (hlate : shared = false → ∀ e o, m.entries.get? c = some e →
      e.state = .opening o → o.clock.isSome = true →
      ((o.request.bind m.requests.get?).bind (·.absoluteDeadline)).any
        (fun time => decide (m.now ≥ time)) = false) :
    (∃ error, m.connectedOpening c result shared = some (m, .error error) ∧
      ∀ e o, m.entries.get? c = some e → e.state = .opening o → o.clock = none) ∨
      ∃ v t, m.connectedOpening c result shared = some (t, .ok ()) ∧
        Move m (some (.event c (.connected result.isOk))) v ∧ Proven v c result ∧
        Rescheduled v t := by
  unfold connectedOpening
  cases hc : m.entries.get? c with
  | none => exact .inl ⟨_, rfl, fun _ _ hc => (by cases hc)⟩
  | some e =>
    dsimp only
    cases he : e.state with
    | opening o =>
      dsimp only
      cases hk : o.clock with
      | none =>
        refine .inl ⟨_, rfl, fun e' o' hc' he' => ?_⟩
        cases hc'
        cases he.symm.trans he'
        exact hk
      | some k =>
        right
        have hclock : o.clock.isSome = true := by rw [hk]; rfl
        have hif : (!shared && ((o.request.bind m.requests.get?).bind (·.absoluteDeadline)).any
            fun time => decide (m.now ≥ time)) = false := by
          cases shared with
          | true => rfl
          | false => exact hlate rfl e o hc he hclock
        simp only [hif, Bool.false_eq_true, if_false]
        cases result with
        | error failure =>
          obtain ⟨v, ht, hv⟩ := connectedErr_move h hc he hclock failure
          obtain ⟨t, hu, hw⟩ := exists_rescheduled _
          refine ⟨v, t, ?_, hv, .of_error failure, hw⟩
          simpa only [ht, Option.bind_eq_bind, Option.bind_some, Option.pure_def] using hu
        | ok proof =>
          obtain ⟨v, ht, hv, hproven⟩ := connectedOk_move h hc he hclock proof
          obtain ⟨t, hu, hw⟩ := exists_rescheduled _
          refine ⟨v, t, ?_, hv, hproven, hw⟩
          simpa only [ht, Option.bind_eq_bind, Option.bind_some, Option.pure_def] using hu
    | _ =>
      refine .inl ⟨_, rfl, fun e' o' hc' he' => ?_⟩
      cases hc'
      cases he.symm.trans he'

theorem Timely.not_late_unshared (ht : Timely m)
    (hshared : ∀ e clock, m.entries.get? c = some e → m.sharedSetupClock c ≠ some clock) :
    ∀ e o, m.entries.get? c = some e → e.state = .opening o → o.clock.isSome = true →
      ((o.request.bind m.requests.get?).bind (·.absoluteDeadline)).any
        (fun time => decide (m.now ≥ time)) = false := by
  intro e o hc he hclock
  obtain ⟨k, hk⟩ := Option.isSome_iff_exists.1 hclock
  refine ht.not_late hc he hk ?_
  cases k with
  | shared clock => exact absurd (sharedSetupClock_of_shared hc he hk) (hshared e clock hc)
  | _ => rfl

/-- `connected` is refused and changes nothing, or it tells the shared clock, ends the opening and
serves waiting requests after that. -/
theorem connected_cases (h : Owned m) (ht : Timely m) (c : ConnectionId)
    (result : Except Failure (Option Identity)) :
    (∃ error, m.connected c result = some (m, .error error)) ∨
      ∃ u v t, m.connected c result = some (t, .ok ()) ∧
        (Weak Move m [] u ∧ (u = m ∨ ∃ clock, u = m.putConnectClock c (.shared clock))) ∧
        Move u (some (.event c (.connected result.isOk))) v ∧
        Proven v c result ∧ Rescheduled v t := by
  unfold connected
  split
  · rename_i e clock hc hclock
    obtain ⟨e, o, hc', he, hk⟩ := sharedSetupClock_eq_some hclock
    cases hc.symm.trans hc'
    obtain ⟨clock', record⟩ := completeSetup clock e.identity result
    -- the shared clock is told first
    have hv : Weak Move m [] (m.putConnectClock c (.shared clock')) := by
      rw [putConnectClock_eq hc he]
      exact .silent (.clock hc he hk _ (.inl rfl) o.interactionMs m.revision)
    have h' : Owned (m.putConnectClock c (.shared clock')) := Guard.inv_weak (g := total) hv h
    have hput : (m.putConnectClock c (.shared clock')).entries.get? c =
        some { e with state := .opening { o with clock := some (.shared clock') } } := by
      rw [putConnectClock_eq hc he]
      exact SortedMap.get?_insert_self _ _ _
    simp only
    split_ifs with hend
    · obtain ⟨v, hx, hmove, hproven⟩ := connectedEnded_move h' hput rfl rfl record result
      obtain ⟨t, hu, hw⟩ := exists_rescheduled _
      refine .inr ⟨_, v, t, ?_, ⟨hv, .inr ⟨clock', rfl⟩⟩, hmove, hproven, hw⟩
      simp only [hx, Option.bind_eq_bind, Option.pure_def]
      exact hu
    · rcases connectedOpening_cases h' result true (fun h => (by cases h)) with
        ⟨error, -, hno⟩ | ⟨v, t, hx, hmove, hproven, hw⟩
      · cases hno _ _ hput rfl
      · exact .inr ⟨_, v, t, hx, ⟨hv, .inr ⟨clock', rfl⟩⟩, hmove, hproven, hw⟩
  · rename_i hshared
    rcases connectedOpening_cases h result false fun _ => ht.not_late_unshared hshared with
      ⟨error, hx, -⟩ | ⟨v, t, hx, hmove, hproven, hw⟩
    · exact .inl ⟨error, hx⟩
    · exact .inr ⟨m, v, t, hx, ⟨.refl m, .inl rfl⟩, hmove, hproven, hw⟩

theorem connected_answers (h : Owned m) (ht : Timely m) (c : ConnectionId)
    (result : Except Failure (Option Identity)) :
    Answers m (.connected c result) ((m.connected c result).map fun x => (x.1, .replied x.2)) := by
  rcases connected_cases h ht c result with
    ⟨error, hx⟩ | ⟨u, v, t, hx, ⟨hw, -⟩, hv, -, hw'⟩
  · rw [hx]
    exact .stay rfl rfl
  · rw [hx]
    exact .of_weak (hw.trans ((Weak.visible hv).trans hw'.weak)) rfl

/-! ### Idle connections and shutdown -/

theorem expireIdle_answers (h : Owned m) :
    Answers m .expireIdle (m.expireIdle.map fun x => (x.1, .counted x.2)) := by
  unfold expireIdle
  set idle := m.entries.keysWhere fun _ e => e.state.isIdle
  have hclose := closeWhere_does h .idleExpired (fun _ e => e.state.isIdle) fun c e _ he => .inl he
  simp only [Option.bind_eq_bind, Option.pure_def, Option.map_bind, Function.comp_def,
    Option.map_some]
  cases hx : m.closeAll .idleExpired idle with
  | none => exact absurd trivial (hclose.1 hx)
  | some t => exact .scheduled h (hclose.2 t hx).1 weak_id rfl

theorem discardIdle_answers (h : Owned m) (site : Site) :
    Answers m (.discardIdle site) ((m.discardIdle site).map fun x => (x.1, .counted x.2)) := by
  unfold discardIdle
  simp only [Option.bind_eq_bind, Option.pure_def, Option.map_bind, Function.comp_def,
    Option.map_some]
  refine .of_does (f := id) (linked_of_total (closeWhere_does h .discarded _ fun c e _ he => ?_))
    weak_id id rfl
  exact .inl (Bool.and_eq_true_iff.1 he).1

/-- A stopped pool does not start again. -/
theorem stopped_weak {t : PoolMachine} {marks : List Mark} (hw : Weak Move m marks t)
    (h : m.stopped = true) : t.stopped = true := by
  refine hw.invariant (A := fun _ => True) (P := fun t => t.stopped = true)
    (fun _ _ _ _ ht hv => ?_) (fun _ _ => trivial) h
  cases hv with
  | configure settles noEvicts stopped driverLost hstop => exact hstop ht
  | _ => exact ht

/-- After the end of the pool no request is left to serve, and no connection is idle or leased. -/
theorem stop_does (h : Owned m) (error : Error) (reason : CloseReason) :
    linked.Does m [] (m.stop error reason) fun t => t.stopped = true ∧
      (∀ r p, t.requests.get? r = some p → ∃ error, p.state = .failed error) ∧
        ∀ c e, t.entries.get? c = some e → e.state.isOpening = true ∨ e.state.isClosing = true := by
  unfold stop
  have hstop : Weak Move m [] { m with stopped := true, holds := .empty } :=
    .trans (.silent (.configure m.settles m.noEvicts true m.driverLost fun _ => rfl))
      (.silent (.lapse .empty fun q => Nat.zero_le _))
  refine .after_silent h hstop ?_
  have h₁ := Guard.inv_weak (g := linked) hstop h
  refine .bind h₁ (failEach_does (P := fun _ => True) (fun r => r) (fun _ => error) reason _ h₁
    fun r p hr _ => .inl ?_).traced fun t ht hs => ?_
  · rw [List.map_id']
    exact (SortedMap.mem_keysWhere _).2 ⟨p, hr, rfl⟩
  · obtain ⟨hw, hs⟩ := hs
    refine .bind ht (linked_of_total (closeWhere_does ht reason _ fun c e hc he => ?_)).traced
      fun u hu ⟨hw', hq⟩ => .of_weak (weak_touch u)
        ⟨stopped_weak (hw.trans (hw'.trans (weak_touch u))) rfl, fun r p hr => ?_, fun c e hc => ?_⟩
    · rcases Bool.or_eq_true_iff.1 he with he | he
      · exact .inl he
      · exact ht.free_of_leased hc he fun r p hr _ => hs r p hr trivial
    · exact hs r p (hq.1 ▸ hr) trivial
    · rcases hq.2 c e hc with hcl | ⟨-, hno⟩
      · exact .inr hcl
      · cases hst : e.state <;>
          simp_all [State.isOpening, State.isIdle, State.isLeased, State.isClosing]

theorem shutdown_answers (h : Owned m) :
    Answers m .shutdown (m.shutdown.map fun x => (x, .done)) := .of_map (stop_does h _ _) id rfl

theorem loseDriver_answers (h : Owned m) :
    Answers m .driverLost (m.loseDriver.map fun x => (x, .done)) := by
  have hlose : Weak Move m [] { m with driverLost := true } :=
    .silent (.configure m.settles m.noEvicts m.stopped true id)
  exact .of_map (.after_silent h hlose (stop_does (Guard.inv_weak (g := linked) hlose h) _ _))
    id rfl

/-! ### Actions -/

theorem entry_of_firstAction {offer : ConnectionId → Entry → Option (Action × Entry)}
    {x : ConnectionId × Action × Entry} (h : m.firstAction offer = some x) :
    ∃ e, m.entries.get? x.1 = some e ∧ offer x.1 e = some x.2 := by
  obtain ⟨⟨c, e⟩, hmem, hx⟩ := List.exists_of_findSome?_eq_some h
  obtain ⟨y, hy, rfl⟩ := Option.map_eq_some_iff.1 hx
  exact ⟨e, (SortedMap.mem_toList _).1 hmem, hy⟩

theorem cleanupAction_move {action : Action} {e' : Entry} (hc : m.entries.get? c = some e)
    (h : m.cleanupAction c e = some (action, e')) :
    Move m (some (.event action.event.1 action.event.2)) (m.putEntry c e').touch := by
  unfold cleanupAction at h
  cases he : e.state with
  | opening o =>
    simp only [he] at h
    obtain ⟨k, hk, h⟩ := Option.bind_eq_some_iff.1 h
    split_ifs at h with habort hsend
    · cases h
      simp only [Bool.and_eq_true, Bool.not_eq_true'] at habort
      exact .abortConnect hc he hk habort.1 _
    · cases h
      simp only [Bool.and_eq_true, Bool.not_eq_true'] at hsend
      exact .cancelConnect hc he hk hsend.1 hsend.2 _
  | closing reason k =>
    simp only [he] at h
    split_ifs at h with habort hsend
    · cases h
      simp only [Bool.and_eq_true, Bool.not_eq_true'] at habort
      exact .sendAbort hc he habort.1 _
    · cases h
      simp only [Bool.and_eq_true, Bool.not_eq_true'] at hsend
      exact .sendClose hc he hsend.1 hsend.2 _
  | _ => simp [he] at h

/-- A clock bounded by the absolute deadline of its request. -/
theorem boundBy_within (network : Option ℕ) (p : Pending) :
    (ConnectClock.network (boundBy network p.absoluteDeadline)).Within p := by
  intro a ha _
  rw [ha]
  cases network with
  | none => exact ⟨a, rfl, le_rfl⟩
  | some n => exact ⟨min n a, rfl, min_le_right n a⟩

theorem connectAction_move {action : Action} {e' : Entry} (hc : m.entries.get? c = some e)
    (h : m.connectAction c e = some (action, e')) :
    Move m (some (.event action.event.1 action.event.2)) (m.putEntry c e').touch := by
  unfold connectAction at h
  cases he : e.state with
  | opening o =>
    simp only [he] at h
    generalize (if o.networkMs > 0 then some (satAdd m.now o.networkMs) else none) = network at h
    split_ifs at h with hidle
    simp only [Bool.and_eq_true, Option.isNone_iff_eq_none] at hidle
    cases h
    refine .connect hc he hidle.2 hidle.1 _ (fun r p ho hr => ?_) _
    simp only [ho, Option.bind_some, hr]
    exact boundBy_within _ p
  | _ => simp [he] at h

theorem nextAction_answers (m : PoolMachine) :
    Answers m .nextAction (some (m.nextAction.1, .offered m.nextAction.2)) := by
  unfold nextAction
  cases hx : (m.firstAction m.cleanupAction).or (m.firstAction m.connectAction) with
  | none => exact .stay rfl rfl
  | some x =>
    obtain ⟨c, action, e'⟩ := x
    suffices hv : Move m (some (.event action.event.1 action.event.2)) (m.putEntry c e').touch from
      .of_weak (.visible hv) rfl
    rcases Option.or_eq_some_iff.1 hx with hx | ⟨-, hx⟩
    · obtain ⟨e, hc, he⟩ := entry_of_firstAction hx
      exact cleanupAction_move hc he
    · obtain ⟨e, hc, he⟩ := entry_of_firstAction hx
      exact connectAction_move hc he

/-! ### The clock of an opening connection -/

theorem absoluteOf_eq {m : PoolMachine} (ho : o.request = some r)
    (hr : m.requests.get? r = some p) :
    m.absoluteOf o = p.absoluteDeadline := by
  simp [absoluteOf, ho, hr]

theorem beginInteraction_answers (m : PoolMachine) (c : ConnectionId) :
    Answers m (.beginInteraction c)
      (some ((m.beginInteraction c).1, .replied (m.beginInteraction c).2)) := by
  unfold beginInteraction
  cases hc : m.entries.get? c with
  | none => exact .stay rfl rfl
  | some e =>
    dsimp only
    cases he : e.state with
    | opening o =>
      dsimp only
      split
      · rename_i time hk hcancel
        split_ifs
        · exact .stay rfl rfl
        · exact .stay rfl rfl
        · dsimp only
          rw [putConnectClock_eq hc he]
          refine .of_weak (.silent (.clock hc he hk _ (.inr ⟨rfl, fun r p ho hr => ?_⟩)
            o.interactionMs m.revision)) rfl
          intro a ha _
          rw [absoluteOf_eq ho hr, ha]
          exact ⟨_, rfl, min_le_right _ a⟩
      · exact .stay rfl rfl
    | _ => exact .stay rfl rfl

theorem endInteraction_answers (m : PoolMachine) (c : ConnectionId) :
    Answers m (.endInteraction c)
      (some ((m.endInteraction c).1, .replied (m.endInteraction c).2)) := by
  unfold endInteraction
  cases hc : m.entries.get? c with
  | none => exact .stay rfl rfl
  | some e =>
    dsimp only
    cases he : e.state with
    | opening o =>
      dsimp only
      split
      · rename_i time remaining hk hcancel
        split_ifs
        · exact .stay rfl rfl
        · refine .of_weak (.silent (.clock hc he hk _ (.inr ⟨rfl, fun r p ho hr => ?_⟩)
            (time - m.now) m.revision)) rfl
          rw [absoluteOf_eq ho hr]
          exact boundBy_within _ p
      · exact .stay rfl rfl
    | _ => exact .stay rfl rfl

/-- The shared clock of an opening connection moves on. -/
theorem sharedClock_weak {clock : SetupClock} (hc : m.entries.get? c = some e)
    (he : e.state = .opening o) {k : ConnectClock} (hk : o.clock = some k) :
    Weak Move m [] (m.putConnectClock c (.shared clock)) := by
  rw [putConnectClock_eq hc he]
  exact .silent (.clock hc he hk _ (.inl rfl) o.interactionMs m.revision)

theorem beginLocalWait_answers (m : PoolMachine) (c : ConnectionId) :
    Answers m (.beginLocalWait c) ((m.beginLocalWait c).map fun x => (x.1, .replied x.2)) := by
  unfold beginLocalWait
  cases hc : m.entries.get? c with
  | none => exact .stay rfl rfl
  | some e =>
    dsimp only
    cases he : e.state with
    | opening o =>
      dsimp only
      split
      · rename_i clock hk hcancel
        cases clock with
        | localWait => exact .stay rfl rfl
        | interaction => exact .stay rfl rfl
        | network time =>
          dsimp only
          split
          · exact .stay rfl rfl
          · rename_i allocation halloc
            split_ifs
            · exact .stay rfl rfl
            · exact .stay rfl rfl
            · rw [setConnectClock, putConnectClock_eq hc he]
              refine .of_weak (.silent (.clock hc he hk _ (.inr ⟨rfl, fun r p ho hr => ?_⟩)
                o.interactionMs _)) rfl
              simp only [ho, Option.bind_some, hr, Option.map_some, Option.some.injEq] at halloc
              exact fun a _ hle => ⟨allocation, rfl, halloc ▸ hle⟩
        | shared clock =>
          dsimp only
          split
          · exact .stay rfl rfl
          · rename_i allocation halloc
            obtain ⟨⟨clock', answer⟩, hx⟩ := Option.ne_none_iff_exists'.1
              (clock.beginLocalWait_ne_none (allocation - m.now))
            simp only [hx, Option.bind_eq_bind, Option.bind_some, Option.pure_def]
            exact .of_weak (sharedClock_weak hc he hk) rfl
      · exact .stay rfl rfl
    | _ => exact .stay rfl rfl

theorem endLocalWait_answers (m : PoolMachine) (c : ConnectionId) :
    Answers m (.endLocalWait c)
      (some ((m.endLocalWait c).1, .replied (m.endLocalWait c).2)) := by
  unfold endLocalWait
  cases hc : m.entries.get? c with
  | none => exact .stay rfl rfl
  | some e =>
    dsimp only
    cases he : e.state with
    | opening o =>
      dsimp only
      split
      · rename_i time remaining hk hcancel
        rw [setConnectClock, putConnectClock_eq hc he]
        refine .of_weak (.silent (.clock hc he hk _ (.inr ⟨rfl, fun r p ho hr => ?_⟩)
          o.interactionMs _)) rfl
        rw [absoluteOf_eq ho hr]
        exact boundBy_within _ p
      · rename_i shared hk hcancel
        exact .of_weak (sharedClock_weak hc he hk) rfl
      · exact .stay rfl rfl
    | _ => exact .stay rfl rfl

theorem installSetupClock_answers (m : PoolMachine) (c : ConnectionId) (source : ℕ → ℕ)
    (stallMs : ℕ) :
    Answers m (.installSetupClock c source stallMs)
      (some ((m.installSetupClock c source stallMs).1,
        .replied (m.installSetupClock c source stallMs).2)) := by
  unfold installSetupClock
  cases hc : m.entries.get? c with
  | none => exact .stay rfl rfl
  | some e =>
    dsimp only
    split
    · rename_i he
      split
      · exact .stay rfl rfl
      · exact .of_weak ((sharedClock_weak hc he rfl).trans (weak_touch _)) rfl
    · exact .stay rfl rfl

theorem useSetupClock_answers (m : PoolMachine) (c : ConnectionId) (use : SetupClock.Use) :
    Answers m (.useSetupClock c use) ((m.useSetupClock c use).map fun x => (x, .done)) := by
  unfold useSetupClock
  cases hs : m.sharedSetupClock c with
  | none => exact .stay rfl rfl
  | some clock =>
    obtain ⟨e, o, hc, he, hk⟩ := sharedSetupClock_eq_some hs
    obtain ⟨clock', hx⟩ := Option.ne_none_iff_exists'.1 (clock.use_ne_none use)
    simp only [hx, Option.bind_eq_bind, Option.bind_some, Option.pure_def]
    exact .of_weak (sharedClock_weak hc he hk) rfl

/-! ### Numbers of the host -/

/-- Nothing of the matching depends on the host's numbers or on the time. -/
theorem Owned.of_eq (h : Owned m) (hreq : m'.requests = m.requests) (hent : m'.entries = m.entries)
    (hpool : m'.poolId = m.poolId) (hserial : m'.requestSerial = m.requestSerial)
    (hconn : m'.connectionSerial = m.connectionSerial) : Owned m' := by
  refine ⟨?_, ?_, ?_, ?_⟩
  · rw [hreq, hpool, hserial]
    exact h.request_id
  · rw [hent, hpool, hconn]
    exact h.entry_id
  · rw [hent]
    exact h.entry_ok
  · rw [hreq, hent, hconn]
    exact h.matching

/-- The host's numbers do not matter to the invariant. -/
theorem Owned.numbers (h : Owned m) (limits : List (Site × ℕ)) (noEvicts : List Site) :
    Owned { m with limits, noEvicts } := h.of_eq rfl rfl rfl rfl rfl

theorem setLimit_answers (h : Owned m) (site : Site) (limit : ℕ) :
    Answers m (.setLimit site limit)
      ((m.setLimit site limit).map fun x => (x.1, .replied x.2)) := by
  unfold setLimit
  cases m.acceptsNumbers with
  | error e => exact .stay rfl rfl
  | ok _ =>
    dsimp only
    split_ifs
    · exact .stay rfl rfl
    · simp only [Option.bind_eq_bind, Option.pure_def, Option.map_bind, Function.comp_def,
        Option.map_some]
      exact .scheduled (h.of_eq rfl rfl rfl rfl rfl) (.refl _) weak_touch rfl

theorem clearLimit_answers (h : Owned m) (site : Site) :
    Answers m (.clearLimit site) ((m.clearLimit site).map fun x => (x, .done)) := by
  unfold clearLimit
  simp only [Option.bind_eq_bind, Option.pure_def, Option.map_bind, Function.comp_def,
    Option.map_some]
  exact .scheduled (h.of_eq rfl rfl rfl rfl rfl) (.refl _) weak_touch rfl

theorem setSettle_answers (m : PoolMachine) (site : Site) (milliseconds : ℕ) :
    Answers m (.setSettle site milliseconds)
      (some ((m.setSettle site milliseconds).1, .replied (m.setSettle site milliseconds).2)) := by
  unfold setSettle
  cases m.acceptsNumbers with
  | error e => exact .stay rfl rfl
  | ok _ =>
    dsimp only
    split_ifs
    · exact .stay rfl rfl
    · exact .of_weak (.silent (.configure _ m.noEvicts m.stopped m.driverLost id)) rfl

theorem setNoEvict_answers (h : Owned m) (site : Site) (on : Bool) :
    Answers m (.setNoEvict site on)
      ((m.setNoEvict site on).map fun x => (x.1, .replied x.2)) := by
  unfold setNoEvict
  cases m.acceptsNumbers with
  | error e => exact .stay rfl rfl
  | ok _ =>
    dsimp only
    split_ifs
    · exact .stay rfl rfl
    · split
      · simp only [Option.bind_eq_bind, Option.pure_def, Option.map_bind, Function.comp_def,
          Option.map_some]
        exact .scheduled h (.silent (.configure m.settles _ m.stopped m.driverLost id))
          weak_touch rfl
      · simp only [Option.bind_eq_bind, Option.pure_def, Option.map_bind, Function.comp_def,
          Option.map_some]
        exact .scheduled h (.silent (.configure m.settles _ m.stopped m.driverLost id))
          weak_touch rfl
      · exact .stay rfl rfl

end PoolMachine

end GwzTransport.Pool
