import GwzTransport.Pool.Runs

/-!
# The history of a connection

Commands and accepted acknowledgements of one connection, in the order of a run.  A `Phase` is
where a connection stands, with the commands it was given so far; its `history` is the only order
in which they can have come.  In a run that retires no credential scope every connection is in a
phase that fits its entry in the pool, and its history is the one of that phase.
-/

namespace GwzTransport.Pool

open Protocol MachineInt Transition

/-- The commands of a cleanup: at most once each, the abort last. -/
def cleanupEvents (mild hard : Event) (sent aborted : Bool) : List Event :=
  (if sent then [mild] else []) ++ if aborted then [hard] else []

inductive Phase
  /-- No connect command yet. -/
  | fresh
  /-- Between the connect command and its acknowledgement. -/
  | dialing (sent aborted : Bool)
  /-- The connect failed. -/
  | failed (sent aborted : Bool)
  /-- Established, with the commands of the time before. -/
  | held (dial : Bool × Bool) (sent aborted : Bool)
  /-- Closed by the adapter, on command or on its own. -/
  | closed (dial : Bool × Bool) (sent aborted idle : Bool)
  deriving DecidableEq

namespace Phase

def dialHistory (sent aborted : Bool) : List Event :=
  .connect :: cleanupEvents .cancelConnect .abortConnect sent aborted

def heldHistory (dial : Bool × Bool) (sent aborted : Bool) : List Event :=
  dialHistory dial.1 dial.2 ++ .connected true :: cleanupEvents .close .abort sent aborted

/-- The legal histories. -/
def history : Phase → List Event
  | .fresh => []
  | .dialing sent aborted => dialHistory sent aborted
  | .failed sent aborted => dialHistory sent aborted ++ [.connected false]
  | .held dial sent aborted => heldHistory dial sent aborted
  | .closed dial sent aborted idle =>
    heldHistory dial sent aborted ++ [if idle then .idleClosed else .closed]

/-- The entry of a connection in a phase. -/
def Fits : Phase → Option Entry → Prop
  | .fresh, x => ∀ e, x = some e → ∃ o, e.state = .opening o ∧ o.clock = none
  | .dialing sent aborted, x => ∃ e o, x = some e ∧ e.state = .opening o ∧
      o.clock.isSome = true ∧ (o.cancel.elim (sent = false ∧ aborted = false) fun k =>
        k.sent = sent ∧ k.aborted = aborted)
  | .held _ sent aborted, x => ∃ e, x = some e ∧ match e.state with
      | .opening _ => False
      | .closing _ k => k.sent = sent ∧ k.aborted = aborted
      | _ => sent = false ∧ aborted = false
  | _, x => x = none

end Phase

/-- The events of one connection among visible moves. -/
def eventsOn (c : ConnectionId) (marks : List Mark) : List Event :=
  marks.filterMap fun
    | .event d e => if d = c then some e else none
    | _ => none

theorem eventsOn_append (c : ConnectionId) (marks marks' : List Mark) :
    eventsOn c (marks ++ marks') = eventsOn c marks ++ eventsOn c marks' :=
  List.filterMap_append

theorem eventsOn_event (c : ConnectionId) (e : Event) :
    eventsOn c (some (Mark.event c e)).toList = [e] := by
  simp [eventsOn]

/-- A move that is no event of the connection is not in its history. -/
theorem eventsOn_of_silent {c : ConnectionId} {k : Option Mark}
    (hk : ∀ x ∈ k, ∀ e, x ≠ .event c e) : eventsOn c k.toList = [] := by
  cases k with
  | none => rfl
  | some x =>
    have := hk x rfl
    cases x with
    | event d e =>
      have hd : d ≠ c := fun hd => this e (by rw [hd])
      simp [eventsOn, hd]
    | _ => simp [eventsOn]

/-- A visible move of another connection is not in the history. -/
theorem eventsOn_of_ne {c : ConnectionId} {k : Option Mark} (hk : ∀ x ∈ k, x.connection ≠ c) :
    eventsOn c k.toList = [] := by
  refine eventsOn_of_silent fun x hx e hxe => hk x hx ?_
  rw [hxe]
  rfl

section Changes

variable {m : PoolMachine} {c : ConnectionId} {e e' : Entry} {k : Option Mark} {phase : Phase}

/-- The phase of an opening connection. -/
theorem Phase.of_opening {o : Opening} (h : phase.Fits (some e)) (he : e.state = .opening o) :
    phase = .fresh ∧ o.clock = none ∨ ∃ sent aborted, phase = .dialing sent aborted ∧
      o.clock.isSome = true ∧ (o.cancel.elim (sent = false ∧ aborted = false) fun k =>
        k.sent = sent ∧ k.aborted = aborted) := by
  cases phase with
  | fresh =>
    obtain ⟨o', he', hclock⟩ := h e rfl
    cases he.symm.trans he'
    exact .inl ⟨rfl, hclock⟩
  | dialing sent aborted =>
    obtain ⟨e₁, o', hx, he', hclock, hcancel⟩ := h
    cases hx
    cases he.symm.trans he'
    exact .inr ⟨sent, aborted, rfl, hclock, hcancel⟩
  | held dial sent aborted =>
    obtain ⟨e₁, hx, hs⟩ := h
    cases hx
    rw [he] at hs
    exact hs.elim
  | failed => cases h
  | closed => cases h

theorem Phase.of_dialing {o : Opening} (h : phase.Fits (some e)) (he : e.state = .opening o)
    (hclock : o.clock.isSome = true) : ∃ sent aborted, phase = .dialing sent aborted ∧
      (o.cancel.elim (sent = false ∧ aborted = false) fun k =>
        k.sent = sent ∧ k.aborted = aborted) := by
  rcases Phase.of_opening h he with ⟨-, hnone⟩ | ⟨sent, aborted, hp, -, hcancel⟩
  · rw [hnone] at hclock
    cases hclock
  · exact ⟨sent, aborted, hp, hcancel⟩

/-- The phase of an established connection. -/
theorem Phase.of_established (h : phase.Fits (some e)) (he : e.state.isOpening = false) :
    ∃ dial sent aborted, phase = .held dial sent aborted ∧ match e.state with
      | .opening _ => False
      | .closing _ k => k.sent = sent ∧ k.aborted = aborted
      | _ => sent = false ∧ aborted = false := by
  cases phase with
  | fresh =>
    obtain ⟨o, ho, -⟩ := h e rfl
    rw [ho] at he
    cases he
  | dialing =>
    obtain ⟨e₁, o, hx, ho, -⟩ := h
    cases hx
    rw [ho] at he
    cases he
  | held dial sent aborted =>
    obtain ⟨e₁, hx, hs⟩ := h
    cases hx
    exact ⟨dial, sent, aborted, rfl, hs⟩
  | failed => cases h
  | closed => cases h

/-- A change of a connection that is no retirement moves its phase on. -/
theorem Phase.changed (h : phase.Fits (some e)) (hok : e.Ok c) (hb : e.Becomes m c k e')
    (hk : ∀ busy, k ≠ some (.retired c busy)) :
    ∃ phase' : Phase, phase'.history = phase.history ++ eventsOn c k.toList ∧
      phase'.Fits (some e') := by
  have hstay : (∀ x ∈ k, ∀ ev, x ≠ .event c ev) → phase.Fits (some e') →
      ∃ phase' : Phase, phase'.history = phase.history ++ eventsOn c k.toList ∧
        phase'.Fits (some e') := by
    intro hk hfit
    refine ⟨phase, ?_, hfit⟩
    rw [eventsOn_of_silent hk, List.append_nil]
  cases hb with
  | lease hr hp hfresh hfull he =>
    obtain ⟨dial, sent, aborted, rfl, hs⟩ := Phase.of_established h (by rw [he]; rfl)
    rw [he] at hs
    exact hstay (by simp) ⟨_, rfl, hs⟩
  | @cancel r o he ho hclock clock deadline =>
    obtain ⟨sent, aborted, rfl, hs⟩ := Phase.of_dialing h he hclock
    have hnone : o.cancel = none := by
      simp only [Entry.Ok, he, ho] at hok
      exact hok.elim (·.2) fun h => by cases h.1
    rw [hnone] at hs
    exact hstay (by simp) ⟨_, _, rfl, rfl, rfl, hs.1.symm, hs.2.symm⟩
  | @clock o k he hclock =>
    obtain ⟨sent, aborted, rfl, hs⟩ := Phase.of_dialing h he (by rw [hclock]; rfl)
    exact hstay (by simp) ⟨_, _, rfl, rfl, rfl, hs⟩
  | @connect o he hclock hcancel =>
    rcases Phase.of_opening h he with ⟨rfl, -⟩ | ⟨sent, aborted, -, hsome, -⟩
    · refine ⟨.dialing false false, ?_, _, _, rfl, rfl, rfl, ?_⟩
      · rw [eventsOn_event]
        rfl
      · rw [hcancel]
        exact ⟨rfl, rfl⟩
    · rw [hclock] at hsome
      cases hsome
  | @cancelConnect o k he hcancel hsent haborted =>
    rcases Phase.of_opening h he with ⟨-, hnone⟩ | ⟨sent, aborted, rfl, hsome, hs⟩
    · -- only a connect that was sent is cancelled
      simp [Entry.Ok, he, hcancel, hnone] at hok
    · rw [hcancel] at hs
      obtain ⟨rfl, rfl⟩ := hs
      refine ⟨.dialing true false, ?_, _, _, rfl, rfl, hsome, rfl, haborted⟩
      rw [eventsOn_event, hsent, haborted]
      rfl
  | @abortConnect o k he hcancel haborted =>
    rcases Phase.of_opening h he with ⟨-, hnone⟩ | ⟨sent, aborted, rfl, hsome, hs⟩
    · simp [Entry.Ok, he, hcancel, hnone] at hok
    · rw [hcancel] at hs
      obtain ⟨rfl, rfl⟩ := hs
      refine ⟨.dialing k.sent true, ?_, _, _, rfl, rfl, hsome, rfl, rfl⟩
      rw [eventsOn_event, haborted]
      cases k.sent <;> rfl
  | ready hr he ho hclock =>
    obtain ⟨sent, aborted, rfl, -⟩ := Phase.of_dialing h he hclock
    refine ⟨.held (sent, aborted) false false, ?_, _, rfl, rfl, rfl⟩
    rw [eventsOn_event]
    rfl
  | refused he hclock =>
    obtain ⟨sent, aborted, rfl, -⟩ := Phase.of_dialing h he hclock
    refine ⟨.held (sent, aborted) false false, ?_, _, rfl, rfl, rfl⟩
    rw [eventsOn_event]
    rfl
  | take he =>
    obtain ⟨dial, sent, aborted, rfl, hs⟩ := Phase.of_established h (by rw [he]; rfl)
    rw [he] at hs
    exact hstay (by simp) ⟨_, rfl, hs⟩
  | scope hl =>
    obtain ⟨dial, sent, aborted, rfl, hs⟩ := Phase.of_established h (by
      cases hst : e.state <;> simp_all [State.isOpening, State.isLeased])
    exact hstay (by simp) ⟨_, rfl, hs⟩
  | release he =>
    obtain ⟨dial, sent, aborted, rfl, hs⟩ := Phase.of_established h (by rw [he]; rfl)
    rw [he] at hs
    exact hstay (by simp) ⟨_, rfl, hs⟩
  | shut hfree =>
    obtain ⟨dial, sent, aborted, rfl, hs⟩ := Phase.of_established h (by
      cases hst : e.state <;> simp_all [State.isOpening, State.isLeased, State.isIdle])
    refine hstay (by simp) ⟨_, rfl, ?_⟩
    cases hst : e.state <;>
      simp_all [State.isLeased, State.isIdle, Entry.shut, Cleanup.new]
  | retire => exact absurd rfl (hk _)
  | @sendClose reason k he hsent haborted =>
    obtain ⟨dial, sent, aborted, rfl, hs⟩ := Phase.of_established h (by rw [he]; rfl)
    rw [he] at hs
    obtain ⟨rfl, rfl⟩ := hs
    refine ⟨.held dial true false, ?_, _, rfl, rfl, haborted⟩
    rw [eventsOn_event, hsent, haborted]
    simp [history, heldHistory, cleanupEvents]
  | @sendAbort reason k he haborted =>
    obtain ⟨dial, sent, aborted, rfl, hs⟩ := Phase.of_established h (by rw [he]; rfl)
    rw [he] at hs
    obtain ⟨rfl, rfl⟩ := hs
    refine ⟨.held dial k.sent true, ?_, _, rfl, rfl, rfl⟩
    rw [eventsOn_event, haborted]
    simp [history, heldHistory, cleanupEvents]

/-- A connection that has left was acknowledged, or was never dialed. -/
theorem Phase.left (h : phase.Fits (some e)) (hl : e.Leaves c k) :
    ∃ phase' : Phase, phase'.history = phase.history ++ eventsOn c k.toList ∧
      phase'.Fits none := by
  cases hl with
  | reserved he ho hclock =>
    rcases Phase.of_opening h he with ⟨rfl, -⟩ | ⟨_, _, -, hsome, -⟩
    · exact ⟨.fresh, rfl, fun _ h => (by cases h)⟩
    · rw [hclock] at hsome
      cases hsome
  | failed he hclock =>
    obtain ⟨sent, aborted, rfl, -⟩ := Phase.of_dialing h he hclock
    refine ⟨.failed sent aborted, ?_, rfl⟩
    rw [eventsOn_event]
    rfl
  | closed he =>
    obtain ⟨dial, sent, aborted, rfl, -⟩ := Phase.of_established h (by rw [he]; rfl)
    refine ⟨.closed dial sent aborted false, ?_, rfl⟩
    rw [eventsOn_event]
    rfl
  | idleClosed he =>
    obtain ⟨dial, sent, aborted, rfl, -⟩ := Phase.of_established h (by
      cases hst : e.state <;> simp_all [State.isOpening, State.isIdle, State.isClosing])
    refine ⟨.closed dial sent aborted true, ?_, rfl⟩
    rw [eventsOn_event]
    rfl

end Changes

namespace PoolMachine

variable {m m' t : PoolMachine} {c : ConnectionId} {tr : List (Call × Outcome)}

/-- The connection is in a phase with this history; one that has not been issued has none. -/
def InPhase (m : PoolMachine) (c : ConnectionId) (events : List Event) : Prop :=
  ∃ phase : Phase, events = phase.history ∧ phase.Fits (m.entries.get? c) ∧
    (m.connectionSerial < c.serial → phase = .fresh)

theorem InPhase.step {k : Option Mark} {events : List Event} (h : Owned m)
    (hp : InPhase m c events) (hv : Move m k m') (hk : ∀ c busy, k ≠ some (.retired c busy)) :
    InPhase m' c (events ++ eventsOn c k.toList) := by
  obtain ⟨phase, rfl, hfit, hserial⟩ := hp
  cases hc : m.entries.get? c with
  | some e =>
    rw [hc] at hfit
    have hissued : ¬ m'.connectionSerial < c.serial :=
      not_lt.2 ((h.entry_id c e hc).2.trans hv.serial_le)
    cases hv.fate hc h.next_absent with
    | same hx hother =>
      refine ⟨phase, by rw [eventsOn_of_ne hother, List.append_nil], ?_, fun h => absurd h hissued⟩
      rw [hx]
      exact hfit
    | changed hx hb =>
      obtain ⟨phase', hh, hf⟩ := Phase.changed hfit (h.entry_ok c e hc) hb (hk c)
      exact ⟨phase', hh.symm, by rw [hx]; exact hf, fun h => absurd h hissued⟩
    | left hx hl =>
      obtain ⟨phase', hh, hf⟩ := Phase.left hfit hl
      exact ⟨phase', hh.symm, by rw [hx]; exact hf, fun h => absurd h hissued⟩
  | none =>
    have hother : ∀ x ∈ k, x.connection ≠ c := by
      intro x hx hxc
      obtain ⟨e, he⟩ := hv.entry_of_mark hx
      rw [hxc, hc] at he
      cases he
    rw [eventsOn_of_ne hother, List.append_nil]
    cases hc' : m'.entries.get? c with
    | none =>
      rw [hc] at hfit
      exact ⟨phase, rfl, by rw [hc']; exact hfit,
        fun hlt => hserial (hv.serial_le.trans_lt hlt)⟩
    | some e' =>
      -- the next connection: it has not been issued before
      obtain ⟨rfl, -⟩ := hv.serial_of_new hc hc'
      obtain rfl := hserial (by simp [nextConnection])
      refine ⟨.fresh, rfl, ?_, fun _ => rfl⟩
      rw [hc']
      cases hv.origin hc' with
      | same hd => rw [hc] at hd; cases hd
      | changed hd => rw [hc] at hd; cases hd
      | @reserved r p o hr hp hroom ho hclock hcancel hnext hk he =>
        intro x hx
        cases hx
        exact ⟨o, by rw [he]; rfl, hclock⟩

theorem InPhase.entered {call : Call} {events : List Event} (h : InPhase m c events)
    (he : Entered m call t) : InPhase t c events := by
  cases he <;> exact h

/-! ### Runs -/

/-- The call retires no credential scope. -/
def NoRetirement (_ : PoolMachine) (call : Call) : Prop := ∀ scope, call ≠ .retireHttpsScope scope

/-- `NoRetirement` as a check. -/
def noRetirement (_ : PoolMachine) : Call → Bool
  | .retireHttpsScope _ => false
  | _ => true

theorem noRetirement_sound (m : PoolMachine) (call : Call) (h : m.noRetirement call = true) :
    m.NoRetirement call := by
  rintro scope rfl
  cases h

/-- The commands handed out for a connection in a run, and the acknowledgements accepted. -/
def historyOf (c : ConnectionId) (tr : List (Call × Outcome)) : List Event :=
  (tr.flatMap fun x => eventsOf x.1 x.2).filterMap fun x => if x.1 = c then some x.2 else none

theorem historyOf_append (c : ConnectionId) (tr tr' : List (Call × Outcome)) :
    historyOf c (tr ++ tr') = historyOf c tr ++ historyOf c tr' := by
  simp [historyOf]

/-- Equal marks that are no events. -/
theorem eventsOn_silent {marks : List Mark} {mark : Mark} (h : ∀ k ∈ marks, k = mark)
    (hmark : eventsOn c [mark] = []) : eventsOn c marks = [] := by
  simp only [eventsOn, List.filterMap_eq_nil_iff] at hmark ⊢
  intro k hk
  rw [h k hk]
  exact hmark mark (List.mem_singleton_self _)

/-- The visible moves of a call are the events of its answer. -/
theorem Shows.events {call : Call} {out : Outcome} {marks : List Mark}
    (h : m.Shows call out marks) (hcall : m.NoRetirement call) :
    eventsOn c marks = historyOf c [(call, out)] ∧ ∀ k ∈ marks, ∀ d busy, k ≠ .retired d busy := by
  constructor
  · unfold Shows at h
    split at h
    · exact eventsOn_silent h rfl
    · exact eventsOn_silent (fun k hk => (h k hk).2) rfl
    · exact eventsOn_silent h rfl
    · exact absurd rfl (hcall _)
    · subst h
      simp [historyOf, eventsOn, List.filterMap_map]
  · rintro k hk d busy rfl
    obtain ⟨scope, -, hretire, -⟩ := h.retired hk
    exact hcall scope hretire

theorem InPhase.weak {marks : List Mark} {events : List Event} (h : Owned m)
    (hp : InPhase m c events) (hw : Weak Move m marks t)
    (hm : ∀ k ∈ marks, ∀ d busy, k ≠ .retired d busy) :
    InPhase t c (events ++ eventsOn c marks) := by
  have key := hw.follow []
    (P := fun hist t => (∀ k ∈ hist, ∀ d busy, k ≠ .retired d busy) →
      Owned t ∧ InPhase t c (events ++ eventsOn c hist))
    (fun hist t k u ih hv hA => by
      obtain ⟨ht, hin⟩ := ih fun x hx => hA x (List.mem_append_left _ hx)
      refine ⟨ht.step hv, ?_⟩
      rw [eventsOn_append, ← List.append_assoc]
      refine hin.step ht hv fun d busy hk => ?_
      exact hA _ (List.mem_append_right _ (Option.mem_toList.2 hk)) d busy rfl)
    fun _ => ⟨h, by simpa [eventsOn] using hp⟩
  exact (key hm).2

theorem inPhase_run {config : Config} {poolId : ℕ}
    (h : Run (StepUnder NoRetirement) (fresh config poolId) tr m) (c : ConnectionId) :
    Sound m ∧ InPhase m c (historyOf c tr) := by
  refine h.invariant (P := fun tr m => Sound m ∧ InPhase m c (historyOf c tr))
    ⟨sound_fresh config poolId, .fresh, rfl, fun _ hx => (by cases hx), fun _ => rfl⟩ ?_
  rintro tr m ⟨call, out⟩ t - ⟨hs, hin⟩ ⟨hcall, hstep⟩
  obtain ⟨marks, hent, hw, hshow⟩ := call_weak hs hstep
  obtain ⟨hevents, hmarks⟩ := hshow.events (c := c) hcall
  have hin' : InPhase (m.entered call out) c (historyOf c tr) := hin.entered hent
  rw [historyOf_append, ← hevents]
  exact ⟨hs.step hstep, hin'.weak (hs.owned.entered hent) hw hmarks⟩

/-- An acknowledged connect leaves no opening connection. -/
theorem Phase.not_opening {phase : Phase} {e : Entry} {ok : Bool}
    (hmem : .connected ok ∈ phase.history) (hfit : phase.Fits (some e)) :
    e.state.isOpening = false := by
  cases phase with
  | fresh => cases hmem
  | dialing sent aborted =>
    cases sent <;> cases aborted <;> simp [Phase.history, Phase.dialHistory, cleanupEvents] at hmem
  | held dial sent aborted =>
    obtain ⟨x, hx, hs⟩ := hfit
    cases hx
    cases hst : e.state with
    | opening o => rw [hst] at hs; exact hs.elim
    | _ => rfl
  | failed => cases hfit
  | closed => cases hfit

/-- In a run that retires no scope, every connection has a legal history, and its entry in the
pool is the one of its phase: from the connect command on it stays until a failed connect, a
`closed` or an `idle_closed` is acknowledged.  After an accepted `connected` it is not opening any
more, and no opening under the pool's own clock has missed the deadline of its request. -/
theorem legal_history {config : Config} {poolId : ℕ}
    (h : Run (StepUnder NoRetirement) (fresh config poolId) tr m) (c : ConnectionId) :
    (∃ phase : Phase, historyOf c tr = phase.history ∧ phase.Fits (m.entries.get? c)) ∧
    (.connect ∈ historyOf c tr →
      (∀ x ∈ historyOf c tr, x ≠ .connected false ∧ x ≠ .closed ∧ x ≠ .idleClosed) →
      (m.entries.get? c).isSome = true) ∧
    (∀ result out t, m.Step (.connected c result, out) t → out.accepted = true →
      ∀ e, t.entries.get? c = some e → e.state.isOpening = false) ∧
    ∀ e o k, m.entries.get? c = some e → e.state = .opening o → o.clock = some k →
      k.isShared = false → ((o.request.bind m.requests.get?).bind (·.absoluteDeadline)).any
        (fun time => decide (m.now ≥ time)) = false := by
  obtain ⟨hs, phase, hhist, hfit, -⟩ := inPhase_run h c
  refine ⟨⟨phase, hhist, hfit⟩, fun hconnect hno => ?_, fun result out t hstep hok e he => ?_,
    fun e o k hc he hk hshared => hs.timely.not_late hc he hk hshared⟩
  · rw [hhist] at hconnect hno
    cases phase with
    | fresh => cases hconnect
    | dialing sent aborted =>
      obtain ⟨e, o, hx, -⟩ := hfit
      rw [hx]
      rfl
    | held dial sent aborted =>
      obtain ⟨e, hx, -⟩ := hfit
      rw [hx]
      rfl
    | failed sent aborted =>
      exact absurd rfl (hno (.connected false) (List.mem_append_right _ List.mem_cons_self)).1
    | closed dial sent aborted idle =>
      have := hno (if idle then .idleClosed else .closed)
        (List.mem_append_right _ List.mem_cons_self)
      cases idle <;> simp at this
  · obtain ⟨-, phase', hhist', hfit', -⟩ := inPhase_run
      (h.snoc ⟨fun scope hx => (by cases hx), hstep⟩) c
    have hmem : .connected result.isOk ∈ phase'.history := by
      rw [← hhist', historyOf_append]
      refine List.mem_append_right _ ?_
      simp [historyOf, eventsOf, hok]
    rw [he] at hfit'
    exact Phase.not_opening hmem hfit'

/-- A connect that is cancelled and then fails. -/
theorem legal_history_cancelled : ∃ tr m,
    Run (StepUnder NoRetirement) (fresh .default 1) tr m ∧
    historyOf ⟨1, 1⟩ tr = [.connect, .cancelConnect, .connected false] ∧
    ∃ phase : Phase, historyOf ⟨1, 1⟩ tr = phase.history ∧ phase.Fits (m.entries.get? ⟨1, 1⟩) := by
  obtain ⟨tr, m, hrun, hq⟩ := exists_run (m := fresh .default 1) noRetirement noRetirement_sound
    [.requestUntil sshRequest none, .nextAction, .cancel ⟨1, 1⟩, .nextAction,
      .connected ⟨1, 1⟩ (.error ⟨.io, .none, none, none, none⟩)]
    (fun tr _ => historyOf ⟨1, 1⟩ tr = [.connect, .cancelConnect, .connected false])
    (by decide +kernel)
  exact ⟨tr, m, hrun, of_decide_eq_true hq, (legal_history hrun ⟨1, 1⟩).1⟩

end PoolMachine

end GwzTransport.Pool
