import GwzTransport.Pool.Owned

/-!
# Every call is a sequence of moves

For each operation of the pool: it panics only where a request has lost its connection, and
otherwise its effect is a run of moves.  The operations that cannot panic at all are stated under
the guard `total`, the others under `linked`.  `Failing` writes out what `fail_request` does.
-/

namespace GwzTransport.Pool

open Protocol MachineInt Transition

namespace PoolMachine

variable {m m' : PoolMachine} {r : RequestId} {c : ConnectionId} {p : Pending} {e : Entry}

/-- Operations that never fail. -/
def total : Guard Move where
  Inv := Owned
  Safe _ := True
  Mild _ := True
  inv_step h hv := h.step hv
  safe_step _ _ _ _ := trivial

/-- Operations that fail only where a request has lost its connection. -/
def linked : Guard Move where
  Inv := Owned
  Safe := Linked
  Mild k := ∀ c, k ≠ .retired c true
  inv_step h hv := h.step hv
  safe_step h hl hk hv := hl.step h hv fun c he => hk _ he c rfl

theorem linked_of_total {evs : List Mark} {x : Option PoolMachine} {Q : PoolMachine → Prop}
    (h : total.Does m evs x Q) : linked.Does m evs x Q := h.of_total fun _ _ => trivial

theorem weak_touch (m : PoolMachine) : Weak Move m [] m.touch := .silent (.touch _)

/-! ### Closing -/

theorem startClosing_of_closing (hc : m.entries.get? c = some e) (he : e.state.isClosing = true)
    (reason : CloseReason) : m.startClosing c reason = some m := by
  simp [startClosing, hc, he]

theorem startClosing_eq (hc : m.entries.get? c = some e) (he : e.state.isClosing = false)
    (reason : CloseReason) : m.startClosing c reason =
      some (m.putEntry c (e.shut reason (m.cleanupDeadline e))).touch := by
  simp [startClosing, hc, he, Entry.shut]

/-- A connection that no request uses: its closing concerns nothing else. -/
def Entry.Free (e : Entry) : Prop := e.state.isIdle = true ∨ ∃ l, e.state = .leased l none

theorem Entry.Free.not_closing (he : Entry.Free e) : e.state.isClosing = false := by
  rcases he with he | ⟨l, he⟩ <;> cases hs : e.state <;> simp_all [State.isIdle, State.isClosing]

theorem startClosing_free (hc : m.entries.get? c = some e) (he : Entry.Free e)
    (reason : CloseReason) : total.Does m [] (m.startClosing c reason) fun t =>
      (t.requests = m.requests ∧ t.leaseSerial = m.leaseSerial) ∧
        (∃ e', t.entries.get? c = some e' ∧ e'.state.isClosing = true) ∧
        ∀ d ≠ c, t.entries.get? d = m.entries.get? d := by
  rw [startClosing_eq hc he.not_closing]
  refine .step (.close hc he reason _ _)
    ⟨⟨rfl, rfl⟩, ⟨_, SortedMap.get?_insert_self _ _ _, rfl⟩, ?_⟩
  exact fun d hd => SortedMap.get?_insert_of_ne _ hd _

/-- Free connections of a list are closed one after the other; nothing else changes. -/
theorem closeEach_does {ι : Type} (id : ι → ConnectionId) (reason : ι → CloseReason) (l : List ι)
    (h : Owned m) (hn : (l.map id).Nodup)
    (hl : ∀ c ∈ l.map id, ∃ e, m.entries.get? c = some e ∧ Entry.Free e) :
    total.Does m [] (l.foldlM (fun m i => m.startClosing (id i) (reason i)) m) fun t =>
      (t.requests = m.requests ∧ t.leaseSerial = m.leaseSerial) ∧
        (∀ c ∉ l.map id, t.entries.get? c = m.entries.get? c) ∧
        ∀ c ∈ l.map id, ∃ e, t.entries.get? c = some e ∧ e.state.isClosing = true := by
  refine (Guard.Does.foldlM (I := fun rest t =>
    (t.requests = m.requests ∧ t.leaseSerial = m.leaseSerial) ∧ (rest.map id).Nodup ∧
    (∀ c ∈ rest.map id, c ∈ l.map id ∧ t.entries.get? c = m.entries.get? c) ∧
    (∀ c ∉ l.map id, t.entries.get? c = m.entries.get? c) ∧
    ∀ c ∈ l.map id, c ∉ rest.map id → ∃ e, t.entries.get? c = some e ∧ e.state.isClosing = true)
    ?_ l m h ⟨⟨rfl, rfl⟩, hn, fun c hc => ⟨hc, rfl⟩, fun _ _ => rfl,
      fun c hc hnot => absurd hc hnot⟩).mono
    fun t ht => ⟨ht.1, ht.2.2.2.1, fun c hc => ht.2.2.2.2 c hc nofun⟩
  rintro i rest t - ⟨hreq, hn, hrest, hout, hdone⟩
  rw [List.map_cons, List.nodup_cons] at hn
  obtain ⟨hi, hsame⟩ := hrest (id i) List.mem_cons_self
  obtain ⟨e, hc, he⟩ := hl (id i) hi
  refine (startClosing_free (hsame.trans hc) he (reason i)).mono fun u hu => ?_
  refine ⟨⟨hu.1.1.trans hreq.1, hu.1.2.trans hreq.2⟩, hn.2, fun d hd => ?_, fun d hd => ?_,
    fun d hd hnot => ?_⟩
  · rw [hu.2.2 d fun hdi => hn.1 (hdi ▸ hd)]
    exact hrest d (List.mem_cons_of_mem _ hd)
  · rw [hu.2.2 d fun hdi => hd (hdi ▸ hi)]
    exact hout d hd
  · by_cases hdi : d = id i
    · exact hdi ▸ hu.2.1
    · rw [hu.2.2 d hdi]
      refine hdone d hd ?_
      rw [List.map_cons, List.mem_cons, not_or]
      exact ⟨hdi, hnot⟩

/-! ### Failing a request -/

/-- The connection of a request that points to it: lost, or at work for it. -/
theorem Owned.entry_of_target (h : Owned m) (hr : m.requests.get? r = some p) {x : Tie}
    (hp : p.tie = some (c, x)) (hc : m.entries.get? c = some e) (he : e.state.isClosing = false) :
    e.tie = some (r, x) := by
  rcases h.matching.holder_of_target ((targets_of_get hr).trans hp) with hl | hh
  · rw [hl.2 e hc] at he
    cases he
  · exact (holders_of_get hc).symm.trans hh

theorem Linked.entry_ne_none (hl : Linked m) (hr : m.requests.get? r = some p) {x : Tie}
    (hp : p.tie = some (c, x)) : m.entries.get? c ≠ none := by
  intro hc
  rcases hl.holder_of_target ((targets_of_get hr).trans hp) with hf | hh
  · exact hf
  · simp [holders, hc] at hh

/-- The request has failed, if it is still there. -/
def Settled (m : PoolMachine) (r : RequestId) : Prop :=
  ∀ q, m.requests.get? r = some q → ∃ error, q.state = .failed error

/-- The error with which a request fails: it keeps the one it has, and the setup clock of its
connection, if there is one, answers for an opening. -/
def failure (m : PoolMachine) (error : Error) (p : Pending) : Error :=
  match p.state with
  | .failed error => error
  | .opening c => (m.arbitrateSetupError c error).2
  | _ => error

/-- The request has failed, if it is there; no other has changed, no connection but the one it
points to, and none was served. -/
structure Failed (m : PoolMachine) (r : RequestId) (error : Error) (t : PoolMachine) : Prop where
  others : ∀ j ≠ r, t.requests.get? j = m.requests.get? j
  serial : t.leaseSerial = m.leaseSerial
  request : t.requests.get? r =
    (m.requests.get? r).map fun p => { p with state := .failed (m.failure error p) }
  entries : ∀ d, (∀ p, m.requests.get? r = some p → p.state.target ≠ some d) →
    t.entries.get? d = m.entries.get? d

theorem Failed.settled {t : PoolMachine} {error : Error} (h : Failed m r error t) :
    Settled t r := by
  intro q hq
  rw [h.request, Option.map_eq_some_iff] at hq
  obtain ⟨p, -, rfl⟩ := hq
  exact ⟨_, rfl⟩

/-- The connection of the request is the only one that changes. -/
theorem failed_insert {entries : SortedMap ConnectionId Entry} {error error' : Error} {v : ℕ}
    (hr : m.requests.get? r = some p) (herror : m.failure error p = error')
    (hent : ∀ d, p.state.target ≠ some d → entries.get? d = m.entries.get? d) :
    Failed m r error
      { m with
        requests := m.requests.insert r { p with state := .failed error' }
        entries
        revision := v } where
  others j hj := SortedMap.get?_insert_of_ne _ hj _
  serial := rfl
  request := by
    rw [hr, Option.map_some, herror]
    exact SortedMap.get?_insert_self _ _ _
  entries d hd := hent d (hd p hr)

theorem sharedSetupClock_eq_some {clock : SetupClock} (h : m.sharedSetupClock c = some clock) :
    ∃ e o, m.entries.get? c = some e ∧ e.state = .opening o ∧ o.clock = some (.shared clock) := by
  unfold sharedSetupClock at h
  split at h
  · rename_i request k networkMs interactionMs cancel hs
    obtain ⟨e, he, hs⟩ := Option.map_eq_some_iff.1 hs
    exact ⟨e, _, he, hs, by rw [Option.some.inj h]⟩
  · cases h

theorem sharedSetupClock_of_shared {o : Opening} {clock : SetupClock}
    (hc : m.entries.get? c = some e) (he : e.state = .opening o)
    (hk : o.clock = some (.shared clock)) : m.sharedSetupClock c = some clock := by
  obtain ⟨_, _, _, _, _⟩ := o
  cases hk
  simp [sharedSetupClock, hc, he]

theorem putConnectClock_eq {o : Opening} (hc : m.entries.get? c = some e)
    (he : e.state = .opening o) (k : ConnectClock) : m.putConnectClock c k =
      m.putEntry c { e with state := .opening { o with clock := some k } } := by
  simp [putConnectClock, hc, he]

/-- The arbiter of setup errors at most ends a shared clock. -/
theorem arbitrateSetupError_cases (m : PoolMachine) (c : ConnectionId) (error : Error) :
    (m.arbitrateSetupError c error).1 = m ∨
      ∃ e o k k', m.entries.get? c = some e ∧ e.state = .opening o ∧ o.clock = some (.shared k) ∧
        (m.arbitrateSetupError c error).1 =
          m.putEntry c { e with state := .opening { o with clock := some (.shared k') } } := by
  unfold arbitrateSetupError
  cases hs : m.sharedSetupClock c with
  | none => exact .inl rfl
  | some k =>
    obtain ⟨e, o, hc, he, hk⟩ := sharedSetupClock_eq_some hs
    exact .inr ⟨e, o, k, _, hc, he, hk, putConnectClock_eq hc he _⟩

theorem cancelOpening_of_closing (hc : m.entries.get? c = some e) (he : e.state.isClosing = true) :
    m.cancelOpening c = some m := by
  cases hs : e.state <;> simp_all [cancelOpening, State.isClosing]

theorem cancelOpening_reserved {o : Opening} (hc : m.entries.get? c = some e)
    (he : e.state = .opening o) (hk : o.clock = none) :
    m.cancelOpening c = some { m with entries := m.entries.erase c } := by
  simp [cancelOpening, hc, he, hk]

theorem cancelOpening_dialing {o : Opening} {k : ConnectClock} (hc : m.entries.get? c = some e)
    (he : e.state = .opening o) (hk : o.clock = some k) : m.cancelOpening c = some (m.putEntry c
      { e with state := .opening (o.cancelled k (satAdd m.now m.config.cleanupTimeoutMs)) }) := by
  simp [cancelOpening, hc, he, hk, Opening.cancelled]

/-- The requests once this one has failed. -/
def refusing (m : PoolMachine) (r : RequestId) (p : Pending) (error : Error) :
    SortedMap RequestId Pending := m.requests.insert r { p with state := .failed error }

/-- What `fail_request` does. -/
inductive Failing (m : PoolMachine) (r : RequestId) (error : Error) (reason : CloseReason) :
    PoolMachine → Prop
  | gone (hr : m.requests.get? r = none) : Failing m r error reason m
  | failed {p known} (hr : m.requests.get? r = some p)
      (hp : p.state = .failed known) : Failing m r error reason m
  | waiting {p : Pending} (hr : m.requests.get? r = some p) (hp : p.state = .waiting) :
      Failing m r error reason (touch { m with requests := m.refusing r p error })
  -- its connection was closed under it
  | lost {p : Pending} {c : ConnectionId} {e : Entry} (hr : m.requests.get? r = some p)
      (hp : p.state.target = some c) (hc : m.entries.get? c = some e)
      (he : e.state.isClosing = true) :
      Failing m r error reason (touch { m with requests := m.refusing r p error })
  | ready {p l e} (hr : m.requests.get? r = some p)
      (hp : p.state = .ready l) (hc : m.entries.get? l.connection = some e)
      (he : e.state.isClosing = false) :
      Failing m r error reason (touch (touch
        { m with
          requests := m.refusing r p error
          entries := m.entries.insert l.connection (e.shut reason (m.cleanupDeadline e)) }))
  | reserved {p c e o} (hr : m.requests.get? r = some p) (hp : p.state = .opening c)
      (hc : m.entries.get? c = some e) (he : e.state = .opening o) (hk : o.clock = none) :
      Failing m r error reason (touch
        { m with requests := m.refusing r p error, entries := m.entries.erase c })
  | dialing {p c e o k k'} (hr : m.requests.get? r = some p) (hp : p.state = .opening c)
      (hc : m.entries.get? c = some e) (he : e.state = .opening o) (hk : o.clock = some k)
      (hk' : k' = k ∨ k.isShared = true ∧ k'.isShared = true) :
      Failing m r error reason (touch
        { m with
          requests := m.refusing r p (m.arbitrateSetupError c error).2
          entries := m.entries.insert c
            { e with
              state := .opening (o.cancelled k' (satAdd m.now m.config.cleanupTimeoutMs)) } })

theorem sharedSetupClock_eq_none (hc : m.entries.get? c = some e)
    (h : ∀ o k, e.state = .opening o → o.clock ≠ some (.shared k)) :
    m.sharedSetupClock c = none := by
  cases hs : m.sharedSetupClock c with
  | none => rfl
  | some k =>
    obtain ⟨x, o, hx, ho, hk⟩ := sharedSetupClock_eq_some hs
    cases hc.symm.trans hx
    exact absurd hk (h o k ho)

theorem arbitrateSetupError_of_none (hs : m.sharedSetupClock c = none) (error : Error) :
    m.arbitrateSetupError c error = (m, error) := by
  simp [arbitrateSetupError, hs]

/-- A request points to a connection that works for it, or to one that is closing. -/
theorem failRequest_failing (h : Owned m) {error : Error} {reason : CloseReason}
    {result : Except Error Unit} (hx : m.failRequest r error reason = some (t, result)) :
    Failing m r error reason t := by
  unfold failRequest at hx
  cases hr : m.requests.get? r with
  | none =>
    rw [hr] at hx
    cases hx
    exact .gone hr
  | some p =>
    rw [hr] at hx
    dsimp only at hx
    cases hp : p.state with
    | failed known =>
      rw [hp] at hx
      cases hx
      exact .failed hr hp
    | waiting =>
      simp only [hp, setRequestState, hr, Option.bind_eq_bind, Option.bind_some,
        Option.pure_def] at hx
      cases hx
      exact .waiting hr hp
    | ready l =>
      simp only [hp, Option.bind_eq_bind, Option.pure_def] at hx
      obtain ⟨u, hu, hx⟩ := Option.bind_eq_some_iff.1 hx
      obtain ⟨e, hc, -⟩ := Option.bind_eq_some_iff.1 hu
      cases he : e.state.isClosing with
      | true =>
        rw [startClosing_of_closing hc he] at hu
        cases hu
        simp only [setRequestState, hr, Option.bind_eq_bind, Option.bind_some,
          Option.pure_def] at hx
        cases hx
        exact .lost hr (by rw [hp]; rfl) hc he
      | false =>
        rw [startClosing_eq hc he] at hu
        cases hu
        have hr' : ((m.putEntry l.connection
          (e.shut reason (m.cleanupDeadline e))).touch).requests.get? r = some p := hr
        simp only [setRequestState, hr', Option.bind_eq_bind, Option.bind_some,
          Option.pure_def] at hx
        cases hx
        exact .ready hr hp hc he
    | opening c =>
      simp only [hp, Option.bind_eq_bind, Option.pure_def] at hx
      obtain ⟨u, hu, hx⟩ := Option.bind_eq_some_iff.1 hx
      have hcancel := hu
      obtain ⟨e', hc', -⟩ := Option.bind_eq_some_iff.1 hu
      rcases arbitrateSetupError_cases m c error with hsame | ⟨e, o, k, k', hc, he, hk, hput⟩
      · rw [hsame] at hcancel hc'
        cases he : e'.state.isClosing with
        | true =>
          have hclock : m.sharedSetupClock c = none := sharedSetupClock_eq_none hc' fun o k ho => by
            rw [ho] at he
            cases he
          rw [cancelOpening_of_closing hc' he] at hcancel
          cases hcancel
          simp only [arbitrateSetupError_of_none hclock, setRequestState, hr, Option.bind_eq_bind,
            Option.bind_some, Option.pure_def] at hx
          cases hx
          exact .lost hr (by rw [hp]; rfl) hc' he
        | false =>
          have htie : p.tie = some (c, none, some p.request.owner) := by simp [Pending.tie, hp]
          obtain ⟨o, ho, -⟩ := Entry.of_tie_dial (h.entry_of_target hr htie hc' he)
          cases hk : o.clock with
          | none =>
            rw [cancelOpening_reserved hc' ho hk] at hcancel
            cases hcancel
            have hclock : m.sharedSetupClock c = none :=
              sharedSetupClock_eq_none hc' fun o' k ho' hk' => by
                cases ho.symm.trans ho'
                cases hk.symm.trans hk'
            simp only [arbitrateSetupError_of_none hclock, setRequestState, hr,
              Option.bind_eq_bind, Option.bind_some, Option.pure_def] at hx
            cases hx
            exact .reserved hr hp hc' ho hk
          | some k =>
            rw [cancelOpening_dialing hc' ho hk] at hcancel
            cases hcancel
            simp only [setRequestState, putEntry, hr, Option.bind_eq_bind, Option.bind_some,
              Option.pure_def] at hx
            cases hx
            exact .dialing hr hp hc' ho hk (.inl rfl)
      · -- a shared clock has its say, and the opening is cancelled under it
        rw [hput, cancelOpening_dialing (e := { e with
          state := .opening { o with clock := some (.shared k') } })
          (SortedMap.get?_insert_self _ _ _) rfl rfl] at hcancel
        cases hcancel
        simp only [setRequestState, putEntry, hr, Option.bind_eq_bind, Option.bind_some,
          Option.pure_def, SortedMap.insert_insert] at hx
        cases hx
        exact .dialing (o := o) hr hp hc he hk (.inr ⟨rfl, rfl⟩)

theorem cancelOpening_eq_some (hc : m.entries.get? c = some e) :
    ∃ u, m.cancelOpening c = some u ∧ u.requests = m.requests := by
  simp only [cancelOpening, hc, Option.bind_eq_bind, Option.bind_some]
  split
  · split_ifs
    · exact ⟨_, rfl, rfl⟩
    · exact ⟨_, rfl, rfl⟩
  · exact ⟨_, rfl, rfl⟩

theorem failRequest_ne_none (hl : Linked m) (r : RequestId) (error : Error)
    (reason : CloseReason) : m.failRequest r error reason ≠ none := by
  unfold failRequest
  cases hr : m.requests.get? r with
  | none => exact Option.some_ne_none _
  | some p =>
    have hentry : ∀ {c x}, p.tie = some (c, x) → ∃ e, m.entries.get? c = some e := fun htie =>
      Option.ne_none_iff_exists'.1 (Linked.entry_ne_none hl hr htie)
    dsimp only
    cases hp : p.state with
    | failed => exact Option.some_ne_none _
    | waiting => simp [setRequestState, hr]
    | ready l =>
      obtain ⟨e, hc⟩ := hentry (c := l.connection) (by rw [Pending.tie, hp])
      by_cases he : e.state.isClosing = true
      · simp [startClosing_of_closing hc he, setRequestState, hr]
      · simp [startClosing_eq hc (by simpa using he), setRequestState, touch, putEntry, hr]
    | opening c =>
      obtain ⟨e, hc⟩ := hentry (c := c) (by rw [Pending.tie, hp])
      obtain ⟨u, hu, hrequests⟩ : ∃ u,
          (m.arbitrateSetupError c error).1.cancelOpening c = some u ∧ u.requests = m.requests := by
        rcases arbitrateSetupError_cases m c error with hsame | ⟨x, o, k, k', -, -, -, hput⟩
        · rw [hsame]
          exact cancelOpening_eq_some hc
        · rw [hput]
          exact cancelOpening_eq_some (SortedMap.get?_insert_self _ _ _)
      simp [hu, setRequestState, hrequests, hr]

/-- A connection without a shared clock leaves a failing request its error. -/
theorem failure_eq (hc : m.entries.get? c = some e) (hp : p.state.target = some c)
    (h : ∀ o k, e.state = .opening o → o.clock ≠ some (.shared k)) (error : Error) :
    m.failure error p = error := by
  unfold failure
  split
  · rename_i hs
    rw [hs] at hp
    cases hp
  · rename_i hs
    rw [hs] at hp
    cases hp
    rw [arbitrateSetupError_of_none (sharedSetupClock_eq_none hc h)]
  · rfl

/-- A request that fails is the only one, and its connection the only one, that changes. -/
theorem Failing.does (h : Owned m) {error : Error} {reason : CloseReason}
    (hf : Failing m r error reason t) : Weak Move m [] t ∧ Failed m r error t := by
  have hholds : ∀ {p c e o}, m.requests.get? r = some p → p.state = .opening c →
      m.entries.get? c = some e → e.state = .opening o → o.request = some r := by
    intro p c e o hr hp hc he
    obtain ⟨q, hs, hq⟩ := Entry.of_tie_dial (h.entry_of_target hr (x := (none, _))
      (by rw [Pending.tie, hp]) hc (by rw [he]; rfl))
    cases he.symm.trans hs
    exact hq
  have hother : ∀ {p : Pending} {c d}, p.state = .opening c → p.state.target ≠ some d → d ≠ c := by
    rintro p c d hp hd rfl
    exact hd (by rw [hp]; rfl)
  cases hf with
  | gone hr => exact ⟨.refl m, fun _ _ => rfl, rfl, by rw [hr]; rfl, fun _ _ => rfl⟩
  | failed hr hp =>
    refine ⟨.refl m, fun _ _ => rfl, rfl, ?_, fun _ _ => rfl⟩
    rw [hr, Option.map_some, failure, hp, ← hp]
  | waiting hr hp =>
    exact ⟨.silent (.refuse hr (.inl hp) error _),
      failed_insert hr (by rw [failure, hp]) fun _ _ => rfl⟩
  | @lost p c e hr hp hc he =>
    refine ⟨.silent (.refuse hr (.inr ⟨c, e, hp, hc, he⟩) error _),
      failed_insert hr (failure_eq hc hp (fun o k ho => ?_) error) fun _ _ => rfl⟩
    rw [ho] at he
    cases he
  | @ready p l e hr hp hc he =>
    have hs := Entry.of_tie_lease (h.entry_of_target hr (by rw [Pending.tie, hp]) hc he)
    refine ⟨.silent (.failReady hr hc (by rw [hs]; rfl) (by rw [hs]; rfl) error reason _ _),
      failed_insert hr (by rw [failure, hp]) fun d hd => SortedMap.get?_insert_of_ne _ ?_ _⟩
    rintro rfl
    exact hd (by rw [hp]; rfl)
  | @reserved p c e o hr hp hc he hk =>
    have hs := hholds hr hp hc he
    refine ⟨.silent (.failReserved hr hc he hs hk error _), failed_insert hr
      (failure_eq hc (by rw [hp]; rfl) (fun o' k ho hk' => ?_) error) fun d hd =>
        SortedMap.get?_erase_of_ne _ (hother hp hd)⟩
    cases he.symm.trans ho
    cases hk.symm.trans hk'
  | @dialing p c e o k k' hr hp hc he hk hk' =>
    have hs := hholds hr hp hc he
    exact ⟨.silent (.failDialing hr hc he hs (by rw [hk]; rfl) k' _ _ _), failed_insert hr
      (by rw [failure, hp]) fun d hd => SortedMap.get?_insert_of_ne _ (hother hp hd) _⟩

theorem failRequest_does (h : Owned m) (r : RequestId) (error : Error) (reason : CloseReason) :
    linked.Does m [] ((m.failRequest r error reason).map (·.1)) (Failed m r error) := by
  refine ⟨fun hx hl => failRequest_ne_none hl r error reason (Option.map_eq_none_iff.1 hx),
    fun t ht => ?_⟩
  obtain ⟨⟨u, result⟩, hx, rfl⟩ := Option.map_eq_some_iff.1 ht
  exact (failRequest_failing h hx).does h

/-- A failed request keeps its error. -/
theorem Move.failed_origin {k : Option Mark} (h : Owned m) (hv : Move m k m') {q p : Pending}
    (hq : m'.requests.get? r = some q) (hr : m.requests.get? r = some p) {error : Error}
    (hp : p.state = .failed error) : q.state = .failed error := by
  obtain ⟨p₀, hr₀, hb⟩ := hv.request_origin hq
  cases hr.symm.trans hr₀
  rcases hb.cause with hsame | hwait | htarget | ⟨c, e, hc, hh⟩
  · exact hsame.trans hp
  · rw [hp] at hwait
    cases hwait
  · rw [hp] at htarget
    cases htarget
  · -- a connection works for it, so it has not failed
    obtain ⟨x, hx⟩ := Entry.tie_of_holder hh
    have ht := h.matching.target_of_holder ((holders_of_get hc).trans hx)
    rw [targets_of_get hr, Pending.tie, hp] at ht
    cases ht

/-- A failed request stays failed. -/
theorem Settled.step {k : Option Mark} (h : Owned m) (hs : Settled m r) (hv : Move m k m') :
    Settled m' r := by
  intro q hq
  obtain ⟨p, hr, -⟩ := hv.request_origin hq
  obtain ⟨error, hp⟩ := hs p hr
  exact ⟨error, hv.failed_origin h hq hr hp⟩

theorem Settled.weak {marks : List Mark} (h : Owned m) (hs : Settled m r)
    (hw : Weak Move m marks m') : Settled m' r :=
  (hw.invariant (P := fun t => Owned t ∧ Settled t r) (A := fun _ => True)
    (fun _ _ _ _ ht hv => ⟨ht.1.step hv, ht.2.step ht.1 hv⟩) (by simp) ⟨h, hs⟩).2

end PoolMachine

end GwzTransport.Pool
