import GwzTransport.Pool.Moves

/-!
# What a move does to the connections and to the requests

A move changes one connection, removes one, brings in the next one or leaves all of them alone,
and it sets the state of one request, drops one or leaves all of them alone.

* `Entry.Becomes`: how a connection changes, with what the code has checked;
* `Entry.Leaves`: how one is removed;
* `EntryChange`: the two together with the new connection, and `Move.entryChange` from moves;
* `Origin` and `Fate`: the same seen from one connection, backwards and forwards;
* `RequestChange`: what can happen to the requests.
-/

namespace GwzTransport.Pool

open Protocol MachineInt Transition

inductive Entry.Becomes (m : PoolMachine) (c : ConnectionId) (e : Entry) :
    Option Mark → Entry → Prop
  | lease {r p since} (hr : m.requests.get? r = some p)
      (hp : p.state = .waiting) (hfresh : p.request.fresh = false)
      (hfull : m.ownerFull p.request = false) (he : e.state = .idle since)
      (hcompat : PoolMachine.compatible p.request c e = true) :
      Becomes m c e none
        { e with
          owner := some p.request.owner, idleSince := some since
          state := .leased ⟨c, m.leaseSerial + 1⟩ (some r) }
  -- while it opens
  | cancel {r o} (he : e.state = .opening o) (ho : o.request = some r)
      (hclock : o.clock.isSome = true) (k : ConnectClock) (deadline : ℕ) :
      Becomes m c e none { e with state := .opening (o.cancelled k deadline) }
  | clock {o k} (he : e.state = .opening o) (hclock : o.clock = some k) (k' : ConnectClock)
      (hk : k'.isShared = true ∨ k.isShared = false ∧
        ∀ r p, o.request = some r → m.requests.get? r = some p → k'.Within p)
      (interactionMs : ℕ) :
      Becomes m c e none { e with state := .opening { o with clock := some k', interactionMs } }
  | connect {o} (he : e.state = .opening o) (hclock : o.clock = none)
      (hcancel : o.cancel = none) (deadline : Option ℕ)
      (hk : ∀ r p, o.request = some r → m.requests.get? r = some p →
        (ConnectClock.network deadline).Within p) :
      Becomes m c e (some (.event c .connect))
        { e with state := .opening { o with clock := some (.network deadline) } }
  | cancelConnect {o k} (he : e.state = .opening o)
      (hcancel : o.cancel = some k) (hsent : k.sent = false) (haborted : k.aborted = false) :
      Becomes m c e (some (.event c .cancelConnect))
        { e with state := .opening { o with cancel := some { k with sent := true } } }
  | abortConnect {o k} (he : e.state = .opening o)
      (hcancel : o.cancel = some k) (haborted : k.aborted = false) :
      Becomes m c e (some (.event c .abortConnect))
        { e with state := .opening { o with cancel := some { k with aborted := true } } }
  | ready {r p o} (hr : m.requests.get? r = some p)
      (he : e.state = .opening o) (ho : o.request = some r) (hclock : o.clock.isSome = true)
      (reusable : Bool) :
      Becomes m c e (some (.event c (.connected true)))
        { e with reusable, born := m.now, state := .leased ⟨c, m.leaseSerial + 1⟩ (some r) }
  | refused {o} (he : e.state = .opening o) (hclock : o.clock.isSome = true)
      (reason : CloseReason) (deadline : ℕ) :
      Becomes m c e (some (.event c (.connected true))) (e.shut reason deadline)
  -- while it is established
  | take {l r} (he : e.state = .leased l (some r)) :
      Becomes m c e none { e with state := .leased l none }
  | scope (he : e.state.isLeased = true) (hid : e.identity = .https) (scope : String) :
      Becomes m c e (some (.scoped c scope)) { e with identity := .httpsScoped scope }
  | release {l} (he : e.state = .leased l none) (hreuse : e.reusable = true)
      (hage : aged m.now e.born m.config.maxAgeMs = false) (hstop : m.stopped = false)
      (since : ℕ) :
      Becomes m c e (some (.released c since))
        { e with owner := none, idleSince := none, state := .idle since }
  | shut (he : e.state.isIdle = true ∨ e.state.isLeased = true) (reason : CloseReason)
      (deadline : ℕ) : Becomes m c e none (e.shut reason deadline)
  | retire (he : e.state.isClosing = false) (reason : CloseReason) (deadline : ℕ) :
      Becomes m c e (some (.retired c e.state.holder.isSome)) (e.shut reason deadline)
  -- while it closes
  | sendClose {reason k} (he : e.state = .closing reason k)
      (hsent : k.sent = false) (haborted : k.aborted = false) :
      Becomes m c e (some (.event c .close))
        { e with state := .closing reason { k with sent := true } }
  | sendAbort {reason k} (he : e.state = .closing reason k) (haborted : k.aborted = false) :
      Becomes m c e (some (.event c .abort))
        { e with state := .closing reason { k with aborted := true } }

inductive Entry.Leaves (c : ConnectionId) (e : Entry) : Option Mark → Prop
  | reserved {r o} (he : e.state = .opening o) (ho : o.request = some r)
      (hclock : o.clock = none) : Leaves c e none
  | failed {o} (he : e.state = .opening o) (hclock : o.clock.isSome = true) :
      Leaves c e (some (.event c (.connected false)))
  | closed {reason k} (he : e.state = .closing reason k)
      (hk : (k.sent || k.aborted) = true) : Leaves c e (some (.event c .closed))
  | idleClosed (he : (e.state.isIdle || e.state.isClosing) = true) :
      Leaves c e (some (.event c .idleClosed))

/-- The connection a visible move is about. -/
def Mark.connection : Mark → ConnectionId
  | .event c _ => c
  | .released c _ => c
  | .scoped c _ => c
  | .retired c _ => c

theorem Entry.Becomes.connection {m : PoolMachine} {c : ConnectionId} {e e' : Entry}
    {k : Option Mark} (h : e.Becomes m c k e') : ∀ x ∈ k, x.connection = c := by
  cases h <;> simp [Mark.connection]

/-- No change of a connection changes its key. -/
theorem Entry.Becomes.key {m : PoolMachine} {c : ConnectionId} {e e' : Entry} {k : Option Mark}
    (h : e.Becomes m c k e') : e'.key = e.key := by
  cases h <;> rfl

theorem Entry.Leaves.connection {c : ConnectionId} {e : Entry} {k : Option Mark}
    (h : e.Leaves c k) : ∀ x ∈ k, x.connection = c := by
  cases h <;> simp [Mark.connection]

namespace PoolMachine

/-- The identifier of the next connection. -/
def nextConnection (m : PoolMachine) : ConnectionId := ⟨m.poolId, m.connectionSerial + 1⟩

/-- The connection that a waiting request opens. -/
def reserved (m : PoolMachine) (p : Pending) (o : Opening) : Entry where
  key := p.request.key
  identity := p.request.identity
  reusable := false
  owner := some p.request.owner
  idleSince := none
  born := m.now
  state := .opening o

/-- There is room for a new connection of the request. -/
structure Room (m : PoolMachine) (request : Request) : Prop where
  owner : m.ownerFull request = false
  total : m.entries.size < (m.ceilingsFor request).total
  userHost : m.userHostTotal request.key < (m.ceilingsFor request).perUserHost
  host : m.hostTotal request.key.host < (m.ceilingsFor request).perHost
  site : m.siteFull request.key = false

/-- The connections and the serial of the last one after a move. -/
inductive EntryChange (m : PoolMachine) :
    Option Mark → SortedMap ConnectionId Entry → ℕ → Prop
  | keep : EntryChange m none m.entries m.connectionSerial
  | become {c e e' k} (hc : m.entries.get? c = some e)
      (h : e.Becomes m c k e') : EntryChange m k (m.entries.insert c e') m.connectionSerial
  | leave {c e k} (hc : m.entries.get? c = some e)
      (h : e.Leaves c k) : EntryChange m k (m.entries.erase c) m.connectionSerial
  | reserve {r p o} (hr : m.requests.get? r = some p)
      (hp : p.state = .waiting) (hroom : m.Room p.request) (ho : o.request = some r)
      (hclock : o.clock = none) (hcancel : o.cancel = none) :
      EntryChange m none (m.entries.insert m.nextConnection (m.reserved p o))
        (m.connectionSerial + 1)

variable {m m' : PoolMachine} {k : Option Mark} {c : ConnectionId} {e : Entry}

theorem Move.entryChange (hv : Move m k m') :
    EntryChange m k m'.entries m'.connectionSerial := by
  cases hv with
  | lease hr hp hfresh hfull hc he hcompat =>
    exact .become hc (.lease hr hp hfresh hfull he hcompat)
  | reserve hr hp hfull hsize huser hhost hsite ho hclock hcancel =>
    exact .reserve hr hp ⟨hfull, hsize, huser, hhost, hsite⟩ ho hclock hcancel
  | failReady _ hc he => exact .become hc (.shut (.inr he) _ _)
  | failReserved _ hc he ho hclock => exact .leave hc (.reserved he ho hclock)
  | failDialing _ hc he ho hclock => exact .become hc (.cancel he ho hclock _ _)
  | clock hc he hclock k' hk => exact .become hc (.clock he hclock k' hk _)
  | connect hc he hclock hcancel deadline hk =>
    exact .become hc (.connect he hclock hcancel deadline hk)
  | cancelConnect hc he hcancel hsent haborted =>
    exact .become hc (.cancelConnect he hcancel hsent haborted)
  | abortConnect hc he hcancel haborted => exact .become hc (.abortConnect he hcancel haborted)
  | connectedErr hc he hclock => exact .leave hc (.failed he hclock)
  | connectedReady hr hc he ho hclock => exact .become hc (.ready hr he ho hclock _)
  | connectedClosing hc he hclock => exact .become hc (.refused he hclock _ _)
  | take _ hc he => exact .become hc (.take he)
  | scope hc he hid => exact .become hc (.scope he hid _)
  | release hc he hreuse hage hstop => exact .become hc (.release he hreuse hage hstop _)
  | close hc he =>
    refine .become hc (.shut (he.imp_right ?_) _ _)
    rintro ⟨l, he⟩
    rw [he]
    rfl
  | retire hc he => exact .become hc (.retire he _ _)
  | sendClose hc he hsent haborted => exact .become hc (.sendClose he hsent haborted)
  | sendAbort hc he haborted => exact .become hc (.sendAbort he haborted)
  | closed hc he hk => exact .leave hc (.closed he hk)
  | idleClosed hc he => exact .leave hc (.idleClosed he)
  | _ => exact .keep

/-- Where a connection of the next state comes from. -/
inductive Origin (m : PoolMachine) (c : ConnectionId) (k : Option Mark) (e' : Entry) : Prop
  | same (hc : m.entries.get? c = some e') (hk : ∀ x ∈ k, x.connection ≠ c)
  | changed {e : Entry} (hc : m.entries.get? c = some e) (h : e.Becomes m c k e')
  | reserved {r p o} (hr : m.requests.get? r = some p)
      (hp : p.state = .waiting) (hroom : m.Room p.request) (ho : o.request = some r)
      (hclock : o.clock = none) (hcancel : o.cancel = none) (hnext : c = m.nextConnection)
      (hk : k = none) (he : e' = m.reserved p o)

theorem Move.origin (hv : Move m k m') {e' : Entry} (hc : m'.entries.get? c = some e') :
    Origin m c k e' := by
  have hch := hv.entryChange
  revert hc hch
  generalize m'.entries = es, m'.connectionSerial = serial
  intro hc hch
  cases hch with
  | keep => exact .same hc nofun
  | @become d e x k hd h =>
    rw [SortedMap.get?_insert] at hc
    split_ifs at hc with hcd
    · subst hcd
      cases hc
      exact .changed hd h
    · exact .same hc fun y hy hyc => hcd (hyc ▸ h.connection y hy)
  | @leave d e k hd h =>
    rw [SortedMap.get?_erase] at hc
    split_ifs at hc with hcd
    exact .same hc fun y hy hyc => hcd (hyc ▸ h.connection y hy)
  | reserve hr hp hroom ho hclock hcancel =>
    rw [SortedMap.get?_insert] at hc
    split_ifs at hc with hcd
    · exact .reserved hr hp hroom ho hclock hcancel hcd rfl (Option.some.inj hc).symm
    · exact .same hc nofun

/-- A visible move is about a connection that is there. -/
theorem Move.entry_of_mark (hv : Move m k m') {x : Mark} (hx : x ∈ k) :
    ∃ e, m.entries.get? x.connection = some e := by
  have hch := hv.entryChange
  revert hch
  generalize m'.entries = es, m'.connectionSerial = serial
  intro hch
  cases hch with
  | keep => cases hx
  | become hc h => exact ⟨_, h.connection x hx ▸ hc⟩
  | leave hc h => exact ⟨_, h.connection x hx ▸ hc⟩
  | reserve => cases hx

theorem Move.serial_le (hv : Move m k m') : m.connectionSerial ≤ m'.connectionSerial := by
  have hch := hv.entryChange
  revert hch
  generalize m'.entries = es, m'.connectionSerial = serial
  intro hch
  cases hch <;> simp

/-- Only the next connection is new. -/
theorem Move.serial_of_new (hv : Move m k m') {e' : Entry} (hnew : m.entries.get? c = none)
    (hc : m'.entries.get? c = some e') :
    c = m.nextConnection ∧ m'.connectionSerial = m.connectionSerial + 1 := by
  have hch := hv.entryChange
  revert hc hch
  generalize m'.entries = es, m'.connectionSerial = serial
  intro hc hch
  cases hch with
  | keep =>
    rw [hnew] at hc
    cases hc
  | @become d e x k hd h =>
    rw [SortedMap.get?_insert] at hc
    split_ifs at hc with hcd
    · rw [← hcd, hnew] at hd
      cases hd
    · rw [hnew] at hc
      cases hc
  | leave =>
    rw [SortedMap.get?_erase] at hc
    split_ifs at hc
    rw [hnew] at hc
    cases hc
  | reserve =>
    rw [SortedMap.get?_insert] at hc
    split_ifs at hc with hcd
    · exact ⟨hcd, rfl⟩
    · rw [hnew] at hc
      cases hc

/-- What comes of a connection. -/
inductive Fate (m : PoolMachine) (c : ConnectionId) (k : Option Mark) (e : Entry)
    (x : Option Entry) : Prop
  | same (hx : x = some e) (hk : ∀ x ∈ k, x.connection ≠ c)
  | changed {e'} (hx : x = some e') (h : e.Becomes m c k e')
  | left (hx : x = none) (h : e.Leaves c k)

theorem Move.fate (hv : Move m k m') (hc : m.entries.get? c = some e)
    (hnext : m.entries.get? m.nextConnection = none) : Fate m c k e (m'.entries.get? c) := by
  have hch := hv.entryChange
  revert hch
  generalize m'.entries = es, m'.connectionSerial = serial
  intro hch
  cases hch with
  | keep => exact .same hc nofun
  | @become d x x' k hd h =>
    rw [SortedMap.get?_insert]
    split_ifs with hcd
    · subst hcd
      cases hd.symm.trans hc
      exact .changed rfl h
    · exact .same hc fun y hy hyc => hcd (hyc ▸ h.connection y hy)
  | @leave d x k hd h =>
    rw [SortedMap.get?_erase]
    split_ifs with hcd
    · subst hcd
      cases hd.symm.trans hc
      exact .left rfl h
    · exact .same hc fun y hy hyc => hcd (hyc ▸ h.connection y hy)
  | reserve =>
    rw [SortedMap.get?_insert_of_ne]
    · exact .same hc nofun
    · rintro rfl
      rw [hnext] at hc
      cases hc

/-! ### The requests -/

/-- The connection on which a request becomes ready in a move: a compatible idle one, or the one
that was opened for it. -/
inductive Granted (m : PoolMachine) (r : RequestId) (p : Pending) (c : ConnectionId) :
    Option Mark → Prop
  | reused {e since} (hp : p.state = .waiting) (hfresh : p.request.fresh = false)
      (hc : m.entries.get? c = some e) (he : e.state = .idle since)
      (hcompat : compatible p.request c e = true) : Granted m r p c none
  | opened {e o} (hc : m.entries.get? c = some e) (he : e.state = .opening o)
      (ho : o.request = some r) (hclock : o.clock.isSome = true) :
      Granted m r p c (some (.event c (.connected true)))

/-- What a move does to a request: it changes its state and victim only, and a request that gets a
new state was waiting, or pointed to a connection, or had one working for it. -/
structure Pending.Becomes (m : PoolMachine) (r : RequestId) (p : Pending) (k : Option Mark)
    (p' : Pending) (serial : ℕ) : Prop where
  same : p' = { p with state := p'.state, eviction := p'.eviction }
  waiting : p'.state = .waiting → p.state = .waiting
  cause : p'.state = p.state ∨ p.state = .waiting ∨ p.state.target.isSome = true ∨
    ∃ c e, m.entries.get? c = some e ∧ e.state.holder = some r
  ready : ∀ l, p'.state = .ready l → p.state = .ready l ∨
    (l.generation = m.leaseSerial + 1 ∧ serial = m.leaseSerial + 1) ∧
      Granted m r p l.connection k

theorem Pending.Becomes.refl (m : PoolMachine) (r : RequestId) (p : Pending) (k : Option Mark)
    (serial : ℕ) : Pending.Becomes m r p k p serial := ⟨rfl, id, .inl rfl, fun _ => .inl⟩

/-- A request that fails had something to fail with. -/
theorem Pending.Becomes.fails {r : RequestId} {p : Pending} {serial : ℕ} (error : Error)
    (h : p.state = .waiting ∨ p.state.target.isSome = true ∨
      ∃ c e, m.entries.get? c = some e ∧ e.state.holder = some r) :
    Pending.Becomes m r p k { p with state := .failed error } serial :=
  ⟨rfl, nofun, .inr h, nofun⟩

/-- The requests and the serial of the last lease after a move. -/
inductive RequestChange (m : PoolMachine) (k : Option Mark) :
    SortedMap RequestId Pending → ℕ → Prop
  | keep : RequestChange m k m.requests m.leaseSerial
  | set {r p p' serial} (hr : m.requests.get? r = some p)
      (hserial : m.leaseSerial ≤ serial) (h : Pending.Becomes m r p k p' serial) :
      RequestChange m k (m.requests.insert r p') serial
  | drop (r : RequestId) : RequestChange m k (m.requests.erase r) m.leaseSerial

theorem RequestChange.of_answer (hc : m.entries.get? c = some e) (error : Error) :
    RequestChange m k (m.answer e.state.holder error) m.leaseSerial := by
  unfold answer
  split
  · exact .keep
  · rename_i r hh
    split
    · exact .keep
    · rename_i p hr
      exact .set hr le_rfl (.fails error (.inr (.inr ⟨c, e, hc, hh⟩)))

theorem Move.requestChange (hv : Move m k m') :
    RequestChange m k m'.requests m'.leaseSerial := by
  cases hv with
  | note hr => exact .set hr le_rfl ⟨rfl, id, .inl rfl, fun _ => .inl⟩
  | refuse hr hp error =>
    refine .set hr le_rfl (.fails error (hp.imp_right ?_))
    rintro ⟨d, x, hd, -⟩
    exact .inl (by rw [hd]; rfl)
  | @lease r p c e since hr hp hfresh hfull hc he hcompat =>
    refine .set hr (Nat.le_succ _) ⟨rfl, nofun, .inr (.inl hp), fun l hl => .inr ?_⟩
    cases hl
    exact ⟨⟨rfl, rfl⟩, .reused hp hfresh hc he hcompat⟩
  | reserve hr hp => exact .set hr le_rfl ⟨rfl, nofun, .inr (.inl hp), nofun⟩
  | failReady hr hc he hh error =>
    exact .set hr le_rfl (.fails error (.inr (.inr ⟨_, _, hc, hh⟩)))
  | failReserved hr hc he ho _ error =>
    exact .set hr le_rfl (.fails error (.inr (.inr ⟨_, _, hc, by rw [he]; exact ho⟩)))
  | failDialing hr hc he ho _ _ error =>
    exact .set hr le_rfl (.fails error (.inr (.inr ⟨_, _, hc, by rw [he]; exact ho⟩)))
  | @connectedReady r p c e o hr hc he ho hclock =>
    refine .set hr (Nat.le_succ _) ⟨rfl, nofun,
      .inr (.inr (.inr ⟨c, e, hc, by rw [he]; exact ho⟩)), fun l hl => .inr ?_⟩
    cases hl
    exact ⟨⟨rfl, rfl⟩, .opened hc he ho hclock⟩
  | @connectedErr c e o hc he hclock error =>
    have := RequestChange.of_answer (k := some (.event c (.connected false))) hc error
    rwa [he] at this
  | @connectedClosing c e o hc he hclock error =>
    have := RequestChange.of_answer (k := some (.event c (.connected true))) hc error
    rwa [he] at this
  | forget => exact .drop _
  | take => exact .drop _
  | takeLost => exact .drop _
  | _ => exact .keep

theorem Move.leaseSerial_le (hv : Move m k m') : m.leaseSerial ≤ m'.leaseSerial := by
  have hch := hv.requestChange
  revert hch
  generalize m'.requests = rs, m'.leaseSerial = serial
  intro hch
  cases hch with
  | set _ hserial => exact hserial
  | _ => exact le_rfl

/-- Where a request of the next state comes from. -/
theorem Move.request_origin (hv : Move m k m') {r : RequestId} {p' : Pending}
    (hr : m'.requests.get? r = some p') :
    ∃ p, m.requests.get? r = some p ∧ Pending.Becomes m r p k p' m'.leaseSerial := by
  have hch := hv.requestChange
  revert hr hch
  generalize m'.requests = rs, m'.leaseSerial = serial
  intro hr hch
  cases hch with
  | keep => exact ⟨p', hr, .refl m r p' _ _⟩
  | @set j p q serial hj hserial h =>
    rw [SortedMap.get?_insert] at hr
    split_ifs at hr with hrj
    · subst hrj
      cases hr
      exact ⟨p, hj, h⟩
    · exact ⟨p', hr, .refl m r p' _ _⟩
  | drop j =>
    rw [SortedMap.get?_erase] at hr
    split_ifs at hr
    exact ⟨p', hr, .refl m r p' _ _⟩

/-- A move changes one request at most. -/
theorem Move.one_request (hv : Move m k m') {r r' : RequestId} {p p' : Pending}
    (hr : m'.requests.get? r = some p) (hr' : m'.requests.get? r' = some p')
    (hne : m.requests.get? r ≠ some p) (hne' : m.requests.get? r' ≠ some p') : r = r' := by
  have hch := hv.requestChange
  revert hr hr' hch
  generalize m'.requests = rs, m'.leaseSerial = serial
  intro hr hr' hch
  cases hch with
  | keep => exact absurd hr hne
  | @set j q q' serial hj =>
    have hset : ∀ {i x}, (m.requests.insert j q').get? i = some x → m.requests.get? i ≠ some x →
        i = j := by
      intro i x hi hne
      by_contra hij
      rw [SortedMap.get?_insert_of_ne _ hij] at hi
      exact hne hi
    exact (hset hr hne).trans (hset hr' hne').symm
  | drop j =>
    rw [SortedMap.get?_erase] at hr
    split_ifs at hr
    exact absurd hr hne

end PoolMachine

end GwzTransport.Pool
