import GwzTransport.Pool.Leases

/-!
# Identity isolation

A connection carries one identity, the one of the request it was opened for, and is granted to
requests of that identity only.  An HTTPS connection may gain a credential scope while it is
leased, once; from then on it counts for that scope alone.  A connection whose connect proved no
identity serves the request it was opened for and no other, and none of a retired scope serves
any request.

* `Proper`: an opening connection suits its request;
* `grant_entry`: what a run of moves that makes a request ready leaves;
* `Spent`: connections that are not granted any more.
-/

namespace GwzTransport.Pool

open Protocol MachineInt Transition

/-- What a connection has to be for a request to get it. -/
structure Suits (request : Request) (c : ConnectionId) (e : Entry) : Prop where
  key : e.key = request.key
  identity : e.identity = request.identity
  not_excluded : c ∉ request.exclude

theorem Suits.of_compatible {request : Request} {c : ConnectionId} {e : Entry}
    (h : PoolMachine.compatible request c e = true) : Suits request c e := by
  simp only [PoolMachine.compatible, Bool.and_eq_true, beq_iff_eq, Bool.not_eq_true',
    List.contains_eq_mem, decide_eq_false_iff_not] at h
  exact ⟨h.1.1.1, h.1.2, h.2⟩

/-- A connection that opens has opened before, under the same key and identity. -/
theorem Entry.Becomes.opening {m : PoolMachine} {c : ConnectionId} {e e' : Entry}
    {k : Option Mark} {o' : Opening} (h : e.Becomes m c k e') (he' : e'.state = .opening o') :
    ∃ o, e.state = .opening o ∧ e'.key = e.key ∧ e'.identity = e.identity ∧
      (∀ r, o'.request = some r → o.request = some r) ∧
      (o'.clock.isSome = true → o.clock.isSome = true ∨ k = some (.event c .connect)) := by
  cases h with
  | @cancel r o he ho hclock =>
    cases he'
    exact ⟨o, he, rfl, rfl, fun _ hr => (by cases hr), fun _ => .inl hclock⟩
  | @clock o k he hclock =>
    cases he'
    exact ⟨o, he, rfl, rfl, fun _ => id, fun _ => .inl (by rw [hclock]; rfl)⟩
  | @connect o he =>
    cases he'
    exact ⟨o, he, rfl, rfl, fun _ => id, fun _ => .inr rfl⟩
  | @cancelConnect o k he =>
    cases he'
    exact ⟨o, he, rfl, rfl, fun _ => id, .inl⟩
  | @abortConnect o k he =>
    cases he'
    exact ⟨o, he, rfl, rfl, fun _ => id, .inl⟩
  | scope he =>
    rw [show e.state = .opening o' from he'] at he
    cases he
  | _ => cases he'

/-- The identity of a connection changes only when it gains a scope. -/
theorem Entry.Becomes.identity {m : PoolMachine} {c : ConnectionId} {e e' : Entry}
    {k : Option Mark} (h : e.Becomes m c k e') : e'.identity = e.identity ∨
      e.identity = .https ∧ ∃ scope, k = some (.scoped c scope) := by
  cases h with
  | scope _ hid scope => exact .inr ⟨hid, scope, rfl⟩
  | _ => exact .inl rfl

/-- The visible move neither retires a connection nor gives it a scope. -/
def Mark.Plain (x : Mark) : Prop := (∀ c busy, x ≠ .retired c busy) ∧ ∀ c scope, x ≠ .scoped c scope

namespace PoolMachine

variable {m m' t : PoolMachine} {c : ConnectionId} {k : Option Mark} {call : Call}
  {out : Outcome} {r : RequestId} {p : Pending} {l : LeaseId} {marks : List Mark}
  {tr : List (Call × Outcome)}

/-- The connections that requests exclude have been issued, and an opening connection suits its
request. -/
structure Proper (m : PoolMachine) : Prop where
  issued : ∀ r p, m.requests.get? r = some p → ∀ c ∈ p.request.exclude, c.pool = m.poolId →
    c.serial ≤ m.connectionSerial
  opens : ∀ c e o r p, m.entries.get? c = some e → e.state = .opening o → o.request = some r →
    m.requests.get? r = some p → Suits p.request c e

theorem Proper.step (h : Proper m) (hv : Move m k m') : Proper m' where
  issued r p' hr c hc hpool := by
    obtain ⟨p, hq, hb⟩ := hv.request_origin hr
    rw [hb.same] at hc
    rw [hv.serials.1] at hpool
    exact (h.issued r p hq c hc hpool).trans hv.serial_le
  opens c e' o' r p' hc he ho hr := by
    obtain ⟨p, hq, hb⟩ := hv.request_origin hr
    have hsame : p'.request = p.request := by rw [hb.same]
    rw [hsame]
    cases hv.origin hc with
    | same hd => exact h.opens c e' o' r p hd he ho hq
    | @changed e hd hb =>
      obtain ⟨o, hs, hkey, hid, hreq, -⟩ := hb.opening he
      have hsuits := h.opens c e o r p hd hs (hreq r ho) hq
      exact ⟨hkey.trans hsuits.key, hid.trans hsuits.identity, hsuits.not_excluded⟩
    | reserved hj hp hroom hoj hclock hcancel hnext hk hx =>
      subst hx
      cases he
      cases hoj.symm.trans ho
      cases hj.symm.trans hq
      refine ⟨rfl, rfl, fun hmem => ?_⟩
      rw [hnext] at hmem
      have := h.issued r p hq _ hmem rfl
      simp [nextConnection] at this

theorem Proper.weak (h : Proper m) (hw : Weak Move m marks t) : Proper t :=
  hw.invariant (A := fun _ => True) (fun _ _ _ _ ht hv => ht.step hv) (fun _ _ => trivial) h

/-- A request excludes only connections that exist or have existed: their identifiers are handed
out by the pool alone. -/
def NamesIssued (m : PoolMachine) (call : Call) : Prop :=
  ∀ request absolute, call = .requestUntil request absolute → ∀ c ∈ request.exclude,
    c.pool = m.poolId → c.serial ≤ m.connectionSerial

theorem Proper.entered (h : Proper m) (ho : Owned m) (hn : NamesIssued m call)
    (he : Entered m call t) : Proper t := by
  cases he with
  | @request request absolute id ha =>
    refine ⟨SortedMap.forall_insert _ h.issued (hn _ _ rfl), fun c e o r p hc hs hreq hr => ?_⟩
    -- no connection opens for a request that has just entered
    obtain ⟨q, hq, -⟩ := ho.request_of_opening hc hs hreq
    have hne : r ≠ id := by
      rintro rfl
      rw [ho.absent_of_admitted ha] at hq
      cases hq
    dsimp only at hr
    rw [SortedMap.get?_insert_of_ne _ hne] at hr
    exact h.opens c e o r p hc hs hreq hr
  | _ => exact ⟨h.issued, h.opens⟩

/-! ### The links of one connection -/

/-- A request that points to the connection has it. -/
def LinkedAt (m : PoolMachine) (c : ConnectionId) : Prop :=
  Matching (targets m.requests) (holders m.entries)
    fun d => Lost m.entries m.connectionSerial d ∧ d ≠ c

theorem LinkedAt.of_not_closing (h : Owned m) {e : Entry} (hc : m.entries.get? c = some e)
    (he : e.state.isClosing = false) : LinkedAt m c where
  target_of_holder := h.matching.target_of_holder
  holder_of_target ht := by
    rcases h.matching.holder_of_target ht with hl | hh
    · refine .inl ⟨hl, ?_⟩
      rintro rfl
      rw [hl.2 e hc] at he
      cases he
    · exact .inr hh
  free_of_lost hl := h.matching.free_of_lost hl.1

theorem LinkedAt.step (h : Owned m) (hl : LinkedAt m c) (hv : Move m k m')
    (hk : ∀ busy, k ≠ some (.retired c busy)) : LinkedAt m' c := by
  have hchange := hv.change hl h.next_absent (fun hn => not_lost_next hn.1)
    fun d e hd hl => hl.1.2 e hd
  refine Matching.change hl hchange ?_ ?_ ?_
  · exact fun d hd => ⟨hv.lost hd.1, hd.2⟩
  · intro d hd
    refine ⟨hv.lost_of_retired hd fun e hx => (h.entry_id d e hx).2, ?_⟩
    rintro rfl
    exact hk _ hd
  · exact fun d => holders_of_lost (fun d => Lost m'.entries m'.connectionSerial d ∧ d ≠ c)
      fun x e hx hl => hl.1.2 e hx

/-- The request that a call made ready has its connection. -/
theorem LinkedAt.ready (hl : LinkedAt m l.connection) (hr : m.requests.get? r = some p)
    (hp : p.state = .ready l) :
    ∃ e, m.entries.get? l.connection = some e ∧ e.state = .leased l (some r) := by
  have htie : p.tie = some (l.connection, some l, some p.request.owner) := by simp [Pending.tie, hp]
  rcases hl.holder_of_target ((targets_of_get hr).trans htie) with hf | hh
  · exact absurd rfl hf.2
  · obtain ⟨e, hc, he⟩ := Option.bind_eq_some_iff.1 hh
    exact ⟨e, hc, Entry.of_tie_lease he⟩

/-- What is known of a connection that has been issued: each state of it has the property. -/
def Always (P : Entry → Prop) (m : PoolMachine) (c : ConnectionId) : Prop :=
  c.serial ≤ m.connectionSerial ∧ ∀ e, m.entries.get? c = some e → P e

/-- A property that the changes of a connection keep. -/
theorem Always.step {P : Entry → Prop} (h : Always P m c) (hv : Move m k m')
    (hP : ∀ e e', P e → e.Becomes m c k e' → P e') : Always P m' c := by
  refine ⟨h.1.trans hv.serial_le, fun e' hc => ?_⟩
  cases hv.origin hc with
  | same hd => exact h.2 e' hd
  | changed hd hb => exact hP _ e' (h.2 _ hd) hb
  | reserved _ _ _ _ _ _ hnext =>
    have := h.1
    rw [hnext] at this
    simp [nextConnection] at this

theorem Always.entered {P : Entry → Prop} (h : Always P m c) (he : Entered m call t) :
    Always P t c := by
  cases he <;> exact h

/-- A property that every change of a connection keeps. -/
def Stable (P : Entry → Prop) (c : ConnectionId) : Prop :=
  ∀ (m : PoolMachine) (k : Option Mark) (e e' : Entry), P e → e.Becomes m c k e' → P e'

theorem Always.weak {P : Entry → Prop} (hP : Stable P c) (h : Always P m c)
    (hw : Weak Move m marks t) : Always P t c :=
  hw.invariant (A := fun _ => True) (P := fun t => Always P t c)
    (fun m k _ _ ht hv => ht.step hv (hP m k)) (fun _ _ => trivial) h

theorem Always.run {P : Entry → Prop} (hP : Stable P c) (hs : Sound m) (h : Always P m c)
    (hrun : Run Step m tr t) : Sound t ∧ Always P t c := by
  refine hrun.invariant (P := fun _ m => Sound m ∧ Always P m c) ⟨hs, h⟩ ?_
  rintro tr m ⟨call, out⟩ t - ⟨hs, h⟩ hstep
  obtain ⟨marks, hent, hw, -⟩ := call_weak hs hstep
  exact ⟨hs.step hstep, (h.entered hent).weak hP hw⟩

/-! ### What a grant leaves -/

/-- The move that makes a request ready leases the connection to it as it is. -/
theorem Move.granted (hv : Move m k m') (hserial : m'.leaseSerial = m.leaseSerial + 1)
    (h : BecomesReady m m' r p l) : ∃ e e', m.entries.get? l.connection = some e ∧
      m'.entries.get? l.connection = some e' ∧ e'.state = .leased l (some r) ∧
      e'.key = e.key ∧ e'.identity = e.identity := by
  obtain ⟨hr, hp, hnew⟩ := h
  cases hv with
  | @lease j q d e since hj hq hfresh hfull hd he hcompat v =>
    dsimp only at hr
    rw [SortedMap.get?_insert] at hr
    split_ifs at hr with hrj
    · subst hrj
      cases hr
      cases hp
      exact ⟨e, _, hd, SortedMap.get?_insert_self _ _ _, rfl, rfl, rfl⟩
    · exact absurd hp (hnew p hr)
  | @connectedReady j q d e o hj hd he ho hclock reusable v =>
    dsimp only at hr
    rw [SortedMap.get?_insert] at hr
    split_ifs at hr with hrj
    · subst hrj
      cases hr
      cases hp
      exact ⟨e, _, hd, SortedMap.get?_insert_self _ _ _, rfl, rfl, rfl⟩
    · exact absurd hp (hnew p hr)
  | _ =>
    dsimp only at hserial
    omega

/-- A request that moves make ready has its connection, and the connection suits it. -/
theorem grant_entry (h : Owned m) (hp : Proper m) (hw : Weak Move m marks t)
    (hm : ∀ x ∈ marks, x.Plain) (hready : BecomesReady m t r p l) :
    ∃ e, t.entries.get? l.connection = some e ∧ e.state = .leased l (some r) ∧
      Suits p.request l.connection e := by
  obtain ⟨u, v, q, k, marks₁, marks₂, hw₁, hv, hw₂, rfl, hq, hreq, hgen, hgrant, q', hnew⟩ :=
    grant_of_weak hw hready
  have hu : Owned u := Guard.inv_weak (g := total) hw₁ h
  obtain ⟨e, e', hc, hc', hs, hkey, hid⟩ := hv.granted hgen.2 hnew
  -- the connection suits the request when it is granted
  have hsuits : Suits p.request l.connection e := by
    rw [← hreq]
    cases hgrant with
    | reused hwait hfresh hd he hcompat =>
      cases hc.symm.trans hd
      exact .of_compatible hcompat
    | opened hd he ho =>
      cases hc.symm.trans hd
      exact (hp.weak hw₁).opens _ _ _ _ _ hd he ho hq
  -- and stays as it is until the end
  have hlast : Owned t ∧ LinkedAt t l.connection ∧
      Always (fun x => x.key = e.key ∧ x.identity = e.identity) t l.connection := by
    refine hw₂.invariant (A := Mark.Plain)
      (P := fun t => Owned t ∧ LinkedAt t l.connection ∧
        Always (fun x => x.key = e.key ∧ x.identity = e.identity) t l.connection)
      (fun s k' s' hA hs hv' => ⟨hs.1.step hv', hs.2.1.step hs.1 hv' ?_, hs.2.2.step hv' ?_⟩)
      (fun x hx => hm x (List.mem_append_right _ (List.mem_append_right _ hx)))
      ⟨hu.step hv, .of_not_closing (hu.step hv) hc' (by rw [hs]; rfl), ?_⟩
    · rintro busy rfl
      exact (hA _ rfl).1 _ busy rfl
    · rintro x x' ⟨hxk, hxi⟩ hb
      refine ⟨hb.key.trans hxk, ?_⟩
      rcases hb.identity with hsame | ⟨-, scope, rfl⟩
      · exact hsame.trans hxi
      · exact absurd rfl ((hA _ rfl).2 _ scope)
    · refine ⟨((hu.step hv).entry_id _ e' hc').2, fun x hx => ?_⟩
      cases hc'.symm.trans hx
      exact ⟨hkey, hid⟩
  obtain ⟨x, hx, hxs⟩ := hlast.2.1.ready hready.1 hready.2.1
  obtain ⟨hxk, hxi⟩ := hlast.2.2.2 x hx
  exact ⟨x, hx, hxs, hxk.trans hsuits.key, hxi.trans hsuits.identity, hsuits.not_excluded⟩

/-- A fresh request is made ready by the success of the connect that was made for it. -/
theorem fresh_grant (hw : Weak Move m marks t) (hready : BecomesReady m t r p l)
    (hfresh : p.request.fresh = true) : .event l.connection (.connected true) ∈ marks ∧
      (.event l.connection .connect ∉ marks → ∃ e o, m.entries.get? l.connection = some e ∧
        e.state = .opening o ∧ o.request = some r) := by
  obtain ⟨u, v, q, k, marks₁, marks₂, hw₁, hv, hw₂, rfl, hq, hreq, hgen, hgrant, q', hnew⟩ :=
    grant_of_weak hw hready
  cases hgrant with
  | reused hwait hold =>
    rw [hreq, hfresh] at hold
    cases hold
  | @opened e o hc he ho hclock =>
    refine ⟨List.mem_append_right _ (List.mem_append_left _ (List.mem_singleton_self _)), ?_⟩
    intro hno
    -- backwards, as long as no connect command is handed out, the connection has been dialed
    have key : ∀ e o, u.entries.get? l.connection = some e → e.state = .opening o →
        o.request = some r → o.clock.isSome = true → ∃ e o, m.entries.get? l.connection = some e ∧
          e.state = .opening o ∧ o.request = some r := by
      refine hw₁.invariant (A := fun x => x ≠ .event l.connection .connect)
        (P := fun t => ∀ e o, t.entries.get? l.connection = some e → e.state = .opening o →
          o.request = some r → o.clock.isSome = true → ∃ e o,
            m.entries.get? l.connection = some e ∧ e.state = .opening o ∧ o.request = some r)
        (fun s k' s' hA hs hv' e' o' hc' he' ho' hk' => ?_) ?_
        fun e o hc he ho _ => ⟨e, o, hc, he, ho⟩
      · cases hv'.origin hc' with
        | same hd => exact hs e' o' hd he' ho' hk'
        | changed hd hb =>
          obtain ⟨o, hs', -, -, hreq', hdial⟩ := hb.opening he'
          rcases hdial hk' with hdial | rfl
          · exact hs _ o hd hs' (hreq' r ho') hdial
          · exact absurd rfl (hA _ rfl)
        | reserved _ _ _ _ hclock' _ _ _ hx =>
          subst hx
          cases he'
          rw [hclock'] at hk'
          cases hk'
      · rintro x hx rfl
        exact hno (List.mem_append_left _ hx)
    exact key e o hc he ho hclock

/-! ### Calls -/

theorem scopeHttps_requests (l : LeaseId) (scope : String) :
    (m.scopeHttps l scope).1.requests = m.requests := by
  unfold scopeHttps
  split_ifs
  · rfl
  · split
    · rfl
    · dsimp only
      split_ifs
      · rfl
      · split
        · rfl
        · split_ifs <;> rfl
        · rfl

/-- Where a call makes a request ready, it does so in plain moves. -/
theorem plain_weak (hs : Sound m) (hstep : m.Step (call, out) t) (hready : BecomesReady m t r p l) :
    ∃ u marks, Weak Move u marks t ∧ (∀ x ∈ marks, x.Plain) ∧ BecomesReady u t r p l ∧
      ((∃ marks', Weak Move m marks' u) ∧ marks = [] ∨
        Entered m call u ∧ m.Shows call out marks) := by
  obtain ⟨marks, hent, hw, hshow⟩ := call_weak hs hstep
  by_cases hscope : ∃ l scope, call = .scopeHttps l scope
  · obtain ⟨l', scope, rfl⟩ := hscope
    -- no request changes
    have ht : t = (m.scopeHttps l' scope).1 := by
      have : some ((m.scopeHttps l' scope).1, Outcome.replied (m.scopeHttps l' scope).2) =
        some (t, out) := hstep
      injection this with this
      injection this with this
      exact this.symm
    have hr := hready.1
    rw [ht, scopeHttps_requests] at hr
    exact absurd hready.2.1 (hready.2.2 p hr)
  · by_cases hretire : ∃ scope, call = .retireHttpsScope scope
    · obtain ⟨scope, rfl⟩ := hretire
      obtain ⟨u, marks', hw', -, hreq, -, hx⟩ := retireHttpsScope_cases hs.owned scope
      obtain ⟨t', hu, hy⟩ := Option.map_eq_some_iff.1 hstep
      cases hy
      rw [hx] at hu
      have hou : Owned u := Guard.inv_weak (g := total) hw' hs.owned
      refine ⟨u, [], ((schedule_does _).2 t hu).1, nofun, ?_, .inl ⟨⟨marks', hw'⟩, rfl⟩⟩
      exact ⟨hready.1, hready.2.1, by rw [hreq]; exact hready.2.2⟩
    · refine ⟨_, marks, hw, fun x hx => ⟨?_, ?_⟩, hready.entered hent, .inr ⟨hent, hshow⟩⟩
      · rintro d busy rfl
        obtain ⟨scope, -, hcall, -⟩ := hshow.retired hx
        exact hretire ⟨scope, hcall⟩
      · rintro d scope rfl
        obtain ⟨l', hcall, -⟩ := hshow.scoped hx
        exact hscope ⟨l', scope, hcall⟩

theorem BecomesReady.suits (hs : Sound m) (hp : Proper m) (hn : NamesIssued m call)
    (hstep : m.Step (call, out) t) (hready : BecomesReady m t r p l) :
    ∃ e, t.entries.get? l.connection = some e ∧ e.state = .leased l (some r) ∧
      Suits p.request l.connection e := by
  obtain ⟨u, marks, hw, hm, hnew, ⟨⟨marks', hw'⟩, -⟩ | ⟨hent, -⟩⟩ := plain_weak hs hstep hready
  · exact grant_entry (Guard.inv_weak (g := total) hw' hs.owned) (hp.weak hw') hw hm hnew
  · exact grant_entry (hs.owned.entered hent) (hp.entered hs.owned hn hent) hw hm hnew

theorem BecomesReady.opened (hs : Sound m) (hstep : m.Step (call, out) t)
    (hready : BecomesReady m t r p l) (hfresh : p.request.fresh = true) :
    ∃ e o, m.entries.get? l.connection = some e ∧ e.state = .opening o ∧ o.request = some r := by
  obtain ⟨u, marks, hw, -, hnew, ⟨-, rfl⟩ | ⟨hent, hshow⟩⟩ := plain_weak hs hstep hready
  · cases (fresh_grant hw hnew hfresh).1
  · obtain ⟨hmem, hopen⟩ := fresh_grant hw hnew hfresh
    obtain ⟨result, rfl, hacc, -⟩ := connected_of_eventsOf (hshow.event hmem)
    have hno : .event l.connection .connect ∉ marks := by
      intro hx
      have := hshow.event hx
      rw [eventsOf, if_pos hacc, List.mem_singleton] at this
      cases this
    cases hent
    exact hopen hno

theorem proper_run {config : Config} {poolId : ℕ}
    (h : Run (StepUnder NamesIssued) (fresh config poolId) tr m) : Sound m ∧ Proper m := by
  refine h.invariant (P := fun _ m => Sound m ∧ Proper m) ⟨sound_fresh config poolId, ?_⟩ ?_
  · exact ⟨fun _ _ hr => (by cases hr), fun _ _ _ _ _ hc => (by cases hc)⟩
  · rintro tr m ⟨call, out⟩ t - ⟨hs, hp⟩ ⟨hn, hstep⟩
    obtain ⟨marks, hent, hw, -⟩ := call_weak hs hstep
    exact ⟨hs.step hstep, (hp.entered hs.owned hn hent).weak hw⟩

/-! ### Connections that are not granted any more -/

/-- The connection is established and is not reusable, or it closes. -/
def Entry.Spent (e : Entry) : Prop :=
  e.state.isClosing = true ∨ e.state.isOpening = false ∧ e.reusable = false

theorem stable_spent : Stable Entry.Spent c := by
  rintro m k e e' (h | ⟨ho, hr⟩) hb
  · exact .inl (hb.closing h)
  · cases hb with
    | lease => exact .inr ⟨rfl, hr⟩
    | take => exact .inr ⟨rfl, hr⟩
    | scope => exact .inr ⟨ho, hr⟩
    | release => exact .inr ⟨rfl, hr⟩
    | shut => exact .inl rfl
    | retire => exact .inl rfl
    | sendClose => exact .inl rfl
    | sendAbort => exact .inl rfl
    | refused => exact .inl rfl
    | ready _ he => rw [he] at ho; cases ho
    | cancel he => rw [he] at ho; cases ho
    | clock he => rw [he] at ho; cases ho
    | connect he => rw [he] at ho; cases ho
    | cancelConnect he => rw [he] at ho; cases ho
    | abortConnect he => rw [he] at ho; cases ho

/-- Moves make no request ready on a spent connection. -/
theorem not_granted_of_spent (h : Always Entry.Spent m c) (hw : Weak Move m marks t)
    (hready : BecomesReady m t r p l) : l.connection ≠ c := by
  rintro rfl
  obtain ⟨u, v, q, k, marks₁, marks₂, hw₁, -, -, -, -, -, -, hgrant, -⟩ := grant_of_weak hw hready
  have hu := (h.weak stable_spent hw₁).2
  cases hgrant with
  | reused hwait hfresh hc he hcompat =>
    simp only [compatible, Bool.and_eq_true] at hcompat
    rcases hu _ hc with hcl | ⟨-, hr⟩
    · rw [he] at hcl
      cases hcl
    · rw [hcompat.1.1.2] at hr
      cases hr
  | opened hc he =>
    rcases hu _ hc with hcl | ⟨ho, -⟩
    · rw [he] at hcl
      cases hcl
    · rw [he] at ho
      cases ho

/-- A connection that is spent is never granted again. -/
theorem never_granted (hs : Sound m) (h : Always Entry.Spent m c) {m₁ m₂ : PoolMachine}
    (hrun : Run Step m tr m₁) {x : Call × Outcome} (hstep : m₁.Step x m₂)
    (hready : BecomesReady m₁ m₂ r p l) : l.connection ≠ c := by
  have hm₁ := h.run stable_spent hs hrun
  obtain ⟨call, out⟩ := x
  obtain ⟨marks, hent, hw, -⟩ := call_weak hm₁.1 hstep
  exact not_granted_of_spent (hm₁.2.entered hent) hw (hready.entered hent)

theorem spent_of_lost (h : Lost m.entries m.connectionSerial c) : Always Entry.Spent m c :=
  ⟨h.1, fun e hc => .inl (h.2 e hc)⟩

/-- After an acknowledgement without proof the connection is spent. -/
theorem spent_of_connected (hs : Sound m)
    (hstep : m.Step (.connected c (.ok none), out) t) (hacc : out.accepted = true) :
    Always Entry.Spent t c := by
  obtain ⟨⟨t', result⟩, hx, hy⟩ := Option.map_eq_some_iff.1 hstep
  cases hy
  rcases connected_cases hs.owned hs.timely c (.ok none) with
    ⟨error, hx'⟩ | ⟨u, v, t', hx', ⟨hw, -⟩, hv, hproven, hw'⟩
  · cases hx.symm.trans hx'
    cases hacc
  · cases hx.symm.trans hx'
    refine Always.weak stable_spent ⟨?_, fun e hc => ?_⟩ hw'.weak
    · have hu : Owned u := Guard.inv_weak (g := total) hw hs.owned
      obtain ⟨e, he⟩ := hv.entry_of_mark rfl
      exact (hu.entry_id c e he).2.trans hv.serial_le
    · rcases hproven none e rfl hc with hcl | hreuse
      · exact .inl hcl
      · refine .inr ⟨?_, hreuse⟩
        cases hv.origin hc with
        | same _ hk => exact absurd rfl (hk _ rfl)
        | changed hd hb => cases hb <;> rfl
        | reserved _ _ _ _ _ _ _ hk => cases hk

/-- After the retirement of its scope the connection is spent, before anything is granted. -/
theorem not_granted_of_retired (hs : Sound m) {scope : String} {e : Entry}
    (hc : m.entries.get? c = some e) (hid : e.identity = .httpsScoped scope)
    (hstep : m.Step (.retireHttpsScope scope, out) t) :
    Always Entry.Spent t c ∧ ∀ r p l, BecomesReady m t r p l → l.connection ≠ c := by
  obtain ⟨u, marks, hw, -, hreq, hlost, hx⟩ := retireHttpsScope_cases hs.owned scope
  obtain ⟨t', hu, hy⟩ := Option.map_eq_some_iff.1 hstep
  cases hy
  rw [hx] at hu
  have hw' := ((schedule_does _).2 t hu).1
  have hspent := spent_of_lost (hlost c e hc hid)
  refine ⟨hspent.weak stable_spent hw', fun r p l hready => ?_⟩
  have hnew : BecomesReady u t r p l := ⟨hready.1, hready.2.1, by rw [hreq]; exact hready.2.2⟩
  exact not_granted_of_spent hspent hw' hnew

/-! ### Acknowledgements -/

/-- What is acknowledged as connected was opening. -/
theorem Move.opening_of_connected {ok : Bool} (hv : Move m (some (.event c (.connected ok))) m') :
    ∃ e o, m.entries.get? c = some e ∧ e.state = .opening o := by
  have hch := hv.entryChange
  revert hch
  generalize m'.entries = es, m'.connectionSerial = serial
  intro hch
  cases hch with
  | become hc h =>
    cases h with
    | ready _ he => exact ⟨_, _, hc, he⟩
    | refused he => exact ⟨_, _, hc, he⟩
  | leave hc h =>
    cases h with
    | failed he => exact ⟨_, _, hc, he⟩

def Entry.Established (e : Entry) : Prop := e.state.isOpening = false

theorem stable_established : Stable Entry.Established c := by
  intro m k e e' h hb
  cases he' : e'.state with
  | opening o =>
    obtain ⟨o', hs, -⟩ := hb.opening he'
    rw [Entry.Established, hs] at h
    cases h
  | _ =>
    rw [Entry.Established, he']
    rfl

/-- A connection that is past its opening is never acknowledged again. -/
theorem not_accepted_of_established (hs : Sound m) (h : Always Entry.Established m c)
    {m₁ m₂ : PoolMachine} (hrun : Run Step m tr m₁) {result : Except Failure (Option Identity)}
    (hstep : m₁.Step (.connected c result, out) m₂) : out.accepted = false := by
  have hm₁ := h.run stable_established hs hrun
  obtain ⟨⟨t, answer⟩, hx, hy⟩ := Option.map_eq_some_iff.1 hstep
  cases hy
  rcases connected_cases hm₁.1.owned hm₁.1.timely c result with
    ⟨error, hx'⟩ | ⟨u, v, t, hx', ⟨hw, -⟩, hv, -⟩
  · cases hx.symm.trans hx'
    rfl
  · obtain ⟨e, o, hc, he⟩ := hv.opening_of_connected
    have := (hm₁.2.weak stable_established hw).2 e hc
    rw [Entry.Established, he] at this
    cases this

/-- An acknowledgement that finds the connect neither cancelled nor ended by its setup clock
leases the connection to its request. -/
theorem connected_leases (hs : Sound m) {e : Entry} {o : Opening}
    (hc : m.entries.get? c = some e) (he : e.state = .opening o) (hdial : o.clock.isSome = true)
    (ho : o.request = some r) (hserial : m.leaseSerial < u64Max)
    (hclock : ∀ clock, m.sharedSetupClock c = some clock →
      (completeSetup clock e.identity (.ok none)).2.cause = .completed) :
    ∃ t p, m.Step (.connected c (.ok none), .replied (.ok ())) t ∧
      BecomesReady m t r p ⟨c, m.leaseSerial + 1⟩ := by
  obtain ⟨q, hq, hqs⟩ := hs.owned.request_of_opening hc he ho
  -- past the setup clock
  have hopening : ∀ (u : PoolMachine) (e : Entry) (o : Opening) (shared : Bool), Owned u →
      u.entries.get? c = some e → e.state = .opening o → o.clock.isSome = true →
      o.request = some r → u.requests = m.requests → u.leaseSerial = m.leaseSerial →
      (shared = false → ((o.request.bind u.requests.get?).bind (·.absoluteDeadline)).any
        (fun time => decide (u.now ≥ time)) = false) →
      ∃ t p, u.connectedOpening c (.ok none) shared = some (t, .ok ()) ∧
        t.requests.get? r = some p ∧ p.state = .ready ⟨c, m.leaseSerial + 1⟩ := by
    intro u e o shared hu hc he hdial ho hreq hls hlate
    obtain ⟨clock, hk⟩ := Option.isSome_iff_exists.1 hdial
    have hr : u.requests.get? r = some q := by rw [hreq]; exact hq
    have hcancel : o.cancel.isSome = false := by
      rw [(hu.opening_of_request hr hc he ho).2]
      rfl
    have hif : (!shared && ((o.request.bind u.requests.get?).bind (·.absoluteDeadline)).any
        fun time => decide (u.now ≥ time)) = false := by
      cases shared with
      | true => rfl
      | false => exact hlate rfl
    -- the state in which waiting requests are served again
    let v : PoolMachine :=
      { u with
        leaseSerial := u.leaseSerial + 1
        entries := u.entries.insert c
          { e with
            reusable := false, born := u.now
            state := .leased ⟨c, u.leaseSerial + 1⟩ (some r) }
        requests := u.requests.insert r { q with state := .ready ⟨c, u.leaseSerial + 1⟩ } }
    have hv : u.connectedOk c e o none = some v := by
      simp only [connectedOk, hcancel, Option.any_none, Bool.or_self, Bool.false_eq_true, if_false,
        ho, Option.bind_eq_bind, Option.bind_some, leaseId, hls, hserial, if_true, hc,
        setRequestState, putEntry, hr, Option.pure_def, Option.isSome_none]
      simp only [v, hls, putRequest]
    have hov : Owned v := hu.step (.connectedReady hr hc he ho hdial false u.revision)
    cases hx : v.schedule with
    | none => exact absurd trivial ((schedule_does _).1 hx)
    | some w =>
      refine ⟨w.touch, { q with state := .ready ⟨c, u.leaseSerial + 1⟩ }, ?_, ?_, by rw [hls]⟩
      · simp only [connectedOpening, hc, he, hk, hif, Bool.false_eq_true, if_false, hv, hx,
          Option.bind_eq_bind, Option.bind_some, Option.pure_def]
      · exact ((schedule_does _).2 w hx).2 r _ (SortedMap.get?_insert_self _ _ _)
          fun h => (by cases h)
  have hnew : ∀ q', m.requests.get? r = some q' → q'.state ≠ .ready ⟨c, m.leaseSerial + 1⟩ := by
    intro q' hq'
    cases hq.symm.trans hq'
    rw [hqs]
    intro h
    cases h
  cases hshared : m.sharedSetupClock c with
  | none =>
    obtain ⟨t, p, hx, hr, hp⟩ := hopening m e o false hs.owned hc he hdial ho rfl rfl fun _ =>
      hs.timely.not_late_unshared (fun _ clock _ h => by
        rw [hshared] at h
        cases h) e o hc he hdial
    refine ⟨t, p, ?_, hr, hp, hnew⟩
    simp [Step, PoolMachine.call, connected, hc, hshared, hx]
  | some clock =>
    obtain ⟨e', o', hc', he', hk⟩ := sharedSetupClock_eq_some hshared
    cases hc.symm.trans hc'
    cases he.symm.trans he'
    have hcause := hclock clock hshared
    have hput := putConnectClock_eq hc he (.shared (completeSetup clock e.identity (.ok none)).1)
    have hmove : Move m none (m.putConnectClock c
        (.shared (completeSetup clock e.identity (.ok none)).1)) := by
      rw [hput]
      exact .clock hc he hk _ (.inl rfl) o.interactionMs m.revision
    obtain ⟨t, p, hx, hr, hp⟩ := hopening _
      { e with state := .opening { o with
          clock := some (.shared (completeSetup clock e.identity (.ok none)).1) } } _ true
      (hs.owned.step hmove)
      (by rw [hput]; exact SortedMap.get?_insert_self _ _ _) rfl rfl ho
      (by rw [hput]; rfl) (by rw [hput]; rfl) (fun h => (by cases h))
    refine ⟨t, p, ?_, hr, hp, hnew⟩
    simp [Step, PoolMachine.call, connected, hc, hshared, hcause, hx, Except.isOk, Except.toBool]

/-! ### The identity of a connection -/

/-- A scope is gained once and for all. -/
theorem stable_identity {identity : Identity} (h : identity ≠ .https) :
    Stable (fun e => e.identity = identity) c := by
  intro m k e e' he hb
  rcases hb.identity with hsame | ⟨hhttps, -⟩
  · exact hsame.trans he
  · exact absurd (he.symm.trans hhttps) h

theorem identity_of_scopeHttps {scope : String} {e e' : Entry} (hc : m.entries.get? c = some e)
    (hc' : (m.scopeHttps l scope).1.entries.get? c = some e') : e'.identity = e.identity ∨
      e.identity = .https ∧ l.connection = c ∧ (∃ q, e.state = .leased l q) ∧
        e'.identity = .httpsScoped scope := by
  have hsame : m.entries.get? c = some e' → e'.identity = e.identity := by
    intro h
    cases hc.symm.trans h
    rfl
  unfold scopeHttps at hc'
  split_ifs at hc' with hlive
  · exact .inl (hsame hc')
  · obtain ⟨x, q, hx, hs⟩ := entry_of_isLive (by simpa using hlive)
    simp only [hx] at hc'
    split_ifs at hc'
    · exact .inl (hsame hc')
    · split at hc'
      · rename_i hid
        by_cases hcl : c = l.connection
        · subst hcl
          cases hc.symm.trans hx
          cases (SortedMap.get?_insert_self _ _ _).symm.trans hc'
          exact .inr ⟨hid, rfl, ⟨q, hs⟩, rfl⟩
        · exact .inl (hsame ((SortedMap.get?_insert_of_ne _ hcl _).symm.trans hc'))
      · split_ifs at hc'
        · exact .inl (hsame hc')
        · exact .inl (hsame hc')
      · exact .inl (hsame hc')

/-- One call changes the identity of a connection only by giving a leased HTTPS connection a
scope. -/
theorem identity_of_step (hs : Sound m) (hstep : m.Step (call, out) t) {e e' : Entry}
    (hc : m.entries.get? c = some e) (hc' : t.entries.get? c = some e') :
    e'.identity = e.identity ∨ e.identity = .https ∧ ∃ l scope q, call = .scopeHttps l scope ∧
      l.connection = c ∧ e.state = .leased l q ∧ e'.identity = .httpsScoped scope := by
  by_cases hscope : ∃ l scope, call = .scopeHttps l scope
  · obtain ⟨l, scope, rfl⟩ := hscope
    have ht : some ((m.scopeHttps l scope).1, Outcome.replied (m.scopeHttps l scope).2) =
      some (t, out) := hstep
    injection ht with ht
    injection ht with ht
    rw [← ht] at hc'
    rcases identity_of_scopeHttps hc hc' with hsame | ⟨hid, hcl, ⟨q, hq⟩, hid'⟩
    · exact .inl hsame
    · exact .inr ⟨hid, l, scope, q, rfl, hcl, hq, hid'⟩
  · left
    obtain ⟨marks, hent, hw, hshow⟩ := call_weak hs hstep
    have hstart : Always (fun x => x.identity = e.identity) m c := by
      refine ⟨(hs.owned.entry_id c e hc).2, fun x hx => ?_⟩
      cases hc.symm.trans hx
      rfl
    refine (hw.invariant (A := fun x => ∀ scope, x ≠ .scoped c scope)
      (P := fun t => Always (fun x => x.identity = e.identity) t c)
      (fun u k v hA hu hv => hu.step hv fun x x' hx hb => ?_) ?_ (hstart.entered hent)).2 e' hc'
    · rcases hb.identity with hsame | ⟨-, scope, rfl⟩
      · exact hsame.trans hx
      · exact absurd rfl (hA _ rfl scope)
    · rintro x hx scope rfl
      obtain ⟨l, hcall, -⟩ := hshow.scoped hx
      exact hscope ⟨l, scope, hcall⟩

/-! ### The result -/

/-- What a step grants suits the request that gets it, and a fresh request gets the connection
that was opened for it. -/
def GrantsSuit (m t : PoolMachine) : Prop :=
  ∀ r p l, BecomesReady m t r p l →
    (∃ e, t.entries.get? l.connection = some e ∧ e.state = .leased l (some r) ∧
      Suits p.request l.connection e) ∧
    (p.request.fresh = true → ∃ e o, m.entries.get? l.connection = some e ∧
      e.state = .opening o ∧ o.request = some r)

/-- No later step grants the connection. -/
def NeverGranted (m : PoolMachine) (c : ConnectionId) : Prop :=
  ∀ tr m₁ x m₂ r p l, Run Step m tr m₁ → m₁.Step x m₂ → BecomesReady m₁ m₂ r p l →
    l.connection ≠ c

/-- The acknowledgement finds the connect under way for the request: not cancelled, not ended by
its setup clock, and with a lease number left. -/
structure Finishes (m : PoolMachine) (c : ConnectionId) (r : RequestId) : Prop where
  opening : ∃ e o, m.entries.get? c = some e ∧ e.state = .opening o ∧ o.request = some r
  serial : m.leaseSerial < u64Max
  clock : ∀ e clock, m.entries.get? c = some e → m.sharedSetupClock c = some clock →
    (completeSetup clock e.identity (.ok none)).2.cause = .completed

theorem dispatched_of_accepted {e : Entry} {o : Opening} {result : Except Failure (Option Identity)}
    (hc : m.entries.get? c = some e) (he : e.state = .opening o)
    (hstep : m.Step (.connected c result, out) t) (hacc : out.accepted = true) :
    o.clock.isSome = true := by
  cases hk : o.clock with
  | some clock => rfl
  | none =>
    have hshared : m.sharedSetupClock c = none := by
      cases hx : m.sharedSetupClock c with
      | none => rfl
      | some clock =>
        obtain ⟨e', o', hc', he', hk'⟩ := sharedSetupClock_eq_some hx
        cases hc.symm.trans hc'
        cases he.symm.trans he'
        rw [hk] at hk'
        cases hk'
    simp only [Step, PoolMachine.call, connected, hc, hshared, connectedOpening, he, hk,
      Option.map_some, Option.some.injEq, Prod.mk.injEq] at hstep
    rw [← hstep.2] at hacc
    cases hacc

theorem Finishes.ready (hs : Sound m) (hf : Finishes m c r)
    (hstep : m.Step (.connected c (.ok none), out) t) (hacc : out.accepted = true) :
    ∃ p, BecomesReady m t r p ⟨c, m.leaseSerial + 1⟩ := by
  obtain ⟨e, o, hc, he, ho⟩ := hf.opening
  obtain ⟨t', p, hstep', hready⟩ := connected_leases hs hc he
    (dispatched_of_accepted hc he hstep hacc) ho hf.serial (hf.clock e · hc)
  have : some (t, out) = some (t', .replied (.ok ())) := hstep.symm.trans hstep'
  injection this with this
  injection this with this
  rw [this]
  exact ⟨p, hready⟩

/-- In every run whose requests exclude issued connections only: what is granted suits its request
(key, identity, exclusions, freshness).  A connection that was acknowledged without proof is
granted once at most, with the acknowledgement, and is if that finds the connect under way for
its request; a granted connection is not acknowledged again.  The identity of a connection changes
only when it is leased and gains its scope; from then on it keeps that identity and is granted to
requests of that identity.  The connections of a retired scope are never granted again. -/
theorem identity_isolation {config : Config} {poolId : ℕ}
    (h : Run (StepUnder NamesIssued) (fresh config poolId) tr m) :
    (∀ x t, StepUnder NamesIssued m x t → GrantsSuit m t) ∧
    (∀ c out t, m.Step (.connected c (.ok none), out) t → out.accepted = true →
      NeverGranted t c ∧
      (∀ r p l r' p' l', BecomesReady m t r p l → BecomesReady m t r' p' l' →
        l.connection = c → l'.connection = c → r = r' ∧ l = l') ∧
      ∀ r, Finishes m c r → ∃ p, BecomesReady m t r p ⟨c, m.leaseSerial + 1⟩) ∧
    (∀ x t r p l, StepUnder NamesIssued m x t → BecomesReady m t r p l →
      ∀ tr' m₁ result out m₂, Run Step t tr' m₁ →
        m₁.Step (.connected l.connection result, out) m₂ → out.accepted = false) ∧
    (∀ call out t c e e', m.Step (call, out) t → m.entries.get? c = some e →
      t.entries.get? c = some e' → e'.identity = e.identity ∨
        e.identity = .https ∧ ∃ l scope q, call = .scopeHttps l scope ∧ l.connection = c ∧
          e.state = .leased l q ∧ e'.identity = .httpsScoped scope) ∧
    (∀ c e scope tr' m₁, m.entries.get? c = some e → e.identity = .httpsScoped scope →
      Run (StepUnder NamesIssued) m tr' m₁ →
        (∀ e₁, m₁.entries.get? c = some e₁ → e₁.identity = .httpsScoped scope) ∧
        ∀ x m₂ r p l, StepUnder NamesIssued m₁ x m₂ → BecomesReady m₁ m₂ r p l →
          l.connection = c → p.request.identity = .httpsScoped scope) ∧
    ∀ c e scope out t, m.entries.get? c = some e → e.identity = .httpsScoped scope →
      m.Step (.retireHttpsScope scope, out) t →
        NeverGranted t c ∧ ∀ r p l, BecomesReady m t r p l → l.connection ≠ c := by
  obtain ⟨hs, hp⟩ := proper_run h
  have hsuit : ∀ {m x t}, Sound m → Proper m → StepUnder NamesIssued m x t → GrantsSuit m t := by
    rintro m ⟨call, out⟩ t hs hp ⟨hn, hstep⟩ r p l hready
    exact ⟨hready.suits hs hp hn hstep, hready.opened hs hstep⟩
  have hnever : ∀ {t c}, Sound t → Always Entry.Spent t c → NeverGranted t c := by
    intro t c ht hspent tr' m₁ x m₂ r p l hrun hstep hready
    exact never_granted ht hspent hrun hstep hready
  refine ⟨fun x t hstep => hsuit hs hp hstep, fun c out t hstep hacc => ⟨?_, ?_, ?_⟩, ?_,
    fun call out t c e e' hstep => identity_of_step hs hstep, ?_, ?_⟩
  · exact hnever (hs.step hstep) (spent_of_connected hs hstep hacc)
  · intro r p l r' p' l' hready hready' hl hl'
    have hunder : StepUnder NamesIssued m (.connected c (.ok none), out) t :=
      ⟨fun _ _ hx => (by cases hx), hstep⟩
    obtain ⟨e, he, hes, -⟩ := (hsuit hs hp hunder r p l hready).1
    obtain ⟨e', he', hes', -⟩ := (hsuit hs hp hunder r' p' l' hready').1
    rw [hl'] at he'
    rw [hl, he'] at he
    cases he
    rw [hes'] at hes
    injection hes with hleq hreq
    exact ⟨(Option.some.inj hreq).symm, hleq.symm⟩
  · exact fun r hf => hf.ready hs hstep hacc
  · rintro ⟨call, out⟩ t r p l hstep hready tr' m₁ result out' m₂ hrun hack
    obtain ⟨e, he, hes, -⟩ := (hsuit hs hp hstep r p l hready).1
    have ht := hs.step hstep.2
    refine not_accepted_of_established ht ⟨(ht.owned.entry_id _ e he).2, fun x hx => ?_⟩ hrun hack
    cases he.symm.trans hx
    rw [Entry.Established, hes]
    rfl
  · intro c e scope tr' m₁ hc hid hrun
    have hstable : Stable (fun e => e.identity = .httpsScoped scope) c :=
      stable_identity fun hx => (by cases hx)
    have hstart : Always (fun e => e.identity = .httpsScoped scope) m c := by
      refine ⟨(hs.owned.entry_id c e hc).2, fun x hx => ?_⟩
      cases hc.symm.trans hx
      exact hid
    have hm₁ := hstart.run hstable hs (Run.of_under hrun)
    refine ⟨hm₁.2.2, ?_⟩
    rintro x m₂ r p l hstep hready rfl
    obtain ⟨e₂, he₂, -, hsuits⟩ := (hsuit hm₁.1 (proper_run (h.append hrun)).2 hstep r p l hready).1
    rw [← hsuits.identity]
    exact (hm₁.2.run hstable hm₁.1 (.single hstep.2)).2.2 e₂ he₂
  · intro c e scope out t hc hid hstep
    obtain ⟨hspent, hnow⟩ := not_granted_of_retired hs hc hid hstep
    exact ⟨hnever (hs.step hstep) hspent, hnow⟩

/-- `NamesIssued` as a check. -/
def namesIssued (m : PoolMachine) : Call → Bool
  | .requestUntil request _ => request.exclude.all fun c =>
      c.pool != m.poolId || decide (c.serial ≤ m.connectionSerial)
  | _ => true

theorem namesIssued_sound (m : PoolMachine) (call : Call) (h : m.namesIssued call = true) :
    m.NamesIssued call := by
  rintro request absolute rfl c hc hpool
  have := List.all_eq_true.1 h c hc
  simpa [hpool] using this

/-- An HTTPS connection gains a scope, is released, and is granted to a request of the scope; if
the scope is retired then, it is not granted again. -/
theorem identity_isolation_scoped : ∃ tr m e, Run (StepUnder NamesIssued) (fresh .default 1) tr m ∧
    m.entries.get? ⟨1, 1⟩ = some e ∧ e.identity = .httpsScoped "scope" ∧
    e.state.holder = some ⟨1, 2⟩ ∧
    ∀ out t, m.Step (.retireHttpsScope "scope", out) t → NeverGranted t ⟨1, 1⟩ := by
  obtain ⟨tr, m, hrun, hq⟩ := exists_run (m := fresh .default 1) namesIssued namesIssued_sound
    [.requestUntil (httpsRequest .https "one") none, .nextAction,
      .connected ⟨1, 1⟩ (.ok (some .https)), .take ⟨1, 1⟩,
      .scopeHttps ⟨⟨1, 1⟩, 1⟩ "scope", .release ⟨⟨1, 1⟩, 1⟩ .reusable,
      .requestUntil (httpsRequest (.httpsScoped "scope") "two") none]
    (fun _ m => (m.entries.get? ⟨1, 1⟩).any fun e => e.identity == .httpsScoped "scope" &&
      e.state.holder == some ⟨1, 2⟩) (by decide +kernel)
  simp only [Option.any_eq_true, Bool.and_eq_true, beq_iff_eq] at hq
  obtain ⟨e, hc, hid, hholder⟩ := hq
  exact ⟨tr, m, e, hrun, hc, hid, hholder, fun out t hstep =>
    ((identity_isolation hrun).2.2.2.2.2 ⟨1, 1⟩ e "scope" out t hc hid hstep).1⟩

/-- A connect that is cancelled before it is acknowledged without proof is not leased at all. -/
theorem cancelled_never_leased : ∃ tr m out t, Run (StepUnder NamesIssued) (fresh .default 1) tr m ∧
    m.Step (.connected ⟨1, 1⟩ (.ok none), out) t ∧ out.accepted = true ∧ t.leaseSerial = 0 ∧
      NeverGranted t ⟨1, 1⟩ := by
  obtain ⟨tr, m, hrun, hq⟩ := exists_run (m := fresh .default 1) namesIssued namesIssued_sound
    [.requestUntil (httpsRequest .https "one") none, .nextAction, .cancel ⟨1, 1⟩]
    (fun _ m => (m.call (.connected ⟨1, 1⟩ (.ok none))).any fun x =>
      x.2.accepted && x.1.leaseSerial == 0) (by decide +kernel)
  simp only [Option.any_eq_true, Bool.and_eq_true, beq_iff_eq] at hq
  obtain ⟨⟨t, out⟩, hcall, hacc, hserial⟩ := hq
  have hs := (proper_run hrun).1
  have hstep : m.Step (.connected ⟨1, 1⟩ (.ok none), out) t := hcall
  refine ⟨tr, m, out, t, hrun, hstep, hacc, hserial, ?_⟩
  intro tr' m₁ x m₂ r p l hrun' hstep' hready
  exact never_granted (hs.step hstep) (spent_of_connected hs hstep hacc) hrun' hstep' hready

end PoolMachine

end GwzTransport.Pool
