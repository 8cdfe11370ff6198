import GwzTransport.Pool.Schedule

/-!
# What the public calls show

A call first enters what its caller brings (a request, a new time, a limit) and then makes moves;
the visible ones are the events of its answer.

* `eventsOf`: the event of a connection that a call and its answer are;
* `entered`: the state with what the caller brings;
* `Answers`: a call panics only where a request has lost its connection, and otherwise makes
  moves that show the events of its answer; one lemma for each call, and `call_answers` for all.
-/

namespace GwzTransport.Pool

open Protocol MachineInt Transition

def Action.event : Action → ConnectionId × Event
  | .connect c _ _ _ _ => (c, .connect)
  | .cancelConnect c _ => (c, .cancelConnect)
  | .abortConnect c => (c, .abortConnect)
  | .close c _ _ => (c, .close)
  | .abort c => (c, .abort)

def Outcome.accepted : Outcome → Bool
  | .replied result => result.isOk
  | _ => false

/-- The commands handed out and the acknowledgements accepted in a call. -/
def eventsOf (call : Call) (out : Outcome) : List (ConnectionId × Event) :=
  match call with
  | .nextAction =>
    match out with
    | .offered action => (action.map Action.event).toList
    | _ => []
  | .connected c result => if out.accepted then [(c, .connected result.isOk)] else []
  | .closed c => if out.accepted then [(c, .closed)] else []
  | .idleClosed c => if out.accepted then [(c, .idleClosed)] else []
  | _ => []

namespace PoolMachine

/-- The state with what the caller brings. -/
def entered (m : PoolMachine) (call : Call) (out : Outcome) : PoolMachine :=
  match call with
  | .requestUntil request absolute =>
    match out with
    | .requested (.ok id) =>
      { m with
        requestSerial := m.requestSerial + 1
        requests := m.requests.insert id (m.pending request absolute) }
    | _ => m
  | .advance now => { m with now := max m.now now }
  | .setLimit site limit =>
    if out.accepted then { m with limits := assign site limit m.limits } else m
  | .clearLimit site => { m with limits := m.limits.filter (·.1 != site) }
  | _ => m

/-- The lease is its connection's present one, and was taken. -/
def Taken (m : PoolMachine) (l : LeaseId) : Prop :=
  ∃ e, m.entries.get? l.connection = some e ∧ e.state = .leased l none

/-- The visible moves of a call with its answer.  A release shows since when the connection
counts as idle, and a promotion the scope it gives; the retirement of a scope closes the
connections of that scope. -/
def Shows (m : PoolMachine) (call : Call) (out : Outcome) (marks : List Mark) : Prop :=
  match call with
  | .release l _ => ∀ k ∈ marks, k = .released l.connection m.now
  | .releaseUnused l => ∀ k ∈ marks, m.Taken l ∧ k = .released l.connection
      (((m.entries.get? l.connection).bind (·.idleSince)).getD m.now)
  | .scopeHttps l scope => ∀ k ∈ marks, k = .scoped l.connection scope
  | .retireHttpsScope scope => ∀ k ∈ marks, ∃ c e, m.entries.get? c = some e ∧
      e.identity = .httpsScoped scope ∧ k = .retired c e.state.holder.isSome
  | _ => marks = (eventsOf call out).map fun x => .event x.1 x.2

/-- The answer `x` to a call. -/
def Answers (m : PoolMachine) (call : Call) (x : Option (PoolMachine × Outcome)) : Prop :=
  (x = none → ¬ Linked m) ∧ ∀ t out, x = some (t, out) →
    ∃ marks, Weak Move (m.entered call out) marks t ∧ m.Shows call out marks

variable {m m' : PoolMachine} {r : RequestId} {c : ConnectionId} {p : Pending} {e : Entry}
  {call : Call} {out : Outcome}

theorem Answers.of_weak {t : PoolMachine} {marks : List Mark}
    (h : Weak Move (m.entered call out) marks t) (hs : m.Shows call out marks) :
    Answers m call (some (t, out)) :=
  ⟨nofun, by rintro _ _ ⟨⟩; exact ⟨marks, h, hs⟩⟩

/-- A refused call changes nothing. -/
theorem Answers.stay (h : m.entered call out = m) (hs : m.Shows call out []) :
    Answers m call (some (m, out)) := .of_weak (by rw [h]; exact .refl m) hs

/-- An answer after an operation that may fail. -/
theorem Answers.of_does {x : Option PoolMachine} {marks : List Mark} {Q : PoolMachine → Prop}
    {f : PoolMachine → PoolMachine} (h : linked.Does (m.entered call out) marks x Q)
    (hf : ∀ t, Weak Move t [] (f t)) (hl : Linked m → Linked (m.entered call out))
    (hs : m.Shows call out marks) : Answers m call (x.bind fun t => some (f t, out)) := by
  cases x with
  | none => exact ⟨fun _ hlinked => h.1 rfl (hl hlinked), fun _ _ ht => by cases ht⟩
  | some t =>
    have hw := (h.2 t rfl).1.trans (hf t)
    rw [List.append_nil] at hw
    exact .of_weak hw hs

theorem Answers.of_map {x : Option PoolMachine} {marks : List Mark} {Q : PoolMachine → Prop}
    (h : linked.Does (m.entered call out) marks x Q)
    (hl : Linked m → Linked (m.entered call out)) (hs : m.Shows call out marks) :
    Answers m call (x.map fun t => (t, out)) := by
  rw [Option.map_eq_bind]
  exact .of_does (f := id) h (fun t => .refl t) hl hs

/-- An answer after a last `schedule`, which never fails. -/
theorem Answers.scheduled {t : PoolMachine} {marks : List Mark} {f : PoolMachine → PoolMachine}
    (h : Owned (m.entered call out)) (hw : Weak Move (m.entered call out) marks t)
    (hf : ∀ t, Weak Move t [] (f t)) (hs : m.Shows call out marks) :
    Answers m call (t.schedule.bind fun a => some (f a, out)) := by
  have ht : Owned t := Guard.inv_weak (g := total) hw h
  cases hx : t.schedule with
  | none => exact absurd trivial ((schedule_does _).1 hx)
  | some u =>
    have hw' := (hw.trans ((schedule_does _).2 u hx).1).trans (hf u)
    rw [List.append_nil, List.append_nil] at hw'
    exact .of_weak hw' hs

theorem weak_id (t : PoolMachine) : Weak Move t [] (id t) := .refl t

/-! ### Requests and leases -/

/-- A new request points to nothing. -/
theorem Owned.targets_enter (h : Owned m) (request : Request) (absolute : Option ℕ) :
    targets (m.requests.insert ⟨m.poolId, m.requestSerial + 1⟩ (m.pending request absolute)) =
      targets m.requests := by
  have habsent : m.requests.get? ⟨m.poolId, m.requestSerial + 1⟩ = none := by
    cases hr : m.requests.get? ⟨m.poolId, m.requestSerial + 1⟩ with
    | none => rfl
    | some p => exact absurd (h.request_id _ p hr).2 (by simp)
  have htarget : targets m.requests ⟨m.poolId, m.requestSerial + 1⟩ = none := by
    simp [targets, habsent]
  rw [targets_insert, show (m.pending request absolute).tie = none from rfl, ← htarget,
    Function.update_eq_self]

theorem Owned.enter (h : Owned m) (request : Request) (absolute : Option ℕ) :
    Owned
      { m with
        requestSerial := m.requestSerial + 1
        requests := m.requests.insert ⟨m.poolId, m.requestSerial + 1⟩
          (m.pending request absolute) } where
  request_id := SortedMap.forall_insert _
    (fun r p hr => ⟨(h.request_id r p hr).1, (h.request_id r p hr).2.trans (Nat.le_succ _)⟩)
    ⟨rfl, le_rfl⟩
  entry_id := h.entry_id
  entry_ok := h.entry_ok
  matching := by
    rw [h.targets_enter]
    exact h.matching

theorem requestUntil_answers (h : Owned m) (request : Request) (absolute : Option ℕ) :
    Answers m (.requestUntil request absolute)
      ((m.requestUntil request absolute).map fun x => (x.1, .requested x.2)) := by
  unfold requestUntil
  split_ifs
  · exact .stay rfl rfl
  · exact .stay rfl rfl
  · exact .stay rfl rfl
  · exact .stay rfl rfl
  · exact .stay rfl rfl
  · simp only [Option.bind_eq_bind, Option.pure_def, Option.map_bind, Function.comp_def,
      Option.map_some]
    exact .scheduled (h.enter request absolute) (.refl _) weak_touch rfl
  · exact .stay rfl rfl

theorem claim_of_leased {l : LeaseId} {q : Option RequestId} (hc : m.entries.get? c = some e)
    (he : e.state = .leased l q) :
    m.claim c = m.putEntry c { e with state := .leased l none } := by
  simp [claim, hc, he]

theorem claim_of_closing (h : ∀ e, m.entries.get? c = some e → e.state.isClosing = true) :
    m.claim c = m := by
  unfold claim
  cases hc : m.entries.get? c with
  | none => rfl
  | some e => cases hs : e.state <;> simp_all [State.isClosing]

theorem take_answers (h : Owned m) (r : RequestId) :
    Answers m (.take r) (some ((m.take r).1, .taken (m.take r).2)) := by
  unfold take
  cases hr : m.requests.get? r with
  | none => exact .stay rfl rfl
  | some p =>
    simp only [Option.map_some]
    cases hp : p.state with
    | waiting => exact .stay rfl rfl
    | opening c => exact .stay rfl rfl
    | failed error =>
      have hnone : ∀ q, m.requests.get? r = some q → q.state.target = none := by
        intro q hq
        rw [hr] at hq
        rw [← Option.some.inj hq, hp]
        rfl
      exact .of_weak (.silent (.forget hnone _)) rfl
    | ready l =>
      have htie : p.tie = some (l.connection, some l, some p.request.owner) := by
        simp [Pending.tie, hp]
      dsimp only
      rcases h.matching.holder_of_target ((targets_of_get hr).trans htie) with hl | hh
      · rw [claim_of_closing hl.2]
        exact .of_weak (.silent (.takeLost hr (by rw [hp]; rfl) hl.2 _)) rfl
      · obtain ⟨e, hc, he⟩ := Option.bind_eq_some_iff.1 hh
        have hs := Entry.of_tie_lease he
        rw [claim_of_leased hc hs]
        exact .of_weak (.silent (.take hr hc hs _)) rfl

theorem entry_of_isLive {l : LeaseId} (h : m.isLive l = true) :
    ∃ e q, m.entries.get? l.connection = some e ∧ e.state = .leased l q := by
  obtain ⟨e, hc, he⟩ := (Option.any_eq_true _ _).1 h
  cases hs : e.state <;> simp_all

theorem scopeHttps_answers (l : LeaseId) (scope : String) :
    Answers m (.scopeHttps l scope)
      (some ((m.scopeHttps l scope).1, .replied (m.scopeHttps l scope).2)) := by
  unfold scopeHttps
  split_ifs with hlive
  · exact .stay rfl nofun
  · obtain ⟨e, q, hc, he⟩ := entry_of_isLive (by simpa using hlive)
    simp only [hc]
    split_ifs
    · exact .stay rfl nofun
    · split
      · rename_i hid
        exact .of_weak (.visible (.scope hc (by rw [he]; rfl) hid scope _))
          fun k hk => List.mem_singleton.1 hk
      · split_ifs
        · exact .of_weak (weak_touch m) nofun
        · exact .stay rfl nofun
      · exact .stay rfl nofun

theorem failRequest_weak {t : PoolMachine} {error : Error} {reason : CloseReason}
    {result : Except Error Unit} (h : Owned m)
    (hf : m.failRequest r error reason = some (t, result)) :
    Weak Move m [] t ∧ Settled t r := by
  obtain ⟨hw, hs⟩ := (failRequest_does h r error reason).2 t (by rw [hf]; rfl)
  exact ⟨hw, hs.settled⟩

theorem cancel_answers (h : Owned m) (r : RequestId) :
    Answers m (.cancel r) ((m.cancel r).map fun x => (x.1, .replied x.2)) := by
  unfold cancel
  cases hf : m.failRequest r .cancelled .cancelled with
  | none => exact ⟨fun _ hl => failRequest_ne_none hl _ _ _ hf, fun _ _ ht => by cases ht⟩
  | some x =>
    obtain ⟨t, result⟩ := x
    obtain ⟨hw, -⟩ := failRequest_weak h hf
    cases result with
    | error e => exact .of_weak hw rfl
    | ok _ =>
      simp only [Option.bind_eq_bind, Option.bind_some, Option.pure_def, Option.map_bind,
        Function.comp_def, Option.map_some]
      exact .scheduled h hw weak_id rfl

theorem abandon_answers (h : Owned m) (r : RequestId) :
    Answers m (.abandon r) ((m.abandon r).map fun x => (x, .done)) := by
  unfold abandon cancel
  cases hf : m.failRequest r .cancelled .cancelled with
  | none => exact ⟨fun _ hl => failRequest_ne_none hl _ _ _ hf, fun _ _ ht => by cases ht⟩
  | some x =>
    obtain ⟨t, result⟩ := x
    obtain ⟨hw, hs⟩ := failRequest_weak h hf
    have ht : Owned t := Guard.inv_weak (g := total) hw h
    cases result with
    | error e => exact .of_weak hw rfl
    | ok _ =>
      simp only [Option.bind_eq_bind, Option.bind_some, Option.pure_def]
      cases hx : t.schedule with
      | none => exact absurd trivial ((schedule_does _).1 hx)
      | some u =>
        obtain ⟨hw', -⟩ := (schedule_does _).2 u hx
        refine .of_weak (hw.trans (hw'.trans (.silent (.forget (fun p hr => ?_) _)))) rfl
        obtain ⟨error, hp⟩ := hs.weak ht hw' p hr
        rw [hp]
        rfl

/-- The connections of a retired scope are closed one after the other, whatever they do. -/
theorem retireEach_weak (scope : String) (l : List ConnectionId) (t : PoolMachine)
    (hn : l.Nodup) (hsame : ∀ c ∈ l, t.entries.get? c = m.entries.get? c)
    (hl : ∀ c ∈ l, ∃ e, m.entries.get? c = some e ∧ e.identity = .httpsScoped scope) :
    ∃ u marks, l.foldlM (fun m c => m.startClosing c .cancelled) t = some u ∧
      Weak Move t marks u ∧ m.Shows (.retireHttpsScope scope) .done marks ∧
      u.requests = t.requests ∧ (∀ c ∉ l, u.entries.get? c = t.entries.get? c) ∧
      ∀ c ∈ l, ∃ e, u.entries.get? c = some e ∧ e.state.isClosing = true := by
  induction l generalizing t with
  | nil => exact ⟨t, [], rfl, .refl t, nofun, rfl, fun _ _ => rfl, nofun⟩
  | cons c l ih =>
    rw [List.nodup_cons] at hn
    obtain ⟨e, hc, hid⟩ := hl c List.mem_cons_self
    have hct : t.entries.get? c = some e := (hsame c List.mem_cons_self).trans hc
    rw [List.foldlM_cons]
    have hne : ∀ {d}, d ∉ c :: l → d ≠ c ∧ d ∉ l := fun hd =>
      ⟨fun hdc => hd (hdc ▸ List.mem_cons_self), fun hdl => hd (List.mem_cons_of_mem _ hdl)⟩
    by_cases he : e.state.isClosing = true
    · rw [startClosing_of_closing hct he]
      obtain ⟨u, marks, hu, hw, hs, hreq, hout, hin⟩ := ih t hn.2
        (fun d hd => hsame d (List.mem_cons_of_mem _ hd))
        fun d hd => hl d (List.mem_cons_of_mem _ hd)
      refine ⟨u, marks, hu, hw, hs, hreq, fun d hd => hout d (hne hd).2, fun d hd => ?_⟩
      rcases List.mem_cons.1 hd with rfl | hd
      · exact ⟨e, (hout d hn.1).trans hct, he⟩
      · exact hin d hd
    · rw [startClosing_eq hct (by simpa using he)]
      obtain ⟨u, marks, hu, hw, hs, hreq, hout, hin⟩ := ih
        (t.putEntry c (e.shut .cancelled (t.cleanupDeadline e))).touch hn.2
        (fun d hd => by
          have hdc : d ≠ c := fun hdc => hn.1 (hdc ▸ hd)
          rw [← hsame d (List.mem_cons_of_mem _ hd)]
          exact SortedMap.get?_insert_of_ne _ hdc _)
        fun d hd => hl d (List.mem_cons_of_mem _ hd)
      refine ⟨u, .retired c e.state.holder.isSome :: marks, hu,
        .trans (.visible (.retire hct (by simpa using he) .cancelled _ _)) hw, ?_, hreq,
        fun d hd => ?_, fun d hd => ?_⟩
      · intro k hk
        rcases List.mem_cons.1 hk with rfl | hk
        · exact ⟨c, e, hc, hid, rfl⟩
        · exact hs k hk
      · rw [hout d (hne hd).2]
        exact SortedMap.get?_insert_of_ne _ (hne hd).1 _
      · rcases List.mem_cons.1 hd with rfl | hd
        · exact ⟨_, (hout d hn.1).trans (SortedMap.get?_insert_self _ _ _), rfl⟩
        · exact hin d hd

/-- The connections of a retired scope are lost before anything is granted again. -/
theorem retireHttpsScope_cases (h : Owned m) (scope : String) :
    ∃ u marks, Weak Move m marks u ∧ m.Shows (.retireHttpsScope scope) .done marks ∧
      u.requests = m.requests ∧ (∀ c e, m.entries.get? c = some e →
        e.identity = .httpsScoped scope → Lost u.entries u.connectionSerial c) ∧
      m.retireHttpsScope scope = u.schedule := by
  obtain ⟨u, marks, hu, hw, hs, hreq, -, hin⟩ := retireEach_weak scope
    (m.entries.keysWhere fun _ e => e.identity == .httpsScoped scope) m
    (SortedMap.nodup_keysWhere _ _) (fun _ _ => rfl) fun c hc => by
      obtain ⟨e, hc, he⟩ := (SortedMap.mem_keysWhere _).1 hc
      exact ⟨e, hc, by simpa using he⟩
  refine ⟨u, marks, hw, hs, hreq, fun c e hc he => ?_, ?_⟩
  · obtain ⟨x, hx, hcl⟩ := hin c ((SortedMap.mem_keysWhere _).2 ⟨e, hc, by simp [he]⟩)
    have hu : Owned u := Guard.inv_weak (g := total) hw h
    refine ⟨(hu.entry_id c x hx).2, fun y hy => ?_⟩
    cases hx.symm.trans hy
    exact hcl
  · simp only [retireHttpsScope, hu, Option.bind_eq_bind, Option.bind_some]

theorem retireHttpsScope_answers (h : Owned m) (scope : String) :
    Answers m (.retireHttpsScope scope) ((m.retireHttpsScope scope).map fun x => (x, .done)) := by
  obtain ⟨u, marks, hw, hs, -, -, hx⟩ := retireHttpsScope_cases h scope
  rw [hx]
  simp only [Option.map_eq_bind, Function.comp_def]
  exact .scheduled h hw weak_id hs

/-- A connection leased to a request that has failed is free. -/
theorem Owned.free_of_leased (h : Owned m) (hc : m.entries.get? c = some e)
    (he : e.state.isLeased = true)
    (hs : ∀ r p, m.requests.get? r = some p → e.owner = some p.request.owner →
      ∃ error, p.state = .failed error) : Entry.Free e := by
  cases hst : e.state with
  | leased l q =>
    cases q with
    | none => exact .inr ⟨l, hst⟩
    | some r =>
      have htie : e.tie = some (r, some l, e.owner) := by simp [Entry.tie, hst]
      have ht := h.matching.target_of_holder ((holders_of_get hc).trans htie)
      obtain ⟨p, hr, hp⟩ := Option.bind_eq_some_iff.1 ht
      obtain ⟨error, hf⟩ := hs r p hr (Pending.tie_owner hp).symm
      simp [Pending.tie, hf] at hp
  | _ => simp [hst, State.isLeased] at he

/-- The connections of a kind are closed, all of them free. -/
theorem closeWhere_does (h : Owned m) (reason : CloseReason) (q : ConnectionId → Entry → Bool)
    (hq : ∀ c e, m.entries.get? c = some e → q c e = true → Entry.Free e) :
    total.Does m [] (m.closeAll reason (m.entries.keysWhere q)) fun t =>
      t.requests = m.requests ∧ ∀ c e, t.entries.get? c = some e →
        e.state.isClosing = true ∨ m.entries.get? c = some e ∧ q c e = false := by
  refine (closeEach_does (fun c => c) (fun _ => reason) _ h ?_ ?_).mono fun t ht => ⟨ht.1.1, ?_⟩
  · rw [List.map_id']
    exact SortedMap.nodup_keysWhere _ _
  · intro c hc
    rw [List.map_id'] at hc
    obtain ⟨e, hc, he⟩ := (SortedMap.mem_keysWhere _).1 hc
    exact ⟨e, hc, hq c e hc he⟩
  · intro c e hc
    rw [List.map_id'] at ht
    by_cases hmem : c ∈ m.entries.keysWhere q
    · obtain ⟨e', he', hcl⟩ := ht.2.2 c hmem
      rw [he'] at hc
      exact .inl (Option.some.inj hc ▸ hcl)
    · rw [ht.2.1 c hmem] at hc
      refine .inr ⟨hc, Bool.eq_false_iff.2 fun hqc => hmem ?_⟩
      exact (SortedMap.mem_keysWhere _).2 ⟨e, hc, hqc⟩

/-- All requests of a list fail; those that are not in it stay. -/
theorem failEach_does {ι : Type} (id : ι → RequestId) (error : ι → Error) (reason : CloseReason)
    {P : Pending → Prop} (l : List ι) (h : Owned m)
    (hP : ∀ r p, m.requests.get? r = some p → P p →
      r ∈ l.map id ∨ ∃ error, p.state = .failed error) :
    linked.Does m [] (l.foldlM (fun m i => (m.failRequest (id i) (error i) reason).map (·.1)) m)
      fun t => ∀ r p, t.requests.get? r = some p → P p → ∃ error, p.state = .failed error := by
  refine (Guard.Does.foldlM (I := fun l t => ∀ r p, t.requests.get? r = some p → P p →
    r ∈ l.map id ∨ ∃ error, p.state = .failed error) ?_ l m h hP).mono fun t ht r p hr hp => ?_
  · intro i l t ht hI
    refine (failRequest_does ht (id i) (error i) reason).mono fun u hu r p hr hp => ?_
    by_cases hri : r = id i
    · exact .inr (hu.settled p (hri ▸ hr))
    · rw [hu.others r hri] at hr
      rcases hI r p hr hp with hmem | hf
      · rw [List.map_cons, List.mem_cons] at hmem
        exact .inl (hmem.resolve_left hri)
      · exact .inr hf
  · exact (ht r p hr hp).resolve_left nofun

theorem cancelMatching_does (h : Owned m) (matchesOwner : Owner → Bool) :
    linked.Does m [] (m.cancelMatching matchesOwner) fun t =>
      ∃ u, Owned u ∧ u.schedule = some t := by
  unfold cancelMatching
  refine .bind h (failEach_does (P := fun p => matchesOwner p.request.owner = true) (fun r => r)
    (fun _ => .cancelled) .cancelled _ h fun r p hr hp => .inl ?_) fun t ht hs => ?_
  · rw [List.map_id']
    exact (SortedMap.mem_keysWhere _).2 ⟨p, hr, hp⟩
  · refine .bind ht (linked_of_total (closeWhere_does ht .cancelled _ ?_))
      fun u hu _ => linked_of_total ((schedule_does _).result.mono fun t ht => ⟨u, hu, ht.1⟩)
    intro c e hc he
    obtain ⟨ho, he⟩ := Bool.and_eq_true_iff.1 he
    refine ht.free_of_leased hc he fun r p hr howner => hs r p hr ?_
    rw [howner] at ho
    simpa using ho

theorem cancelOperation_answers (h : Owned m) (owner : Owner) :
    Answers m (.cancelOperation owner) ((m.cancelOperation owner).map fun x => (x, .done)) :=
  .of_map (cancelMatching_does h _) id rfl

theorem cancelSession_answers (h : Owned m) (session : String) :
    Answers m (.cancelSession session) ((m.cancelSession session).map fun x => (x, .done)) :=
  .of_map (cancelMatching_does h _) id rfl

/-- The state after a last `schedule`. -/
structure Rescheduled (u t : PoolMachine) : Prop where
  weak : Weak Move u [] t
  last : ∃ a, u.schedule = some a ∧ t = a.touch

theorem exists_rescheduled (m : PoolMachine) :
    ∃ t, (m.schedule.bind fun a => some (a.touch, (.ok () : Except Error Unit))) =
    some (t, .ok ()) ∧
      Rescheduled m t := by
  cases hx : m.schedule with
  | none => exact absurd trivial ((schedule_does _).1 hx)
  | some a =>
    refine ⟨a.touch, rfl, ?_, a, hx, rfl⟩
    have := ((schedule_does _).2 a hx).1.trans (weak_touch a)
    rwa [List.append_nil] at this

/-- A release is refused, returns the connection to the idle ones, or closes it; waiting requests
are served after that. -/
theorem releaseAt_cases (h : Owned m) (l : LeaseId) (disposition : Disposition)
    (since : Option ℕ) : (∃ error, m.releaseAt l disposition since = some (m, .error error)) ∨
      m.Taken l ∧ ∃ k u t, Move m k u ∧
        (u.requests = m.requests ∧ u.settles = m.settles ∧ u.holds = m.holds) ∧
        (k = some (.released l.connection (since.getD m.now)) ∨
          k = none ∧ Lost u.entries u.connectionSerial l.connection) ∧
        Rescheduled u t ∧ m.releaseAt l disposition since = some (t, .ok ()) := by
  unfold releaseAt
  split_ifs with hlive
  · exact .inl ⟨_, rfl⟩
  · obtain ⟨e, q, hc, he⟩ := entry_of_isLive (by simpa using hlive)
    simp only [hc, he, Option.bind_eq_bind, Option.bind_some, Option.pure_def]
    cases q with
    | some r => exact .inl ⟨_, rfl⟩
    | none =>
      refine .inr ⟨⟨e, hc, he⟩, ?_⟩
      have hclose : ∀ reason, ∃ k u t, Move m k u ∧
          (u.requests = m.requests ∧ u.settles = m.settles ∧ u.holds = m.holds) ∧
          (k = some (.released l.connection (since.getD m.now)) ∨
            k = none ∧ Lost u.entries u.connectionSerial l.connection) ∧ Rescheduled u t ∧
          ((m.startClosing l.connection reason).bind fun m => m.schedule.bind fun m =>
            some (m.touch, (.ok () : Except Error Unit))) = some (t, .ok ()) := by
        intro reason
        have hv : Move m none (m.putEntry l.connection
            (e.shut reason (m.cleanupDeadline e))).touch := .close hc (.inr ⟨l, he⟩) reason _ _
        obtain ⟨t, ht, hw⟩ := exists_rescheduled _
        refine ⟨_, _, t, hv, ⟨rfl, rfl, rfl⟩, .inr ⟨rfl, (h.entry_id _ e hc).2, fun x hx => ?_⟩,
          hw, ?_⟩
        · cases (SortedMap.get?_insert_self _ _ _).symm.trans hx
          rfl
        · rw [startClosing_eq hc (by rw [he]; rfl), Option.bind_some]
          exact ht
      dsimp only
      split_ifs with hkeep
      · simp only [Bool.and_eq_true, Bool.not_eq_true'] at hkeep
        obtain ⟨⟨⟨-, hreuse⟩, hage⟩, hstop⟩ := hkeep
        have hv := Move.release hc he hreuse hage hstop (since.getD m.now) m.revision
        obtain ⟨t, ht, hw⟩ := exists_rescheduled _
        exact ⟨_, _, t, hv, ⟨rfl, rfl, rfl⟩, .inl rfl, hw, ht⟩
      · exact hclose _
      · exact hclose _
      · exact hclose _

theorem releaseAt_weak (h : Owned m) (l : LeaseId) (disposition : Disposition)
    (since : Option ℕ) : ∃ t result marks, m.releaseAt l disposition since = some (t, result) ∧
      Weak Move m marks t ∧
      ∀ k ∈ marks, m.Taken l ∧ k = .released l.connection (since.getD m.now) := by
  rcases releaseAt_cases h l disposition since with
    ⟨error, hx⟩ | ⟨htaken, k, u, t, hv, -, rfl | ⟨rfl, -⟩, hw, hx⟩
  · exact ⟨m, _, [], hx, .refl m, nofun⟩
  · refine ⟨t, _, _, hx, (Weak.visible hv).trans hw.weak, fun k hk => ?_⟩
    rw [List.append_nil] at hk
    exact ⟨htaken, List.mem_singleton.1 hk⟩
  · exact ⟨t, _, _, hx, (Weak.silent hv).trans hw.weak, nofun⟩

theorem release_answers (h : Owned m) (l : LeaseId) (disposition : Disposition) :
    Answers m (.release l disposition)
      ((m.release l disposition).map fun x => (x.1, .replied x.2)) := by
  obtain ⟨t, result, marks, ht, hw, hs⟩ := releaseAt_weak h l disposition none
  rw [release, ht]
  exact .of_weak hw fun k hk => (hs k hk).2

theorem releaseUnused_answers (h : Owned m) (l : LeaseId) :
    Answers m (.releaseUnused l) ((m.releaseUnused l).map fun x => (x.1, .replied x.2)) := by
  obtain ⟨t, result, marks, ht, hw, hs⟩ := releaseAt_weak h l .reusable
    ((m.entries.get? l.connection).bind (·.idleSince))
  rw [releaseUnused, ht]
  exact .of_weak hw hs

/-! ### Acknowledgements of the adapter -/

theorem dispose_eq (hc : m.entries.get? c = some e) (settle : Bool) : m.dispose c settle =
    { m with entries := m.entries.erase c, holds := (m.dispose c settle).holds } := by
  unfold dispose
  simp only [hc]
  split_ifs <;> rfl

theorem closed_answers (c : ConnectionId) :
    Answers m (.closed c) ((m.closed c).map fun x => (x.1, .replied x.2)) := by
  unfold closed
  cases hc : m.entries.get? c with
  | none => exact .stay rfl rfl
  | some e =>
    simp only [Option.map_some]
    cases he : e.state with
    | closing reason k =>
      dsimp only
      split_ifs with hk
      · rw [dispose_eq hc]
        have hv := Move.closed hc he hk m.revision
        obtain ⟨u, hu, hw⟩ := exists_rescheduled _
        simp only [Option.bind_eq_bind, Option.pure_def]
        rw [hu]
        exact .of_weak ((Weak.visible hv).trans hw.weak) rfl
      · exact .stay rfl rfl
    | _ => exact .stay rfl rfl

theorem idleClosed_answers (c : ConnectionId) :
    Answers m (.idleClosed c) ((m.idleClosed c).map fun x => (x.1, .replied x.2)) := by
  unfold idleClosed
  cases hc : m.entries.get? c with
  | none => exact .stay rfl rfl
  | some e =>
    dsimp only
    split_ifs with he
    · have hv := Move.idleClosed hc he m.revision
      obtain ⟨u, hu, hw⟩ := exists_rescheduled _
      simp only [Option.bind_eq_bind, Option.pure_def]
      rw [hu]
      exact .of_weak ((Weak.visible hv).trans hw.weak) rfl
    · exact .stay rfl rfl

end PoolMachine

end GwzTransport.Pool
