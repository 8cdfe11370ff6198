import GwzTransport.Pool.Advance

/-!
# Runs of the pool

A run is a sequence of public calls with their answers, from a new machine.  Every call is a run
of moves after what its caller brings has entered, so an invariant of the pool is proved by
showing that it survives what can enter and every move.

* `Admitted`: what is known of a request that enters;
* `call_weak` and `call_ne_none`: what a call does, and that it panics only where a request has
  lost its connection;
* `Sound`: the invariant of all runs.
-/

namespace GwzTransport.Pool

open Protocol MachineInt Transition

namespace PoolMachine

variable {m m' t : PoolMachine} {call : Call} {out : Outcome} {tr : List (Call × Outcome)}

/-- One public call and its answer. -/
def Step (m : PoolMachine) (x : Call × Outcome) (m' : PoolMachine) : Prop :=
  m.call x.1 = some (m', x.2)

/-- One public call that meets a condition on the state it is made in. -/
def StepUnder (C : PoolMachine → Call → Prop) (m : PoolMachine) (x : Call × Outcome)
    (m' : PoolMachine) : Prop := C m x.1 ∧ m.Step x m'

/-! ### What enters -/

/-- What has been checked of a request that enters the queue as `id`. -/
structure Admitted (m : PoolMachine) (request : Request) (absolute : Option ℕ) (id : RequestId) :
    Prop where
  id_eq : id = ⟨m.poolId, m.requestSerial + 1⟩
  running : m.stopped = false
  early : ∀ a, absolute = some a → m.now < a
  total : m.requests.size < (m.ceilingsFor request).maxRequests
  session : m.requests.countWhere (·.request.owner.session == request.owner.session) <
    (m.limitsOf request).maxRequests

theorem admitted_of_requestUntil {request : Request} {absolute : Option ℕ} {id : RequestId}
    (h : m.requestUntil request absolute = some (t, .ok id)) : Admitted m request absolute id := by
  unfold requestUntil at h
  split_ifs at h with hlost hstop hvalid hlate hfull hserial
  · simp at h
  · simp at h
  · simp at h
  · simp at h
  · simp at h
  · obtain ⟨u, -, hu⟩ := Option.bind_eq_some_iff.1 h
    simp only [Bool.or_eq_true, decide_eq_true_eq, not_or, not_le] at hfull
    cases hu
    refine ⟨rfl, by simpa using hstop, fun a ha => ?_, hfull.1, hfull.2⟩
    rw [ha] at hlate
    simpa using hlate
  · simp at h

/-- What the caller brings, with what has been checked of it. -/
inductive Entered (m : PoolMachine) : Call → PoolMachine → Prop
  | nothing {call : Call} : Entered m call m
  | request {request absolute id}
      (h : Admitted m request absolute id) : Entered m (.requestUntil request absolute)
        { m with
          requestSerial := m.requestSerial + 1
          requests := m.requests.insert id (m.pending request absolute) }
  | time {now} (h : m.now ≤ now) : Entered m (.advance now) { m with now }
  | limit {site limit} (hvalid : limit ≠ 0) :
      Entered m (.setLimit site limit) { m with limits := assign site limit m.limits }
  | noLimit {site} : Entered m (.clearLimit site) { m with limits := m.limits.filter (·.1 != site) }

theorem accepted_setLimit {site : Site} {limit : ℕ} {result : Except Error Unit}
    (h : m.setLimit site limit = some (t, result)) (hok : result.isOk = true) : limit ≠ 0 := by
  unfold setLimit at h
  cases hacc : m.acceptsNumbers with
  | error e =>
    simp only [hacc, Option.some.injEq, Prod.mk.injEq] at h
    rw [← h.2] at hok
    cases hok
  | ok _ =>
    simp only [hacc] at h
    split_ifs at h with hbad
    · simp only [Option.some.injEq, Prod.mk.injEq] at h
      rw [← h.2] at hok
      cases hok
    · simp only [Bool.or_eq_true, decide_eq_true_eq, not_or] at hbad
      exact hbad.2

theorem entered_of_call (h : m.call call = some (t, out)) :
    Entered m call (m.entered call out) := by
  unfold entered
  split
  · split
    · rename_i request absolute _ id
      simp only [PoolMachine.call, Option.map_eq_some_iff, Prod.mk.injEq] at h
      obtain ⟨⟨u, result⟩, hx, rfl, hr⟩ := h
      cases hr
      exact .request (admitted_of_requestUntil hx)
    · exact .nothing
  · rename_i now
    rcases le_total m.now now with hle | hle
    · rw [max_eq_right hle]
      exact .time hle
    · rw [max_eq_left hle]
      exact .nothing
  · rename_i site limit
    split_ifs with hok
    · simp only [PoolMachine.call, Option.map_eq_some_iff, Prod.mk.injEq] at h
      obtain ⟨⟨u, result⟩, hx, rfl, hr⟩ := h
      cases hr
      exact .limit (accepted_setLimit hx hok)
    · exact .nothing
  · exact .noLimit
  · exact .nothing

theorem entered_config (h : Entered m call t) : t.config = m.config := by
  cases h <;> rfl

/-! ### What a call does -/

theorem advance_answers (h : Owned m) (ht : Timely m) (now : ℕ) :
    Answers m (.advance now) ((m.advance now).map fun x => (x, .done)) := by
  rcases le_or_gt m.now now with hle | hlt
  · have hmax : m.entered (.advance now) .done = { m with now } := by simp [entered, hle]
    refine .of_map (Q := fun _ => True) ?_ ?_ rfl
    · rw [hmax]
      exact (advance_does h ht hle).mono fun _ _ => trivial
    · rw [hmax]
      exact id
  · rw [advance, if_pos hlt]
    exact .stay (by simp [entered, hlt.le]) rfl

/-- What holds in every state of every run. -/
structure Sound (m : PoolMachine) : Prop where
  owned : Owned m
  timely : Timely m

theorem call_answers (h : Sound m) (call : Call) : Answers m call (m.call call) := by
  cases call with
  | requestUntil request absolute => exact requestUntil_answers h.owned request absolute
  | take r => exact take_answers h.owned r
  | scopeHttps l scope => exact scopeHttps_answers l scope
  | retireHttpsScope scope => exact retireHttpsScope_answers h.owned scope
  | cancel r => exact cancel_answers h.owned r
  | abandon r => exact abandon_answers h.owned r
  | cancelOperation owner => exact cancelOperation_answers h.owned owner
  | cancelSession session => exact cancelSession_answers h.owned session
  | release l disposition => exact release_answers h.owned l disposition
  | releaseUnused l => exact releaseUnused_answers h.owned l
  | connected c result => exact connected_answers h.owned h.timely c result
  | closed c => exact closed_answers c
  | idleClosed c => exact idleClosed_answers c
  | expireIdle => exact expireIdle_answers h.owned
  | discardIdle site => exact discardIdle_answers h.owned site
  | shutdown => exact shutdown_answers h.owned
  | driverLost => exact loseDriver_answers h.owned
  | nextAction => exact nextAction_answers m
  | advance now => exact advance_answers h.owned h.timely now
  | beginInteraction c => exact beginInteraction_answers m c
  | endInteraction c => exact endInteraction_answers m c
  | beginLocalWait c => exact beginLocalWait_answers m c
  | endLocalWait c => exact endLocalWait_answers m c
  | installSetupClock c source stallMs => exact installSetupClock_answers m c source stallMs
  | setLimit site limit => exact setLimit_answers h.owned site limit
  | clearLimit site => exact clearLimit_answers h.owned site
  | setSettle site milliseconds => exact setSettle_answers m site milliseconds
  | setNoEvict site on => exact setNoEvict_answers h.owned site on
  | useSetupClock c use => exact useSetupClock_answers m c use

/-- A call is what enters with it, and moves that show the events of its answer. -/
theorem call_weak (h : Sound m) (hs : m.Step (call, out) t) :
    ∃ marks, Entered m call (m.entered call out) ∧ Weak Move (m.entered call out) marks t ∧
      m.Shows call out marks := by
  obtain ⟨marks, hw, hshow⟩ := (call_answers h call).2 t out hs
  exact ⟨marks, entered_of_call hs, hw, hshow⟩

/-! ### Where the visible moves come from -/

theorem Shows.released {marks : List Mark} {c : ConnectionId} {since : ℕ}
    (hs : m.Shows call out marks) (hx : .released c since ∈ marks) :
    (∃ l d, call = .release l d ∧ l.connection = c ∧ since = m.now) ∨
      ∃ l, call = .releaseUnused l ∧ m.Taken l ∧ l.connection = c ∧
        since = ((m.entries.get? l.connection).bind (·.idleSince)).getD m.now := by
  unfold Shows at hs
  split at hs
  · rename_i l d
    injection hs _ hx with hc hsince
    exact .inl ⟨l, d, rfl, hc.symm, hsince⟩
  · rename_i l
    obtain ⟨htaken, hk⟩ := hs _ hx
    injection hk with hc hsince
    exact .inr ⟨l, rfl, htaken, hc.symm, hsince⟩
  · cases hs _ hx
  · obtain ⟨d, e, -, -, hk⟩ := hs _ hx
    cases hk
  · subst hs
    obtain ⟨y, -, hy⟩ := List.mem_map.1 hx
    cases hy

theorem Shows.scoped {marks : List Mark} {c : ConnectionId} {scope : String}
    (hs : m.Shows call out marks) (hx : .scoped c scope ∈ marks) :
    ∃ l, call = .scopeHttps l scope ∧ l.connection = c := by
  unfold Shows at hs
  split at hs
  · cases hs _ hx
  · cases (hs _ hx).2
  · rename_i l s
    injection hs _ hx with hc hscope
    exact ⟨l, by rw [hscope], hc.symm⟩
  · obtain ⟨d, e, -, -, hk⟩ := hs _ hx
    cases hk
  · subst hs
    obtain ⟨y, -, hy⟩ := List.mem_map.1 hx
    cases hy

theorem Shows.event {marks : List Mark} {c : ConnectionId} {e : Event}
    (hs : m.Shows call out marks) (hx : .event c e ∈ marks) : (c, e) ∈ eventsOf call out := by
  unfold Shows at hs
  split at hs
  · cases hs _ hx
  · cases (hs _ hx).2
  · cases hs _ hx
  · obtain ⟨d, e, -, -, hk⟩ := hs _ hx
    cases hk
  · subst hs
    obtain ⟨⟨d, e'⟩, hmem, hy⟩ := List.mem_map.1 hx
    cases hy
    exact hmem

theorem Shows.retired {marks : List Mark} {c : ConnectionId} {busy : Bool}
    (hs : m.Shows call out marks) (hx : .retired c busy ∈ marks) :
    ∃ scope e, call = .retireHttpsScope scope ∧ m.entries.get? c = some e ∧
      e.identity = .httpsScoped scope ∧ busy = e.state.holder.isSome := by
  unfold Shows at hs
  split at hs
  · cases hs _ hx
  · cases (hs _ hx).2
  · cases hs _ hx
  · obtain ⟨d, e, hd, hid, hk⟩ := hs _ hx
    cases hk
    exact ⟨_, e, rfl, hd, hid, rfl⟩
  · rw [hs] at hx
    simp at hx

theorem connected_of_eventsOf {c : ConnectionId} {ok : Bool}
    (h : (c, .connected ok) ∈ eventsOf call out) :
    ∃ result, call = .connected c result ∧ out.accepted = true ∧ result.isOk = ok := by
  unfold eventsOf at h
  split at h
  · split at h
    · rename_i action
      cases action with
      | none => cases h
      | some a =>
        cases a <;> cases List.mem_singleton.1 h
    · cases h
  · rename_i d result
    split_ifs at h with hacc
    · injection List.mem_singleton.1 h with hc hok
      injection hok with hok
      exact ⟨result, by rw [hc], hacc, hok.symm⟩
    · cases h
  · split_ifs at h
    · cases List.mem_singleton.1 h
    · cases h
  · split_ifs at h
    · cases List.mem_singleton.1 h
    · cases h
  · cases h

/-- No call panics where every request has its connection. -/
theorem call_ne_none (h : Sound m) (hl : Linked m) (call : Call) : m.call call ≠ none :=
  fun hx => (call_answers h call).1 hx hl

/-! ### The invariant -/

theorem Owned.entered (h : Owned m) (he : Entered m call t) : Owned t := by
  cases he with
  | nothing => exact h
  | request ha =>
    rw [ha.id_eq]
    exact h.enter _ _
  | time => exact h.of_eq rfl rfl rfl rfl rfl
  | limit => exact h.of_eq rfl rfl rfl rfl rfl
  | noLimit => exact h.of_eq rfl rfl rfl rfl rfl

theorem Owned.absent_of_admitted (h : Owned m) {request : Request} {absolute : Option ℕ}
    {id : RequestId} (ha : Admitted m request absolute id) : m.requests.get? id = none := by
  cases hr : m.requests.get? id with
  | none => rfl
  | some p => exact absurd (h.request_id id p hr).2 (by simp [ha.id_eq])

/-- A request enters in time; only a new time can make one late. -/
theorem Timely.entered (h : Timely m) (ho : Owned m) (he : Entered m call t)
    (hcall : ∀ now, call ≠ .advance now) : Timely t := by
  cases he with
  | nothing => exact h
  | @request request absolute id ha =>
    refine SortedMap.forall_insert _ h fun a (hab : absolute = some a) => ?_
    refine ⟨?_, fun _ => ha.early a hab, fun c e o hc hs hq => ?_⟩
    · simp [pending, hab]
    · -- no connection opens for a request that has just entered
      obtain ⟨p, hr, -⟩ := ho.request_of_opening hc hs hq
      rw [ho.absent_of_admitted ha] at hr
      cases hr
  | time => exact absurd rfl (hcall _)
  | limit => exact h
  | noLimit => exact h

theorem sound_fresh (config : Config) (poolId : ℕ) : Sound (fresh config poolId) where
  owned :=
    { request_id := fun _ _ h => (by cases h)
      entry_id := fun _ _ h => (by cases h)
      entry_ok := fun _ _ h => (by cases h)
      matching := ⟨fun h => (by cases h), fun h => (by cases h), fun _ => rfl⟩ }
  timely := fun _ _ h => (by cases h)

theorem Sound.step (h : Sound m) (hs : m.Step (call, out) t) : Sound t := by
  obtain ⟨marks, hent, hw, -⟩ := call_weak h hs
  refine ⟨Guard.inv_weak (g := total) hw (h.owned.entered hent), ?_⟩
  by_cases hcall : ∃ now, call = .advance now
  · obtain ⟨now, rfl⟩ := hcall
    obtain ⟨u, hu, hx⟩ := Option.map_eq_some_iff.1 hs
    cases hx
    rcases le_or_gt m.now now with hle | hlt
    · exact ((advance_does h.owned h.timely hle).2 t hu).2.1
    · rw [advance, if_pos hlt] at hu
      cases hu
      exact h.timely
  · exact (h.timely.entered h.owned hent fun now he => hcall ⟨now, he⟩).weak hw

/-- The states of the runs of a new machine. -/
theorem sound_run {config : Config} {poolId : ℕ} (h : Run Step (fresh config poolId) tr m) :
    Sound m :=
  h.invariant (P := fun _ m => Sound m) (sound_fresh config poolId)
    fun _ _ _ _ _ hm hs => hm.step hs

/-! ### Evaluating a run -/

/-- The calls one after the other with their answers, as long as each passes a check of the state
it is made in. -/
def replay (check : PoolMachine → Call → Bool) (m : PoolMachine) :
    List Call → Option (List (Call × Outcome) × PoolMachine)
  | [] => some ([], m)
  | call :: calls => do
    guard (check m call)
    let (t, out) ← m.call call
    let (tr, u) ← t.replay check calls
    return ((call, out) :: tr, u)

theorem run_of_replay {C : PoolMachine → Call → Prop} {check : PoolMachine → Call → Bool}
    (hC : ∀ m call, check m call = true → C m call) {calls : List Call}
    (h : m.replay check calls = some (tr, t)) : Run (StepUnder C) m tr t := by
  induction calls generalizing m tr with
  | nil =>
    cases h
    exact .nil
  | cons call calls ih =>
    obtain ⟨_, hcheck, h⟩ := Option.bind_eq_some_iff.1 h
    obtain ⟨⟨u, out⟩, hcall, h⟩ := Option.bind_eq_some_iff.1 h
    obtain ⟨⟨tr', v⟩, hrest, h⟩ := Option.bind_eq_some_iff.1 h
    cases h
    have hok : check m call = true := by
      by_contra hno
      simp [guard, hno] at hcheck
    exact .cons ⟨hC m call hok, hcall⟩ (ih hrest)

/-- A run with a property that can be evaluated. -/
theorem exists_run {C : PoolMachine → Call → Prop} (check : PoolMachine → Call → Bool)
    (hC : ∀ m call, check m call = true → C m call) (calls : List Call)
    (q : List (Call × Outcome) → PoolMachine → Bool)
    (h : (m.replay check calls).any (fun x => q x.1 x.2) = true) :
    ∃ tr t, Run (StepUnder C) m tr t ∧ q tr t = true := by
  obtain ⟨⟨tr, t⟩, hx, hq⟩ := (Option.any_eq_true _ _).1 h
  exact ⟨tr, t, run_of_replay hC hx, hq⟩

theorem Run.of_under {C : PoolMachine → Call → Prop} (h : Run (StepUnder C) m tr t) :
    Run Step m tr t := h.mono fun _ _ _ hs => hs.2

/-- The same for a host that may make any call. -/
theorem exists_any_run (calls : List Call) (q : List (Call × Outcome) → PoolMachine → Bool)
    (h : (m.replay (fun _ _ => true) calls).any (fun x => q x.1 x.2) = true) :
    ∃ tr t, Run Step m tr t ∧ q tr t = true := by
  obtain ⟨tr, t, hrun, hq⟩ :=
    exists_run (C := fun _ _ => True) _ (fun _ _ _ => trivial) calls q h
  exact ⟨tr, t, Run.of_under hrun, hq⟩

/-- A request for an SSH connection. -/
def sshRequest : Request :=
  { key := .ssh "user" "host" 22, identity := .ambient, owner := ⟨"session", "operation"⟩ }

/-- A request of an operation for an HTTPS connection. -/
def httpsRequest (identity : Identity) (operation : String) : Request :=
  { key := .https "host" 443, identity, owner := ⟨"session", operation⟩ }

/-- Any calls of a new pool panic or leave callers' deadlines ahead: of requests that wait, and of
those that open a connection under a clock of their own. -/
theorem calls_keep_deadlines (config : Config) (poolId : ℕ) (calls : List Call) :
    let x := (fresh config poolId).replay (fun _ _ => true) calls
    x = none ∨ ∃ tr m, x = some (tr, m) ∧ Timely m := by
  intro x
  cases hx : x with
  | none => exact .inl rfl
  | some y =>
    have hrun := run_of_replay (C := fun _ _ => True) (fun _ _ _ => trivial) hx
    exact .inr ⟨y.1, y.2, rfl, (sound_run (Run.of_under hrun)).timely⟩

end PoolMachine

end GwzTransport.Pool
