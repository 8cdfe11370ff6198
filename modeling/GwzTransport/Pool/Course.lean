import GwzTransport.Pool.Effects

/-!
# What a call does before it serves

A call prepares something: it fails requests, closes or removes connections, or returns one to the
idle ones.  Then it runs `schedule`.  What it prepares serves nobody.

* `Recede`: a queue none of whose requests was served;
* `Prepares`: a step that serves no request and lets none begin to wait;
* `enter`: the new request of `request_until`, `collectExpired_prepares`: the look of `advance` at
  the requests that have run out of time.
-/

namespace GwzTransport.Pool

open Protocol MachineInt Transition

/-- A request that is not served: it stays the same but for its state and its victim, waits only if
it waited, and has a connection only if it had one. -/
structure Pending.Recedes (q p : Pending) : Prop where
  request : p.request = q.request
  waiting : p.state = .waiting → q.state = .waiting
  target : p.state.target ≠ none → q.state.target ≠ none

namespace PoolMachine

variable {m t u : PoolMachine} {c : ConnectionId} {e e' : Entry} {r : RequestId} {p p' : Pending}

section Recede

variable {a b d : SortedMap RequestId Pending}

/-- The second queue has requests of the first, none of them served in between. -/
def Recede (a b : SortedMap RequestId Pending) : Prop :=
  ∀ r p, b.get? r = some p → ∃ q, a.get? r = some q ∧ q.Recedes p

theorem Recede.refl (a : SortedMap RequestId Pending) : Recede a a :=
  fun _ p hr => ⟨p, hr, rfl, id, id⟩

theorem Recede.trans (h : Recede a b) (h' : Recede b d) : Recede a d := by
  intro r p hr
  obtain ⟨q, hq, hqp⟩ := h' r p hr
  obtain ⟨x, hx, hxq⟩ := h r q hq
  exact ⟨x, hx, hqp.request.trans hxq.request, hxq.waiting ∘ hqp.waiting, hxq.target ∘ hqp.target⟩

theorem Recede.insert (hr : a.get? r = some p) (h : p.Recedes p') : Recede a (a.insert r p') := by
  intro j q hj
  rw [SortedMap.get?_insert] at hj
  split_ifs at hj with hjr
  · cases hj
    exact ⟨p, hjr ▸ hr, h⟩
  · exact Recede.refl a j q hj

theorem Recede.fail (hr : a.get? r = some p) (error : Error) :
    Recede a (a.insert r { p with state := .failed error }) :=
  .insert hr ⟨rfl, nofun, fun h => absurd rfl h⟩

theorem Recede.answer (m : PoolMachine) (holder : Option RequestId) (error : Error) :
    Recede m.requests (m.answer holder error) := by
  unfold PoolMachine.answer
  split
  · exact .refl _
  · split
    · exact .refl _
    · rename_i hr
      exact .fail hr error

end Recede

/-- No settle time is set and no slot is held. -/
def Unsettled (m : PoolMachine) : Prop := (∀ x ∈ m.settles, x.2 = 0) ∧ m.holds = .empty

/-- What a call does before and after `schedule`: no request is served and none begins to wait. -/
structure Prepares (m t : PoolMachine) : Prop where
  requests : Recede m.requests t.requests
  unsettled : m.Unsettled → t.Unsettled

theorem Prepares.refl (m : PoolMachine) : Prepares m m := ⟨.refl _, id⟩

theorem Prepares.trans (h : Prepares m t) (h' : Prepares t u) : Prepares m u :=
  ⟨h.requests.trans h'.requests, h'.unsettled ∘ h.unsettled⟩

/-- A step that leaves the settle times and the holds alone. -/
theorem Prepares.of_eq (h : Recede m.requests t.requests) (hs : t.settles = m.settles)
    (hh : t.holds = m.holds) : Prepares m t :=
  ⟨h, fun hm => ⟨hs ▸ hm.1, hh.trans hm.2⟩⟩

theorem settleMs_eq_zero (h : ∀ x ∈ m.settles, x.2 = 0) (key : Key) (settle : Bool) :
    m.settleMs key settle = 0 := by
  unfold settleMs
  split_ifs
  · cases hx : m.settles.find? fun e => key.onSite e.1 with
    | none => rfl
    | some x => exact h x (List.mem_of_find?_eq_some hx)
  · rfl

/-- Without settle times a disposed connection leaves nothing behind. -/
theorem dispose_holds (h : m.Unsettled) (c : ConnectionId) (settle : Bool) :
    (m.dispose c settle).holds = .empty := by
  unfold dispose
  split
  · exact h.2
  · rw [settleMs_eq_zero h.1, if_pos rfl]
    exact h.2

/-- A connection goes, with a hold in its place if its site has a settle time. -/
theorem Prepares.of_dispose {requests q : SortedMap RequestId Pending}
    (h : Recede m.requests requests) (c : ConnectionId) (settle : Bool) (v : ℕ) :
    Prepares m
      { m with
        requests, entries := m.entries.erase c
        holds := (dispose { m with requests := q } c settle).holds, revision := v } :=
  ⟨h, fun hm => ⟨hm.1, dispose_holds (m := { m with requests := q }) hm c settle⟩⟩

theorem Failing.prepares {error : Error} {reason : CloseReason} (h : Failing m r error reason t) :
    Prepares m t := by
  cases h with
  | gone | failed => exact .refl m
  | waiting hr | lost hr | ready hr | reserved hr | dialing hr =>
    exact .of_eq (.fail hr _) rfl rfl

theorem failRequest_prepares (h : Owned m) {error : Error} {reason : CloseReason}
    {result : Except Error Unit} (hx : m.failRequest r error reason = some (t, result)) :
    Prepares m t ∧ Owned t :=
  ⟨(failRequest_failing h hx).prepares, Guard.inv_weak (g := total) (failRequest_weak h hx).1 h⟩

theorem startClosing_prepares (h : Owned m) {reason : CloseReason}
    (hx : m.startClosing c reason = some t) : Prepares m t ∧ Owned t := by
  obtain ⟨e, hc, -⟩ := Option.bind_eq_some_iff.1 hx
  cases he : e.state.isClosing with
  | true =>
    rw [startClosing_of_closing hc he] at hx
    cases hx
    exact ⟨.refl _, h⟩
  | false =>
    rw [startClosing_eq hc he] at hx
    cases hx
    exact ⟨.of_eq (.refl _) rfl rfl, h.step (.retire hc he reason (m.cleanupDeadline e) _)⟩

theorem Prepares.foldlM {α : Type*} {f : PoolMachine → α → Option PoolMachine}
    (hf : ∀ m a t, Owned m → f m a = some t → Prepares m t ∧ Owned t) {l : List α} (h : Owned m)
    (hx : l.foldlM f m = some t) : Prepares m t ∧ Owned t := by
  induction l generalizing m with
  | nil =>
    cases hx
    exact ⟨.refl _, h⟩
  | cons a l ih =>
    rw [List.foldlM_cons] at hx
    obtain ⟨u, hu, hx⟩ := Option.bind_eq_some_iff.1 hx
    obtain ⟨hfirst, hown⟩ := hf m a u h hu
    exact (ih hown hx).imp_left hfirst.trans

theorem closeEach_prepares {α : Type*} {f : α → ConnectionId} {g : α → CloseReason} {xs : List α}
    (h : Owned m) (hx : xs.foldlM (fun m i => m.startClosing (f i) (g i)) m = some t) :
    Prepares m t ∧ Owned t :=
  Prepares.foldlM (fun _ _ _ hm => startClosing_prepares hm) h hx

theorem failEach_prepares {α : Type*} {f : α → RequestId} {g : α → Error} {reason : CloseReason}
    {xs : List α} (h : Owned m)
    (hx : xs.foldlM (fun m i => (m.failRequest (f i) (g i) reason).map (·.1)) m = some t) :
    Prepares m t ∧ Owned t := by
  refine Prepares.foldlM (fun m i t hm hu => ?_) h hx
  obtain ⟨⟨u, result⟩, hfail, rfl⟩ := Option.map_eq_some_iff.1 hu
  exact failRequest_prepares hm hfail

theorem putConnectClock_prepares (m : PoolMachine) (c : ConnectionId) (k : ConnectClock) :
    Prepares m (m.putConnectClock c k) := by
  unfold putConnectClock
  split
  · split
    · exact .of_eq (.refl _) rfl rfl
    · exact .refl m
  · exact .refl m

/-- The end of a connect serves no request but the one that dials. -/
theorem Move.connected_prepares (h : Owned m) {ok : Bool}
    (hv : Move m (some (.event c (.connected ok))) t) : Prepares m t := by
  cases hv with
  | connectedErr hc he hclock error queue settle v =>
    exact .of_dispose (.answer m _ error) c settle v
  | connectedReady hr hc he ho =>
    obtain ⟨q, hq, hstate⟩ := h.request_of_opening hc he ho
    cases hq.symm.trans hr
    refine .of_eq (.insert hr ?_) rfl rfl
    exact ⟨rfl, nofun, fun _ => by rw [hstate]; exact nofun⟩
  | connectedClosing hc he hclock error => exact .of_eq (.answer m _ error) rfl rfl

/-- A pool that stops fails and closes everything. -/
theorem stop_prepares (h : Owned m) (lost : Bool) {error : Error} {reason : CloseReason}
    (hx : stop { m with driverLost := lost } error reason = some t) : Prepares m t := by
  obtain ⟨u, hu, hx⟩ := Option.bind_eq_some_iff.1 hx
  obtain ⟨v, hv, hx⟩ := Option.bind_eq_some_iff.1 hx
  cases hx
  have hstop : Owned { m with driverLost := lost, stopped := true, holds := .empty } :=
    h.of_eq rfl rfl rfl rfl rfl
  have hprep : Prepares m { m with driverLost := lost, stopped := true, holds := .empty } :=
    ⟨.refl _, fun hm => ⟨hm.1, rfl⟩⟩
  obtain ⟨hfail, hown⟩ := failEach_prepares (f := fun r => r) (g := fun _ => error) hstop hu
  have hclose := (closeEach_prepares (f := fun c => c) (g := fun _ => reason) hown hv).1
  exact ((hprep.trans hfail).trans hclose).trans (.of_eq (.refl _) rfl rfl)

/-! ### The calls with something of their own -/

/-- The pool with a new request in its queue. -/
def enter (m : PoolMachine) (request : Request) (absolute : Option ℕ) : PoolMachine :=
  { m with
    requestSerial := m.requestSerial + 1
    requests := m.requests.insert ⟨m.poolId, m.requestSerial + 1⟩ (m.pending request absolute) }

theorem requestUntil_cases {request : Request} {absolute : Option ℕ}
    {result : Except Error RequestId} (hx : m.requestUntil request absolute = some (t, result)) :
    t = m ∧ result.isOk = false ∨ result = .ok ⟨m.poolId, m.requestSerial + 1⟩ ∧
      ∃ a, (m.enter request absolute).schedule = some a ∧ t = a.touch := by
  unfold requestUntil at hx
  split_ifs at hx
  · cases hx
    exact .inl ⟨rfl, rfl⟩
  · cases hx
    exact .inl ⟨rfl, rfl⟩
  · cases hx
    exact .inl ⟨rfl, rfl⟩
  · cases hx
    exact .inl ⟨rfl, rfl⟩
  · cases hx
    exact .inl ⟨rfl, rfl⟩
  · obtain ⟨a, ha, hx⟩ := Option.bind_eq_some_iff.1 hx
    cases hx
    exact .inr ⟨rfl, a, ha, rfl⟩
  · cases hx
    exact .inl ⟨rfl, rfl⟩

theorem overdue_prepares {error : Option Error} (hx : m.overdue p = some (t, error)) :
    Prepares m t := by
  unfold overdue at hx
  split at hx
  · cases hx
    exact .refl m
  · obtain ⟨e, hc, hx⟩ := Option.bind_eq_some_iff.1 hx
    split at hx
    · cases hx
      exact .refl m
    · cases hx
      exact putConnectClock_prepares m _ _
    · split_ifs at hx
      · obtain ⟨_, -, hx⟩ := Option.bind_eq_some_iff.1 hx
        cases hx
        exact .refl m
      · cases hx
        exact .refl m
    · cases hx
      exact .refl m
  · cases hx
    exact .refl m
  · cases hx
    exact .refl m

/-- Looking for the requests that have run out of time, `advance` reads the shared clocks. -/
theorem collectExpired_prepares {xs : List (RequestId × Pending)}
    {expired : List (RequestId × Error)} (hx : collectExpired xs m = some (t, expired)) :
    Prepares m t := by
  induction xs generalizing m expired with
  | nil =>
    cases hx
    exact .refl _
  | cons x xs ih =>
    obtain ⟨id, pending⟩ := x
    obtain ⟨⟨u, error⟩, hu, hx⟩ := Option.bind_eq_some_iff.1 hx
    obtain ⟨⟨v, rest⟩, hv, hx⟩ := Option.bind_eq_some_iff.1 hx
    cases hx
    exact (overdue_prepares hu).trans (ih hv)

end PoolMachine

end GwzTransport.Pool
