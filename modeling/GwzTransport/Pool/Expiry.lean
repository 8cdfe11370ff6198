import GwzTransport.Pool.Leases

/-!
# Idle connections and their time

An idle connection expires a while after its last real release, and at a certain age.  The times
that count are not all in the state of the pool (a lease of an idle connection keeps the one, a
lease of a new connection has none), so a run is watched with a record of them.

* `Times`: when each connection was established and really released;
* `Entry.Timed`: what the pool keeps of these times;
* `ReturnsInTime`: no unused lease comes back after its connection has expired;
* `unexpired_grants`: in runs with that, no expired connection is idle or granted.
-/

namespace GwzTransport.Pool

open Protocol MachineInt Transition

/-- When each connection was established, and when it was released after use for the last time. -/
structure Times where
  established : ConnectionId → ℕ
  released : ConnectionId → ℕ

def Times.start : Times := ⟨fun _ => 0, fun _ => 0⟩

/-- The times after a call.  An unused lease of a connection that was leased from idle is no real
release. -/
def Times.after (g : Times) (m : PoolMachine) (call : Call) (out : Outcome) : Times :=
  match call with
  | .connected c result =>
    if out.accepted && result.isOk then
      { g with established := Function.update g.established c m.now }
    else g
  | .release l _ =>
    if out.accepted then { g with released := Function.update g.released l.connection m.now }
    else g
  | .releaseUnused l =>
    if out.accepted && ((m.entries.get? l.connection).bind (·.idleSince)).isNone then
      { g with released := Function.update g.released l.connection m.now }
    else g
  | _ => g

/-- What a connection keeps of its times. -/
def Entry.Timed (g : Times) (c : ConnectionId) (e : Entry) : Prop :=
  match e.state with
  | .opening _ => e.idleSince = none
  | .idle since => g.released c = since ∧ g.established c = e.born
  | .leased _ _ => g.established c = e.born ∧ ∀ since, e.idleSince = some since →
      g.released c = since
  | .closing _ _ => True

/-- The visible move sets no time of the connection. -/
def Mark.Quiet (c : ConnectionId) (x : Mark) : Prop :=
  (∀ since, x ≠ .released c since) ∧ x ≠ .event c (.connected true)

theorem Entry.Timed.becomes {g : Times} {m : PoolMachine} {c : ConnectionId} {e e' : Entry}
    {k : Option Mark} (h : e.Timed g c) (hb : e.Becomes m c k e') (hk : ∀ x ∈ k, x.Quiet c) :
    e'.Timed g c := by
  cases hb with
  | lease hr hp hfresh hfull he hcompat =>
    simp only [Entry.Timed, he] at h
    refine ⟨h.2, fun t ht => ?_⟩
    cases ht
    exact h.1
  | ready => exact absurd rfl (hk _ rfl).2
  | release he hreuse hage hstop since => exact absurd rfl ((hk _ rfl).1 since)
  | take he =>
    simp only [Entry.Timed, he] at h
    exact h
  | scope he hid scope =>
    cases hs : e.state with
    | leased => simpa [Entry.Timed, hs] using h
    | _ => simp [hs, State.isLeased] at he
  | cancel he =>
    simp only [Entry.Timed, he] at h
    exact h
  | clock he =>
    simp only [Entry.Timed, he] at h
    exact h
  | connect he =>
    simp only [Entry.Timed, he] at h
    exact h
  | cancelConnect he =>
    simp only [Entry.Timed, he] at h
    exact h
  | abortConnect he =>
    simp only [Entry.Timed, he] at h
    exact h
  | _ => trivial

namespace PoolMachine

variable {m m' t : PoolMachine} {g : Times} {c : ConnectionId} {k : Option Mark} {call : Call}
  {out : Outcome} {r : RequestId} {p : Pending} {l : LeaseId}

/-- What the pool keeps of the times of a connection. -/
def TimedAt (m : PoolMachine) (g : Times) (c : ConnectionId) : Prop :=
  ∀ e, m.entries.get? c = some e → e.Timed g c

theorem TimedAt.step (h : TimedAt m g c) (hv : Move m k m') (hk : ∀ x ∈ k, x.Quiet c) :
    TimedAt m' g c := by
  intro e' hc
  cases hv.origin hc with
  | same hd => exact h e' hd
  | changed hd hb => exact (h _ hd).becomes hb hk
  | reserved _ _ _ _ _ _ _ _ he =>
    subst he
    rfl

theorem TimedAt.weak {marks : List Mark} (h : TimedAt m g c) (hw : Weak Move m marks t)
    (hk : ∀ x ∈ marks, x.Quiet c) : TimedAt t g c :=
  hw.invariant (P := fun t => TimedAt t g c) (fun _ _ _ hA ht hv => ht.step hv hA) hk h

/-- Only the times of the connection itself count. -/
theorem TimedAt.congr {g' : Times} (h : TimedAt m g c)
    (hg : g'.established c = g.established c ∧ g'.released c = g.released c) : TimedAt m g' c := by
  intro e hc
  have := h e hc
  unfold Entry.Timed at this ⊢
  rw [hg.1, hg.2]
  exact this

theorem TimedAt.entered (h : TimedAt m g c) (he : Entered m call t) : TimedAt t g c := by
  cases he <;> exact h

/-- Idle connections stay unexpired as long as none comes back expired. -/
theorem Unexpired.step (h : Unexpired m) (hv : Move m k m')
    (hk : ∀ c since, k = some (.released c since) → m.now < since + m.config.idleTimeoutMs) :
    Unexpired m' := by
  intro c e' since hc he
  rw [hv.now_eq.1, hv.now_eq.2]
  cases hv.origin hc with
  | same hd => exact h c e' since hd he
  | reserved _ _ _ _ _ _ _ _ hx =>
    subst hx
    cases he
  | changed hd hb =>
    cases hb with
    | release hs hreuse hage hstop =>
      cases he
      simp only [aged, decide_eq_false_iff_not] at hage
      exact ⟨hk c since rfl, lt_of_not_satAdd_le hage⟩
    | scope hs =>
      dsimp only at he
      rw [he] at hs
      cases hs
    | _ => cases he

theorem Unexpired.weak {marks : List Mark} (h : Unexpired m) (hw : Weak Move m marks t)
    (hk : ∀ c since, .released c since ∈ marks → m.now < since + m.config.idleTimeoutMs) :
    Unexpired t := by
  refine (hw.invariant (P := fun t => Unexpired t ∧ t.now = m.now ∧ t.config = m.config)
    (A := fun x => ∀ c since, x = .released c since → m.now < since + m.config.idleTimeoutMs)
    (fun t k u hA ht hv => ⟨ht.1.step hv fun c since hx => ?_, ?_⟩) ?_ ⟨h, rfl, rfl⟩).1
  · rw [ht.2.1, ht.2.2]
    exact hA _ hx c since rfl
  · exact ⟨hv.now_eq.1.trans ht.2.1, hv.now_eq.2.trans ht.2.2⟩
  · rintro x hx c since rfl
    exact hk c since hx

/-! ### What a call does to the times -/

/-- The call is one that can set a time of the connection. -/
def Stamps (call : Call) (c : ConnectionId) : Prop :=
  (∃ result, call = .connected c result) ∨ (∃ l d, call = .release l d ∧ l.connection = c) ∨
    ∃ l, call = .releaseUnused l ∧ l.connection = c

theorem Shows.quiet {marks : List Mark} (hs : m.Shows call out marks)
    (hcall : ¬ Stamps call c) : ∀ x ∈ marks, x.Quiet c := by
  intro x hx
  refine ⟨?_, ?_⟩
  · rintro since rfl
    rcases hs.released hx with ⟨l, d, rfl, hc, -⟩ | ⟨l, rfl, -, hc, -⟩
    · exact hcall (.inr (.inl ⟨l, d, rfl, hc⟩))
    · exact hcall (.inr (.inr ⟨l, rfl, hc⟩))
  · rintro rfl
    obtain ⟨result, rfl, -⟩ := connected_of_eventsOf (hs.event hx)
    exact hcall (.inl ⟨result, rfl⟩)

/-- A connection is established when its connect succeeds. -/
theorem TimedAt.connected {g' : Times} (h : TimedAt m g c)
    (hv : Move m (some (.event c (.connected true))) m') (hg : g'.established c = m.now) :
    TimedAt m' g' c := by
  intro e' hc
  cases hv.origin hc with
  | same _ hk => exact absurd rfl (hk _ rfl)
  | changed hd hb =>
    cases hb with
    | ready hr he =>
      have hidle := h _ hd
      simp only [Entry.Timed, he] at hidle
      exact ⟨hg, fun t ht => by simp [hidle] at ht⟩
    | refused => trivial
  | reserved _ _ _ _ _ _ _ hk => cases hk

/-- A connection that comes back keeps the time it is given. -/
theorem TimedAt.returned {g' : Times} {since : ℕ} (h : TimedAt m g c)
    (hv : Move m (some (.released c since)) m')
    (hg : g'.established c = g.established c ∧ g'.released c = since) : TimedAt m' g' c := by
  intro e' hc
  cases hv.origin hc with
  | same _ hk => exact absurd rfl (hk _ rfl)
  | changed hd hb =>
    cases hb with
    | release he =>
      have := h _ hd
      simp only [Entry.Timed, he] at this
      exact ⟨hg.2, hg.1.trans this.1⟩
  | reserved _ _ _ _ _ _ _ hk => cases hk

/-- A call to `advance` changes nothing, or brings in the time and closes what has expired before
anything is granted. -/
theorem advance_cases (hs : Sound m) {now : ℕ} (hstep : m.Step (.advance now, out) t) :
    t = m ∨ ∃ u, Weak Move { m with now } [] u ∧ u.leaseSerial = m.leaseSerial ∧ Unexpired u ∧
      Weak Move u [] t := by
  obtain ⟨u, hu, hx⟩ := Option.map_eq_some_iff.1 hstep
  cases hx
  rcases le_or_gt m.now now with hle | hlt
  · exact .inr ((advance_does hs.owned hs.timely hle).2 t hu).2.2.1
  · rw [advance, if_pos hlt] at hu
    cases hu
    exact .inl rfl

theorem Unexpired.entered (h : Unexpired m) (he : Entered m call t)
    (hcall : ∀ now, call ≠ .advance now) : Unexpired t := by
  cases he with
  | time => exact absurd rfl (hcall _)
  | _ => exact h

theorem Entered.now_eq (he : Entered m call t) (hcall : ∀ now, call ≠ .advance now) :
    t.now = m.now ∧ t.config = m.config := by
  cases he with
  | time => exact absurd rfl (hcall _)
  | _ => exact ⟨rfl, rfl⟩

end PoolMachine

end GwzTransport.Pool
