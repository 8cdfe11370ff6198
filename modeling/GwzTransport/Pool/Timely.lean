import GwzTransport.Pool.Owned

/-!
# No request outlives its absolute deadline unnoticed

A clock of the pool's own runs out no later than the absolute deadline of the request it serves,
and a request without such a clock is watched by the queue.  So between two calls a request that
waits, or that opens a connection under the pool's own clock, still has time.

The time enters as a predicate of deadlines: moves keep every such property of a request, and only
`advance` has to establish it for a later time.
-/

namespace GwzTransport.Pool

open Protocol MachineInt Transition

/-- What bounds an opening connection whose request has the absolute deadline `a`; a shared setup
clock looks after itself. -/
def ClockOk (early : ℕ → Prop) (a : ℕ) : Option ConnectClock → Prop
  | none => early a
  | some k => k.isShared = true ∨ early a ∧ ∃ d, k.deadline = some d ∧ d ≤ a

/-- A request and the connection it opens keep to the request's absolute deadline. -/
def Prompt (early : ℕ → Prop) (entries : SortedMap ConnectionId Entry) (r : RequestId)
    (p : Pending) : Prop :=
  ∀ a, p.absoluteDeadline = some a → p.deadline ≤ a ∧ (p.state = .waiting → early a) ∧
    ∀ c e o, entries.get? c = some e → e.state = .opening o → o.request = some r →
      ClockOk early a o.clock

namespace PoolMachine

variable {m m' : PoolMachine} {k : Option Mark}

/-- Where an opening connection with a request comes from: it was there with an equal or an
adjusted clock, or it is the new connection of a waiting request. -/
theorem Move.opening_origin (hv : Move m k m') {c : ConnectionId} {e' : Entry} {o' : Opening}
    {r : RequestId} (hc : m'.entries.get? c = some e') (he' : e'.state = .opening o')
    (ho' : o'.request = some r) :
    (∃ p, m.requests.get? r = some p ∧ p.state = .waiting ∧ o'.clock = none) ∨
      ∃ e o, m.entries.get? c = some e ∧ e.state = .opening o ∧ o.request = some r ∧
        (o'.clock = o.clock ∨ ∃ k', o'.clock = some k' ∧ (k'.isShared = true ∨
          (∀ k, o.clock = some k → k.isShared = false) ∧
            ∀ p, m.requests.get? r = some p → k'.Within p)) := by
  cases hv.origin hc with
  | same hc => exact .inr ⟨e', o', hc, he', ho', .inl rfl⟩
  | reserved hr hp hroom ho hclock hcancel hnext hk he =>
    subst he
    cases he'
    cases ho.symm.trans ho'
    exact .inl ⟨_, hr, hp, hclock⟩
  | @changed e hd hb =>
    right
    cases hb with
    | cancel =>
      cases he'
      cases ho'
    | @clock o k he hclock k' hk interactionMs =>
      cases he'
      refine ⟨e, o, hd, he, ho', .inr ⟨k', rfl, hk.imp_right fun hk => ⟨?_, ?_⟩⟩⟩
      · intro x hx
        rw [hclock] at hx
        exact Option.some.inj hx ▸ hk.1
      · exact fun p hr => hk.2 r p ho' hr
    | @connect o he hclock hcancel deadline hk =>
      cases he'
      refine ⟨e, o, hd, he, ho', .inr ⟨_, rfl, .inr ⟨?_, fun p hr => hk r p ho' hr⟩⟩⟩
      intro x hx
      rw [hclock] at hx
      cases hx
    | @cancelConnect o k he =>
      cases he'
      exact ⟨e, o, hd, he, ho', .inl rfl⟩
    | @abortConnect o k he =>
      cases he'
      exact ⟨e, o, hd, he, ho', .inl rfl⟩
    | scope hl =>
      rw [show e.state = .opening o' from he'] at hl
      cases hl
    | _ => cases he'

/-- Every move keeps every request to its deadlines. -/
theorem Move.prompt (hv : Move m k m') (early : ℕ → Prop) {r : RequestId} {p' : Pending}
    (hr : m'.requests.get? r = some p') : ∃ p, m.requests.get? r = some p ∧
      p'.absoluteDeadline = p.absoluteDeadline ∧
      (Prompt early m.entries r p → Prompt early m'.entries r p') := by
  obtain ⟨p, hp, hb⟩ := hv.request_origin hr
  have hdeadline : p'.deadline = p.deadline := by rw [hb.same]
  have habsolute : p'.absoluteDeadline = p.absoluteDeadline := by rw [hb.same]
  refine ⟨p, hp, habsolute, fun h a ha => ?_⟩
  obtain ⟨hle, hearly, hclock⟩ := h a (habsolute ▸ ha)
  refine ⟨hdeadline ▸ hle, fun hw => hearly (hb.waiting hw), fun c e o hc he ho => ?_⟩
  rcases hv.opening_origin hc he ho with ⟨q, hq, hqw, hnone⟩ | ⟨e₀, o₀, hc₀, he₀, ho₀, hk⟩
  · rw [hnone]
    cases hq.symm.trans hp
    exact hearly hqw
  · have hold := hclock c e₀ o₀ hc₀ he₀ ho₀
    rcases hk with hk | ⟨k', hk', hshared | ⟨hown, hwithin⟩⟩
    · rwa [hk]
    · rw [hk']
      exact .inl hshared
    · rw [hk']
      refine .inr ⟨?_, hwithin p hp a (habsolute ▸ ha) hle⟩
      -- the clock it replaces was the pool's own, or the queue was still watching
      cases hc₁ : o₀.clock with
      | none => rwa [hc₁] at hold
      | some x =>
        rw [hc₁] at hold
        rcases hold with hs | ⟨h, -⟩
        · rw [hown x hc₁] at hs
          cases hs
        · exact h

/-- No request has missed its absolute deadline. -/
def Timely (m : PoolMachine) : Prop :=
  ∀ r p, m.requests.get? r = some p → Prompt (m.now < ·) m.entries r p

theorem Move.now_eq (hv : Move m k m') : m'.now = m.now ∧ m'.config = m.config := by
  cases hv <;> exact ⟨rfl, rfl⟩

theorem Timely.step (h : Timely m) (hv : Move m k m') : Timely m' := by
  intro r p' hr
  obtain ⟨p, hp, -, hkeep⟩ := hv.prompt (m.now < ·) hr
  rw [hv.now_eq.1]
  exact hkeep (h r p hp)

end PoolMachine

end GwzTransport.Pool
