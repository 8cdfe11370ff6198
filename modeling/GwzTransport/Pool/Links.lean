import GwzTransport.Pool.Runs

/-!
# No request loses its connection

A request that opens or holds a connection has it, and the connection works for that request.
`retire_https_scope` breaks this when a connection of the scope still works for a request: the
connection closes, the request keeps pointing to it, and once the closing is acknowledged the next
`advance` panics.  In every run that retires a scope only while its connections work for no
request, the links hold, `take` hands out live leases and no call panics.
-/

namespace GwzTransport.Pool

open Protocol MachineInt Transition

namespace PoolMachine

variable {m m' t : PoolMachine} {tr : List (Call × Outcome)}

/-- The call does not retire a scope under a request that opens or holds a connection of it. -/
def RetiresUnused (m : PoolMachine) (call : Call) : Prop :=
  ∀ scope, call = .retireHttpsScope scope → ∀ c e, m.entries.get? c = some e →
    e.identity = .httpsScoped scope → e.state.holder = none

/-- `RetiresUnused` as a check. -/
def retiresUnused (m : PoolMachine) : Call → Bool
  | .retireHttpsScope scope => m.entries.toList.all fun x =>
      x.2.identity != .httpsScoped scope || x.2.state.holder.isNone
  | _ => true

theorem retiresUnused_sound (m : PoolMachine) (call : Call) (h : m.retiresUnused call = true) :
    m.RetiresUnused call := by
  rintro scope rfl c e hc hid
  have := List.all_eq_true.1 h (c, e) ((SortedMap.mem_toList _).2 hc)
  simpa [hid] using this

/-- The two maps agree. -/
structure Links (m : PoolMachine) : Prop where
  opening : ∀ r p c, m.requests.get? r = some p → p.state = .opening c →
    ∃ e o, m.entries.get? c = some e ∧ e.state = .opening o ∧ o.request = some r ∧ o.cancel = none
  ready : ∀ r p l, m.requests.get? r = some p → p.state = .ready l →
    ∃ e, m.entries.get? l.connection = some e ∧ e.state = .leased l (some r)
  opens_for : ∀ c e o r, m.entries.get? c = some e → e.state = .opening o → o.request = some r →
    ∃ p, m.requests.get? r = some p ∧ p.state = .opening c
  leased_to : ∀ c e l r, m.entries.get? c = some e → e.state = .leased l (some r) →
    ∃ p, m.requests.get? r = some p ∧ p.state = .ready l

theorem Linked.links (h : Owned m) (hl : Linked m) : Links m where
  opening r p c hr hp := by
    have htie : p.tie = some (c, none, some p.request.owner) := by simp [Pending.tie, hp]
    rcases hl.holder_of_target ((targets_of_get hr).trans htie) with hf | hh
    · exact hf.elim
    · obtain ⟨e, hc, he⟩ := Option.bind_eq_some_iff.1 hh
      obtain ⟨o, hs, ho⟩ := Entry.of_tie_dial he
      exact ⟨e, o, hc, hs, ho, (h.opening_of_request hr hc hs ho).2⟩
  ready r p l hr hp := by
    have htie : p.tie = some (l.connection, some l, some p.request.owner) := by
      simp [Pending.tie, hp]
    rcases hl.holder_of_target ((targets_of_get hr).trans htie) with hf | hh
    · exact hf.elim
    · obtain ⟨e, hc, he⟩ := Option.bind_eq_some_iff.1 hh
      exact ⟨e, hc, Entry.of_tie_lease he⟩
  opens_for c e o r hc he ho := h.request_of_opening hc he ho
  leased_to c e l r hc he := by
    have htie : e.tie = some (r, some l, e.owner) := by simp [Entry.tie, he]
    obtain ⟨p, hr, hp⟩ := Option.bind_eq_some_iff.1
      (hl.target_of_holder ((holders_of_get hc).trans htie))
    refine ⟨p, hr, ?_⟩
    cases hs : p.state <;> simp_all [Pending.tie]

theorem Linked.entered {call : Call} (hl : Linked m) (h : Owned m) (he : Entered m call t) :
    Linked t := by
  cases he with
  | request ha =>
    rw [Linked, ha.id_eq, h.targets_enter]
    exact hl
  | _ => exact hl

/-- A call that retires no busy connection keeps all links. -/
theorem Linked.call {call : Call} {out : Outcome} (h : Sound m) (hl : Linked m)
    (hr : m.RetiresUnused call) (hs : m.Step (call, out) t) : Linked t := by
  obtain ⟨marks, hent, hw, hshow⟩ := call_weak h hs
  refine Guard.safe_weak (g := linked) hw (h.owned.entered hent) (fun k hk c hkc => ?_)
    (hl.entered h.owned hent)
  -- a busy retirement is shown by `retire_https_scope` alone
  subst hkc
  obtain ⟨scope, e, hcall, hd, hid, hbusy⟩ := hshow.retired hk
  rw [hr scope hcall c e hd hid] at hbusy
  cases hbusy

theorem linked_run {config : Config} {poolId : ℕ}
    (h : Run (StepUnder RetiresUnused) (fresh config poolId) tr m) : Sound m ∧ Linked m := by
  refine h.invariant (P := fun _ m => Sound m ∧ Linked m) ⟨sound_fresh config poolId, ?_⟩ ?_
  · exact ⟨fun h => (by cases h), fun h => (by cases h), fun h => h.elim⟩
  · intro _ m x t _ hm hs
    exact ⟨hm.1.step hs.2, hm.2.call hm.1 hs.1 hs.2⟩

/-- `take` hands out a lease that is live. -/
theorem Linked.take_live (h : Owned m) (hl : Linked m) {r : RequestId} {l : LeaseId}
    (ht : m.take r = (t, .ok l)) : t.isLive l = true := by
  unfold take at ht
  cases hr : m.requests.get? r with
  | none => simp [hr] at ht
  | some p =>
    simp only [hr, Option.map_some] at ht
    cases hp : p.state with
    | ready lease =>
      simp only [hp, Prod.mk.injEq, Except.ok.injEq] at ht
      obtain ⟨rfl, rfl⟩ := ht
      obtain ⟨e, hc, he⟩ := (hl.links h).ready r p lease hr hp
      rw [claim_of_leased hc he]
      simp [isLive, forget, touch, putEntry]
    | _ => simp [hp] at ht

/-- The lookups of `next_deadline` succeed. -/
theorem Linked.nextDeadline_ne_none (hl : Linked m) : m.nextDeadline ≠ none := by
  have hqueue : ∀ x ∈ m.requests.toList, ∃ d, m.queueDeadline x.1 x.2 = some d := by
    rintro ⟨r, p⟩ hx
    have hr := (SortedMap.mem_toList _).1 hx
    unfold queueDeadline
    cases hp : p.state with
    | opening c =>
      have htie : p.tie = some (c, none, some p.request.owner) := by simp [Pending.tie, hp]
      obtain ⟨e, hc⟩ := Option.ne_none_iff_exists'.1 (Linked.entry_ne_none hl hr htie)
      simp only [hc, Option.bind_eq_bind, Option.bind_some]
      split <;> exact ⟨_, rfl⟩
    | _ => exact ⟨_, rfl⟩
  have hall : ∀ l : List (RequestId × Pending),
      (∀ x ∈ l, ∃ d, m.queueDeadline x.1 x.2 = some d) →
      ∃ ds, (l.mapM fun x => m.queueDeadline x.1 x.2) = some ds := by
    intro l
    induction l with
    | nil => exact fun _ => ⟨[], rfl⟩
    | cons x l ih =>
      intro h
      obtain ⟨d, hd⟩ := h x List.mem_cons_self
      obtain ⟨ds, hds⟩ := ih fun y hy => h y (List.mem_cons_of_mem _ hy)
      exact ⟨d :: ds, by simp [List.mapM_cons, hd, hds]⟩
  obtain ⟨ds, hds⟩ := hall _ hqueue
  simp [nextDeadline, hds]

/-- In every run that retires a scope only while its connections work for no request: the two maps
agree, `take` hands out live leases only, and no call panics. -/
theorem links_preserved {config : Config} {poolId : ℕ}
    (h : Run (StepUnder RetiresUnused) (fresh config poolId) tr m) :
    Links m ∧ (∀ r t l, m.take r = (t, .ok l) → t.isLive l = true) ∧
      (∀ call, m.call call ≠ none) ∧ m.nextDeadline ≠ none := by
  obtain ⟨hs, hl⟩ := linked_run h
  exact ⟨hl.links hs.owned, fun r t l => hl.take_live hs.owned, call_ne_none hs hl,
    hl.nextDeadline_ne_none⟩

/-- A request for a connection under a credential scope. -/
def scopedRequest : Request :=
  httpsRequest (.httpsScoped "scope") "operation"

/-- The scope is retired while its connection is leased and no request waits for it; a second
request opens a new connection. -/
theorem links_preserved_retired : ∃ tr m, Run (StepUnder RetiresUnused) (fresh .default 1) tr m ∧
    (m.entries.get? ⟨1, 1⟩).any (·.state.isClosing) = true ∧
    (m.entries.get? ⟨1, 2⟩).any (·.state.isOpening) = true ∧ Links m := by
  obtain ⟨tr, m, hrun, hq⟩ := exists_run (m := fresh .default 1) retiresUnused retiresUnused_sound
    [.requestUntil scopedRequest none, .nextAction,
      .connected ⟨1, 1⟩ (.ok (some (.httpsScoped "scope"))), .take ⟨1, 1⟩,
      .retireHttpsScope "scope", .requestUntil scopedRequest none]
    (fun _ m => (m.entries.get? ⟨1, 1⟩).any (·.state.isClosing) &&
      (m.entries.get? ⟨1, 2⟩).any (·.state.isOpening)) (by decide +kernel)
  rw [Bool.and_eq_true] at hq
  exact ⟨tr, m, hrun, hq.1, hq.2, (links_preserved hrun).1⟩

/-- The defect: the scope of an opening connection is retired; when its closing is acknowledged
the request still points to it, and the next `advance` panics. -/
theorem retire_loses_connection : ∃ tr m, Run Step (fresh .default 1) tr m ∧
    (∃ r p c, m.requests.get? r = some p ∧ p.state = .opening c ∧ m.entries.get? c = none) ∧
      m.call (.advance 1) = none := by
  obtain ⟨tr, m, hrun, hq⟩ := exists_any_run (m := fresh .default 1)
    [.requestUntil scopedRequest none, .nextAction, .retireHttpsScope "scope", .nextAction,
      .closed ⟨1, 1⟩]
    (fun _ m => (m.call (.advance 1)).isNone && (m.entries.get? ⟨1, 1⟩).isNone &&
      (m.requests.get? ⟨1, 1⟩).any (·.state == .opening ⟨1, 1⟩)) (by decide +kernel)
  simp only [Bool.and_eq_true, Option.isNone_iff_eq_none, Option.any_eq_true, beq_iff_eq] at hq
  obtain ⟨⟨hpanic, hgone⟩, p, hr, hp⟩ := hq
  exact ⟨tr, m, hrun, ⟨⟨1, 1⟩, p, ⟨1, 1⟩, hr, hp, hgone⟩, hpanic⟩

end PoolMachine

end GwzTransport.Pool
