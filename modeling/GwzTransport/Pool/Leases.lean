import GwzTransport.Pool.Runs

/-!
# Leases

A lease is issued when a request becomes ready on a connection.  Its generation is the next number
of a counter that only grows, so a lease is issued once, and one that is not live any more never
is again.

* `BecomesReady`: a request is ready after a call and was not before;
* `grant_of_weak`: the move inside the call that made it ready;
* `Numbered`: no lease is ahead of the counter.
-/

namespace GwzTransport.Pool

open Protocol MachineInt Transition

namespace PoolMachine

variable {m m' t : PoolMachine} {r : RequestId} {p : Pending} {l : LeaseId} {k : Option Mark}
  {tr : List (Call × Outcome)}

/-- The request is ready with the lease after a call, and was not before. -/
def BecomesReady (m m' : PoolMachine) (r : RequestId) (p : Pending) (l : LeaseId) : Prop :=
  m'.requests.get? r = some p ∧ p.state = .ready l ∧
    ∀ q, m.requests.get? r = some q → q.state ≠ .ready l

/-- The move that makes a request ready, in a run of moves after which it is. -/
theorem grant_of_weak {marks : List Mark} (hw : Weak Move m marks t)
    (h : BecomesReady m t r p l) :
    ∃ u v q k marks₁ marks₂, Weak Move m marks₁ u ∧ Move u k v ∧ Weak Move v marks₂ t ∧
      marks = marks₁ ++ (k.toList ++ marks₂) ∧ u.requests.get? r = some q ∧
      q.request = p.request ∧ (l.generation = u.leaseSerial + 1 ∧
      v.leaseSerial = u.leaseSerial + 1) ∧ Granted u r q l.connection k ∧
      ∃ q', BecomesReady u v r q' l := by
  obtain ⟨tr, hrun, rfl⟩ := hw
  obtain ⟨hr, hp, hnew⟩ := h
  induction hrun generalizing p with
  | nil => exact absurd hp (hnew p hr)
  | @snoc tr u t k hrun hv ih =>
    have hred : (tr ++ [k]).reduceOption = tr.reduceOption ++ k.toList := by
      cases k <;> simp [List.reduceOption_append, List.reduceOption_cons_of_some]
    obtain ⟨q, hq, hb⟩ := hv.request_origin hr
    have hsame : q.request = p.request := by rw [hb.same]
    by_cases hold : q.state = .ready l
    · -- it was ready before the last move
      obtain ⟨u', v, q', k', marks₁, marks₂, hw₁, hv', hw₂, hmarks, hq', hreq, hrest⟩ := ih hq hold
      refine ⟨u', v, q', k', marks₁, marks₂ ++ k.toList, hw₁, hv', hw₂.trans ?_, ?_, hq',
        hreq.trans hsame, hrest⟩
      · exact ⟨[k], .single hv, by cases k <;> rfl⟩
      · rw [hred, hmarks, List.append_assoc, List.append_assoc]
    · obtain ⟨hgen, hgrant⟩ := (hb.ready l hp).resolve_left hold
      refine ⟨u, t, q, k, tr.reduceOption, [], ⟨tr, hrun, rfl⟩, hv, .refl t, ?_, hq, hsame, hgen,
        hgrant, p, hr, hp, fun q' hq' => ?_⟩
      · rw [hred, List.append_nil]
      · cases hq.symm.trans hq'
        exact hold

theorem leaseSerial_weak {marks : List Mark} (hw : Weak Move m marks t) :
    m.leaseSerial ≤ t.leaseSerial :=
  hw.invariant (A := fun _ => True) (P := fun t => m.leaseSerial ≤ t.leaseSerial)
    (fun _ _ _ _ ht hv => ht.trans hv.leaseSerial_le) (fun _ _ => trivial) le_rfl

theorem entered_leaseSerial {call : Call} (h : Entered m call t) :
    t.leaseSerial = m.leaseSerial := by
  cases h <;> rfl

/-- What enters makes no request ready. -/
theorem BecomesReady.entered {call : Call} (h : BecomesReady m t r p l) (he : Entered m call m') :
    BecomesReady m' t r p l := by
  refine ⟨h.1, h.2.1, fun q hq => ?_⟩
  cases he with
  | @request request absolute id ha =>
    refine SortedMap.forall_insert (P := fun j q => j = r → q.state ≠ .ready l) _
      (fun j q hj hjr => h.2.2 q (hjr ▸ hj)) (fun _ => by simp [pending]) r q hq rfl
  | _ => exact h.2.2 q hq

/-- A lease that a call issues is numbered past all leases before the call, and within those after
it. -/
theorem BecomesReady.generation {call : Call} {out : Outcome} (hs : Sound m)
    (hstep : m.Step (call, out) t) (h : BecomesReady m t r p l) :
    m.leaseSerial < l.generation ∧ l.generation ≤ t.leaseSerial := by
  obtain ⟨marks, hent, hw, -⟩ := call_weak hs hstep
  obtain ⟨u, v, q, k, marks₁, marks₂, hw₁, -, hw₂, -, -, -, ⟨hgen, hserial⟩, -⟩ :=
    grant_of_weak hw (h.entered hent)
  have h₁ := leaseSerial_weak hw₁
  have h₂ := leaseSerial_weak hw₂
  rw [entered_leaseSerial hent] at h₁
  omega

/-! ### The invariant -/

/-- No lease is ahead of the counter, and no two requests are ready with the same one. -/
structure Numbered (m : PoolMachine) : Prop where
  ready : ∀ r p l, m.requests.get? r = some p → p.state = .ready l → l.generation ≤ m.leaseSerial
  live : ∀ c e l q, m.entries.get? c = some e → e.state = .leased l q →
    l.generation ≤ m.leaseSerial
  unique : ∀ r r' p p' l, m.requests.get? r = some p → m.requests.get? r' = some p' →
    p.state = .ready l → p'.state = .ready l → r = r'

theorem Numbered.step (h : Owned m) (hn : Numbered m) (hv : Move m k m') : Numbered m' := by
  have hready : ∀ r p' l, m'.requests.get? r = some p' → p'.state = .ready l →
      (∃ p, m.requests.get? r = some p ∧ p.state = .ready l) ∨
        l.generation = m.leaseSerial + 1 ∧ m'.leaseSerial = m.leaseSerial + 1 := by
    intro r p' l hr hp
    obtain ⟨p, hq, hb⟩ := hv.request_origin hr
    rcases hb.ready l hp with hold | ⟨hgen, -⟩
    · exact .inl ⟨p, hq, hold⟩
    · exact .inr hgen
  have hle : ∀ r p' l, m'.requests.get? r = some p' → p'.state = .ready l →
      l.generation ≤ m'.leaseSerial := by
    intro r p' l hr hp
    rcases hready r p' l hr hp with ⟨p, hq, hold⟩ | ⟨hgen, hserial⟩
    · exact (hn.ready r p l hq hold).trans hv.leaseSerial_le
    · omega
  refine ⟨hle, fun c e' l q hc he => ?_, fun r r' p p' l hr hr' hp hp' => ?_⟩
  · cases q with
    | some r =>
      -- the request the connection is leased to is ready with the same lease
      have htie : e'.tie = some (r, some l, e'.owner) := by simp [Entry.tie, he]
      obtain ⟨p', hr, hp⟩ := Option.bind_eq_some_iff.1
        ((h.step hv).matching.target_of_holder ((holders_of_get hc).trans htie))
      refine hle r p' l hr ?_
      cases hs : p'.state <;> simp_all [Pending.tie]
    | none =>
      cases hv.origin hc with
      | same hd => exact (hn.live c e' l none hd he).trans hv.leaseSerial_le
      | reserved _ _ _ _ _ _ _ _ hx =>
        subst hx
        cases he
      | @changed e hd hb =>
        cases hb with
        | @take x r hs =>
          cases he
          exact (hn.live c e l (some r) hd hs).trans hv.leaseSerial_le
        | scope => exact (hn.live c e l none hd he).trans hv.leaseSerial_le
        | _ => cases he
  · -- a new lease is numbered past every old one
    rcases hready r p l hr hp with ⟨q, hq, hold⟩ | ⟨hgen, hserial⟩
    · rcases hready r' p' l hr' hp' with ⟨q', hq', hold'⟩ | ⟨hgen', -⟩
      · exact hn.unique r r' q q' l hq hq' hold hold'
      · have := hn.ready r q l hq hold
        omega
    · rcases hready r' p' l hr' hp' with ⟨q', hq', hold'⟩ | ⟨hgen', -⟩
      · have := hn.ready r' q' l hq' hold'
        omega
      · refine hv.one_request hr hr' (fun hq => ?_) fun hq' => ?_
        · have := hn.ready r p l hq hp
          omega
        · have := hn.ready r' p' l hq' hp'
          omega

theorem Numbered.entered {call : Call} (h : Numbered m) (he : Entered m call t) : Numbered t := by
  cases he with
  | @request request absolute id ha =>
    have hold : ∀ r p l, (m.requests.insert id (m.pending request absolute)).get? r = some p →
        p.state = .ready l → m.requests.get? r = some p := by
      intro r p l hr hp
      rw [SortedMap.get?_insert] at hr
      split_ifs at hr
      · cases hr
        cases hp
      · exact hr
    exact ⟨fun r p l hr hp => h.ready r p l (hold r p l hr hp) hp, h.live,
      fun r r' p p' l hr hr' hp hp' =>
        h.unique r r' p p' l (hold r p l hr hp) (hold r' p' l hr' hp') hp hp'⟩
  | _ => exact ⟨h.ready, h.live, h.unique⟩

theorem numbered_call {call : Call} {out : Outcome} (hs : Sound m) (h : Numbered m)
    (hstep : m.Step (call, out) t) : Numbered t := by
  obtain ⟨marks, hent, hw, -⟩ := call_weak hs hstep
  exact (hw.invariant (A := fun _ => True) (P := fun t => Owned t ∧ Numbered t)
    (fun _ _ _ _ ht hv => ⟨ht.1.step hv, ht.2.step ht.1 hv⟩) (fun _ _ => trivial)
    ⟨hs.owned.entered hent, h.entered hent⟩).2

theorem numbered_run {config : Config} {poolId : ℕ} (h : Run Step (fresh config poolId) tr m) :
    Sound m ∧ Numbered m := by
  refine h.invariant (P := fun _ m => Sound m ∧ Numbered m) ⟨sound_fresh config poolId, ?_⟩ ?_
  · exact ⟨fun _ _ _ hr => (by cases hr), fun _ _ _ _ hc => (by cases hc),
      fun _ _ _ _ _ hr => (by cases hr)⟩
  · rintro tr m ⟨call, out⟩ t - ⟨hs, hn⟩ hstep
    exact ⟨hs.step hstep, numbered_call hs hn hstep⟩

/-! ### Ended leases -/

/-- The lease has a number that was given out, and is not live. -/
def Ended (m : PoolMachine) (l : LeaseId) : Prop :=
  l.generation ≤ m.leaseSerial ∧ m.isLive l = false

theorem isLive_iff : m.isLive l = true ↔
    ∃ e q, m.entries.get? l.connection = some e ∧ e.state = .leased l q := by
  refine ⟨entry_of_isLive, ?_⟩
  rintro ⟨e, q, hc, he⟩
  simp [isLive, hc, he]

theorem Ended.step (h : Ended m l) (hv : Move m k m') : Ended m' l := by
  refine ⟨h.1.trans hv.leaseSerial_le, ?_⟩
  by_contra hlive
  rw [Bool.not_eq_false, isLive_iff] at hlive
  obtain ⟨e', q, hc, he⟩ := hlive
  have hdead : ∀ e q, m.entries.get? l.connection = some e → e.state ≠ .leased l q := by
    intro e q hd hs
    have := isLive_iff.2 ⟨e, q, hd, hs⟩
    rw [h.2] at this
    cases this
  cases hv.origin hc with
  | same hd => exact hdead e' q hd he
  | reserved _ _ _ _ _ _ _ _ hx =>
    subst hx
    cases he
  | @changed e hd hb =>
    cases hb with
    | lease =>
      injection he with hl
      have hgen : m.leaseSerial + 1 = l.generation := congrArg LeaseId.generation hl
      have := h.1
      omega
    | ready =>
      injection he with hl
      have hgen : m.leaseSerial + 1 = l.generation := congrArg LeaseId.generation hl
      have := h.1
      omega
    | @take x r hs =>
      cases he
      exact hdead e (some r) hd hs
    | scope => exact hdead e q hd he
    | _ => cases he

theorem Ended.call {call : Call} {out : Outcome} (hs : Sound m) (h : Ended m l)
    (hstep : m.Step (call, out) t) : Ended t l := by
  obtain ⟨marks, hent, hw, -⟩ := call_weak hs hstep
  refine hw.invariant (A := fun _ => True) (P := fun t => Ended t l)
    (fun _ _ _ _ ht hv => ht.step hv) (fun _ _ => trivial) ?_
  revert hent
  generalize m.entered call out = u
  intro hent
  cases hent <;> exact h

theorem Ended.run (hs : Sound m) (h : Ended m l) (hrun : Run Step m tr t) : Ended t l :=
  (hrun.invariant (P := fun _ t => Sound t ∧ Ended t l) ⟨hs, h⟩
    fun _ _ _ _ _ hm hstep => ⟨hm.1.step hstep, hm.2.call hm.1 hstep⟩).2

theorem leaseSerial_run (hs : Sound m) (hrun : Run Step m tr t) :
    Sound t ∧ m.leaseSerial ≤ t.leaseSerial := by
  refine hrun.invariant (P := fun _ t => Sound t ∧ m.leaseSerial ≤ t.leaseSerial) ⟨hs, le_rfl⟩ ?_
  rintro tr u ⟨call, out⟩ v - ⟨hu, hle⟩ hstep
  obtain ⟨marks, hent, hw, -⟩ := call_weak hu hstep
  refine ⟨hu.step hstep, hle.trans ?_⟩
  rw [← entered_leaseSerial hent]
  exact leaseSerial_weak hw

/-! ### The calls that take a lease -/

theorem call_stale (h : m.isLive l = false) (disposition : Disposition) (scope : String) :
    m.call (.release l disposition) = some (m, .replied (.error .stale)) ∧
    m.call (.releaseUnused l) = some (m, .replied (.error .stale)) ∧
    m.call (.scopeHttps l scope) = some (m, .replied (.error .stale)) := by
  refine ⟨?_, ?_, ?_⟩
  · simp [PoolMachine.call, release, releaseAt, h]
  · simp [PoolMachine.call, releaseUnused, releaseAt, h]
  · simp [PoolMachine.call, scopeHttps, h]

/-- In every run: a connection has one live lease at most, no lease is issued twice, a lease that
is not live any more never is again, and the calls that take a lease refuse one that is not live
and change nothing. -/
theorem lease_uniqueness {config : Config} {poolId : ℕ}
    (h : Run Step (fresh config poolId) tr m) :
    (∀ l l', m.isLive l = true → m.isLive l' = true → l.connection = l'.connection → l = l') ∧
    (∀ r r' p p' l, m.requests.get? r = some p → m.requests.get? r' = some p' →
      p.state = .ready l → p'.state = .ready l → r = r') ∧
    (∀ x m₁ tr' m₂ y m₃ r r' p p' l, m.Step x m₁ → Run Step m₁ tr' m₂ → m₂.Step y m₃ →
      BecomesReady m m₁ r p l → ¬ BecomesReady m₂ m₃ r' p' l) ∧
    (∀ tr' m₁ tr'' m₂ l, m.isLive l = true → Run Step m tr' m₁ → m₁.isLive l = false →
      Run Step m₁ tr'' m₂ → m₂.isLive l = false) ∧
    ∀ l disposition scope, m.isLive l = false →
      m.call (.release l disposition) = some (m, .replied (.error .stale)) ∧
      m.call (.releaseUnused l) = some (m, .replied (.error .stale)) ∧
      m.call (.scopeHttps l scope) = some (m, .replied (.error .stale)) := by
  obtain ⟨hs, hn⟩ := numbered_run h
  refine ⟨fun l l' hl hl' hc => ?_, hn.unique, ?_, ?_, fun l d s hl => call_stale hl d s⟩
  · obtain ⟨e, q, hd, he⟩ := isLive_iff.1 hl
    obtain ⟨e', q', hd', he'⟩ := isLive_iff.1 hl'
    rw [hc, hd'] at hd
    cases hd
    rw [he'] at he
    injection he with hl
    exact hl.symm
  · rintro ⟨call, out⟩ m₁ tr' m₂ ⟨call', out'⟩ m₃ r r' p p' l h₁ hrun h₂ hready hready'
    have hfirst := (hready.generation hs h₁).2
    obtain ⟨hs₂, hmono⟩ := leaseSerial_run (hs.step h₁) hrun
    have hsecond := (hready'.generation hs₂ h₂).1
    omega
  · intro tr' m₁ tr'' m₂ l hl hrun hdead hrun'
    obtain ⟨e, q, hc, he⟩ := isLive_iff.1 hl
    obtain ⟨hs₁, hmono⟩ := leaseSerial_run hs hrun
    have hend : Ended m₁ l := ⟨(hn.live _ e l q hc he).trans hmono, hdead⟩
    exact (hend.run hs₁ hrun').2

/-- A lease that is released and then taken again from the idle connection under a new number. -/
theorem lease_uniqueness_release : ∃ tr m, Run Step (fresh .default 1) tr m ∧
    m.isLive ⟨⟨1, 1⟩, 2⟩ = true ∧ ∀ l, m.isLive l = true → l.connection = ⟨1, 1⟩ →
      l = ⟨⟨1, 1⟩, 2⟩ := by
  obtain ⟨tr, m, hrun, hq⟩ := exists_any_run (m := fresh .default 1)
    [.requestUntil sshRequest none, .nextAction, .connected ⟨1, 1⟩ (.ok (some .ambient)),
      .take ⟨1, 1⟩, .release ⟨⟨1, 1⟩, 1⟩ .reusable, .requestUntil sshRequest none]
    (fun _ m => m.isLive ⟨⟨1, 1⟩, 2⟩) (by decide +kernel)
  refine ⟨tr, m, hrun, hq, fun l hl hc => ?_⟩
  exact (lease_uniqueness hrun).1 l _ hl hq hc

end PoolMachine

end GwzTransport.Pool
