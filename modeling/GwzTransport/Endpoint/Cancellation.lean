import GwzTransport.Pool.Cancel
import GwzTransport.Endpoint.Instance

/-!
# The cancellation of an operation

`cancel_binding` flags the binding and then ends its requests and proofs; `wait` looks at the flags
and then submits.  Between the two steps of either, anything may happen.

* `Descends`: what a call to the pool leaves of the requests;
* `Silent`: a binding with no live request, no opening that waits for a proof and no opening under
  way, and that every step leaves so;
* `cancelled_silent`: a cancelled operation is silent if none of its openings was under way;
* `submits_after_cancel`: one that was under way goes on.
-/

namespace GwzTransport.Endpoint

open Protocol MachineInt Pool Transition

section Pool

variable {m t : PoolMachine} {p : Pending} {c : Pool.Call} {out : Outcome}

/-- Every request of `t` was made before, and has failed if it had. -/
def Descends (m t : PoolMachine) : Prop :=
  ∀ r q, t.requests.get? r = some q → ∃ p, m.requests.get? r = some p ∧
    q.request = p.request ∧ ∀ e, p.state = .failed e → q.state = .failed e

theorem descends_weak {marks : List Mark} (h : PoolMachine.Owned m)
    (hw : Weak PoolMachine.Move m marks t) :
    Descends m t ∧ t.requestSerial = m.requestSerial := by
  refine (hw.invariant (P := fun t => PoolMachine.Owned t ∧ Descends m t ∧
    t.requestSerial = m.requestSerial) (A := fun _ => True) ?_ (by simp)
    ⟨h, fun r q hq => ⟨q, hq, rfl, fun _ => id⟩, rfl⟩).2
  intro t k u _ ⟨ho, hd, hserial⟩ hv
  refine ⟨ho.step hv, fun r q hq => ?_, hv.serials.2.trans hserial⟩
  obtain ⟨p, hp, hb⟩ := hv.request_origin hq
  obtain ⟨p₀, hp₀, hsame, hfail⟩ := hd r p hp
  refine ⟨p₀, hp₀, by rw [hb.same, ← hsame], fun e he => ?_⟩
  exact hv.failed_origin ho hq hp (hfail e he)

def asks : Pool.Call → Bool
  | .requestUntil .. => true
  | _ => false

/-- No call but `request_until` makes a request. -/
theorem descends_of_call (h : PoolMachine.Sound m) (hs : m.call c = some (t, out))
    (hc : asks c = false) :
    Descends m t ∧ t.requestSerial = m.requestSerial := by
  obtain ⟨marks, hent, hw, -⟩ := PoolMachine.call_weak h hs
  have hd := descends_weak (h.owned.entered hent) hw
  revert hent hd
  generalize m.entered c out = u
  rintro (_ | _) hd
  · exact hd
  · cases hc
  all_goals exact hd

/-- The pool's request of an opening is its own. -/
def Tied (m : PoolMachine) (p : Pending) : Prop :=
  p.request.serial ≤ m.requestSerial ∧
    ∀ q, m.requests.get? p.request = some q → q.request.owner = p.binding

theorem Tied.descends (h : Tied m p) (hd : Descends m t)
    (hserial : t.requestSerial = m.requestSerial) : Tied t p := by
  refine ⟨hserial ▸ h.1, fun q hq => ?_⟩
  obtain ⟨q₀, hq₀, hsame, -⟩ := hd _ q hq
  rw [hsame]
  exact h.2 q₀ hq₀

end Pool

/-- The binding `b`, if it is one, has been cancelled and nothing of it is under way; what the log
tells of it is `log`. -/
structure Silent (b : Option Owner) (log : List Event) (w : Instance) : Prop where
  sound : PoolMachine.Sound w.pool
  marked : ∀ x ∈ w.cancelling, x ∈ w.cancelled
  tied : ∀ p ∈ w.openings, Tied w.pool p
  flagged : ∀ x ∈ b, x ∈ w.cancelled ∧ x ∉ w.checked
  failed : ∀ r q, w.pool.requests.get? r = some q → b = some q.request.owner →
    ∃ e, q.state = .failed e
  proofs : ∀ item ∈ w.authorizing, b ≠ some item.pending.binding
  logged : w.log.filter (fun e => decide (b = some e.binding)) = log

namespace Silent

variable {b : Option Owner} {log : List Event} {w w' : Instance} {p : Pending} {lease : LeaseId}
  {replies : Replies}

theorem descends {t : PoolMachine} (h : Silent b log w) (ht : PoolMachine.Sound t)
    (hd : Descends w.pool t ∧ t.requestSerial = w.pool.requestSerial) :
    Silent b log { w with pool := t } := by
  refine { h with
    sound := ht
    tied := fun p hp => (h.tied p hp).descends hd.1 hd.2
    failed := fun r q hq hb => ?_ }
  obtain ⟨p, hp, hsame, hfail⟩ := hd.1 r q hq
  obtain ⟨e, he⟩ := h.failed r p hp (hsame ▸ hb)
  exact ⟨e, hfail e he⟩

theorem pool {t : PoolMachine} {c : Pool.Call} {out : Outcome} (h : Silent b log w)
    (hs : w.pool.call c = some (t, out))
    (hc : asks c = false) :
    Silent b log { w with pool := t } :=
  h.descends (h.sound.step hs) (descends_of_call h.sound hs hc)

theorem use {c : Pool.Call} (h : Silent b log w) (hs : w.use c = some w')
    (hc : asks c = false) : Silent b log w' := by
  obtain ⟨x, hx, rfl⟩ := Option.map_eq_some_iff.1 hs
  exact h.pool hx hc

/-- A request for another binding; the opening that makes it is then tied to it. -/
theorem requestUntil {id : ℕ} {request : Request} {deadline : Option ℕ} {asked : Option RequestId}
    (h : Silent b log w) (hs : w.requestUntil id request deadline = some (w', asked))
    (hb : b ≠ some request.owner) : Silent b log w' ∧
      ∀ r ∈ asked, r.serial ≤ w'.pool.requestSerial ∧
        ∀ q, w'.pool.requests.get? r = some q → q.request.owner = request.owner := by
  obtain ⟨⟨t, result⟩, ht, hx⟩ := Option.map_eq_some_iff.1 hs
  have hstep : w.pool.call (.requestUntil request deadline) = some (t, .requested result) := by
    simp only [PoolMachine.call, ht, Option.map_some]
  obtain ⟨marks, hent, hw, -⟩ := PoolMachine.call_weak h.sound hstep
  obtain ⟨hd, hserial⟩ := descends_weak (h.sound.owned.entered hent) hw
  cases result with
  | error e =>
    cases hx
    exact ⟨h.descends (h.sound.step hstep) ⟨hd, hserial⟩, fun r hr => (by cases hr)⟩
  | ok r =>
    cases hx
    have hid := (PoolMachine.admitted_of_requestUntil ht).id_eq
    refine ⟨{ h with
      sound := h.sound.step hstep
      tied := fun p hp => ?_
      failed := fun j q hq hb' => ?_
      logged := ?_ }, fun j hj => ?_⟩
    · have hne : p.request ≠ r := fun he => absurd (h.tied p hp).1 (by rw [he, hid]; simp)
      refine ⟨(h.tied p hp).1.trans (by rw [hserial]; exact Nat.le_succ _), fun q hq => ?_⟩
      obtain ⟨q₀, hq₀, hsame, -⟩ := hd _ q hq
      rw [hsame]
      exact (h.tied p hp).2 q₀ ((SortedMap.get?_insert_of_ne _ hne _).symm.trans hq₀)
    · obtain ⟨p, hp, hsame, hfail⟩ := hd j q hq
      replace hp : (w.pool.requests.insert r (w.pool.pending request deadline)).get?
          j = some p := hp
      rw [SortedMap.get?_insert] at hp
      split_ifs at hp
      · cases hp
        rw [hsame] at hb'
        exact absurd hb' hb
      · obtain ⟨e, he⟩ := h.failed j p hp (hsame ▸ hb')
        exact ⟨e, hfail e he⟩
    · rw [List.filter_append, List.filter_singleton, h.logged]
      simp [Event.binding, hb]
    · cases hj
      refine ⟨by rw [hserial, hid]; exact le_rfl, fun q hq => ?_⟩
      obtain ⟨p, hp, hsame, -⟩ := hd r q hq
      replace hp : (w.pool.requests.insert r (w.pool.pending request deadline)).get?
          r = some p := hp
      rw [SortedMap.get?_insert_self] at hp
      cases hp
      rw [hsame]
      rfl

theorem ask {request : Request} (h : Silent b log w) (hb : b ≠ some p.binding)
    (ho : request.owner = p.binding) (hs : w.ask p request = some w') : Silent b log w' := by
  obtain ⟨⟨u, asked⟩, hu, rfl⟩ := Option.map_eq_some_iff.1 hs
  obtain ⟨hsilent, htied⟩ := h.requestUntil hu (ho ▸ hb)
  refine { hsilent with tied := fun q hq => ?_ }
  rcases List.mem_append.1 hq with hq | hq
  · exact hsilent.tied q hq
  · obtain ⟨r, hr, rfl⟩ := Option.map_eq_some_iff.1 (Option.mem_toList.1 hq)
    exact ⟨(htied r hr).1, fun x hx => ((htied r hr).2 x hx).trans ho⟩

theorem askAgain {bounced : Option ConnectionId} (h : Silent b log w) (hb : b ≠ some p.binding)
    (hs : w.askAgain p bounced = some w') : Silent b log w' := by
  unfold Instance.askAgain at hs
  split_ifs at hs
  · exact Option.some.inj hs ▸ h
  · refine h.ask ?_ ?_ hs
    · exact hb
    · split_ifs <;> rfl

theorem askFresh (h : Silent b log w) (hb : b ≠ some p.binding)
    (hs : w.askFresh p = some w') : Silent b log w' := by
  unfold Instance.askFresh at hs
  split_ifs at hs
  · exact Option.some.inj hs ▸ h
  · refine h.ask ?_ ?_ hs
    · exact hb
    · rfl

theorem lostLease (h : Silent b log w) (hb : b ≠ some p.binding)
    (hs : w.lostLease p = some w') : Silent b log w' := by
  unfold Instance.lostLease at hs
  split_ifs at hs
  · exact Option.some.inj hs ▸ h
  · refine h.askAgain ?_ hs
    exact hb

theorem serve (h : Silent b log w) (hb : b ≠ some p.binding)
    (hs : w.serve p lease replies = some w') : Silent b log w' := by
  unfold Instance.serve at hs
  split at hs
  · have hlog : Silent b log { w with log := w.log ++ [Event.started p.id p.binding] } := by
      refine { h with logged := ?_ }
      rw [List.filter_append, List.filter_singleton, h.logged]
      simp [Event.binding, hb]
    dsimp only at hs
    split at hs
    · split_ifs at hs
      · exact Option.some.inj hs ▸ { hlog with }
      · refine use ?_ hs rfl
        exact { hlog with }
    · obtain ⟨u, hu, hs⟩ := Option.bind_eq_some_iff.1 hs
      exact (hlog.use hu rfl).lostLease hb hs
    · exact hlog.use hs rfl
  · exact h.use hs rfl

theorem replace {i : ℕ} {x : Option Pending} (h : Silent b log w)
    (hx : ∀ p ∈ x, Tied w.pool p) : Silent b log (w.replace i x) := by
  refine { h with tied := fun q hq => ?_ }
  rcases List.mem_append.1 hq with hq | hq
  · rcases List.mem_append.1 hq with hq | hq
    · exact h.tied q (List.mem_of_mem_take hq)
    · exact hx q (Option.mem_toList.1 hq)
  · exact h.tied q (List.mem_of_mem_drop hq)

theorem remove (h : Silent b log w) (i : ℕ) : Silent b log (w.replace i none) :=
  h.replace fun p hp => absurd hp (Option.not_mem_none p)

theorem misfit {i : ℕ} (h : Silent b log w) (hb : b ≠ some p.binding)
    (hs : w.misfit i p lease = some w') : Silent b log w' := by
  obtain ⟨u, hu, hs⟩ := Option.bind_eq_some_iff.1 hs
  have hu := h.use hu rfl
  dsimp only at hs
  split_ifs at hs
  · exact Option.some.inj hs ▸ hu.remove i
  · obtain ⟨⟨v, asked⟩, hv, hs⟩ := Option.bind_eq_some_iff.1 hs
    obtain ⟨hv, htied⟩ := hu.requestUntil hv hb
    refine Option.some.inj hs ▸ hv.replace fun q hq => ?_
    obtain ⟨r, hr, rfl⟩ := Option.map_eq_some_iff.1 hq
    exact htied r hr

/-- A request that can be taken has not failed, so it is none of the binding's. -/
theorem ne_of_take (h : Silent b log w) (hp : p ∈ w.openings)
    (ht : (w.pool.take p.request).2 = .ok lease) : b ≠ some p.binding := by
  unfold PoolMachine.take at ht
  cases hq : w.pool.requests.get? p.request with
  | none => simp [hq] at ht
  | some q =>
    rintro rfl
    obtain ⟨e, he⟩ := h.failed _ q hq (by rw [(h.tied p hp).2 q hq])
    simp [hq, he] at ht

theorem opening {i : ℕ} (h : Silent b log w) (hs : w.opening i replies = some w') :
    Silent b log w' := by
  obtain ⟨p, hp, hs⟩ := Option.bind_eq_some_iff.1 hs
  have hpool : Silent b log { w with pool := (w.pool.take p.request).1 } :=
    h.pool (c := .take p.request) rfl rfl
  dsimp only at hs
  split at hs
  · exact Option.some.inj hs ▸ hpool
  · exact Option.some.inj hs ▸ hpool.remove i
  · rename_i lease ht
    have hb := h.ne_of_take (List.mem_of_getElem? hp) ht
    split at hs
    · obtain ⟨u, hu, hs⟩ := Option.bind_eq_some_iff.1 hs
      exact ((hpool.use hu rfl).remove i).lostLease hb hs
    · rename_i setup hsetup
      have hrest := hpool.remove i
      split_ifs at hs
      · exact hpool.misfit hb hs
      · refine Option.some.inj hs ▸ { hrest with proofs := fun item hitem => ?_ }
        rcases List.mem_append.1 hitem with hitem | hitem
        · exact hrest.proofs item hitem
        · exact List.mem_singleton.1 hitem ▸ hb
      · obtain ⟨u, hu, hs⟩ := Option.bind_eq_some_iff.1 hs
        refine (use ?_ hu rfl).askAgain hb hs
        exact { hrest with }
      · exact hrest.serve hb hs

/-- The openings that end give back their leases, and nothing else changes. -/
theorem releases {items : List Authorizing} (h : Silent b log w)
    (hs : items.foldlM (fun w item => w.use (.releaseUnused item.lease)) w = some w') :
    Silent b log w' ∧ w' = { w with pool := w'.pool } := by
  induction items generalizing w with
  | nil =>
    cases hs
    exact ⟨h, rfl⟩
  | cons item items ih =>
    obtain ⟨u, hu, hs⟩ := Option.bind_eq_some_iff.1 hs
    obtain ⟨hw, heq⟩ := ih (h.use hu rfl) hs
    obtain ⟨x, -, rfl⟩ := Option.map_eq_some_iff.1 hu
    exact ⟨hw, heq⟩

theorem endAuthorizing {ends : Authorizing → Bool} (h : Silent b log w)
    (hs : w.endAuthorizing ends = some w') : Silent b log w' := by
  refine (releases ?_ hs).1
  exact { h with proofs := fun item hitem => h.proofs item (List.mem_of_mem_filter hitem) }

theorem reused {connection : ConnectionId} {proof : ℕ} {verdict : ReuseVerdict}
    (h : Silent b log w) (hs : w.reused connection proof verdict replies = some w') :
    Silent b log w' := by
  unfold Instance.reused at hs
  dsimp only at hs
  split at hs
  · exact Option.some.inj hs ▸ h
  · rename_i item hitem
    have hb := h.proofs item (List.mem_of_find?_eq_some hitem)
    have hrest : ∀ waits, Silent b log { w with authorizing := w.authorizing.eraseP waits } :=
      fun waits => { h with
        proofs := fun item hitem => h.proofs item (List.mem_of_mem_eraseP hitem) }
    split at hs
    · exact (hrest _).serve hb hs
    · obtain ⟨u, hu, hs⟩ := Option.bind_eq_some_iff.1 hs
      exact ((hrest _).use hu rfl).askFresh hb hs
    · obtain ⟨u, hu, hs⟩ := Option.bind_eq_some_iff.1 hs
      exact ((hrest _).use hu rfl).askAgain hb hs

theorem drive {c : Pool.Call} (h : Silent b log w) (hs : w.drive c = some w') :
    Silent b log w' := by
  obtain ⟨_, hdrives, hs⟩ := Option.bind_eq_some_iff.1 hs
  obtain ⟨⟨t, out⟩, ht, hs⟩ := Option.bind_eq_some_iff.1 hs
  have hpool := h.pool ht (by cases c <;> first | rfl | cases hdrives)
  dsimp only at hs
  split at hs
  · obtain rfl := Option.some.inj hs
    split_ifs
    · exact { hpool with }
    · exact hpool
  · exact Option.some.inj hs ▸ { hpool with }
  · exact Option.some.inj hs ▸ { hpool with }
  · exact Option.some.inj hs ▸ { hpool with }
  · exact Option.some.inj hs ▸ hpool

theorem submit {request : Request} {scope now : ℕ} (h : Silent b log w)
    (hs : w.submit request scope now = some w') : Silent b log w' := by
  obtain ⟨_, hchecked, hs⟩ := Option.bind_eq_some_iff.1 hs
  obtain ⟨u, hu, hs⟩ := Option.bind_eq_some_iff.1 hs
  dsimp only at hs
  have hchecked : request.owner ∈ w.checked := by simpa [guard] using hchecked
  have hb : b ≠ some request.owner := fun hb => (h.flagged _ hb).2 hchecked
  have hrest : Silent b log { w with checked := w.checked.erase request.owner } := by
    refine { h with flagged := fun x hx => (h.flagged x hx).imp_right fun hn hmem => ?_ }
    exact hn (List.mem_of_mem_erase hmem)
  obtain ⟨⟨v, taken⟩, hv, hs⟩ := Option.bind_eq_some_iff.1 hs
  obtain ⟨hv, htied⟩ := (hrest.use hu rfl).requestUntil hv hb
  refine Option.some.inj hs ▸ { hv with tied := fun q hq => ?_ }
  rcases List.mem_append.1 hq with hq | hq
  · exact hv.tied q hq
  · obtain ⟨r, hr, rfl⟩ := Option.map_eq_some_iff.1 (Option.mem_toList.1 hq)
    exact htied r hr

theorem abandon {id : ℕ} (h : Silent b log w) (hs : w.abandon id = some w') : Silent b log w' := by
  obtain ⟨u, hu, hs⟩ := Option.bind_eq_some_iff.1 hs
  refine endAuthorizing ?_ hs
  split at hu
  · refine use ?_ hu rfl
    exact { h with tied := fun p hp => h.tied p (List.mem_of_mem_eraseP hp) }
  · exact Option.some.inj hu ▸ h

theorem sweep {binding : Owner} (h : Silent b log w) (hs : w.sweep binding = some w') :
    Silent b log w' := by
  obtain ⟨_, -, hs⟩ := Option.bind_eq_some_iff.1 hs
  obtain ⟨u, hu, hs⟩ := Option.bind_eq_some_iff.1 hs
  refine use (endAuthorizing ?_ hu) hs rfl
  exact { h with marked := fun x hx => h.marked x (List.mem_of_mem_erase hx) }

theorem step {c : Instance.Call} (h : Silent b log w) (hs : Instance.Step w c w') :
    Silent b log w' := by
  cases c with
  | check binding =>
    obtain rfl := Option.some.inj hs
    split_ifs with hset
    · exact h
    · refine { h with flagged := fun x hx => (h.flagged x hx).imp_right fun hn hmem => ?_ }
      rcases List.mem_cons.1 hmem with rfl | hmem
      · exact hset (by simpa using (h.flagged x hx).1)
      · exact hn hmem
  | submit => exact h.submit hs
  | cancel binding =>
    obtain rfl := Option.some.inj hs
    split_ifs
    · exact h
    · refine { h with
        marked := fun x hx => ?_
        flagged := fun x hx => (h.flagged x hx).imp_left (List.mem_cons_of_mem _) }
      exact List.mem_cons.2 ((List.mem_cons.1 hx).imp_right (h.marked x))
  | sweep => exact h.sweep hs
  | drive => exact h.drive hs
  | opening => exact h.opening hs
  | expireAuthorizing => exact h.endAuthorizing hs
  | reused => exact h.reused hs
  | settle => exact Option.some.inj hs ▸ { h with }
  | settled =>
    refine use ?_ hs rfl
    exact { h with }
  | abandon => exact h.abandon hs
  | takeAdapter => exact Option.some.inj hs ▸ { h with }

end Silent

namespace Instance

variable {config : Config} {poolId : ℕ} {b : Owner} {w w' : Instance} {ls : List Call}

theorem silent_run (h : Run Step (fresh config poolId) ls w) : Silent none [] w := by
  refine h.invariant (P := fun _ w => Silent none [] w) ?_ fun _ _ _ _ _ hw hs => hw.step hs
  exact ⟨PoolMachine.sound_fresh config poolId, fun _ hx => absurd hx List.not_mem_nil,
    fun _ hp => absurd hp List.not_mem_nil, fun _ hx => absurd hx (Option.not_mem_none _),
    fun _ _ hq => (by cases hq), fun _ hx => absurd hx List.not_mem_nil, rfl⟩

/-- What the second step of a cancellation leaves. -/
theorem silent_sweep (h : Silent none [] w) (hs : w.sweep b = some w') (hclear : b ∉ w.checked) :
    Silent (some b) (w.log.filter fun e => decide (some b = some e.binding)) w' := by
  have hall := h.sweep hs
  obtain ⟨_, hmarked, hs⟩ := Option.bind_eq_some_iff.1 hs
  obtain ⟨u, hu, hs⟩ := Option.bind_eq_some_iff.1 hs
  have hmarked : b ∈ w.cancelling := by simpa [guard] using hmarked
  have hended : Silent none [] { w with
      cancelling := w.cancelling.erase b
      authorizing := w.authorizing.filter fun item => !(item.pending.binding == b) } :=
    { h with
      marked := fun x hx => h.marked x (List.mem_of_mem_erase hx)
      proofs := fun item hitem => h.proofs item (List.mem_of_mem_filter hitem) }
  obtain ⟨hsilent, hrest⟩ := hended.releases hu
  obtain ⟨⟨t, out⟩, ht, rfl⟩ := Option.map_eq_some_iff.1 hs
  obtain ⟨v, hv, hx⟩ := Option.map_eq_some_iff.1 ht
  cases hx
  obtain ⟨s, hcancelled, hschedule⟩ := PoolMachine.cancelMatching_cases hsilent.sound.owned hv
  refine { hall with flagged := ?_, failed := ?_, proofs := ?_, logged := ?_ }
  · rintro x ⟨⟩
    rw [hrest]
    exact ⟨h.marked b hmarked, hclear⟩
  · rintro r q hq ⟨⟩
    obtain ⟨p, hp, hsame, -⟩ := (descends_of_call hsilent.sound ht rfl).1 r q hq
    obtain ⟨error, hfails⟩ := hcancelled.request_fails hschedule hp (by simp [hsame])
    cases hq.symm.trans hfails
    exact ⟨error, rfl⟩
  · intro item hitem hb
    rw [hrest] at hitem
    have := (List.mem_filter.1 hitem).2
    simp [Option.some.inj hb] at this
  · rw [hrest]

/-- After `cancel_binding` has returned for a binding none of whose openings was between its two
steps, in every run: the pool has no live request of the binding, and no request is made and no
exchange started for it. -/
theorem cancelled_silent {ls' : List Call} {w₁ : Instance} (h : Run Step (fresh config poolId) ls w)
    (hclear : b ∉ w.checked) (hs : Step w (.sweep b) w₁) (h' : Run Step w₁ ls' w') :
    (∀ r q, w'.pool.requests.get? r = some q → q.request.owner = b → ∃ e, q.state = .failed e) ∧
      (w'.log.filter fun e => decide (e.binding = b)) =
        w.log.filter fun e => decide (e.binding = b) := by
  have hsilent := h'.invariant (P := fun _ w' => Silent (some b) _ w')
    (silent_sweep (silent_run h) hs hclear) fun _ _ _ _ _ hw hs => hw.step hs
  refine ⟨fun r q hq howner => hsilent.failed r q hq (by rw [howner]), ?_⟩
  simpa only [Option.some.injEq, eq_comm] using hsilent.logged

/-- The run of some calls, if its end passes a check. -/
theorem exists_run {w : Instance} (ls : List Call) (check : Instance → Bool)
    (h : (replay call (fun _ _ => true) w ls).any check = true) :
    ∃ w', Run Step w ls w' ∧ check w' = true := by
  obtain ⟨w', hreplay, hcheck⟩ := (Option.any_eq_true _ _).1 h
  exact ⟨w', (run_replay hreplay).mono fun _ _ _ hs => hs.2, hcheck⟩

def plainRequest (session : String) : Request :=
  { key := .ssh "user" "host" 22, identity := .ambient, owner := ⟨session, "operation"⟩ }

/-- The defect: an opening passes the check, its operation is cancelled, and then it submits: a
request is made, and its exchange is started. -/
theorem submits_after_cancel : ∃ w w₁ ls w', Run Step (fresh .default 1)
      [.check ⟨"a", "operation"⟩, .cancel ⟨"a", "operation"⟩] w ∧
    Step w (.sweep ⟨"a", "operation"⟩) w₁ ∧ Run Step w₁ ls w' ∧ w₁.log = [] ∧
    w'.log = [.asked 0 (plainRequest "a"), .started 0 ⟨"a", "operation"⟩] := by
  obtain ⟨w, hrun, hq⟩ := exists_run (w := fresh .default 1)
    [.check ⟨"a", "operation"⟩, .cancel ⟨"a", "operation"⟩]
    (fun w => (w.sweep ⟨"a", "operation"⟩).any fun w₁ : Instance => decide (w₁.log = []) &&
      (replay call (fun _ _ => true) w₁ [.submit (plainRequest "a") 0 0, .drive .nextAction,
        .drive (.connected ⟨1, 1⟩ (.ok (some .ambient))), .opening 0 {}]).any
        fun w' : Instance => decide
          (w'.log = [.asked 0 (plainRequest "a"), .started 0 ⟨"a", "operation"⟩]))
    (by decide +kernel)
  obtain ⟨w₁, hs, hq⟩ := (Option.any_eq_true _ _).1 hq
  obtain ⟨hlog, hq⟩ := Bool.and_eq_true_iff.1 hq
  obtain ⟨w', hrun', hlog'⟩ := exists_run _ _ hq
  exact ⟨w, w₁, _, w', hrun, hs, hrun', of_decide_eq_true hlog, of_decide_eq_true hlog'⟩

/-- An operation is cancelled while its connection is set up, and another goes on. -/
theorem cancelled_silent_opening : ∃ ls w w₁ ls' w' q, Run Step (fresh .default 1) ls w ∧
    (⟨"a", "operation"⟩ ∉ w.checked) ∧ Step w (.sweep ⟨"a", "operation"⟩) w₁ ∧
    Run Step w₁ ls' w' ∧ w'.log.length = 2 ∧ w'.pool.requests.get? ⟨1, 1⟩ = some q ∧
    ∃ e, q.state = .failed e := by
  obtain ⟨w, hrun, hq⟩ := exists_run (w := fresh .default 1)
    [.check ⟨"a", "operation"⟩, .submit (plainRequest "a") 0 0, .drive .nextAction,
      .cancel ⟨"a", "operation"⟩]
    (fun w => decide (⟨"a", "operation"⟩ ∉ w.checked) &&
      (w.sweep ⟨"a", "operation"⟩).any fun w₁ : Instance => (replay call (fun _ _ => true) w₁
        [.check ⟨"b", "operation"⟩, .submit (plainRequest "b") 0 0]).any fun w' : Instance =>
          decide (w'.log.length = 2) && (w'.pool.requests.get? ⟨1, 1⟩).any fun q : Pool.Pending =>
            decide (q.request.owner = ⟨"a", "operation"⟩)) (by decide +kernel)
  obtain ⟨hclear, hq⟩ := Bool.and_eq_true_iff.1 hq
  obtain ⟨w₁, hs, hq⟩ := (Option.any_eq_true _ _).1 hq
  obtain ⟨w', hrun', hq⟩ := exists_run _ _ hq
  obtain ⟨hlog, hq⟩ := Bool.and_eq_true_iff.1 hq
  obtain ⟨q, hr, howner⟩ := (Option.any_eq_true _ _).1 hq
  have hclear := of_decide_eq_true hclear
  exact ⟨_, w, w₁, _, w', q, hrun, hclear, hs, hrun', of_decide_eq_true hlog, hr,
    (cancelled_silent hrun hclear hs hrun').1 _ q hr (of_decide_eq_true howner)⟩

/-- However often it asks again, and whatever the adapter answers, an opening takes only the lease
of a request that was made for its own operation. -/
theorem openings_take_own (config : Config) (poolId : ℕ) (ls : List Call) :
    let x := replay call (fun _ _ => true) (fresh config poolId) ls
    x = none ∨ ∃ w, x = some w ∧ ∀ p ∈ w.openings, ∀ lease,
      (w.pool.take p.request).2 = .ok lease → ∃ q, w.pool.requests.get? p.request = some q ∧
        q.request.owner = p.binding ∧ q.state = .ready lease := by
  intro x
  cases hx : x with
  | none => exact .inl rfl
  | some w =>
    have hsilent := silent_run ((run_replay hx).mono fun _ _ _ hs => hs.2)
    refine .inr ⟨w, rfl, fun p hp lease ht => ?_⟩
    unfold PoolMachine.take at ht
    split at ht <;> cases ht
    next hr =>
      obtain ⟨q, hq, hs⟩ := Option.map_eq_some_iff.1 hr
      exact ⟨q, hq, (hsilent.tied p hp).2 q hq, hs⟩

end Instance

end GwzTransport.Endpoint
