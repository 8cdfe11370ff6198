import GwzTransport.Pool.Effects
import GwzTransport.Pool.Leases
import GwzTransport.Pool.Links

/-!
# Cancelling for an owner

`cancel_operation` and `cancel_session` fail the requests of an owner or of a session, close what
is leased to it, and let `schedule` hand out what has become free.

* `Cancels`: the first part, in which nothing of another owner changes;
* `cancellation_confined`: both parts together.

Where a scope was retired under a request, the request points to no connection, and the
cancellation panics instead of failing it (`cancel_panics`).
-/

namespace GwzTransport.Pool

open Protocol MachineInt Transition

/-- What a connection of a cancelled owner has become: a lease is closing, an opening has been
removed or is being cancelled. -/
inductive Entry.GivenUp (e : Entry) : Option Entry → Prop
  | closing {e'} (he : e.state.isLeased = true) (h : e'.state.isClosing = true) :
      GivenUp e (some e')
  | removed (he : e.state.isOpening = true) : GivenUp e none
  | cancelled {e' o} (he : e.state.isOpening = true)
      (h : e'.state = .opening o) (hrequest : o.request = none) (hcancel : o.cancel.isSome = true) :
      GivenUp e (some e')

theorem Entry.GivenUp.busy {e : Entry} {x : Option Entry} (h : e.GivenUp x) :
    e.state.isLeased = true ∨ e.state.isOpening = true := by
  cases h with
  | closing he => exact .inl he
  | removed he => exact .inr he
  | cancelled he => exact .inr he

theorem Entry.GivenUp.trans {e e' : Entry} {x : Option Entry} (h : e.GivenUp (some e'))
    (h' : e'.GivenUp x) : e.GivenUp x := by
  cases h with
  | closing he hclosing =>
    have hleased := State.not_leased_of_closing hclosing
    have hopening := State.not_opening_of_closing hclosing
    rcases h'.busy with he' | he'
    · cases hleased.symm.trans he'
    · cases hopening.symm.trans he'
  | cancelled he ho hrequest hcancel =>
    cases h' with
    | closing he' => simp [ho, State.isLeased] at he'
    | removed => exact .removed he
    | cancelled _ ho' hrequest' hcancel' => exact .cancelled he ho' hrequest' hcancel'

namespace PoolMachine

variable {m t u : PoolMachine} {c : ConnectionId} {e : Entry} {r : RequestId} {p : Pending}
  {matching : Owner → Bool} {tr : List (Call × Outcome)}

/-- Requests of the matching owners have failed and their connections were given up; nothing else
has changed, but for the count of changes. -/
structure Cancels (matching : Owner → Bool) (m t : PoolMachine) : Prop where
  rest : t = { m with requests := t.requests, entries := t.entries, revision := t.revision }
  requests : ∀ r p, m.requests.get? r = some p → t.requests.get? r = some p ∨
    matching p.request.owner = true ∧
      ∃ error, t.requests.get? r = some { p with state := .failed error }
  no_request : ∀ r, m.requests.get? r = none → t.requests.get? r = none
  entries : ∀ c e, m.entries.get? c = some e → t.entries.get? c = some e ∨
    e.owner.any matching = true ∧ e.GivenUp (t.entries.get? c)
  no_entry : ∀ c, m.entries.get? c = none → t.entries.get? c = none

/-- An opening that works for a request has its owner. -/
theorem owner_of_opening (h : Owned m) {o : Opening} (hr : m.requests.get? r = some p)
    (hp : p.state = .opening c) (hc : m.entries.get? c = some e) (he : e.state = .opening o) :
    e.owner = some p.request.owner := by
  have htie : p.tie = some (c, none, some p.request.owner) := by simp [Pending.tie, hp]
  have hback := h.entry_of_target hr htie hc (by rw [he]; rfl)
  obtain ⟨o', ho', hrequest⟩ := Entry.of_tie_dial hback
  cases he.symm.trans ho'
  simpa [Entry.tie, he, hrequest] using hback

namespace Cancels

theorem refl (matching : Owner → Bool) (m : PoolMachine) : Cancels matching m m :=
  ⟨rfl, fun _ _ h => .inl h, fun _ => id, fun _ _ h => .inl h, fun _ => id⟩

theorem trans (h : Cancels matching m t) (h' : Cancels matching t u) : Cancels matching m u where
  rest := by
    rw [h'.rest, h.rest]
  requests r p hr := by
    rcases h.requests r p hr with ht | ⟨hmatch, error, ht⟩
    · exact h'.requests r p ht
    · rcases h'.requests r _ ht with hu | ⟨-, error', hu⟩
      · exact .inr ⟨hmatch, error, hu⟩
      · exact .inr ⟨hmatch, error', hu⟩
  no_request r hr := h'.no_request r (h.no_request r hr)
  entries c e hc := by
    rcases h.entries c e hc with ht | ⟨hmatch, ht⟩
    · exact h'.entries c e ht
    · cases hx : t.entries.get? c with
      | none =>
        rw [h'.no_entry c hx]
        rw [hx] at ht
        exact .inr ⟨hmatch, ht⟩
      | some e' =>
        rw [hx] at ht
        rcases h'.entries c e' hx with hu | ⟨-, hu⟩
        · rw [hu]
          exact .inr ⟨hmatch, ht⟩
        · exact .inr ⟨hmatch, ht.trans hu⟩
  no_entry c hc := h'.no_entry c (h.no_entry c hc)

/-- A request of a matching owner fails, and perhaps one connection of that owner is given up. -/
theorem of_request (hr : m.requests.get? r = some p) (hmatch : matching p.request.owner = true)
    (error : Error) {entries : SortedMap ConnectionId Entry} {revision : ℕ}
    (hent : ∀ c e, m.entries.get? c = some e → entries.get? c = some e ∨
      e.owner.any matching = true ∧ e.GivenUp (entries.get? c))
    (hnone : ∀ c, m.entries.get? c = none → entries.get? c = none) :
    Cancels matching m { m with requests := m.refusing r p error, entries, revision } where
  rest := rfl
  requests j q hj := by
    by_cases hjr : j = r
    · subst hjr
      cases hr.symm.trans hj
      exact .inr ⟨hmatch, error, SortedMap.get?_insert_self _ _ _⟩
    · exact .inl ((SortedMap.get?_insert_of_ne _ hjr _).trans hj)
  no_request j hj := by
    refine (SortedMap.get?_insert_of_ne _ ?_ _).trans hj
    rintro rfl
    cases hr.symm.trans hj
  entries := hent
  no_entry := hnone

/-- One connection of the owner is given up. -/
theorem entry_or {x : Option Entry} {entries : SortedMap ConnectionId Entry}
    (hc : m.entries.get? c = some e) (howner : e.owner.any matching = true)
    (hx : entries.get? c = x) (hup : e.GivenUp x)
    (hother : ∀ d ≠ c, entries.get? d = m.entries.get? d) :
    ∀ d e', m.entries.get? d = some e' → entries.get? d = some e' ∨
      e'.owner.any matching = true ∧ e'.GivenUp (entries.get? d) := by
  intro d e' hd
  by_cases hdc : d = c
  · subst hdc
    cases hc.symm.trans hd
    rw [hx]
    exact .inr ⟨howner, hup⟩
  · exact .inl ((hother d hdc).trans hd)

theorem none_of_other {entries : SortedMap ConnectionId Entry} (hc : m.entries.get? c = some e)
    (hother : ∀ d ≠ c, entries.get? d = m.entries.get? d) :
    ∀ d, m.entries.get? d = none → entries.get? d = none := by
  intro d hd
  rw [hother d]
  · exact hd
  · rintro rfl
    cases hc.symm.trans hd

/-- `fail_request` for a request of a matching owner: its connection has the same owner. -/
theorem of_failing (h : Owned m) {error : Error} {reason : CloseReason}
    (hmatch : ∀ p, m.requests.get? r = some p → matching p.request.owner = true)
    (hf : Failing m r error reason t) : Cancels matching m t := by
  cases hf with
  | gone => exact .refl _ m
  | failed => exact .refl _ m
  | waiting hr => exact of_request hr (hmatch _ hr) error (fun _ _ hc => .inl hc) fun _ => id
  | lost hr => exact of_request hr (hmatch _ hr) error (fun _ _ hc => .inl hc) fun _ => id
  | @ready p l e hr hp hc he =>
    have htie : p.tie = some (l.connection, some l, some p.request.owner) := by
      simp [Pending.tie, hp]
    have hback := h.entry_of_target hr htie hc he
    have hs := Entry.of_tie_lease hback
    have howner : e.owner = some p.request.owner := by simpa [Entry.tie, hs] using hback
    have hother : ∀ d ≠ l.connection, (m.entries.insert l.connection
        (e.shut reason (m.cleanupDeadline e))).get? d = m.entries.get? d :=
      fun d hd => SortedMap.get?_insert_of_ne _ hd _
    refine of_request hr (hmatch p hr) error
      (entry_or hc ?_ (SortedMap.get?_insert_self _ _ _) (.closing ?_ rfl) hother)
      (none_of_other hc hother)
    · rw [howner]
      exact hmatch p hr
    · rw [hs]
      rfl
  | @reserved p c e o hr hp hc he hk =>
    have howner := owner_of_opening h hr hp hc he
    have hother : ∀ d ≠ c, (m.entries.erase c).get? d = m.entries.get? d :=
      fun d hd => SortedMap.get?_erase_of_ne _ hd
    refine of_request hr (hmatch p hr) error
      (entry_or hc ?_ (SortedMap.get?_erase_self _ _) (.removed ?_) hother)
      (none_of_other hc hother)
    · rw [howner]
      exact hmatch p hr
    · rw [he]
      rfl
  | @dialing p c e o k k' hr hp hc he hk hk' =>
    have howner := owner_of_opening h hr hp hc he
    have hother : ∀ d ≠ c, (m.entries.insert c
        { e with state := .opening (o.cancelled k' (satAdd m.now m.config.cleanupTimeoutMs)) }).get?
        d =
          m.entries.get? d :=
      fun d hd => SortedMap.get?_insert_of_ne _ hd _
    refine of_request hr (hmatch p hr) _
      (entry_or hc ?_ (SortedMap.get?_insert_self _ _ _) (.cancelled ?_ rfl rfl rfl) hother)
      (none_of_other hc hother)
    · rw [howner]
      exact hmatch p hr
    · rw [he]
      rfl

/-- A lease of a matching owner is closed. -/
theorem of_startClosing (hc : m.entries.get? c = some e) (he : e.state.isLeased = true)
    (howner : e.owner.any matching = true) {reason : CloseReason}
    (hx : m.startClosing c reason = some t) : Cancels matching m t := by
  rw [startClosing_eq hc (State.not_closing_of_leased he)] at hx
  cases hx
  have hother : ∀ d ≠ c, (m.entries.insert c (e.shut reason (m.cleanupDeadline e))).get? d =
      m.entries.get? d := fun d hd => SortedMap.get?_insert_of_ne _ hd _
  exact ⟨rfl, fun _ _ hr => .inl hr, fun _ => id,
    entry_or hc howner (SortedMap.get?_insert_self _ _ _) (.closing he rfl) hother,
    none_of_other hc hother⟩

end Cancels

/-! ### The two passes of a cancellation -/

theorem failEach_cancels {l : List RequestId} (h : Owned m)
    (hl : ∀ r ∈ l, ∀ p, m.requests.get? r = some p → matching p.request.owner = true)
    (hx : l.foldlM (fun m r => (m.failRequest r .cancelled .cancelled).map (·.1)) m = some t) :
    Cancels matching m t := by
  induction l generalizing m with
  | nil =>
    cases hx
    exact .refl _ _
  | cons r l ih =>
    rw [List.foldlM_cons] at hx
    obtain ⟨u, hu, hrest⟩ := Option.bind_eq_some_iff.1 hx
    have hdoes := (failRequest_does h r .cancelled .cancelled).2 u hu
    obtain ⟨⟨u', result⟩, hfail, rfl⟩ := Option.map_eq_some_iff.1 hu
    have hone := Cancels.of_failing h (hl r List.mem_cons_self) (failRequest_failing h hfail)
    refine hone.trans (ih (Guard.inv_weak (g := linked) hdoes.1 h) (fun j hj q hq => ?_) hrest)
    -- the owner of a request does not change
    cases hj' : m.requests.get? j with
    | none => cases (hone.no_request j hj').symm.trans hq
    | some p =>
      have hmatch := hl j (List.mem_cons_of_mem _ hj) p hj'
      rcases hone.requests j p hj' with hsame | ⟨-, error, hfailed⟩
      · cases hsame.symm.trans hq
        exact hmatch
      · cases hfailed.symm.trans hq
        exact hmatch

theorem closeEach_cancels {l : List ConnectionId} (hn : l.Nodup)
    (hl : ∀ c ∈ l, ∃ e, m.entries.get? c = some e ∧ e.owner.any matching = true ∧
      e.state.isLeased = true)
    (hx : l.foldlM (fun m c => m.startClosing c .cancelled) m = some t) :
    Cancels matching m t := by
  induction l generalizing m with
  | nil =>
    cases hx
    exact .refl _ _
  | cons c l ih =>
    rw [List.foldlM_cons] at hx
    obtain ⟨u, hu, hrest⟩ := Option.bind_eq_some_iff.1 hx
    obtain ⟨hnot, hn⟩ := List.nodup_cons.1 hn
    obtain ⟨e, hc, howner, he⟩ := hl c List.mem_cons_self
    refine (Cancels.of_startClosing hc he howner hu).trans (ih hn (fun d hd => ?_) hrest)
    have hdc : d ≠ c := fun hdc => hnot (hdc ▸ hd)
    rw [startClosing_eq hc (State.not_closing_of_leased he)] at hu
    cases hu
    obtain ⟨x, hx, hmatch, hleased⟩ := hl d (List.mem_cons_of_mem _ hd)
    exact ⟨x, (SortedMap.get?_insert_of_ne _ hdc _).trans hx, hmatch, hleased⟩

/-- The state in which `schedule` is called: all requests of the matching owners have failed, and
no connection is leased to such an owner. -/
structure Cancelled (matching : Owner → Bool) (m u : PoolMachine) : Prop where
  cancels : Cancels matching m u
  owned : Owned u
  failed : ∀ r p, u.requests.get? r = some p → matching p.request.owner = true →
    ∃ error, p.state = .failed error
  unleased : ∀ c e, u.entries.get? c = some e → e.owner.any matching = true →
    e.state.isLeased = false

theorem cancelMatching_cases (h : Owned m) (hx : m.cancelMatching matching = some t) :
    ∃ u, Cancelled matching m u ∧ u.schedule = some t := by
  unfold cancelMatching at hx
  obtain ⟨s, hs, hx⟩ := Option.bind_eq_some_iff.1 hx
  obtain ⟨u, hu, hx⟩ := Option.bind_eq_some_iff.1 hx
  have hfail := (failEach_does (P := fun p => matching p.request.owner = true) (fun r => r)
    (fun _ => .cancelled) .cancelled _ h fun r p hr hp => .inl (by
      rw [List.map_id']
      exact (SortedMap.mem_keysWhere _).2 ⟨p, hr, hp⟩)).2 s hs
  have hs' : Owned s := Guard.inv_weak (g := linked) hfail.1 h
  have hclose := (closeWhere_does hs' .cancelled
    (fun _ e => e.owner.any matching && e.state.isLeased) fun c e hc he => by
      obtain ⟨ho, he⟩ := Bool.and_eq_true_iff.1 he
      refine hs'.free_of_leased hc he fun r p hr howner => hfail.2 r p hr ?_
      rw [howner] at ho
      simpa using ho).2 u hu
  refine ⟨u, ⟨?_, Guard.inv_weak (g := total) hclose.1 hs', ?_, ?_⟩, hx⟩
  · refine (failEach_cancels h (fun r hr p hp => ?_) hs).trans
      (closeEach_cancels (SortedMap.nodup_keysWhere _ _) (fun c hc => ?_) hu)
    · obtain ⟨q, hq, hmatch⟩ := (SortedMap.mem_keysWhere _).1 hr
      cases hp.symm.trans hq
      exact hmatch
    · obtain ⟨e, hc, he⟩ := (SortedMap.mem_keysWhere _).1 hc
      exact ⟨e, hc, Bool.and_eq_true_iff.1 he⟩
  · rw [hclose.2.1]
    exact hfail.2
  · intro c e hc howner
    rcases hclose.2.2 c e hc with hclosing | ⟨-, hno⟩
    · exact State.not_leased_of_closing hclosing
    · rw [howner, Bool.true_and] at hno
      exact hno

/-- An opening of a matching owner works for no request any more. -/
theorem Cancelled.opening (h : Cancelled matching m u) {o : Opening}
    (hc : u.entries.get? c = some e) (howner : e.owner.any matching = true)
    (he : e.state = .opening o) : o.request = none ∧ o.cancel.isSome = true := by
  have hok := h.owned.entry_ok c e hc
  simp only [Entry.Ok, he] at hok
  rcases hok with ⟨hrequest, -⟩ | ⟨hrequest, hcancel, -⟩
  · obtain ⟨r, hr⟩ := Option.isSome_iff_exists.1 hrequest
    obtain ⟨p, hp, hstate⟩ := h.owned.request_of_opening hc he hr
    rw [owner_of_opening h.owned hp hstate hc he] at howner
    obtain ⟨error, hfailed⟩ := h.failed r p hp howner
    cases hstate.symm.trans hfailed
  · exact ⟨hrequest, hcancel⟩

/-! ### After the last `schedule` -/

section Outcome

variable (h : Cancelled matching m u) (hx : u.schedule = some t)

include h hx

theorem Cancelled.request_fails (hr : m.requests.get? r = some p)
    (hmatch : matching p.request.owner = true) :
    ∃ error, t.requests.get? r = some { p with state := .failed error } := by
  have hkept := ((schedule_does _).2 t hx).2
  rcases h.cancels.requests r p hr with hsame | ⟨-, error, hfailed⟩
  · obtain ⟨error, hp⟩ := h.failed r p hsame hmatch
    refine ⟨error, ?_⟩
    rw [← hp]
    exact hkept r p hsame (by rw [hp]; nofun)
  · exact ⟨error, hkept r _ hfailed nofun⟩

theorem Cancelled.other_request (hr : m.requests.get? r = some p)
    (hmatch : matching p.request.owner = false) :
    u.requests.get? r = some p ∧ (p.state ≠ .waiting → t.requests.get? r = some p) := by
  rcases h.cancels.requests r p hr with hsame | ⟨hyes, -⟩
  · exact ⟨hsame, ((schedule_does _).2 t hx).2 r p hsame⟩
  · cases hmatch.symm.trans hyes

variable (hm : Owned m)

include hm

/-- What is not idle when `schedule` is called is left alone. -/
theorem Cancelled.entry_after (hc : m.entries.get? c = some e)
    (hidle : ∀ e', u.entries.get? c = some e' → e'.state.isIdle = false) :
    t.entries.get? c = u.entries.get? c := by
  have hserial : u.connectionSerial = m.connectionSerial := by rw [h.cancels.rest]
  refine (schedule_scheduled hx).entry ?_ hidle
  rw [hserial]
  exact (hm.entry_id c e hc).2

theorem Cancelled.lease_closes (hc : m.entries.get? c = some e)
    (howner : e.owner.any matching = true) {l : LeaseId} {q : Option RequestId}
    (he : e.state = .leased l q) : t.isClosing c = true ∧ t.isLive l = false := by
  have hnot : e.state.isOpening = false := by rw [he]; rfl
  have hclosing : ∃ e', u.entries.get? c = some e' ∧ e'.state.isClosing = true := by
    rcases h.cancels.entries c e hc with hsame | ⟨-, hup⟩
    · have hno := h.unleased c e hsame howner
      rw [he] at hno
      cases hno
    · revert hup
      cases u.entries.get? c with
      | none =>
        intro hup
        cases hup with
        | removed hopening => cases hnot.symm.trans hopening
      | some e' =>
        intro hup
        cases hup with
        | closing _ hclosing => exact ⟨e', rfl, hclosing⟩
        | cancelled hopening => cases hnot.symm.trans hopening
  obtain ⟨e', hu, hclosing⟩ := hclosing
  have ht : t.entries.get? c = some e' := by
    rw [h.entry_after hx hm hc fun x hx => ?_, hu]
    cases hu.symm.trans hx
    exact State.not_idle_of_closing hclosing
  have hlease : l.connection = c := by
    have hok := hm.entry_ok c e hc
    simpa [Entry.Ok, he] using hok
  refine ⟨?_, ?_⟩
  · rw [isClosing, ht]
    exact hclosing
  · rw [← Bool.not_eq_true, isLive_iff, hlease]
    rintro ⟨x, q', hx, hleased⟩
    cases ht.symm.trans hx
    rw [hleased] at hclosing
    cases hclosing

theorem Cancelled.opening_ends (hc : m.entries.get? c = some e)
    (howner : e.owner.any matching = true) (hopening : e.state.isOpening = true) :
    t.entries.get? c = none ∨ ∃ e' o, t.entries.get? c = some e' ∧ e'.state = .opening o ∧
      o.request = none ∧ o.cancel.isSome = true := by
  have hcancelled : ∀ e', u.entries.get? c = some e' → ∃ o, e'.state = .opening o ∧
      o.request = none ∧ o.cancel.isSome = true := by
    intro e' hu
    rcases h.cancels.entries c e hc with hsame | ⟨-, hup⟩
    · cases hu.symm.trans hsame
      cases hst : e.state with
      | opening o => exact ⟨o, rfl, h.opening hsame howner hst⟩
      | _ =>
        rw [hst] at hopening
        cases hopening
    · rw [hu] at hup
      cases hup with
      | closing hleased => cases (State.not_leased_of_opening hopening).symm.trans hleased
      | cancelled _ ho hrequest hcancel => exact ⟨_, ho, hrequest, hcancel⟩
  have ht := h.entry_after hx hm hc fun e' hu => by
    obtain ⟨o, ho, -⟩ := hcancelled e' hu
    rw [ho]
    rfl
  rw [ht]
  cases hu : u.entries.get? c with
  | none => exact .inl rfl
  | some e' =>
    obtain ⟨o, ho⟩ := hcancelled e' hu
    exact .inr ⟨e', o, rfl, ho⟩

theorem Cancelled.other_entry (hc : m.entries.get? c = some e)
    (howner : e.owner.any matching = false) :
    u.entries.get? c = some e ∧ (e.state.isIdle = false → t.entries.get? c = some e) := by
  rcases h.cancels.entries c e hc with hsame | ⟨hyes, -⟩
  · refine ⟨hsame, fun hidle => ?_⟩
    rw [h.entry_after hx hm hc fun x hx => ?_, hsame]
    cases hsame.symm.trans hx
    exact hidle
  · cases howner.symm.trans hyes

theorem Cancelled.idle (hc : m.entries.get? c = some e) (hidle : e.state.isIdle = true) :
    IdleFate u t c e := by
  have hserial : u.connectionSerial = m.connectionSerial := by rw [h.cancels.rest]
  have hsame : u.entries.get? c = some e := by
    rcases h.cancels.entries c e hc with hsame | ⟨-, hup⟩
    · exact hsame
    · rcases hup.busy with he | he
      · cases (State.not_leased_of_idle hidle).symm.trans he
      · cases (State.not_opening_of_idle hidle).symm.trans he
  refine (schedule_scheduled hx).idleFate ?_ hsame
  rw [hserial]
  exact (hm.entry_id c e hc).2

end Outcome

/-- The calls that cancel, with the owners they cancel for. -/
inductive CancelsFor : Call → (Owner → Bool) → Prop
  | operation (owner : Owner) : CancelsFor (.cancelOperation owner) (· == owner)
  | session (session : String) : CancelsFor (.cancelSession session) (·.session == session)

theorem CancelsFor.call_eq {call : Call} (h : CancelsFor call matching) (m : PoolMachine) :
    m.call call = (m.cancelMatching matching).map fun t => (t, .done) := by
  cases h <;> rfl

/-- In every run that retires a scope only while its connections work for no request,
`cancel_operation` and `cancel_session` return, and when they do:

* every request of the owners has failed, every connection leased to them is closing with its
  lease ended, and every connection that opens for them is being cancelled or gone;
* up to a last `schedule` nothing else has changed; so every other request keeps its state unless
  it waits, every other lease is live, and every idle connection is idle, leased to a request that
  waited, or evicted. -/
theorem cancellation_confined {config : Config} {poolId : ℕ} {call : Call}
    (h : Run (StepUnder RetiresUnused) (fresh config poolId) tr m)
    (hcall : CancelsFor call matching) :
    ∃ u t, m.call call = some (t, .done) ∧ u.schedule = some t ∧
      u = { m with requests := u.requests, entries := u.entries, revision := u.revision } ∧
      (∀ r p, m.requests.get? r = some p → matching p.request.owner = true →
        ∃ error, t.requests.get? r = some { p with state := .failed error }) ∧
      (∀ c e l q, m.entries.get? c = some e → e.owner.any matching = true →
        e.state = .leased l q → t.isClosing c = true ∧ t.isLive l = false) ∧
      (∀ c e, m.entries.get? c = some e → e.owner.any matching = true →
        e.state.isOpening = true → t.entries.get? c = none ∨ ∃ e' o, t.entries.get? c = some e' ∧
          e'.state = .opening o ∧ o.request = none ∧ o.cancel.isSome = true) ∧
      (∀ r p, m.requests.get? r = some p → matching p.request.owner = false →
        u.requests.get? r = some p ∧ (p.state ≠ .waiting → t.requests.get? r = some p)) ∧
      (∀ c e, m.entries.get? c = some e → e.owner.any matching = false →
        u.entries.get? c = some e ∧ (e.state.isIdle = false → t.entries.get? c = some e)) ∧
      (∀ l e, m.isLive l = true → m.entries.get? l.connection = some e →
        e.owner.any matching = false → t.isLive l = true) ∧
      ∀ c e, m.entries.get? c = some e → e.state.isIdle = true → IdleFate u t c e := by
  obtain ⟨hs, hl⟩ := linked_run h
  have hne := call_ne_none hs hl call
  rw [hcall.call_eq] at hne ⊢
  obtain ⟨t, hx⟩ : ∃ t, m.cancelMatching matching = some t := by
    cases hx : m.cancelMatching matching with
    | none => exact absurd (by rw [hx]; rfl) hne
    | some t => exact ⟨t, rfl⟩
  obtain ⟨u, hu, hschedule⟩ := cancelMatching_cases hs.owned hx
  have hm := hs.owned
  refine ⟨u, t, by rw [hx]; rfl, hschedule, hu.cancels.rest, fun r p => hu.request_fails hschedule,
    fun c e l q hc howner he => hu.lease_closes hschedule hm hc howner he,
    fun c e => hu.opening_ends hschedule hm, fun r p => hu.other_request hschedule,
    fun c e => hu.other_entry hschedule hm, ?_, fun c e => hu.idle hschedule hm⟩
  intro l e hlive hc howner
  obtain ⟨e', q, hc', he⟩ := isLive_iff.1 hlive
  cases hc.symm.trans hc'
  refine isLive_iff.2 ⟨e, q, (hu.other_entry hschedule hm hc howner).2 ?_, he⟩
  rw [he]
  rfl

/-- One operation holds a connection, and the next is still waiting for its own: both are of the
session that is cancelled. -/
theorem cancellation_confined_session : ∃ tr m t p error,
    Run (StepUnder RetiresUnused) (fresh .default 1) tr m ∧
    m.call (.cancelSession "session") = some (t, .done) ∧ t.isClosing ⟨1, 1⟩ = true ∧
    m.requests.get? ⟨1, 2⟩ = some p ∧ p.state = .waiting ∧
    t.requests.get? ⟨1, 2⟩ = some { p with state := .failed error } := by
  obtain ⟨tr, m, hrun, hq⟩ := exists_run (m := fresh .default 1) retiresUnused retiresUnused_sound
    [.setLimit scopedRequest.key.site 1, .requestUntil scopedRequest none, .nextAction,
      .connected ⟨1, 1⟩ (.ok (some (.httpsScoped "scope"))), .take ⟨1, 1⟩,
      .requestUntil scopedRequest none]
    (fun _ m => ((m.requests.get? ⟨1, 2⟩).any fun p =>
        p.state == .waiting && p.request.owner.session == "session") &&
      (m.entries.get? ⟨1, 1⟩).any fun e => e.owner.any (·.session == "session") &&
        m.isLive ⟨⟨1, 1⟩, 1⟩) (by decide +kernel)
  simp only [Option.any_eq_true, Bool.and_eq_true, beq_iff_eq] at hq
  obtain ⟨⟨p, hr, hp, hsession⟩, e, hc, ⟨owner, howner, hmine⟩, hlive⟩ := hq
  obtain ⟨u, t, hcall, -, -, hfails, hcloses, -⟩ :=
    cancellation_confined hrun (.session "session")
  obtain ⟨e', q, hc', he⟩ := isLive_iff.1 hlive
  cases hc.symm.trans hc'
  obtain ⟨error, hfailed⟩ := hfails _ p hr (by simpa using hsession)
  refine ⟨tr, m, t, p, error, hrun, hcall, ?_, hr, hp, hfailed⟩
  exact (hcloses _ e _ q hc (by rw [howner]; simpa using hmine) he).1

/-- The defect: the scope of an opening connection is retired; when its closing is acknowledged,
its request can be cancelled by no one: `fail_request` finds no connection and panics. -/
theorem cancel_panics : ∃ tr m p, Run Step (fresh .default 1) tr m ∧
    m.requests.get? ⟨1, 1⟩ = some p ∧ p.state = .opening ⟨1, 1⟩ ∧
    p.request.owner = ⟨"session", "operation"⟩ ∧
    m.call (.cancelOperation ⟨"session", "operation"⟩) = none ∧
    m.call (.cancelSession "session") = none := by
  obtain ⟨tr, m, hrun, hq⟩ := exists_any_run (m := fresh .default 1)
    [.requestUntil scopedRequest none, .nextAction, .retireHttpsScope "scope", .nextAction,
      .closed ⟨1, 1⟩]
    (fun _ m => (m.call (.cancelOperation ⟨"session", "operation"⟩)).isNone &&
      (m.call (.cancelSession "session")).isNone &&
      (m.requests.get? ⟨1, 1⟩).any fun p => p.state == .opening ⟨1, 1⟩ &&
        p.request.owner == ⟨"session", "operation"⟩) (by decide +kernel)
  simp only [Bool.and_eq_true, Option.isNone_iff_eq_none, Option.any_eq_true, beq_iff_eq] at hq
  obtain ⟨⟨hoperation, hsession⟩, p, hr, hp, howner⟩ := hq
  exact ⟨tr, m, p, hrun, hr, hp, howner, hoperation, hsession⟩

end PoolMachine

end GwzTransport.Pool
