import GwzTransport.Pool.Leases
import GwzTransport.Pool.Links
import GwzTransport.Pool.History

/-!
# The end of the pool

`shutdown` and `driver_lost` stop the pool: every request fails, every connection is cancelled or
closed, the holds are dropped.  What is left after that only drains.

* `Stopped`: what holds from the stop on, and that every move keeps it;
* `AllFailed`: the error each request gets;
* `stopped_run`: a connection is there until its end is acknowledged.
-/

namespace GwzTransport.Pool

open Protocol MachineInt Transition

/-- A connection of a stopped pool: a dial that is cancelled, or one that closes. -/
def Entry.Drains (e : Entry) : Prop :=
  (∃ o, e.state = .opening o ∧ o.clock.isSome = true ∧ o.cancel.isSome = true ∧ o.request = none) ∨
    e.state.isClosing = true

/-- The event ends the presence of its connection in the pool. -/
def Event.leaves : Event → Bool
  | .connected ok => !ok
  | .closed => true
  | .idleClosed => true
  | _ => false

namespace PoolMachine

variable {m m' t : PoolMachine} {c : ConnectionId} {k : Option Mark} {call : Call}
  {out : Outcome} {r : RequestId} {p : Pending} {l : LeaseId} {marks : List Mark}
  {tr : List (Call × Outcome)}

/-! ### Holds -/

/-- The pool is stopped and holds nothing. -/
def Halted (m : PoolMachine) : Prop := m.stopped = true ∧ m.holds.size = 0

theorem Halted.dispose (h : Halted m) (queue : SortedMap RequestId Pending) (c : ConnectionId)
    (settle : Bool) : (dispose { m with requests := queue } c settle).holds = m.holds := by
  unfold PoolMachine.dispose
  cases hc : m.entries.get? c with
  | none => simp
  | some e => simp [settleMs, h.1]

/-- A stopped pool stays stopped, and holds no slot any more. -/
theorem Halted.step (h : Halted m) (hv : Move m k m') : Halted m' := by
  cases hv with
  | configure settles noEvicts stopped driverLost hstop => exact ⟨hstop h.1, h.2⟩
  | lapse holds hh =>
    refine ⟨h.1, ?_⟩
    have := hh fun _ => true
    rw [← SortedMap.size_eq_countWhere, ← SortedMap.size_eq_countWhere, h.2] at this
    exact Nat.le_zero.1 this
  | connectedErr hc he hclock error queue settle v =>
    refine ⟨h.1, ?_⟩
    dsimp only
    rw [h.dispose queue]
    exact h.2
  | @closed d e reason cleanup hc he hk v =>
    refine ⟨h.1, ?_⟩
    have := h.dispose m.requests d true
    dsimp only at this ⊢
    rw [this]
    exact h.2
  | _ => exact h

/-! ### The invariant -/

/-- What holds of a stopped pool. -/
structure Stopped (m : PoolMachine) : Prop where
  halted : Halted m
  failed : ∀ r p, m.requests.get? r = some p → ∃ error, p.state = .failed error
  drains : ∀ c e, m.entries.get? c = some e → e.Drains

theorem Stopped.not_waiting (h : Stopped m) (hr : m.requests.get? r = some p) :
    p.state ≠ .waiting := by
  obtain ⟨error, hp⟩ := h.failed r p hr
  rw [hp]
  intro hx
  cases hx

theorem Stopped.no_request (h : Stopped m) {e : Entry} {o : Opening}
    (hc : m.entries.get? c = some e) (he : e.state = .opening o) : o.request = none := by
  rcases h.drains c e hc with ⟨o', ho, -, -, hreq⟩ | hcl
  · rw [he] at ho
    cases ho
    exact hreq
  · rw [he] at hcl
    cases hcl

theorem Stopped.dispatched (h : Stopped m) {e : Entry} {o : Opening}
    (hc : m.entries.get? c = some e) (he : e.state = .opening o) : o.clock.isSome = true := by
  rcases h.drains c e hc with ⟨o', ho, hclock, -⟩ | hcl
  · rw [he] at ho
    cases ho
    exact hclock
  · rw [he] at hcl
    cases hcl

/-- The connections of a stopped pool go on draining. -/
theorem Stopped.becomes (h : Stopped m) {e e' : Entry} (hc : m.entries.get? c = some e)
    (hb : e.Becomes m c k e') : e'.Drains := by
  have hbusy : e.state.isIdle = false ∧ e.state.isLeased = false := by
    rcases h.drains c e hc with ⟨o, ho, -⟩ | hcl
    · rw [ho]
      exact ⟨rfl, rfl⟩
    · cases hs : e.state with
      | closing => exact ⟨rfl, rfl⟩
      | _ =>
        rw [hs] at hcl
        cases hcl
  cases hb with
  | lease hr hp => exact absurd hp (h.not_waiting hr)
  | cancel he ho =>
    rw [h.no_request hc he] at ho
    cases ho
  | clock he hclock k' =>
    rcases h.drains c e hc with ⟨o', ho, -, hcancel, hreq⟩ | hcl
    · rw [he] at ho
      cases ho
      exact .inl ⟨_, rfl, rfl, hcancel, hreq⟩
    · rw [he] at hcl
      cases hcl
  | connect he hclock =>
    have := h.dispatched hc he
    rw [hclock] at this
    cases this
  | cancelConnect he =>
    have hclock := h.dispatched hc he
    have hreq := h.no_request hc he
    exact .inl ⟨_, rfl, hclock, rfl, hreq⟩
  | abortConnect he =>
    have hclock := h.dispatched hc he
    have hreq := h.no_request hc he
    exact .inl ⟨_, rfl, hclock, rfl, hreq⟩
  | ready _ he ho =>
    rw [h.no_request hc he] at ho
    cases ho
  | take he =>
    rw [he] at hbusy
    cases hbusy.2
  | scope he =>
    rw [hbusy.2] at he
    cases he
  | release he =>
    rw [he] at hbusy
    cases hbusy.2
  | shut => exact .inr rfl
  | retire => exact .inr rfl
  | refused => exact .inr rfl
  | sendClose => exact .inr rfl
  | sendAbort => exact .inr rfl

/-- The requests of a stopped pool keep their errors. -/
theorem Stopped.keeps (h : Stopped m) (hv : Move m k m') {p' : Pending}
    (hr : m'.requests.get? r = some p') :
    ∃ p, m.requests.get? r = some p ∧ p'.state = p.state := by
  obtain ⟨p, hq, hb⟩ := hv.request_origin hr
  obtain ⟨error, hp⟩ := h.failed r p hq
  refine ⟨p, hq, ?_⟩
  rcases hb.cause with hsame | hwait | htarget | ⟨c, e, hc, hh⟩
  · exact hsame
  · exact absurd hwait (h.not_waiting hq)
  · rw [hp] at htarget
    cases htarget
  · -- no connection of a stopped pool works for a request
    cases hs : e.state with
    | opening o =>
      rw [hs, State.holder, h.no_request hc hs] at hh
      cases hh
    | _ => rcases h.drains c e hc with ⟨o, ho, -⟩ | hcl <;> simp_all [State.holder, State.isClosing]

theorem Stopped.step (h : Stopped m) (hv : Move m k m') : Stopped m' where
  halted := h.halted.step hv
  failed r p' hr := by
    obtain ⟨p, hq, hsame⟩ := h.keeps hv hr
    rw [hsame]
    exact h.failed r p hq
  drains c e' hc := by
    cases hv.origin hc with
    | same hd => exact h.drains c e' hd
    | changed hd hb => exact h.becomes hd hb
    | reserved hr hp => exact absurd hp (h.not_waiting hr)

theorem Stopped.weak (h : Stopped m) (hw : Weak Move m marks t) : Stopped t :=
  hw.invariant (A := fun _ => True) (fun _ _ _ _ ht hv => ht.step hv) (fun _ _ => trivial) h

/-- Nothing new enters a stopped pool. -/
theorem Stopped.entered (h : Stopped m) (he : Entered m call t) :
    Stopped t ∧ t.requests = m.requests ∧ t.entries = m.entries := by
  cases he with
  | request ha =>
    have := ha.running
    rw [h.halted.1] at this
    cases this
  | _ => exact ⟨⟨h.halted, h.failed, h.drains⟩, rfl, rfl⟩

/-! ### Presence -/

/-- In a stopped pool a connection goes exactly with an event that says so. -/
theorem Stopped.present (h : Stopped m) (hv : Move m k m') (c : ConnectionId) :
    (m'.entries.get? c).isSome = true ↔ (m.entries.get? c).isSome = true ∧
      ∀ x ∈ eventsOn c k.toList, x.leaves = false := by
  have hch := hv.entryChange
  revert hch
  generalize m'.entries = es, m'.connectionSerial = serial
  intro hch
  cases hch with
  | keep => simp [eventsOn]
  | @become d e e' k hd hb =>
    have hk : ∀ x ∈ eventsOn c k.toList, x.leaves = false := by
      cases hb <;> simp [eventsOn, Event.leaves]
    have hpresent : ((m.entries.insert d e').get? c).isSome = (m.entries.get? c).isSome := by
      rw [SortedMap.get?_insert]
      split_ifs with hcd
      · rw [hcd, hd]
        rfl
      · rfl
    rw [hpresent]
    exact ⟨fun hc => ⟨hc, hk⟩, And.left⟩
  | @leave d e k hd hl =>
    have hmark : ∃ x, k = some (.event d x) ∧ x.leaves = true := by
      cases hl with
      | reserved he ho =>
        rw [h.no_request hd he] at ho
        cases ho
      | failed => exact ⟨_, rfl, rfl⟩
      | closed => exact ⟨_, rfl, rfl⟩
      | idleClosed => exact ⟨_, rfl, rfl⟩
    obtain ⟨x, rfl, hx⟩ := hmark
    rw [SortedMap.get?_erase]
    by_cases hcd : c = d
    · subst hcd
      simp [eventsOn, hx]
    · have hdc : d ≠ c := fun hdc => hcd hdc.symm
      simp [eventsOn, hcd, hdc]
  | reserve hr hp => exact absurd hp (h.not_waiting hr)

theorem Stopped.present_weak (h : Stopped m) (hw : Weak Move m marks t) (c : ConnectionId) :
    (t.entries.get? c).isSome = true ↔ (m.entries.get? c).isSome = true ∧
      ∀ x ∈ eventsOn c marks, x.leaves = false := by
  have key := hw.follow [] (P := fun hist t => Stopped t ∧ ((t.entries.get? c).isSome = true ↔
    (m.entries.get? c).isSome = true ∧ ∀ x ∈ eventsOn c hist, x.leaves = false))
    (fun hist u k v hu hv => ⟨hu.1.step hv, ?_⟩) ⟨h, by simp [eventsOn]⟩
  · exact key.2
  · rw [hu.1.present hv c, hu.2, eventsOn_append, List.forall_mem_append, and_assoc]

/-! ### The stop -/

/-- The error of a request depends on its own connection only. -/
theorem failure_congr {error : Error}
    (h : ∀ c, p.state = .opening c → t.entries.get? c = m.entries.get? c) :
    t.failure error p = m.failure error p := by
  unfold failure
  cases hp : p.state with
  | opening c =>
    have hclock : t.sharedSetupClock c = m.sharedSetupClock c := by
      simp only [sharedSetupClock, h c hp]
    simp only [arbitrateSetupError, hclock]
    split <;> rfl
  | _ => rfl

/-- The requests after each of them has failed. -/
def AllFailed (m : PoolMachine) (error : Error) (t : PoolMachine) : Prop :=
  ∀ r, t.requests.get? r =
    (m.requests.get? r).map fun p => { p with state := .failed (m.failure error p) }

theorem AllFailed.of_eq {error : Error} (h : AllFailed m' error t)
    (hreq : m'.requests = m.requests) (hent : m'.entries = m.entries) : AllFailed m error t := by
  intro r
  rw [h r, hreq]
  congr
  funext p
  have hsame : m'.failure error p = m.failure error p := failure_congr fun c _ => by rw [hent]
  rw [hsame]

/-- Two requests do not point to the same connection. -/
theorem Linked.target_inj (hl : Linked m) {j : RequestId} {q : Pending}
    (hr : m.requests.get? r = some p) (hj : m.requests.get? j = some q)
    (hp : p.state.target = some c) (hq : q.state.target = some c) : r = j := by
  have htie : ∀ {p : Pending}, p.state.target = some c → ∃ x, p.tie = some (c, x) := by
    intro p hp
    cases hs : p.state with
    | opening d =>
      rw [hs] at hp
      cases hp
      exact ⟨(none, some p.request.owner), by simp [Pending.tie, hs]⟩
    | ready l =>
      rw [hs] at hp
      cases hp
      exact ⟨(some l, some p.request.owner), by simp [Pending.tie, hs]⟩
    | _ =>
      rw [hs] at hp
      cases hp
  obtain ⟨x, hx⟩ := htie hp
  obtain ⟨y, hy⟩ := htie hq
  rcases hl.holder_of_target ((targets_of_get hr).trans hx) with hf | hh
  · exact hf.elim
  · exact (Matching.eq_of_target hl hh ((targets_of_get hj).trans hy)).symm

/-- Failing all requests one after the other: each gets the error it would get first. -/
theorem failAll_does (h : Owned m) (hl : Linked m) (error : Error) (reason : CloseReason) :
    linked.Does m [] ((m.requests.keysWhere fun _ _ => true).foldlM
      (fun m r => (m.failRequest r error reason).map (·.1)) m) (AllFailed m error) := by
  refine (Guard.Does.foldlM (I := fun l t => l.Nodup ∧
    (∀ r ∈ l, t.requests.get? r = m.requests.get? r ∧ ∀ p d, m.requests.get? r = some p →
      p.state.target = some d → t.entries.get? d = m.entries.get? d) ∧
    ∀ r ∉ l, t.requests.get? r =
      (m.requests.get? r).map fun p => { p with state := .failed (m.failure error p) })
    ?_ _ m h ⟨SortedMap.nodup_keysWhere _ _, fun r _ => ⟨rfl, fun _ _ _ _ => rfl⟩, ?_⟩).mono
    fun t ht r => ht.2.2 r nofun
  · rintro i l t ht ⟨hn, hleft, hdone⟩
    rw [List.nodup_cons] at hn
    refine (failRequest_does ht i error reason).mono fun u hu =>
      ⟨hn.2, fun r hr => ?_, fun r hr => ?_⟩
    · have hri : r ≠ i := fun hri => hn.1 (hri ▸ hr)
      obtain ⟨hreq, hent⟩ := hleft r (List.mem_cons_of_mem _ hr)
      refine ⟨(hu.others r hri).trans hreq, fun p d hp hd => ?_⟩
      rw [hu.entries d ?_]
      · exact hent p d hp hd
      · intro q hq hqd
        rw [(hleft i List.mem_cons_self).1] at hq
        exact hri (hl.target_inj hp hq hd hqd)
    · by_cases hri : r = i
      · subst hri
        obtain ⟨hreq, hent⟩ := hleft r List.mem_cons_self
        rw [hu.request, hreq]
        cases hp : m.requests.get? r with
        | none => rfl
        | some p =>
          rw [Option.map_some, Option.map_some, failure_congr fun c hc => ?_]
          exact hent p c hp (by rw [hc]; rfl)
      · rw [hu.others r hri]
        refine hdone r fun hmem => ?_
        rcases List.mem_cons.1 hmem with hmem | hmem
        · exact hri hmem
        · exact hr hmem
  · intro r hr
    cases hp : m.requests.get? r with
    | none => rfl
    | some p => exact absurd ((SortedMap.mem_keysWhere _).2 ⟨p, hp, rfl⟩) hr

/-- What `stop` leaves. -/
theorem stop_stopped (hs : Sound m) (hl : Linked m) {error : Error} {reason : CloseReason}
    (ht : m.stop error reason = some t) : Stopped t ∧ AllFailed m error t := by
  let m₀ : PoolMachine := { m with stopped := true, holds := .empty }
  have h₀ : Owned m₀ := hs.owned.of_eq rfl rfl rfl rfl rfl
  obtain ⟨u, hu, ht⟩ := Option.bind_eq_some_iff.1 ht
  obtain ⟨v, hv, ht⟩ := Option.bind_eq_some_iff.1 ht
  cases ht
  obtain ⟨hw, hfail⟩ := (failAll_does h₀ hl error reason).2 u hu
  have hou : Owned u := Guard.inv_weak (g := linked) hw h₀
  have hfailed : ∀ r p, u.requests.get? r = some p → ∃ error, p.state = .failed error := by
    intro r p hr
    rw [hfail r, Option.map_eq_some_iff] at hr
    obtain ⟨q, -, rfl⟩ := hr
    exact ⟨_, rfl⟩
  have hfree : ∀ c e, u.entries.get? c = some e → (e.state.isIdle || e.state.isLeased) = true →
      Entry.Free e := by
    intro c e hc he
    rcases Bool.or_eq_true_iff.1 he with he | he
    · exact .inl he
    · exact hou.free_of_leased hc he fun r p hr _ => hfailed r p hr
  obtain ⟨hw', hreq, hent⟩ := (closeWhere_does hou reason _ hfree).2 v hv
  have hov : Owned v := Guard.inv_weak (g := total) hw' hou
  have hhalted : Halted v := (hw.trans hw').invariant (A := fun _ => True) (P := Halted)
    (fun _ _ _ _ ht hv => ht.step hv) (fun _ _ => trivial) ⟨rfl, rfl⟩
  refine ⟨⟨hhalted, ?_, fun c e hc => ?_⟩, (?_ : AllFailed m₀ error v.touch).of_eq rfl rfl⟩
  · intro r p hr
    exact hfailed r p (hreq ▸ hr)
  · rcases hent c e hc with hcl | ⟨hc', hno⟩
    · exact .inr hcl
    · cases he : e.state with
      | opening o =>
        -- no request opens a connection any more, so this one is cancelled
        have hnone : o.request = none := by
          cases ho : o.request with
          | none => rfl
          | some r =>
            obtain ⟨p, hr, hp⟩ := hov.request_of_opening hc he ho
            obtain ⟨error, hp'⟩ := hfailed r p (hreq ▸ hr)
            rw [hp] at hp'
            cases hp'
        have hok := hov.entry_ok c e hc
        simp only [Entry.Ok, he, hnone, Option.isSome_none, Bool.false_eq_true, false_and,
          false_or, true_and] at hok
        exact .inl ⟨o, he, hok.2, hok.1, hnone⟩
      | closing => exact .inr (by rw [he]; rfl)
      | _ =>
        rw [he] at hno
        cases hno
  · intro r
    have : v.touch.requests.get? r = u.requests.get? r := by
      rw [← hreq]
      rfl
    rw [this, hfail r]

/-- The calls that stop the pool, and the error they give the requests. -/
inductive Stops : Call → Error → Prop
  | shutdown : Stops .shutdown .shutdown
  | driverLost : Stops .driverLost .driverLost

theorem Stops.stopped {error : Error} (hcall : Stops call error) (hs : Sound m) (hl : Linked m)
    (hstep : m.Step (call, out) t) : Stopped t ∧ AllFailed m error t := by
  cases hcall with
  | shutdown =>
    obtain ⟨u, hu, hx⟩ := Option.map_eq_some_iff.1 hstep
    cases hx
    exact stop_stopped hs hl hu
  | driverLost =>
    obtain ⟨u, hu, hx⟩ := Option.map_eq_some_iff.1 hstep
    cases hx
    have hs' : Sound { m with driverLost := true } :=
        ⟨hs.owned.of_eq rfl rfl rfl rfl rfl, hs.timely⟩
    obtain ⟨hstopped, hfailed⟩ := stop_stopped hs' hl hu
    exact ⟨hstopped, hfailed.of_eq rfl rfl⟩

/-! ### Runs -/

/-- A stopped pool over a run: it stays stopped, its requests keep their errors, and its
connections are those that have not been acknowledged. -/
theorem stopped_run (hs : Sound m) (h : Stopped m) (hrun : Run (StepUnder NoRetirement) m tr t) :
    Sound t ∧ Stopped t ∧
      (∀ r p, t.requests.get? r = some p →
        ∃ q, m.requests.get? r = some q ∧ p.state = q.state) ∧
      ∀ c, (t.entries.get? c).isSome = true ↔ (m.entries.get? c).isSome = true ∧
        ∀ x ∈ historyOf c tr, x.leaves = false := by
  refine hrun.invariant (P := fun tr t => Sound t ∧ Stopped t ∧
    (∀ r p, t.requests.get? r = some p → ∃ q, m.requests.get? r = some q ∧ p.state = q.state) ∧
    ∀ c, (t.entries.get? c).isSome = true ↔ (m.entries.get? c).isSome = true ∧
      ∀ x ∈ historyOf c tr, x.leaves = false) ?_ ?_
  · exact ⟨hs, h, fun r p hr => ⟨p, hr, rfl⟩, fun c => by simp [historyOf]⟩
  · rintro tr u ⟨call, out⟩ v - ⟨hu, hstop, hreq, hent⟩ ⟨hcall, hstep⟩
    obtain ⟨marks, henter, hw, hshow⟩ := call_weak hu hstep
    obtain ⟨hstop', hsame, hsame'⟩ := hstop.entered henter
    refine ⟨hu.step hstep, hstop'.weak hw, ?_, fun c => ?_⟩
    · refine (hw.invariant (A := fun _ => True) (P := fun t => Stopped t ∧
        ∀ r p, t.requests.get? r = some p → ∃ q, m.requests.get? r = some q ∧ p.state = q.state)
        (fun a k b _ ha hv => ⟨ha.1.step hv, fun r p hr => ?_⟩) (fun _ _ => trivial)
        ⟨hstop', by rw [hsame]; exact hreq⟩).2
      obtain ⟨p', hp', heq⟩ := ha.1.keeps hv hr
      obtain ⟨q, hq, heq'⟩ := ha.2 r p' hp'
      exact ⟨q, hq, heq.trans heq'⟩
    · rw [hstop'.present_weak hw c, hsame', hent c, (hshow.events hcall).1, historyOf_append,
        List.forall_mem_append, and_assoc]

/-- A stopped pool hands out no connect command. -/
theorem Stopped.no_connect (hs : Sound m) (h : Stopped m) {action : Action}
    (hstep : m.Step (.nextAction, .offered (some action)) t) : action.event.2 ≠ .connect := by
  intro hconnect
  obtain ⟨marks, -, hw, hshow⟩ := call_weak hs hstep
  have hmarks : marks = [.event action.event.1 action.event.2] := hshow
  rw [hmarks, hconnect] at hw
  obtain ⟨u, v, hw₁, hv, -⟩ := hw.split_singleton
  have hu := Stopped.weak (m := m) h hw₁
  have hch := hv.entryChange
  revert hch
  generalize v.entries = es, v.connectionSerial = serial
  intro hch
  cases hch with
  | become hc hb =>
    cases hb with
    | connect he hclock =>
      have := hu.dispatched hc he
      rw [hclock] at this
      cases this
  | leave hc hl => cases hl

theorem shutdownComplete_iff (h : m.stopped = true) :
    m.shutdownComplete = true ↔ ∀ c, (m.entries.get? c).isSome = false := by
  rw [shutdownComplete, h, Bool.true_and, decide_eq_true_eq, SortedMap.size,
    List.length_eq_zero_iff]
  constructor
  · intro hnil c
    rw [Option.isSome_eq_false_iff, Option.isNone_iff_eq_none]
    cases hc : m.entries.get? c with
    | none => rfl
    | some e =>
      have := (SortedMap.mem_toList _).2 hc
      rw [hnil] at this
      cases this
  · intro hnone
    refine List.eq_nil_iff_forall_not_mem.2 ?_
    rintro ⟨c, e⟩ hmem
    have := hnone c
    rw [(SortedMap.mem_toList _).1 hmem] at this
    cases this

/-- The error of a request that had not failed: the record of the shared setup clock it opens its
connection under, if there is one, and else the error of the call. -/
theorem failure_of_unfailed {error : Error} (hp : ∀ error, p.state ≠ .failed error) :
    (∀ c clock, p.state = .opening c → m.sharedSetupClock c = some clock →
      m.failure error p = .setupEnded (clock.terminate (setupCause error)).2) ∧
    ((∀ c, p.state = .opening c → m.sharedSetupClock c = none) → m.failure error p = error) := by
  constructor
  · intro c clock hc hclock
    simp only [failure, hc, arbitrateSetupError, hclock]
  · intro hnone
    cases hs : p.state with
    | failed x => exact absurd hs (hp x)
    | opening c => simp only [failure, hs, arbitrateSetupError, hnone c hs]
    | waiting => simp only [failure, hs]
    | ready l => simp only [failure, hs]

/-- After `shutdown` or `driver_lost`, in runs that retire no scope: every request that had not
failed fails with the stop's error, or with the record of the shared setup clock if it was opening
under one (`failure`), and keeps it; nothing is held, no connection is added, those that are left
are cancelled dials or close; no request becomes ready and no connect command is handed out; and
the shutdown is complete exactly when the end of every connection left at the stop has been
acknowledged. -/
theorem stop_drains {config : Config} {poolId : ℕ}
    (h : Run (StepUnder NoRetirement) (fresh config poolId) tr m) {error : Error}
    (hcall : Stops call error) (hstep : m.Step (call, out) t) :
    (∀ r p, m.requests.get? r = some p →
      ∃ q, t.requests.get? r = some q ∧ q.state = .failed (m.failure error p)) ∧
    (∀ p, (∀ error, p.state ≠ .failed error) →
      (∀ c clock, p.state = .opening c → m.sharedSetupClock c = some clock →
        m.failure error p = .setupEnded (clock.terminate (setupCause error)).2) ∧
      ((∀ c, p.state = .opening c → m.sharedSetupClock c = none) → m.failure error p = error)) ∧
    ∀ tr' m₁, Run (StepUnder NoRetirement) t tr' m₁ →
      (∀ r p, m₁.requests.get? r = some p → ∃ q error, t.requests.get? r = some q ∧
        q.state = .failed error ∧ p.state = .failed error) ∧
      m₁.holds.size = 0 ∧
      (∀ c e, m₁.entries.get? c = some e → (t.entries.get? c).isSome = true ∧
        ((∃ o, e.state = .opening o ∧ o.clock.isSome = true ∧ o.cancel.isSome = true) ∨
          e.state.isClosing = true)) ∧
      (∀ x m₂, StepUnder NoRetirement m₁ x m₂ →
        (∀ r p l, ¬ BecomesReady m₁ m₂ r p l) ∧
        ∀ action, x = (.nextAction, .offered (some action)) → action.event.2 ≠ .connect) ∧
      (m₁.shutdownComplete = true ↔ ∀ c, (t.entries.get? c).isSome = true →
        ∃ x ∈ historyOf c tr', x.leaves = true) := by
  obtain ⟨hs, hl⟩ := linked_run (h.mono fun _ _ _ hx =>
    ⟨fun scope hscope => absurd hscope (hx.1 scope), hx.2⟩)
  obtain ⟨hstopped, hfailed⟩ := hcall.stopped hs hl hstep
  refine ⟨fun r p hr => ⟨_, (hfailed r).trans (by rw [hr, Option.map_some]), rfl⟩,
    fun p hp => failure_of_unfailed hp, fun tr' m₁ hrun => ?_⟩
  obtain ⟨hs₁, hstop₁, hreq, hent⟩ := stopped_run (hs.step hstep) hstopped hrun
  refine ⟨fun r p hr => ?_, hstop₁.halted.2, fun c e hc => ⟨?_, ?_⟩, fun x m₂ hx => ⟨?_, ?_⟩, ?_⟩
  · obtain ⟨q, hq, hsame⟩ := hreq r p hr
    obtain ⟨error', hq'⟩ := hstopped.failed r q hq
    exact ⟨q, error', hq, hq', hsame.trans hq'⟩
  · exact ((hent c).1 (by rw [hc]; rfl)).1
  · rcases hstop₁.drains c e hc with ⟨o, ho, hclock, hcancel, -⟩ | hcl
    · exact .inl ⟨o, ho, hclock, hcancel⟩
    · exact .inr hcl
  · rintro r p l ⟨hr, hp, -⟩
    obtain ⟨error', hp'⟩ := (stopped_run hs₁ hstop₁ (.single hx)).2.1.failed r p hr
    rw [hp] at hp'
    cases hp'
  · rintro action rfl
    exact hstop₁.no_connect hs₁ hx.2
  · rw [shutdownComplete_iff hstop₁.halted.1]
    constructor
    · intro hnone c hc
      by_contra hno
      push Not at hno
      have := (hent c).2 ⟨hc, fun x hx => by simpa using hno x hx⟩
      rw [hnone c] at this
      cases this
    · intro hall c
      by_contra hc
      obtain ⟨hct, hno⟩ := (hent c).1 (Bool.eq_true_of_not_eq_false hc)
      obtain ⟨x, hx, hleaves⟩ := hall c hct
      rw [hno x hx] at hleaves
      cases hleaves

/-- A dial is under way when the pool is shut down; the shutdown is complete when the adapter says
that the connect has failed. -/
theorem stop_drains_dial : ∃ tr m t tr' m₁,
    Run (StepUnder NoRetirement) (fresh .default 1) tr m ∧ m.Step (.shutdown, .done) t ∧
    Run (StepUnder NoRetirement) t tr' m₁ ∧ (t.entries.get? ⟨1, 1⟩).isSome = true ∧
    m₁.shutdownComplete = true ∧ ∀ c, (t.entries.get? c).isSome = true →
      ∃ x ∈ historyOf c tr', x.leaves = true := by
  obtain ⟨tr, m, hrun, hq⟩ := exists_run (m := fresh .default 1) noRetirement noRetirement_sound
    [.requestUntil sshRequest none, .nextAction]
    (fun _ m => m.shutdown.any fun t => (t.entries.get? ⟨1, 1⟩).isSome &&
      (t.replay noRetirement
        [.nextAction, .connected ⟨1, 1⟩ (.error ⟨.io, .none, none, none, none⟩)]).any
        fun x => x.2.shutdownComplete) (by decide +kernel)
  simp only [Option.any_eq_true, Bool.and_eq_true] at hq
  obtain ⟨t, ht, hpresent, hq⟩ := hq
  obtain ⟨tr', m₁, hrun', hcomplete⟩ := exists_run noRetirement noRetirement_sound _
    (fun _ m => m.shutdownComplete) ((Option.any_eq_true _ _).2 hq)
  have hstep : m.Step (.shutdown, .done) t := by simp [Step, PoolMachine.call, ht]
  exact ⟨tr, m, t, tr', m₁, hrun, hstep, hrun', hpresent, hcomplete,
    ((stop_drains hrun .shutdown hstep).2.2 tr' m₁ hrun').2.2.2.2.1 hcomplete⟩

/-- A request that opens its connection under a shared setup clock fails with the record of the
clock, not with the error of the shutdown. -/
theorem shared_setup_not_shutdown : ∃ tr m t p q,
    Run (StepUnder NoRetirement) (fresh .default 1) tr m ∧ m.Step (.shutdown, .done) t ∧
    m.requests.get? ⟨1, 1⟩ = some p ∧ p.state = .opening ⟨1, 1⟩ ∧
    t.requests.get? ⟨1, 1⟩ = some q ∧ q.state ≠ .failed .shutdown := by
  obtain ⟨tr, m, hrun, hq⟩ := exists_run (m := fresh .default 1) noRetirement noRetirement_sound
    [.requestUntil sshRequest none, .nextAction, .installSetupClock ⟨1, 1⟩ (fun _ => 0) 1000]
    (fun _ m => (m.requests.get? ⟨1, 1⟩).any (fun p => p.state == .opening ⟨1, 1⟩) &&
      m.shutdown.any fun t => (t.requests.get? ⟨1, 1⟩).any fun q => q.state != .failed .shutdown)
    (by decide +kernel)
  simp only [Option.any_eq_true, Bool.and_eq_true, beq_iff_eq, bne_iff_ne] at hq
  obtain ⟨⟨p, hr, hp⟩, t, ht, q, hr', hq⟩ := hq
  exact ⟨tr, m, t, p, q, hrun, by simp [Step, PoolMachine.call, ht], hr, hp, hr', hq⟩

end PoolMachine

end GwzTransport.Pool
