import GwzTransport.Pool.Conserve

/-!
# First come, first served

`schedule` visits the waiting requests in the order of their numbers, and what keeps a request
waiting keeps every request waiting that asks for the same.  So, without settle times and
preferred connections, a request never gets a connection while an earlier one that asks for the
same is still waiting.

* `Request.Alike`: two requests that ask for the same;
* `Fifo`: the order among them;
* `Fifo.pass`: a pass of `schedule` over the waiting requests keeps the order;
* `first_come_first_served`: it holds in every run.
-/

namespace GwzTransport.Pool

open Protocol MachineInt Transition

/-- Two requests that ask for the same, for the same session. -/
structure Request.Alike (a b : Request) : Prop where
  key : b.key = a.key
  identity : b.identity = a.identity
  session : b.owner.session = a.owner.session
  limits : b.limits = a.limits
  fresh : b.fresh = a.fresh
  exclude : ∀ c, c ∈ b.exclude ↔ c ∈ a.exclude

namespace PoolMachine

variable {m t u : PoolMachine} {a b : Request} {r : RequestId} {p : Pending}
  {tr : List (Call × Outcome)} {call : Call} {out : Outcome}

/-! ### What keeps a request waiting -/

/-- No idle connection may be leased for the request, whatever it prefers. -/
def NoReuse (m : PoolMachine) (a : Request) : Prop :=
  a.fresh = true ∨ m.ownerFull a = true ∨
    ∀ c e, m.entries.get? c = some e → e.state.isIdle = true → compatible a c e = false

/-- No connection may be opened for the request, whatever it prefers. -/
def NoRoom (m : PoolMachine) (a : Request) : Prop := m.ownerFull a = true ∨ m.boundFull a = true

theorem NoReuse.mono (hf : Fills m t) (h : NoReuse m a) : NoReuse t a := by
  rcases h with h | h | h
  · exact .inl h
  · exact .inr (.inl (hf.ownerFull h))
  · exact .inr (.inr fun c e hc hi => h c e (hf.idle c e hc hi) hi)

theorem NoRoom.mono (hf : Fills m t) (h : NoRoom m a) : NoRoom t a :=
  h.imp hf.ownerFull hf.boundFull

theorem Alike.ceilings (h : a.Alike b) (m : PoolMachine) : m.ceilingsFor b = m.ceilingsFor a := by
  simp only [ceilingsFor, limitsOf, h.limits]

theorem Alike.ownerFull (h : a.Alike b) (m : PoolMachine) : m.ownerFull b = m.ownerFull a := by
  unfold PoolMachine.ownerFull limitsOf
  rw [h.limits, h.session, h.key]

theorem Alike.compatible (h : a.Alike b) (c : ConnectionId) (e : Entry) :
    compatible b c e = compatible a c e := by
  have hx : b.exclude.contains c = a.exclude.contains c := by
    rw [Bool.eq_iff_iff, List.contains_iff_mem, List.contains_iff_mem, h.exclude]
  simp only [PoolMachine.compatible, h.key, h.identity, hx]

theorem NoReuse.alike (h : a.Alike b) (hm : NoReuse m a) : NoReuse m b := by
  rcases hm with hm | hm | hm
  · exact .inl (h.fresh.trans hm)
  · exact .inr (.inl ((Alike.ownerFull h m).trans hm))
  · exact .inr (.inr fun c e hc hi => (Alike.compatible h c e).trans (hm c e hc hi))

theorem NoRoom.alike (h : a.Alike b) (hm : NoRoom m a) : NoRoom m b := by
  refine hm.imp (fun hm => (Alike.ownerFull h m).trans hm) fun hm => ?_
  simpa only [boundFull, Alike.ceilings h, h.key] using hm

/-- No request prefers a connection. -/
def Impartial (m : PoolMachine) : Prop :=
  ∀ r p, m.requests.get? r = some p → p.request.prefer = none

theorem Impartial.preferWaits (h : Impartial m) (r : RequestId) : m.preferWaits r = false := by
  unfold PoolMachine.preferWaits
  cases hr : m.requests.get? r with
  | none => rfl
  | some p => simp only [h r p hr]

theorem Impartial.unreusable_iff (h : Impartial m) : Unreusable m r p ↔ NoReuse m p.request := by
  simp [Unreusable, NoReuse, h.preferWaits r]

theorem Impartial.roomless_iff (h : Impartial m) : Roomless m r p ↔ NoRoom m p.request := by
  simp [Roomless, NoRoom, h.preferWaits r]

/-! ### One service -/

/-- Among requests that ask for the same, one that waits comes before none that has a connection. -/
def Fifo (m : PoolMachine) : Prop :=
  ∀ r₁ r₂ p₁ p₂, m.requests.get? r₁ = some p₁ → m.requests.get? r₂ = some p₂ →
    p₁.request.Alike p₂.request → r₁ < r₂ → p₁.state = .waiting → p₂.state.target = none

theorem Impartial.service (h : Impartial m) (hr : m.requests.get? r = some p)
    (hs : Service m r p t) : Impartial t := by
  intro j q hj
  by_cases hjr : j = r
  · subst hjr
    obtain ⟨state, eviction, hq⟩ := hs.served
    cases hq.symm.trans hj
    exact h j p hr
  · rw [hs.others hjr] at hj
    exact h j q hj

/-- Nobody who waits in front of the request asks for the same: it may be served. -/
theorem Fifo.service (h : Fifo m) (hr : m.requests.get? r = some p) (hs : Service m r p t)
    (hserved : ∀ q, t.requests.get? r = some q → q.state ≠ .waiting)
    (hfirst : ∀ j q, m.requests.get? j = some q → q.state = .waiting → j < r →
      ¬ q.request.Alike p.request) : Fifo t := by
  intro r₁ r₂ p₁ p₂ h₁ h₂ halike hlt hw
  have hne : r₁ ≠ r := by
    rintro rfl
    exact hserved p₁ h₁ hw
  rw [hs.others hne] at h₁
  by_cases hr₂ : r₂ = r
  · subst hr₂
    obtain ⟨state, eviction, hq⟩ := hs.served
    cases hq.symm.trans h₂
    exact absurd halike (hfirst r₁ p₁ h₁ hw hlt)
  · rw [hs.others hr₂] at h₂
    exact h r₁ r₂ p₁ p₂ h₁ h₂ halike hlt hw

/-! ### The passes of `schedule` -/

/-- A pass over the waiting requests in their order.  Whoever waits and is not in the rest of the
list is stuck, and then so is everybody behind who asks for the same. -/
theorem Fifo.pass {f : PoolMachine → RequestId → Option PoolMachine}
    {S : PoolMachine → Request → Prop} {I : List RequestId → PoolMachine → Prop}
    (hmono : ∀ m t a, Fills m t → S m a → S t a)
    (halike : ∀ m a b, a.Alike b → S m a → S m b)
    (hstay : ∀ l m r p, I (r :: l) m → m.requests.get? r = some p → S m p.request →
      f m r = some m)
    (hstep : ∀ l m r t, I (r :: l) m → f m r = some t → I l t ∧
      (t = m ∧ (∀ p, m.requests.get? r = some p → p.state = .waiting → S m p.request) ∨
        ∃ p, m.requests.get? r = some p ∧ Fills m t ∧ Service m r p t ∧
          ∀ q, t.requests.get? r = some q → q.state ≠ .waiting))
    {l : List RequestId} (hl : l.Pairwise (· < ·)) (hm : I l m) (h : Fifo m)
    (hrest : ∀ r p, m.requests.get? r = some p → p.state = .waiting →
      r ∈ l ∨ S m p.request)
    (hx : l.foldlM f m = some t) : Fifo t ∧ I [] t := by
  induction l generalizing m with
  | nil =>
    cases hx
    exact ⟨h, hm⟩
  | cons r l ih =>
    rw [List.foldlM_cons] at hx
    obtain ⟨u, hu, hlast⟩ := Option.bind_eq_some_iff.1 hx
    obtain ⟨hfirst, hl⟩ := List.pairwise_cons.1 hl
    obtain ⟨hiu, hcase⟩ := hstep l m r u hm hu
    rcases hcase with ⟨rfl, hstuck⟩ | ⟨p, hr, hfills, hservice, hserved⟩
    · refine ih hl hiu h (fun j q hj hq => ?_) hlast
      rcases hrest j q hj hq with hmem | hs
      · rcases List.mem_cons.1 hmem with rfl | hmem
        · exact .inr (hstuck q hj hq)
        · exact .inl hmem
      · exact .inr hs
    · have hfifo : Fifo u := by
        by_cases hs : S m p.request
        · cases (hstay l m r p hm hr hs).symm.trans hu
          exact h
        · refine h.service hr hservice hserved fun j q hj hq hlt ha => ?_
          rcases hrest j q hj hq with hmem | hsj
          · -- who is in front of the request is not in the list any more
            rcases List.mem_cons.1 hmem with rfl | hmem
            · exact lt_irrefl j hlt
            · exact lt_asymm hlt (hfirst j hmem)
          · exact hs (halike m _ _ ha hsj)
      refine ih hl hiu hfifo (fun j q hj hq => ?_) hlast
      have hjr : j ≠ r := by
        rintro rfl
        exact hserved q hj hq
      rw [hservice.others hjr] at hj
      rcases hrest j q hj hq with hmem | hs
      · exact .inl ((List.mem_cons.1 hmem).resolve_left hjr)
      · exact .inr (hmono m u _ hfills hs)

theorem Fifo.reuse {l : List RequestId} (hl : l.Pairwise (· < ·)) (ho : Owned m)
    (hm : Impartial m) (h : Fifo m)
    (hwait : ∀ r ∈ l, ∃ p, m.requests.get? r = some p ∧ p.state = .waiting)
    (hall : ∀ r p, m.requests.get? r = some p → p.state = .waiting → r ∈ l)
    (hx : l.foldlM reuseFor m = some t) : Fifo t := by
  refine (Fifo.pass (S := NoReuse) (I := fun l m => (Owned m ∧ Impartial m) ∧ l.Nodup ∧
      ∀ r ∈ l, ∃ p, m.requests.get? r = some p ∧ p.state = .waiting)
    (fun _ _ _ => NoReuse.mono) (fun _ _ _ => NoReuse.alike)
    (fun _ m r p hm hr hs => reuseFor_eq hr (hm.1.2.unreusable_iff.2 hs))
    (fun l m r t hm hx => ?_) hl ⟨⟨ho, hm⟩, hl.imp ne_of_lt, hwait⟩ h
    (fun r p hr hp => .inl (hall r p hr hp)) hx).1
  obtain ⟨⟨ho, himp⟩, hn, hwait⟩ := hm
  obtain ⟨hnot, hn⟩ := List.nodup_cons.1 hn
  obtain ⟨p, hr, hp⟩ := hwait r List.mem_cons_self
  obtain ⟨u, hu, hcase⟩ := reuseFor_cases hr
  cases hx.symm.trans hu
  rcases hcase with ⟨rfl, hstuck⟩ | ⟨hservice, hserved⟩
  · refine ⟨⟨⟨ho, himp⟩, hn, fun j hj => hwait j (List.mem_cons_of_mem _ hj)⟩,
      .inl ⟨rfl, fun q hq _ => ?_⟩⟩
    cases hr.symm.trans hq
    exact himp.unreusable_iff.1 hstuck
  · refine ⟨⟨⟨Guard.inv_weak (g := total) (hservice.weak hr hp) ho, himp.service hr hservice⟩, hn,
      fun j hj => ?_⟩, .inr ⟨p, hr, (hservice.serves ho).fills, hservice, hserved⟩⟩
    rw [hservice.others fun hjr => hnot (hjr ▸ hj)]
    exact hwait j (List.mem_cons_of_mem _ hj)

theorem Fifo.openEach {l : List RequestId} (hl : l.Pairwise (· < ·)) (ho : Owned m)
    (hm : Impartial m) (h : Fifo m)
    (hall : ∀ r p, m.requests.get? r = some p → p.state = .waiting → r ∈ l) :
    Fifo (l.foldl openFor m) := by
  refine (Fifo.pass (S := NoRoom) (I := fun _ m => Owned m ∧ Impartial m)
    (f := fun m r => some (m.openFor r)) (t := l.foldl openFor m)
    (fun _ _ _ => NoRoom.mono) (fun _ _ _ => NoRoom.alike)
    (fun _ m r p hm hr hs => congrArg some (openFor_eq hr (hm.2.roomless_iff.2 hs)))
    (fun _ m r t hm hx => ?_) hl ⟨ho, hm⟩ h (fun r p hr hp => .inl (hall r p hr hp))
    List.foldlM_pure).1
  cases hx
  rcases openFor_cases m r with ⟨hsame, hroom⟩ | ⟨p, hr, hp, hservice, hserved⟩
  · rw [hsame]
    exact ⟨hm, .inl ⟨rfl, fun q hq hw => hm.2.roomless_iff.1 (hroom q hq hw)⟩⟩
  · exact ⟨⟨Guard.inv_weak (g := total) (hservice.weak hr hp) hm.1, hm.2.service hr hservice⟩,
      .inr ⟨p, hr, (hservice.serves hm.1).fills, hservice, hserved⟩⟩

/-- An eviction serves nobody yet. -/
theorem Fifo.evictFor (h : Fifo m) (hx : m.evictFor r = some t) : Fifo t := by
  obtain ⟨p, hr, -⟩ := Option.bind_eq_some_iff.1 hx
  obtain ⟨u, hu, hcase⟩ := evictFor_cases hr
  cases hx.symm.trans hu
  rcases hcase with ⟨rfl, -⟩ | ⟨-, hservice, hwaits⟩
  · exact h
  · -- every request has the state it had
    have hback : ∀ j q, t.requests.get? j = some q →
        ∃ q₀, m.requests.get? j = some q₀ ∧ q.request = q₀.request ∧ q.state = q₀.state := by
      intro j q hj
      by_cases hjr : j = r
      · subst hjr
        obtain ⟨c, rfl, -⟩ := hservice.waits hj (hwaits q hj)
        exact ⟨p, hr, rfl, rfl⟩
      · exact ⟨q, (hservice.others hjr).symm.trans hj, rfl, rfl⟩
    intro r₁ r₂ p₁ p₂ h₁ h₂ halike hlt hw
    obtain ⟨q₁, hq₁, hreq₁, hs₁⟩ := hback r₁ p₁ h₁
    obtain ⟨q₂, hq₂, hreq₂, hs₂⟩ := hback r₂ p₂ h₂
    rw [hreq₁, hreq₂] at halike
    rw [hs₂]
    exact h r₁ r₂ q₁ q₂ hq₁ hq₂ halike hlt (hs₁.symm.trans hw)

theorem Fifo.evictEach {l : List RequestId} (h : Fifo m)
    (hx : l.foldlM PoolMachine.evictFor m = some t) : Fifo t := by
  induction l generalizing m with
  | nil =>
    cases hx
    exact h
  | cons r l ih =>
    rw [List.foldlM_cons] at hx
    obtain ⟨u, hu, hx⟩ := Option.bind_eq_some_iff.1 hx
    exact ih (h.evictFor hu) hx

theorem Impartial.scheduled (h : Impartial m) (hs : Scheduled m t) : Impartial t :=
  hs.invariant h fun _ _ hu ⟨_, _, hr, _, hservice⟩ => hu.service hr hservice

theorem Fifo.schedule (ho : Owned m) (hm : Impartial m) (h : Fifo m) (hx : m.schedule = some t) :
    Fifo t := by
  unfold PoolMachine.schedule at hx
  split_ifs at hx
  · cases hx
    exact h
  · obtain ⟨u, hu, hx⟩ := Option.bind_eq_some_iff.1 hx
    have hl := m.requests.pairwise_keysWhere fun _ p => p.state == .waiting
    obtain ⟨v, hv, hreuse⟩ := reuseEach_scheduled (SortedMap.nodup_keysWhere _ _)
      m.waiting_of_mem
    cases hu.symm.trans hv
    have hfifo := h.reuse hl ho hm m.waiting_of_mem (fun r p hr hp => mem_waiting hr hp) hu
    refine (hfifo.openEach hl (Guard.inv_weak (g := total) hreuse.weak ho) (hm.scheduled hreuse)
      fun r p hr hp => ?_).evictEach hx
    obtain ⟨eviction, hr⟩ := hreuse.waiting_origin hr hp
    exact mem_waiting hr hp

/-! ### The calls -/

/-- The order among the requests, with what it rests on. -/
structure InOrder (m : PoolMachine) : Prop where
  impartial : Impartial m
  unsettled : Unsettled m
  fifo : Fifo m

theorem InOrder.prepares (h : InOrder m) (hp : Prepares m t) : InOrder t where
  impartial r p hr := by
    obtain ⟨q, hq, hqp⟩ := hp.requests r p hr
    rw [hqp.request]
    exact h.impartial r q hq
  unsettled := hp.unsettled h.unsettled
  fifo r₁ r₂ p₁ p₂ h₁ h₂ halike hlt hw := by
    obtain ⟨q₁, hq₁, hqp₁⟩ := hp.requests r₁ p₁ h₁
    obtain ⟨q₂, hq₂, hqp₂⟩ := hp.requests r₂ p₂ h₂
    rw [hqp₁.request, hqp₂.request] at halike
    have hnone := h.fifo r₁ r₂ q₁ q₂ hq₁ hq₂ halike hlt (hqp₁.waiting hw)
    by_contra htarget
    exact hqp₂.target htarget hnone

theorem Unsettled.scheduled (h : Unsettled m) (hs : Scheduled m t) : Unsettled t := by
  refine hs.invariant h fun u v hu ⟨r, p, _, _, hservice⟩ => ?_
  cases hservice <;> exact hu

theorem InOrder.schedule (ho : Owned m) (h : InOrder m) (hx : m.schedule = some t) : InOrder t where
  impartial := h.impartial.scheduled (schedule_scheduled hx)
  unsettled := h.unsettled.scheduled (schedule_scheduled hx)
  fifo := h.fifo.schedule ho h.impartial hx

theorem InOrder.calm (h : InOrder m) (hc : Calm m t) : InOrder t :=
  h.prepares (.of_eq (fun r p hr => ⟨p, hc.requests r p hr, rfl, id, id⟩) hc.settles hc.fills.holds)

theorem Owned.lt_next (h : Owned m) (hr : m.requests.get? r = some p) :
    r < ⟨m.poolId, m.requestSerial + 1⟩ := by
  obtain ⟨hpool, hserial⟩ := h.request_id r p hr
  refine Prod.Lex.toLex_lt_toLex.2 (.inr ⟨hpool, ?_⟩)
  exact Nat.lt_succ_of_le hserial

/-- The new request comes last, and waits. -/
theorem InOrder.enter (ho : Owned m) (h : InOrder m) {request : Request}
    (hprefer : request.prefer = none) (absolute : Option ℕ) :
    InOrder (m.enter request absolute) where
  impartial := SortedMap.forall_insert _ h.impartial hprefer
  unsettled := h.unsettled
  fifo r₁ r₂ p₁ p₂ h₁ h₂ halike hlt hw := by
    have hcases : ∀ {j q}, (m.enter request absolute).requests.get? j = some q →
        j = ⟨m.poolId, m.requestSerial + 1⟩ ∧ q.state = .waiting ∨ m.requests.get? j = some q := by
      intro j q hj
      have hj : (m.requests.insert ⟨m.poolId, m.requestSerial + 1⟩
        (m.pending request absolute)).get? j = some q := hj
      rw [SortedMap.get?_insert] at hj
      split_ifs at hj with hjr
      · cases hj
        exact .inl ⟨hjr, rfl⟩
      · exact .inr hj
    rcases hcases h₂ with ⟨rfl, hs⟩ | h₂
    · rw [hs]
      rfl
    · rcases hcases h₁ with ⟨rfl, -⟩ | h₁
      · exact absurd (ho.lt_next h₂) (lt_asymm hlt)
      · exact h.fifo r₁ r₂ p₁ p₂ h₁ h₂ halike hlt hw

theorem lapseHolds_of_empty (h : m.holds = .empty) : m.lapseHolds = m := by
  simp [lapseHolds, h, SortedMap.empty]

/-- A call that sets no settle time and prefers no connection. -/
def Fair (_ : PoolMachine) (call : Call) : Prop :=
  (∀ request absolute, call = .requestUntil request absolute → request.prefer = none) ∧
    ∀ site milliseconds, call = .setSettle site milliseconds → milliseconds = 0

/-- Where no request prefers a connection, none waits for the one that gains a scope. -/
theorem Impartial.keepsPreference (h : Impartial m) (call : Call) : KeepsPreference m call :=
  fun _ _ _ _ _ _ _ _ r _ _ _ _ => h.preferWaits r

theorem InOrder.prelude (ho : Owned m) (h : InOrder m) (hfair : Fair m call)
    (hp : Prelude m call u) : InOrder u := by
  cases hp with
  | enter request absolute => exact h.enter ho (hfair.1 request absolute rfl) absolute
  | prepares hp => exact h.prepares hp
  | lapse hp =>
    have hlast := h.prepares hp
    rwa [lapseHolds_of_empty hlast.unsettled.2]

theorem InOrder.step (hs : Sound m) (h : InOrder m) (hfair : Fair m call)
    (hstep : m.Step (call, out) t) : InOrder t := by
  cases call_ends hs (h.impartial.keepsPreference call) hstep with
  | calm hc => exact h.calm hc
  | settles hc settles revision hmem =>
    have hzero := hfair.2 _ _ hc
    refine ⟨h.impartial, ⟨fun x hx => ?_, h.unsettled.2⟩, h.fifo⟩
    rcases hmem x hx with hx | hx
    · exact hx.trans hzero
    · exact h.unsettled.1 x hx
  | scheduled hp hu hx ha => exact ((h.prelude hs.owned hfair hp).schedule hu hx).calm ha
  | stopped _ hp => exact h.prepares hp

theorem inOrder_run {config : Config} {poolId : ℕ}
    (h : Run (StepUnder Fair) (fresh config poolId) tr m) : Sound m ∧ InOrder m := by
  refine h.invariant (P := fun _ m => Sound m ∧ InOrder m)
    ⟨sound_fresh config poolId, fun _ _ hr => (by cases hr), ⟨fun _ hx => (by cases hx), rfl⟩,
      fun _ _ _ _ hr => (by cases hr)⟩ ?_
  rintro _ m ⟨call, out⟩ t - ⟨hs, hm⟩ ⟨hfair, hstep⟩
  exact ⟨hs.step hstep, hm.step hs hfair hstep⟩

/-- In every run without settle times and without preferred connections: of two requests that ask
for the same, the later one is neither opening nor ready while the earlier one is waiting.  The
later one is the one with the greater number, for a new request gets a number above all others. -/
theorem first_come_first_served {config : Config} {poolId : ℕ}
    (h : Run (StepUnder Fair) (fresh config poolId) tr m) :
    (∀ r₁ r₂ p₁ p₂, m.requests.get? r₁ = some p₁ → m.requests.get? r₂ = some p₂ →
      p₁.request.Alike p₂.request → r₁ < r₂ → p₁.state = .waiting →
        (∀ c, p₂.state ≠ .opening c) ∧ ∀ l, p₂.state ≠ .ready l) ∧
    ∀ request absolute r t, m.Step (.requestUntil request absolute, .requested (.ok r)) t →
      ∀ j p, m.requests.get? j = some p → j < r := by
  obtain ⟨hs, hm⟩ := inOrder_run h
  refine ⟨fun r₁ r₂ p₁ p₂ h₁ h₂ halike hlt hw => ?_, fun request absolute r t hstep j p hj => ?_⟩
  · have hnone := hm.fifo r₁ r₂ p₁ p₂ h₁ h₂ halike hlt hw
    refine ⟨fun c hc => ?_, fun l hl => ?_⟩
    · rw [hc] at hnone
      cases hnone
    · rw [hl] at hnone
      cases hnone
  · obtain ⟨⟨u, result⟩, hx, hy⟩ := Option.map_eq_some_iff.1 hstep
    cases hy
    rw [(admitted_of_requestUntil hx).id_eq]
    exact hs.owned.lt_next hj

/-- `Fair` as a check. -/
def fair (_ : PoolMachine) : Call → Bool
  | .requestUntil request _ => request.prefer.isNone
  | .setSettle _ milliseconds => milliseconds == 0
  | _ => true

theorem fair_sound (m : PoolMachine) (call : Call) (h : m.fair call = true) : Fair m call := by
  constructor
  · rintro request absolute rfl
    exact Option.isNone_iff_eq_none.1 h
  · rintro site milliseconds rfl
    exact eq_of_beq h

/-- A site with room for one connection: of the two requests that wait for it, the later one does
not get it first. -/
theorem first_come_first_served_queue : ∃ tr m p₁ p₂,
    Run (StepUnder Fair) (fresh .default 1) tr m ∧
    m.requests.get? ⟨1, 2⟩ = some p₁ ∧ m.requests.get? ⟨1, 3⟩ = some p₂ ∧
    p₁.state = .waiting ∧ (∀ c, p₂.state ≠ .opening c) ∧ ∀ l, p₂.state ≠ .ready l := by
  obtain ⟨tr, m, hrun, hq⟩ := exists_run (m := fresh .default 1) fair fair_sound
    [.setLimit sshRequest.key.site 1, .requestUntil sshRequest none, .requestUntil sshRequest none,
      .requestUntil sshRequest none]
    (fun _ m => (m.requests.get? ⟨1, 2⟩).any (fun p =>
        p.state == .waiting && decide (p.request = sshRequest)) &&
      (m.requests.get? ⟨1, 3⟩).any fun p => decide (p.request = sshRequest)) (by decide +kernel)
  simp only [Option.any_eq_true, Bool.and_eq_true, beq_iff_eq, decide_eq_true_eq] at hq
  obtain ⟨⟨p₁, h₁, hw, hreq₁⟩, p₂, h₂, hreq₂⟩ := hq
  have halike : p₁.request.Alike p₂.request := by
    rw [hreq₁, hreq₂]
    exact ⟨rfl, rfl, rfl, rfl, rfl, fun _ => Iff.rfl⟩
  exact ⟨tr, m, p₁, p₂, hrun, h₁, h₂, hw,
    (first_come_first_served hrun).1 _ _ p₁ p₂ h₁ h₂ halike (by decide) hw⟩

end PoolMachine

end GwzTransport.Pool
