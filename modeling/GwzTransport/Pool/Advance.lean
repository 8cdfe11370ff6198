import GwzTransport.Pool.Replies

/-!
# `advance`

The new time enters first; then the requests that have run out of time fail, the idle connections
that have outlived theirs are closed, and only then holds lapse and waiting requests are served.
So when something is served, no request is late (`Timely`) and no idle connection is expired
(`Unexpired`).
-/

namespace GwzTransport.Pool

open Protocol MachineInt Transition

namespace PoolMachine

variable {m m' t : PoolMachine} {r : RequestId} {c : ConnectionId} {p : Pending} {e : Entry}
  {early : ℕ → Prop}

/-- A request that is there keeps to its deadlines along a run of moves. -/
theorem prompt_weak {marks : List Mark} (hw : Weak Move m marks m')
    (h : ∀ p, m.requests.get? r = some p → Prompt early m.entries r p) :
    ∀ p, m'.requests.get? r = some p → Prompt early m'.entries r p := by
  refine hw.invariant (A := fun _ => True)
    (P := fun t => ∀ p, t.requests.get? r = some p → Prompt early t.entries r p)
    (fun t k u _ ht hv p hp => ?_) (fun _ _ => trivial) h
  obtain ⟨q, hq, -, hkeep⟩ := hv.prompt early hp
  exact hkeep (ht q hq)

theorem Timely.weak {marks : List Mark} (h : Timely m) (hw : Weak Move m marks m') : Timely m' :=
  hw.invariant (A := fun _ => True) (fun _ _ _ _ ht hv => ht.step hv) (fun _ _ => trivial) h

theorem now_weak {marks : List Mark} (hw : Weak Move m marks m') :
    m'.now = m.now ∧ m'.config = m.config :=
  hw.invariant (A := fun _ => True) (P := fun t => t.now = m.now ∧ t.config = m.config)
    (fun _ _ _ _ ht hv => ⟨hv.now_eq.1.trans ht.1, hv.now_eq.2.trans ht.2⟩)
    (fun _ _ => trivial) ⟨rfl, rfl⟩

/-- The connection that opens for a request is the one the request points to. -/
theorem Owned.opening_of_request (h : Owned m) (hr : m.requests.get? r = some p) {o : Opening}
    (hc : m.entries.get? c = some e) (he : e.state = .opening o) (ho : o.request = some r) :
    p.state = .opening c ∧ o.cancel = none := by
  obtain ⟨q, hq, hs⟩ := h.request_of_opening hc he ho
  cases hr.symm.trans hq
  have hok := h.entry_ok c e hc
  simp only [Entry.Ok, he, ho] at hok
  rcases hok with hok | hok
  · exact ⟨hs, hok.2⟩
  · cases hok.1

/-- A request that points to no opening connection has no clock to keep to. -/
theorem Owned.prompt_of_idle (h : Owned m) (hr : m.requests.get? r = some p)
    (hs : Prompt (fun _ => True) m.entries r p) (hw : p.state ≠ .waiting)
    (ho : ∀ c, p.state ≠ .opening c) : Prompt early m.entries r p := by
  intro a ha
  refine ⟨(hs a ha).1, fun hp => absurd hp hw, fun c e o hc he hreq => ?_⟩
  exact absurd (h.opening_of_request hr hc he hreq).1 (ho c)

/-! ### The pass over the requests -/

/-- A request that the pass does not fail is in time. -/
theorem prompt_of_overdue (h : Owned m) (hr : m.requests.get? r = some p)
    (hs : Prompt (fun _ => True) m.entries r p) (ho : m.overdue p = some (t, none)) :
    Prompt (m.now < ·) m.entries r p := by
  cases hp : p.state with
  | waiting =>
    intro a ha
    simp only [overdue, hp] at ho
    split_ifs at ho with hlate
    · simp at ho
    · refine ⟨(hs a ha).1, fun _ => (not_le.1 hlate).trans_le (hs a ha).1, fun c e o hc he hq => ?_⟩
      have := (h.opening_of_request hr hc he hq).1
      rw [hp] at this
      cases this
  | opening c =>
    intro a ha
    refine ⟨(hs a ha).1, fun hw => (by rw [hp] at hw; cases hw), fun d e o hd he hq => ?_⟩
    obtain ⟨hpd, hcancel⟩ := h.opening_of_request hr hd he hq
    cases hp.symm.trans hpd
    have hclock := (hs a ha).2.2 c e o hd he hq
    obtain ⟨request, clock, networkMs, interactionMs, cancel⟩ := o
    cases hcancel
    simp only [overdue, hp, hd, Option.bind_eq_bind, Option.bind_some, he] at ho
    cases clock with
    | none =>
      simp only [Option.pure_def, Option.some.injEq, Prod.mk.injEq] at ho
      have hlate : ¬ m.now ≥ p.deadline := fun hge => by simp [hge] at ho
      exact (not_le.1 hlate).trans_le (hs a ha).1
    | some k =>
      cases k with
      | shared clock => exact .inl rfl
      | _ =>
        -- the pool's own clock has not run out
        obtain hshared | ⟨-, time, htime, hle⟩ := hclock
        · cases hshared
        · simp only [htime, Option.any_some, decide_eq_true_eq, ConnectClock.timeout,
            Option.bind_some, Option.pure_def] at ho
          split_ifs at ho with hlate
          · cases ho
          · exact .inr ⟨(not_le.1 hlate).trans_le hle, time, htime, hle⟩
  | ready l =>
    exact h.prompt_of_idle hr hs (by rw [hp]; nofun) (by rw [hp]; nofun)
  | failed error =>
    exact h.prompt_of_idle hr hs (by rw [hp]; nofun) (by rw [hp]; nofun)

/-- The pass reads clocks and changes nothing else. -/
theorem overdue_weak (hr : m.requests.get? r = some p) :
    (m.overdue p = none → ¬ Linked m) ∧ ∀ t error, m.overdue p = some (t, error) →
      Weak Move m [] t ∧ t.requests = m.requests ∧ t.leaseSerial = m.leaseSerial := by
  unfold overdue
  cases hp : p.state with
  | opening c =>
    have htie : p.tie = some (c, none, some p.request.owner) := by simp [Pending.tie, hp]
    dsimp only
    cases hc : m.entries.get? c with
    | none => exact ⟨fun _ hl => Linked.entry_ne_none hl hr htie hc, fun _ _ h => by cases h⟩
    | some e =>
      simp only [Option.bind_eq_bind, Option.bind_some]
      split
      · refine ⟨fun h => (by cases h), fun t error h => ?_⟩
        cases h
        exact ⟨.refl m, rfl, rfl⟩
      · rename_i he
        refine ⟨fun h => (by cases h), fun t error h => ?_⟩
        cases h
        refine ⟨sharedClock_weak hc he rfl, ?_, ?_⟩ <;> rw [putConnectClock_eq hc he] <;> rfl
      · rename_i clock _ _ hshared he
        split_ifs
        · have htimeout : ∃ error, clock.timeout = some error := by
            cases clock with
            | shared x => exact (hshared x rfl).elim
            | _ => exact ⟨_, rfl⟩
          obtain ⟨x, hx⟩ := htimeout
          simp only [hx, Option.bind_some, Option.pure_def]
          refine ⟨fun h => (by cases h), fun t error h => ?_⟩
          cases h
          exact ⟨.refl m, rfl, rfl⟩
        · refine ⟨fun h => (by cases h), fun t error h => ?_⟩
          cases h
          exact ⟨.refl m, rfl, rfl⟩
      · refine ⟨fun h => (by cases h), fun t error h => ?_⟩
        cases h
        exact ⟨.refl m, rfl, rfl⟩
  | _ =>
    refine ⟨fun h => (by cases h), fun t error h => ?_⟩
    cases h
    exact ⟨.refl m, rfl, rfl⟩

/-- All requests that the pass leaves out of its list are in time. -/
theorem collectExpired_spec (l : List (RequestId × Pending)) (h : Owned m)
    (hl : ∀ x ∈ l, m.requests.get? x.1 = some x.2) :
    (collectExpired l m = none → ¬ Linked m) ∧ ∀ t expired, collectExpired l m = some (t, expired) →
      Weak Move m [] t ∧ t.requests = m.requests ∧ t.leaseSerial = m.leaseSerial ∧
        ∀ x ∈ l, x.1 ∉ expired.map (·.1) → Prompt (fun _ => True) m.entries x.1 x.2 →
          Prompt (m.now < ·) t.entries x.1 x.2 := by
  induction l generalizing m with
  | nil =>
    refine ⟨fun hx => (by cases hx), fun t expired hx => ?_⟩
    cases hx
    exact ⟨.refl m, rfl, rfl, fun x hx => (by cases hx)⟩
  | cons x l ih =>
    obtain ⟨r, p⟩ := x
    have hr : m.requests.get? r = some p := hl (r, p) List.mem_cons_self
    obtain ⟨hfail, hread⟩ := overdue_weak hr
    simp only [collectExpired]
    cases hx : m.overdue p with
    | none => exact ⟨fun _ => hfail hx, fun _ _ hy => by cases hy⟩
    | some y =>
      obtain ⟨u, error⟩ := y
      obtain ⟨hw, hreq, hserial⟩ := hread u error hx
      have hu : Owned u := Guard.inv_weak (g := total) hw h
      obtain ⟨hfail', hrest⟩ := ih hu fun x hx => by
        rw [hreq]
        exact hl x (List.mem_cons_of_mem _ hx)
      simp only [Option.bind_eq_bind, Option.bind_some]
      cases hy : collectExpired l u with
      | none =>
        refine ⟨fun _ hlinked => hfail' hy ?_, fun _ _ hz => by cases hz⟩
        exact Guard.safe_weak (g := linked) hw h (by simp) hlinked
      | some z =>
        obtain ⟨t, expired⟩ := z
        obtain ⟨hw', hreq', hserial', hprompt⟩ := hrest t expired hy
        refine ⟨fun hz => (by cases hz), fun t' expired' hz => ?_⟩
        cases hz
        refine ⟨hw.trans hw', hreq'.trans hreq, hserial'.trans hserial, fun x hx' hnot hs => ?_⟩
        simp only [List.map_append, List.mem_append, not_or] at hnot
        rcases List.mem_cons.1 hx' with rfl | hmem
        · -- the first request was not put on the list
          cases error with
          | some error => simp at hnot
          | none =>
            refine prompt_weak (hw.trans hw') (fun q hq => ?_) p (by rw [hreq', hreq]; exact hr)
            cases hr.symm.trans hq
            exact prompt_of_overdue h hr hs hx
        · rw [← (now_weak hw).1]
          have hxr := hl x (List.mem_cons_of_mem _ hmem)
          refine hprompt x hmem hnot.2 (prompt_weak hw (fun q hq => ?_) x.2 (by rw [hreq, hxr]))
          cases hxr.symm.trans hq
          exact hs

/-- Once the late requests have failed, all requests are in time. -/
theorem failExpired_does (l : List (RequestId × Error)) (h : Owned m)
    (hs : ∀ r p, m.requests.get? r = some p → Prompt (fun _ => True) m.entries r p)
    (hl : ∀ r p, m.requests.get? r = some p → r ∈ l.map (·.1) ∨ Prompt (m.now < ·) m.entries r p) :
    linked.Does m [] (l.foldlM (fun m x => (m.failRequest x.1 x.2 .cancelled).map (·.1)) m)
      fun t => Timely t ∧ t.leaseSerial = m.leaseSerial := by
  refine (Guard.Does.foldlM (I := fun l t =>
    (∀ r p, t.requests.get? r = some p → Prompt (fun _ => True) t.entries r p) ∧
    (∀ r p, t.requests.get? r = some p → r ∈ l.map (·.1) ∨ Prompt (t.now < ·) t.entries r p) ∧
    t.leaseSerial = m.leaseSerial) ?_ l m h ⟨hs, hl, rfl⟩).mono
    fun t ht => ⟨fun r p hr => (ht.2.1 r p hr).resolve_left nofun, ht.2.2⟩
  rintro ⟨i, error⟩ l t ht ⟨hs, hl, hserial⟩
  refine ((failRequest_does ht i error .cancelled).traced.of_inv ht).mono fun u ⟨hu, hw, hf⟩ => ?_
  have hs' : ∀ r p, u.requests.get? r = some p → Prompt (fun _ => True) u.entries r p :=
    fun r => prompt_weak hw (hs r)
  refine ⟨hs', fun r p hr => ?_, hf.serial.trans hserial⟩
  by_cases hri : r = i
  · -- it has failed: there is nothing left to be in time for
    subst hri
    obtain ⟨x, hx⟩ := hf.settled p hr
    exact .inr (hu.prompt_of_idle hr (hs' r p hr) (by rw [hx]; nofun) (by rw [hx]; nofun))
  · have hr' := hf.others r hri ▸ hr
    rcases hl r p hr' with hmem | hprompt
    · rw [List.map_cons, List.mem_cons] at hmem
      exact .inl (hmem.resolve_left hri)
    · right
      rw [(now_weak hw).1]
      refine prompt_weak hw (fun q hq => ?_) p hr
      cases hr'.symm.trans hq
      exact hprompt

/-! ### The pass over the idle connections -/

/-- No idle connection is past its idle time or its age. -/
def Unexpired (m : PoolMachine) : Prop :=
  ∀ c e since, m.entries.get? c = some e → e.state = .idle since →
    m.now < since + m.config.idleTimeoutMs ∧ m.now < e.born + m.config.maxAgeMs

theorem lt_of_not_satAdd_le {a b n : ℕ} (h : ¬ satAdd a b ≤ n) : n < a + b := by
  unfold satAdd at h
  omega

theorem closeExpired_does (h : Owned m) :
    total.Does m [] ((m.entries.toList.filterMap fun x => (m.idleReason x.2).map fun r =>
      (x.1, r)).foldlM
      (fun m x => m.startClosing x.1 x.2) m) fun t =>
        Unexpired t ∧ t.leaseSerial = m.leaseSerial := by
  set l := m.entries.toList.filterMap fun x => (m.idleReason x.2).map fun r => (x.1, r) with hl
  have hmem : ∀ c, c ∈ l.map (·.1) ↔ ∃ e, m.entries.get? c = some e ∧ (m.idleReason e).isSome := by
    intro c
    simp only [hl, List.mem_map, List.mem_filterMap, Option.map_eq_some_iff]
    constructor
    · rintro ⟨_, ⟨⟨d, e⟩, hd, reason, hreason, rfl⟩, rfl⟩
      exact ⟨e, (SortedMap.mem_toList _).1 hd, by simp [hreason]⟩
    · rintro ⟨e, hc, hreason⟩
      obtain ⟨reason, hreason⟩ := Option.isSome_iff_exists.1 hreason
      exact ⟨(c, reason), ⟨(c, e), (SortedMap.mem_toList _).2 hc, reason, hreason, rfl⟩, rfl⟩
  have hn : (l.map fun x => x.1).Nodup := by
    -- the keys of the list are among the sorted keys of the map
    have hkeys : (l.map fun x => x.1).Sublist (m.entries.toList.map (·.1)) := by
      rw [hl]
      induction m.entries.toList with
      | nil => exact .refl _
      | cons x xs ih =>
        cases hx : m.idleReason x.2 with
        | none => simpa [List.filterMap_cons, hx] using ih.cons x.1
        | some reason => simpa [List.filterMap_cons, hx] using ih.cons_cons x.1
    exact (List.pairwise_map.2 (m.entries.sorted.imp ne_of_lt)).sublist hkeys
  have hfree : ∀ c ∈ l.map (fun x => x.1), ∃ e, m.entries.get? c = some e ∧ Entry.Free e := by
    intro c hc
    obtain ⟨e, hc, hreason⟩ := (hmem c).1 hc
    refine ⟨e, hc, .inl ?_⟩
    cases hs : e.state <;> simp_all [idleReason, State.isIdle]
  refine (closeEach_does (fun x => x.1) (fun x => x.2) l h hn hfree).traced.mono fun t ht => ?_
  obtain ⟨hw, hreq, hout, hin⟩ := ht
  refine ⟨?_, hreq.2⟩
  intro c e since hc he
  by_cases hcl : c ∈ l.map (·.1)
  · obtain ⟨e', hc', hclosing⟩ := hin c hcl
    cases hc'.symm.trans hc
    rw [he] at hclosing
    cases hclosing
  · rw [hout c hcl] at hc
    have hnone : m.idleReason e = none := by
      by_contra hsome
      exact hcl ((hmem c).2 ⟨e, hc, Option.isSome_iff_ne_none.2 hsome⟩)
    simp only [idleReason, he] at hnone
    split_ifs at hnone with hidle hage
    rw [(now_weak hw).1, (now_weak hw).2]
    simp only [aged, decide_eq_true_eq] at hage
    exact ⟨lt_of_not_satAdd_le hidle, lt_of_not_satAdd_le hage⟩

/-! ### The call -/

theorem advance_does (h : Owned m) (ht : Timely m) {now : ℕ} (hnow : m.now ≤ now) :
    linked.Does { m with now } [] (m.advance now) fun t => Timely t ∧
      (∃ u, Weak Move { m with now } [] u ∧ u.leaseSerial = m.leaseSerial ∧ Unexpired u ∧
        Weak Move u [] t) ∧
      ∃ u a, Owned u ∧ u.schedule = some a ∧ (t = a ∨ t = a.touch) := by
  have h₀ : Owned { m with now } := h.of_eq rfl rfl rfl rfl rfl
  have hs : ∀ r p, m.requests.get? r = some p → Prompt (fun _ => True) m.entries r p := by
    intro r p hr a ha
    refine ⟨(ht r p hr a ha).1, fun _ => trivial, fun c e o hc he ho => ?_⟩
    have := (ht r p hr a ha).2.2 c e o hc he ho
    cases hk : o.clock with
    | none => trivial
    | some k =>
      rw [hk] at this
      exact this.imp_right fun x => ⟨trivial, x.2⟩
  obtain ⟨hfail, hcollect⟩ := collectExpired_spec m.requests.toList h₀
    fun x hx => (SortedMap.mem_toList _).1 hx
  unfold advance
  rw [if_neg (not_lt.2 hnow)]
  cases hx : collectExpired m.requests.toList { m with now := now } with
  | none => exact ⟨fun _ => hfail hx, fun _ hy => by cases hy⟩
  | some x =>
    obtain ⟨t, expired⟩ := x
    obtain ⟨hw, hreq, hserial, hprompt⟩ := hcollect t expired hx
    have ht₁ : Owned t := Guard.inv_weak (g := total) hw h₀
    have hs₁ : ∀ r p, t.requests.get? r = some p → Prompt (fun _ => True) t.entries r p :=
      fun r => prompt_weak hw (hs r)
    refine .after_silent h₀ hw (.bind ht₁ (failExpired_does expired ht₁ hs₁ fun r p hr => ?_).traced
      fun u hu hq => ?_)
    · by_cases hmem : r ∈ expired.map (·.1)
      · exact .inl hmem
      · right
        rw [(now_weak hw).1]
        rw [hreq] at hr
        exact hprompt (r, p) ((SortedMap.mem_toList _).2 hr) hmem (hs r p hr)
    · obtain ⟨hw₁, htimely, hserial₁⟩ := hq
      refine .bind hu (linked_of_total (closeExpired_does hu)).traced fun v hv hq => ?_
      obtain ⟨hw₂, hfresh, hserial₂⟩ := hq
      have hlapsed : Owned v.lapseHolds := Guard.inv_weak (g := total) (lapseHolds_weak v) hv
      have hlast : linked.Does v [] (v.lapseHolds.schedule.map fun w =>
          if (w.revision = m.revision && decide (m.now < w.now) &&
            w.cleanupDeadlineCrossed m.now w.now) = true then w.touch else w) fun t =>
          ∃ a, v.lapseHolds.schedule = some a ∧ (t = a ∨ t = a.touch) := by
        refine .map hv (.after_silent hv (lapseHolds_weak v)
          (linked_of_total (schedule_does _).result)) fun w _ hw => ?_
        split_ifs
        · exact ⟨weak_touch w, w, hw.1, .inr rfl⟩
        · exact ⟨.refl w, w, hw.1, .inl rfl⟩
      rw [Option.map_eq_bind] at hlast
      refine hlast.traced.mono fun w hw₃ =>
        ⟨(htimely.weak hw₂).weak hw₃.1, ⟨v, ?_, ?_, hfresh, hw₃.1⟩, ?_⟩
      · exact hw.trans (hw₁.trans hw₂)
      · exact hserial₂.trans (hserial₁.trans hserial)
      · obtain ⟨a, ha, hw⟩ := hw₃.2
        exact ⟨_, a, hlapsed, ha, hw⟩

end PoolMachine

end GwzTransport.Pool
