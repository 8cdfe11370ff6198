import GwzTransport.Pool.Work

/-!
# What the inner operations leave alone

The connections and requests that the serving of one waiting request (`Service`), a sequence of such
(`Scheduled`) and the failure of one request (`Failing`) do not touch.
-/

namespace GwzTransport.Pool

open Protocol MachineInt Transition Relation

/-! ### A connection is in one state -/

namespace State

variable {s : State}

theorem not_idle_of_closing (h : s.isClosing = true) : s.isIdle = false := by
  cases s with
  | closing => rfl
  | _ => cases h

theorem not_leased_of_closing (h : s.isClosing = true) : s.isLeased = false := by
  cases s with
  | closing => rfl
  | _ => cases h

theorem not_opening_of_closing (h : s.isClosing = true) : s.isOpening = false := by
  cases s with
  | closing => rfl
  | _ => cases h

theorem not_closing_of_leased (h : s.isLeased = true) : s.isClosing = false := by
  cases s with
  | leased => rfl
  | _ => cases h

theorem not_leased_of_opening (h : s.isOpening = true) : s.isLeased = false := by
  cases s with
  | opening => rfl
  | _ => cases h

theorem not_leased_of_idle (h : s.isIdle = true) : s.isLeased = false := by
  cases s with
  | idle => rfl
  | _ => cases h

theorem not_opening_of_idle (h : s.isIdle = true) : s.isOpening = false := by
  cases s with
  | idle => rfl
  | _ => cases h

end State

namespace PoolMachine

variable {m t u : PoolMachine} {c d : ConnectionId} {e : Entry} {r j : RequestId} {p : Pending}

/-! ### What serving leaves alone -/

theorem Service.serial_le (h : Service m r p t) : m.connectionSerial ≤ t.connectionSerial := by
  cases h with
  | reserve => exact Nat.le_succ _
  | _ => exact le_rfl

/-- The connection is not the one that comes next. -/
theorem ne_nextConnection (h : c.serial ≤ m.connectionSerial) : c ≠ m.nextConnection := by
  rintro rfl
  exact absurd h (Nat.not_succ_le_self _)

/-- A connection that is not idle is left alone. -/
theorem Service.entry (h : Service m r p t) (hid : c.serial ≤ m.connectionSerial)
    (hidle : ∀ e, m.entries.get? c = some e → e.state.isIdle = false) :
    t.entries.get? c = m.entries.get? c := by
  cases h with
  | @lease d x since hfresh hfull hd hx hcompat =>
    refine SortedMap.get?_insert_of_ne _ ?_ _
    rintro rfl
    have hno := hidle x hd
    rw [hx] at hno
    cases hno
  | leaseless => rfl
  | reserve => exact SortedMap.get?_insert_of_ne _ (ne_nextConnection hid) _
  | serialless => rfl
  | @evict d x hd hx =>
    refine SortedMap.get?_insert_of_ne _ ?_ _
    rintro rfl
    exact absurd (hx.symm.trans (hidle x hd)) nofun

theorem Scheduled.entry (h : Scheduled m t) (hid : c.serial ≤ m.connectionSerial)
    (hidle : ∀ e, m.entries.get? c = some e → e.state.isIdle = false) :
    t.entries.get? c = m.entries.get? c := by
  refine (h.invariant (P := fun t => c.serial ≤ t.connectionSerial ∧
    t.entries.get? c = m.entries.get? c) ⟨hid, rfl⟩ ?_).2
  rintro m₁ t₁ ⟨hid₁, hsame⟩ ⟨r, p, -, -, hserve⟩
  refine ⟨hid₁.trans hserve.serial_le, (hserve.entry hid₁ ?_).trans hsame⟩
  rw [hsame]
  exact hidle

/-- An idle connection stays, is leased to a request that waits, or is evicted. -/
inductive IdleFate (m t : PoolMachine) (c : ConnectionId) (e : Entry) : Prop
  | idle (hc : t.entries.get? c = some e)
  | leased {e' l r p} (hc : t.entries.get? c = some e') (he : e'.state = .leased l (some r))
      (hr : m.requests.get? r = some p) (hp : p.state = .waiting)
      (hcompat : compatible p.request c e = true)
  | evicted {deadline} (hc : t.entries.get? c = some (e.shut .evicted deadline))

theorem Scheduled.idleFate (h : Scheduled m t) (hid : c.serial ≤ m.connectionSerial)
    (hc : m.entries.get? c = some e) : IdleFate m t c e := by
  suffices hs : c.serial ≤ t.connectionSerial ∧ IdleFate m t c e from hs.2
  induction h with
  | refl => exact ⟨hid, .idle hc⟩
  | @tail u t hrun hs ih =>
    obtain ⟨hid', hfate⟩ := ih
    obtain ⟨r, p, hr, hp, hserve⟩ := hs
    refine ⟨hid'.trans hserve.serial_le, ?_⟩
    cases hfate with
    | idle hu =>
      cases hserve with
      | @lease d x since hfresh hfull hd hx hcompat =>
        by_cases hcd : c = d
        · subst hcd
          cases hu.symm.trans hd
          obtain ⟨eviction, hm⟩ := Scheduled.waiting_origin hrun hr hp
          exact .leased (SortedMap.get?_insert_self _ _ _) rfl hm hp hcompat
        · exact .idle ((SortedMap.get?_insert_of_ne _ hcd _).trans hu)
      | leaseless => exact .idle hu
      | reserve =>
        exact .idle ((SortedMap.get?_insert_of_ne _ (ne_nextConnection hid') _).trans hu)
      | serialless => exact .idle hu
      | @evict d x hd hx =>
        by_cases hcd : c = d
        · subst hcd
          cases hu.symm.trans hd
          exact .evicted (SortedMap.get?_insert_self _ _ _)
        · exact .idle ((SortedMap.get?_insert_of_ne _ hcd _).trans hu)
    | leased hu he hm hw hcompat =>
      refine .leased ((hserve.entry hid' fun x hx => ?_).trans hu) he hm hw hcompat
      cases hu.symm.trans hx
      rw [he]
      rfl
    | evicted hu =>
      refine .evicted ((hserve.entry hid' fun x hx => ?_).trans hu)
      cases hu.symm.trans hx
      rfl

/-! ### Actions and the clock -/

/-- The passes of `advance`, one after the other. -/
theorem advance_passes (h : Owned m) {now : ℕ} (hx : m.advance now = some t) :
    now < m.now ∧ t = m ∨ m.now ≤ now ∧ ∃ u expired v w a,
      (collectExpired m.requests.toList { m with now } = some (u, expired) ∧ Owned u) ∧
      (expired.foldlM (fun m x => (m.failRequest x.1 x.2 .cancelled).map (·.1)) u = some v ∧
        Owned v) ∧
      ((v.entries.toList.filterMap fun x => (v.idleReason x.2).map fun r => (x.1, r)).foldlM
        (fun m x => m.startClosing x.1 x.2) v = some w ∧ Owned w) ∧
      w.lapseHolds.schedule = some a ∧
      t = if (a.revision = m.revision && decide (m.now < a.now) &&
        a.cleanupDeadlineCrossed m.now a.now) = true then a.touch else a := by
  unfold advance at hx
  split_ifs at hx with hnow
  · cases hx
    exact .inl ⟨hnow, rfl⟩
  · obtain ⟨⟨u, expired⟩, hu, hx⟩ := Option.bind_eq_some_iff.1 hx
    obtain ⟨v, hv, hx⟩ := Option.bind_eq_some_iff.1 hx
    obtain ⟨w, hw, hx⟩ := Option.bind_eq_some_iff.1 hx
    obtain ⟨a, ha, hx⟩ := Option.bind_eq_some_iff.1 hx
    have hown : Owned { m with now } := h.of_eq rfl rfl rfl rfl rfl
    have hu' : Owned u := Guard.inv_weak (g := total) (((collectExpired_spec m.requests.toList hown
      fun x hx => (SortedMap.mem_toList _).1 hx).2 u expired hu).1) hown
    have hv' : Owned v := Guard.inv_weak (g := total)
      ((failEach_does (fun x : RequestId × Error => x.1) (fun x => x.2) .cancelled
        (P := fun _ => False) expired hu' fun _ _ _ => False.elim).2 v hv).1 hu'
    have hw' : Owned w := Guard.inv_weak (g := total) ((closeExpired_does hv').2 w hw).1 hv'
    cases hx
    exact .inr ⟨not_lt.1 hnow, u, expired, v, w, a, ⟨hu, hu'⟩, ⟨hv, hv'⟩, ⟨hw, hw'⟩, ha, rfl⟩

end PoolMachine

end GwzTransport.Pool
