import GwzTransport.Pool.Capacity

/-!
# Work conservation

`schedule` serves the waiting requests in three passes: idle connections are reused, new ones are
opened, idle ones are evicted to make room.  After it no waiting request can be served, and as long
as the pool only fills up (`Fills`) that stays so.

* `Fills`: nothing is freed from one state to the next;
* `Conserved`: no waiting request can be served;
* `schedule_conserves`: the passes leave such a state.
-/

namespace GwzTransport.Pool

open Protocol MachineInt Transition

namespace PoolMachine

variable {m t u : PoolMachine} {c : ConnectionId} {e e' : Entry} {r : RequestId} {p p' : Pending}

/-- No waiting request can be served. -/
def Conserved (m : PoolMachine) : Prop :=
  ∀ r p, m.requests.get? r = some p → p.state = .waiting →
    Unreusable m r p ∧ Roomless m r p ∧ Unevictable m r p

/-! ### The passes leave such a request alone -/

/-- A preferred connection that is waited for is leased. -/
theorem leased_of_preferWaits (hr : m.requests.get? r = some p) (h : m.preferWaits r = true) :
    ∃ c e l q, p.request.prefer = some c ∧ m.entries.get? c = some e ∧ e.state = .leased l q := by
  unfold preferWaits at h
  simp only [hr] at h
  split at h
  · rename_i c finishing time hprefer hwait
    obtain ⟨-, he⟩ := Bool.and_eq_true_iff.1 h
    obtain ⟨e, hc, he⟩ := (Option.any_eq_true _ _).1 he
    obtain ⟨hl, -⟩ := Bool.and_eq_true_iff.1 he
    split at hl
    · rename_i lease q hs
      exact ⟨c, e, lease, q, hprefer, hc, hs⟩
    · cases hl
  · cases h

theorem reuseFor_eq (hr : m.requests.get? r = some p) (h : Unreusable m r p) :
    m.reuseFor r = some m := by
  unfold reuseFor
  simp only [hr, Option.bind_eq_bind, Option.bind_some, Option.pure_def]
  rcases h with h | h | h | h
  · rw [if_pos (by rw [h]; rfl)]
  · rw [if_pos (by rw [h, Bool.or_true])]
  · split_ifs with hskip hwait
    · rfl
    · rfl
    · -- the preferred connection is leased, so it is not idle
      exfalso
      obtain ⟨c, e, l, q, hprefer, hc, hs⟩ := leased_of_preferWaits hr h
      apply hwait
      rw [h, Bool.and_true, Option.isNone_iff_eq_none, hprefer, Option.filter_eq_none_iff]
      intro d hd
      cases hd
      simp [hc, hs, State.isIdle]
  · split_ifs with hskip hwait
    · rfl
    · rfl
    · -- there is no idle connection to take, preferred or not
      have hno : ∀ d, (m.entries.get? d).any
          (fun e => e.state.isIdle && compatible p.request d e) = false := by
        intro d
        cases hd : m.entries.get? d with
        | none => rfl
        | some e =>
          rw [Option.any_some]
          cases hi : e.state.isIdle with
          | false => rfl
          | true =>
            rw [h d e hd hi]
            rfl
      have hprefer : (p.request.prefer.filter fun d => (m.entries.get? d).any
          fun e => e.state.isIdle && compatible p.request d e) = none := by
        rw [Option.filter_eq_none_iff]
        intro d _
        rw [hno d]
        exact Bool.false_ne_true
      have hidle : m.idleFor p.request none = none := by
        cases hx : m.idleFor p.request none with
        | none => rfl
        | some d =>
          obtain ⟨e, since, hd, hs, hcompat⟩ := idle_of_idleFor (fun _ hd => by cases hd) hx
          rw [h d e hd (by rw [hs]; rfl)] at hcompat
          cases hcompat
      rw [hprefer, hidle]

theorem openFor_eq (hr : m.requests.get? r = some p) (h : Roomless m r p) :
    m.openFor r = m := by
  unfold openFor
  simp only [hr]
  rcases h with h | h | h
  · split_ifs with hskip hfull
    · rfl
    · rfl
    · simp [h] at hfull
    · simp [h] at hfull
  · rw [if_pos (by rw [h, Bool.or_true])]
  · have hfull : (m.ownerFull p.request ||
        decide (m.entries.size ≥ (m.ceilingsFor p.request).total) ||
        decide (m.userHostTotal p.request.key ≥ (m.ceilingsFor p.request).perUserHost) ||
        decide (m.hostTotal p.request.key.host ≥ (m.ceilingsFor p.request).perHost) ||
        m.siteFull p.request.key) = true := by
      simp only [boundFull, Bool.or_eq_true] at h ⊢
      tauto
    rw [if_pos hfull]
    split_ifs <;> rfl

theorem evictFor_eq (hr : m.requests.get? r = some p) (h : Unevictable m r p) :
    m.evictFor r = some m := by
  unfold evictFor
  simp only [hr, Option.bind_eq_bind, Option.bind_some, Option.pure_def]
  rcases h with h | h | h | h | h
  · split_ifs
    · rfl
    · rfl
    · rfl
  · rw [if_pos (by rw [h, Bool.or_true])]
  · have : (p.eviction.any fun victim =>
        (m.entries.get? victim).isSome || (m.holds.get? victim).isSome) = true := h
    rw [this, Bool.or_true, Bool.true_or, if_pos rfl]
  · split_ifs
    · rfl
    · rfl
  · rw [(victimFor_eq_none_iff _).2 h]
    split_ifs <;> rfl

/-- Where no waiting request can be served, `schedule` changes nothing. -/
theorem Conserved.schedule_eq (h : Conserved m) : m.schedule = some m := by
  have hwait : ∀ r ∈ m.requests.keysWhere (fun _ p => p.state == .waiting),
      m.reuseFor r = some m ∧ m.openFor r = m ∧ m.evictFor r = some m := by
    intro r hr
    obtain ⟨p, hr, hp⟩ := (SortedMap.mem_keysWhere _).1 hr
    have hp : p.state = .waiting := by simpa using hp
    obtain ⟨hreuse, hroom, hevict⟩ := h r p hr hp
    exact ⟨reuseFor_eq hr hreuse, openFor_eq hr hroom, evictFor_eq hr hevict⟩
  have hfoldM : ∀ (f : PoolMachine → RequestId → Option PoolMachine) (l : List RequestId),
      (∀ r ∈ l, f m r = some m) → l.foldlM f m = some m := by
    intro f l
    induction l with
    | nil => exact fun _ => rfl
    | cons r l ih =>
      intro hl
      rw [List.foldlM_cons, hl r List.mem_cons_self]
      exact ih fun j hj => hl j (List.mem_cons_of_mem _ hj)
  have hfold : ∀ l : List RequestId, (∀ r ∈ l, m.openFor r = m) → l.foldl openFor m = m := by
    intro l
    induction l with
    | nil => exact fun _ => rfl
    | cons r l ih =>
      intro hl
      rw [List.foldl_cons, hl r List.mem_cons_self]
      exact ih fun j hj => hl j (List.mem_cons_of_mem _ hj)
  unfold schedule
  split_ifs
  · rfl
  · simp only [Option.bind_eq_bind]
    rw [hfoldM _ _ fun r hr => (hwait r hr).1, Option.bind_some,
      hfold _ fun r hr => (hwait r hr).2.1]
    exact hfoldM _ _ fun r hr => (hwait r hr).2.2

/-! ### Filling up -/

/-- From one state to the next no connection goes, none becomes idle, none changes its key, and no
session has fewer connections than before; the bounds are the same. -/
structure Fills (m t : PoolMachine) : Prop where
  stopped : t.stopped = m.stopped
  config : t.config = m.config
  now : t.now = m.now
  limits : t.limits = m.limits
  noEvicts : t.noEvicts = m.noEvicts
  holds : t.holds = m.holds
  present : ∀ c, (m.entries.get? c).isSome = true → (t.entries.get? c).isSome = true
  idle : ∀ c e, t.entries.get? c = some e → e.state.isIdle = true → m.entries.get? c = some e
  counts : ∀ q : Key → Bool,
    m.entries.countWhere (fun e => q e.key) ≤ t.entries.countWhere fun e => q e.key
  owned : ∀ session (q : Key → Bool),
    m.ownedWhere session (fun e => q e.key) ≤ t.ownedWhere session fun e => q e.key

/-- A leased connection stays leased and keeps what requests are compared with. -/
def KeepsLeases (m t : PoolMachine) : Prop :=
  ∀ c e l q, m.entries.get? c = some e → e.state = .leased l q →
    ∃ e' q', t.entries.get? c = some e' ∧ e'.state = .leased l q' ∧ e'.key = e.key ∧
      e'.reusable = e.reusable ∧ e'.identity = e.identity

theorem Fills.refl (m : PoolMachine) : Fills m m :=
  ⟨rfl, rfl, rfl, rfl, rfl, rfl, fun _ => id, fun _ _ hc _ => hc, fun _ => le_rfl,
    fun _ _ => le_rfl⟩

theorem KeepsLeases.refl (m : PoolMachine) : KeepsLeases m m :=
  fun _ e _ q hc he => ⟨e, q, hc, he, rfl, rfl, rfl⟩

theorem Fills.trans (h : Fills m t) (h' : Fills t u) : Fills m u where
  stopped := h'.stopped.trans h.stopped
  config := h'.config.trans h.config
  now := h'.now.trans h.now
  limits := h'.limits.trans h.limits
  noEvicts := h'.noEvicts.trans h.noEvicts
  holds := h'.holds.trans h.holds
  present c hc := h'.present c (h.present c hc)
  idle c e hc hi := h.idle c e (h'.idle c e hc hi) hi
  counts q := (h.counts q).trans (h'.counts q)
  owned session q := (h.owned session q).trans (h'.owned session q)

/-- A connection that is not idle, new or for one with its key that its session keeps. -/
theorem Fills.of_put (hidle : e'.state.isIdle = false)
    (hold : ∀ e, m.entries.get? c = some e → e'.key = e.key ∧
      ∀ session, OwnedBy session e = true → OwnedBy session e' = true)
    (requests : SortedMap RequestId Pending) (connectionSerial leaseSerial revision : ℕ) :
    Fills m { m with
      entries := m.entries.insert c e', requests, connectionSerial, leaseSerial, revision } where
  stopped := rfl
  config := rfl
  now := rfl
  limits := rfl
  noEvicts := rfl
  holds := rfl
  present d hd := by
    rw [SortedMap.get?_insert]
    split_ifs
    · rfl
    · exact hd
  idle d x hd hi := by
    rw [SortedMap.get?_insert] at hd
    split_ifs at hd
    · cases hd
      rw [hidle] at hi
      cases hi
    · exact hd
  counts q := m.entries.countWhere_le_insert fun x hx hq => (hold x hx).1 ▸ hq
  owned session q := by
    simp only [ownedWhere_eq]
    refine m.entries.countWhere_le_insert fun x hx hq => ?_
    rw [Bool.and_eq_true] at hq ⊢
    exact ⟨(hold x hx).2 session hq.1, (hold x hx).1 ▸ hq.2⟩

/-- A connection that stands in for itself: it does not become idle, and its session keeps it. -/
theorem Fills.of_insert (hc : m.entries.get? c = some e) (hkey : e'.key = e.key)
    (hidle : e'.state.isIdle = false)
    (howned : ∀ session, OwnedBy session e = true → OwnedBy session e' = true)
    (requests : SortedMap RequestId Pending) (leaseSerial revision : ℕ) :
    Fills m { m with entries := m.entries.insert c e', requests, leaseSerial, revision } := by
  refine .of_put hidle (fun x hx => ?_) requests m.connectionSerial leaseSerial revision
  cases hc.symm.trans hx
  exact ⟨hkey, howned⟩

/-- Nothing but the queue changes. -/
theorem Fills.of_requests (requests : SortedMap RequestId Pending) (settles : List (Site × ℕ))
    (revision : ℕ) : Fills m { m with requests, settles, revision } :=
  ⟨rfl, rfl, rfl, rfl, rfl, rfl, fun _ => id, fun _ _ hc _ => hc, fun _ => le_rfl,
    fun _ _ => le_rfl⟩

theorem KeepsLeases.of_insert (hent : t.entries = m.entries.insert c e')
    (hc : ∀ e, m.entries.get? c = some e → e.state.isLeased = false) : KeepsLeases m t := by
  intro d x l q hd hx
  refine ⟨x, q, ?_, hx, rfl, rfl, rfl⟩
  rw [hent, SortedMap.get?_insert_of_ne _ ?_]
  · exact hd
  · rintro rfl
    have := hc x hd
    rw [hx] at this
    cases this

/-! ### What keeps a request waiting, keeps it waiting -/

section Mono

variable (hf : Fills m t) (hr : m.requests.get? r = some p) (ht : t.requests.get? r = some p')
  (hsame : p'.request = p.request)

theorem Fills.slots_le (hf : Fills m t) (q : Key → Bool) : m.slots q ≤ t.slots q := by
  unfold slots
  rw [hf.holds]
  exact Nat.add_le_add_right (hf.counts q) _

theorem Fills.ownerFull (hf : Fills m t) {request : Request} (h : m.ownerFull request = true) :
    t.ownerFull request = true := by
  have hlimits : t.limitsOf request = m.limitsOf request := by
    rw [limitsOf, limitsOf, capacity, capacity, hf.config]
  simp only [PoolMachine.ownerFull, Bool.or_eq_true, decide_eq_true_eq, hlimits] at h ⊢
  rcases h with (h | h) | h
  · exact .inl (.inl (h.trans (hf.owned _ fun _ => true)))
  · exact .inl (.inr (h.trans (hf.owned _ (·.host == request.key.host))))
  · exact .inr (h.trans (hf.owned _ (·.sameUserHost request.key)))

theorem Fills.userHost (hf : Fills m t) (request : Request)
    (h : m.userHostTotal request.key ≥ (m.ceilingsFor request).perUserHost) :
    t.userHostTotal request.key ≥ (t.ceilingsFor request).perUserHost := by
  rw [ceilingsFor_eq hf.config]
  rw [userHostTotal_eq] at h ⊢
  exact h.trans (hf.slots_le _)

theorem Fills.host (hf : Fills m t) (request : Request)
    (h : m.hostTotal request.key.host ≥ (m.ceilingsFor request).perHost) :
    t.hostTotal request.key.host ≥ (t.ceilingsFor request).perHost := by
  rw [ceilingsFor_eq hf.config]
  rw [hostTotal_eq] at h ⊢
  exact h.trans (hf.slots_le _)

theorem Fills.siteFull (hf : Fills m t) (key : Key) (h : m.siteFull key = true) :
    t.siteFull key = true := by
  unfold PoolMachine.siteFull at h ⊢
  rw [hf.limits]
  cases hx : m.limits.find? fun e => key.onSite e.1 with
  | none =>
    rw [hx] at h
    cases h
  | some x =>
    rw [hx] at h
    rw [Option.any_some, decide_eq_true_eq] at h ⊢
    rw [siteTotal_eq] at h ⊢
    exact h.trans (hf.slots_le _)

theorem Fills.boundFull (hf : Fills m t) {request : Request} (h : m.boundFull request = true) :
    t.boundFull request = true := by
  simp only [PoolMachine.boundFull, Bool.or_eq_true, decide_eq_true_eq] at h ⊢
  rcases h with ((h | h) | h) | h
  · refine .inl (.inl (.inl ?_))
    rw [ceilingsFor_eq hf.config]
    rw [SortedMap.size_eq_countWhere] at h ⊢
    exact h.trans (hf.counts fun _ => true)
  · exact .inl (.inl (.inr (hf.userHost request h)))
  · exact .inl (.inr (hf.host request h))
  · exact .inr (hf.siteFull request.key h)

theorem Fills.insideFull (hf : Fills m t) {request : Request}
    (h : m.insideFull request e = false) : t.insideFull request e = false := by
  rw [Bool.eq_false_iff] at h ⊢
  intro hin
  apply h
  simp only [PoolMachine.insideFull, Bool.and_eq_true, Bool.or_eq_true, Bool.not_eq_true',
    decide_eq_false_iff_not] at hin ⊢
  obtain ⟨⟨huser, hhost⟩, hsite⟩ := hin
  refine ⟨⟨huser.imp_left fun hn hfull => hn (hf.userHost request hfull),
    hhost.imp_left fun hn hfull => hn (hf.host request hfull)⟩, hsite.imp_left fun hn => ?_⟩
  rw [Bool.eq_false_iff] at hn ⊢
  exact fun hfull => hn (hf.siteFull request.key hfull)

theorem Fills.evicting (hf : Fills m t) (h : m.evicting p = true) : t.evicting p = true := by
  unfold PoolMachine.evicting at h ⊢
  rw [Option.any_eq_true] at h ⊢
  obtain ⟨victim, hv, h⟩ := h
  refine ⟨victim, hv, ?_⟩
  rw [Bool.or_eq_true] at h ⊢
  exact h.imp (hf.present victim) fun h => by rw [hf.holds]; exact h

include hr ht hsame in
/-- The preferred connection is still waited for. -/
theorem KeepsLeases.preferWaits (hf : Fills m t) (hl : KeepsLeases m t)
    (hwait : p'.preferWait = p.preferWait) (h : m.preferWaits r = true) :
    t.preferWaits r = true := by
  unfold PoolMachine.preferWaits at h ⊢
  simp only [hr] at h
  simp only [ht, hsame, hwait, hf.now]
  split at h
  · rename_i c finishing time _ _
    simp only [Bool.and_eq_true, Option.any_eq_true] at h ⊢
    obtain ⟨hearly, e, hc, hlease, hcompat⟩ := h
    refine ⟨hearly, ?_⟩
    split at hlease
    · rename_i l q hs
      obtain ⟨x, q', hx, hxs, hkey, hreuse, hid⟩ := hl c e l q hc hs
      refine ⟨x, hx, by simpa only [hxs] using hlease, ?_⟩
      rw [compatible, hkey, hreuse, hid]
      exact hcompat
    · cases hlease
  · cases h

include hf hsame in
theorem Unreusable.mono (h : Unreusable m r p)
    (hwait : m.preferWaits r = true → t.preferWaits r = true) : Unreusable t r p' := by
  unfold Unreusable at h ⊢
  rw [hsame]
  rcases h with h | h | h | h
  · exact .inl h
  · exact .inr (.inl (hf.ownerFull h))
  · exact .inr (.inr (.inl (hwait h)))
  · exact .inr (.inr (.inr fun c e hc hi => h c e (hf.idle c e hc hi) hi))

include hf hsame in
theorem Roomless.mono (h : Roomless m r p)
    (hwait : m.preferWaits r = true → t.preferWaits r = true) : Roomless t r p' := by
  unfold Roomless at h ⊢
  rw [hsame]
  exact h.imp hf.ownerFull (Or.imp hwait hf.boundFull)

theorem Unevictable.mono (hf : Fills m t) (h : Unevictable m r p)
    (hwait : m.preferWaits r = true → t.preferWaits r = true) : Unevictable t r p := by
  rcases h with h | h | h | h | h
  · exact .inl (hf.ownerFull h)
  · exact .inr (.inl (hwait h))
  · exact .inr (.inr (.inl (hf.evicting h)))
  · exact .inr (.inr (.inr (.inl (by rw [hf.noEvicts]; exact h))))
  · exact .inr (.inr (.inr (.inr fun c e hc hi => hf.insideFull (h c e (hf.idle c e hc hi) hi))))

end Mono

/-- The pool fills up, and the requests that are there afterwards were there before, and wait for
what they waited for. -/
structure Calm (m t : PoolMachine) : Prop where
  fills : Fills m t
  settles : t.settles = m.settles
  requests : ∀ r p, t.requests.get? r = some p → m.requests.get? r = some p
  waits : ∀ r p, t.requests.get? r = some p → p.state = .waiting →
    m.preferWaits r = true → t.preferWaits r = true

theorem Conserved.calm (h : Conserved m) (ht : Calm m t) : Conserved t := by
  intro r p hr hp
  have hwait := ht.waits r p hr hp
  obtain ⟨hreuse, hroom, hevict⟩ := h r p (ht.requests r p hr) hp
  exact ⟨hreuse.mono ht.fills rfl hwait, hroom.mono ht.fills rfl hwait,
    hevict.mono ht.fills hwait⟩

/-! ### One request of a pass -/

/-- One request is served: if it waits on, its victim has been found.  No other one has changed. -/
structure Serves (m : PoolMachine) (r : RequestId) (p : Pending) (t : PoolMachine) : Prop where
  fills : Fills m t
  leases : KeepsLeases m t
  others : ∀ j ≠ r, t.requests.get? j = m.requests.get? j
  waits : ∀ q, t.requests.get? r = some q → q.state = .waiting →
    ∃ c, q = { p with eviction := some c } ∧ (t.entries.get? c).isSome = true

theorem ownedBy_idle (h : e.state.isIdle = true) (session : String) :
    OwnedBy session e = false := by
  cases hs : e.state <;> simp_all [OwnedBy, State.isIdle, State.isOpening, State.isLeased]

theorem Service.serves (h : Owned m) (hs : Service m r p t) : Serves m r p t := by
  suffices hfills : Fills m t ∧ KeepsLeases m t from
    ⟨hfills.1, hfills.2, fun j => hs.others, fun q => hs.waits⟩
  -- an idle connection that is leased or evicted was nobody's
  have hidle : ∀ {c e e'}, m.entries.get? c = some e → e.state.isIdle = true → e'.key = e.key →
      e'.state.isIdle = false → ∀ leaseSerial requests revision,
      Fills m { m with
          leaseSerial, requests, entries := m.entries.insert c e', revision } ∧
        KeepsLeases m { m with
          leaseSerial, requests, entries := m.entries.insert c e', revision } := by
    intro c e e' hc hi hkey hidle _ _ _
    refine ⟨.of_insert hc hkey hidle (fun session ho => ?_) _ _ _, .of_insert rfl fun x hx => ?_⟩
    · rw [ownedBy_idle hi] at ho
      cases ho
    · cases hc.symm.trans hx
      cases hs : e.state <;> simp_all [State.isIdle, State.isLeased]
  cases hs with
  | lease hfresh hfull hc he hcompat =>
    refine hidle hc (by rw [he]; rfl) ?_ ?_ _ _ _
    · rfl
    · rfl
  | leaseless => exact ⟨.of_requests _ _ _, .refl m⟩
  | reserve =>
    have hnew : ∀ x, m.entries.get? m.nextConnection ≠ some x := fun x hx => by
      cases h.next_absent.symm.trans hx
    exact ⟨.of_put rfl (fun x hx => absurd hx (hnew x)) _ _ _ _,
      .of_insert rfl fun x hx => absurd hx (hnew x)⟩
  | serialless => exact ⟨.of_requests _ _ _, .refl m⟩
  | evict hc he =>
    refine hidle hc he ?_ ?_ _ _ _
    · rfl
    · rfl

/-! ### The passes -/

/-- What a pass leaves of a request that is not its own. -/
theorem preferWaits_of_other (hf : Fills m t) (hl : KeepsLeases m t)
    (hsame : t.requests.get? r = m.requests.get? r) (h : m.preferWaits r = true) :
    t.preferWaits r = true := by
  cases hr : m.requests.get? r with
  | none => simp [preferWaits, hr] at h
  | some p => exact hl.preferWaits hr (hsame.trans hr) rfl hf rfl h

/-- What keeps a request waiting lasts while the pool fills up. -/
def Lasting (K : PoolMachine → RequestId → Pending → Prop) : Prop :=
  ∀ m t r p q, Fills m t → q.request = p.request → q = p ∨ t.evicting q = true →
    (m.preferWaits r = true → t.preferWaits r = true) → K m r p → K t r q

theorem lasting_unreusable : Lasting Unreusable :=
  fun _ _ _ _ _ hf hsame _ hwait h => h.mono hf hsame hwait

theorem lasting_roomless : Lasting Roomless :=
  fun _ _ _ _ _ hf hsame _ hwait h => h.mono hf hsame hwait

theorem lasting_unevictable : Lasting Unevictable := by
  rintro m t r p q hf - (rfl | hevicting) hwait h
  · exact h.mono hf hwait
  · exact .inr (.inr (.inl hevicting))

/-- A request that waits after another one is served, or itself, waits for what it waited for. -/
theorem Serves.lasts {K : PoolMachine → RequestId → Pending → Prop} (hK : Lasting K)
    (hr : m.requests.get? r = some p) (h : Serves m r p t) {q : Pending}
    (hj : t.requests.get? j = some q) (hq : q.state = .waiting)
    (hm : ∀ p, m.requests.get? j = some p → p.state = .waiting → K m j p) : K t j q := by
  by_cases hjr : j = r
  · subst hjr
    obtain ⟨c, rfl, hc⟩ := h.waits q hj hq
    exact hK m t j p _ h.fills rfl (.inr (by simp [evicting, hc]))
      (h.leases.preferWaits hr hj rfl h.fills rfl) (hm p hr hq)
  · have hj' := (h.others j hjr).symm.trans hj
    exact hK m t j q q h.fills rfl (.inl rfl)
      (preferWaits_of_other h.fills h.leases (h.others j hjr)) (hm q hj' hq)

/-- `K` keeps all waiting requests waiting but those of a list. -/
def Stuck (K : PoolMachine → RequestId → Pending → Prop) (l : List RequestId) (m : PoolMachine) :
    Prop := ∀ r p, m.requests.get? r = some p → p.state = .waiting → r ∉ l → K m r p

/-- One turn of a pass: the request is left alone for a reason, or served. -/
theorem Stuck.turn {K : PoolMachine → RequestId → Pending → Prop} (hK : Lasting K)
    {l : List RequestId} (h : Stuck K (r :: l) m) (hr : m.requests.get? r = some p)
    (hturn : t = m ∧ (p.state = .waiting → K m r p) ∨ Serves m r p t ∧
      ∀ q, t.requests.get? r = some q → q.state = .waiting → K t r q) : Stuck K l t := by
  intro j q hj hq hnot
  have hcons : j ≠ r → j ∉ r :: l := fun hjr hmem => (List.mem_cons.1 hmem).elim hjr hnot
  rcases hturn with ⟨rfl, hstay⟩ | ⟨hserve, hlast⟩
  · by_cases hjr : j = r
    · subst hjr
      cases hr.symm.trans hj
      exact hstay hq
    · exact h j q hj hq (hcons hjr)
  · by_cases hjr : j = r
    · exact hjr ▸ hlast q (hjr ▸ hj) hq
    · exact hserve.lasts hK hr hj hq fun p hp hw => h j p hp hw (hcons hjr)

theorem Stuck.nil {K : PoolMachine → RequestId → Pending → Prop} (hK : Lasting K)
    (h : Stuck K [] m) (hr : m.requests.get? r = some p) (hs : Serves m r p t) : Stuck K [] t :=
  fun j _ hj hq _ => hs.lasts hK hr hj hq fun p hp hw => h j p hp hw List.not_mem_nil

theorem reuse_pass {l : List RequestId} (h : Owned m) (hm : Stuck Unreusable l m)
    (hn : l.Nodup) (hl : ∀ r ∈ l, ∃ p, m.requests.get? r = some p ∧ p.state = .waiting)
    (hx : l.foldlM reuseFor m = some t) : Stuck Unreusable [] t := by
  induction l generalizing m with
  | nil =>
    cases hx
    exact hm
  | cons r l ih =>
    obtain ⟨hnot, hn⟩ := List.nodup_cons.1 hn
    obtain ⟨p, hr, hp⟩ := hl r List.mem_cons_self
    obtain ⟨u, hu, hcase⟩ := reuseFor_cases hr
    rw [List.foldlM_cons, hu] at hx
    rcases hcase with ⟨rfl, hstay⟩ | ⟨hservice, hserved⟩
    · exact ih h (hm.turn lasting_unreusable hr (.inl ⟨rfl, fun _ => hstay⟩)) hn
        (fun j hj => hl j (List.mem_cons_of_mem _ hj)) hx
    · refine ih (Guard.inv_weak (g := total) (hservice.weak hr hp) h)
        (hm.turn lasting_unreusable hr (.inr ⟨hservice.serves h, fun q hq hw =>
          absurd hw (hserved q hq)⟩)) hn (fun j hj => ?_) hx
      rw [hservice.others fun hjr => hnot (hjr ▸ hj)]
      exact hl j (List.mem_cons_of_mem _ hj)

theorem open_pass {l : List RequestId} (h : Owned m) (hm : Stuck Roomless l m)
    (hreused : Stuck Unreusable [] m) :
    Stuck Roomless [] (l.foldl openFor m) ∧ Stuck Unreusable [] (l.foldl openFor m) := by
  induction l generalizing m with
  | nil => exact ⟨hm, hreused⟩
  | cons r l ih =>
    rw [List.foldl_cons]
    rcases openFor_cases m r with ⟨hsame, hstay⟩ | ⟨p, hr, hp, hservice, hserved⟩
    · rw [hsame]
      refine ih h (fun j q hj hq hnot => ?_) hreused
      by_cases hjr : j = r
      · exact hjr ▸ hstay q (hjr ▸ hj) hq
      · exact hm j q hj hq fun hmem => (List.mem_cons.1 hmem).elim hjr hnot
    · have hserve := hservice.serves h
      exact ih (Guard.inv_weak (g := total) (hservice.weak hr hp) h)
        (hm.turn lasting_roomless hr (.inr ⟨hserve, fun q hq hw => absurd hw (hserved q hq)⟩))
        (hreused.nil lasting_unreusable hr hserve)

theorem evict_pass {l : List RequestId} (h : Owned m) (hm : Stuck Unevictable l m)
    (hreused : Stuck Unreusable [] m) (hroom : Stuck Roomless [] m)
    (hx : l.foldlM evictFor m = some t) : Conserved t := by
  induction l generalizing m with
  | nil =>
    cases hx
    exact fun r p hr hp => ⟨hreused r p hr hp List.not_mem_nil, hroom r p hr hp List.not_mem_nil,
      hm r p hr hp List.not_mem_nil⟩
  | cons r l ih =>
    rw [List.foldlM_cons] at hx
    obtain ⟨u, hu, hrest⟩ := Option.bind_eq_some_iff.1 hx
    obtain ⟨p, hr, -⟩ := Option.bind_eq_some_iff.1 hu
    obtain ⟨v, hv, hcase⟩ := evictFor_cases hr
    cases hu.symm.trans hv
    rcases hcase with ⟨rfl, hstay⟩ | ⟨hp, hservice, -⟩
    · exact ih h (hm.turn lasting_unevictable hr (.inl ⟨rfl, hstay⟩)) hreused hroom hrest
    · have hserve := hservice.serves h
      refine ih (Guard.inv_weak (g := total) (hservice.weak hr hp) h)
        (hm.turn lasting_unevictable hr (.inr ⟨hserve, fun q hq hw => ?_⟩))
        (hreused.nil lasting_unreusable hr hserve) (hroom.nil lasting_roomless hr hserve) hrest
      obtain ⟨c, rfl, hc⟩ := hservice.waits hq hw
      exact .inr (.inr (.inl (by simp [evicting, hc])))

/-- Every request that waits is one of those that waited before. -/
theorem stuck_waiting {K : PoolMachine → RequestId → Pending → Prop} (h : Scheduled m t) :
    Stuck K (m.requests.keysWhere fun _ p => p.state == .waiting) t := by
  intro r p hr hp hnot
  obtain ⟨eviction, hm⟩ := h.waiting_origin hr hp
  exact absurd (mem_waiting hm hp) hnot

/-- After `schedule` no waiting request can be served. -/
theorem schedule_conserves (h : Owned m) (hx : m.schedule = some t) (hstop : t.stopped = false) :
    Conserved t := by
  unfold schedule at hx
  split_ifs at hx with hs
  · cases hx
    rw [hs] at hstop
    cases hstop
  · set waiting := m.requests.keysWhere fun _ p => p.state == .waiting
    obtain ⟨u, hu, hx⟩ := Option.bind_eq_some_iff.1 hx
    obtain ⟨v, hv, hreuse⟩ := reuseEach_scheduled (SortedMap.nodup_keysWhere _ _) m.waiting_of_mem
    cases hu.symm.trans hv
    have hopen : Scheduled m (waiting.foldl openFor u) :=
      hreuse.trans (openEach_scheduled waiting u)
    have hreused := reuse_pass h (stuck_waiting .refl) (SortedMap.nodup_keysWhere _ _)
      m.waiting_of_mem hu
    obtain ⟨hroom, hreused⟩ := open_pass (Guard.inv_weak (g := total) hreuse.weak h)
      (stuck_waiting hreuse) hreused
    exact evict_pass (Guard.inv_weak (g := total) hopen.weak h) (stuck_waiting hopen)
      hreused hroom hx

/-- `schedule` is idempotent. -/
theorem schedule_idem (h : Owned m) (hx : m.schedule = some t) : t.schedule = some t := by
  cases hstop : t.stopped with
  | false => exact (schedule_conserves h hx hstop).schedule_eq
  | true => rw [schedule, hstop, if_pos rfl]

end PoolMachine

end GwzTransport.Pool
