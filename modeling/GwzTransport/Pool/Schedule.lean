import GwzTransport.Pool.Steps

/-!
# Scheduling

`schedule` serves the waiting requests in three passes: idle connections are reused, new ones are
opened, idle ones are evicted to make room.

* `Unreusable`, `Roomless`, `Unevictable`: why each pass leaves a waiting request alone;
* `Service`: what a pass does for a request that it does not leave alone;
* `Scheduled`: one request after the other is served, as `schedule` does (`exists_schedule`).
-/

namespace GwzTransport.Pool

open Protocol MachineInt Transition Relation

namespace PoolMachine

variable {m t u : PoolMachine} {c : ConnectionId} {e : Entry} {r j : RequestId} {p : Pending}

/-! ### Why a request waits -/

/-- No idle connection may be leased to the request. -/
def Unreusable (m : PoolMachine) (r : RequestId) (p : Pending) : Prop :=
  p.request.fresh = true ∨ m.ownerFull p.request = true ∨ m.preferWaits r = true ∨
    ∀ c e, m.entries.get? c = some e → e.state.isIdle = true → compatible p.request c e = false

/-- One of the bounds of the request is full. -/
def boundFull (m : PoolMachine) (request : Request) : Bool :=
  decide (m.entries.size ≥ (m.ceilingsFor request).total) ||
    decide (m.userHostTotal request.key ≥ (m.ceilingsFor request).perUserHost) ||
    decide (m.hostTotal request.key.host ≥ (m.ceilingsFor request).perHost) ||
    m.siteFull request.key

/-- No connection may be opened for the request. -/
def Roomless (m : PoolMachine) (r : RequestId) (p : Pending) : Prop :=
  m.ownerFull p.request = true ∨ m.preferWaits r = true ∨ m.boundFull p.request = true

/-- The connection lies inside every bound of the request that is full. -/
def insideFull (m : PoolMachine) (request : Request) (e : Entry) : Bool :=
  (!decide (m.userHostTotal request.key ≥ (m.ceilingsFor request).perUserHost) ||
      e.key.sameUserHost request.key) &&
    (!decide (m.hostTotal request.key.host ≥ (m.ceilingsFor request).perHost) ||
      e.key.host == request.key.host) &&
    (!m.siteFull request.key || e.key.sameSite request.key)

/-- The victim of the request is not gone yet. -/
def evicting (m : PoolMachine) (p : Pending) : Bool :=
  p.eviction.any fun victim => (m.entries.get? victim).isSome || (m.holds.get? victim).isSome

/-- No idle connection may be evicted for the request. -/
def Unevictable (m : PoolMachine) (r : RequestId) (p : Pending) : Prop :=
  m.ownerFull p.request = true ∨ m.preferWaits r = true ∨ m.evicting p = true ∨
    m.noEvicts.any p.request.key.onSite = true ∨
    ∀ c e, m.entries.get? c = some e → e.state.isIdle = true → m.insideFull p.request e = false

/-! ### Serving a request -/

/-- The opening of a connection that is reserved for a request. -/
def openingFor (m : PoolMachine) (r : RequestId) (request : Request) : Opening where
  request := some r
  clock := none
  networkMs := request.connectTimeoutMs.getD m.config.connectTimeoutMs
  interactionMs := request.interactionTimeoutMs.getD m.config.interactionTimeoutMs
  cancel := none

/-- What a pass of `schedule` does for a waiting request, where it does anything. -/
inductive Service (m : PoolMachine) (r : RequestId) (p : Pending) : PoolMachine → Prop
  | lease {c : ConnectionId} {e : Entry} {since : ℕ} (hfresh : p.request.fresh = false)
      (hfull : m.ownerFull p.request = false) (hc : m.entries.get? c = some e)
      (he : e.state = .idle since) (hcompat : compatible p.request c e = true) :
      Service m r p (touch
        { m with
          leaseSerial := m.leaseSerial + 1
          requests := m.requests.insert r
            { p with state := .ready ⟨c, m.leaseSerial + 1⟩, eviction := none }
          entries := m.entries.insert c
            { e with
              owner := some p.request.owner, idleSince := some since
              state := .leased ⟨c, m.leaseSerial + 1⟩ (some r) } })
  | leaseless :
      Service m r p (touch
        { m with requests := m.requests.insert r { p with state := .failed .capacity } })
  | reserve (hroom : m.Room p.request) (hserial : m.connectionSerial < u64Max) :
      Service m r p (touch
        { m with
          connectionSerial := m.connectionSerial + 1
          requests := m.requests.insert r
            { p with state := .opening m.nextConnection, eviction := none }
          entries := m.entries.insert m.nextConnection
            (m.reserved p (m.openingFor r p.request)) })
  -- the only one that is not counted as a change
  | serialless (hserial : ¬ m.connectionSerial < u64Max) :
      Service m r p
        { m with requests := m.requests.insert r { p with state := .failed .capacity } }
  | evict {c : ConnectionId} {e : Entry} (hc : m.entries.get? c = some e)
      (he : e.state.isIdle = true) :
      Service m r p
        { m with
          requests := m.requests.insert r { p with eviction := some c }
          entries := m.entries.insert c (e.shut .evicted (m.cleanupDeadline e))
          revision := (m.revision + 1) % (u64Max + 1) }

/-- One request that waits is served. -/
def ServesOne (m t : PoolMachine) : Prop :=
  ∃ r p, m.requests.get? r = some p ∧ p.state = .waiting ∧ Service m r p t

/-- One request after the other is served. -/
def Scheduled : PoolMachine → PoolMachine → Prop := ReflTransGen ServesOne

theorem Service.others (h : Service m r p t) (hj : j ≠ r) :
    t.requests.get? j = m.requests.get? j := by
  cases h <;> exact SortedMap.get?_insert_of_ne _ hj _

/-- The request stays, and stays the same but for its state and its victim. -/
theorem Service.served (h : Service m r p t) : ∃ state eviction,
    t.requests.get? r = some { p with state, eviction } := by
  cases h <;> exact ⟨_, _, SortedMap.get?_insert_self _ _ _⟩

/-- A request that waits on is one whose victim has been found. -/
theorem Service.waits (h : Service m r p t) {q : Pending} (hq : t.requests.get? r = some q)
    (hw : q.state = .waiting) :
    ∃ c, q = { p with eviction := some c } ∧ (t.entries.get? c).isSome = true := by
  cases h with
  | @evict c =>
    cases (SortedMap.get?_insert_self _ _ _).symm.trans hq
    exact ⟨c, rfl, by simp⟩
  | lease | leaseless | reserve | serialless =>
    cases (SortedMap.get?_insert_self _ _ _).symm.trans hq
    cases hw

/-- What serves a request is a run of moves. -/
theorem Service.weak (hr : m.requests.get? r = some p) (hp : p.state = .waiting)
    (h : Service m r p t) : Weak Move m [] t := by
  cases h with
  | lease hfresh hfull hc he hcompat => exact .silent (.lease hr hp hfresh hfull hc he hcompat _)
  | leaseless => exact .silent (.refuse hr (.inl hp) _ _)
  | reserve hroom hserial =>
    obtain ⟨howner, hsize, huser, hhost, hsite⟩ := hroom
    exact .silent (.reserve hr hp howner hsize huser hhost hsite rfl rfl rfl _)
  | serialless => exact .silent (.refuse hr (.inl hp) _ m.revision)
  | evict hc he =>
    refine .trans (.silent (.close hc (.inl he) .evicted _ _)) (.silent (.note ?_ _))
    exact hr

theorem idle_of_idleFor {request : Request} {preferred : Option ConnectionId}
    (hp : ∀ c, preferred = some c → ∃ e, m.entries.get? c = some e ∧
      (e.state.isIdle && compatible request c e) = true)
    (h : m.idleFor request preferred = some c) :
    ∃ e since, m.entries.get? c = some e ∧ e.state = .idle since ∧
      compatible request c e = true := by
  suffices hs : ∃ e, m.entries.get? c = some e ∧
      (e.state.isIdle && compatible request c e) = true by
    obtain ⟨e, hc, he⟩ := hs
    obtain ⟨hi, hcompat⟩ := Bool.and_eq_true_iff.1 he
    cases hst : e.state with
    | idle since => exact ⟨e, since, hc, hst, hcompat⟩
    | _ => simp [hst, State.isIdle] at hi
  unfold idleFor at h
  cases preferred with
  | some d =>
    cases h
    exact hp c rfl
  | none =>
    exact SortedMap.get?_of_firstWhere _ h

theorem reuseFor_cases (hr : m.requests.get? r = some p) : ∃ t, m.reuseFor r = some t ∧
    (t = m ∧ Unreusable m r p ∨
      Service m r p t ∧ ∀ q, t.requests.get? r = some q → q.state ≠ .waiting) := by
  unfold reuseFor
  simp only [hr, Option.bind_eq_bind, Option.bind_some, Option.pure_def]
  split_ifs with hskip hwait
  · exact ⟨m, rfl, .inl ⟨rfl, (Bool.or_eq_true_iff.1 hskip).imp_right .inl⟩⟩
  · exact ⟨m, rfl, .inl ⟨rfl, .inr (.inr (.inl (Bool.and_eq_true_iff.1 hwait).2))⟩⟩
  · split
    · rename_i hidle
      refine ⟨m, rfl, .inl ⟨rfl, .inr (.inr (.inr fun c e hc hi => ?_))⟩⟩
      -- the first idle connection would have been found
      obtain ⟨-, hfirst⟩ := Option.or_eq_none_iff.1 hidle
      rw [SortedMap.firstWhere, List.head?_eq_none_iff] at hfirst
      rw [Bool.eq_false_iff]
      intro hcompat
      have hmem := (SortedMap.mem_keysWhere (p := fun c e => e.state.isIdle &&
        compatible p.request c e) _).2 ⟨e, hc, by rw [hi, hcompat]; rfl⟩
      rw [hfirst] at hmem
      cases hmem
    · rename_i connection hidle
      simp only [Bool.or_eq_true, not_or, Bool.not_eq_true] at hskip
      obtain ⟨e, since, hc, he, hcompat⟩ := idle_of_idleFor (fun d hd => by
        obtain ⟨-, hd⟩ := Option.filter_eq_some_iff.1 hd
        exact (Option.any_eq_true _ _).1 hd) hidle
      unfold leaseId
      split_ifs
      · simp only [hr, hc, he, Option.bind_some]
        refine ⟨_, rfl, .inr ⟨.lease hskip.1 hskip.2 hc he hcompat, fun q hq => ?_⟩⟩
        cases (SortedMap.get?_insert_self _ _ _).symm.trans hq
        intro h
        cases h
      · simp only [setRequestState, hr, Option.bind_eq_bind, Option.bind_some, Option.pure_def]
        refine ⟨_, rfl, .inr ⟨.leaseless, fun q hq => ?_⟩⟩
        cases (SortedMap.get?_insert_self _ _ _).symm.trans hq
        intro h
        cases h

theorem openFor_cases (m : PoolMachine) (r : RequestId) :
    m.openFor r = m ∧ (∀ p, m.requests.get? r = some p → p.state = .waiting → Roomless m r p) ∨
      ∃ p, m.requests.get? r = some p ∧ p.state = .waiting ∧ Service m r p (m.openFor r) ∧
        ∀ q, (m.openFor r).requests.get? r = some q → q.state ≠ .waiting := by
  unfold openFor
  cases hr : m.requests.get? r with
  | none => exact .inl ⟨rfl, fun _ h => (by cases h)⟩
  | some p =>
    dsimp only
    split_ifs with hskip hfull hserial
    · refine .inl ⟨rfl, fun q hq hp => ?_⟩
      cases hq
      refine .inr (.inl ?_)
      simpa [hp] using hskip
    · refine .inl ⟨rfl, fun q hq hp => ?_⟩
      cases hq
      simp only [Bool.or_eq_true] at hfull
      by_cases ho : m.ownerFull p.request = true
      · exact .inl ho
      · refine .inr (.inr ?_)
        simp only [boundFull, Bool.or_eq_true]
        tauto
    · have hp : p.state = .waiting ∧ m.preferWaits r = false := by simpa using hskip
      simp only [Bool.or_eq_true, decide_eq_true_eq, not_or, not_le, Bool.not_eq_true] at hfull
      obtain ⟨⟨⟨⟨howner, hsize⟩, huser⟩, hhost⟩, hsite⟩ := hfull
      refine .inr ⟨p, rfl, hp.1, .reserve ⟨howner, hsize, huser, hhost, hsite⟩ hserial,
        fun q hq => ?_⟩
      cases (SortedMap.get?_insert_self _ _ _).symm.trans hq
      intro h
      cases h
    · have hp : p.state = .waiting ∧ m.preferWaits r = false := by simpa using hskip
      refine .inr ⟨p, rfl, hp.1, .serialless hserial, fun q hq => ?_⟩
      cases (SortedMap.get?_insert_self _ _ _).symm.trans hq
      intro h
      cases h

theorem openFor_weak (m : PoolMachine) (r : RequestId) : Weak Move m [] (m.openFor r) := by
  rcases openFor_cases m r with ⟨hsame, -⟩ | ⟨p, hr, hp, hservice, -⟩
  · rw [hsame]
    exact .refl m
  · exact hservice.weak hr hp

theorem idle_of_victimFor {request : Request} (h : m.victimFor request = some c) :
    ∃ e, m.entries.get? c = some e ∧ e.state.isIdle = true := by
  obtain ⟨x, hx, rfl⟩ := Option.map_eq_some_iff.1 h
  have hmem := List.min?_mem hx
  obtain ⟨⟨d, e⟩, hd, he⟩ := List.mem_filterMap.1 hmem
  dsimp only at he
  split at he
  · rename_i since hs
    split_ifs at he
    cases he
    exact ⟨e, (SortedMap.mem_toList _).1 hd, by rw [hs]; rfl⟩
  · cases he

theorem victimFor_eq_none_iff (request : Request) : m.victimFor request = none ↔
    ∀ c e, m.entries.get? c = some e → e.state.isIdle = true →
      m.insideFull request e = false := by
  unfold victimFor
  simp only [Option.map_eq_none_iff, List.min?_eq_none_iff, List.filterMap_eq_nil_iff]
  constructor
  · intro h c e hc hi
    have := h (c, e) ((SortedMap.mem_toList _).2 hc)
    cases hs : e.state with
    | idle since =>
      simp only [hs] at this
      split_ifs at this with hin
      simpa [insideFull] using hin
    | _ => simp [hs, State.isIdle] at hi
  · rintro h ⟨c, e⟩ hmem
    have hc := (SortedMap.mem_toList _).1 hmem
    dsimp only
    split
    · rename_i since hs
      have := h c e hc (by rw [hs]; rfl)
      rw [insideFull] at this
      rw [if_neg (by rw [this]; exact Bool.false_ne_true)]
    · rfl

theorem evictFor_cases (hr : m.requests.get? r = some p) : ∃ t, m.evictFor r = some t ∧
    (t = m ∧ (p.state = .waiting → Unevictable m r p) ∨ p.state = .waiting ∧ Service m r p t ∧
      ∀ q, t.requests.get? r = some q → q.state = .waiting) := by
  unfold evictFor
  simp only [hr, Option.bind_eq_bind, Option.bind_some, Option.pure_def]
  split_ifs with hskip hforbid hfull
  · refine ⟨m, rfl, .inl ⟨rfl, fun hp => ?_⟩⟩
    simp only [hp, bne_self_eq_false, Bool.false_or, Bool.or_eq_true] at hskip
    rcases hskip with h | h
    · exact .inr (.inr (.inl h))
    · exact .inr (.inl h)
  · exact ⟨m, rfl, .inl ⟨rfl, fun _ => .inr (.inr (.inr (.inl hforbid)))⟩⟩
  · exact ⟨m, rfl, .inl ⟨rfl, fun _ => .inl hfull⟩⟩
  · split
    · rename_i hnone
      exact ⟨m, rfl, .inl ⟨rfl, fun _ =>
        .inr (.inr (.inr (.inr ((victimFor_eq_none_iff _).1 hnone))))⟩⟩
    · rename_i c hv
      have hp : p.state = .waiting := by
        simp only [Bool.or_eq_true, not_or, bne_iff_ne, not_not] at hskip
        exact hskip.1.1
      obtain ⟨e, hc, hi⟩ := idle_of_victimFor hv
      have hr' : ((m.putEntry c
          (e.shut .evicted (m.cleanupDeadline e))).touch).requests.get? r = some p := hr
      rw [startClosing_eq hc (Entry.Free.not_closing (.inl hi)), Option.bind_some, hr',
        Option.bind_some]
      refine ⟨_, rfl, .inr ⟨hp, .evict hc hi, fun q hq => ?_⟩⟩
      cases (SortedMap.get?_insert_self _ _ _).symm.trans hq
      exact hp

/-! ### The passes -/

/-- What is kept by every service is kept by `schedule`. -/
theorem Scheduled.invariant {P : PoolMachine → Prop} (h : Scheduled m t) (hm : P m)
    (step : ∀ m t, P m → ServesOne m t → P t) : P t := by
  induction h with
  | refl => exact hm
  | tail _ hs ih => exact step _ _ ih hs

theorem Scheduled.weak (h : Scheduled m t) : Weak Move m [] t :=
  h.invariant (P := fun t => Weak Move m [] t) (.refl m) fun _ _ hw ⟨_, _, hr, hp, hs⟩ =>
    hw.trans (hs.weak hr hp)

/-- Requests that do not wait are left alone. -/
def Kept (m t : PoolMachine) : Prop :=
  ∀ r p, m.requests.get? r = some p → p.state ≠ .waiting → t.requests.get? r = some p

theorem Kept.trans {t u : PoolMachine} (h : Kept m t) (h' : Kept t u) : Kept m u :=
  fun r p hr hp => h' r p (h r p hr hp) hp

theorem Kept.of_waiting {t : PoolMachine} (hr : m.requests.get? r = some p)
    (hp : p.state = .waiting) (h : ∀ j ≠ r, t.requests.get? j = m.requests.get? j) : Kept m t := by
  intro j q hj hq
  rw [h j ?_]
  · exact hj
  · rintro rfl
    cases hr.symm.trans hj
    exact hq hp

theorem Scheduled.kept (h : Scheduled m t) : Kept m t :=
  h.invariant (P := Kept m) (fun _ _ hj _ => hj) fun _ _ hk ⟨_, _, hr, hp, hs⟩ =>
    hk.trans (.of_waiting hr hp fun _ hj => hs.others hj)

/-- No request goes. -/
theorem Scheduled.present (h : Scheduled m t) (hj : ∃ p, m.requests.get? j = some p) :
    ∃ p, t.requests.get? j = some p := by
  refine h.invariant (P := fun t => ∃ p, t.requests.get? j = some p) hj ?_
  rintro m₁ t₁ hj₁ ⟨r, p, -, -, hs⟩
  by_cases hjr : j = r
  · obtain ⟨state, eviction, hr⟩ := hs.served
    exact ⟨_, hjr ▸ hr⟩
  · rw [hs.others hjr]
    exact hj₁

/-- A request that waits has waited from the start, with another victim at most. -/
theorem Scheduled.waiting_origin (h : Scheduled m t) {q : Pending}
    (hq : t.requests.get? r = some q) (hw : q.state = .waiting) :
    ∃ eviction, m.requests.get? r = some { q with eviction } := by
  induction h generalizing q with
  | refl => exact ⟨q.eviction, hq⟩
  | @tail u t _ hs ih =>
    obtain ⟨j, p, hj, hp, hserve⟩ := hs
    by_cases hrj : r = j
    · subst hrj
      obtain ⟨state, eviction, hserved⟩ := hserve.served
      cases hserved.symm.trans hq
      have hsame : state = p.state := hw.trans hp.symm
      obtain ⟨eviction', hm⟩ := ih hj hp
      exact ⟨eviction', by rw [hsame]; exact hm⟩
    · rw [hserve.others hrj] at hq
      exact ih hq hw

/-- A waiting request of the queue is in the list that `schedule` works through. -/
theorem mem_waiting (hr : m.requests.get? r = some p) (hp : p.state = .waiting) :
    r ∈ m.requests.keysWhere fun _ p => p.state == .waiting :=
  (SortedMap.mem_keysWhere _).2 ⟨p, hr, by simp [hp]⟩

theorem waiting_of_mem (m : PoolMachine) :
    ∀ r ∈ m.requests.keysWhere (fun _ p => p.state == .waiting),
    ∃ p, m.requests.get? r = some p ∧ p.state = .waiting := by
  intro r hr
  obtain ⟨p, hr, hp⟩ := (SortedMap.mem_keysWhere _).1 hr
  exact ⟨p, hr, by simpa using hp⟩

/-- The reuse pass: whoever is left in the list still waits. -/
theorem reuseEach_scheduled {l : List RequestId} (hn : l.Nodup)
    (hl : ∀ r ∈ l, ∃ p, m.requests.get? r = some p ∧ p.state = .waiting) :
    ∃ t, l.foldlM reuseFor m = some t ∧ Scheduled m t := by
  induction l generalizing m with
  | nil => exact ⟨m, rfl, .refl⟩
  | cons r l ih =>
    obtain ⟨hnot, hn⟩ := List.nodup_cons.1 hn
    obtain ⟨p, hr, hp⟩ := hl r List.mem_cons_self
    obtain ⟨u, hu, hcase⟩ := reuseFor_cases hr
    rw [List.foldlM_cons, hu]
    rcases hcase with ⟨rfl, -⟩ | ⟨hserve, -⟩
    · exact ih hn fun j hj => hl j (List.mem_cons_of_mem _ hj)
    · obtain ⟨t, ht, hrest⟩ := ih hn (m := u) fun j hj => by
        rw [hserve.others fun hjr => hnot (hjr ▸ hj)]
        exact hl j (List.mem_cons_of_mem _ hj)
      exact ⟨t, ht, .head ⟨r, p, hr, hp, hserve⟩ hrest⟩

theorem openEach_scheduled (l : List RequestId) (m : PoolMachine) :
    Scheduled m (l.foldl openFor m) := by
  induction l generalizing m with
  | nil => exact .refl
  | cons r l ih =>
    rw [List.foldl_cons]
    rcases openFor_cases m r with ⟨hsame, -⟩ | ⟨p, hr, hp, hserve, -⟩
    · rw [hsame]
      exact ih m
    · exact .head ⟨r, p, hr, hp, hserve⟩ (ih _)

theorem evictEach_scheduled {l : List RequestId} (hl : ∀ r ∈ l, ∃ p, m.requests.get? r = some p) :
    ∃ t, l.foldlM evictFor m = some t ∧ Scheduled m t := by
  induction l generalizing m with
  | nil => exact ⟨m, rfl, .refl⟩
  | cons r l ih =>
    obtain ⟨p, hr⟩ := hl r List.mem_cons_self
    obtain ⟨u, hu, hcase⟩ := evictFor_cases hr
    have hone : Scheduled m u := by
      rcases hcase with ⟨rfl, -⟩ | ⟨hp, hserve, -⟩
      · exact .refl
      · exact .single ⟨r, p, hr, hp, hserve⟩
    obtain ⟨t, ht, hrest⟩ := ih fun j hj => hone.present (hl j (List.mem_cons_of_mem _ hj))
    rw [List.foldlM_cons, hu]
    exact ⟨t, ht, hone.trans hrest⟩

/-- `schedule` never fails, and serves one waiting request after the other. -/
theorem exists_schedule (m : PoolMachine) : ∃ t, m.schedule = some t ∧ Scheduled m t := by
  unfold schedule
  split_ifs
  · exact ⟨m, rfl, .refl⟩
  · set waiting := m.requests.keysWhere fun _ p => p.state == .waiting
    obtain ⟨u, hu, hreuse⟩ := reuseEach_scheduled (l := waiting)
      (SortedMap.nodup_keysWhere _ _) m.waiting_of_mem
    have hopen : Scheduled m (waiting.foldl openFor u) :=
      hreuse.trans (openEach_scheduled waiting u)
    obtain ⟨t, ht, hevict⟩ := evictEach_scheduled (l := waiting) fun r hr =>
      hopen.present ((m.waiting_of_mem r hr).imp fun _ hp => hp.1)
    exact ⟨t, Option.bind_eq_some_iff.2 ⟨u, hu, ht⟩, hopen.trans hevict⟩

theorem schedule_scheduled (hx : m.schedule = some t) : Scheduled m t := by
  obtain ⟨u, hu, hs⟩ := exists_schedule m
  cases hx.symm.trans hu
  exact hs

/-- `schedule` never fails, and serves waiting requests only. -/
theorem schedule_does (m : PoolMachine) : total.Does m [] m.schedule (Kept m) := by
  obtain ⟨t, ht, hs⟩ := exists_schedule m
  rw [ht]
  exact .of_weak hs.weak hs.kept

theorem lapseHolds_weak (m : PoolMachine) : Weak Move m [] m.lapseHolds := by
  unfold lapseHolds
  simp only
  split_ifs
  · exact .refl m
  · have hopen : ∀ (l : List RequestId) (t : PoolMachine), Weak Move t [] (l.foldl
        (fun m r => if (m.requests.get? r).any (·.state == .waiting) then m.openFor r else m)
        t) := by
      intro l
      induction l with
      | nil => exact .refl
      | cons r l ih =>
        intro t
        rw [List.foldl_cons]
        have hone : Weak Move t []
            (if (t.requests.get? r).any (·.state == .waiting) then t.openFor r else t) := by
          split_ifs
          · exact openFor_weak t r
          · exact .refl t
        exact hone.trans (ih _)
    exact .trans (.trans (.silent (.lapse _ fun q => SortedMap.countWhere_foldl_erase_le _ q _))
      (hopen _ _)) (weak_touch _)

end PoolMachine

end GwzTransport.Pool
