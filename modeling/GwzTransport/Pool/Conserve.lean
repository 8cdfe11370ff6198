import GwzTransport.Pool.Work
import GwzTransport.Pool.Course

/-!
# Work conservation over runs

Every public call either frees nothing (`Calm`), or prepares something and runs `schedule` last, or
stops the pool; so between the calls no waiting request can be served.  `scope_https` is the
exception: it does not run `schedule`, but the connection that a request prefers and waits for may
get an identity that does not suit the request any more.

* `KeepsPreference`: the calls without that;
* `Ends`: how a call ends, one lemma for each call and `call_ends` for all;
* `work_conserved`: between the calls of a run `schedule` has nothing to do.
-/

namespace GwzTransport.Pool

open Protocol MachineInt Transition

namespace PoolMachine

variable {m t u : PoolMachine} {c : ConnectionId} {e e' : Entry} {call : Call} {out : Outcome}
  {result : Except Error Unit} {site : Site}
  {r : RequestId} {p p' : Pending} {tr : List (Call × Outcome)}

/-! ### Calls that free nothing -/

theorem Calm.of_fills (hf : Fills m t) (hl : KeepsLeases m t) (hs : t.settles = m.settles)
    (hreq : ∀ r p, t.requests.get? r = some p → m.requests.get? r = some p) : Calm m t where
  fills := hf
  settles := hs
  requests := hreq
  waits r p hr _ := preferWaits_of_other hf hl (hr.trans (hreq r p hr).symm)

theorem Calm.refl (m : PoolMachine) : Calm m m :=
  .of_fills (.refl m) (.refl m) rfl fun _ _ => id

theorem Calm.touch (m : PoolMachine) : Calm m m.touch :=
  .of_fills (.of_requests _ _ _) (.refl m) rfl fun _ _ => id

theorem Calm.trans (h : Calm m t) (h' : Calm t u) : Calm m u where
  fills := h.fills.trans h'.fills
  settles := h'.settles.trans h.settles
  requests r p hr := h.requests r p (h'.requests r p hr)
  waits r p hr hp := h'.waits r p hr hp ∘ h.waits r p (h'.requests r p hr) hp

/-- A request that goes. -/
theorem Calm.forget (m : PoolMachine) (r : RequestId) : Calm m (m.forget r).touch := by
  refine .of_fills (.of_requests _ _ _) (.refl m) rfl fun j p hj => ?_
  have hj : (m.requests.erase r).get? j = some p := hj
  rw [SortedMap.get?_erase] at hj
  split_ifs at hj
  exact hj

/-- A connection that is neither idle nor leased moves on. -/
theorem Calm.of_insert (hc : m.entries.get? c = some e) (hkey : e'.key = e.key)
    (hidle : e'.state.isIdle = false) (hlease : e.state.isLeased = false)
    (howned : ∀ session, OwnedBy session e = true → OwnedBy session e' = true) (revision : ℕ) :
    Calm m { m with entries := m.entries.insert c e', revision } := by
  refine .of_fills (.of_insert hc hkey hidle howned _ _ _) (.of_insert rfl fun x hx => ?_) rfl
    fun _ _ => id
  cases hc.symm.trans hx
  exact hlease

/-- The clock of an opening connection moves on. -/
theorem Calm.of_opening {o : Opening} (hc : m.entries.get? c = some e) (he : e.state = .opening o)
    (o' : Opening) (revision : ℕ) :
    Calm m { m with entries := m.entries.insert c { e with state := .opening o' }, revision } := by
  refine .of_insert hc ?_ ?_ (by rw [he]; rfl) (fun session ho => ?_) revision
  · rfl
  · rfl
  · simpa [OwnedBy, he, State.isOpening] using ho

theorem putConnectClock_calm (m : PoolMachine) (c : ConnectionId) (k : ConnectClock) :
    Calm m (m.putConnectClock c k) := by
  unfold putConnectClock
  cases hc : m.entries.get? c with
  | none => exact .refl m
  | some e =>
    dsimp only
    cases he : e.state with
    | opening o => exact .of_opening hc he _ m.revision
    | _ => exact .refl m

theorem claim_calm (m : PoolMachine) (c : ConnectionId) : Calm m (m.claim c) := by
  unfold claim
  cases hc : m.entries.get? c with
  | none => exact .refl m
  | some e =>
    dsimp only
    cases he : e.state with
    | leased l q =>
      refine .of_fills (.of_insert hc ?_ ?_ (fun session ho => ?_) _ _ m.revision) ?_ rfl
        fun _ _ => id
      · rfl
      · rfl
      · simpa [OwnedBy, he, State.isOpening, State.isLeased] using ho
      · intro d x l' q' hd hx
        by_cases hdc : d = c
        · subst hdc
          cases hc.symm.trans hd
          cases he.symm.trans hx
          exact ⟨_, none, SortedMap.get?_insert_self _ _ _, rfl, rfl, rfl, rfl⟩
        · exact ⟨x, q', (SortedMap.get?_insert_of_ne _ hdc _).trans hd, hx, rfl, rfl, rfl⟩
    | _ => exact .refl m

theorem take_calm (m : PoolMachine) (r : RequestId) : Calm m (m.take r).1 := by
  unfold take
  split
  · exact .refl m
  · exact (claim_calm m _).trans (.forget _ r)
  · exact .forget m r
  · exact .refl m

/-- Waiting for the preferred connection depends on that connection only. -/
theorem preferWaits_congr (hnow : t.now = m.now) (hreq : t.requests = m.requests)
    (hent : ∀ p c, m.requests.get? r = some p → p.request.prefer = some c →
      t.entries.get? c = m.entries.get? c) : t.preferWaits r = m.preferWaits r := by
  unfold preferWaits
  rw [hreq]
  cases hr : m.requests.get? r with
  | none => rfl
  | some p =>
    dsimp only
    cases hprefer : p.request.prefer with
    | none => rfl
    | some c =>
      cases p.preferWait with
      | none => rfl
      | some x =>
        dsimp only
        rw [hnow, hent p c hr hprefer]

/-- A connection that gains a scope is not waited for by a request that prefers it. -/
def KeepsPreference (m : PoolMachine) (call : Call) : Prop :=
  ∀ l scope, call = .scopeHttps l scope → m.isLive l = true →
    ∀ e, m.entries.get? l.connection = some e → e.identity = .https →
      (Identity.httpsScoped scope).validFor e.key = true → ∀ r p, m.requests.get? r = some p →
        p.state = .waiting → p.request.prefer = some l.connection → m.preferWaits r = false

theorem scopeHttps_calm {l : LeaseId} {scope : String}
    (h : KeepsPreference m (.scopeHttps l scope)) : Calm m (m.scopeHttps l scope).1 := by
  unfold scopeHttps
  split_ifs with hlive
  · exact .refl m
  · obtain ⟨e, q, hc, he⟩ := entry_of_isLive (by simpa using hlive)
    simp only [hc]
    split_ifs with hvalid
    · exact .refl m
    · split
      · rename_i hid
        refine ⟨.of_insert hc ?_ ?_ (fun session ho => ?_) _ _ _, rfl, fun _ _ => id,
          fun r p hr hp hwait => ?_⟩
        · rfl
        · dsimp only
          rw [he]
          rfl
        · exact ho
        · rw [preferWaits_congr (m := m) (by rfl) (by rfl) fun p' c hr' hprefer => ?_]
          · exact hwait
          refine SortedMap.get?_insert_of_ne _ ?_ _
          -- the request would not wait for the connection that gains the scope
          rintro rfl
          cases Option.some.inj (hr.symm.trans hr')
          rw [h l scope rfl (by simpa using hlive) e hc hid (by simpa using hvalid) r p hr hp
            hprefer] at hwait
          cases hwait
      · split_ifs
        · exact .touch m
        · exact .refl m
      · exact .refl m

theorem nextAction_calm (m : PoolMachine) : Calm m m.nextAction.1 := by
  unfold nextAction
  cases hx : (m.firstAction m.cleanupAction).or (m.firstAction m.connectAction) with
  | none => exact .refl m
  | some x =>
    obtain ⟨c, action, e'⟩ := x
    rcases Option.or_eq_some_iff.1 hx with hx | ⟨-, hx⟩
    · obtain ⟨e, hc, he⟩ := entry_of_firstAction hx
      unfold cleanupAction at he
      cases hs : e.state with
      | opening o =>
        simp only [hs] at he
        obtain ⟨k, hk, he⟩ := Option.bind_eq_some_iff.1 he
        split_ifs at he
        · cases he
          exact .of_opening hc hs _ _
        · cases he
          exact .of_opening hc hs _ _
      | closing reason k =>
        simp only [hs] at he
        have hshut : ∀ (k' : Cleanup) (v : ℕ), Calm m
            { m with
              entries := m.entries.insert c { e with state := .closing reason k' }
              revision := v } := by
          intro k' v
          refine .of_insert hc ?_ ?_ (by rw [hs]; rfl) (fun session ho => ?_) v
          · rfl
          · rfl
          · simp [OwnedBy, hs, State.isOpening, State.isLeased] at ho
        split_ifs at he
        · cases he
          exact hshut _ _
        · cases he
          exact hshut _ _
      | _ => simp [hs] at he
    · obtain ⟨e, hc, he⟩ := entry_of_firstAction hx
      unfold connectAction at he
      cases hs : e.state with
      | opening o =>
        simp only [hs] at he
        split_ifs at he
        · cases he
          exact .of_opening hc hs _ _
        · cases he
          exact .of_opening hc hs _ _
      | _ => simp [hs] at he

theorem discardIdle_calm (h : Owned m) {n : ℕ}
    (hx : m.discardIdle site = some (t, n)) : Calm m t := by
  obtain ⟨u, hu, hx⟩ := Option.bind_eq_some_iff.1 hx
  cases hx
  refine ((Guard.Does.foldlM (g := total) (f := fun m c => m.startClosing c .discarded)
    (I := fun l t => Calm m t ∧ l.Nodup ∧
      ∀ c ∈ l, ∃ e, t.entries.get? c = some e ∧ e.state.isIdle = true)
    (fun c l t _ hI => ?_) _ m h
    ⟨.refl m, SortedMap.nodup_keysWhere _ _, fun c hc => ?_⟩).2 _ hu).2.1
  · obtain ⟨hcalm, hn, hidle⟩ := hI
    obtain ⟨e, hc, hi⟩ := hidle c List.mem_cons_self
    have hopen : e.state.isClosing = false ∧ e.state.isLeased = false := by
      cases hs : e.state <;> simp_all [State.isIdle, State.isClosing, State.isLeased]
    rw [startClosing_eq hc hopen.1]
    refine .step (.close hc (.inl hi) _ _ _) ⟨hcalm.trans (.of_insert hc ?_ ?_ hopen.2
      (fun session ho => ?_) _), hn.tail, fun d hd => ?_⟩
    · rfl
    · rfl
    · rw [ownedBy_idle hi] at ho
      cases ho
    · have hdc : d ≠ c := fun hdc => (List.nodup_cons.1 hn).1 (hdc ▸ hd)
      obtain ⟨x, hx, hxi⟩ := hidle d (List.mem_cons_of_mem _ hd)
      exact ⟨x, (SortedMap.get?_insert_of_ne _ hdc _).trans hx, hxi⟩
  · obtain ⟨e, hc, he⟩ := (SortedMap.mem_keysWhere _).1 hc
    exact ⟨e, hc, (Bool.and_eq_true_iff.1 he).1⟩

theorem beginInteraction_calm (m : PoolMachine) (c : ConnectionId) :
    Calm m (m.beginInteraction c).1 := by
  unfold beginInteraction
  split
  · exact .refl m
  · split
    · split
      · dsimp only
        split_ifs
        · exact .refl m
        · exact .refl m
        · exact putConnectClock_calm m c _
      · exact .refl m
    · exact .refl m

theorem endInteraction_calm (m : PoolMachine) (c : ConnectionId) :
    Calm m (m.endInteraction c).1 := by
  unfold endInteraction
  split
  · exact .refl m
  · rename_i e hc
    split
    · rename_i o he
      split
      · split_ifs
        · exact .refl m
        · exact .of_opening hc he _ m.revision
      · exact .refl m
    · exact .refl m

theorem beginLocalWait_calm (hx : m.beginLocalWait c = some (t, result)) : Calm m t := by
  unfold beginLocalWait at hx
  split at hx
  · cases hx
    exact .refl m
  · split at hx
    · split at hx
      · dsimp only at hx
        split at hx
        · cases hx
          exact .refl m
        · cases hx
          exact .refl m
        · split at hx
          · cases hx
            exact .refl m
          · split_ifs at hx
            · cases hx
              exact .refl m
            · cases hx
              exact .refl m
            · cases hx
              exact (putConnectClock_calm m c _).trans (.touch _)
        · split at hx
          · cases hx
            exact .refl m
          · obtain ⟨x, -, hx⟩ := Option.bind_eq_some_iff.1 hx
            cases hx
            exact putConnectClock_calm m c _
      · cases hx
        exact .refl m
    · cases hx
      exact .refl m

theorem endLocalWait_calm (m : PoolMachine) (c : ConnectionId) :
    Calm m (m.endLocalWait c).1 := by
  unfold endLocalWait
  split
  · exact .refl m
  · split
    · split
      · exact (putConnectClock_calm m c _).trans (.touch _)
      · exact putConnectClock_calm m c _
      · exact .refl m
    · exact .refl m

theorem installSetupClock_calm (m : PoolMachine) (c : ConnectionId) (source : ℕ → ℕ)
    (stallMs : ℕ) : Calm m (m.installSetupClock c source stallMs).1 := by
  unfold installSetupClock
  split
  · exact .refl m
  · split
    · split
      · exact .refl m
      · exact (putConnectClock_calm m c _).trans (.touch _)
    · exact .refl m

theorem useSetupClock_calm {use : SetupClock.Use} (hx : m.useSetupClock c use = some t) :
    Calm m t := by
  unfold useSetupClock at hx
  split at hx
  · cases hx
    exact .refl m
  · obtain ⟨clock, -, hx⟩ := Option.bind_eq_some_iff.1 hx
    cases hx
    exact putConnectClock_calm m c _

/-! ### Every call -/

/-- What a call does before `schedule`: it brings a request in, or prepares something; `advance`
then lets the holds lapse. -/
inductive Prelude (m : PoolMachine) : Call → PoolMachine → Prop
  | enter (request : Request) (absolute : Option ℕ) :
      Prelude m (.requestUntil request absolute) (m.enter request absolute)
  | prepares {call : Call} {u : PoolMachine} (h : Prepares m u) : Prelude m call u
  | lapse {call : Call} {u : PoolMachine} (h : Prepares m u) : Prelude m call u.lapseHolds

/-- How a call ends: nothing was freed, or only a settle time has changed, or `schedule` came last,
or the pool has stopped. -/
inductive Ends (m : PoolMachine) (call : Call) : PoolMachine → Prop
  | calm {t : PoolMachine} (h : Calm m t) : Ends m call t
  | settles {site milliseconds} (hc : call = .setSettle site milliseconds)
      (settles : List (Site × ℕ)) (revision : ℕ)
      (hs : ∀ x ∈ settles, x.2 = milliseconds ∨ x ∈ m.settles) :
      Ends m call { m with settles, revision }
  | scheduled {t u a} (hp : Prelude m call u) (hu : Owned u)
      (hx : u.schedule = some a) (ha : Calm a t) : Ends m call t
  | stopped {t : PoolMachine} (h : t.stopped = true) (hp : Prepares m t) : Ends m call t

theorem Ends.conserved (h : m.stopped = false → Conserved m) (he : Ends m call t)
    (hrun : t.stopped = false) : Conserved t := by
  cases he with
  | calm hc => exact (h (hc.fills.stopped ▸ hrun)).calm hc
  | settles _ settles revision =>
    have hf : Fills m { m with settles, revision } := .of_requests _ _ _
    intro r p hr hp
    have hwait := preferWaits_of_other hf (.refl m) (r := r) rfl
    obtain ⟨hreuse, hroom, hevict⟩ := h hrun r p hr hp
    exact ⟨hreuse.mono hf rfl hwait, hroom.mono hf rfl hwait, hevict.mono hf hwait⟩
  | scheduled _ hu hx ha => exact (schedule_conserves hu hx (ha.fills.stopped ▸ hrun)).calm ha
  | stopped hs =>
    rw [hs] at hrun
    cases hrun

theorem Ends.rescheduled (hp : Prepares m u) (hu : Owned u) (h : Rescheduled u t) :
    Ends m call t := by
  obtain ⟨a, hx, rfl⟩ := h.last
  exact .scheduled (.prepares hp) hu hx (.touch a)

theorem mem_assign {value : ℕ} {l : List (Site × ℕ)} {x : Site × ℕ}
    (hx : x ∈ assign site value l) : x = (site, value) ∨ x ∈ l := by
  induction l with
  | nil => exact .inl (List.mem_singleton.1 hx)
  | cons y l ih =>
    unfold assign at hx
    split_ifs at hx
    · exact (List.mem_cons.1 hx).imp_right (List.mem_cons_of_mem y)
    · rcases List.mem_cons.1 hx with rfl | hx
      · exact .inr List.mem_cons_self
      · exact (ih hx).imp_right (List.mem_cons_of_mem y)

theorem setSettle_ends (m : PoolMachine) (site : Site) (milliseconds : ℕ) :
    Ends m (.setSettle site milliseconds) (m.setSettle site milliseconds).1 := by
  unfold setSettle
  split
  · exact .calm (.refl m)
  · split_ifs
    · exact .calm (.refl m)
    · refine .settles rfl _ _ fun x hx => (mem_assign hx).imp_left fun h => ?_
      rw [h]

theorem requestUntil_ends (h : Owned m) {request : Request} {absolute : Option ℕ}
    {result : Except Error RequestId} (hx : m.requestUntil request absolute = some (t, result)) :
    Ends m (.requestUntil request absolute) t := by
  rcases requestUntil_cases hx with ⟨rfl, -⟩ | ⟨-, a, ha, rfl⟩
  · exact .calm (.refl t)
  · exact .scheduled (.enter request absolute) (h.enter request absolute) ha (.touch a)

theorem retireHttpsScope_ends (h : Owned m) {scope : String}
    (hx : m.retireHttpsScope scope = some t) : Ends m call t := by
  obtain ⟨u, hu, hx⟩ := Option.bind_eq_some_iff.1 hx
  obtain ⟨hp, hown⟩ := closeEach_prepares (g := fun _ => .cancelled) h hu
  exact .scheduled (.prepares hp) hown hx (.refl t)

/-- A request that is not there fails without a change. -/
theorem failRequest_error {error : Error} {reason : CloseReason} {x : Error}
    (hf : m.failRequest r error reason = some (t, .error x)) : t = m := by
  unfold failRequest at hf
  split at hf
  · cases hf
    rfl
  · split at hf
    · cases hf
    · obtain ⟨_, -, hf⟩ := Option.bind_eq_some_iff.1 hf
      cases hf
    · obtain ⟨_, -, hf⟩ := Option.bind_eq_some_iff.1 hf
      obtain ⟨_, -, hf⟩ := Option.bind_eq_some_iff.1 hf
      cases hf
    · obtain ⟨_, -, hf⟩ := Option.bind_eq_some_iff.1 hf
      obtain ⟨_, -, hf⟩ := Option.bind_eq_some_iff.1 hf
      cases hf

/-- A cancelled request: nothing, if it is not there, and a last `schedule` otherwise. -/
theorem cancel_cases (h : Owned m) (hx : m.cancel r = some (t, result)) :
    t = m ∧ result.isOk = false ∨
      result = .ok () ∧ ∃ u, (Prepares m u ∧ Owned u) ∧ u.schedule = some t := by
  obtain ⟨⟨u, res⟩, hf, hx⟩ := Option.bind_eq_some_iff.1 hx
  cases res with
  | error x =>
    cases hx
    exact .inl ⟨failRequest_error hf, rfl⟩
  | ok _ =>
    obtain ⟨a, ha, hx⟩ := Option.bind_eq_some_iff.1 hx
    cases hx
    exact .inr ⟨rfl, u, failRequest_prepares h hf, ha⟩

theorem cancel_ends (h : Owned m) (hx : m.cancel r = some (t, result)) : Ends m call t := by
  rcases cancel_cases h hx with ⟨rfl, -⟩ | ⟨-, u, ⟨hp, hu⟩, ha⟩
  · exact .calm (.refl t)
  · exact .scheduled (.prepares hp) hu ha (.refl t)

theorem abandon_ends (h : Owned m) (hx : m.abandon r = some t) : Ends m call t := by
  obtain ⟨⟨a, result⟩, hc, hx⟩ := Option.bind_eq_some_iff.1 hx
  rcases cancel_cases h hc with ⟨rfl, herr⟩ | ⟨rfl, u, ⟨hp, hu⟩, ha⟩
  · cases result with
    | error x =>
      cases hx
      exact .calm (.refl _)
    | ok _ => cases herr
  · cases hx
    exact .scheduled (.prepares hp) hu ha (.forget a r)

theorem cancelMatching_ends (h : Owned m) {matchesOwner : Owner → Bool}
    (hx : m.cancelMatching matchesOwner = some t) : Ends m call t := by
  obtain ⟨u, hu, hx⟩ := Option.bind_eq_some_iff.1 hx
  obtain ⟨v, hv, hx⟩ := Option.bind_eq_some_iff.1 hx
  obtain ⟨hfail, hown⟩ := failEach_prepares (f := fun r => r) (g := fun _ => .cancelled) h hu
  obtain ⟨hclose, hown⟩ := closeEach_prepares (f := fun c => c) (g := fun _ => .cancelled) hown hv
  exact .scheduled (.prepares (hfail.trans hclose)) hown hx (.refl t)

/-- A lease comes back: the connection is idle again, or it closes. -/
theorem releaseAt_ends (h : Owned m) {l : LeaseId} {disposition : Disposition} {since : Option ℕ}
    (hx : m.releaseAt l disposition since = some (t, result)) :
    Ends m call t := by
  rcases releaseAt_cases h l disposition since with
    ⟨error, hy⟩ | ⟨-, k, u, v, hv, ⟨hreq, hs, hh⟩, -, hlast, hy⟩
  · cases hx.symm.trans hy
    exact .calm (.refl _)
  · cases hx.symm.trans hy
    exact .rescheduled (.of_eq (hreq ▸ .refl _) hs hh) (h.step hv) hlast

theorem connected_ends (hs : Sound m) {proof : Except Failure (Option Identity)}
    (hx : m.connected c proof = some (t, result)) : Ends m call t := by
  rcases connected_cases hs.owned hs.timely c proof with
    ⟨error, hy⟩ | ⟨u, v, w, hy, ⟨hw, htold⟩, hv, -, hlast⟩
  · cases hx.symm.trans hy
    exact .calm (.refl _)
  · cases hx.symm.trans hy
    have hu : Owned u := Guard.inv_weak (g := total) hw hs.owned
    have htold : Prepares m u := by
      rcases htold with rfl | ⟨clock, rfl⟩
      · exact .refl _
      · exact putConnectClock_prepares m c (.shared clock)
    exact .rescheduled (htold.trans (hv.connected_prepares hu)) (hu.step hv) hlast

theorem closed_ends (h : Owned m) (hx : m.closed c = some (t, result)) : Ends m call t := by
  unfold closed at hx
  cases hc : m.entries.get? c with
  | none =>
    rw [hc] at hx
    cases hx
    exact .calm (.refl m)
  | some e =>
    simp only [hc, Option.map_some] at hx
    cases he : e.state with
    | closing reason k =>
      simp only [he] at hx
      split_ifs at hx with hk
      · obtain ⟨a, ha, hx⟩ := Option.bind_eq_some_iff.1 hx
        cases hx
        rw [dispose_eq hc] at ha
        exact .scheduled (.prepares (.of_dispose (q := m.requests) (.refl _) c true m.revision))
          (h.step (.closed hc he hk m.revision)) ha (.touch a)
      · cases hx
        exact .calm (.refl m)
    | _ =>
      simp only [he] at hx
      cases hx
      exact .calm (.refl m)

theorem idleClosed_ends (h : Owned m) (hx : m.idleClosed c = some (t, result)) : Ends m call t := by
  unfold idleClosed at hx
  cases hc : m.entries.get? c with
  | none =>
    rw [hc] at hx
    cases hx
    exact .calm (.refl m)
  | some e =>
    simp only [hc] at hx
    split_ifs at hx with he
    · obtain ⟨a, ha, hx⟩ := Option.bind_eq_some_iff.1 hx
      cases hx
      have hp : Prepares m { m with entries := m.entries.erase c } := .of_eq (.refl _) rfl rfl
      exact .scheduled (.prepares hp) (h.step (.idleClosed hc he m.revision)) ha (.touch a)
    · cases hx
      exact .calm (.refl m)

theorem expireIdle_ends (h : Owned m) {n : ℕ} (hx : m.expireIdle = some (t, n)) :
    Ends m call t := by
  obtain ⟨u, hu, hx⟩ := Option.bind_eq_some_iff.1 hx
  obtain ⟨a, ha, hx⟩ := Option.bind_eq_some_iff.1 hx
  cases hx
  obtain ⟨hp, hown⟩ := closeEach_prepares (f := fun c => c) (g := fun _ => .idleExpired) h hu
  exact .scheduled (.prepares hp) hown ha (.refl _)

theorem advance_ends (h : Owned m) {now : ℕ} (hx : m.advance now = some t) : Ends m call t := by
  rcases advance_passes h hx with ⟨-, rfl⟩ | ⟨-, u, expired, v, w, a, hu, hv, hw, ha, rfl⟩
  · exact .calm (.refl t)
  · have hnow : Prepares m { m with now } := .of_eq (.refl _) rfl rfl
    have hfail := (failEach_prepares (f := Prod.fst) (g := Prod.snd) hu.2 hv.1).1
    have hclose := (closeEach_prepares (f := Prod.fst) (g := Prod.snd) hv.2 hw.1).1
    refine .scheduled (.lapse (((hnow.trans (collectExpired_prepares hu.1)).trans hfail).trans
      hclose)) (Guard.inv_weak (g := total) (lapseHolds_weak w) hw.2) ha ?_
    split_ifs
    · exact .touch a
    · exact .refl a

/-- A new number of the host, and `schedule` with it. -/
theorem Ends.of_numbers (h : Owned m) {limits : List (Site × ℕ)} {noEvicts : List Site}
    (hx : schedule { m with limits, noEvicts } = some t) : Ends m call t.touch := by
  have hp : Prepares m { m with limits, noEvicts } := .of_eq (.refl _) rfl rfl
  exact .scheduled (.prepares hp) (h.numbers limits noEvicts) hx (.touch t)

theorem setLimit_ends (h : Owned m) {limit : ℕ}
    (hx : m.setLimit site limit = some (t, result)) : Ends m call t := by
  unfold setLimit at hx
  split at hx
  · cases hx
    exact .calm (.refl m)
  · split_ifs at hx
    · cases hx
      exact .calm (.refl m)
    · obtain ⟨a, ha, hx⟩ := Option.bind_eq_some_iff.1 hx
      cases hx
      exact .of_numbers h ha

theorem clearLimit_ends (h : Owned m) (hx : m.clearLimit site = some t) :
    Ends m call t := by
  obtain ⟨a, ha, hx⟩ := Option.bind_eq_some_iff.1 hx
  cases hx
  exact .of_numbers h ha

theorem setNoEvict_ends (h : Owned m) {on : Bool}
    (hx : m.setNoEvict site on = some (t, result)) : Ends m call t := by
  unfold setNoEvict at hx
  split at hx
  · cases hx
    exact .calm (.refl m)
  · split_ifs at hx
    · cases hx
      exact .calm (.refl m)
    · split at hx
      · obtain ⟨a, ha, hx⟩ := Option.bind_eq_some_iff.1 hx
        cases hx
        exact .of_numbers h ha
      · obtain ⟨a, ha, hx⟩ := Option.bind_eq_some_iff.1 hx
        cases hx
        exact .of_numbers h ha
      · cases hx
        exact .calm (.refl m)

/-- A call whose answer is built from what the pool's own function returns. -/
theorem Ends.of_map {α : Type} {x : Option α} {f : α → PoolMachine × Outcome}
    (hstep : x.map f = some (t, out)) (h : ∀ {a}, x = some a → Ends m call (f a).1) :
    Ends m call t := by
  obtain ⟨a, ha, hy⟩ := Option.map_eq_some_iff.1 hstep
  have ht := h ha
  rwa [hy] at ht

theorem call_ends (hs : Sound m) (hk : KeepsPreference m call) (hstep : m.Step (call, out) t) :
    Ends m call t := by
  have h := hs.owned
  cases call with
  | requestUntil request absolute => exact .of_map hstep (requestUntil_ends h)
  | take r =>
    cases hstep
    exact .calm (take_calm m r)
  | scopeHttps l scope =>
    cases hstep
    exact .calm (scopeHttps_calm hk)
  | retireHttpsScope scope => exact .of_map hstep (retireHttpsScope_ends h)
  | cancel r => exact .of_map hstep (cancel_ends h)
  | abandon r => exact .of_map hstep (abandon_ends h)
  | cancelOperation owner => exact .of_map hstep (cancelMatching_ends h)
  | cancelSession session => exact .of_map hstep (cancelMatching_ends h)
  | release l disposition => exact .of_map hstep (releaseAt_ends h)
  | releaseUnused l => exact .of_map hstep (releaseAt_ends h)
  | connected c result => exact .of_map hstep (connected_ends hs)
  | closed c => exact .of_map hstep (closed_ends h)
  | idleClosed c => exact .of_map hstep (idleClosed_ends h)
  | expireIdle => exact .of_map hstep (expireIdle_ends h)
  | discardIdle site => exact .of_map hstep fun hx => .calm (discardIdle_calm h hx)
  | shutdown =>
    exact .of_map hstep fun hx => .stopped ((stop_does h _ _).2 _ hx).2.1
      (stop_prepares h m.driverLost hx)
  | driverLost =>
    have hlost : Owned { m with driverLost := true } := h.of_eq rfl rfl rfl rfl rfl
    exact .of_map hstep fun hx =>
      .stopped ((stop_does hlost _ _).2 _ hx).2.1 (stop_prepares h true hx)
  | nextAction =>
    cases hstep
    exact .calm (nextAction_calm m)
  | advance now => exact .of_map hstep (advance_ends h)
  | beginInteraction c =>
    cases hstep
    exact .calm (beginInteraction_calm m c)
  | endInteraction c =>
    cases hstep
    exact .calm (endInteraction_calm m c)
  | beginLocalWait c => exact .of_map hstep fun hx => .calm (beginLocalWait_calm hx)
  | endLocalWait c =>
    cases hstep
    exact .calm (endLocalWait_calm m c)
  | installSetupClock c source stallMs =>
    cases hstep
    exact .calm (installSetupClock_calm m c source stallMs)
  | setLimit site limit => exact .of_map hstep (setLimit_ends h)
  | clearLimit site => exact .of_map hstep (clearLimit_ends h)
  | setSettle site milliseconds =>
    cases hstep
    exact setSettle_ends m site milliseconds
  | setNoEvict site on => exact .of_map hstep (setNoEvict_ends h)
  | useSetupClock c use => exact .of_map hstep fun hx => .calm (useSetupClock_calm hx)

theorem conserved_run {config : Config} {poolId : ℕ}
    (h : Run (StepUnder KeepsPreference) (fresh config poolId) tr m) :
    m.stopped = false → Conserved m := by
  refine (h.invariant (P := fun _ m => Sound m ∧ (m.stopped = false → Conserved m))
    ⟨sound_fresh config poolId, fun _ _ _ hr => (by cases hr)⟩ ?_).2
  rintro _ m ⟨call, out⟩ t - ⟨hs, hm⟩ ⟨hk, hstep⟩
  exact ⟨hs.step hstep, (call_ends hs hk hstep).conserved hm⟩

/-- In every run in which no connection gains a scope while a request that prefers it waits for
it, `schedule` has nothing to do between the calls: a waiting request whose owner is below its
limits and that does not wait for its preferred connection has no idle connection that suits it,
unless it wants a fresh one; one of its bounds is full; and if an eviction would make room, one is
on its way.  In every run whatever, `schedule` is idempotent. -/
theorem work_conserved {config : Config} {poolId : ℕ} :
    (∀ tr m t, Run Step (fresh config poolId) tr m → m.schedule = some t → t.schedule = some t) ∧
    ∀ tr m, Run (StepUnder KeepsPreference) (fresh config poolId) tr m → m.stopped = false →
      m.schedule = some m ∧
      ∀ r p, m.requests.get? r = some p → p.state = .waiting → m.ownerFull p.request = false →
        m.preferWaits r = false →
        (p.request.fresh = false → ∀ c e, m.entries.get? c = some e → e.state.isIdle = true →
          compatible p.request c e = false) ∧
        (m.entries.size ≥ (m.ceilingsFor p.request).total ∨
          m.hostTotal p.request.key.host ≥ (m.ceilingsFor p.request).perHost ∨
          m.userHostTotal p.request.key ≥ (m.ceilingsFor p.request).perUserHost ∨
          m.siteFull p.request.key = true) ∧
        (m.noEvicts.any p.request.key.onSite = false →
          (∃ c e, m.entries.get? c = some e ∧ e.state.isIdle = true ∧
            m.insideFull p.request e = true) →
          ∃ victim, p.eviction = some victim ∧
            ((m.entries.get? victim).isSome = true ∨ (m.holds.get? victim).isSome = true)) := by
  refine ⟨fun tr m t hrun hx => schedule_idem (sound_run hrun).owned hx, fun tr m hrun hstop => ?_⟩
  have h := conserved_run hrun hstop
  refine ⟨h.schedule_eq, fun r p hr hp howner hwait => ?_⟩
  obtain ⟨hreuse, hroom, hevict⟩ := h r p hr hp
  simp only [Unreusable, Roomless, Unevictable, howner, hwait, Bool.false_eq_true,
    false_or] at hreuse hroom hevict
  refine ⟨fun hfresh => ?_, ?_, fun hallow ⟨c, e, hc, hi, hin⟩ => ?_⟩
  · rw [hfresh] at hreuse
    exact hreuse.resolve_left Bool.false_ne_true
  · simp only [boundFull, Bool.or_eq_true, decide_eq_true_eq] at hroom
    tauto
  · rw [hallow] at hevict
    rcases hevict with h | h | h
    · obtain ⟨victim, hv, h⟩ := (Option.any_eq_true _ _).1 h
      exact ⟨victim, hv, Bool.or_eq_true_iff.1 h⟩
    · cases h
    · rw [h c e hc hi] at hin
      cases hin

/-- `KeepsPreference` as a check. -/
def keepsPreference (m : PoolMachine) : Call → Bool
  | .scopeHttps _ _ => m.requests.toList.all fun x => !m.preferWaits x.1
  | _ => true

theorem keepsPreference_sound (m : PoolMachine) (call : Call)
    (h : m.keepsPreference call = true) : m.KeepsPreference call := by
  rintro l scope rfl - e - - - r p hr - -
  have := List.all_eq_true.1 h (r, p) ((SortedMap.mem_toList _).2 hr)
  simpa using this

/-- A site with room for one connection: the second request waits, with its site full. -/
theorem work_conserved_limited : ∃ tr m p,
    Run (StepUnder KeepsPreference) (fresh .default 1) tr m ∧
    m.requests.get? ⟨1, 2⟩ = some p ∧ p.state = .waiting ∧ m.schedule = some m ∧
    (m.entries.size ≥ (m.ceilingsFor p.request).total ∨
      m.hostTotal p.request.key.host ≥ (m.ceilingsFor p.request).perHost ∨
      m.userHostTotal p.request.key ≥ (m.ceilingsFor p.request).perUserHost ∨
      m.siteFull p.request.key = true) := by
  obtain ⟨tr, m, hrun, hq⟩ := exists_run (m := fresh .default 1) keepsPreference
    keepsPreference_sound
    [.setLimit sshRequest.key.site 1, .requestUntil sshRequest none, .requestUntil sshRequest none]
    (fun _ m => !m.stopped && (m.requests.get? ⟨1, 2⟩).any fun p =>
      p.state == .waiting && !m.ownerFull p.request && !m.preferWaits ⟨1, 2⟩) (by decide +kernel)
  simp only [Option.any_eq_true, Bool.and_eq_true, beq_iff_eq, Bool.not_eq_true'] at hq
  obtain ⟨hstop, p, hr, ⟨hp, howner⟩, hwait⟩ := hq
  obtain ⟨hidle, hall⟩ := work_conserved.2 tr m hrun hstop
  exact ⟨tr, m, p, hrun, hr, hp, hidle, (hall _ p hr hp howner hwait).2.1⟩

/-- A request for HTTPS waits for the connection it prefers; the connection gains a scope that
does not suit the request.  The request waits no longer for it, and no bound is full, but nothing
opens a connection for it. -/
theorem scope_leaves_waiter : ∃ tr m p, Run Step (fresh .default 1) tr m ∧ m.stopped = false ∧
    m.requests.get? ⟨1, 2⟩ = some p ∧ p.state = .waiting ∧ m.ownerFull p.request = false ∧
    m.preferWaits ⟨1, 2⟩ = false ∧ m.boundFull p.request = false ∧ m.schedule ≠ some m := by
  obtain ⟨tr, m, hrun, hq⟩ := exists_any_run (m := fresh .default 1)
    [.requestUntil (httpsRequest .https "one") none, .nextAction,
      .connected ⟨1, 1⟩ (.ok (some .https)), .take ⟨1, 1⟩,
      .requestUntil
        { httpsRequest .https "two" with prefer := some ⟨1, 1⟩, preferWaitMs := some 1000 } none,
      .scopeHttps ⟨⟨1, 1⟩, 1⟩ "scope"]
    (fun _ m => !m.stopped && (m.requests.get? ⟨1, 2⟩).any fun p =>
      p.state == .waiting && !m.ownerFull p.request && !m.preferWaits ⟨1, 2⟩ &&
        !m.boundFull p.request && m.schedule.any fun t =>
          t.connectionSerial != m.connectionSerial) (by decide +kernel)
  simp only [Option.any_eq_true, Bool.and_eq_true, beq_iff_eq, Bool.not_eq_true', bne_iff_ne] at hq
  obtain ⟨hstop, p, hr, ⟨⟨⟨hp, howner⟩, hwait⟩, hroom⟩, t, ht, hserial⟩ := hq
  refine ⟨tr, m, p, hrun, hstop, hr, hp, howner, hwait, hroom, fun hsame => ?_⟩
  cases ht.symm.trans hsame
  exact hserial rfl

end PoolMachine

end GwzTransport.Pool
