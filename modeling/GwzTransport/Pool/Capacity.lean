import GwzTransport.Pool.Runs

/-!
# Capacity

Every bound of the pool is on a number of slots: connections in any state and the slots held for
disposed ones.  A move takes at most one slot more, and only when it reserves a connection for a
request that found room; a disposed connection hands its slot to its hold.  So no bound that was
checked when a slot was taken is ever exceeded, with the largest ceilings that a request of the run
carried.

A session's share is counted the same way over the connections it opens or leases.
-/

namespace GwzTransport.Pool

open Protocol MachineInt Transition

namespace PoolMachine

variable {m m' t : PoolMachine} {k : Option Mark} {tr : List (Call × Outcome)}

/-- The slots of the connections and holds whose key has a property. -/
def slots (m : PoolMachine) (q : Key → Bool) : ℕ :=
  m.entries.countWhere (fun e => q e.key) + m.holds.countWhere fun h => q h.key

theorem hostTotal_eq (m : PoolMachine) (host : String) :
    m.hostTotal host = m.slots (·.host == host) := by
  rw [hostTotal, countsForHost, countWhere_total]
  rfl

theorem userHostTotal_eq (m : PoolMachine) (key : Key) :
    m.userHostTotal key = m.slots (·.sameUserHost key) := by
  rw [userHostTotal, countsForUserHost, countWhere_total]
  rfl

theorem siteTotal_eq (m : PoolMachine) (site : Site) :
    m.siteTotal site = m.slots (·.onSite site) := by
  rw [siteTotal, settling, countWhere_total]
  rfl

/-! ### Moves -/

/-- The hold of a disposed connection takes its slot. -/
theorem holds_dispose_le {c : ConnectionId} {e : Entry} (hc : m.entries.get? c = some e)
    (settle : Bool) (q : Key → Bool) :
    (m.dispose c settle).holds.countWhere (fun h => q h.key) ≤
      m.holds.countWhere (fun h => q h.key) + (q e.key).toNat := by
  unfold dispose
  simp only [hc]
  split_ifs
  · exact Nat.le_add_right _ _
  · have := m.holds.countWhere_insert (fun h => q h.key) c
      ⟨e.key, satAdd m.now (m.settleMs e.key settle), m.requests.firstWhere fun _ p =>
        p.state == .waiting && p.eviction == some c⟩
    simp only at this ⊢
    omega

theorem countWhere_erase_add {c : ConnectionId} {e : Entry} (hc : m.entries.get? c = some e)
    (q : Key → Bool) : (m.entries.erase c).countWhere (fun e => q e.key) + (q e.key).toNat =
      m.entries.countWhere fun e => q e.key := by
  have := m.entries.countWhere_erase (fun e => q e.key) c
  rwa [hc, Option.any_some] at this

/-- Holds only go, except for one that takes the slot of a connection that goes. -/
theorem Move.holds_le (hv : Move m k m') :
    (∀ q : Key → Bool, m'.holds.countWhere (fun h => q h.key) ≤
      m.holds.countWhere fun h => q h.key) ∨
    ∃ c e, m.entries.get? c = some e ∧ m'.entries = m.entries.erase c ∧
      ∀ q : Key → Bool, m'.holds.countWhere (fun h => q h.key) ≤
        m.holds.countWhere (fun h => q h.key) + (q e.key).toNat := by
  cases hv with
  | lapse holds hh => exact .inl fun q => hh _
  | @connectedErr c e o hc he hclock error queue settle v =>
    exact .inr ⟨c, e, hc, rfl, holds_dispose_le (m := { m with requests := queue }) hc settle⟩
  | @closed c e reason x hc => exact .inr ⟨c, e, hc, rfl, holds_dispose_le hc true⟩
  | _ => exact .inl fun _ => le_rfl

/-- A move takes a slot only for a waiting request that finds room. -/
theorem Move.entries_le (hv : Move m k m') (q : Entry → Bool)
    (hq : ∀ c e e', e.Becomes m c k e' → q e' = q e) :
    m'.entries.countWhere q ≤ m.entries.countWhere q ∨
      ∃ r p o, m.requests.get? r = some p ∧ m.Room p.request ∧ q (m.reserved p o) = true ∧
        m'.entries.countWhere q ≤ m.entries.countWhere q + 1 := by
  have hch := hv.entryChange
  revert hq hch
  generalize m'.entries = es, m'.connectionSerial = serial
  intro hq hch
  cases hch with
  | keep => exact .inl le_rfl
  | @become c e e' k hc hb =>
    have := m.entries.countWhere_insert q c e'
    rw [hc, Option.any_some, hq c e e' hb] at this
    exact .inl (by omega)
  | leave => exact .inl (m.entries.countWhere_erase_le q _)
  | @reserve r p o hr hp hroom =>
    have := m.entries.countWhere_insert q m.nextConnection (m.reserved p o)
    cases hx : q (m.reserved p o) with
    | false =>
      rw [hx] at this
      exact .inl (by simp only [Bool.toNat_false] at this; omega)
    | true =>
      rw [hx] at this
      exact .inr ⟨r, p, o, hr, hroom, hx, by simp only [Bool.toNat_true] at this; omega⟩

theorem Move.slots_le (hv : Move m k m') (q : Key → Bool) :
    m'.slots q ≤ m.slots q ∨ ∃ r p, m.requests.get? r = some p ∧ m.Room p.request ∧
      q p.request.key = true ∧ m'.slots q ≤ m.slots q + 1 := by
  unfold slots
  rcases hv.holds_le with hh | ⟨c, e, hc, hent, hh⟩
  · have := hh q
    rcases hv.entries_le (fun e => q e.key) fun c e e' hb => by rw [hb.key] with he | he
    · exact .inl (by omega)
    · obtain ⟨r, p, o, hr, hroom, hq, he⟩ := he
      exact .inr ⟨r, p, hr, hroom, hq, by omega⟩
  · have := hh q
    have := countWhere_erase_add hc q
    rw [hent]
    exact .inl (by omega)

theorem Move.limits_eq (hv : Move m k m') : m'.limits = m.limits := by
  cases hv <;> rfl

/-! ### The bounds of the pool -/

/-- What the pool never exceeds. -/
structure Bounded (m : PoolMachine) (bounds : Capacity) : Prop where
  total : m.entries.size ≤ bounds.total
  perHost : ∀ host, m.hostTotal host ≤ bounds.perHost
  perUserHost : ∀ key, m.userHostTotal key ≤ bounds.perUserHost

/-- No request that is still there has larger ceilings. -/
def Carries (m : PoolMachine) (bounds : Capacity) : Prop :=
  ∀ r p, m.requests.get? r = some p → (m.ceilingsFor p.request).Within bounds

theorem ceilingsFor_eq (h : m'.config = m.config) (request : Request) :
    m'.ceilingsFor request = m.ceilingsFor request := by
  simp only [ceilingsFor, limitsOf, capacity, h]

theorem Carries.step {bounds : Capacity} (h : Carries m bounds) (hv : Move m k m') :
    Carries m' bounds := by
  intro r p' hr
  obtain ⟨p, hp, hb⟩ := hv.request_origin hr
  rw [ceilingsFor_eq hv.now_eq.2, hb.same]
  exact h r p hp

theorem Bounded.step {bounds : Capacity} (hc : Carries m bounds) (h : Bounded m bounds)
    (hv : Move m k m') : Bounded m' bounds where
  total := by
    have hle := h.total
    rw [SortedMap.size_eq_countWhere] at hle ⊢
    rcases hv.entries_le (fun _ => true) fun _ _ _ _ => rfl with hs | ⟨r, p, o, hr, hroom, -, hs⟩
    · exact hs.trans hle
    · have hroom := hroom.total
      have hceil := (hc r p hr).2.2.1
      rw [SortedMap.size_eq_countWhere] at hroom
      omega
  perHost host := by
    have hle := h.perHost host
    rw [hostTotal_eq] at hle ⊢
    rcases hv.slots_le (·.host == host) with hs | ⟨r, p, hr, hroom, hq, hs⟩
    · exact hs.trans hle
    · have hroom := hroom.host
      have hceil := (hc r p hr).2.1
      rw [hostTotal_eq, eq_of_beq hq] at hroom
      omega
  perUserHost key := by
    have hle := h.perUserHost key
    rw [userHostTotal_eq] at hle ⊢
    rcases hv.slots_le (·.sameUserHost key) with hs | ⟨r, p, hr, hroom, hq, hs⟩
    · exact hs.trans hle
    · have hroom := hroom.userHost
      have hceil := (hc r p hr).1
      -- the request's own key is of the same user and host
      simp only [userHostTotal_eq, Key.sameUserHost_congr hq] at hroom
      omega

/-- The largest ceilings of a run: those of the configuration and of every request. -/
def ceilings (config : Config) (tr : List (Call × Outcome)) : Capacity :=
  tr.foldl (fun bounds x => match x.1 with
    | .requestUntil request _ => bounds.sup (request.limits.getD config.capacity)
    | _ => bounds) config.capacity

theorem ceilings_snoc (config : Config) (tr : List (Call × Outcome)) (x : Call × Outcome) :
    (ceilings config tr).Within (ceilings config (tr ++ [x])) ∧
      ∀ request absolute, x.1 = .requestUntil request absolute →
        (request.limits.getD config.capacity).Within (ceilings config (tr ++ [x])) := by
  unfold ceilings
  rw [List.foldl_append, List.foldl_cons, List.foldl_nil]
  constructor
  · split
    · exact Capacity.within_sup_left _ _
    · exact Capacity.within_refl _
  · rintro request absolute hx
    rw [hx]
    exact Capacity.within_sup_right _ _

theorem config_within_ceilings (config : Config) (tr : List (Call × Outcome)) :
    config.capacity.Within (ceilings config tr) := by
  induction tr using List.reverseRecOn with
  | nil => exact Capacity.within_refl _
  | append_singleton tr x ih => exact ih.trans (ceilings_snoc config tr x).1

theorem Bounded.mono {bounds bounds' : Capacity} (h : Bounded m bounds)
    (hb : bounds.Within bounds') : Bounded m bounds' where
  total := h.total.trans hb.2.2.1
  perHost host := (h.perHost host).trans hb.2.1
  perUserHost key := (h.perUserHost key).trans hb.1

/-- The ceilings of a request that carries no more than a bound. -/
theorem ceilingsFor_within {bounds : Capacity} {request : Request}
    (hc : m.config.capacity.Within bounds)
    (hr : (request.limits.getD m.config.capacity).Within bounds) :
    (m.ceilingsFor request).Within bounds :=
  ⟨max_le hc.1 hr.1, max_le hc.2.1 hr.2.1, max_le hc.2.2.1 hr.2.2.1, max_le hc.2.2.2 hr.2.2.2⟩

theorem bounded_run {config : Config} {poolId : ℕ} (h : Run Step (fresh config poolId) tr m) :
    Bounded m (ceilings config tr) := by
  refine (h.invariant (P := fun tr m => Sound m ∧ m.config = config ∧
    Bounded m (ceilings config tr) ∧ Carries m (ceilings config tr)) ?_ ?_).2.2.1
  · refine ⟨sound_fresh config poolId, rfl, ⟨Nat.zero_le _, fun _ => ?_, fun _ => ?_⟩,
      fun _ _ hr => (by cases hr)⟩
    · rw [hostTotal_eq]
      exact Nat.zero_le _
    · rw [userHostTotal_eq]
      exact Nat.zero_le _
  · rintro tr m ⟨call, out⟩ t - ⟨hs, hconfig, hb, hc⟩ hstep
    obtain ⟨hgrow, hnew⟩ := ceilings_snoc config tr (call, out)
    obtain ⟨marks, hent, hw, -⟩ := call_weak hs hstep
    have hc' : Carries m (ceilings config (tr ++ [(call, out)])) :=
      fun r p hr => (hc r p hr).trans hgrow
    have hb' := hb.mono hgrow
    have hc₀ := (entered_config hent).trans hconfig
    have henter : Bounded (m.entered call out) (ceilings config (tr ++ [(call, out)])) ∧
        Carries (m.entered call out) (ceilings config (tr ++ [(call, out)])) := by
      revert hent
      generalize m.entered call out = u
      intro hent
      cases hent with
      | request =>
        refine ⟨⟨hb'.total, hb'.perHost, hb'.perUserHost⟩, SortedMap.forall_insert _ hc' ?_⟩
        refine ceilingsFor_within ?_ ?_
        · rw [hconfig]
          exact config_within_ceilings config _
        · rw [hconfig]
          exact hnew _ _ rfl
      | _ => exact ⟨⟨hb'.total, hb'.perHost, hb'.perUserHost⟩, hc'⟩
    have hkeep := hw.invariant (A := fun _ => True)
      (P := fun t => Bounded t (ceilings config (tr ++ [(call, out)])) ∧
        Carries t (ceilings config (tr ++ [(call, out)])))
      (fun _ _ _ _ ht hv => ⟨ht.1.step ht.2 hv, ht.2.step hv⟩) (fun _ _ => trivial) henter
    exact ⟨hs.step hstep, (now_weak hw).2.trans hc₀, hkeep.1, hkeep.2⟩

/-- With no request above the configuration, the ceilings are the configured ones. -/
theorem ceilings_eq {config : Config} (h : ∀ x ∈ tr, ∀ request absolute,
      x.1 = .requestUntil request absolute →
        (request.limits.getD config.capacity).Within config.capacity) :
    ceilings config tr = config.capacity := by
  induction tr using List.reverseRecOn with
  | nil => rfl
  | append_singleton tr x ih =>
    have ih := ih fun y hy => h y (List.mem_append_left _ hy)
    unfold ceilings at ih ⊢
    rw [List.foldl_append, ih, List.foldl_cons, List.foldl_nil]
    split
    · rename_i request absolute hx
      exact Capacity.sup_eq_left (h x (List.mem_append_right _ List.mem_cons_self) _ _ hx)
    · rfl

/-! ### The limit of a site -/

theorem limit_assign (site other : Site) (value : ℕ) (l : List (Site × ℕ)) :
    ((assign site value l).find? (·.1 == other)).map (·.2) =
      if site = other then some value else (l.find? (·.1 == other)).map (·.2) := by
  induction l with
  | nil => by_cases h : site = other <;> simp [assign, h]
  | cons x l ih =>
    rw [assign]
    by_cases hx : x.1 = site
    · rw [if_pos hx]
      by_cases h : site = other
      · rw [List.find?_cons_of_pos (by simpa using h), if_pos h]
        rfl
      · rw [List.find?_cons_of_neg (by simpa using h),
          List.find?_cons_of_neg (by simpa [hx] using h), if_neg h]
    · rw [if_neg hx]
      by_cases hxo : x.1 = other
      · have h : site ≠ other := fun h => hx (hxo.trans h.symm)
        rw [List.find?_cons_of_pos (by simpa using hxo),
          List.find?_cons_of_pos (by simpa using hxo), if_neg h]
      · rw [List.find?_cons_of_neg (by simpa using hxo),
          List.find?_cons_of_neg (by simpa using hxo), ih]

theorem limit_filter {site other : Site} (h : site ≠ other) (l : List (Site × ℕ)) :
    (l.filter (·.1 != site)).find? (·.1 == other) = l.find? (·.1 == other) := by
  induction l with
  | nil => rfl
  | cons x l ih =>
    by_cases hx : x.1 = site
    · rw [List.filter_cons_of_neg (by simpa using hx), ih,
        List.find?_cons_of_neg (by simpa [hx] using h)]
    · rw [List.filter_cons_of_pos (by simpa using hx)]
      by_cases hxo : x.1 = other
      · rw [List.find?_cons_of_pos (by simpa using hxo),
          List.find?_cons_of_pos (by simpa using hxo)]
      · rw [List.find?_cons_of_neg (by simpa using hxo),
          List.find?_cons_of_neg (by simpa using hxo), ih]

/-- The site has the limit `l`, and no more slots. -/
def Limited (m : PoolMachine) (site : Site) (l : ℕ) : Prop :=
  m.limit site = some l ∧ m.siteTotal site ≤ l

/-- A connection is opened on a site with a limit only below it. -/
theorem siteTotal_lt_of_room {key : Key} {l : ℕ} (h : m.siteFull key = false)
    (hl : m.limit key.site = some l) : m.siteTotal key.site < l := by
  obtain ⟨x, hx, rfl⟩ := Option.map_eq_some_iff.1 hl
  have hfind : (m.limits.find? fun e => key.onSite e.1) = some x := by
    rw [← hx]
    refine congrArg₂ List.find? (funext fun e => ?_) rfl
    rw [Bool.eq_iff_iff, Key.onSite_iff, beq_iff_eq, eq_comm]
  have hsite : x.1 = key.site := by simpa using List.find?_some hx
  simpa [siteFull, hfind, hsite] using h

theorem Limited.step {site : Site} {l : ℕ} (h : Limited m site l) (hv : Move m k m') :
    Limited m' site l := by
  obtain ⟨hl, hle⟩ := h
  refine ⟨by rw [limit, hv.limits_eq]; exact hl, ?_⟩
  have hkeep := hv.slots_le (·.onSite site)
  rw [siteTotal_eq] at hle ⊢
  rcases hkeep with hs | ⟨r, p, hr, hroom, hq, hs⟩
  · exact hs.trans hle
  · have hkey := (Key.onSite_iff _ _).1 hq
    have := siteTotal_lt_of_room hroom.site (hkey ▸ hl)
    rw [siteTotal_eq, hkey] at this
    omega

/-- The call neither clears nor lowers the limit of the site. -/
def KeepsLimit (site : Site) (m : PoolMachine) (call : Call) : Prop :=
  call ≠ .clearLimit site ∧ ∀ l, call = .setLimit site l → ∀ n, m.limit site = some n → n ≤ l

/-- A call that keeps the limit of the site raises it, or leaves it. -/
theorem Limited.entered {site : Site} {l : ℕ} {call : Call} (h : Limited m site l)
    (hk : KeepsLimit site m call) (he : Entered m call t) :
    Limited t site l ∨ ∃ l', call = .setLimit site l' ∧ l ≤ l' ∧ Limited t site l' := by
  obtain ⟨hl, hle⟩ := h
  cases he with
  | @limit other value =>
    by_cases hs : other = site
    · subst hs
      have hraise := hk.2 value rfl l hl
      exact .inr ⟨value, rfl, hraise, by simp [limit, limit_assign], hle.trans hraise⟩
    · refine .inl ⟨?_, hle⟩
      simpa [limit, limit_assign, hs] using hl
  | @noLimit other =>
    have hs : other ≠ site := fun hs => hk.1 (by rw [hs])
    refine .inl ⟨?_, hle⟩
    rw [limit, limit_filter hs]
    exact hl
  | _ => exact .inl ⟨hl, hle⟩

theorem Limited.weak {site : Site} {l : ℕ} {marks : List Mark} (h : Limited m site l)
    (hw : Weak Move m marks t) : Limited t site l :=
  hw.invariant (A := fun _ => True) (P := fun t => Limited t site l)
    (fun _ _ _ _ ht hv => ht.step hv) (fun _ _ => trivial) h

/-- A limit set when the site had no more slots. -/
theorem limited_of_setLimit {site : Site} {n : ℕ} {out : Outcome} (h : Sound m)
    (hle : m.siteTotal site ≤ n) (hs : m.Step (.setLimit site n, out) t)
    (hok : out.accepted = true) : Limited t site n := by
  obtain ⟨marks, -, hw, -⟩ := call_weak h hs
  refine Limited.weak ⟨?_, ?_⟩ hw
  · simp [PoolMachine.entered, hok, limit, limit_assign]
  · simpa [PoolMachine.entered, hok, siteTotal, settling, countWhere] using hle

/-- Over a run the limit only grows, and not at all if no call sets a larger one. -/
theorem limited_run {site : Site} {n : ℕ} (hs : Sound m) (h : Limited m site n)
    (hrun : Run (StepUnder (KeepsLimit site)) m tr t) : ∃ l, Limited t site l ∧ n ≤ l ∧
      ((∀ x ∈ tr, ∀ l, x.1 = .setLimit site l → l ≤ n) → l = n) := by
  refine (hrun.invariant (P := fun tr t => Sound t ∧ ∃ l, Limited t site l ∧ n ≤ l ∧
    ((∀ x ∈ tr, ∀ l, x.1 = .setLimit site l → l ≤ n) → l = n))
    ⟨hs, n, h, le_rfl, fun _ => rfl⟩ ?_).2
  rintro tr m ⟨call, out⟩ t - ⟨hs, l, hl, hn, hsame⟩ ⟨hk, hstep⟩
  obtain ⟨marks, hent, hw, -⟩ := call_weak hs hstep
  refine ⟨hs.step hstep, ?_⟩
  rcases hl.entered hk hent with hl | ⟨l', hcall, hle, hl⟩
  · refine ⟨l, hl.weak hw, hn, fun hset => hsame fun x hx => ?_⟩
    exact hset x (List.mem_append_left _ hx)
  · refine ⟨l', hl.weak hw, hn.trans hle, fun hset => ?_⟩
    exact le_antisymm (hset (call, out) (by simp) l' hcall) (hn.trans hle)

/-- In every state of every run the connections and holds stay within the largest ceilings of the
run, which are the configured ones if no request carries larger limits; and a site whose limit was
set at no less than its slots, and was neither lowered nor cleared since, stays within the limit
that is in force, which is the one that was set unless a larger one was set since. -/
theorem capacity_bounds {config : Config} {poolId : ℕ}
    (h : Run Step (fresh config poolId) tr m) :
    Bounded m (ceilings config tr) ∧
    ((∀ x ∈ tr, ∀ request absolute, x.1 = .requestUntil request absolute →
      (request.limits.getD config.capacity).Within config.capacity) → Bounded m config.capacity) ∧
    ∀ site n out m₁ tr' m₂, m.siteTotal site ≤ n → m.Step (.setLimit site n, out) m₁ →
      out.accepted = true → Run (StepUnder (KeepsLimit site)) m₁ tr' m₂ →
      ∃ l, m₂.limit site = some l ∧ n ≤ l ∧ m₂.siteTotal site ≤ l ∧
        ((∀ x ∈ tr', ∀ l', x.1 = .setLimit site l' → l' ≤ n) → l = n) := by
  have hb := bounded_run h
  refine ⟨hb, fun hreq => ceilings_eq hreq ▸ hb, fun site n out m₁ tr' m₂ hle hset hok hrun => ?_⟩
  have hs := sound_run h
  obtain ⟨l, ⟨hl, htotal⟩, hn, hsame⟩ :=
    limited_run (hs.step hset) (limited_of_setLimit hs hle hset hok) hrun
  exact ⟨l, hl, hn, htotal, hsame⟩

/-- `KeepsLimit` as a check. -/
def keepsLimit (site : Site) (m : PoolMachine) : Call → Bool
  | .clearLimit other => other != site
  | .setLimit other l => other != site || (m.limit site).all (· ≤ l)
  | _ => true

theorem keepsLimit_sound (site : Site) (m : PoolMachine) (call : Call)
    (h : keepsLimit site m call = true) : KeepsLimit site m call := by
  constructor
  · rintro rfl
    simp [keepsLimit] at h
  · rintro l rfl n hn
    simpa [keepsLimit, hn] using h

/-- Two requests open two connections. -/
theorem capacity_bounds_two : ∃ tr m, Run Step (fresh .default 1) tr m ∧ m.hostTotal "host" = 2 ∧
    Bounded m (ceilings .default tr) := by
  obtain ⟨tr, m, hrun, hq⟩ := exists_any_run (m := fresh .default 1)
    [.requestUntil sshRequest none, .requestUntil sshRequest none]
    (fun _ m => m.hostTotal "host" == 2) (by decide +kernel)
  exact ⟨tr, m, hrun, eq_of_beq hq, (capacity_bounds hrun).1⟩

/-- A limit that is raised lets the site grow past the limit it had before. -/
theorem raised_limit_exceeds : ∃ out m₁ tr m,
    (fresh .default 1).siteTotal sshRequest.key.site ≤ 1 ∧
    (fresh .default 1).Step (.setLimit sshRequest.key.site 1, out) m₁ ∧ out.accepted = true ∧
    Run (StepUnder (KeepsLimit sshRequest.key.site)) m₁ tr m ∧
      1 < m.siteTotal sshRequest.key.site := by
  have h : ((fresh .default 1).call (.setLimit sshRequest.key.site 1)).any (fun x => x.2.accepted &&
      (x.1.replay (keepsLimit sshRequest.key.site) [.setLimit sshRequest.key.site 2,
        .requestUntil sshRequest none, .requestUntil sshRequest none]).any fun y =>
          decide (1 < y.2.siteTotal sshRequest.key.site)) = true := by decide +kernel
  obtain ⟨⟨m₁, out⟩, hset, h⟩ := (Option.any_eq_true _ _).1 h
  obtain ⟨hok, h⟩ := Bool.and_eq_true_iff.1 h
  obtain ⟨tr, m, hrun, hq⟩ := exists_run _ (keepsLimit_sound _) _
    (fun _ m => decide (1 < m.siteTotal sshRequest.key.site)) h
  exact ⟨out, m₁, tr, m, by decide, hset, hok, hrun, of_decide_eq_true hq⟩

/-! ### The share of a session -/

/-- The connection counts for the session. -/
def OwnedBy (session : String) (e : Entry) : Bool :=
  (e.state.isOpening || e.state.isLeased) && e.owner.any (·.session == session)

theorem ownedWhere_eq (m : PoolMachine) (session : String) (q : Entry → Bool) :
    m.ownedWhere session q = m.entries.countWhere fun e => OwnedBy session e && q e := rfl

/-- A connection comes to count for a session only when it is leased to one of its requests. -/
theorem Becomes.ownedBy {c : ConnectionId} {e e' : Entry} {session : String}
    (h : e.Becomes m c k e') (ho : OwnedBy session e' = true) : OwnedBy session e = true ∨
      ∃ r p, m.requests.get? r = some p ∧ p.request.owner.session = session ∧
        m.ownerFull p.request = false ∧ e.key = p.request.key := by
  cases h with
  | @lease r p since hr hp hfresh hfull he hcompat =>
    simp only [compatible, Bool.and_eq_true, beq_iff_eq] at hcompat
    refine .inr ⟨r, p, hr, ?_, hfull, hcompat.1.1.1⟩
    simpa [OwnedBy, State.isOpening, State.isLeased] using ho
  | cancel he => exact .inl (by simpa [OwnedBy, he, State.isOpening, Opening.cancelled] using ho)
  | clock he => exact .inl (by simpa [OwnedBy, he, State.isOpening] using ho)
  | connect he => exact .inl (by simpa [OwnedBy, he, State.isOpening] using ho)
  | cancelConnect he => exact .inl (by simpa [OwnedBy, he, State.isOpening] using ho)
  | abortConnect he => exact .inl (by simpa [OwnedBy, he, State.isOpening] using ho)
  | ready _ he => exact .inl (by simpa [OwnedBy, he, State.isOpening, State.isLeased] using ho)
  | take he => exact .inl (by simpa [OwnedBy, he, State.isOpening, State.isLeased] using ho)
  | scope => exact .inl ho
  | _ => cases ho

/-- A session gets one connection more only where it is below its limits. -/
theorem Move.owned_le (hv : Move m k m') (session : String) (q : Key → Bool) :
    m'.ownedWhere session (fun e => q e.key) ≤ m.ownedWhere session (fun e => q e.key) ∨
      ∃ r p, m.requests.get? r = some p ∧ p.request.owner.session = session ∧
        m.ownerFull p.request = false ∧ q p.request.key = true ∧
        m'.ownedWhere session (fun e => q e.key) ≤
          m.ownedWhere session (fun e => q e.key) + 1 := by
  have hch := hv.entryChange
  simp only [ownedWhere_eq]
  revert hch
  generalize m'.entries = es, m'.connectionSerial = serial
  intro hch
  cases hch with
  | keep => exact .inl le_rfl
  | @become c e e' k hc hb =>
    have hcount := m.entries.countWhere_insert (fun e => OwnedBy session e && q e.key) c e'
    rw [hc, Option.any_some, hb.key] at hcount
    by_cases ho : (OwnedBy session e' && q e.key) = true
    · obtain ⟨ho', hq⟩ := Bool.and_eq_true_iff.1 ho
      rcases Becomes.ownedBy hb ho' with hold | ⟨r, p, hr, hsession, hfull, hkey⟩
      · rw [ho, hold, hq] at hcount
        exact .inl (by simpa using hcount.le)
      · refine .inr ⟨r, p, hr, hsession, hfull, hkey ▸ hq, ?_⟩
        rw [ho, Bool.toNat_true] at hcount
        omega
    · rw [Bool.not_eq_true] at ho
      rw [ho, Bool.toNat_false] at hcount
      exact .inl (by omega)
  | leave => exact .inl (m.entries.countWhere_erase_le _ _)
  | @reserve r p o hr hp hroom =>
    have hcount := m.entries.countWhere_insert (fun e => OwnedBy session e && q e.key)
      m.nextConnection (m.reserved p o)
    by_cases ho : (OwnedBy session (m.reserved p o) && q (m.reserved p o).key) = true
    · obtain ⟨ho', hq⟩ := Bool.and_eq_true_iff.1 ho
      refine .inr ⟨r, p, hr, ?_, hroom.owner, hq, ?_⟩
      · simpa [OwnedBy, reserved, State.isOpening] using ho'
      · rw [ho, Bool.toNat_true] at hcount
        omega
    · rw [Bool.not_eq_true] at ho
      rw [ho, Bool.toNat_false] at hcount
      exact .inl (by omega)

/-- No move brings a request in. -/
theorem Move.requests_le (hv : Move m k m') (q : Request → Bool) :
    m'.requests.countWhere (fun p => q p.request) ≤
      m.requests.countWhere fun p => q p.request := by
  have hch := hv.requestChange
  revert hch
  generalize m'.requests = rs, m'.leaseSerial = serial
  intro hch
  cases hch with
  | keep => exact le_rfl
  | @set r p p' serial hr hserial hb =>
    have hcount := m.requests.countWhere_insert (fun p => q p.request) r p'
    rw [hr, Option.any_some, hb.same] at hcount
    rw [hb.same]
    dsimp only at hcount ⊢
    omega
  | drop => exact m.requests.countWhere_erase_le _ _

/-- What a session never exceeds. -/
structure Share (m : PoolMachine) (session : String) (limits : Capacity) : Prop where
  total : m.ownedWhere session (fun _ => true) ≤ limits.total
  perHost : ∀ host, m.ownedWhere session (·.key.host == host) ≤ limits.perHost
  perUserHost : ∀ key, m.ownedWhere session (·.key.sameUserHost key) ≤ limits.perUserHost
  requests : m.requests.countWhere (·.request.owner.session == session) ≤ limits.maxRequests

/-- The requests of the session that are still there all carry the same limits. -/
def Uniform (m : PoolMachine) (session : String) (limits : Capacity) : Prop :=
  ∀ r p, m.requests.get? r = some p → p.request.owner.session = session →
    m.limitsOf p.request = limits

theorem Uniform.step {session : String} {limits : Capacity} (h : Uniform m session limits)
    (hv : Move m k m') : Uniform m' session limits := by
  intro r p' hr
  obtain ⟨p, hp, hb⟩ := hv.request_origin hr
  rw [hb.same]
  intro hsession
  rw [← h r p hp hsession]
  simp only [limitsOf, capacity, hv.now_eq.2]

theorem Share.step {session : String} {limits : Capacity} (hu : Uniform m session limits)
    (h : Share m session limits) (hv : Move m k m') : Share m' session limits where
  total := by
    have hle := h.total
    rcases hv.owned_le session (fun _ => true) with hs | ⟨r, p, hr, rfl, hfull, -, hs⟩
    · exact hs.trans hle
    · have := hu r p hr rfl
      simp only [ownerFull, this, Bool.or_eq_false_iff, decide_eq_false_iff_not, not_le] at hfull
      omega
  perHost host := by
    have hle := h.perHost host
    rcases hv.owned_le session (·.host == host) with hs | ⟨r, p, hr, rfl, hfull, hq, hs⟩
    · exact hs.trans hle
    · have := hu r p hr rfl
      simp only [ownerFull, this, Bool.or_eq_false_iff, decide_eq_false_iff_not, not_le,
        eq_of_beq hq] at hfull
      omega
  perUserHost key := by
    have hle := h.perUserHost key
    rcases hv.owned_le session (·.sameUserHost key) with hs | ⟨r, p, hr, rfl, hfull, hq, hs⟩
    · exact hs.trans hle
    · have := hu r p hr rfl
      simp only [ownerFull, this, Bool.or_eq_false_iff, decide_eq_false_iff_not, not_le,
        Key.sameUserHost_congr hq] at hfull
      omega
  requests := (hv.requests_le (·.owner.session == session)).trans h.requests

/-- In every run, a session all of whose requests carry the limits `limits` opens and leases no
more connections, in total, per host and per user and host, and has no more requests outstanding,
than these limits say. -/
theorem session_share {config : Config} {poolId : ℕ} (h : Run Step (fresh config poolId) tr m)
    {session : String} {limits : Capacity}
    (hL : ∀ x ∈ tr, ∀ request absolute, x.1 = .requestUntil request absolute →
      request.owner.session = session → request.limits.getD config.capacity = limits) :
    Share m session limits := by
  refine (h.invariant (P := fun tr m => Sound m ∧ m.config = config ∧
    ((∀ x ∈ tr, ∀ request absolute, x.1 = .requestUntil request absolute →
      request.owner.session = session → request.limits.getD config.capacity = limits) →
      Share m session limits ∧ Uniform m session limits)) ?_ ?_).2.2 hL |>.1
  · exact ⟨sound_fresh config poolId, rfl, fun _ => ⟨⟨Nat.zero_le _, fun _ => Nat.zero_le _,
      fun _ => Nat.zero_le _, Nat.zero_le _⟩, fun _ _ hr => (by cases hr)⟩⟩
  · rintro tr m ⟨call, out⟩ t - ⟨hs, hconfig, hshare⟩ hstep
    obtain ⟨marks, hent, hw, -⟩ := call_weak hs hstep
    have hc := (entered_config hent).trans hconfig
    refine ⟨hs.step hstep, (now_weak hw).2.trans hc, fun hL => ?_⟩
    obtain ⟨hsh, hu⟩ := hshare fun x hx => hL x (List.mem_append_left _ hx)
    have hlast := hL (call, out) (List.mem_append_right _ List.mem_cons_self)
    refine hw.invariant (A := fun _ => True)
      (P := fun t => Share t session limits ∧ Uniform t session limits)
      (fun _ _ _ _ ht hv => ⟨ht.1.step ht.2 hv, ht.2.step hv⟩) (fun _ _ => trivial) ?_
    revert hent
    generalize m.entered call out = u
    intro hent
    cases hent with
    | @request request absolute id ha =>
      refine ⟨⟨hsh.total, hsh.perHost, hsh.perUserHost, ?_⟩, SortedMap.forall_insert _ hu ?_⟩
      · have hcount := m.requests.countWhere_insert (·.request.owner.session == session) id
          (m.pending request absolute)
        rw [hs.owned.absent_of_admitted ha, Option.any_none, Bool.toNat_false,
          Nat.add_zero] at hcount
        rw [hcount]
        by_cases hsession : request.owner.session = session
        · -- the request found its session below its limit
          have hlimits : m.limitsOf request = limits := by
            rw [limitsOf, capacity, hconfig]
            exact hlast _ _ rfl hsession
          have := ha.session
          rw [hlimits, hsession] at this
          have hone := Bool.toNat_le ((m.pending request absolute).request.owner.session == session)
          omega
        · have hzero : ((m.pending request absolute).request.owner.session == session) = false :=
            beq_false_of_ne hsession
          rw [hzero]
          exact hsh.requests
      · intro hsession
        rw [limitsOf, capacity, hconfig]
        exact hlast _ _ rfl hsession
    | _ => exact ⟨⟨hsh.total, hsh.perHost, hsh.perUserHost, hsh.requests⟩, hu⟩

/-- Two requests of a session with the configured limits. -/
theorem session_share_two : ∃ tr m, Run Step (fresh .default 1) tr m ∧
    m.ownedWhere "session" (fun _ => true) = 2 ∧
    Share m "session" Config.default.capacity := by
  obtain ⟨tr, m, hrun, hq⟩ := exists_run (m := fresh .default 1)
    (C := fun _ call => ∀ request absolute, call = .requestUntil request absolute →
      request.limits.getD Config.default.capacity = Config.default.capacity)
    (fun _ call => match call with
      | .requestUntil request _ =>
        request.limits.getD Config.default.capacity == Config.default.capacity
      | _ => true)
    (by
      rintro m call h request absolute rfl
      exact eq_of_beq h)
    [.requestUntil sshRequest none, .requestUntil sshRequest none]
    (fun _ m => m.ownedWhere "session" (fun _ => true) == 2) (by decide +kernel)
  refine ⟨tr, m, Run.of_under hrun, eq_of_beq hq, session_share (Run.of_under hrun) ?_⟩
  intro x hx request absolute hcall _
  exact hrun.forall_labels (fun _ _ _ hs => hs.1) x hx request absolute hcall

end PoolMachine

end GwzTransport.Pool
