import GwzTransport.Connection.Slots

/-!
# The accounts of a host's slots

* `Ledger`: the host's count of its slots agrees with the claims and bindings that hold them, and
  every slot granted so far is either held or was given back once; `ledger_run`: it holds after
  every run;
* `slots_accounted`: the account of a reachable host, with no subtraction below zero.
-/

namespace GwzTransport.Connection

open Protocol MachineInt Transition

variable {limits : HostLimits} {h h' : Host} {s : HostState}

/-! ### The invariant -/

/-- Permit number `c` was granted with serial `c + 1`, so the serials of the ledger are counted at
successors. -/
structure Ledger (limits : HostLimits) (h : Host) : Prop where
  numbered : h.state.nextBinding = h.state.nextClaim + 1
  bounded : h.state.nextBinding ≤ u64Max
  permits : ∀ c, h.permits.get? c = if c < h.state.nextClaim then some (c + 1) else none
  claims : ∀ c k, h.state.claims.get? c = some k → c < h.state.nextClaim
  /-- A claim that lost its slot was revoked. -/
  revoked : ∀ c k, h.state.claims.get? c = some k → k.released = true → k.revoked ≠ none
  /-- The table has the bindings that registered and did not retire. -/
  registered : ∀ n, (h.state.bindings.get? n).isSome = (h.shared.get? n).any (!·.retired)
  /-- A binding that registered took its claim with it. -/
  published : ∀ n, (h.shared.get? n).isSome = true →
    ∃ c < h.state.nextClaim, n = c + 1 ∧ h.state.claims.get? c = none
  active : h.state.active = h.state.bindings.size + h.state.claims.countWhere (!·.released)
  room : h.state.active ≤ limits.activeSlots
  returned : ∀ c, h.returned.count (c + 1) + (h.held c (c + 1)).toNat =
    if c < h.state.nextClaim then 1 else 0
  total : h.state.active + h.returned.length = h.permits.size

theorem ledger_built (limits : HostLimits) : Ledger limits .built where
  numbered := rfl
  bounded := by decide
  permits _ := rfl
  claims _ _ hc := nomatch hc
  revoked _ _ hc := nomatch hc
  registered _ := rfl
  published _ hn := nomatch hn
  active := rfl
  room := Nat.zero_le _
  returned _ := rfl
  total := rfl

/-- The queue, the phase and the flags of the bindings other than `retired` are not in the
accounts. -/
theorem Ledger.frame (hl : Ledger limits h) (hclaims : h'.state.claims = h.state.claims)
    (hbindings : h'.state.bindings = h.state.bindings) (hactive : h'.state.active = h.state.active)
    (hnext : h'.state.nextClaim = h.state.nextClaim ∧ h'.state.nextBinding = h.state.nextBinding)
    (hpermits : h'.permits = h.permits) (hreturned : h'.returned = h.returned)
    (hshared : ∀ n, (h'.shared.get? n).map (·.retired) = (h.shared.get? n).map (·.retired)) :
    Ledger limits h' where
  numbered := by rw [hnext.1, hnext.2, hl.numbered]
  bounded := hnext.2 ▸ hl.bounded
  permits := by rw [hpermits, hnext.1]; exact hl.permits
  claims := by rw [hclaims, hnext.1]; exact hl.claims
  revoked := hclaims ▸ hl.revoked
  registered n := by
    have hn := congrArg (Option.any (!·)) (hshared n)
    rw [Option.any_map, Option.any_map] at hn
    rw [hbindings, hl.registered]
    exact hn.symm
  published n hn := by
    have hsome : (h'.shared.get? n).isSome = (h.shared.get? n).isSome := by
      simpa using congrArg Option.isSome (hshared n)
    rw [hnext.1, hclaims]
    exact hl.published n (hsome ▸ hn)
  active := by rw [hactive, hbindings, hclaims, hl.active]
  room := hactive ▸ hl.room
  returned c := by
    have hheld : h'.held c (c + 1) = h.held c (c + 1) := by
      simp only [Host.held, Host.claimed, hclaims, hbindings]
    rw [hreturned, hheld, hnext.1, hl.returned]
  total := by rw [hactive, hreturned, hpermits, hl.total]

/-! ### Claims and bindings come and go -/

/-- A slot is not held twice. -/
theorem Ledger.exclusive (hl : Ledger limits h) {c : ℕ} (hc : h.claimed c = true) :
    (h.state.bindings.get? (c + 1)).isSome = false := by
  rw [Bool.eq_false_iff]
  intro hb
  rw [hl.registered, Option.any_eq_true] at hb
  obtain ⟨b, hb, -⟩ := hb
  obtain ⟨d, -, hd, hnone⟩ := hl.published (c + 1) (by rw [hb]; rfl)
  obtain rfl : c = d := by omega
  simp [Host.claimed, hnone] at hc

theorem Ledger.claimed_lt (hl : Ledger limits h) {c : ℕ} (hc : h.claimed c = true) :
    c < h.state.nextClaim := by
  obtain ⟨k, hk, -⟩ := (Option.any_eq_true _ _).1 hc
  exact hl.claims c k hk

theorem Ledger.claimed_le (hl : Ledger limits h) (c : ℕ) :
    (h.claimed c).toNat ≤ h.state.active := by
  have hcount : _ + (h.claimed c).toNat = _ := h.state.claims.countWhere_erase (!·.released) c
  have hactive := hl.active
  omega

/-- A claim leaves the table, and its slot with it if it had one. -/
theorem Ledger.drop (hl : Ledger limits h) (c : ℕ) (phase : HostPhase) (queue : List Waiter) :
    Ledger limits
      { h with
        state := { h.state with
          phase, queue
          claims := h.state.claims.erase c
          active := h.state.active - (h.claimed c).toNat }
        returned := h.returned ++ if h.claimed c then [c + 1] else [] } where
  numbered := hl.numbered
  bounded := hl.bounded
  permits := hl.permits
  claims := h.state.claims.forall_erase c hl.claims
  revoked := h.state.claims.forall_erase c hl.revoked
  registered := hl.registered
  published n hn := by
    obtain ⟨d, hd, hn, hnone⟩ := hl.published n hn
    refine ⟨d, hd, hn, ?_⟩
    rw [SortedMap.get?_erase, hnone, ite_self]
  active := by
    have hcount : _ + (h.claimed c).toNat = _ := h.state.claims.countWhere_erase (!·.released) c
    have hactive := hl.active
    simp only
    omega
  room := (Nat.sub_le _ _).trans hl.room
  returned d := by
    have hd := hl.returned d
    rw [List.count_append]
    by_cases hdc : d = c
    · subst hdc
      rw [Host.held] at hd
      -- without its claim the slot is held by a binding, and a claim with a slot has none
      cases hclaimed : h.claimed d with
      | false =>
        rw [hclaimed] at hd
        simpa [Host.held, Host.claimed] using hd
      | true =>
        rw [hclaimed, hl.exclusive hclaimed] at hd
        simpa [Host.held, Host.claimed, hl.exclusive hclaimed] using hd
    · have hother : (if h.claimed c then [c + 1] else []).count (d + 1) = 0 := by
        split_ifs <;> simp [Ne.symm hdc]
      rw [hother, Nat.add_zero]
      simpa [Host.held, Host.claimed, SortedMap.get?_erase_of_ne _ hdc] using hd
  total := by
    have htotal := hl.total
    have hle := hl.claimed_le c
    rw [List.length_append]
    cases hc : h.claimed c with
    | false => simpa using htotal
    | true =>
      rw [hc, Bool.toNat_true] at hle
      simp only [Bool.toNat_true, if_true, List.length_singleton]
      omega

/-- A claim that has its slot becomes a binding. -/
theorem Ledger.register (hl : Ledger limits h) {c : ℕ} (hc : h.claimed c = true)
    (flags : BindingShared) (hflags : flags.retired = false) :
    Ledger limits
      { h with
        state := { h.state with
          claims := h.state.claims.erase c
          bindings := h.state.bindings.insert (c + 1) () }
        shared := h.shared.insert (c + 1) flags } where
  numbered := hl.numbered
  bounded := hl.bounded
  permits := hl.permits
  claims := h.state.claims.forall_erase c hl.claims
  revoked := h.state.claims.forall_erase c hl.revoked
  registered n := by
    simp only [SortedMap.get?_insert]
    split_ifs with hn
    · simp [hflags]
    · exact hl.registered n
  published n hn := by
    simp only [SortedMap.get?_insert] at hn
    split_ifs at hn with hnc
    · exact ⟨c, hl.claimed_lt hc, hnc, SortedMap.get?_erase_self _ c⟩
    · obtain ⟨d, hd, hnd, hnone⟩ := hl.published n hn
      refine ⟨d, hd, hnd, ?_⟩
      rw [SortedMap.get?_erase, hnone, ite_self]
  active := by
    have hcount : _ + (h.claimed c).toNat = _ := h.state.claims.countWhere_erase (!·.released) c
    have hsize := h.state.bindings.size_insert (c + 1) ()
    have hactive := hl.active
    rw [hc] at hcount
    rw [hl.exclusive hc] at hsize
    simp only [Bool.toNat_true, Bool.toNat_false] at hcount hsize ⊢
    omega
  room := hl.room
  returned d := by
    have hd := hl.returned d
    simp only [Host.held, Host.claimed, SortedMap.get?_erase, SortedMap.get?_insert] at hd ⊢
    by_cases hdc : d = c
    · subst hdc
      rw [Host.claimed] at hc
      simpa [hc] using hd
    · simpa [hdc] using hd
  total := hl.total

/-- A binding that registered retires and leaves its slot. -/
theorem Ledger.retire (hl : Ledger limits h) {n : ℕ} {b : BindingShared}
    (hb : h.shared.get? n = some b) (hlive : b.retired = false) (queue : List Waiter) :
    Ledger limits
      { h with
        state := { h.state with
          queue
          bindings := h.state.bindings.erase n
          active := h.state.active - 1 }
        shared := h.shared.insert n { b with retired := true }
        returned := h.returned ++ [n] } := by
  obtain ⟨c, hc, rfl, hnone⟩ := hl.published n (by rw [hb]; rfl)
  have hbinding : (h.state.bindings.get? (c + 1)).isSome = true := by
    rw [hl.registered, hb]
    simp [hlive]
  have hsize := h.state.bindings.size_erase (c + 1)
  rw [hbinding, Bool.toNat_true] at hsize
  have hactive := hl.active
  exact {
    numbered := hl.numbered
    bounded := hl.bounded
    permits := hl.permits
    claims := hl.claims
    revoked := hl.revoked
    registered := fun m => by
      simp only [SortedMap.get?_insert, SortedMap.get?_erase]
      split_ifs
      · rfl
      · exact hl.registered m
    published := fun m hm => by
      simp only [SortedMap.get?_insert] at hm
      split_ifs at hm with hmc
      · exact ⟨c, hc, hmc, hnone⟩
      · exact hl.published m hm
    active := by
      simp only
      omega
    room := (Nat.sub_le _ _).trans hl.room
    returned := fun d => by
      have hd := hl.returned d
      simp only [Host.held, Host.claimed, SortedMap.get?_erase, List.count_append] at hd ⊢
      by_cases hdc : d = c
      · subst hdc
        simpa [hnone, hbinding] using hd
      · simpa [hdc, Ne.symm hdc] using hd
    total := by
      have htotal := hl.total
      simp only [List.length_append, List.length_singleton]
      omega }

/-- A slot is granted, to a claim with the next number. -/
theorem Ledger.grant (hl : Ledger limits h) (hroom : h.state.active < limits.activeSlots)
    (hbound : h.state.nextBinding < u64Max) (queue : List Waiter) :
    Ledger limits
      { h with
        state := { h.state with
          queue
          nextBinding := h.state.nextBinding + 1
          active := h.state.active + 1
          nextClaim := h.state.nextClaim + 1
          claims := h.state.claims.insert h.state.nextClaim ⟨none, false⟩ }
        permits := h.permits.insert h.state.nextClaim h.state.nextBinding } := by
  have hnew : h.state.claims.get? h.state.nextClaim = none := by
    rw [Option.eq_none_iff_forall_ne_some]
    intro k hk
    exact lt_irrefl _ (hl.claims _ k hk)
  have hcount := h.state.claims.countWhere_insert (!·.released) h.state.nextClaim ⟨none, false⟩
  simp only [hnew, Option.any_none, Bool.not_false, Bool.toNat_true, Bool.toNat_false] at hcount
  have hsize := h.permits.size_insert h.state.nextClaim h.state.nextBinding
  simp only [hl.permits, lt_irrefl, if_false, Option.isSome_none, Bool.toNat_false] at hsize
  have hactive := hl.active
  have htotal := hl.total
  exact {
    numbered := congrArg (· + 1) hl.numbered
    bounded := hbound
    permits := fun c => by
      simp only [SortedMap.get?_insert, hl.permits, hl.numbered]
      split_ifs <;> first | rfl | omega | simp_all
    claims := h.state.claims.forall_insert
      (fun c k hk => Nat.lt_succ_of_lt (hl.claims c k hk)) (Nat.lt_succ_self _)
    revoked := h.state.claims.forall_insert hl.revoked nofun
    registered := hl.registered
    published := fun n hn => by
      obtain ⟨c, hc, hnc, hnone⟩ := hl.published n hn
      refine ⟨c, Nat.lt_succ_of_lt hc, hnc, ?_⟩
      rw [SortedMap.get?_insert_of_ne _ hc.ne, hnone]
    active := by
      simp only
      omega
    room := hroom
    returned := fun c => by
      have hc := hl.returned c
      simp only [Host.held, Host.claimed, SortedMap.get?_insert] at hc ⊢
      by_cases hcn : c = h.state.nextClaim
      · subst hcn
        simp only [lt_irrefl, if_false, Nat.add_eq_zero_iff] at hc
        simp [hc.1]
      · have hlt : c < h.state.nextClaim + 1 ↔ c < h.state.nextClaim := by omega
        simpa only [if_neg hcn, hlt] using hc
    total := by
      simp only
      omega }

theorem Ledger.freed_eq (hl : Ledger limits h) :
    (h.state.claims.keysWhere fun _ c => !c.released).filterMap h.permits.get? =
      (h.state.claims.keysWhere fun _ c => !c.released).map (· + 1) := by
  rw [← List.filterMap_eq_map]
  refine List.filterMap_congr fun c hc => ?_
  obtain ⟨k, hk, -⟩ := h.state.claims.mem_keysWhere.1 hc
  rw [hl.permits, if_pos (hl.claims c k hk), Function.comp_apply]

theorem count_freed (h : Host) (c : ℕ) :
    ((h.state.claims.keysWhere fun _ k => !k.released).map (· + 1)).count (c + 1) =
      (h.claimed c).toNat := by
  rw [List.count_map_of_injective _ _ (add_left_injective 1)]
  have hmem : c ∈ (h.state.claims.keysWhere fun _ k => !k.released) ↔ h.claimed c = true := by
    rw [SortedMap.mem_keysWhere, Host.claimed, Option.any_eq_true]
  rw [List.Nodup.count (h.state.claims.nodup_keysWhere _)]
  cases hc : h.claimed c <;> simp [hmem, hc]

/-- A seal takes the slots of all claims. -/
theorem Ledger.revoke (hl : Ledger limits h) (reason : TerminalReason) (phase : HostPhase)
    (closing : Option TerminalReason) (close : Bool) (queue : List Waiter) :
    Ledger limits
      { h with
        state := { h.state with
          phase, closing, close, queue
          claims := h.state.claims.map fun _ => HostState.revoke reason
          active := h.state.active - h.state.claims.countWhere (!·.released) }
        returned := h.returned ++
          (h.state.claims.keysWhere fun _ c => !c.released).filterMap h.permits.get? } := by
  have hnone : (h.state.claims.map fun _ => HostState.revoke reason).countWhere
      (!·.released) = 0 := by
    rw [SortedMap.countWhere_map]
    simp [HostState.revoke]
  have hclaimed : ∀ c, ((h.state.claims.map fun _ => HostState.revoke reason).get? c).any
      (!·.released) = false := by
    intro c
    cases hc : h.state.claims.get? c <;> simp [hc, HostState.revoke]
  have hactive := hl.active
  have htotal := hl.total
  exact {
    numbered := hl.numbered
    bounded := hl.bounded
    permits := hl.permits
    claims := fun c k hk => by
      rw [SortedMap.get?_map] at hk
      obtain ⟨k', hk', -⟩ := Option.map_eq_some_iff.1 hk
      exact hl.claims c k' hk'
    revoked := fun c k hk _ => by
      rw [SortedMap.get?_map] at hk
      obtain ⟨k', -, rfl⟩ := Option.map_eq_some_iff.1 hk
      cases hr : k'.revoked <;> simp [HostState.revoke, hr]
    registered := hl.registered
    published := fun n hn => by
      obtain ⟨c, hc, hnc, hc'⟩ := hl.published n hn
      refine ⟨c, hc, hnc, ?_⟩
      rw [SortedMap.get?_map, hc', Option.map_none]
    active := by
      simp only [hnone]
      omega
    room := (Nat.sub_le _ _).trans hl.room
    returned := fun c => by
      have hc := hl.returned c
      rw [Host.held] at hc
      rw [hl.freed_eq, List.count_append, count_freed]
      cases hclaim : h.claimed c with
      | false =>
        rw [hclaim] at hc
        simp only [Host.held, Host.claimed, hclaimed]
        exact hc
      | true =>
        rw [hclaim, hl.exclusive hclaim] at hc
        simp only [Host.held, Host.claimed, hclaimed, hl.exclusive hclaim]
        exact hc
    total := by
      rw [hl.freed_eq, List.length_append, List.length_map, SortedMap.length_keysWhere]
      simp only
      omega }

/-! ### The calls -/

/-- What a call that does not panic leaves. -/
def Keeps (limits : HostLimits) (x : Option (Host × Outcome)) : Prop :=
  ∃ h out, x = some (h, out) ∧ Ledger limits h

theorem keeps_takeSlot (hl : Ledger limits h) (id : ℕ) (waker : Waker) :
    Keeps limits (h.call limits (.takeSlot id waker)) := by
  simp only [Host.call, HostState.takeSlot]
  by_cases hphase : h.state.phase = .opened
  · rw [if_neg (not_not.2 hphase)]
    by_cases hfront : h.state.queue.head?.any (·.id == id) ∧ h.state.active < limits.activeSlots
    · rw [if_pos hfront]
      by_cases hbound : h.state.nextBinding < u64Max
      · have hclaim : h.state.nextClaim < u64Max := by
          have := hl.numbered
          omega
        rw [checkedSucc_of_lt hbound, checkedSucc_of_lt hclaim]
        exact ⟨_, _, rfl, hl.grant hfront.2 hbound _⟩
      · rw [checkedSucc, if_neg hbound]
        exact ⟨_, _, rfl, hl.frame rfl rfl rfl ⟨rfl, rfl⟩ rfl rfl fun _ => rfl⟩
    · rw [if_neg hfront]
      exact ⟨_, _, rfl, hl.frame rfl rfl rfl ⟨rfl, rfl⟩ rfl rfl fun _ => rfl⟩
  · rw [if_pos hphase]
    exact ⟨_, _, rfl, hl.frame rfl rfl rfl ⟨rfl, rfl⟩ rfl rfl fun _ => rfl⟩

/-- The slot of a claim that leaves the table is there to be given back. -/
theorem Ledger.giveBack_eq (hl : Ledger limits h) (c : ℕ) :
    HostState.giveBack { h.state with claims := h.state.claims.erase c }
      (h.state.claims.get? c) =
      some { h.state with
        claims := h.state.claims.erase c
        active := h.state.active - (h.claimed c).toNat } := by
  have hle := hl.claimed_le c
  unfold HostState.giveBack
  cases hc : h.claimed c with
  | false =>
    rw [Host.claimed] at hc
    rw [hc]
    rfl
  | true =>
    rw [hc, Bool.toNat_true] at hle
    rw [Host.claimed] at hc
    rw [hc, if_pos rfl, checkedSub_of_le hle]
    rfl

theorem keeps_dropClaim (hl : Ledger limits h) (c : ℕ) :
    Keeps limits (h.call limits (.dropClaim c)) := by
  have hfreed : h.freed (.dropClaim c) = if h.claimed c then [c + 1] else [] := by
    simp only [Host.freed]
    split_ifs with hc
    · rw [hl.permits, if_pos (hl.claimed_lt hc)]
      rfl
    · rfl
  simp only [Host.call, HostState.dropClaim, hl.giveBack_eq c, hfreed, Option.map_some]
  obtain ⟨queue, hqueue⟩ := wakeFront_eq { h.state with
    claims := h.state.claims.erase c
    active := h.state.active - (h.claimed c).toNat }
  rw [hqueue]
  exact ⟨_, _, rfl, hl.drop c h.state.phase queue⟩

/-- A claim that nothing refuses has its slot. -/
theorem Ledger.claimed_of_refusal (hl : Ledger limits h) {c : ℕ} {k : Claim}
    (hk : h.state.claims.get? c = some k) (hr : h.state.refusal (some k) = none) :
    h.claimed c = true := by
  have hrevoked : k.revoked = none := (Option.or_eq_none_iff.1 hr).1
  rw [Host.claimed, hk, Option.any_some, Bool.not_eq_true', Bool.eq_false_iff]
  exact fun hreleased => hl.revoked c k hk hreleased hrevoked

theorem keeps_publish (hl : Ledger limits h) {c n : ℕ} (hpermit : h.permits.get? c = some n) :
    Keeps limits (h.call limits (.publish c n)) := by
  obtain rfl : c + 1 = n := by
    rw [hl.permits] at hpermit
    split_ifs at hpermit
    exact Option.some.inj hpermit
  -- a refused claim gives its slot back as a dropped one does
  have hrefused : ∀ reason, h.freed (.publish c (c + 1)) = (if h.claimed c then [c + 1] else []) →
      h.state.publish c (c + 1) = (HostState.giveBack { h.state with
        claims := h.state.claims.erase c } (h.state.claims.get? c)).map (fun s =>
          (s.wakeFront.1, .error reason, s.wakeFront.2)) →
      Keeps limits (h.call limits (.publish c (c + 1))) := by
    intro reason hfreed hpublish
    simp only [Host.call, hpublish, hl.giveBack_eq c, hfreed, Option.map_some, Host.register]
    obtain ⟨queue, hqueue⟩ := wakeFront_eq { h.state with
      claims := h.state.claims.erase c
      active := h.state.active - (h.claimed c).toNat }
    rw [hqueue]
    exact ⟨_, _, rfl, hl.drop c h.state.phase queue⟩
  cases hk : h.state.claims.get? c with
  | none =>
    refine hrefused ((h.state.refusal none).getD .hostFault) ?_ ?_
    · simp [Host.freed, Host.claimed, hk]
    · simp only [HostState.publish, hk]
  | some k =>
    cases hr : h.state.refusal (some k) with
    | none =>
      have hclaimed := hl.claimed_of_refusal hk hr
      simp only [Host.call, HostState.publish, hk, hr, Option.map_some, Host.register]
      have hfreed : h.freed (.publish c (c + 1)) = [] := by simp [Host.freed, hk, hr]
      rw [hfreed, List.append_nil]
      exact ⟨_, _, rfl, hl.register hclaimed _ rfl⟩
    | some reason =>
      refine hrefused reason ?_ ?_
      · simp [Host.freed, hk, hr]
      · simp only [HostState.publish, hk, hr, Option.getD_some]

theorem keeps_retireIfDone (hl : Ledger limits h) (n : ℕ) :
    Keeps limits (h.call limits (.retireIfDone n)) := by
  simp only [Host.call]
  cases hb : h.shared.get? n with
  | none => exact ⟨_, _, rfl, hl⟩
  | some b =>
    rw [Option.any_some]
    cases hdone : b.done with
    | false => exact ⟨_, _, rfl, hl⟩
    | true =>
      have hlive : b.retired = false := by
        simp only [BindingShared.done, Bool.and_eq_true, Bool.not_eq_true'] at hdone
        exact hdone.2
      have hbinding : (h.state.bindings.get? n).isSome = true := by
        rw [hl.registered, hb]
        simp [hlive]
      have hactive : 1 ≤ h.state.active := by
        have hsize := h.state.bindings.size_erase n
        rw [hbinding, Bool.toNat_true] at hsize
        have := hl.active
        omega
      have hfreed : h.freed (.retireIfDone n) = [n] := by simp [Host.freed, hb, hdone, hbinding]
      simp only [if_pos, HostState.retire, hbinding, checkedSub_of_le hactive, Option.map_some,
        hfreed, Host.mapShared, hb]
      obtain ⟨queue, hqueue⟩ := wakeFront_eq { h.state with
        bindings := h.state.bindings.erase n
        active := h.state.active - 1 }
      rw [hqueue]
      exact ⟨_, _, rfl, hl.retire hb hlive queue⟩

theorem keeps_sealHost (hl : Ledger limits h) (reason : TerminalReason) :
    Keeps limits (h.call limits (.sealHost reason)) := by
  simp only [Host.call, HostState.sealHost, Host.freed, Host.cancelBindings]
  cases hclose : h.state.close with
  | true =>
    refine ⟨_, _, rfl, ?_⟩
    exact hl.frame rfl rfl rfl ⟨rfl, rfl⟩ rfl (List.append_nil _) fun _ => rfl
  | false =>
    have hle : h.state.claims.countWhere (!·.released) ≤ h.state.active := by
      have := hl.active
      omega
    rw [checkedSub_of_le hle]
    refine ⟨_, _, rfl, ?_⟩
    refine (hl.revoke reason .closing (some reason) true []).frame rfl rfl rfl ⟨rfl, rfl⟩ rfl rfl ?_
    intro n
    simp only [Bool.false_eq_true, if_false, SortedMap.get?_map]
    cases h.shared.get? n with
    | none => rfl
    | some b =>
      simp only [Option.map_some]
      split_ifs <;> rfl

/-- The flags an operation sets on its binding while it lives are not in the accounts. -/
theorem Ledger.mapShared (hl : Ledger limits h) (n : ℕ) {f : BindingShared → BindingShared}
    (hf : ∀ b, (f b).retired = b.retired) : Ledger limits (h.mapShared n f) := by
  unfold Host.mapShared
  split
  · rename_i b hb
    refine hl.frame rfl rfl rfl ⟨rfl, rfl⟩ rfl rfl fun m => ?_
    simp only [SortedMap.get?_insert]
    split_ifs with hm
    · rw [hm, hb, Option.map_some, Option.map_some, hf]
    · rfl
  · exact hl

theorem keeps_call (hl : Ledger limits h) {c : Call} (hc : h.allowed c = true) :
    Keeps limits (h.call limits c) := by
  cases c with
  | admitInput =>
    refine ⟨_, _, rfl, ?_⟩
    unfold HostState.admitInput
    split_ifs <;> exact hl.frame rfl rfl rfl ⟨rfl, rfl⟩ rfl rfl fun _ => rfl
  | takeSlot id waker => exact keeps_takeSlot hl id waker
  | dequeue id =>
    obtain ⟨queue, hqueue⟩ := wakeFront_eq
      { h.state with queue := h.state.queue.filter (·.id != id) }
    refine ⟨_, _, rfl, ?_⟩
    rw [HostState.dequeue, hqueue]
    exact hl.frame rfl rfl rfl ⟨rfl, rfl⟩ rfl rfl fun _ => rfl
  | dropClaim claim => exact keeps_dropClaim hl claim
  | publish claim serial => exact keeps_publish hl (beq_iff_eq.1 hc)
  | enliven serial => exact ⟨_, _, rfl, hl.mapShared serial fun _ => rfl⟩
  | dropLive serial => exact ⟨_, _, rfl, hl.mapShared serial fun _ => rfl⟩
  | sealOperation serial => exact ⟨_, _, rfl, hl.mapShared serial fun _ => rfl⟩
  | retireIfDone serial => exact keeps_retireIfDone hl serial
  | sealHost reason => exact keeps_sealHost hl reason
  | finish => exact ⟨_, _, rfl, hl.frame rfl rfl rfl ⟨rfl, rfl⟩ rfl rfl fun _ => rfl⟩

theorem Ledger.step {x : Call × Outcome} (hl : Ledger limits h) (hs : Host.Step limits h x h') :
    Ledger limits h' := by
  obtain ⟨t, out, hcall, ht⟩ := keeps_call hl hs.1
  rw [hs.2] at hcall
  cases hcall
  exact ht

theorem ledger_run {tr : List (Call × Outcome)} (hrun : Run (Host.Step limits) .built tr h) :
    Ledger limits h :=
  hrun.invariant (P := fun _ => Ledger limits) (ledger_built limits)
    fun _ _ _ _ _ hl hs => hl.step hs

/-- The slots a run granted, by claim and serial. -/
def grants (tr : List (Call × Outcome)) : List (ℕ × ℕ) := tr.filterMap (·.2.grant)

/-- A grant makes a permit with the next number; nothing else makes or takes one. -/
theorem permits_call {c : Call} {out : Outcome} (hcall : h.call limits c = some (h', out)) :
    h'.permits = h.permits ∧ out.grant = none ∨
    h'.permits = h.permits.insert h.state.nextClaim h.state.nextBinding ∧
      out.grant = some (h.state.nextClaim, h.state.nextBinding) := by
  have hshared : ∀ n f, (h.mapShared n f).permits = h.permits := by
    intro n f
    unfold Host.mapShared
    split <;> rfl
  cases c with
  | takeSlot id waker =>
    obtain ⟨⟨t, slot⟩, ht, hx⟩ := Option.map_eq_some_iff.1 hcall
    cases hx
    cases polled_takeSlot ht with
    | granted => exact .inr ⟨rfl, rfl⟩
    | shut | exhausted | wait => exact .inl ⟨rfl, rfl⟩
  | admitInput | dequeue | finish =>
    cases hcall
    exact .inl ⟨rfl, rfl⟩
  | enliven | dropLive | sealOperation =>
    cases hcall
    exact .inl ⟨hshared _ _, rfl⟩
  | dropClaim | publish | sealHost =>
    obtain ⟨x, -, hx⟩ := Option.map_eq_some_iff.1 hcall
    cases hx
    exact .inl ⟨rfl, rfl⟩
  | retireIfDone n =>
    simp only [Host.call] at hcall
    split_ifs at hcall
    · obtain ⟨x, -, hx⟩ := Option.map_eq_some_iff.1 hcall
      cases hx
      exact .inl ⟨hshared _ _, rfl⟩
    · cases hcall
      exact .inl ⟨rfl, rfl⟩

theorem permit_of_grant {tr : List (Call × Outcome)} (hrun : Run (Host.Step limits) .built tr h)
    {claim serial : ℕ} (hg : (claim, serial) ∈ grants tr) :
    h.permits.get? claim = some serial := by
  induction hrun with
  | nil => cases hg
  | @snoc tr t u x hr hs ih =>
    have hl := ledger_run hr
    rw [grants, List.filterMap_append, List.mem_append] at hg
    rcases hg with hg | hg
    · have hold := ih hg
      rcases permits_call hs.2 with ⟨hp, -⟩ | ⟨hp, -⟩
      · rw [hp, hold]
      · rw [hp, SortedMap.get?_insert_of_ne, hold]
        rintro rfl
        rw [hl.permits, if_neg (lt_irrefl _)] at hold
        cases hold
    · rcases permits_call hs.2 with ⟨-, hnone⟩ | ⟨hp, hnew⟩
      · simp [hnone] at hg
      · obtain ⟨rfl, rfl⟩ : claim = t.state.nextClaim ∧ serial = t.state.nextBinding := by
          simpa [hnew] using hg
        rw [hp, SortedMap.get?_insert_self]

theorem length_grants {tr : List (Call × Outcome)} (hrun : Run (Host.Step limits) .built tr h) :
    (grants tr).length = h.permits.size := by
  induction hrun with
  | nil => rfl
  | @snoc tr t u x hr hs ih =>
    have hfree : t.permits.get? t.state.nextClaim = none := by
      rw [(ledger_run hr).permits, if_neg (lt_irrefl _)]
    rw [grants, List.filterMap_append, List.length_append, ← grants, ih]
    rcases permits_call hs.2 with ⟨hp, hnone⟩ | ⟨hp, hnew⟩
    · simp [hp, hnone]
    · have hsize := t.permits.size_insert t.state.nextClaim t.state.nextBinding
      rw [hfree] at hsize
      simpa [hp, hnew] using hsize.symm

/-- The account of a host after any calls of its owners.  The count of its slots is that of the
registered bindings and of the claims that have a slot, and keeps to the limit; no call subtracts
below zero; a granted slot was given back once if it is not held any more, and not at all while it
is; and all that were granted are held or given back. -/
theorem slots_accounted {tr : List (Call × Outcome)}
    (hrun : Run (Host.Step limits) .built tr h) :
    h.state.active = h.state.bindings.size + h.state.claims.countWhere (!·.released) ∧
    h.state.active ≤ limits.activeSlots ∧
    (∀ c, h.allowed c = true → h.call limits c ≠ none) ∧
    (∀ claim serial, (claim, serial) ∈ grants tr →
      h.returned.count serial = if h.held claim serial then 0 else 1) ∧
    h.state.active + h.returned.length = (grants tr).length := by
  have hl := ledger_run hrun
  refine ⟨hl.active, hl.room, ?_, ?_, hl.total.trans (length_grants hrun).symm⟩
  · intro c hc hnone
    obtain ⟨t, out, ht, -⟩ := keeps_call hl hc
    rw [hnone] at ht
    cases ht
  · intro claim serial hg
    have hpermit := permit_of_grant hrun hg
    rw [hl.permits] at hpermit
    split_ifs at hpermit with hlt
    cases hpermit
    have hcount := hl.returned claim
    rw [if_pos hlt] at hcount
    cases hheld : h.held claim (claim + 1) <;> simp_all

/-- Two operations get slots and one registers; a seal takes the slot of the other, and the binding
gives its own back when it retires. -/
theorem slots_accounted_sealed : ∃ tr h, Run (Host.Step ⟨2, 8⟩) .built tr h ∧
    grants tr = [(0, 1), (1, 2)] ∧ h.returned.count 1 = 1 ∧ h.returned.count 2 = 1 := by
  have hplay : (Host.built.play ⟨2, 8⟩ [.admitInput, .admitInput, .takeSlot 0 7, .takeSlot 1 8,
      .publish 0 1, .sealHost .hostClosing, .dropClaim 1, .sealOperation 1,
      .retireIfDone 1]).any (fun x =>
        grants x.2 == [(0, 1), (1, 2)] && !x.1.held 0 1 && !x.1.held 1 2) = true := by
    decide +kernel
  obtain ⟨tr, h, hrun, hcheck⟩ := Host.exists_run hplay
  simp only [Bool.and_eq_true, beq_iff_eq, Bool.not_eq_true'] at hcheck
  obtain ⟨⟨hgrants, hfirst⟩, hsecond⟩ := hcheck
  obtain ⟨-, -, -, hback, -⟩ := slots_accounted hrun
  have h1 := hback 0 1 (by simp [hgrants])
  have h2 := hback 1 2 (by simp [hgrants])
  exact ⟨tr, h, hrun, hgrants, by simpa [hfirst] using h1, by simpa [hsecond] using h2⟩

end GwzTransport.Connection
