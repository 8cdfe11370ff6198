import GwzTransport.Pool.Changes
import GwzTransport.Lib.Matching

/-!
# Requests and connections point to each other

The two maps of the pool are a matching.  A request that opens or holds a connection points to
it, and the connection works for that request, with the same lease and owner.  What can break
this is a connection that closes under its request: `retire_https_scope` does not fail the
request.  So there are two readings of one invariant:

* `Owned` holds in every run: a request may point to a connection that is closing or gone;
* `Linked` is the full matching, and no move breaks it but the retirement of a busy connection.
-/

namespace GwzTransport.Pool

open Protocol MachineInt Transition

/-- What a request and its connection keep about each other: the lease, once there is one, and
the owner. -/
abbrev Tie := Option LeaseId × Option Owner

def Pending.tie (p : Pending) : Option (ConnectionId × Tie) :=
  match p.state with
  | .opening c => some (c, none, some p.request.owner)
  | .ready l => some (l.connection, some l, some p.request.owner)
  | _ => none

def Entry.tie (e : Entry) : Option (RequestId × Tie) :=
  match e.state with
  | .opening o => o.request.map fun r => (r, none, e.owner)
  | .leased l r => r.map fun r => (r, some l, e.owner)
  | _ => none

/-- The states of a connection that the code builds. -/
def Entry.Ok (c : ConnectionId) (e : Entry) : Prop :=
  match e.state with
  | .opening o => o.request.isSome = true ∧ o.cancel = none ∨
      o.request = none ∧ o.cancel.isSome = true ∧ o.clock.isSome = true
  | .leased l _ => l.connection = c
  | _ => True

theorem Entry.Becomes.ok {m : PoolMachine} {c : ConnectionId} {e e' : Entry} {k : Option Mark}
    (hb : e.Becomes m c k e') (h : e.Ok c) : e'.Ok c := by
  cases hb with
  | cancel => exact .inr ⟨rfl, rfl, rfl⟩
  | clock he =>
    simp only [Entry.Ok, he] at h ⊢
    exact h.imp_right fun h => ⟨h.1, h.2.1, rfl⟩
  | connect he =>
    simp only [Entry.Ok, he] at h ⊢
    exact h.imp_right fun h => ⟨h.1, h.2.1, rfl⟩
  | cancelConnect he hcancel => simp_all [Entry.Ok]
  | abortConnect he hcancel => simp_all [Entry.Ok]
  | take he => simpa [Entry.Ok, he] using h
  | scope => exact h
  | lease => rfl
  | ready => rfl
  | _ => trivial

/-- Closing is for good. -/
theorem Entry.Becomes.closing {m : PoolMachine} {c : ConnectionId} {e e' : Entry}
    {k : Option Mark} (hb : e.Becomes m c k e') (h : e.state.isClosing = true) :
    e'.state.isClosing = true := by
  cases hb with
  | lease _ _ _ _ he => simp [he, State.isClosing] at h
  | cancel he => simp [he, State.isClosing] at h
  | clock he => simp [he, State.isClosing] at h
  | connect he => simp [he, State.isClosing] at h
  | cancelConnect he => simp [he, State.isClosing] at h
  | abortConnect he => simp [he, State.isClosing] at h
  | ready _ he => simp [he, State.isClosing] at h
  | take he => simp [he, State.isClosing] at h
  | release he => simp [he, State.isClosing] at h
  | scope => exact h
  | _ => rfl

def targets (requests : SortedMap RequestId Pending) (r : RequestId) :
    Option (ConnectionId × Tie) := (requests.get? r).bind Pending.tie

def holders (entries : SortedMap ConnectionId Entry) (c : ConnectionId) :
    Option (RequestId × Tie) := (entries.get? c).bind Entry.tie

section Views

variable {requests : SortedMap RequestId Pending} {entries : SortedMap ConnectionId Entry}
  {r : RequestId} {c : ConnectionId} {e : Entry} {p : Pending}

theorem targets_insert (r : RequestId) (p : Pending) :
    targets (requests.insert r p) = Function.update (targets requests) r p.tie := by
  funext j
  by_cases h : j = r
  · subst h
    simp [targets]
  · rw [Function.update_of_ne h, targets, SortedMap.get?_insert_of_ne _ h]
    rfl

theorem targets_erase (r : RequestId) :
    targets (requests.erase r) = Function.update (targets requests) r none := by
  funext j
  by_cases h : j = r
  · subst h
    simp [targets]
  · rw [Function.update_of_ne h, targets, SortedMap.get?_erase_of_ne _ h]
    rfl

theorem holders_insert (c : ConnectionId) (e : Entry) :
    holders (entries.insert c e) = Function.update (holders entries) c e.tie := by
  funext j
  by_cases h : j = c
  · subst h
    simp [holders]
  · rw [Function.update_of_ne h, holders, SortedMap.get?_insert_of_ne _ h]
    rfl

theorem holders_erase (c : ConnectionId) :
    holders (entries.erase c) = Function.update (holders entries) c none := by
  funext j
  by_cases h : j = c
  · subst h
    simp [holders]
  · rw [Function.update_of_ne h, holders, SortedMap.get?_erase_of_ne _ h]
    rfl

theorem targets_of_get (h : requests.get? r = some p) : targets requests r = p.tie := by
  simp [targets, h]

theorem holders_of_get (h : entries.get? c = some e) : holders entries c = e.tie := by
  simp [holders, h]

/-- A change of the entry that leaves its tie leaves all holders. -/
theorem holders_insert_self (h : entries.get? c = some e) {e' : Entry} (he : e'.tie = e.tie) :
    holders (entries.insert c e') = holders entries := by
  rw [holders_insert, he, ← holders_of_get h, Function.update_eq_self]

theorem Entry.tie_of_closing (h : e.state.isClosing = true) : e.tie = none := by
  obtain ⟨_, _, _, _, s, _, _⟩ := e
  cases s <;> first | rfl | cases h

theorem Entry.tie_of_idle (h : e.state.isIdle = true) : e.tie = none := by
  obtain ⟨_, _, _, _, s, _, _⟩ := e
  cases s <;> first | rfl | cases h

theorem Entry.tie_of_holder (h : e.state.holder = some r) : ∃ x, e.tie = some (r, x) := by
  obtain ⟨_, _, _, _, s, _, _⟩ := e
  cases s <;> simp_all [State.holder, Entry.tie]

theorem Entry.tie_eq_none_iff : e.tie = none ↔ e.state.holder = none := by
  obtain ⟨_, _, _, _, s, _, _⟩ := e
  cases s <;> simp [State.holder, Entry.tie]

theorem Pending.tie_eq_none_iff : p.tie = none ↔ p.state.target = none := by
  obtain ⟨_, _, _, s, _, _⟩ := p
  cases s <;> simp [RequestState.target, Pending.tie]

theorem Pending.eq_of_tie {d : ConnectionId} {y : Tie} (h : p.tie = some (d, y))
    (hp : p.state.target = some c) : d = c := by
  obtain ⟨_, _, _, s, _, _⟩ := p
  cases s <;> simp_all [RequestState.target, Pending.tie]

theorem Entry.of_tie_lease {l : LeaseId} {o : Option Owner} (h : e.tie = some (r, some l, o)) :
    e.state = .leased l (some r) := by
  obtain ⟨_, _, _, _, s, _, _⟩ := e
  cases s <;> simp_all [Entry.tie]

theorem Entry.of_tie_dial {o : Option Owner} (h : e.tie = some (r, none, o)) :
    ∃ q, e.state = .opening q ∧ q.request = some r := by
  obtain ⟨_, _, _, _, s, _, _⟩ := e
  cases s <;> simp_all [Entry.tie]

/-- Both sides of a tie keep the owner of the request. -/
theorem Pending.tie_owner {d : ConnectionId} {l : Option LeaseId} {o : Option Owner}
    (h : p.tie = some (d, l, o)) : some p.request.owner = o := by
  obtain ⟨_, _, _, s, _, _⟩ := p
  cases s <;> simp_all [Pending.tie]

/-- In a table of which only closing entries are lost, the lost ones work for nothing. -/
theorem holders_of_lost (lost : ConnectionId → Prop)
    (h : ∀ c e, entries.get? c = some e → lost c → e.state.isClosing = true) (hc : lost c) :
    holders entries c = none := by
  cases he : entries.get? c with
  | none => simp [holders, he]
  | some e => rw [holders_of_get he, Entry.tie_of_closing (h c e he hc)]

end Views

namespace PoolMachine

variable {m m' : PoolMachine} {k : Option Mark}

theorem change_entry {target : RequestId → Option (ConnectionId × Tie)} {c : ConnectionId}
    {e e' : Entry} {busy : ConnectionId → Prop} (hc : m.entries.get? c = some e)
    (he : e'.tie = e.tie) :
    Matching.Change target (holders m.entries) busy target (holders (m.entries.insert c e')) := by
  rw [holders_insert_self hc he]
  exact .keep

/-- The tables after a connection has answered the request it worked for. -/
theorem change_answer {c : ConnectionId} {e : Entry} {busy : ConnectionId → Prop}
    {lost : ConnectionId → Prop} (hm : Matching (targets m.requests) (holders m.entries) lost)
    (hc : m.entries.get? c = some e) (error : Error) :
    Matching.Change (targets m.requests) (holders m.entries) busy
      (targets (m.answer e.state.holder error)) (Function.update (holders m.entries) c none) := by
  cases hh : e.state.holder with
  | none =>
    refine .retire c (.inl ?_)
    rw [holders_of_get hc]
    exact Entry.tie_eq_none_iff.2 hh
  | some r =>
    obtain ⟨x, hx⟩ := Entry.tie_of_holder hh
    rw [← holders_of_get hc] at hx
    have ht := hm.target_of_holder hx
    cases hr : m.requests.get? r with
    | none => simp [targets, hr] at ht
    | some p =>
      simp only [answer, hr, targets_insert]
      exact .part hx

/-- What a move does to the two tables; which connections may be lost is left open. -/
theorem Move.change (hv : Move m k m') {lost : ConnectionId → Prop}
    (hm : Matching (targets m.requests) (holders m.entries) lost)
    (hid : m.entries.get? m.nextConnection = none) (hnext : ¬ lost m.nextConnection)
    (hl : ∀ c e, m.entries.get? c = some e → lost c → e.state.isClosing = true) :
    Matching.Change (targets m.requests) (holders m.entries)
      (fun c => k = some (.retired c true)) (targets m'.requests) (holders m'.entries) := by
  cases hv with
  | touch v => exact .keep
  | configure => exact .keep
  | lapse holds _ => exact .keep
  | @note r p hr eviction =>
    have : targets (m.requests.insert r { p with eviction }) = targets m.requests := by
      rw [targets_insert, show Pending.tie { p with eviction } = p.tie from rfl,
        ← targets_of_get hr, Function.update_eq_self]
    simp only [this]
    exact .keep
  | @refuse r p hr hp error v =>
    simp only [targets_insert]
    refine .untie r fun d y hy => ?_
    rw [targets_of_get hr] at hy
    rcases hp with hp | ⟨c, e, hp, hc, he⟩
    · rw [Pending.tie_eq_none_iff.2 (by rw [hp]; rfl)] at hy
      cases hy
    · rw [Pending.eq_of_tie hy hp, holders_of_get hc, Entry.tie_of_closing he]
  | @forget r hp v =>
    simp only [targets_erase]
    refine .untie r fun d y hy => ?_
    obtain ⟨p, hr, hy⟩ := Option.bind_eq_some_iff.1 hy
    rw [Pending.tie_eq_none_iff.2 (hp p hr)] at hy
    cases hy
  | @lease r p c e since hr hp hfresh hfull hc he hcompat v =>
    simp only [targets_insert, holders_insert]
    have hlost : ¬ lost c := fun h => by
      have := hl c e hc h
      simp [he, State.isClosing] at this
    refine .tie _ ?_ ?_
    · intro d y hy
      rw [targets_of_get hr, Pending.tie_eq_none_iff.2 (by rw [hp]; rfl)] at hy
      cases hy
    · intro j y _
      exact hm.target_ne hlost ((holders_of_get hc).trans (by simp [Entry.tie, he])) j y
  | @reserve r p o hr hp hfull hsize huser hhost hsite ho hclock hcancel v =>
    simp only [targets_insert, holders_insert, Entry.tie, ho, Option.map_some]
    refine .tie _ ?_ ?_
    · intro d y hy
      rw [targets_of_get hr, Pending.tie_eq_none_iff.2 (by rw [hp]; rfl)] at hy
      cases hy
    · intro j y _
      exact hm.target_ne hnext (by simp [holders, hid]) j y
  | @failReady r p c e hr hc he hh error reason deadline v =>
    simp only [targets_insert, holders_insert]
    obtain ⟨x, hx⟩ := Entry.tie_of_holder hh
    exact .part ((holders_of_get hc).trans hx)
  | @failReserved r p c e o hr hc he ho hclock error v =>
    simp only [targets_insert, holders_erase]
    obtain ⟨x, hx⟩ := Entry.tie_of_holder (e := e) (r := r) (by rw [he]; exact ho)
    exact .part ((holders_of_get hc).trans hx)
  | @failDialing r p c e o hr hc he ho hclock k error deadline v =>
    simp only [targets_insert, holders_insert]
    obtain ⟨x, hx⟩ := Entry.tie_of_holder (e := e) (r := r) (by rw [he]; exact ho)
    exact .part ((holders_of_get hc).trans hx)
  | clock hc he _ _ _ _ _ => exact change_entry hc (by simp [Entry.tie, he])
  | connect hc he _ _ _ _ _ => exact change_entry hc (by simp [Entry.tie, he])
  | cancelConnect hc he _ _ _ _ => exact change_entry hc (by simp [Entry.tie, he])
  | abortConnect hc he _ _ _ => exact change_entry hc (by simp [Entry.tie, he])
  | @connectedErr c e o hc he hclock error queue settle v =>
    have ho : e.state.holder = o.request := by rw [he]; rfl
    simp only [holders_erase, ← ho]
    exact change_answer hm hc error
  | @connectedReady r p c e o hr hc he ho hclock reusable v =>
    have hh : holders m.entries c = some (r, none, e.owner) := by
      rw [holders_of_get hc]
      simp [Entry.tie, he, ho]
    have ht := hm.target_of_holder hh
    have howner : e.owner = some p.request.owner := by
      rw [targets_of_get hr] at ht
      exact (Pending.tie_owner ht).symm
    simp only [targets_insert, holders_insert, Entry.tie, howner, Option.map_some]
    refine .tie _ ?_ ?_
    · intro d y hy
      rw [ht] at hy
      exact (Prod.mk.inj (Option.some.inj hy)).1.symm
    · intro j y hj hy
      exact hj (hm.eq_of_target hh hy)
  | @connectedClosing c e o hc he hclock error reason deadline v =>
    have ho : e.state.holder = o.request := by rw [he]; rfl
    simp only [holders_insert, ← ho]
    exact change_answer hm hc error
  | @take r p c e l hr hc he v =>
    simp only [targets_erase, holders_insert]
    obtain ⟨x, hx⟩ := Entry.tie_of_holder (e := e) (r := r) (by rw [he]; rfl)
    exact .part ((holders_of_get hc).trans hx)
  | @takeLost r p c hr hp hc v =>
    simp only [targets_erase]
    refine .untie r fun d y hy => ?_
    rw [targets_of_get hr] at hy
    rw [Pending.eq_of_tie hy hp]
    exact holders_of_lost (· = c) (fun d e hd h => hc e (h ▸ hd)) rfl
  | scope hc => exact change_entry hc rfl
  | release hc he => exact change_entry hc (by simp [Entry.tie, he])
  | @close c e hc he reason deadline v =>
    refine change_entry hc ?_
    rcases he with he | ⟨l, he⟩
    · exact (Entry.tie_of_idle he).symm
    · simp [Entry.tie, he, Entry.shut]
  | @retire c e hc he reason deadline v =>
    simp only [holders_insert]
    refine .retire c ?_
    cases hh : e.state.holder with
    | none => exact .inl ((holders_of_get hc).trans (Entry.tie_eq_none_iff.2 hh))
    | some r => exact .inr rfl
  | sendClose hc he _ _ _ => exact change_entry hc (by simp [Entry.tie, he])
  | sendAbort hc he _ _ => exact change_entry hc (by simp [Entry.tie, he])
  | @closed c e reason k hc he hk v =>
    simp only [holders_erase]
    exact .retire c (.inl ((holders_of_get hc).trans (by simp [Entry.tie, he])))
  | @idleClosed c e hc he v =>
    simp only [holders_erase]
    refine .retire c (.inl ((holders_of_get hc).trans ?_))
    rcases Bool.or_eq_true_iff.1 he with he | he
    · exact Entry.tie_of_idle he
    · exact Entry.tie_of_closing he

/-- The connection was issued and is closing or gone. -/
def Lost (entries : SortedMap ConnectionId Entry) (serial : ℕ) (c : ConnectionId) : Prop :=
  c.serial ≤ serial ∧ ∀ e, entries.get? c = some e → e.state.isClosing = true

/-- What holds of the two maps in every run. -/
structure Owned (m : PoolMachine) : Prop where
  request_id : ∀ r p, m.requests.get? r = some p → r.pool = m.poolId ∧ r.serial ≤ m.requestSerial
  entry_id : ∀ c e, m.entries.get? c = some e → c.pool = m.poolId ∧ c.serial ≤ m.connectionSerial
  entry_ok : ∀ c e, m.entries.get? c = some e → e.Ok c
  matching : Matching (targets m.requests) (holders m.entries)
    (Lost m.entries m.connectionSerial)

/-- No request has lost its connection. -/
def Linked (m : PoolMachine) : Prop :=
  Matching (targets m.requests) (holders m.entries) fun _ => False

theorem Move.serials (hv : Move m k m') : m'.poolId = m.poolId ∧
    m'.requestSerial = m.requestSerial := by
  cases hv <;> exact ⟨rfl, rfl⟩

/-- The entries of the next state are well formed. -/
theorem Move.entry_ok (hv : Move m k m') (h : ∀ c e, m.entries.get? c = some e →
      (c.pool = m.poolId ∧ c.serial ≤ m.connectionSerial) ∧ e.Ok c) {c : ConnectionId} {e' : Entry}
    (hc : m'.entries.get? c = some e') :
    (c.pool = m.poolId ∧ c.serial ≤ m'.connectionSerial) ∧ e'.Ok c := by
  cases hv.origin hc with
  | same hd => exact ⟨⟨(h c _ hd).1.1, (h c _ hd).1.2.trans hv.serial_le⟩, (h c _ hd).2⟩
  | changed hd hb => exact ⟨⟨(h c _ hd).1.1, (h c _ hd).1.2.trans hv.serial_le⟩, hb.ok (h c _ hd).2⟩
  | reserved hr hp hroom ho hclock hcancel hnext hk he =>
    have hnew : m.entries.get? c = none := by
      cases hd : m.entries.get? c with
      | none => rfl
      | some e => exact absurd (h c e hd).1.2 (by simp [hnext, nextConnection])
    rw [(hv.serial_of_new hnew hc).2, hnext, he]
    exact ⟨⟨rfl, le_rfl⟩, .inl ⟨by simp [ho], hcancel⟩⟩

/-- A lost connection stays lost. -/
theorem Move.lost (hv : Move m k m') {d : ConnectionId}
    (hd : Lost m.entries m.connectionSerial d) : Lost m'.entries m'.connectionSerial d := by
  refine ⟨hd.1.trans hv.serial_le, fun e' hc => ?_⟩
  cases hv.origin hc with
  | same hc => exact hd.2 e' hc
  | changed hc hb => exact hb.closing (hd.2 _ hc)
  | reserved _ _ _ _ _ _ hnext =>
    rw [hnext] at hd
    exact absurd hd.1 (by simp [nextConnection])

theorem Move.lost_of_retired (hv : Move m k m') {d : ConnectionId} {busy : Bool}
    (hk : k = some (.retired d busy)) (hid : ∀ e, m.entries.get? d = some e →
      d.serial ≤ m.connectionSerial) : Lost m'.entries m'.connectionSerial d := by
  cases hv with
  | @retire c e hc he reason deadline v =>
    obtain rfl : c = d := by injection hk with hk; injection hk
    refine ⟨hid e hc, fun x hx => ?_⟩
    dsimp only at hx
    rw [SortedMap.get?_insert_self] at hx
    exact Option.some.inj hx ▸ rfl
  | _ => cases hk

/-! ### The invariant -/

theorem Owned.next_absent (h : Owned m) : m.entries.get? m.nextConnection = none := by
  cases hc : m.entries.get? m.nextConnection with
  | none => rfl
  | some e => exact absurd (h.entry_id _ e hc).2 (by simp [nextConnection])

theorem not_lost_next : ¬ Lost m.entries m.connectionSerial m.nextConnection :=
  fun h => absurd h.1 (by simp [nextConnection])

theorem Owned.step (h : Owned m) (hv : Move m k m') : Owned m' := by
  have hchange := hv.change h.matching h.next_absent not_lost_next fun c e hc hl => hl.2 e hc
  have hlost : ∀ d, Lost m.entries m.connectionSerial d →
      Lost m'.entries m'.connectionSerial d := fun d => hv.lost
  have hent : ∀ c e, m'.entries.get? c = some e →
      (c.pool = m.poolId ∧ c.serial ≤ m'.connectionSerial) ∧ e.Ok c :=
    fun c e => hv.entry_ok fun c e hc => ⟨h.entry_id c e hc, h.entry_ok c e hc⟩
  obtain ⟨hpool, hserial⟩ := hv.serials
  refine ⟨?_, fun c e hc => hpool ▸ (hent c e hc).1, fun c e hc => (hent c e hc).2, ?_⟩
  · rw [hpool, hserial]
    intro r p' hr
    obtain ⟨p, hp, -⟩ := hv.request_origin hr
    exact h.request_id r p hp
  · refine h.matching.change hchange hlost ?_ ?_
    · exact fun d hk => hv.lost_of_retired hk fun e hd => (h.entry_id d e hd).2
    · exact fun d => holders_of_lost _ fun c e hc hl => hl.2 e hc

/-- Only the retirement of a busy connection breaks a link. -/
theorem Linked.step (h : Owned m) (hl : Linked m) (hv : Move m k m')
    (hk : ∀ c, k ≠ some (.retired c true)) : Linked m' := by
  have hchange := hv.change hl h.next_absent not_false fun _ _ _ => False.elim
  exact Matching.change hl hchange (fun _ => id) (fun c hc => hk c hc) fun _ => False.elim

end PoolMachine

end GwzTransport.Pool
