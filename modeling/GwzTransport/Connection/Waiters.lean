import GwzTransport.Connection.Slots

/-!
# The waiters of a host's queue

A poll that does not get a slot registers its waker and sleeps.  `dequeue`, `drop_claim`, a refused
`publish` and `retire_if_done` wake the first waiter; `take_slot` does not wake the one that comes
to the front when it takes the first out.  So a first waiter can sleep beside a free slot.

* `HeadAwake`: no first waiter sleeps beside a free slot;
* `Relays`: the condition on the polls under which every step keeps it, and without which a step
  does not (`headAwake_step`);
* `head_awake_iff`: the two over whole runs.
-/

namespace GwzTransport.Connection

open Protocol MachineInt Transition

variable {limits : HostLimits} {h h' : Host} {s : HostState}

/-- No first waiter sleeps beside a free slot: the waker it registered, if any, was taken and
woken since. -/
def HeadAwake (limits : HostLimits) (h : Host) : Prop :=
  h.state.phase = .opened → h.state.active < limits.activeSlots →
    ∀ w, h.state.queue.head? = some w → w.waker = none

/-- A poll that takes the first waiter out of the queue leaves no slot free, or no one sleeps behind
it. -/
def Relays (limits : HostLimits) (h : Host) : Call → Prop
  | .takeSlot id _ => ∀ w next rest, h.state.queue = w :: next :: rest → w.id = id →
      h.state.phase = .opened → h.state.active < limits.activeSlots → next.waker = none ∨
        h.state.nextBinding < u64Max ∧ h.state.active + 1 = limits.activeSlots
  | _ => True

theorem wakeFront_head (s : HostState) {w : Waiter} (hw : s.wakeFront.1.queue.head? = some w) :
    w.waker = none := by
  unfold HostState.wakeFront at hw
  split at hw
  · rename_i hq
    simp [hq] at hw
  · cases hw
    rfl

theorem setWaker_head {id : ℕ} {waker : Waker} {queue : List Waiter} {w : Waiter}
    (hne : queue.head?.any (·.id == id) = false)
    (hw : (HostState.setWaker id waker queue).head? = some w) : queue.head? = some w := by
  cases queue with
  | nil => exact hw
  | cons v rest =>
    have hv : v.id ≠ id := by simpa using hne
    rw [HostState.setWaker, if_neg hv] at hw
    exact hw

/-- A poll that leaves the queue as it is, or only registers a waker, relays. -/
theorem relays_of_not_front {id : ℕ} {waker : Waker}
    (hnot : ¬ (h.state.queue.head?.any (·.id == id) ∧ h.state.active < limits.activeSlots)) :
    Relays limits h (.takeSlot id waker) := by
  intro w next rest hqueue hid _ hroom
  refine absurd ⟨?_, hroom⟩ hnot
  simp [hqueue, hid]

/-- Whether a poll keeps the first waiter awake. -/
theorem headAwake_takeSlot {id : ℕ} {waker : Waker} {t : HostState} {slot : Slot}
    (ha : HeadAwake limits h) (hp : Polled limits h.state id waker t slot) (hstate : h'.state = t) :
    HeadAwake limits h' ↔ Relays limits h (.takeSlot id waker) := by
  unfold HeadAwake
  rw [hstate]
  cases hp with
  | shut hphase =>
    exact ⟨fun _ _ _ _ _ _ hopen => absurd hopen hphase, fun _ hopen => absurd hopen hphase⟩
  | @granted w rest hphase hqueue hid hroom hbound =>
    constructor
    · intro hnew v next rest' hqueue' _ _ _
      obtain ⟨rfl, rfl⟩ : w = v ∧ rest = next :: rest' := by simpa [hqueue] using hqueue'
      by_cases hlast : h.state.active + 1 = limits.activeSlots
      · exact .inr ⟨hbound, hlast⟩
      · refine .inl (hnew hphase ?_ next rfl)
        simp only
        omega
    · intro hrelays _ hfree next hnext
      obtain ⟨rest', rfl⟩ := List.head?_eq_some_iff.1 hnext
      rcases hrelays w next rest' hqueue hid hphase hroom with hawake | ⟨-, hlast⟩
      · exact hawake
      · simp only at hfree
        omega
  | @exhausted w rest hphase hqueue hid hroom hbound =>
    constructor
    · intro hnew v next rest' hqueue' _ _ _
      obtain ⟨rfl, rfl⟩ : w = v ∧ rest = next :: rest' := by simpa [hqueue] using hqueue'
      exact .inl (hnew hphase hroom next rfl)
    · intro hrelays _ _ next hnext
      obtain ⟨rest', rfl⟩ := List.head?_eq_some_iff.1 hnext
      rcases hrelays w next rest' hqueue hid hphase hroom with hawake | ⟨hlt, -⟩
      · exact hawake
      · exact absurd hlt hbound
  | wait hphase hwait =>
    refine ⟨fun _ => relays_of_not_front hwait, fun _ _ hroom w hw => ?_⟩
    refine ha hphase hroom w (setWaker_head ?_ hw)
    rw [Bool.eq_false_iff]
    exact fun hfront => hwait ⟨hfront, hroom⟩

/-- What frees a slot outside a poll wakes the first waiter. -/
theorem headAwake_of_wakeFront (hstate : h'.state = s.wakeFront.1) : HeadAwake limits h' := by
  intro _ _ w hw
  rw [hstate] at hw
  exact wakeFront_head s hw

theorem headAwake_of_eq (ha : HeadAwake limits h) (hphase : h'.state.phase = h.state.phase)
    (hactive : h'.state.active = h.state.active) (hqueue : h'.state.queue = h.state.queue) :
    HeadAwake limits h' := by
  unfold HeadAwake
  rw [hphase, hactive, hqueue]
  exact ha

theorem headAwake_admit (ha : HeadAwake limits h)
    (hstate : h'.state = (h.state.admitInput limits).1) :
    HeadAwake limits h' := by
  unfold HostState.admitInput at hstate
  split_ifs at hstate
  · exact headAwake_of_eq ha (by rw [hstate]) (by rw [hstate]) (by rw [hstate])
  · exact headAwake_of_eq ha (by rw [hstate]) (by rw [hstate]) (by rw [hstate])
  · unfold HeadAwake
    rw [hstate]
    intro hphase hroom w hw
    cases hq : h.state.queue with
    | nil =>
      rw [hq] at hw
      cases hw
      rfl
    | cons v rest =>
      rw [hq] at hw
      exact ha hphase hroom w (by rw [hq]; exact hw)

theorem headAwake_publish {claim serial : ℕ}
    {x : HostState × Except TerminalReason Unit × Option Waker}
    (ha : HeadAwake limits h) (hx : h.state.publish claim serial = some x)
    (hstate : h'.state = x.1) :
    HeadAwake limits h' := by
  unfold HostState.publish at hx
  simp only at hx
  split at hx
  · cases hx
    exact headAwake_of_eq ha (by rw [hstate]) (by rw [hstate]) (by rw [hstate])
  · obtain ⟨t, -, rfl⟩ := Option.map_eq_some_iff.1 hx
    exact headAwake_of_wakeFront hstate

theorem headAwake_sealHost {reason : TerminalReason} {x : HostState × List Waker}
    (ha : HeadAwake limits h) (hx : h.state.sealHost reason = some x) (hstate : h'.state = x.1) :
    HeadAwake limits h' := by
  unfold HostState.sealHost at hx
  split_ifs at hx
  · cases hx
    exact headAwake_of_eq ha (by rw [hstate]) (by rw [hstate]) (by rw [hstate])
  · obtain ⟨active, -, hx⟩ := Option.bind_eq_some_iff.1 hx
    cases hx
    intro hphase
    rw [hstate] at hphase
    cases hphase

theorem headAwake_call {c : Call} {out : Outcome} (ha : HeadAwake limits h)
    (hc : ∀ id waker, c ≠ .takeSlot id waker) (hcall : h.call limits c = some (h', out)) :
    HeadAwake limits h' := by
  have hshared : ∀ n f, (h.mapShared n f).state = h.state := by
    intro n f
    unfold Host.mapShared
    split <;> rfl
  cases c with
  | takeSlot id waker => exact absurd rfl (hc id waker)
  | admitInput =>
    cases hcall
    exact headAwake_admit ha rfl
  | dequeue id =>
    cases hcall
    exact headAwake_of_wakeFront rfl
  | dropClaim claim =>
    obtain ⟨x, hx, hcall⟩ := Option.map_eq_some_iff.1 hcall
    obtain ⟨t, -, rfl⟩ := Option.map_eq_some_iff.1 hx
    cases hcall
    exact headAwake_of_wakeFront rfl
  | publish claim serial =>
    obtain ⟨x, hx, hcall⟩ := Option.map_eq_some_iff.1 hcall
    cases hcall
    exact headAwake_publish ha hx rfl
  | enliven serial | dropLive serial | sealOperation serial =>
    cases hcall
    refine headAwake_of_eq ha ?_ ?_ ?_ <;> rw [hshared]
  | retireIfDone serial =>
    simp only [Host.call] at hcall
    split_ifs at hcall
    · obtain ⟨x, hx, hcall⟩ := Option.map_eq_some_iff.1 hcall
      obtain ⟨t, -, rfl⟩ := Option.map_eq_some_iff.1 hx
      cases hcall
      exact headAwake_of_wakeFront rfl
    · cases hcall
      exact ha
  | sealHost reason =>
    obtain ⟨x, hx, hcall⟩ := Option.map_eq_some_iff.1 hcall
    cases hcall
    exact headAwake_sealHost ha hx rfl
  | finish =>
    cases hcall
    exact nofun

/-- A step keeps the first waiter awake exactly if it relays. -/
theorem headAwake_step {x : Call × Outcome} (ha : HeadAwake limits h)
    (hs : Host.Step limits h x h') : HeadAwake limits h' ↔ Relays limits h x.1 := by
  obtain ⟨c, out⟩ := x
  obtain ⟨-, hcall⟩ := hs
  cases c with
  | takeSlot id waker =>
    obtain ⟨⟨t, slot⟩, ht, hx⟩ := Option.map_eq_some_iff.1 hcall
    cases hx
    exact headAwake_takeSlot ha (polled_takeSlot ht) rfl
  | _ => exact iff_of_true (headAwake_call ha (by rintro id waker ⟨⟩) hcall) trivial

/-! ### Whole runs -/

/-- A step whose poll, if it is one, relays. -/
def RelayStep (limits : HostLimits) (h : Host) (x : Call × Outcome) (h' : Host) : Prop :=
  Relays limits h x.1 ∧ Host.Step limits h x h'

theorem step_unique (h : Host) (x : Call × Outcome) (t u : Host) (ht : Host.Step limits h x t)
    (hu : Host.Step limits h x u) : t = u := by
  have heq := ht.2.symm.trans hu.2
  simpa using heq

theorem headAwake_built (limits : HostLimits) : HeadAwake limits .built := by
  intro _ _ w hw
  simp [Host.built, HostState.built] at hw

theorem headAwake_run {tr : List (Call × Outcome)} (hrun : Run (RelayStep limits) .built tr h) :
    HeadAwake limits h :=
  hrun.invariant (P := fun _ => HeadAwake limits) (headAwake_built limits)
    fun _ _ _ _ _ ha hs => (headAwake_step ha hs.2).2 hs.1

/-- No first waiter slept beside a free slot at any time of a run exactly if every poll of the run
that took a waiter out of the queue relayed. -/
theorem head_awake_iff {tr : List (Call × Outcome)} (hrun : Run (Host.Step limits) .built tr h) :
    (∀ before t, before <+: tr → Run (Host.Step limits) .built before t → HeadAwake limits t) ↔
      Run (RelayStep limits) .built tr h := by
  constructor
  · intro hawake
    induction hrun with
    | nil => exact .nil
    | @snoc tr t u x hr hs ih =>
      have ht : HeadAwake limits t := hawake tr t (List.prefix_append _ _) hr
      have hu : HeadAwake limits u := hawake _ u List.prefix_rfl (hr.snoc hs)
      refine (ih fun before v hb => hawake before v (hb.trans (List.prefix_append _ _))).snoc ?_
      exact ⟨(headAwake_step ht hs).1 hu, hs⟩
  · rintro hrelay before t ⟨after, rfl⟩ hbefore
    obtain ⟨u, hu, -⟩ := hrelay.split
    have hstep : Run (Host.Step limits) .built before u := hu.mono fun _ _ _ hs => hs.2
    obtain rfl := hbefore.unique step_unique hstep
    exact headAwake_run hu

/-- Whether the first waiter sleeps beside a free slot. -/
def sleeps (limits : HostLimits) (h : Host) : Bool :=
  h.state.phase == .opened && decide (h.state.active < limits.activeSlots) &&
    h.state.queue.head?.any (·.waker.isSome)

theorem not_headAwake_of_sleeps (hs : sleeps limits h = true) : ¬ HeadAwake limits h := by
  intro ha
  simp only [sleeps, Bool.and_eq_true, beq_iff_eq, decide_eq_true_eq, Option.any_eq_true] at hs
  obtain ⟨⟨hphase, hroom⟩, w, hw, hsome⟩ := hs
  rw [ha hphase hroom w hw] at hsome
  cases hsome

/-- Two operations end before the first of two waiters is polled again: the first takes a slot, and
the second, now at the front, sleeps beside the other. -/
theorem head_sleeps : ∃ tr h, Run (Host.Step ⟨2, 8⟩) .built tr h ∧ ¬ HeadAwake ⟨2, 8⟩ h := by
  have hplay : (Host.built.play ⟨2, 8⟩ [.admitInput, .admitInput, .takeSlot 0 10, .takeSlot 1 11,
      .publish 0 1, .publish 1 2, .admitInput, .admitInput, .takeSlot 2 12, .takeSlot 3 13,
      .sealOperation 1, .retireIfDone 1, .sealOperation 2, .retireIfDone 2,
      .takeSlot 2 12]).any (fun x => sleeps ⟨2, 8⟩ x.1) = true := by
    decide +kernel
  obtain ⟨tr, h, hrun, hsleeps⟩ := Host.exists_run hplay
  exact ⟨tr, h, hrun, not_headAwake_of_sleeps hsleeps⟩

/-- With one slot the waiter that comes to the front stands before a slot that is taken. -/
theorem head_awake_iff_single : ∃ tr h, Run (Host.Step ⟨1, 8⟩) .built tr h ∧
    h.state.active = 1 ∧ h.state.queue = [⟨1, some 11⟩] ∧
    ∀ before t, before <+: tr → Run (Host.Step ⟨1, 8⟩) .built before t → HeadAwake ⟨1, 8⟩ t := by
  have hrelay : ∃ tr h, Run (RelayStep ⟨1, 8⟩) .built tr h ∧ h.state.active = 1 ∧
      h.state.queue = [⟨1, some 11⟩] := by
    refine ⟨_, _, .cons (l := (Call.admitInput, _)) ⟨trivial, rfl, rfl⟩ <|
      .cons (l := (Call.admitInput, _)) ⟨trivial, rfl, rfl⟩ <|
      .cons (l := (Call.takeSlot 1 11, _)) ⟨?_, rfl, rfl⟩ <|
      .single (l := (Call.takeSlot 0 10, _)) ⟨?_, rfl, rfl⟩, rfl, rfl⟩
    · exact relays_of_not_front (by decide)
    · exact fun _ _ _ _ _ _ _ => .inr ⟨by decide, rfl⟩
  obtain ⟨tr, h, hrun, hactive, hqueue⟩ := hrelay
  have hstep : Run (Host.Step ⟨1, 8⟩) .built tr h := hrun.mono fun _ _ _ hs => hs.2
  exact ⟨tr, h, hstep, hactive, hqueue, (head_awake_iff hstep).2 hrun⟩

end GwzTransport.Connection
