import GwzTransport.Stream.Sound

/-!
# The I/O budgets of a stream

The I/O clock stores a budget as what is left of it, and while the budget is being spent as the time
at which it will be used up.  What the budgets are for is said by a meter that only adds up:

* `Meter`: the time spent in `Network` since the last progress and in `Interaction` altogether, and
  whether the budget of a state was found used up;
* `Tracks`: the clock of an endpoint's machine shows what the meter leaves of the budgets;
* `io_budgets_exact`: so it does after any sequence of `set_io_state`, `record_io_progress` and
  `advance`.

A time of use that does not fit a `u64` is clipped, and then less than the budget is left
(`io_budget_clipped`): the times passed to `advance` have to leave room for a budget.
-/

namespace GwzTransport.Stream

open Protocol MachineInt

/-- The calls that concern the I/O clock. -/
inductive IoCall
  | setIoState (state : IoState)
  | recordIoProgress (bytes : ℕ)
  | advance (nowMs : ℕ)
  deriving DecidableEq

def IoCall.call : IoCall → Call
  | .setIoState state => .setIoState state
  | .recordIoProgress bytes => .recordIoProgress bytes
  | .advance nowMs => .advance nowMs

/-- What `advance` does. -/
theorem StreamMachine.advance_cases (m : StreamMachine) (t : ℕ) :
    t < m.now ∧ m.advance t = m ∨
      m.now ≤ t ∧ ¬ m.core.Live ∧ m.advance t = { m with now := t } ∨
      m.now ≤ t ∧ m.core.Live ∧
        ({ m with now := t }.expired = true ∧ m.advance t = { m with now := t }.fail .timeout true ∨
          { m with now := t }.expired = false ∧
            (m.advance t = { m with now := t } ∨ m.advance t = { m with now := t }.touch)) := by
  unfold StreamMachine.advance
  dsimp only
  split_ifs with hlt hover hexpired hbatch
  · exact .inl ⟨hlt, rfl⟩
  · exact .inr (.inl ⟨not_lt.1 hlt, m.not_live_of_over hover, rfl⟩)
  · exact .inr (.inr ⟨not_lt.1 hlt, m.live_of_not_over hover, .inl ⟨hexpired, rfl⟩⟩)
  · exact .inr (.inr ⟨not_lt.1 hlt, m.live_of_not_over hover,
      .inr ⟨by simpa using hexpired, .inr rfl⟩⟩)
  · exact .inr (.inr ⟨not_lt.1 hlt, m.live_of_not_over hover,
      .inr ⟨by simpa using hexpired, .inl rfl⟩⟩)

section Passed

variable {m : StreamMachine} (hside : m.config.side = .endpoint) (hlive : m.live = .ok ())
  (hclose : m.closeDeadline = none) (hreceived : m.closeReceived = false)
  (hexpired : m.expired = false)

include hside hlive hclose hreceived hexpired

theorem StreamMachine.setIoState_of_passed (state : IoState) :
    (m.setIoState state).1 = if m.io.state = state then m
      else if (m.io.setState m.now state).due m.now then
        { m with io := m.io.setState m.now state }.fail .timeout true
      else { m with io := m.io.setState m.now state } := by
  have hguard : (m.closeDeadline.isSome || m.closeReceived) = false := by simp [hclose, hreceived]
  rw [StreamMachine.setIoState, if_neg (by simp [hside]), hlive]
  simp only [hguard, StreamMachine.expireIoIfDue, hexpired, Bool.false_eq_true, if_false]
  show (if m.io.state = state then _ else _ : StreamMachine × Except Error Unit).1 = _
  split_ifs with hsame
  · rw [IoClock.setState, if_pos hsame]
  · rfl
  · rfl

theorem StreamMachine.recordIoProgress_of_passed (bytes : ℕ) :
    (m.recordIoProgress bytes).1 = match m.io.progress m.now bytes m.config.ioTimeoutMs with
      | .ok io => { m with io := io }
      | .error _ => m := by
  have hguard : (m.closeDeadline.isSome || m.closeReceived) = false := by simp [hclose, hreceived]
  rw [StreamMachine.recordIoProgress, if_neg (by simp [hside]), hlive]
  simp only [hguard, StreamMachine.expireIoIfDue, hexpired, Bool.false_eq_true, if_false]
  cases m.io.progress m.now bytes m.config.ioTimeoutMs <;> rfl

end Passed

/-! ### The meter -/

/-- The time spent. -/
structure Meter where
  now : ℕ
  state : IoState
  /-- The time in `Network` since the last progress. -/
  network : ℕ
  interaction : ℕ
  /-- The budget of a state was used up in it. -/
  timedOut : Bool
  deriving DecidableEq

namespace Meter

def start : Meter := ⟨0, .idle, 0, 0, false⟩

/-- The budget of the current state is used up; a network timeout of zero is none. -/
def exhausted (k : Config) (b : Meter) : Bool :=
  match b.state with
  | .network => decide (0 < k.ioTimeoutMs ∧ k.ioTimeoutMs ≤ b.network)
  | .interaction => decide (k.interactionBudgetMs ≤ b.interaction)
  | .idle | .backpressure => false

/-- Nothing is metered once a budget was used up. -/
def checked (k : Config) (b : Meter) : Meter := { b with timedOut := b.exhausted k }

/-- The time up to `nowMs` is spent in the current state. -/
def pass (b : Meter) (nowMs : ℕ) : Meter :=
  { b with
    now := nowMs
    network := if b.state = .network then b.network + (nowMs - b.now) else b.network
    interaction :=
      if b.state = .interaction then b.interaction + (nowMs - b.now) else b.interaction }

def after (k : Config) (b : Meter) : IoCall → Meter
  | .setIoState state => if b.timedOut then b else checked k { b with state := state }
  | .recordIoProgress bytes =>
    if b.timedOut ∨ bytes = 0 ∨ b.state ≠ .network then b else { b with network := 0 }
  | .advance nowMs =>
    if nowMs < b.now then b
    else if b.timedOut then { b with now := nowMs }
    else checked k (b.pass nowMs)

/-- The time at which the budget of the current state will be used up. -/
def deadline (k : Config) (b : Meter) : Option ℕ :=
  match b.state with
  | .network =>
    if 0 < k.ioTimeoutMs then some (b.now + (k.ioTimeoutMs - b.network)) else none
  | .interaction => some (b.now + (k.interactionBudgetMs - b.interaction))
  | .idle | .backpressure => none

theorem pass_now (b : Meter) : b.pass b.now = b := by
  unfold pass
  simp

/-- A budget that is not used up keeps its deadline while time passes. -/
theorem deadline_pass {k : Config} {b : Meter} {t : ℕ} (ht : b.now ≤ t)
    (h : (b.pass t).exhausted k = false) : (b.pass t).deadline k = b.deadline k := by
  cases hs : b.state with
  | idle => simp [deadline, pass, hs]
  | backpressure => simp [deadline, pass, hs]
  | network =>
    simp only [exhausted, pass, hs, if_true, decide_eq_false_iff_not, not_and, not_le] at h
    simp only [deadline, pass, hs, if_true]
    split_ifs with hpos
    · have := h hpos
      exact congrArg some (by omega)
    · rfl
  | interaction =>
    simp only [exhausted, pass, hs, if_true, decide_eq_false_iff_not, not_le] at h
    simp only [deadline, pass, hs, if_true]
    exact congrArg some (by omega)

end Meter

/-! ### The clock follows the meter -/

/-- What the clock stores. -/
structure IoClock.Shows (k : Config) (c : IoClock) (b : Meter) : Prop where
  state : c.state = if b.timedOut then .idle else b.state
  deadline : c.deadline = if b.timedOut then none else b.deadline k
  network : b.timedOut = true ∨ b.state ≠ .network ∨ k.ioTimeoutMs = 0 →
    c.networkRemainingMs = k.ioTimeoutMs - b.network
  interaction : b.timedOut = true ∨ b.state ≠ .interaction →
    c.interactionRemainingMs = k.interactionBudgetMs - b.interaction

namespace IoClock.Shows

variable {k : Config} {c : IoClock} {b : Meter}

/-- What is left of the budgets when the clock is stopped at a later time. -/
theorem account (h : c.Shows k b) (halive : b.timedOut = false) {t : ℕ} (ht : b.now ≤ t) :
    c.account t = ⟨b.state, k.ioTimeoutMs - (b.pass t).network,
      k.interactionBudgetMs - (b.pass t).interaction, none⟩ := by
  obtain ⟨hstate, hdeadline, hnetwork, hinteraction⟩ := h
  obtain ⟨state, network, interaction, deadline⟩ := c
  simp only [halive, Bool.false_eq_true, if_false] at hstate hdeadline
  simp only [halive, Bool.false_eq_true, false_or] at hnetwork hinteraction
  subst hstate hdeadline
  cases hs : b.state with
  | idle =>
    rw [hs] at hnetwork hinteraction
    simp only [IoClock.account, Meter.deadline, Meter.pass, hs]
    simp [hnetwork (.inl (by decide)), hinteraction (by decide)]
  | backpressure =>
    rw [hs] at hnetwork hinteraction
    simp only [IoClock.account, Meter.deadline, Meter.pass, hs]
    simp [hnetwork (.inl (by decide)), hinteraction (by decide)]
  | network =>
    rw [hs] at hnetwork hinteraction
    by_cases hpos : 0 < k.ioTimeoutMs
    · simp only [IoClock.account, Meter.deadline, Meter.pass, hs, if_pos hpos, if_true]
      rw [hinteraction (by decide)]
      simp only [reduceCtorEq, if_false]
      congr 1
      omega
    · simp only [IoClock.account, Meter.deadline, Meter.pass, hs, if_neg hpos, if_true]
      rw [hinteraction (by decide), hnetwork (.inr (by omega))]
      simp only [reduceCtorEq, if_false]
      congr 1
      omega
  | interaction =>
    rw [hs] at hnetwork hinteraction
    simp only [IoClock.account, Meter.deadline, Meter.pass, hs, if_true]
    rw [hnetwork (.inl (by decide))]
    simp only [reduceCtorEq, if_false]
    congr 1
    omega

/-- The clock is due when the meter says that the budget is used up. -/
theorem due (h : c.Shows k b) (halive : b.timedOut = false) {t : ℕ} (ht : b.now ≤ t) :
    c.due t = (b.pass t).exhausted k := by
  have hdeadline := h.deadline
  simp only [halive, Bool.false_eq_true, if_false] at hdeadline
  rw [IoClock.due, hdeadline]
  cases hs : b.state with
  | idle => simp [Meter.deadline, Meter.exhausted, Meter.pass, hs]
  | backpressure => simp [Meter.deadline, Meter.exhausted, Meter.pass, hs]
  | network =>
    simp only [Meter.deadline, Meter.exhausted, Meter.pass, hs, if_true]
    split_ifs with hpos
    · simp only [Option.any_some, decide_eq_decide]
      omega
    · simp [hpos]
  | interaction =>
    simp only [Meter.deadline, Meter.exhausted, Meter.pass, hs, if_true, Option.any_some,
      decide_eq_decide]
    omega

theorem due_now (h : c.Shows k b) (halive : b.timedOut = false) : c.due b.now = b.exhausted k := by
  rw [h.due halive le_rfl, b.pass_now]

/-- What the clock reports. -/
theorem status (h : c.Shows k b) :
    (c.status b.now).remainingNetworkMs = k.ioTimeoutMs - b.network ∧
      (c.status b.now).remainingInteractionMs = k.interactionBudgetMs - b.interaction := by
  obtain ⟨hstate, hdeadline, hnetwork, hinteraction⟩ := h
  obtain ⟨state, network, interaction, deadline⟩ := c
  dsimp only at hstate hdeadline hnetwork hinteraction
  subst hstate hdeadline
  cases ht : b.timedOut with
  | true =>
    rw [ht] at hnetwork hinteraction
    simp [IoClock.status, hnetwork (.inl rfl), hinteraction (.inl rfl)]
  | false =>
    simp only [ht, Bool.false_eq_true, false_or] at hnetwork hinteraction
    cases hs : b.state with
    | idle =>
      rw [hs] at hnetwork hinteraction
      simp [IoClock.status, hnetwork (.inl (by decide)), hinteraction (by decide)]
    | backpressure =>
      rw [hs] at hnetwork hinteraction
      simp [IoClock.status, hnetwork (.inl (by decide)), hinteraction (by decide)]
    | network =>
      rw [hs] at hnetwork hinteraction
      by_cases hpos : 0 < k.ioTimeoutMs
      · simp [IoClock.status, Meter.deadline, hs, hpos, hinteraction (by decide)]
      · simp [IoClock.status, Meter.deadline, hs, hpos, hinteraction (by decide),
          hnetwork (.inr (by omega))]
    | interaction =>
      rw [hs] at hnetwork hinteraction
      simp [IoClock.status, Meter.deadline, hs, hnetwork (.inl (by decide))]

end IoClock.Shows

/-- A machine whose clock shows what the meter leaves. -/
structure Reads (k : Config) (m : StreamMachine) (b : Meter) : Prop where
  config : m.config = k
  completed : m.completed = none
  closeDeadline : m.closeDeadline = none
  closeReceived : m.closeReceived = false
  now : m.now = b.now
  error : m.error = if b.timedOut then some .timeout else none
  io : m.io.Shows k b

/-- And between calls a used-up budget was noticed: a network budget of zero is one that is
disabled, never one that is used up. -/
structure Tracks (k : Config) (m : StreamMachine) (b : Meter) : Prop extends Reads k m b where
  noticed : b.timedOut = false →
    b.exhausted k = false ∧ (0 < k.ioTimeoutMs → b.network < k.ioTimeoutMs)

/-- A machine that times out, at the time the meter has reached. -/
theorem Reads.fail {k : Config} {m : StreamMachine} {b : Meter} (h : Reads k m b)
    (halive : b.timedOut = false) {t : ℕ} (ht : b.now ≤ t) :
    Tracks k ({ m with now := t }.fail .timeout true) { b.pass t with timedOut := true } := by
  have herror : m.error = none := by simpa [halive] using h.error
  have hfail : { m with now := t }.fail .timeout true =
      { { m with now := t } with
        error := some .timeout, send := [], flush := none, peerFlush := none, closePending := none
        batchDeadline := none, io := m.io.stop t
        terminalMessage := some (m.failureMessage .timeout)
        revision := (m.revision + 1) % (u64Max + 1) } := by
    simp [StreamMachine.fail, herror, h.completed, StreamMachine.touch,
      StreamMachine.failureMessage,
      StreamMachine.envelope]
  rw [hfail]
  refine ⟨⟨h.config, h.completed, h.closeDeadline, h.closeReceived, rfl, rfl, ?_⟩, by simp⟩
  rw [IoClock.stop, h.io.account halive ht]
  exact ⟨rfl, rfl, fun _ => rfl, fun _ => rfl⟩

namespace Tracks

variable {k : Config} {m : StreamMachine} {b : Meter}

theorem initial (k : Config) : Tracks k (StreamMachine.initial k) .start :=
  ⟨⟨rfl, rfl, rfl, rfl, rfl, rfl, ⟨rfl, rfl, fun _ => rfl, fun _ => rfl⟩⟩, fun _ => ⟨rfl, id⟩⟩

theorem live_eq_ok (h : Tracks k m b) (halive : b.timedOut = false) : m.live = .ok () := by
  have herror := h.error
  rw [halive] at herror
  simp [StreamMachine.live, herror, h.completed]

theorem live_eq_error (h : Tracks k m b) (hout : b.timedOut = true) :
    m.live = .error .timeout := by
  have herror := h.error
  rw [hout] at herror
  simp [StreamMachine.live, herror]

/-- What passes unnoticed is not in a state whose budget is used up; the network budget then is
not used up in any state. -/
theorem network_lt (h : Tracks k m b) (halive : b.timedOut = false) {t : ℕ}
    (hex : (b.pass t).exhausted k = false) (hpos : 0 < k.ioTimeoutMs) :
    (b.pass t).network < k.ioTimeoutMs := by
  by_cases hs : b.state = .network
  · simpa [Meter.exhausted, Meter.pass, hs, hpos] using hex
  · simpa [Meter.pass, hs] using (h.noticed halive).2 hpos

theorem live_iff (h : Tracks k m b) : m.core.Live ↔ b.timedOut = false := by
  have herror := h.error
  constructor
  · intro hlive
    rw [show m.error = none from hlive.1] at herror
    by_contra hout
    simp [hout] at herror
  · intro halive
    rw [halive] at herror
    exact ⟨herror, h.completed⟩

/-- The same machine at a later time, before a budget is used up. -/
theorem pass (h : Tracks k m b) (halive : b.timedOut = false) {t : ℕ} (ht : b.now ≤ t)
    (hex : (b.pass t).exhausted k = false) {n : StreamMachine} (hn : n = { m with now := t } ∨
      n = { m with now := t }.touch) : Tracks k n (b.pass t) := by
  have hshows : m.io.Shows k (b.pass t) := by
    obtain ⟨hstate, hdeadline, hnetwork, hinteraction⟩ := h.io
    refine ⟨hstate, ?_, fun hcond => ?_, fun hcond => ?_⟩
    · rw [Meter.deadline_pass ht hex]
      exact hdeadline
    · rw [hnetwork hcond]
      rcases hcond with hout | hs | hzero
      · exact absurd (hout.symm.trans halive) (by decide)
      · rw [Meter.pass, if_neg (show b.state ≠ .network from hs)]
      · simp [hzero]
    · rw [hinteraction hcond]
      rcases hcond with hout | hs
      · exact absurd (hout.symm.trans halive) (by decide)
      · rw [Meter.pass, if_neg (show b.state ≠ .interaction from hs)]
  rcases hn with rfl | rfl <;>
    exact ⟨⟨h.config, h.completed, h.closeDeadline, h.closeReceived, rfl, h.error, hshows⟩,
      fun _ => ⟨hex, h.network_lt halive hex⟩⟩

theorem advance (h : Tracks k m b) (t : ℕ) : Tracks k (m.advance t) (b.after k (.advance t)) := by
  rcases m.advance_cases t with ⟨hlt, heq⟩ | ⟨hle, hdead, heq⟩ | ⟨hle, hlive, hcases⟩
  · rw [h.now] at hlt
    rw [heq, Meter.after, if_pos hlt]
    exact h
  · rw [h.now] at hle
    have hout : b.timedOut = true := by simpa using mt h.live_iff.2 hdead
    rw [heq, Meter.after, if_neg (by omega), if_pos hout]
    obtain ⟨hstate, hdeadline, hnetwork, hinteraction⟩ := h.io
    rw [hout] at hdeadline
    exact ⟨⟨h.config, h.completed, h.closeDeadline, h.closeReceived, rfl, h.error,
      ⟨hstate, by rw [hdeadline]; simp [hout], hnetwork, hinteraction⟩⟩, by simp [hout]⟩
  · rw [h.now] at hle
    have halive := h.live_iff.1 hlive
    have hexpired : { m with now := t }.expired = (b.pass t).exhausted k := by
      rw [StreamMachine.expired, h.closeDeadline, ← h.io.due halive hle]
      rfl
    rw [hexpired] at hcases
    rw [Meter.after, if_neg (by omega), halive, if_neg Bool.false_ne_true, Meter.checked]
    rcases hcases with ⟨hex, heq⟩ | ⟨hex, heq⟩
    · rw [heq, hex]
      exact h.toReads.fail halive hle
    · have hsame : { b.pass t with timedOut := (b.pass t).exhausted k } = b.pass t := by
        rw [hex, ← halive]
        rfl
      rw [hsame]
      exact h.pass halive hle hex heq

/-- Between calls the clock is not due. -/
theorem not_expired (h : Tracks k m b) (halive : b.timedOut = false) : m.expired = false := by
  rw [StreamMachine.expired, h.closeDeadline, h.now, h.io.due_now halive, (h.noticed halive).1]
  rfl

/-- The clock in a new state, when the sums fit. -/
theorem setState (h : Tracks k m b) (halive : b.timedOut = false) {state : IoState}
    (hne : b.state ≠ state) (hroom : b.now + max k.ioTimeoutMs k.interactionBudgetMs ≤ u64Max) :
    (m.io.setState b.now state).Shows k { b with state := state } := by
  have hstate : m.io.state = b.state := by simpa [halive] using h.io.state
  have haccount := h.io.account halive le_rfl
  rw [b.pass_now] at haccount
  have hsum : ∀ {a : ℕ}, a ≤ max k.ioTimeoutMs k.interactionBudgetMs →
      satAdd b.now a = b.now + a := fun ha => min_eq_left (by omega)
  rw [IoClock.setState, if_neg (by rwa [hstate]), haccount]
  refine ⟨by simp [halive], ?_, fun _ => rfl, fun _ => rfl⟩
  simp only [halive, Bool.false_eq_true, if_false, Meter.deadline]
  cases state with
  | idle => rfl
  | backpressure => rfl
  | network =>
    by_cases hpos : 0 < k.ioTimeoutMs
    · have hlt := (h.noticed halive).2 hpos
      simp only [if_pos hpos, if_pos (show k.ioTimeoutMs - b.network > 0 by omega)]
      rw [hsum (by omega)]
    · simp only [if_neg hpos, if_neg (show ¬ k.ioTimeoutMs - b.network > 0 by omega)]
  | interaction =>
    dsimp only
    rw [hsum (by omega)]

theorem setIoState (h : Tracks k m b) (hside : k.side = .endpoint) (state : IoState)
    (hroom : b.now + max k.ioTimeoutMs k.interactionBudgetMs ≤ u64Max) :
    Tracks k (m.setIoState state).1 (b.after k (.setIoState state)) := by
  cases hout : b.timedOut with
  | true =>
    rw [StreamMachine.setIoState, if_neg (by simp [h.config, hside]), h.live_eq_error hout,
      Meter.after, if_pos hout]
    exact h
  | false =>
    have hstate : m.io.state = b.state := by simpa [hout] using h.io.state
    have hafter : b.after k (.setIoState state) = .checked k { b with state := state } :=
      if_neg (by simp [hout])
    rw [StreamMachine.setIoState_of_passed (by rw [h.config, hside]) (h.live_eq_ok hout)
      h.closeDeadline h.closeReceived (h.not_expired hout), hafter, hstate, h.now]
    by_cases hsame : b.state = state
    · have hb : Meter.checked k { b with state := state } = b := by
        rw [← hsame, Meter.checked, (h.noticed hout).1, ← hout]
      rw [if_pos hsame, hb]
      exact h
    rw [if_neg hsame]
    have hshows := h.setState hout hsame hroom
    have hreads : Reads k { m with now := b.now, io := m.io.setState b.now state }
        { b with state := state } :=
      ⟨h.config, h.completed, h.closeDeadline, h.closeReceived, rfl, h.error, hshows⟩
    rw [hshows.due_now hout]
    cases hex : Meter.exhausted k { b with state := state } with
    | true =>
      have hfailed := hreads.fail hout le_rfl
      rw [Meter.pass_now] at hfailed
      rw [if_pos rfl, Meter.checked, hex]
      exact hfailed
    | false =>
      rw [if_neg Bool.false_ne_true, Meter.checked, hex]
      rw [← hout]
      exact ⟨hreads, fun _ => ⟨hex, (h.noticed hout).2⟩⟩

theorem recordIoProgress (h : Tracks k m b) (hside : k.side = .endpoint) (bytes : ℕ)
    (hroom : b.now + max k.ioTimeoutMs k.interactionBudgetMs ≤ u64Max) :
    Tracks k (m.recordIoProgress bytes).1 (b.after k (.recordIoProgress bytes)) := by
  cases hout : b.timedOut with
  | true =>
    have hafter : b.after k (.recordIoProgress bytes) = b := if_pos (.inl hout)
    rw [StreamMachine.recordIoProgress, if_neg (by simp [h.config, hside]), h.live_eq_error hout,
      hafter]
    exact h
  | false =>
    have hstate : m.io.state = b.state := by simpa [hout] using h.io.state
    obtain rfl := h.config
    rw [StreamMachine.recordIoProgress_of_passed hside (h.live_eq_ok hout) h.closeDeadline
      h.closeReceived (h.not_expired hout)]
    by_cases hzero : bytes = 0
    · have hprogress : m.io.progress m.now bytes m.config.ioTimeoutMs = .ok m.io := if_pos hzero
      have hafter : b.after m.config (.recordIoProgress bytes) = b := if_pos (.inr (.inl hzero))
      rw [hprogress, hafter]
      exact h
    by_cases hs : b.state = .network
    · have hprogress : m.io.progress m.now bytes m.config.ioTimeoutMs = .ok { m.io with
          networkRemainingMs := m.config.ioTimeoutMs
          deadline := if m.config.ioTimeoutMs > 0 then some (satAdd m.now m.config.ioTimeoutMs)
          else none } := by
        rw [IoClock.progress, if_neg hzero, if_neg (by simp [hstate, hs])]
      have hafter : b.after m.config (.recordIoProgress bytes) = { b with network := 0 } :=
        if_neg (by simp [hout, hzero, hs])
      have hsum : satAdd m.now m.config.ioTimeoutMs = b.now + (m.config.ioTimeoutMs - 0) := by
        rw [h.now]
        exact min_eq_left (by omega)
      rw [hprogress, hafter]
      refine ⟨⟨rfl, h.completed, h.closeDeadline, h.closeReceived, h.now, h.error, ?_⟩,
        fun _ => ⟨?_, id⟩⟩
      · refine ⟨h.io.state, ?_, fun _ => rfl, h.io.interaction⟩
        simp only [hout, Bool.false_eq_true, if_false, Meter.deadline, hs, hsum]
      · simp only [Meter.exhausted, hs, decide_eq_false_iff_not]
        omega
    · have hprogress : m.io.progress m.now bytes m.config.ioTimeoutMs = .error .wrongState := by
        rw [IoClock.progress, if_neg hzero, if_pos (by rwa [hstate])]
      have hafter : b.after m.config (.recordIoProgress bytes) = b := if_pos (.inr (.inr hs))
      rw [hprogress, hafter]
      exact h

theorem call (h : Tracks k m b) (hside : k.side = .endpoint)
    (hroom : b.now + max k.ioTimeoutMs k.interactionBudgetMs ≤ u64Max) (c : IoCall) :
    Tracks k (m.call c.call).1 (b.after k c) := by
  cases c with
  | setIoState state => exact h.setIoState hside state hroom
  | recordIoProgress bytes => exact h.recordIoProgress hside bytes hroom
  | advance t => exact h.advance t

end Tracks

/-! ### Sequences of calls -/

def StreamMachine.ioRun (m : StreamMachine) (calls : List IoCall) : StreamMachine :=
  calls.foldl (fun m c => (m.call c.call).1) m

def Meter.run (k : Config) (calls : List IoCall) : Meter := calls.foldl (Meter.after k) .start

/-- The meter's clock stands at zero or at a time that was passed to `advance`. -/
theorem Meter.now_after (k : Config) (b : Meter) (c : IoCall) :
    (b.after k c).now = b.now ∨ c = .advance (b.after k c).now := by
  unfold Meter.after
  cases c with
  | setIoState state =>
    dsimp only
    split_ifs <;> exact .inl rfl
  | recordIoProgress bytes =>
    dsimp only
    split_ifs <;> exact .inl rfl
  | advance t =>
    dsimp only
    split_ifs
    · exact .inl rfl
    · exact .inr rfl
    · exact .inr rfl

theorem tracks_ioRun {k : Config} (hside : k.side = .endpoint) (hranged : k.ioTimeoutMs ≤ i32Max ∧
    k.interactionBudgetMs ≤ 86400000) (calls : List IoCall)
    (hroom : ∀ t, .advance t ∈ calls → t + max k.ioTimeoutMs k.interactionBudgetMs ≤ u64Max) :
    Tracks k ((StreamMachine.initial k).ioRun calls) (Meter.run k calls) ∧
      (Meter.run k calls).now + max k.ioTimeoutMs k.interactionBudgetMs ≤ u64Max := by
  induction calls using List.reverseRecOn with
  | nil =>
    refine ⟨.initial k, ?_⟩
    show 0 + max k.ioTimeoutMs k.interactionBudgetMs ≤ u64Max
    unfold i32Max at hranged
    unfold u64Max
    omega
  | append_singleton calls c ih =>
    obtain ⟨htracks, hnow⟩ := ih fun t ht => hroom t (List.mem_append_left _ ht)
    rw [StreamMachine.ioRun, Meter.run, List.foldl_append, List.foldl_append]
    refine ⟨htracks.call hside hnow c, ?_⟩
    rcases (Meter.run k calls).now_after k c with heq | hc
    · show ((Meter.run k calls).after k c).now + _ ≤ _
      rwa [heq]
    · exact hroom _ (List.mem_append_right _ (List.mem_singleton.2 hc.symm))

/-- Only progress takes anything off the meter. -/
theorem Meter.le_after (k : Config) (b : Meter) {c : IoCall}
    (hc : ∀ bytes, c = .recordIoProgress bytes → bytes = 0) :
    b.network ≤ (b.after k c).network ∧ b.interaction ≤ (b.after k c).interaction := by
  cases c with
  | setIoState state =>
    unfold Meter.after
    dsimp only
    split_ifs <;> exact ⟨le_rfl, le_rfl⟩
  | recordIoProgress bytes =>
    have hafter : b.after k (.recordIoProgress bytes) = b := if_pos (.inr (.inl (hc bytes rfl)))
    rw [hafter]
    exact ⟨le_rfl, le_rfl⟩
  | advance t =>
    unfold Meter.after
    dsimp only
    split_ifs
    · exact ⟨le_rfl, le_rfl⟩
    · exact ⟨le_rfl, le_rfl⟩
    · simp only [Meter.checked, Meter.pass]
      split_ifs <;> omega

/-- From a live state, the first used-up budget is what the meter stops at. -/
theorem Tracks.timedOut_after {k : Config} {m : StreamMachine} {b : Meter} (h : Tracks k m b)
    (halive : b.timedOut = false) (c : IoCall) :
    (b.after k c).timedOut = (b.after k c).exhausted k := by
  have hnone := (h.noticed halive).1
  unfold Meter.after
  cases c with
  | setIoState state =>
    dsimp only
    rw [if_neg (by simp [halive])]
    rfl
  | recordIoProgress bytes =>
    dsimp only
    split_ifs with hcond
    · rw [halive, hnone]
    · have hs : b.state = .network := by
        by_contra hs
        exact hcond (.inr (.inr hs))
      simp only [Meter.exhausted, hs, halive]
      refine (decide_eq_false_iff_not.2 ?_).symm
      omega
  | advance t =>
    dsimp only
    rw [if_neg (show ¬ b.timedOut = true by simp [halive])]
    split_ifs
    · rw [halive, hnone]
    · rfl

theorem Config.budgets_of_validate {k : Config} (h : k.validate = .ok ()) :
    k.ioTimeoutMs ≤ i32Max ∧ k.interactionBudgetMs ≤ 86400000 := by
  unfold validate at h
  split_ifs at h with hlimits hrange hprobe
  unfold outOfRange at hrange
  simp only [decide_eq_true_eq, not_or, not_lt] at hrange
  exact ⟨by omega, by omega⟩

/-- The budgets are exact.  After any calls that concern the clock, at times that leave room for a
budget:

* the clock reports what the time spent leaves of the two budgets;
* the stream has failed with `Timeout` if the budget of its state was used up, and not otherwise;
* from a live stream, a call makes it fail if and only if it leaves it in a state whose budget is
  used up, and no call but a positive progress makes more of a budget;
* with no network timeout a stream in `Network` has no deadline and no time makes it fail, and the
  remainder of a positive timeout is positive. -/
theorem io_budgets_exact {k : Config} {m₀ : StreamMachine} (h₀ : StreamMachine.new k = .ok m₀)
    (hside : k.side = .endpoint) (calls : List IoCall)
    (hroom : ∀ t, .advance t ∈ calls → t + max k.ioTimeoutMs k.interactionBudgetMs ≤ u64Max) :
    let m := m₀.ioRun calls
    let b := Meter.run k calls
    m.ioStatus.remainingNetworkMs = k.ioTimeoutMs - b.network ∧
    m.ioStatus.remainingInteractionMs = k.interactionBudgetMs - b.interaction ∧
    m.error = (if b.timedOut then some .timeout else none) ∧
    (∀ c : IoCall, m.error = none →
      ((m.call c.call).1.error = some .timeout ↔ (b.after k c).exhausted k = true)) ∧
    (∀ c : IoCall, (∀ bytes, c = .recordIoProgress bytes → bytes = 0) →
      (m.call c.call).1.ioStatus.remainingNetworkMs ≤ m.ioStatus.remainingNetworkMs ∧
      (m.call c.call).1.ioStatus.remainingInteractionMs ≤ m.ioStatus.remainingInteractionMs) ∧
    (m.error = none → m.ioStatus.state = .network →
      if k.ioTimeoutMs = 0 then m.ioStatus.activeDeadline = none ∧ ∀ t, (m.advance t).error = none
      else 0 < m.ioStatus.remainingNetworkMs) := by
  obtain ⟨hvalid, rfl⟩ := StreamMachine.new_eq_ok h₀
  obtain ⟨htracks, hnow⟩ := tracks_ioRun hside (k.budgets_of_validate hvalid) calls hroom
  dsimp only
  generalize (StreamMachine.initial k).ioRun calls = m at htracks ⊢
  generalize Meter.run k calls = b at htracks hnow ⊢
  have hstatus : ∀ {n : StreamMachine} {a : Meter}, Tracks k n a →
      n.ioStatus.remainingNetworkMs = k.ioTimeoutMs - a.network ∧
        n.ioStatus.remainingInteractionMs = k.interactionBudgetMs - a.interaction := by
    intro n a h
    rw [StreamMachine.ioStatus, h.now]
    exact h.io.status
  refine ⟨(hstatus htracks).1, (hstatus htracks).2, htracks.error, fun c hlive => ?_,
    fun c hc => ?_, fun hlive hstate => ?_⟩
  · have halive : b.timedOut = false := htracks.live_iff.1 ⟨hlive, htracks.completed⟩
    rw [(htracks.call hside hnow c).error, htracks.timedOut_after halive c]
    cases (b.after k c).exhausted k <;> simp
  · obtain ⟨hnetwork, hinteraction⟩ := b.le_after k hc
    have hbefore := hstatus htracks
    have hafter := hstatus (htracks.call hside hnow c)
    omega
  · have halive : b.timedOut = false := htracks.live_iff.1 ⟨hlive, htracks.completed⟩
    have hs : b.state = .network := by
      have hstate : m.io.state = .network := hstate
      rw [htracks.io.state, halive] at hstate
      exact hstate
    split_ifs with hzero
    · refine ⟨?_, fun t => ?_⟩
      · show m.io.deadline = none
        rw [htracks.io.deadline, halive]
        simp [Meter.deadline, hs, hzero]
      · have hkeeps : (b.after k (.advance t)).state = b.state := by
          unfold Meter.after
          dsimp only
          split_ifs <;> rfl
        rw [(htracks.advance t).error, htracks.timedOut_after halive (.advance t)]
        simp [Meter.exhausted, hkeeps, hs, hzero]
    · rw [(hstatus htracks).1]
      have := (htracks.noticed halive).2 (by omega)
      omega

/-- A stream that waits for the network, for a helper and for the network again. -/
theorem io_budgets_exact_paused :
    let calls : List IoCall := [.setIoState .network, .advance 1000, .setIoState .interaction,
      .advance 5000, .setIoState .network, .advance 6000]
    let m := (StreamMachine.initial (Config.small .endpoint)).ioRun calls
    m.ioStatus.remainingNetworkMs = 3000 - 2000 ∧
      m.ioStatus.remainingInteractionMs = 120000 - 4000 := by
  have h := io_budgets_exact (StreamMachine.new_of_validate (Config.small_validate .endpoint)) rfl
    [.setIoState .network, .advance 1000, .setIoState .interaction, .advance 5000,
      .setIoState .network, .advance 6000] fun t ht => by
        have ht : t = 1000 ∨ t = 5000 ∨ t = 6000 := by simpa using ht
        show t + 120000 ≤ 18446744073709551615
        omega
  exact ⟨h.1, h.2.1⟩

/-- At the end of the clock's range no budget is left: a stream that enters `Network` there fails
at once, with nothing spent of its 3000 ms. -/
theorem io_budget_clipped :
    let calls : List IoCall := [.advance u64Max, .setIoState .network]
    (Meter.run (Config.small .endpoint) calls).network = 0 ∧
      (Meter.run (Config.small .endpoint) calls).timedOut = false ∧
      ((StreamMachine.initial (Config.small .endpoint)).ioRun calls).error = some .timeout ∧
      ((StreamMachine.initial (Config.small .endpoint)).ioRun calls).ioStatus.remainingNetworkMs =
        0 := by
  decide +kernel

end GwzTransport.Stream
