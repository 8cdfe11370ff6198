import GwzTransport.Stream.Core

/-!
# What the revision of a stream machine tells

A task that waits on a machine tries its call again whenever the machine's `revision` has changed,
and only then (`stream/asynchronous.rs`).  So an operation that gives a waiting call its answer has
to leave a new revision.

`Still` is what an operation may do without one: move the clocks, and spend a flush serial on a
refused flush.  Nothing that a task waits for depends on these (`Still.blocked`), and every
operation of a machine leaves a new revision or keeps still (`moved_step`).

The same pass over the operations shows that they leave the deadlines of a live machine ahead of its
clock (`Punctual`).
-/

namespace GwzTransport.Stream

open Protocol MachineInt Checks

/-! ### What a task waits for -/

/-- The calls that a task repeats until the machine has an answer. -/
inductive Wait
  | read (n : ℕ)
  | write (input : List UInt8)
  | flush (ticket : FlushTicket)
  | endWrite
  | close
  | message
  deriving DecidableEq

/-- What a finished wait returns. -/
inductive Reply
  | bytes (bytes : List UInt8)
  | count (count : ℕ)
  | done
  | closed (result : CloseResult)
  | message (message : Option Envelope)
  deriving DecidableEq

/-! ### Deadlines -/

/-- A deadline lies ahead, or was clipped. -/
def Ahead (now : ℕ) (deadline : Option ℕ) : Prop := ∀ t, deadline = some t → now < t ∨ t = u64Max

theorem ahead_none (now : ℕ) : Ahead now none := fun _ h => absurd h (Option.some_ne_none _).symm

theorem ahead_satAdd (now : ℕ) {span : ℕ} (h : 0 < span) : Ahead now (some (satAdd now span)) := by
  intro t ht
  obtain rfl := Option.some.inj ht
  unfold satAdd
  omega

/-- The deadlines of a live machine. -/
structure Punctual (m : StreamMachine) : Prop where
  io : m.core.Live → Ahead m.now m.io.deadline
  close : m.core.Live → Ahead m.now m.closeDeadline

theorem Punctual.of_dead {m : StreamMachine} (h : ¬ m.core.Live) : Punctual m :=
  ⟨fun hl => absurd hl h, fun hl => absurd hl h⟩

theorem Punctual.touch {m : StreamMachine} (h : Punctual m) : Punctual m.touch := ⟨h.io, h.close⟩

/-- The clock and the deadlines are what they were. -/
structure Same (m n : StreamMachine) : Prop where
  live : n.core.Live → m.core.Live
  now : n.now = m.now
  io : n.io = m.io
  close : n.closeDeadline = m.closeDeadline

/-- A punctual machine stays punctual. -/
def Timely (m n : StreamMachine) : Prop := 0 < m.config.closeTimeoutMs → Punctual m → Punctual n

theorem Same.punctual {m n : StreamMachine} (h : Same m n) (hm : Punctual m) : Punctual n :=
  ⟨fun hl => by rw [h.now, h.io]; exact hm.io (h.live hl),
    fun hl => by rw [h.now, h.close]; exact hm.close (h.live hl)⟩

theorem Same.timely {m n : StreamMachine} (h : Same m n) : Timely m n := fun _ => h.punctual

theorem Same.trans {m n k : StreamMachine} (h : Same m n) (h' : Same n k) : Same m k :=
  ⟨fun hl => h.live (h'.live hl), h'.now.trans h.now, h'.io.trans h.io, h'.close.trans h.close⟩

namespace IoClock

theorem deadline_account (c : IoClock) (now : ℕ) : (c.account now).deadline = none := by
  unfold account
  split
  next h => exact h
  · split <;> rfl

theorem deadline_stop (c : IoClock) (now : ℕ) : (c.stop now).deadline = none :=
  c.deadline_account now

/-- Progress sets a new deadline, or does nothing. -/
theorem deadline_progress {c io : IoClock} {now bytes timeoutMs : ℕ}
    (h : c.progress now bytes timeoutMs = .ok io) :
    io.deadline = c.deadline ∨ Ahead now io.deadline := by
  unfold progress at h
  split_ifs at h with hzero hstate hpos
  · cases h
    exact .inl rfl
  · cases h
    exact .inr (ahead_satAdd now hpos)
  · cases h
    exact .inr (ahead_none now)

end IoClock

namespace StreamMachine

/-- The action that a waiting task polls. -/
def attempt (m : StreamMachine) : Wait → StreamMachine × Except Error Reply
  | .read n => ((m.read n).1, (m.read n).2.map .bytes)
  | .write input => ((m.write input).1, (m.write input).2.map .count)
  | .flush ticket =>
    (m, (m.flushComplete ticket).bind fun complete =>
      if complete then .ok .done else .error .wouldBlock)
  | .endWrite => (m, m.live.bind fun _ => if m.endSent then .ok .done else .error .wouldBlock)
  | .close => (m, m.closeResult.map .closed)
  | .message =>
    (m.nextMessage.1, match m.nextMessage.2 with
      | some message => .ok (.message (some message))
      | none =>
        if m.error.isSome || m.completed.isSome then .ok (.message none) else .error .wouldBlock)

/-- A call that has nothing to answer yet. -/
def Blocked (m : StreamMachine) : Wait → Prop
  | .read n => (m.read n).2 = .error .wouldBlock
  | .write input => (m.write input).2 = .error .wouldBlock
  | .flush ticket => m.flushComplete ticket = .ok false
  | .endWrite => m.live = .ok () ∧ m.endSent = false
  | .close => m.closeResult = .error .wouldBlock
  | .message => m.nextMessage.2 = none

theorem map_eq_error {α β : Type} {f : α → β} {r : Except Error α} {e : Error} :
    r.map f = .error e ↔ r = .error e := by
  cases r <;> simp [Except.map]

/-! ### Changes with a new revision -/

/-- A few touches: the revision is not the old one. -/
def Touched (m m' : StreamMachine) : Prop :=
  ∃ k, 0 < k ∧ k < 4 ∧ m'.revision = (m.revision + k) % (u64Max + 1)

theorem Touched.revision_ne {m m' : StreamMachine} (h : Touched m m') :
    m'.revision ≠ m.revision := by
  obtain ⟨k, hk, hk', heq⟩ := h
  rw [heq]
  simp only [u64Max]
  omega

/-- One touch of a state with the old revision. -/
theorem touched_touch {m n : StreamMachine} (h : n.revision = m.revision) : Touched m n.touch :=
  ⟨1, by omega, by omega, by simp only [touch, h]⟩

/-- A second touch. -/
theorem touched_touch_touch {m m' m'' : StreamMachine} (h : m'.revision = m.revision)
    (h' : m''.revision = m'.touch.revision) : Touched m m''.touch := by
  refine ⟨2, by omega, by omega, ?_⟩
  simp only [touch, h', h, u64Max]
  omega

/-! ### Changes without one -/

/-- The clocks and the flush serial moved, and no batch of a live machine fell due. -/
structure Still (m m' : StreamMachine) : Prop where
  eq : m' = { m with now := m'.now, io := m'.io, flushSerial := m'.flushSerial }
  due : (m.error.isSome || m.completed.isSome) = false →
    m.batchDeadline.any (· ≤ m'.now) = m.batchDeadline.any (· ≤ m.now)

theorem Still.refl (m : StreamMachine) : Still m m := ⟨rfl, fun _ => rfl⟩

theorem still_io (m : StreamMachine) (io : IoClock) : Still m { m with io := io } :=
  ⟨rfl, fun _ => rfl⟩

section

variable {m m' : StreamMachine}

theorem Still.eligible (h : Still m m') (hl : (m.error.isSome || m.completed.isSome) = false) :
    m'.eligible = m.eligible := by
  have hd := h.due hl
  rw [h.eq]
  simp only [StreamMachine.eligible, hd]

theorem Still.nextData (h : Still m m') (hl : (m.error.isSome || m.completed.isSome) = false) :
    m'.nextData.2.isSome = m.nextData.2.isSome := by
  have he := h.eligible hl
  rw [h.eq] at he ⊢
  simp only [StreamMachine.nextData, he, credit, apply_ite Prod.snd, apply_ite Option.isSome]
  rfl

theorem Still.nextControl (h : Still m m')
    (hl : (m.error.isSome || m.completed.isSome) = false) :
    m'.nextControl.2.isSome = m.nextControl.2.isSome := by
  have hd := h.nextData hl
  rw [h.eq] at hd ⊢
  simp only [StreamMachine.nextControl, apply_ite Prod.snd, apply_ite Option.isSome]
  revert hd
  cases m.closePending with
  | some closed => exact fun _ => rfl
  | none =>
    cases m.flush with
    | none =>
      intro hd
      simp only [hd]
      rfl
    | some flush =>
      intro hd
      simp only [apply_ite Prod.snd, apply_ite Option.isSome, hd]
      rfl

theorem Still.nextMessage (h : Still m m') :
    m'.nextMessage.2.isSome = m.nextMessage.2.isSome := by
  cases hl : m.error.isSome || m.completed.isSome with
  | true =>
    rw [h.eq]
    simp only [StreamMachine.nextMessage, hl, if_true]
    cases m.terminalMessage <;> rfl
  | false =>
    have hc := h.nextControl hl
    rw [h.eq] at hc ⊢
    simp only [StreamMachine.nextMessage, hl, Bool.false_eq_true, if_false]
    revert hc
    cases m.terminalMessage with
    | some message => exact fun _ => rfl
    | none =>
      cases m.peerFlush with
      | none => exact id
      | some barrier =>
        intro hc
        simp only [sinkOffset]
        split_ifs
        · rfl
        · exact hc
        · rfl
        · exact hc

theorem nudge_eq (m : StreamMachine) : ∃ force revision,
    m.nudge = { m with forceSend := force, revision := revision } := by
  unfold nudge
  split
  · exact ⟨_, _, rfl⟩
  · exact ⟨_, _, rfl⟩

/-- What makes a read wait. -/
theorem read_blocked_iff (m : StreamMachine) (n : ℕ) : (m.read n).2 = .error .wouldBlock ↔
    n ≠ 0 ∧ m.recv = [] ∧ (m.error = some .wouldBlock ∨ m.error = none ∧ m.discarding = false ∧
      m.completed = none ∧ m.endReceived = false) := by
  obtain ⟨force, revision, hnudge⟩ := m.nudge_eq
  by_cases hn : n = 0
  · simp [StreamMachine.read, hn]
  · simp only [StreamMachine.read, if_neg hn, hnudge, readSome]
    cases m.recv with
    | cons => simp
    | nil =>
      cases m.error with
      | some e => simp [hn]
      | none =>
        cases m.discarding <;> cases m.completed <;> cases m.endReceived <;> simp [hn]

/-- What makes a write wait. -/
theorem write_blocked_iff (m : StreamMachine) (input : List UInt8) :
    (m.write input).2 = .error .wouldBlock ↔ m.live = .error .wouldBlock ∨
      m.live = .ok () ∧ m.endRequested = false ∧ input ≠ [] ∧
        (m.flush.isSome ∨ m.config.sendBuffer ≤ m.send.length) := by
  unfold StreamMachine.write
  cases hl : m.live with
  | error e => simp
  | ok u =>
    cases m.endRequested with
    | true => simp
    | false =>
      cases input with
      | nil => simp
      | cons a input =>
        cases m.flush with
        | some flush => simp
        | none =>
          simp only [List.isEmpty_cons, Option.isSome_none, Bool.false_eq_true, if_false]
          split_ifs with hcount hover <;>
            simp only [List.length_cons, Nat.min_eq_zero_iff] at hcount <;> simp <;> omega

theorem Still.blocked (h : Still m m') (w : Wait) : m'.Blocked w ↔ m.Blocked w := by
  cases w with
  | read n =>
    simp only [Blocked, read_blocked_iff]
    rw [h.eq]
  | write input =>
    simp only [Blocked, write_blocked_iff]
    rw [h.eq]
    rfl
  | flush ticket =>
    simp only [Blocked, flushComplete]
    rw [h.eq]
  | endWrite =>
    simp only [Blocked]
    rw [h.eq]
    rfl
  | close =>
    simp only [Blocked, closeResult]
    rw [h.eq]
  | message =>
    simp only [Blocked]
    rw [← Option.not_isSome_iff_eq_none, ← Option.not_isSome_iff_eq_none, h.nextMessage]

/-! ### Every operation is one or the other -/

/-- What an operation does: a new revision, or nothing that a task waits for. -/
def Moved (m m' : StreamMachine) : Prop := Touched m m' ∨ Still m m'

theorem Moved.refl (m : StreamMachine) : Moved m m := .inr (.refl m)

variable (m)

theorem fail_eq_touch {m : StreamMachine} (hl : (m.error.isSome || m.completed.isSome) = false)
    (error : Error) (notify : Bool) :
    ∃ m' : StreamMachine, m.fail error notify = m'.touch ∧ m'.revision = m.revision := by
  unfold fail
  rw [hl, if_neg Bool.false_ne_true]
  cases notify <;> exact ⟨_, rfl, rfl⟩

theorem fail_touched {m m₀ : StreamMachine} (hl : (m.error.isSome || m.completed.isSome) = false)
    (hr : m.revision = m₀.revision) (error : Error) (notify : Bool) :
    Touched m₀ (m.fail error notify) := by
  obtain ⟨m', h, hr'⟩ := fail_eq_touch hl error notify
  rw [h]
  exact touched_touch (hr'.trans hr)

theorem not_over_of_live (h : m.live = .ok ()) :
    (m.error.isSome || m.completed.isSome) = false := by
  unfold live at h
  cases he : m.error <;> cases hc : m.completed <;> simp [he, hc] at h ⊢

variable {m}

/-- Time that used up no budget. -/
theorem punctual_of_not_expired (h : m.expired = false) : Punctual m := by
  unfold expired at h
  rw [Bool.or_eq_false_iff] at h
  refine ⟨fun _ t ht => .inl ?_, fun _ t ht => .inl ?_⟩
  · have hio := h.2
    rw [IoClock.due, ht] at hio
    simpa using hio
  · have hclose := h.1
    rw [ht] at hclose
    simpa using hclose

theorem not_live_fail (error : Error) (notify : Bool) : ¬ (m.fail error notify).core.Live := by
  by_cases hl : m.core.Live
  · cases notify with
    | true =>
      rw [core_fail_true hl]
      exact Core.not_live_failed _ error
    | false =>
      rw [core_fail_false hl]
      exact Core.not_live_failed _ error
  · rwa [fail_of_dead hl]

theorem punctual_fail (error : Error) (notify : Bool) : Punctual (m.fail error notify) :=
  .of_dead (not_live_fail error notify)

/-- A close begins with the I/O clock stopped. -/
theorem punctual_stopped {n : StreamMachine} {now span : ℕ} {c : IoClock} (hnow : n.now = now)
    (hio : n.io = c.stop now) (hpos : 0 < span)
    (hclose : n.closeDeadline = some (satAdd now span)) :
    Punctual n := by
  refine ⟨fun _ => ?_, fun _ => ?_⟩
  · rw [hio, IoClock.deadline_stop]
    exact ahead_none _
  · rw [hnow, hclose]
    exact ahead_satAdd now hpos

/-- An operation moves, and keeps the deadlines ahead. -/
structure Turn (m m' : StreamMachine) : Prop where
  moved : Moved m m'
  timely : Timely m m'

namespace Turn

variable {n k : StreamMachine}

theorem refl (m : StreamMachine) : Turn m m := ⟨.refl m, fun _ => id⟩

theorem touch (hr : n.revision = m.revision) (hs : Same m n) : Turn m n.touch :=
  ⟨.inl (touched_touch hr), fun _ hm => (hs.punctual hm).touch⟩

theorem touch_touch (hr : k.revision = m.revision) (hr' : n.revision = k.touch.revision)
    (hs : Same m n) : Turn m n.touch :=
  ⟨.inl (touched_touch_touch hr hr'), fun _ hm => (hs.punctual hm).touch⟩

theorem fail (hl : (n.error.isSome || n.completed.isSome) = false) (hr : n.revision = m.revision)
    (error : Error) (notify : Bool) : Turn m (n.fail error notify) :=
  ⟨.inl (fail_touched hl hr error notify), fun _ _ => punctual_fail error notify⟩

end Turn

variable (m)

theorem turn_write (input : List UInt8) : Turn m (m.write input).1 := by
  unfold StreamMachine.write
  cases hl : m.live with
  | error e => exact .refl m
  | ok u =>
    simp only
    split_ifs
    · exact .refl m
    · exact .refl m
    · exact .refl m
    · exact .refl m
    · exact .fail (m.not_over_of_live hl) rfl ..
    all_goals exact .touch rfl ⟨id, rfl, rfl, rfl⟩

theorem nudge_cases : m.nudge = m ∨
    ∃ m' : StreamMachine, m.nudge = m'.touch ∧ m'.revision = m.revision ∧ Same m m' := by
  unfold nudge
  split
  · exact .inr ⟨{ m with forceSend := true }, rfl, rfl, id, rfl, rfl, rfl⟩
  · exact .inl rfl

theorem readSome_cases (n : ℕ) : (m.readSome n).1 = m ∨
    ∃ m' : StreamMachine, (m.readSome n).1 = m'.touch ∧ m'.revision = m.revision ∧ Same m m' := by
  unfold readSome
  split_ifs
  · exact .inr ⟨_, rfl, rfl, id, rfl, rfl, rfl⟩
  all_goals
    left
    cases m.error <;> rfl

theorem turn_read (n : ℕ) : Turn m (m.read n).1 := by
  unfold StreamMachine.read
  split
  · exact .refl m
  rcases m.nudge_cases with hn | ⟨m₁, hn, h₁, hs₁⟩ <;> rw [hn]
  · rcases m.readSome_cases n with hr | ⟨m₂, hr, h₂, hs₂⟩ <;> rw [hr]
    · exact .refl m
    · exact .touch h₂ hs₂
  · rcases m₁.touch.readSome_cases n with hr | ⟨m₂, hr, h₂, hs₂⟩ <;> rw [hr]
    · exact .touch h₁ hs₁
    · exact .touch_touch h₁ h₂ (hs₁.trans ⟨hs₂.live, hs₂.now, hs₂.io, hs₂.close⟩)

theorem turn_startFlush : Turn m m.startFlush.1 := by
  unfold startFlush
  cases m.live with
  | error e => exact .refl m
  | ok u =>
    simp only
    split
    · exact .refl m
    split
    · exact .refl m
    split
    · exact .refl m
    split
    · -- a refused offset has already spent the serial
      exact ⟨.inr ⟨rfl, fun _ => rfl⟩, Same.timely ⟨id, rfl, rfl, rfl⟩⟩
    · exact .touch rfl ⟨id, rfl, rfl, rfl⟩

theorem endWrite_cases : m.endWrite.1 = m ∨
    ∃ m' : StreamMachine, m.endWrite.1 = m'.touch ∧ m'.revision = m.revision ∧ Same m m' := by
  unfold endWrite
  cases m.live with
  | error e => exact .inl rfl
  | ok u =>
    simp only
    split
    · exact .inl rfl
    · exact .inr ⟨{ m with endRequested := true, forceSend := true }, rfl, rfl, id, rfl, rfl, rfl⟩

theorem turn_endWrite : Turn m m.endWrite.1 := by
  rcases m.endWrite_cases with h | ⟨m', h, hr, hs⟩ <;> rw [h]
  · exact .refl m
  · exact .touch hr hs

theorem turn_startClose : Turn m m.startClose.1 := by
  unfold startClose
  split
  · exact .refl m
  cases hl : m.live with
  | error e => exact .refl m
  | ok u =>
    simp only
    split
    · exact .refl m
    split
    · exact .refl m
    have hlive : m.startDiscarding.live = .ok () := hl
    have hok : m.startDiscarding.endWrite.2 = .ok () := by
      unfold endWrite
      rw [hlive]
      simp only
      split <;> rfl
    have hstart : 0 < m.config.closeTimeoutMs → Punctual m.startDiscarding :=
      fun hpos => punctual_stopped (c := m.io) rfl rfl hpos rfl
    rw [show m.startDiscarding.endWrite = (m.startDiscarding.endWrite.1, .ok ()) from
      Prod.ext rfl hok]
    rcases m.startDiscarding.endWrite_cases with h | ⟨m', h, hr, hs⟩ <;> rw [h]
    · exact ⟨.inl (touched_touch rfl), fun hpos _ => (hstart hpos).touch⟩
    · exact ⟨.inl (touched_touch_touch hr rfl),
        fun hpos _ => (hs.punctual (hstart hpos)).touch.touch⟩

theorem turn_completeClose (disposition : Disposition) (facts : Facts) (failure : Option Failure) :
    Turn m (m.completeCloseWithFailure disposition facts failure).1 := by
  unfold completeCloseWithFailure
  cases m.live with
  | error e => exact .refl m
  | ok u =>
    simp only
    split_ifs
    · exact .refl m
    · exact .refl m
    · exact .refl m
    · cases Codec.admitLimited (m.closedMessage _) m.config.peerLimits with
      | error e => exact .refl m
      | ok u => exact .touch rfl ⟨id, rfl, rfl, rfl⟩

theorem turn_failTerminal (failure : Failure) : Turn m (m.failTerminal failure).1 := by
  unfold failTerminal
  cases hl : m.live with
  | error e => exact .refl m
  | ok u =>
    simp only
    split_ifs
    · exact .refl m
    · cases Codec.admitLimited _ m.config.peerLimits with
      | error e => exact .refl m
      | ok u =>
        refine ⟨.inl ?_, fun _ _ => .of_dead (not_live_fail _ _)⟩
        exact fail_touched (m := { m with failureFacts := failure.facts })
          (m.not_over_of_live hl) rfl ..

theorem moved_disconnect : Moved m m.disconnect := by
  unfold disconnect
  cases hl : m.error.isSome || m.completed.isSome with
  | true =>
    rw [fail_of_dead (not_live_of_over _ hl)]
    exact .inl (touched_touch rfl)
  | false =>
    obtain ⟨m', h, hr⟩ := fail_eq_touch hl .carrierLost false
    rw [h]
    exact .inl (touched_touch_touch hr rfl)

theorem turn_cancel : Turn m m.cancel := by
  unfold cancel
  cases hl : m.error.isSome || m.completed.isSome with
  | true =>
    rw [fail_of_dead (not_live_of_over _ hl)]
    exact .refl m
  | false => exact .fail hl rfl ..

/-- Nothing was due, or the machine has failed. -/
theorem expireIoIfDue_cases (hl : (m.error.isSome || m.completed.isSome) = false) :
    m.expireIoIfDue = (m, .ok ()) ∨
      ∃ m', m.expireIoIfDue = (m', .error .timeout) ∧ Turn m m' := by
  unfold expireIoIfDue
  split
  · exact .inr ⟨_, rfl, .fail hl rfl ..⟩
  · exact .inl rfl

theorem turn_setIoState (state : IoState) : Turn m (m.setIoState state).1 := by
  unfold setIoState
  split
  · exact .refl m
  cases hl : m.live with
  | error e => exact .refl m
  | ok u =>
    simp only
    split
    · exact .refl m
    rcases m.expireIoIfDue_cases (m.not_over_of_live hl) with h | ⟨m', h, ht⟩ <;> rw [h]
    · simp only
      split
      next hsame => exact ⟨.inr (m.still_io _), Same.timely ⟨id, rfl, if_pos hsame, rfl⟩⟩
      split
      · exact .fail (m := m) (n := { m with io := m.io.setState m.now state })
          (m.not_over_of_live hl) rfl ..
      next hdue =>
        -- the new state has a budget left
        refine ⟨.inr (m.still_io _), fun _ hm => ⟨fun _ t ht => .inl ?_, hm.close⟩⟩
        have hlate : (m.io.setState m.now state).deadline = some t := ht
        simpa [IoClock.due, hlate] using hdue
    · exact ht

theorem turn_recordIoProgress (bytes : ℕ) : Turn m (m.recordIoProgress bytes).1 := by
  unfold recordIoProgress
  split
  · exact .refl m
  cases hl : m.live with
  | error e => exact .refl m
  | ok u =>
    simp only
    split
    · exact .refl m
    rcases m.expireIoIfDue_cases (m.not_over_of_live hl) with h | ⟨m', h, ht⟩ <;> rw [h]
    · simp only
      split
      · exact .refl m
      next io hio =>
        refine ⟨.inr (m.still_io _), fun _ hm => ⟨fun hlive => ?_, hm.close⟩⟩
        rcases IoClock.deadline_progress hio with hsame | hnew
        · show Ahead m.now io.deadline
          rw [hsame]
          exact hm.io hlive
        · exact hnew
    · exact ht

theorem turn_advance (nowMs : ℕ) : Turn m (m.advance nowMs) := by
  unfold advance
  split
  · exact .refl m
  next hnow =>
    cases hl : m.error.isSome || m.completed.isSome with
    | true =>
      exact ⟨.inr ⟨by simp [hl], fun h => absurd (hl.symm.trans h) (by decide)⟩,
        fun _ _ => .of_dead (by simp only [hl, if_true]; exact not_live_of_over _ hl)⟩
    | false =>
      simp only [hl, Bool.false_eq_true, if_false]
      split
      · exact .fail (m := m) (n := { m with now := nowMs }) hl rfl ..
      next hnot =>
      have hpunctual : Punctual { m with now := nowMs } :=
        punctual_of_not_expired (Bool.eq_false_of_not_eq_true hnot)
      split
      · exact ⟨.inl (touched_touch (n := { m with now := nowMs }) rfl),
          fun _ _ => hpunctual.touch⟩
      next hdue =>
        -- a deadline that has come stays due, and no new one was reached
        refine ⟨.inr ⟨rfl, fun _ => ?_⟩, fun _ _ => hpunctual⟩
        show m.batchDeadline.any (· ≤ nowMs) = m.batchDeadline.any (· ≤ m.now)
        cases hb : m.batchDeadline with
        | none => rfl
        | some t =>
          simp [hb] at hdue ⊢
          omega

theorem turn_call (c : Call) : Turn m (m.call c).1 := by
  cases c with
  | write input => exact m.turn_write input
  | read n => exact m.turn_read n
  | startFlush => exact m.turn_startFlush
  | endWrite => exact m.turn_endWrite
  | startClose => exact m.turn_startClose
  | completeClose disposition facts => exact m.turn_completeClose disposition facts none
  | completeCloseFailure disposition facts code effect => exact m.turn_completeClose ..
  | failTerminal failure => exact m.turn_failTerminal failure
  | cancel => exact m.turn_cancel
  | disconnect => exact ⟨m.moved_disconnect, fun _ _ => .of_dead (not_live_fail _ _)⟩
  | setIoState state => exact m.turn_setIoState state
  | recordIoProgress bytes => exact m.turn_recordIoProgress bytes
  | advance nowMs => exact m.turn_advance nowMs

/-- At most one touch. -/
def Near (m m' : StreamMachine) : Prop :=
  m'.revision = m.revision ∨ m'.revision = m.touch.revision

variable {m}

theorem Near.touched (h : Near m m') : Touched m m'.touch := by
  rcases h with h | h
  · exact touched_touch h
  · exact touched_touch_touch rfl h

theorem near_fail {n : StreamMachine} (hr : n.revision = m.revision) (error : Error)
    (notify : Bool) : Near m (n.fail error notify) := by
  cases hl : n.error.isSome || n.completed.isSome with
  | true =>
    rw [fail_of_dead (not_live_of_over _ hl)]
    exact .inl hr
  | false =>
    obtain ⟨m', h, hr'⟩ := fail_eq_touch hl error notify
    rw [h]
    exact .inr (by simp only [StreamMachine.touch, hr', hr])

theorem near_same (hr : m'.revision = m.revision) (hs : Same m m') : Near m m' ∧ Timely m m' :=
  ⟨.inl hr, hs.timely⟩

theorem near_acceptData {data : Data} (h : m.acceptData data = .ok m') :
    Near m m' ∧ Timely m m' := by
  unfold acceptData at h
  split at h
  · cases h
  split_ifs at h
  · cases h
    exact near_same rfl ⟨id, rfl, rfl, rfl⟩
  · cases h
    exact near_same rfl ⟨id, rfl, rfl, rfl⟩

theorem near_acceptFlush {barrier : Barrier} (h : m.acceptFlush barrier = .ok m') :
    Near m m' ∧ Timely m m' := by
  unfold acceptFlush at h
  split at h
  · cases h
  · cases h
    exact near_same rfl ⟨id, rfl, rfl, rfl⟩

theorem near_acceptFlushed {barrier : Barrier} (h : m.acceptFlushed barrier = .ok m') :
    Near m m' ∧ Timely m m' := by
  unfold acceptFlushed at h
  split at h
  · cases h
  split at h
  · cases h
  · cases h
    exact near_same rfl ⟨id, rfl, rfl, rfl⟩

theorem near_acceptClose {close : Option Close} (h : m.acceptClose close = .ok m') :
    Near m m' ∧ Timely m m' := by
  unfold acceptClose at h
  split at h
  · cases h
  split at h
  · cases h
  split_ifs at h
  · cases h
    exact near_same rfl ⟨id, rfl, rfl, rfl⟩
  · cases h
    exact ⟨.inl rfl, fun hpos _ => punctual_stopped (c := m.io) rfl rfl hpos rfl⟩

theorem near_acceptClosed {closed : Option Closed} (h : m.acceptClosed closed = .ok m') :
    Near m m' ∧ Timely m m' := by
  unfold acceptClosed at h
  split at h
  · cases h
  split at h
  · cases h
  split at h
  next =>
    cases h
    refine ⟨?_, fun _ _ => .of_dead (not_live_fail _ _)⟩
    exact near_fail (n := { m with failureFacts := some _ }) rfl _ _
  · cases h
    exact ⟨.inl rfl, fun _ _ => .of_dead fun hl => nomatch hl.2⟩

/-- A step with a body that comes near ends in a touch. -/
theorem turn_of_near {n : StreamMachine} (h : Near m n ∧ Timely m n) : Turn m n.touch :=
  ⟨.inl h.1.touched, fun hpos hm => (h.2 hpos hm).touch⟩

theorem turn_of_map {r : Except Error StreamMachine}
    (hr : ∀ m₁, r = .ok m₁ → Near m m₁ ∧ Timely m m₁) (h : r.map touch = .ok m') : Turn m m' := by
  cases r with
  | error e => cases h
  | ok m₁ =>
    cases h
    exact turn_of_near (hr m₁ rfl)

theorem turn_of_required {α : Type} {body : Option α} {f : α → Except Error StreamMachine}
    (hf : ∀ a, f a = .ok m' → Turn m m') (h : (required .protocol body).bind f = .ok m') :
    Turn m m' := by
  cases body with
  | none => cases h
  | some a => exact hf a h

/-- A message that is accepted leaves a new revision, but for a window that grants nothing. -/
theorem turn_acceptBody {message : Envelope} (h : m.acceptBody message = .ok m') : Turn m m' := by
  unfold acceptBody at h
  cases hk : message.kind <;> rw [hk] at h
  case data => exact turn_of_required (fun _ => turn_of_map fun _ => near_acceptData) h
  case window =>
    refine turn_of_required (fun window h => ?_) h
    split_ifs at h
    · cases h
      exact .refl m
    · cases h
      exact .touch rfl ⟨id, rfl, rfl, rfl⟩
  case flush => exact turn_of_required (fun _ => turn_of_map fun _ => near_acceptFlush) h
  case flushed => exact turn_of_required (fun _ => turn_of_map fun _ => near_acceptFlushed) h
  case endWrite =>
    refine turn_of_required (fun ending h => ?_) h
    split_ifs at h
    cases h
    exact .touch rfl ⟨id, rfl, rfl, rfl⟩
  case close => exact turn_of_map (fun _ => near_acceptClose) h
  case closed => exact turn_of_map (fun _ => near_acceptClosed) h
  case cancel =>
    refine turn_of_required (fun cancel h => ?_) h
    cases h
    exact turn_of_near ⟨near_fail rfl _ _, fun _ _ => punctual_fail _ _⟩
  case failed =>
    refine turn_of_required (fun failure h => ?_) h
    cases h
    refine turn_of_near ⟨?_, fun _ _ => .of_dead (not_live_fail _ _)⟩
    exact near_fail (n := { m with failureFacts := failure.facts }) rfl _ _
  all_goals cases h

theorem turn_accept {message : Envelope} (h : m.accept message = .ok m') : Turn m m' := by
  unfold accept at h
  split at h
  · cases h
  split at h
  · cases h
  · exact turn_acceptBody h

variable (m)

theorem turn_receive (message : Envelope) : Turn m (m.receive message).1 := by
  unfold receive
  cases hl : m.error.isSome || m.completed.isSome with
  | true => exact .refl m
  | false =>
    simp only [Bool.false_eq_true, if_false]
    rcases m.expireIoIfDue_cases hl with h | ⟨m', h, ht⟩ <;> rw [h]
    · simp only
      split
      next m' ha => exact turn_accept ha
      · exact .fail hl rfl ..
    · exact ht

theorem turn_nextData : Turn m m.nextData.1 := by
  unfold StreamMachine.nextData
  split
  · unfold sendData
    simp only
    split
    · exact .touch rfl ⟨id, rfl, rfl, rfl⟩
    · exact .touch rfl ⟨id, rfl, rfl, rfl⟩
  split
  · exact .touch rfl ⟨id, rfl, rfl, rfl⟩
  split
  · exact .touch rfl ⟨id, rfl, rfl, rfl⟩
  · exact .refl m

theorem turn_nextControl : Turn m m.nextControl.1 := by
  unfold StreamMachine.nextControl
  simp only
  split
  · exact .touch rfl ⟨id, rfl, rfl, rfl⟩
  split
  · exact ⟨.inl (touched_touch rfl), fun _ _ => .of_dead fun hl => nomatch hl.2⟩
  split
  · exact m.turn_nextData
  split
  · exact .touch rfl ⟨id, rfl, rfl, rfl⟩
  · exact m.turn_nextData

theorem turn_nextMessage : Turn m m.nextMessage.1 := by
  unfold StreamMachine.nextMessage
  split
  · exact .touch rfl ⟨id, rfl, rfl, rfl⟩
  split
  · exact .refl m
  split
  · exact m.turn_nextControl
  split
  · exact .touch rfl ⟨id, rfl, rfl, rfl⟩
  · exact m.turn_nextControl

theorem turn_step (op : Op) : Turn m (m.step op).1 := by
  cases op with
  | call c => exact m.turn_call c
  | receive message => exact m.turn_receive message
  | nextMessage => exact m.turn_nextMessage

theorem moved_step (op : Op) : Moved m (m.step op).1 := (m.turn_step op).moved

variable {m}

/-- What was waited for comes with a new revision. -/
theorem Moved.revision_ne {w : Wait} (h : Moved m m') (hb : m.Blocked w) (hn : ¬ m'.Blocked w) :
    m'.revision ≠ m.revision := by
  rcases h with h | h
  · exact h.revision_ne
  · exact absurd ((h.blocked w).2 hb) hn

/-- A task whose poll has to wait. -/
def Asleep (m : StreamMachine) (w : Wait) : Prop := (m.attempt w).2 = .error .wouldBlock

theorem asleep_message_iff :
    m.Asleep .message ↔ m.Blocked .message ∧ (m.error.isSome || m.completed.isSome) = false := by
  simp only [Asleep, attempt, Blocked]
  cases m.nextMessage.2 with
  | some message => simp
  | none => cases m.error.isSome || m.completed.isSome <;> simp

theorem Still.asleep (h : Still m m') (w : Wait) : m'.Asleep w ↔ m.Asleep w := by
  cases w with
  | read n =>
    have hb := h.blocked (.read n)
    simp only [Blocked] at hb
    simp only [Asleep, attempt, map_eq_error, hb]
  | write input =>
    have hb := h.blocked (.write input)
    simp only [Blocked] at hb
    simp only [Asleep, attempt, map_eq_error, hb]
  | flush ticket =>
    simp only [Asleep, attempt, flushComplete]
    rw [h.eq]
  | endWrite =>
    simp only [Asleep, attempt]
    rw [h.eq]
    rfl
  | close =>
    simp only [Asleep, attempt, closeResult]
    rw [h.eq]
  | message =>
    rw [asleep_message_iff, asleep_message_iff, h.blocked]
    rw [h.eq]

theorem moved_attempt (w : Wait) : Moved m (m.attempt w).1 := by
  cases w with
  | read n => exact (m.turn_read n).moved
  | write input => exact (m.turn_write input).moved
  | flush ticket => exact .refl m
  | endWrite => exact .refl m
  | close => exact .refl m
  | message => exact m.turn_nextMessage.moved

/-- A write that has to wait changes nothing. -/
theorem write_of_blocked {input : List UInt8} (h : (m.write input).2 = .error .wouldBlock) :
    (m.write input).1 = m := by
  unfold StreamMachine.write at h ⊢
  cases hl : m.live with
  | error e => rfl
  | ok u =>
    simp only [hl] at h ⊢
    split_ifs at h ⊢ <;> first | rfl | cases h

/-- A machine with no message stays as it was. -/
theorem nextMessage_of_none (h : m.nextMessage.2 = none) : m.nextMessage.1 = m := by
  have hdata : m.nextData.2 = none → m.nextData.1 = m := by
    unfold StreamMachine.nextData
    split_ifs <;> intro h <;> first | rfl | cases h
  have hcontrol : m.nextControl.2 = none → m.nextControl.1 = m := by
    unfold StreamMachine.nextControl
    simp only
    split
    · intro h
      cases h
    split
    · intro h
      cases h
    split
    · exact hdata
    split
    · intro h
      cases h
    · exact hdata
  revert h
  unfold StreamMachine.nextMessage
  split
  · intro h
    cases h
  split
  · exact fun _ => rfl
  split
  · exact hcontrol
  split
  · intro h
    cases h
  · exact hcontrol

/-- A poll that has to wait would still have to wait after it. -/
theorem Asleep.attempt {w : Wait} (h : m.Asleep w) : (m.attempt w).1.Asleep w := by
  cases w with
  | read n =>
    simp only [Asleep, StreamMachine.attempt, map_eq_error] at h ⊢
    have hn := (m.read_blocked_iff n).1 h
    obtain ⟨force, revision, hnudge⟩ := m.nudge_eq
    have hread : (m.read n).1 = m.nudge := by
      unfold StreamMachine.read
      rw [if_neg hn.1, hnudge]
      simp only [readSome, hn.2.1, List.isEmpty_nil, Bool.not_true, Bool.false_eq_true, if_false]
      split
      · rfl
      split_ifs <;> rfl
    rw [hread, read_blocked_iff, hnudge]
    exact hn
  | write input =>
    simp only [Asleep, StreamMachine.attempt, map_eq_error] at h ⊢
    rwa [write_of_blocked h]
  | flush ticket => exact h
  | endWrite => exact h
  | close => exact h
  | message =>
    have hn := (asleep_message_iff.1 h).1
    simp only [StreamMachine.attempt, nextMessage_of_none hn]
    exact h

end

end StreamMachine

end GwzTransport.Stream
