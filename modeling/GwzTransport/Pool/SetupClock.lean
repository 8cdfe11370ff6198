import GwzTransport.Pool.Types

/-!
# The shared setup clock of one connection

`pool/setup_clock.rs` with its `state.rs` and `transitions.rs`.  The pool and the adapter that
connects share the clock; each operation reads the time source once, settles what has expired and
then acts.  The source is a function the host supplies: here it is the sequence of its readings,
and `reads` counts how many were taken.  Wakers carry no information for the pool and are left
out.

`none` stands for the panic of a subtraction below zero in `Timer::pause`.
-/

namespace GwzTransport.Pool

open Protocol MachineInt

/-- What a setup does without the network. -/
inductive LocalPhase
  | admission | interaction | wait
  deriving DecidableEq

/-- Why an operation is refused. -/
inductive PublicationError
  | activeTerminal (record : SetupTerminal)
  | preparationExpired (record : SetupTerminal)
  | invalidToken | wrongState | overflow
  deriving DecidableEq

/-- What an observer sees. -/
inductive Observation
  | alive (phase : PhaseId) (phaseKind : Option LocalPhase) (deadline : Option ℕ)
      (acknowledged : Bool)
  | terminal (record : SetupTerminal)
  deriving DecidableEq

/-- A time that can be paused. -/
inductive Timer
  | disabled
  | inactive
  /-- Until the time, or with the time left while paused. -/
  | live (value : ℕ)
  deriving DecidableEq

namespace Timer

/-- The time of a timer that runs. -/
def deadline : Timer → Option ℕ
  | .live value => some value
  | _ => none

/-- The timer with the time it has left, unless that has passed. -/
def pause (now : ℕ) : Timer → Option Timer
  | .live deadline => if now ≤ deadline then some (.live (deadline - now)) else none
  | t => some t

/-- The timer runs on with the time it had left. -/
def resume (now : ℕ) : Timer → Except PublicationError Timer
  | .live remaining =>
    if now + remaining ≤ u64Max then .ok (.live (now + remaining)) else .error .overflow
  | t => .ok t

end Timer

/-- A phase that is prepared, or published and not acknowledged. -/
inductive Slot
  | prepared (phase : PhaseId) (kind : LocalPhase) (deadline : ℕ) (expired : Bool)
  | pending (phase : PhaseId)
  deriving DecidableEq

/-- The phase is prepared under the name. -/
def Slot.isPrepared (id : PhaseId) : Slot → Bool
  | .prepared phase _ _ _ => phase == id
  | .pending _ => false

/-- What acknowledges a published phase. -/
structure SetupReceipt where
  connection : ConnectionId
  phase : PhaseId
  deriving DecidableEq

/-- The clock of one setup. -/
structure SetupClock where
  connection : ConnectionId
  now : ℕ
  serial : ℕ
  phase : PhaseId
  phaseKind : Option LocalPhase
  localUntil : Option ℕ
  aggregate : Timer
  stall : Timer
  stallMs : ℕ
  slot : Option Slot
  acknowledged : Bool
  terminal : Option SetupTerminal
  source : ℕ → ℕ
  reads : ℕ

namespace SetupClock

/-- A clock in its network phase. -/
def new (connection : ConnectionId) (source : ℕ → ℕ) (networkUntil : Option ℕ) (stallMs : ℕ) :
    SetupClock where
  connection := connection
  now := 0
  serial := 0
  phase := ⟨0⟩
  phaseKind := none
  localUntil := none
  aggregate := networkUntil.elim .disabled .live
  stall := if stallMs = 0 then .disabled else .inactive
  stallMs := stallMs
  slot := none
  acknowledged := true
  terminal := none
  source := source
  reads := 0

/-- The next phase number. -/
def issue (s : SetupClock) : Except PublicationError (SetupClock × PhaseId) :=
  if s.serial < u64Max then .ok ({ s with serial := s.serial + 1 }, ⟨s.serial + 1⟩)
  else .error .overflow

/-- A clock that has ended refuses. -/
def alive (s : SetupClock) : Except PublicationError Unit :=
  match s.terminal with
  | none => .ok ()
  | some record => .error (.activeTerminal record)

/-- The earlier of two deadlines. -/
def earlier : Option ℕ → Option ℕ → Option ℕ
  | some a, some b => some (min a b)
  | some a, none => some a
  | none, b => b

/-- The end of a local phase, or the earlier timer's. -/
def deadline (s : SetupClock) : Option ℕ :=
  if s.phaseKind.isSome then s.localUntil
  else earlier s.aggregate.deadline s.stall.deadline

/-- The deadline; now, for a clock that has ended. -/
def cachedDeadline (s : SetupClock) : Option ℕ :=
  if s.terminal.isSome then some s.now else s.deadline

/-- What the state shows. -/
def observation (s : SetupClock) : Observation :=
  match s.terminal with
  | some record => .terminal record
  | none => .alive s.phase s.phaseKind s.deadline s.acknowledged

/-- The first terminal record stays; `finish` answers with the one that stands. -/
def finish (s : SetupClock) (cause : SetupCause) (phase : PhaseId) : SetupClock × SetupTerminal :=
  match s.terminal with
  | some record => (s, record)
  | none =>
    let record : SetupTerminal := ⟨s.connection, phase, cause⟩
    ({ s with terminal := some record, slot := none }, record)

/-- The cause of what has expired, if anything has. -/
def expiry (s : SetupClock) : Option SetupCause :=
  match s.phaseKind with
  | some kind =>
    (s.localUntil.filter fun time => decide (time ≤ s.now)).map fun _ =>
      if kind = .wait then .localWaitExpired else .localDeadline
  | none =>
    let aggregate := s.aggregate.deadline.filter fun time => decide (time ≤ s.now)
    let stall := s.stall.deadline.filter fun time => decide (time ≤ s.now)
    match aggregate, stall with
    | some a, some t => if t < a then some .networkStall else some .networkAggregate
    | some _, none => some .networkAggregate
    | none, some _ => some .networkStall
    | none, none => none

/-- What has expired ends the clock, or marks the prepared phase. -/
def settle (s : SetupClock) : SetupClock :=
  if s.terminal.isSome then s
  else
    let s := match s.expiry with
      | some cause => (s.finish cause s.phase).1
      | none => s
    match s.slot with
    | some (.prepared phase kind time expired) =>
      { s with slot := some (.prepared phase kind time (expired || decide (time ≤ s.now))) }
    | _ => s

/-- What every operation starts with: a reading, which never goes back, and what it expires. -/
def change (s : SetupClock) : SetupClock :=
  settle { s with now := max (s.source s.reads) s.now, reads := s.reads + 1 }

/-- A reading of the time, and what it shows. -/
def observe (s : SetupClock) : SetupClock × Observation := (s.change, s.change.observation)

/-- The clock ends, if it has not. -/
def terminate (s : SetupClock) (cause : SetupCause) : SetupClock × SetupTerminal :=
  s.change.finish cause s.change.phase

/-- The clock ends, or answers with the end it had. -/
def terminateIfAlive (s : SetupClock) (cause : SetupCause) :
    SetupClock × Except SetupTerminal SetupTerminal :=
  match s.change.terminal with
  | some record => (s.change, .error record)
  | none =>
    let r := s.change.finish cause s.change.phase
    (r.1, .ok r.2)

/-- A published phase is acknowledged. -/
def acknowledge (s : SetupClock) (receipt : SetupReceipt) :
    SetupClock × Except PublicationError Unit :=
  let s := s.change
  match s.alive with
  | .error e => (s, .error e)
  | .ok () =>
    if receipt.connection ≠ s.connection ∨ s.slot ≠ some (.pending receipt.phase) then
      (s, .error .invalidToken)
    else ({ s with slot := none, acknowledged := true }, .ok ())

/-- The setup is complete, which is an end too. -/
def admitCompleted (s : SetupClock) : SetupClock × Except PublicationError SetupTerminal :=
  let s := s.change
  match s.alive with
  | .error e => (s, .error e)
  | .ok () =>
    if s.phaseKind.isSome || !s.acknowledged || s.slot.isSome then (s, .error .wrongState)
    else
      let r := s.finish .completed s.phase
      (r.1, .ok r.2)

/-! ### Phases -/

/-- A local phase gets a number, to be published. -/
def prepareLocal (s : SetupClock) (kind : LocalPhase) (time : ℕ) :
    SetupClock × Except PublicationError PhaseId :=
  let s := s.change
  match s.alive with
  | .error e => (s, .error e)
  | .ok () =>
    if s.slot.isSome then (s, .error .wrongState)
    else match s.issue with
    | .error e => (s, .error e)
    | .ok (s, phase) =>
      ({ s with slot := some (.prepared phase kind time (decide (time ≤ s.now))) }, .ok phase)

/-- A prepared phase that is dropped unpublished frees its slot. -/
def dropPrepared (s : SetupClock) (phase : PhaseId) : SetupClock :=
  let s := s.change
  if s.slot.any (Slot.isPrepared phase) then { s with slot := none } else s

/-- Both timers stop with what they have left. -/
def pause (s : SetupClock) : Option SetupClock := do
  let aggregate ← s.aggregate.pause s.now
  let stall ← s.stall.pause s.now
  return { s with aggregate, stall }

/-- Both timers run again from what they had left. -/
def resume (s : SetupClock) : Except PublicationError SetupClock := do
  let aggregate ← s.aggregate.resume s.now
  let stall ← s.stall.resume s.now
  return { s with aggregate, stall }

/-- `publish_local` with the token of this clock's phase `prepared`; a token that was not
consumed is dropped. -/
def publishLocal (s : SetupClock) (prepared : PhaseId) :
    Option (SetupClock × Except PublicationError SetupReceipt) :=
  let s := s.change
  match s.alive with
  | .error e => some (s.dropPrepared prepared, .error e)
  | .ok () =>
    match s.slot with
    | some (.prepared phase kind time expired) =>
      if phase ≠ prepared then some (s.dropPrepared prepared, .error .invalidToken)
      else if expired || decide (time ≤ s.now) then
        let r := s.finish .preparationDeadline phase
        some (r.1, .error (.preparationExpired r.2))
      else do
        let s ← if s.phaseKind.isNone then s.pause else some s
        return ({ s with
          phaseKind := some kind, localUntil := some time, phase := phase
          slot := some (.pending phase), acknowledged := false }, .ok ⟨s.connection, phase⟩)
    | _ => some (s.dropPrepared prepared, .error .invalidToken)

/-- The network phase begins again. -/
def publishNetwork (s : SetupClock) : SetupClock × Except PublicationError SetupReceipt :=
  let s := s.change
  match s.alive with
  | .error e => (s, .error e)
  | .ok () =>
    if s.slot.isSome || s.phaseKind.isNone then (s, .error .wrongState)
    else match s.issue with
    | .error e => (s, .error e)
    | .ok (s, phase) =>
      match s.resume with
      | .error e => (s, .error e)
      | .ok s =>
        ({ s with
          phaseKind := none, localUntil := none, phase := phase
          slot := some (.pending phase), acknowledged := false }, .ok ⟨s.connection, phase⟩)

/-- The stall timer starts anew. -/
def startStall (s : SetupClock) : SetupClock × Except PublicationError Unit :=
  if s.now + s.stallMs ≤ u64Max then ({ s with stall := .live (s.now + s.stallMs) }, .ok ())
  else (s, .error .overflow)

/-- The peer is waited for. -/
def beginNetworkWait (s : SetupClock) : SetupClock × Except PublicationError Unit :=
  let s := s.change
  match s.alive with
  | .error e => (s, .error e)
  | .ok () =>
    if s.phaseKind.isSome then (s, .error .wrongState)
    else if s.stall = .inactive then s.startStall else (s, .ok ())

/-- The peer made progress. -/
def networkProgress (s : SetupClock) : SetupClock × Except PublicationError Unit :=
  let s := s.change
  match s.alive with
  | .error e => (s, .error e)
  | .ok () =>
    if s.phaseKind.isSome then (s, .error .wrongState)
    else if s.stallMs ≠ 0 then s.startStall else (s, .ok ())

/-- A wait without the network begins. -/
def beginLocalWait (s : SetupClock) (milliseconds : ℕ) :
    Option (SetupClock × Except PublicationError Unit) :=
  let s := s.change
  match s.alive with
  | .error e => some (s, .error e)
  | .ok () =>
    if s.phaseKind = some .wait then some (s, .ok ())
    else if s.phaseKind.isSome || s.slot.isSome then some (s, .error .wrongState)
    else if s.now + milliseconds ≤ u64Max then do
      let time := s.now + milliseconds
      let s ← s.pause
      return ({ s with phaseKind := some .wait, localUntil := some time }, .ok ())
    else some (s, .error .overflow)

/-- The wait ends. -/
def endLocalWait (s : SetupClock) : SetupClock × Except PublicationError Unit :=
  let s := s.change
  match s.alive with
  | .error e => (s, .error e)
  | .ok () =>
    if s.phaseKind ≠ some .wait then (s, .error .wrongState)
    else match s.resume with
    | .error e => (s, .error e)
    | .ok s => ({ s with phaseKind := none, localUntil := none }, .ok ())

/-! ### What an adapter does with its handle -/

/-- The operations on a handle of the clock; `look` stands for those that only read. -/
inductive Use
  | look
  | terminate (cause : SetupCause)
  | terminateIfAlive (cause : SetupCause)
  | acknowledge (receipt : SetupReceipt)
  | prepareLocal (kind : LocalPhase) (time : ℕ)
  | dropPrepared (phase : PhaseId)
  | publishLocal (prepared : PhaseId)
  | publishNetwork
  | beginNetworkWait
  | networkProgress
  | beginLocalWait (milliseconds : ℕ)
  | endLocalWait

/-- The clock after a use. -/
def use (s : SetupClock) : Use → Option SetupClock
  | .look => some s.change
  | .terminate cause => some (s.terminate cause).1
  | .terminateIfAlive cause => some (s.terminateIfAlive cause).1
  | .acknowledge receipt => some (s.acknowledge receipt).1
  | .prepareLocal kind time => some (s.prepareLocal kind time).1
  | .dropPrepared phase => some (s.dropPrepared phase)
  | .publishLocal prepared => (s.publishLocal prepared).map (·.1)
  | .publishNetwork => some s.publishNetwork.1
  | .beginNetworkWait => some s.beginNetworkWait.1
  | .networkProgress => some s.networkProgress.1
  | .beginLocalWait milliseconds => (s.beginLocalWait milliseconds).map (·.1)
  | .endLocalWait => some s.endLocalWait.1

/-! ### No operation fails -/

/-- A clock that is still alive after a reading has nothing expired. -/
theorem expiry_change {s : SetupClock} (h : s.change.terminal = none) : s.change.expiry = none := by
  revert h
  unfold change
  generalize { s with now := max (s.source s.reads) s.now, reads := s.reads + 1 } = t
  intro h
  unfold settle at h ⊢
  split_ifs at h ⊢ with hterminal
  · rw [h] at hterminal
    cases hterminal
  · cases hx : t.expiry with
    | some cause =>
      -- the expiry would have ended the clock
      have hnone : t.terminal = none := by simpa using hterminal
      simp only [hx, finish, hnone] at h
      cases h
    | none =>
      simp only
      split
      · exact hx
      · exact hx

theorem pause_ne_none {s : SetupClock} (h : s.expiry = none) (hk : s.phaseKind = none) :
    s.pause ≠ none := by
  have hlive : ∀ (t : Timer), (t.deadline.filter fun time => decide (time ≤ s.now)) = none →
      ∃ t', t.pause s.now = some t' := by
    intro t ht
    cases t with
    | live time =>
      have hle : s.now < time := by simpa [Timer.deadline] using ht
      exact ⟨_, if_pos hle.le⟩
    | _ => exact ⟨_, rfl⟩
  have hboth : (s.aggregate.deadline.filter fun time => decide (time ≤ s.now)) = none ∧
      (s.stall.deadline.filter fun time => decide (time ≤ s.now)) = none := by
    simp only [expiry, hk] at h
    revert h
    cases s.aggregate.deadline.filter fun time => decide (time ≤ s.now) <;>
      cases s.stall.deadline.filter fun time => decide (time ≤ s.now) <;> simp
    split_ifs <;> simp
  obtain ⟨a, ha⟩ := hlive s.aggregate hboth.1
  obtain ⟨t, ht⟩ := hlive s.stall hboth.2
  simp [pause, ha, ht]

theorem terminal_of_alive {s : SetupClock} (h : s.alive = .ok ()) : s.terminal = none := by
  unfold alive at h
  split at h
  · assumption
  · cases h

theorem beginLocalWait_ne_none (s : SetupClock) (milliseconds : ℕ) :
    s.beginLocalWait milliseconds ≠ none := by
  unfold beginLocalWait
  simp only
  split
  · exact Option.some_ne_none _
  · rename_i halive
    split_ifs with hwait hbusy hfits
    · exact Option.some_ne_none _
    · exact Option.some_ne_none _
    · have hkind : s.change.phaseKind = none := by
        simp only [Bool.or_eq_true, not_or] at hbusy
        exact Option.not_isSome_iff_eq_none.1 hbusy.1
      obtain ⟨t, ht⟩ := Option.ne_none_iff_exists'.1
        (pause_ne_none (expiry_change (terminal_of_alive halive)) hkind)
      simp [ht]
    · exact Option.some_ne_none _

theorem publishLocal_ne_none (s : SetupClock) (prepared : PhaseId) :
    s.publishLocal prepared ≠ none := by
  unfold publishLocal
  simp only
  split
  · exact Option.some_ne_none _
  · rename_i halive
    split
    · split_ifs with hphase hlate hkind
      · exact Option.some_ne_none _
      · exact Option.some_ne_none _
      · obtain ⟨t, ht⟩ := Option.ne_none_iff_exists'.1
          (pause_ne_none (expiry_change (terminal_of_alive halive))
            (Option.isNone_iff_eq_none.1 hkind))
        simp [ht]
      · simp
    · exact Option.some_ne_none _

theorem use_ne_none (s : SetupClock) (u : Use) : s.use u ≠ none := by
  cases u with
  | publishLocal prepared => simpa [use] using s.publishLocal_ne_none prepared
  | beginLocalWait milliseconds => simpa [use] using s.beginLocalWait_ne_none milliseconds
  | _ => exact Option.some_ne_none _

end SetupClock

end GwzTransport.Pool
