import GwzTransport.Stream.Link

/-!
# Two machines and their channels

An initiator and an endpoint with matching configurations, joined by one ordered channel in each
direction.  A step of the pair is a step of one machine: what it hands out goes to the end of its
channel, and what it is given comes off the front of the other's.  Every interleaving of host
calls, deliveries and clock readings on both sides is a run of this system.

`Pair.linked` puts the links of both directions under every run.  The results about whole streams
follow from it: no byte is lost, repeated or reordered, and the end of input is seen only after
the last byte.
-/

namespace GwzTransport.Stream

open Protocol MachineInt Transition

/-- Configurations that the two sides of one stream were given. -/
structure Matched (k : Side → Config) : Prop where
  side : ∀ s, (k s).side = s
  valid : ∀ s, (k s).validate = .ok ()
  session : ∀ s, (k s.peer).sessionId = (k s).sessionId
  stream : ∀ s, (k s.peer).streamId = (k s).streamId
  version : ∀ s, (k s.peer).profileVersion = (k s).profileVersion
  window : ∀ s, (k s).peerReceiveWindow = (k s.peer).receiveWindow
  payload : ∀ s, (k s.peer).maxPayload = (k s).maxPayload
  limits : ∀ s, (k s).peerLimits = (k s.peer).receiveLimits

/-- The message that was delivered. -/
def Event.delivered : Event → Option Envelope
  | (.receive e, _) => some e
  | _ => none

structure Pair where
  machine : Side → StreamMachine
  /-- What each side has handed out and the other was not given yet, oldest first. -/
  channel : Side → List Envelope

namespace Pair

def initial (k : Side → Config) : Pair where
  machine s := .initial (k s)
  channel _ := []

/-- One machine takes a step. -/
structure Step (p : Pair) (l : Side × Event) (p' : Pair) : Prop where
  step : Stream.Step (p.machine l.1) l.2 (p'.machine l.1)
  other : p'.machine l.1.peer = p.machine l.1.peer
  sent : p'.channel l.1 = p.channel l.1 ++ l.2.emitted.toList
  delivered : p.channel l.1.peer = l.2.delivered.toList ++ p'.channel l.1.peer

/-- The events of one side. -/
def history (s : Side) (tr : List (Side × Event)) : List Event :=
  tr.flatMap fun l => if l.1 = s then [l.2] else []

/-- The bytes that one side's writes accepted. -/
def accepted (s : Side) (tr : List (Side × Event)) : List UInt8 :=
  (history s tr).flatMap Event.accepted

/-- The bytes that one side's reads returned. -/
def returned (s : Side) (tr : List (Side × Event)) : List UInt8 :=
  (history s tr).flatMap Event.returned

/-- The bodies on their way from one side. -/
def bodies (p : Pair) (s : Side) : List Body := (p.channel s).filterMap bodyOf

variable {k : Side → Config} {p p' : Pair} {s : Side} {e : Event} {l : Side × Event}
  {tr : List (Side × Event)}

@[simp] theorem history_append (s : Side) (tr tr' : List (Side × Event)) :
    history s (tr ++ tr') = history s tr ++ history s tr' :=
  List.flatMap_append

@[simp] theorem history_self (s : Side) (e : Event) : history s [(s, e)] = [e] := by
  simp [history]

@[simp] theorem history_peer (s : Side) (e : Event) : history s.peer [(s, e)] = [] := by
  simp [history]

/-- Each side of a run of the pair is a run of its machine. -/
theorem run_machine (h : Run Step p tr p') (s : Side) :
    Run Stream.Step (p.machine s) (history s tr) (p'.machine s) := by
  refine h.simulate (fun p => p.machine s) (fun l => if l.1 = s then [l.2] else [])
    fun p₁ l p₂ hstep => ?_
  obtain rfl | hs := l.1.eq_or_eq_peer s
  · simpa using Run.single hstep.step
  · have hne : l.1 ≠ s := by rw [hs]; simp
    rw [if_neg hne, hs, hstep.other]
    exact .nil

theorem bodies_sent (h : Step p l p') : p'.bodies l.1 = p.bodies l.1 ++ l.2.spoken := by
  rw [bodies, h.sent, List.filterMap_append]
  rfl

theorem bodies_delivered (h : Step p l p') :
    p.bodies l.1.peer = l.2.taken ++ p'.bodies l.1.peer := by
  rw [bodies, h.delivered, List.filterMap_append]
  congr 1
  obtain ⟨s, op, o⟩ := l
  cases op with
  | receive e => cases hb : bodyOf e <;> simp [Event.delivered, Event.taken, hb]
  | call c => rfl
  | nextMessage => rfl

/-! ### The links of both directions -/

/-- The link from `s` to its peer, in a state reached by `tr`. -/
def Linked (tr : List (Side × Event)) (p : Pair) (s : Side) : Prop :=
  Link (p.machine s).core (p.machine s.peer).core (p.bodies s) (p.bodies s.peer)
    (accepted s tr) (returned s.peer tr)

theorem linked_initial (hk : Matched k) (s : Side) : Linked [] (initial k) s where
  flow _ := by
    refine ⟨_, .nil, ?_⟩
    have hview : ((initial k).machine s.peer).core.view = Wire.initial (k s) := by
      have := hk.window s.peer
      simp only [Side.peer_peer] at this
      simp [initial, StreamMachine.initial, StreamMachine.core, Core.view, Wire.initial, this]
    rw [hview]
    exact Says.initial (k s)
  received_le := le_rfl
  granted := by
    have := hk.window s
    simp [initial, StreamMachine.initial, StreamMachine.core, this]
  ended h := nomatch h
  closed h := nomatch h
  tokens _ _ := rfl
  asked _ := Nat.zero_le _
  answered _ := .inl rfl
  reached _ h := nomatch h
  bytes _ _ := ⟨[], rfl, fun _ => rfl⟩
  front _ := List.nil_prefix
  closing _ h := nomatch h
  agreed _ _ h := nomatch h

/-- A step of one side keeps the links of both directions. -/
theorem linked_step (hs : (p.machine l.1).core.Sound) (hlink : ∀ s, Linked tr p s)
    (h : Step p l p') (s : Side) : Linked (tr ++ [l]) p' s := by
  obtain ⟨s₀, e⟩ := l
  have hmove : Move (p.machine s₀).core e (p'.machine s₀).core := h.step.move
  have hother : p'.machine s₀.peer = p.machine s₀.peer := h.other
  have hsent : p'.bodies s₀ = p.bodies s₀ ++ e.spoken := bodies_sent h
  have hdelivered : p.bodies s₀.peer = e.taken ++ p'.bodies s₀.peer := bodies_delivered h
  have hback := hlink s₀.peer
  unfold Linked at hback
  rw [Side.peer_peer] at hback
  obtain rfl | rfl := s₀.eq_or_eq_peer s
  · have hnew := (hlink s).writer hback hs hmove hdelivered
    unfold Linked
    rw [hother, hsent]
    simpa [accepted, returned] using hnew
  · have hnew := hback.reader hs hmove hdelivered
    unfold Linked
    rw [Side.peer_peer, hother, hsent]
    simpa [accepted, returned] using hnew

theorem sound (hk : Matched k) (h : Run Step (initial k) tr p) (s : Side) :
    (p.machine s).core.Sound :=
  sound_of_run (StreamMachine.new_of_validate (hk.valid s)) (run_machine h s)

theorem config_eq (h : Run Step (initial k) tr p) (s : Side) : (p.machine s).config = k s :=
  config_of_run (run_machine h s)

/-- **Both directions of a pair are linked after every run.** -/
theorem linked (hk : Matched k) (h : Run Step (initial k) tr p) (s : Side) : Linked tr p s := by
  revert s
  exact h.invariant (P := fun tr p => ∀ s, Linked tr p s) (linked_initial hk)
    fun tr p l p' hr hlink hstep => linked_step (sound hk hr l.1) hlink hstep

/-! ### Executions -/

end Pair

/-- What a host does with one side: a call, taking a message out, or delivering the next one. -/
inductive Act
  | call (c : Call)
  | nextMessage
  | deliver

namespace Pair

/-- One side in a new state. -/
def put (p : Pair) (s : Side) (m : StreamMachine) : Side → StreamMachine :=
  Function.update p.machine s m

/-- Perform an act; there is nothing to deliver from an empty channel. -/
def act (p : Pair) (s : Side) : Act → Option (Pair × Event)
  | .call c =>
    let r := (p.machine s).call c
    some (⟨p.put s r.1, p.channel⟩, (.call c, r.2))
  | .nextMessage =>
    let r := (p.machine s).nextMessage
    some (⟨p.put s r.1, Function.update p.channel s (p.channel s ++ r.2.toList)⟩,
      (.nextMessage, .message r.2))
  | .deliver =>
    match p.channel s.peer with
    | [] => none
    | e :: rest =>
      let r := (p.machine s).receive e
      some (⟨p.put s r.1, Function.update p.channel s.peer rest⟩, (.receive e, .done r.2))

theorem step_of_act {a : Act} (h : p.act s a = some (p', e)) : Step p (s, e) p' := by
  cases a with
  | call c =>
    obtain ⟨rfl, rfl⟩ := Prod.ext_iff.1 (Option.some.inj h)
    have hemitted : Event.emitted (.call c, ((p.machine s).call c).2) = none := by
      cases c <;> rfl
    exact ⟨by simp [put, Stream.Step, StreamMachine.step], by simp [put], by simp [hemitted], rfl⟩
  | nextMessage =>
    obtain ⟨rfl, rfl⟩ := Prod.ext_iff.1 (Option.some.inj h)
    exact ⟨by simp [put, Stream.Step, StreamMachine.step], by simp [put],
      by simp [Event.emitted], by simp [Event.delivered]⟩
  | deliver =>
    simp only [act] at h
    split at h
    · cases h
    next message rest hchannel =>
      obtain ⟨rfl, rfl⟩ := Prod.ext_iff.1 (Option.some.inj h)
      exact ⟨by simp [put, Stream.Step, StreamMachine.step], by simp [put],
        by simp [Event.emitted], by simp [Event.delivered, hchannel]⟩

/-- The acts one after the other, with what came of each; a delivery from an empty channel is
skipped. -/
def exec (p : Pair) : List (Side × Act) → Pair × List (Side × Event)
  | [] => (p, [])
  | (s, a) :: acts =>
    match p.act s a with
    | none => p.exec acts
    | some (p', e) =>
      let r := p'.exec acts
      (r.1, (s, e) :: r.2)

theorem run_exec (p : Pair) (acts : List (Side × Act)) :
    Run Step p (p.exec acts).2 (p.exec acts).1 := by
  induction acts generalizing p with
  | nil => exact .nil
  | cons a acts ih =>
    obtain ⟨s, a⟩ := a
    unfold exec
    split
    next => exact ih p
    next p' e h => exact .cons (step_of_act h) (ih p')

end Pair

theorem matched_small : Matched Config.small where
  side s := by cases s <;> rfl
  valid := Config.small_validate
  session s := by cases s <;> rfl
  stream s := by cases s <;> rfl
  version s := by cases s <;> rfl
  window s := by cases s <;> rfl
  payload s := by cases s <;> rfl
  limits s := by cases s <;> rfl

namespace Pair

/-! ### Bytes -/

theorem write_of_endRequested {m : StreamMachine} (h : m.endRequested = true)
    (input : List UInt8) : ∃ error, (m.write input).2 = .error error := by
  unfold StreamMachine.write
  split
  next error _ => exact ⟨error, rfl⟩
  next => exact ⟨.writeClosed, by rw [if_pos h]⟩

/-- After a half-close was requested nothing more is accepted. -/
theorem accepted_of_endRequested (h : Run Step p tr p') (hs : (p.machine s).endRequested = true) :
    (p'.machine s).endRequested = true ∧ accepted s tr = [] := by
  refine (run_machine h s).invariant (P := fun tr m => m.endRequested = true ∧
    tr.flatMap Event.accepted = []) ⟨hs, rfl⟩ fun tr m e m' _ ⟨hend, hacc⟩ hstep => ?_
  refine ⟨hstep.move.endRequested_of hend, ?_⟩
  simp [hacc, hstep.move.accepted_of_endRequested hend]

/-- An empty answer to a read means the end of input was received and nothing is buffered. -/
theorem eof_of_read {m : StreamMachine} {n : ℕ} (hn : 0 < n) (h : (m.read n).2 = .ok []) :
    m.recv = [] ∧ m.error = none ∧ m.discarding = false ∧ m.endReceived = true := by
  have hnudge : m.nudge.recv = m.recv ∧ m.nudge.error = m.error ∧
      m.nudge.discarding = m.discarding ∧ m.nudge.endReceived = m.endReceived := by
    unfold StreamMachine.nudge; split_ifs <;> exact ⟨rfl, rfl, rfl, rfl⟩
  obtain ⟨hrecv, herror, hdiscarding, hend⟩ := hnudge
  rw [StreamMachine.read, if_neg hn.ne', StreamMachine.readSome, hrecv, herror, hdiscarding,
    hend] at h
  split at h
  next hne =>
    have hlen : 0 < m.recv.length := List.length_pos_of_ne_nil (by simpa using hne)
    have := congrArg List.length (Except.ok.inj h)
    simp only [List.length_take, List.length_nil] at this
    omega
  next hempty =>
    split at h
    · cases h
    next he =>
      split_ifs at h with hclosed hgot
      simp only [Bool.or_eq_true, not_or, Bool.not_eq_true] at hclosed
      exact ⟨by simpa using hempty, he, hclosed.1, hgot⟩

/-- **No byte is lost, repeated or reordered.**  As long as neither side has failed and the reader
keeps its input, what the reader returned, what it has buffered, what is on its way and what the
writer has buffered are together the bytes that were accepted.  A read reports the end of input
only after the last of them, and then no write succeeds any more. -/
theorem bytes_conserved (hk : Matched k) (h : Run Step (initial k) tr p) (s : Side) :
    ((p.machine s).error = none → (p.machine s.peer).error = none →
      (p.machine s.peer).discarding = false →
      returned s.peer tr ++ (p.machine s.peer).recv ++ payloads (p.bodies s) ++
        (p.machine s).send = accepted s tr) ∧
    (∀ n, 0 < n → ((p.machine s.peer).read n).2 = .ok [] →
      returned s.peer tr = accepted s tr ∧
      ∀ tr' p', Run Step p tr' p' → accepted s (tr ++ tr') = accepted s tr ∧
        ∀ input, ∃ error, ((p'.machine s).write input).2 = .error error) := by
  have hlink := linked hk h s
  have hs := sound hk h s
  refine ⟨fun hw hr hkeep => ?_, fun n hn hread => ?_⟩
  · obtain ⟨lost, hacc, hlost⟩ := hlink.bytes hr hkeep
    rw [hlost (.inl hw), List.append_nil] at hacc
    exact hacc
  · obtain ⟨hrecv, hr, hkeep, hend⟩ := eof_of_read hn hread
    obtain ⟨hended, -, hflight⟩ := hlink.ended hend
    obtain ⟨hreq, hsend, -⟩ := hs.end_sent hended
    obtain ⟨lost, hacc, hlost⟩ := hlink.bytes hr hkeep
    refine ⟨?_, fun tr' p' h' => ?_⟩
    · rw [hflight, hsend, hlost (.inr hended), show (p.machine s.peer).core.recv = [] from hrecv]
        at hacc
      simpa using hacc
    · obtain ⟨hreq', hacc'⟩ := accepted_of_endRequested h' hreq
      refine ⟨?_, write_of_endRequested hreq'⟩
      rw [accepted, history_append, List.flatMap_append]
      exact (congrArg _ hacc').trans (List.append_nil _)

/-- Six bytes of which two are read, two are buffered, one is on its way and one is not sent. -/
theorem bytes_conserved_short_run :
    let r := (initial Config.small).exec
      [(.initiator, .call (.write [1, 2, 3, 4, 5])), (.initiator, .nextMessage),
        (.endpoint, .deliver), (.endpoint, .call (.read 2)), (.initiator, .call (.advance 100)),
        (.initiator, .nextMessage), (.initiator, .call (.write [6]))]
    (returned .endpoint r.2 = [1, 2] ∧ (r.1.machine .endpoint).recv = [3, 4] ∧
      payloads (r.1.bodies .initiator) = [5] ∧ (r.1.machine .initiator).send = [6]) ∧
    returned .endpoint r.2 ++ (r.1.machine .endpoint).recv ++ payloads (r.1.bodies .initiator) ++
      (r.1.machine .initiator).send = accepted .initiator r.2 :=
  ⟨by decide +kernel, (bytes_conserved matched_small (run_exec _ _) .initiator).1
    (by decide +kernel) (by decide +kernel) (by decide +kernel)⟩

end Pair

end GwzTransport.Stream
