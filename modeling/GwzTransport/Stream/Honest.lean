import GwzTransport.Stream.Ledger
import GwzTransport.Stream.Admitted

/-!
# An honest pair never sees a protocol error

Every check of `accept` holds of the next message of a channel, because the link between the two
machines says what the sender knew when it spoke.  So no message is refused, and the only other
source of a protocol error is a write past the largest offset.
-/

namespace GwzTransport.Stream

open Protocol MachineInt Transition

/-! ### Where protocol errors come from -/

theorem Move.error_protocol {c c' : Core} {e : Event} (h : Move c e c')
    (hc' : c'.error = some .protocol) :
    c.error = some .protocol ∨
      (∃ input, e = (.call (.write input), .count (.error .protocol)) ∧
        ((checkedAdd c.sent c.send.length).bind (checkedAdd ·
          (min input.length (c.config.sendBuffer - c.send.length) : ℕ))) = none) ∨
      ∃ m, e = (.receive m, .done (.error .protocol)) := by
  cases h with
  | overflow live range => exact .inr (.inl ⟨_, rfl, range⟩)
  | refuse => exact .inr (.inr ⟨_, rfl⟩)
  | fail silent live time why => obtain rfl | rfl := why <;> cases hc'
  | disconnect | failTerminal | expire => cases hc'
  | @take _ b live good =>
    cases b with
    | closed x =>
      left
      cases hx : x.failure with
      | some f => rw [Core.after_closed_failed _ hx] at hc'; cases hc'
      | none => rw [Core.after_closed_done _ hx] at hc'; exact hc'
    | cancel x =>
      simp only [Core.after, Core.failed] at hc'
      split_ifs at hc' <;> cases hc'
    | failed f => cases hc'
    | _ => exact .inl hc'
  | _ => exact .inl hc'

theorem Move.receive_protocol {c c' : Core} {m : Envelope}
    (h : Move c (.receive m, .done (.error .protocol)) c') :
    c.Live ∧ ∀ b, ¬ c.Receivable m b := by
  cases h with
  | idle silent | completeClose silent | fail silent => exact absurd rfl (silent.receive m)
  | refuse live bad => exact ⟨live, bad⟩

/-! ### The next message is acceptable -/

namespace Link

variable {w r : Core} {c c' d : List Body} {acc ret acc' ret' : List UInt8} {b : Body}

/-- **The reader accepts the next thing the writer said.** -/
theorem accepts (hL : Link w r c d acc ret) (hR : Link r w d c acc' ret') (hw : w.Sound)
    (hr : r.Sound) (hside : r.config.side = w.config.side.peer)
    (hpayload : r.config.maxPayload = w.config.maxPayload)
    (hwindow : r.config.peerReceiveWindow = w.config.receiveWindow) (hl : r.Live)
    (hc : c = b :: c') : r.Accepts b := by
  obtain ⟨v₁, v, hnext, hrest, hv⟩ := hL.next_of_take hl hc
  have hle := Wire.le_of_run hrest
  cases hnext with
  | @data d going more contiguous nonempty bounded =>
    have hoffset : d.offset = r.received := contiguous
    have hsent : r.received + d.payload.length ≤ w.sent := hle.offset.trans_eq hv.offset
    have hlimit : r.received + d.payload.length ≤ r.advertisedLimit :=
      hsent.trans (hw.outbound.sent_le.trans hL.granted)
    have hnonneg := hr.inbound.received_nonneg
    have htop := hr.inbound.limit_top
    refine ⟨?_, more, hoffset, nonempty, hpayload ▸ bounded, hoffset ▸ hlimit,
      .inr (hr.inbound.room hlimit)⟩
    rw [hoffset, checkedAdd_of_le (by omega) (by omega)]
    rfl
  | @window x going up =>
    right
    have hx : x.maxOffset ≤ w.advertisedLimit := hle.limit.trans_eq hv.limit
    have hlimit := hw.inbound.limit_le
    have htop := hw.inbound.limit_top
    have hbalance := hw.inbound.balance
    have hreceived := hR.received_le
    have hnonneg := hr.outbound.nonneg
    rw [hwindow, satAddInt_eq (by omega)]
    omega
  | @flush x going more up here =>
    refine ⟨?_, up, here, more⟩
    have hone := hL.asked hl
    rw [hc, show flushes (.flush x :: c') = x :: flushes c' from rfl] at hone
    cases hp : r.peerFlush with
    | none => rfl
    | some y => simp [hp] at hone
  | @flushed x going =>
    have hanswers : answers c = x :: answers c' := by rw [hc]; rfl
    obtain hnone | hsome := hR.answered hl
    · simp [hanswers] at hnone
    · rw [hanswers] at hsome
      cases hf : r.flush with
      | none => simp [inFlight, hf] at hsome
      | some f =>
        obtain ⟨id, offset, _ | _⟩ := f
        · simp [inFlight, hf] at hsome
        · obtain ⟨rfl, -⟩ : x = ⟨id, offset⟩ ∧ answers c' = [] := by
            simpa [inFlight, hf] using hsome
          exact hf
  | endWrite going first total => exact total
  | close going side after first total => exact ⟨by rw [hside, side]; rfl, after, total⟩
  | @closed x going side after =>
    exact ⟨by rw [hside, side]; rfl, (hL.closing x (by simp [hc])).1, after⟩
  | failure going failure =>
    cases b with
    | cancel x => trivial
    | failed f => trivial
    | _ => exact failure.elim

end Link

namespace Pair

variable {k : Side → Config} {p p' : Pair} {s : Side} {l : Side × Event} {tr : List (Side × Event)}

/-- Everything on its way was sealed by its sender and is admitted by the receiver. -/
def Carried (k : Side → Config) (p : Pair) (s : Side) : Prop :=
  ∀ m ∈ p.channel s, ∃ b, m = (k s).seal b ∧ Codec.admitLimited m (k s).peerLimits = .ok ()

theorem carried (hk : Matched k) (h : Run Step (initial k) tr p) (s : Side) : Carried k p s := by
  refine h.invariant (P := fun _ p => Carried k p s) (by simp [Carried, initial])
    fun tr p l p' hr hc hstep m hm => ?_
  obtain rfl | hs := l.1.eq_or_eq_peer s
  · rw [hstep.sent, List.mem_append] at hm
    obtain hm | hm := hm
    · exact hc m hm
    · have hconfig : (p.machine l.1).core.config = k l.1 := config_eq hr l.1
      have husable := Config.usable_of_validate (hk.valid l.1)
      rw [← hconfig] at husable ⊢
      obtain ⟨b, rfl, hb⟩ := hstep.step.move.emitted_admitted husable (sound hk hr l.1)
        (Option.mem_toList.1 hm)
      exact ⟨b, rfl, hb⟩
  · have hdelivered := hstep.delivered
    rw [← hs] at hdelivered
    exact hc m (hdelivered ▸ List.mem_append_right _ hm)

/-- A live machine takes the next message of its channel. -/
theorem receivable (hk : Matched k) (h : Run Step (initial k) tr p) {m : Envelope}
    {rest : List Envelope} (hnext : p.channel s.peer = m :: rest)
    (hl : (p.machine s).core.Live) : ∃ b, (p.machine s).core.Receivable m b := by
  obtain ⟨b, rfl, hadmitted⟩ := carried hk h s.peer m (by simp [hnext])
  have hconfig : ∀ s, (p.machine s).core.config = k s := fun s => config_eq h s
  have hL := linked hk h s.peer
  have hR := linked hk h s
  rw [Linked, Side.peer_peer] at hL
  refine ⟨b, ?_⟩
  exact {
    session := by rw [hconfig, ← hk.session s]; cases b <;> rfl
    stream := by rw [hconfig, ← hk.stream s]; cases b <;> rfl
    version := by rw [hconfig, ← hk.version s]; cases b <;> rfl
    admitted := by rw [hconfig, ← hadmitted, hk.limits s.peer, Side.peer_peer]
    body := bodyOf_seal _ _
    accepts := hL.accepts hR (sound hk h s.peer) (sound hk h s)
      (by simp only [hconfig, hk.side, Side.peer_peer])
      (by rw [hconfig, hconfig, hk.payload s])
      (by rw [hconfig, hconfig, hk.window s]) hl
      (by rw [bodies, hnext, List.filterMap_cons, bodyOf_seal]) }

/-- A write stays within the largest offset. -/
def InRange (p : Pair) : Side × Event → Prop
  | (s, (.call (.write input), _)) =>
    (p.machine s).sent + (p.machine s).send.length +
      (min input.length ((p.machine s).config.sendBuffer - (p.machine s).send.length) : ℕ) ≤ i64Max
  | _ => True

/-- A step of a pair whose byte offsets stay in range. -/
def RangedStep (p : Pair) (l : Side × Event) (p' : Pair) : Prop := Step p l p' ∧ p.InRange l

theorem receive_ne_protocol (hk : Matched k) (h : Run Step (initial k) tr p) (hstep : Step p l p')
    (m : Envelope) : l.2 ≠ (.receive m, .done (.error .protocol)) := by
  intro hl
  have hmove := hstep.step.move
  rw [hl] at hmove
  obtain ⟨hlive, hbad⟩ := hmove.receive_protocol
  have hnext : p.channel l.1.peer = m :: p'.channel l.1.peer := by
    have := hstep.delivered
    rwa [hl] at this
  obtain ⟨b, hb⟩ := receivable hk h hnext hlive
  exact hbad b hb

/-- A write in range does not overflow. -/
theorem not_overflow {c : Core} (hs : c.Sound) {n : ℕ}
    (hrange : c.sent + c.send.length + n ≤ i64Max) :
    ((checkedAdd c.sent c.send.length).bind (checkedAdd · n)) ≠ none := by
  have hnonneg := hs.outbound.nonneg
  rw [checkedAdd_of_le (by omega) (by omega), Option.bind_some,
    checkedAdd_of_le (by omega) hrange]
  exact Option.some_ne_none _

end Pair

/-- The number of bytes a write was given. -/
def Event.offered : Event → ℕ
  | (.call (.write input), _) => input.length
  | _ => 0

theorem Event.accepted_length_le (e : Event) : e.accepted.length ≤ e.offered := by
  unfold Event.accepted
  split
  next input n => exact List.length_take_le' n input
  next => exact Nat.zero_le _

namespace Pair

/-- The number of bytes that one side's writes were given. -/
def offered (s : Side) (tr : List (Side × Event)) : ℕ := ((history s tr).map Event.offered).sum

theorem accepted_le_offered (s : Side) (tr : List (Side × Event)) :
    (accepted s tr).length ≤ offered s tr := by
  rw [accepted, offered, List.length_flatMap]
  exact List.sum_le_sum fun e _ => e.accepted_length_le

theorem held_le_accepted (hk : Matched k) (h : Run Step (initial k) tr p) (s : Side) :
    (p.machine s).sent + (p.machine s).send.length ≤ (accepted s tr).length := by
  by_cases herror : (p.machine s).core.error = none
  · exact ((outputs hk h s).accepted herror).ge
  · rw [show (p.machine s).send = [] from ((sound hk h s).failed herror).2.1, List.length_nil,
      Nat.cast_zero, add_zero]
    exact (outputs hk h s).sent_le

/-- Offsets stay in range as long as each side is given at most `i64Max` bytes. -/
theorem ranged_of_offered (hk : Matched k) (h : Run Step (initial k) tr p)
    (hoffered : ∀ s, (offered s tr : ℤ) ≤ i64Max) : Run RangedStep (initial k) tr p := by
  induction h with
  | nil => exact .nil
  | @snoc tr p p' l hr hstep ih =>
    have hsplit : ∀ s, offered s (tr ++ [l]) = offered s tr + offered s [l] := fun s => by
      simp [offered]
    refine (ih fun s => ?_).snoc ⟨hstep, ?_⟩
    · have := hoffered s
      rw [hsplit] at this
      omega
    obtain ⟨s, op, o⟩ := l
    cases op with
    | call c =>
      cases c with
      | write input =>
        have hle := hoffered s
        have hacc := accepted_le_offered s tr
        have hsent : (p.machine s).sent + (p.machine s).send.length ≤ (accepted s tr).length :=
          held_le_accepted hk hr s
        rw [hsplit, show offered s [(s, (.call (.write input), o))] = input.length by
          simp [offered, Event.offered]] at hle
        show _ + _ + _ ≤ i64Max
        push_cast at hle ⊢
        omega
      | _ => trivial
    | _ => trivial

/-- **No protocol error between honest machines.**  While byte offsets stay in range, no delivery
is refused and no machine ends in a protocol error. -/
theorem no_protocol_error (hk : Matched k) (h : Run RangedStep (initial k) tr p) :
    (∀ s, (p.machine s).error ≠ some .protocol) ∧
      ∀ l ∈ tr, ∀ m, l.2 ≠ (.receive m, .done (.error .protocol)) := by
  refine h.invariant (P := fun tr p => (∀ s, (p.machine s).error ≠ some .protocol) ∧
    ∀ l ∈ tr, ∀ m, l.2 ≠ (.receive m, .done (.error .protocol)))
    ⟨fun s => by simp [initial, StreamMachine.initial], by simp⟩ ?_
  rintro tr p l p' hr ⟨herror, hreceive⟩ ⟨hstep, hrange⟩
  have hr : Run Step (initial k) tr p := hr.mono fun _ _ _ h => h.1
  obtain ⟨s₀, e⟩ := l
  have hnew := receive_ne_protocol hk hr hstep
  refine ⟨fun s hs => ?_, fun l' hl' => ?_⟩
  · obtain rfl | hpeer := s₀.eq_or_eq_peer s
    · obtain hold | ⟨input, rfl, hnone⟩ | ⟨m, he⟩ := hstep.step.move.error_protocol hs
      · exact herror _ hold
      · exact not_overflow (sound hk hr s) hrange hnone
      · exact hnew m he
    · rw [hpeer, hstep.other] at hs
      exact herror _ hs
  · rw [List.mem_append, List.mem_singleton] at hl'
    obtain hl' | rfl := hl'
    · exact hreceive l' hl'
    · exact hnew

/-- A flush, a half-close and a close are crossed by a cancellation. -/
theorem no_protocol_error_short_run :
    let r := (initial Config.small).exec
      [(.initiator, .call (.write [1, 2, 3])), (.initiator, .call .startFlush),
        (.initiator, .nextMessage), (.initiator, .nextMessage), (.endpoint, .deliver),
        (.endpoint, .deliver), (.endpoint, .call (.read 8)), (.initiator, .call .startClose),
        (.initiator, .nextMessage), (.endpoint, .nextMessage), (.endpoint, .deliver),
        (.initiator, .deliver), (.initiator, .call .cancel), (.initiator, .nextMessage),
        (.endpoint, .deliver)]
    r.2.length = 15 ∧ ∀ s, (r.1.machine s).error ≠ some .protocol := by
  intro r
  have h : Run Step (initial Config.small) r.2 r.1 := run_exec _ _
  have hoffered : ∀ s, (offered s r.2 : ℤ) ≤ i64Max := fun s => by
    cases s <;> decide +kernel
  exact ⟨by decide +kernel,
    (no_protocol_error matched_small (ranged_of_offered matched_small h hoffered)).1⟩

end Pair

end GwzTransport.Stream
