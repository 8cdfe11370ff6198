import GwzTransport.Lib.Credit
import GwzTransport.Stream.Core

/-!
# The invariant of one machine

`Sound` holds of every state a machine reaches, whatever its host calls and whatever messages
arrive.  It is kept by every `Move`, so it is proved once here and used by all later results:

* the books of both directions' credit (`Credit.Inbound`, `Credit.Outbound`);
* at most one flush of either side is open and its serial is the newest;
* the half-close and the close handshake leave their traces in order;
* a failed machine has dropped its buffers, and failure and completion exclude each other;
* buffered data has a batch deadline and is released at once by a flush or a half-close.
-/

namespace GwzTransport.Stream

open Protocol MachineInt Transition

namespace Core

variable {c : Core}

/-- The failures a machine may announce: its own kinds, or one of its host's that was admitted. -/
def Announces (c : Core) (b : Body) : Prop :=
  (∃ error, b = failureBody c.config.side error) ∨ ∃ f, b = .failed f ∧ c.Admitted (.failed f)

/-- The invariant of a reachable protocol state. -/
structure Sound (c : Core) : Prop where
  payload_pos : 0 < c.config.maxPayload
  inbound : Credit.Inbound i64Max c.config.receiveWindow c.recv.length c.received c.consumed
    c.advertisedLimit
  outbound : Credit.Outbound i64Max c.config.peerReceiveWindow c.sent c.peerLimit
  send_le : c.send.length ≤ c.config.sendBuffer
  send_max : c.sent + c.send.length ≤ i64Max
  flush_pending : ∀ f, c.flush = some f → f.offset = c.sent + c.send.length ∧
    f.id = c.flushSerial ∧ c.flushAcked + 1 = c.flushSerial
  flush_sent : ∀ f, c.flush = some f → f.sent = true → c.send = []
  flush_settled : c.flush = none → c.error = none → c.flushAcked = c.flushSerial
  acked_nonneg : 0 ≤ c.flushAcked
  acked_le : c.flushAcked ≤ c.flushSerial
  peer_serial : 0 ≤ c.peerFlushSerial
  peer_flush : ∀ b, c.peerFlush = some b → 0 ≤ b.offset ∧ 0 < b.barrierId
  end_sent : c.endSent = true → c.endRequested = true ∧ c.send = [] ∧
    ∀ f, c.flush = some f → f.sent = true
  discarding : c.discarding = true → c.config.side = .initiator ∧ c.recv = [] ∧
    c.endRequested = true ∧ c.closing = true
  discarded : c.discarded = true → c.discarding = true
  closing : c.closing = true → c.config.side = .initiator → c.discarding = true
  close_sent : c.closeSent = true → c.endSent = true ∧ c.discarding = true
  close_received : c.closeReceived = true → c.config.side = .endpoint ∧ c.endReceived = true
  close_pending : c.closePending ≠ none → c.closeReceived = true ∧ c.endSent = true ∧
    c.recv = [] ∧ c.peerFlush = none ∧ c.flush = none
  close_admitted : ∀ x, c.closePending = some x →
    x.unreadResponseDiscarded = c.discarded ∧ c.Admitted (.closed x)
  terminal : ∀ e, c.terminalMessage = some e →
    c.error ≠ none ∧ ∃ b, e = c.config.seal b ∧ c.Announces b
  failed : c.error ≠ none → c.completed = none ∧ c.send = [] ∧ c.flush = none ∧
    c.peerFlush = none ∧ c.closePending = none
  completed : c.completed ≠ none → c.endSent = true ∧ c.endReceived = true ∧ c.recv = [] ∧
    c.closePending = none
  force : c.send ≠ [] → (c.flush ≠ none ∨ c.endRequested = true) → c.forceSend = true
  batch : c.send ≠ [] →
    ∃ t, c.batchDeadline = some t ∧ t ≤ satAdd c.now c.config.coalesceDelayMs

end Core

/-- What the invariant needs of a configuration. -/
structure Config.Ranged (k : Config) : Prop where
  payload_pos : 0 < k.maxPayload
  window_pos : 0 < k.receiveWindow
  window : (k.receiveWindow : ℤ) ≤ i64Max
  peerWindow : (k.peerReceiveWindow : ℤ) ≤ i64Max

theorem Config.ranged_of_validate {k : Config} (h : k.validate = .ok ()) : k.Ranged := by
  unfold validate at h
  split_ifs at h with hlimits hrange hprobe
  unfold outOfRange at hrange
  simp only [decide_eq_true_eq, not_or, not_lt] at hrange
  exact ⟨by omega, by omega, by unfold i64Max; omega, by unfold i64Max; omega⟩

namespace Core

theorem sound_initial {k : Config} (h : k.Ranged) : (StreamMachine.initial k).core.Sound where
  payload_pos := h.payload_pos
  inbound := Credit.Inbound.initial h.window
  outbound := Credit.Outbound.initial h.peerWindow
  send_le := Nat.zero_le _
  send_max := show (0 : ℤ) + (0 : ℕ) ≤ i64Max by decide
  flush_pending := by simp [StreamMachine.initial, StreamMachine.core]
  flush_sent := by simp [StreamMachine.initial, StreamMachine.core]
  flush_settled := by simp [StreamMachine.initial, StreamMachine.core]
  acked_nonneg := le_rfl
  acked_le := le_rfl
  peer_serial := by simp [StreamMachine.initial, StreamMachine.core]
  peer_flush := by simp [StreamMachine.initial, StreamMachine.core]
  end_sent := by simp [StreamMachine.initial, StreamMachine.core]
  discarding := by simp [StreamMachine.initial, StreamMachine.core]
  discarded := by simp [StreamMachine.initial, StreamMachine.core]
  closing := by simp [StreamMachine.initial, StreamMachine.core]
  close_sent := by simp [StreamMachine.initial, StreamMachine.core]
  close_received := by simp [StreamMachine.initial, StreamMachine.core]
  close_pending := by simp [StreamMachine.initial, StreamMachine.core]
  close_admitted := by simp [StreamMachine.initial, StreamMachine.core]
  terminal := by simp [StreamMachine.initial, StreamMachine.core]
  failed := by simp [StreamMachine.initial, StreamMachine.core]
  completed := by simp [StreamMachine.initial, StreamMachine.core]
  force := by simp [StreamMachine.initial, StreamMachine.core]
  batch := by simp [StreamMachine.initial, StreamMachine.core]

/-! ### One move keeps the invariant -/

namespace Sound

variable {c : Core}

theorem tick (hs : c.Sound) {t : ℕ} (ht : c.now ≤ t) : Sound { c with now := t } :=
  { hs with
    batch := fun hsend =>
      let ⟨d, hd, hle⟩ := hs.batch hsend
      ⟨d, hd, hle.trans (satAdd_mono ht _)⟩ }

/-- A failed machine keeps its books and drops its buffers, except what was received. -/
theorem fail (hs : c.Sound) (hl : c.Live) (error : Error) : (c.failed error).Sound :=
  { hs with
    send_le := Nat.zero_le _
    send_max := by
      have := hs.send_max
      simp only [Core.failed, List.length_nil]
      omega
    flush_pending := fun _ h => nomatch h
    flush_sent := fun _ h => nomatch h
    flush_settled := fun _ h => nomatch h
    peer_flush := fun _ h => nomatch h
    end_sent := fun h => ⟨(hs.end_sent h).1, rfl, fun _ h => nomatch h⟩
    close_pending := fun h => absurd rfl h
    close_admitted := fun _ h => nomatch h
    terminal := fun e he => ⟨Option.some_ne_none _, (hs.terminal e he).2⟩
    failed := fun _ => ⟨hl.2, rfl, rfl, rfl, rfl⟩
    completed := fun h => absurd hl.2 h
    force := fun h => absurd rfl h
    batch := fun h => absurd rfl h }

theorem tell_none (hs : c.Sound) : (c.tell none).Sound :=
  { hs with terminal := fun _ h => nomatch h }

theorem failWith (hs : c.Sound) (hl : c.Live) (error : Error) {b : Body} (hb : c.Announces b) :
    (c.failedWith error (c.config.seal b)).Sound :=
  { hs.fail hl error with
    terminal := fun _ he => ⟨Option.some_ne_none _, b, (Option.some.inj he).symm, hb⟩ }

theorem failSelf (hs : c.Sound) (hl : c.Live) (error : Error) : (c.failedSelf error).Sound :=
  hs.failWith hl error (.inl ⟨error, rfl⟩)

theorem read (hs : c.Sound) {n k : ℕ} (hk : k ≤ c.recv.length) : (c.read n k).Sound :=
  have hnil (h : c.recv = []) : (c.read n k).recv = [] := by simp [Core.read, h]
  { hs with
    inbound := by simpa [Core.read] using hs.inbound.consume hk
    discarding := fun h =>
      let ⟨hside, hrecv, hrest⟩ := hs.discarding h
      ⟨hside, hnil hrecv, hrest⟩
    close_pending := fun h =>
      let ⟨hclosed, hend, hrecv, hrest⟩ := hs.close_pending h
      ⟨hclosed, hend, hnil hrecv, hrest⟩
    completed := fun h =>
      let ⟨hend, hgot, hrecv, hrest⟩ := hs.completed h
      ⟨hend, hgot, hnil hrecv, hrest⟩
    force := fun hsend hwhy => by simp [Core.read, hs.force hsend hwhy] }

theorem write (hs : c.Sound) {input : List UInt8} {n : ℕ} (hl : c.Live)
    (hend : c.endRequested = false) (hflush : c.flush = none) (hn : n ≤ input.length)
    (hroom : c.send.length + n ≤ c.config.sendBuffer)
    (hrange : c.sent + c.send.length + n ≤ i64Max) :
    Sound
      { c with
        send := c.send ++ input.take n
        batchDeadline :=
          if c.send = [] then some (satAdd c.now c.config.coalesceDelayMs)
          else c.batchDeadline } :=
  have hlen : (c.send ++ input.take n).length = c.send.length + n := by simp [hn]
  { hs with
    send_le := by rw [hlen]; exact hroom
    send_max := by rw [hlen]; push_cast; omega
    flush_pending := fun f hf => by simp [hflush] at hf
    flush_sent := fun f hf => by simp [hflush] at hf
    end_sent := fun h => by simp [(hs.end_sent h).1] at hend
    failed := fun h => absurd hl.1 h
    force := fun _ h => by simp [hflush, hend] at h
    batch := fun _ => by
      dsimp only
      split_ifs with hempty
      · exact ⟨_, rfl, le_rfl⟩
      · exact hs.batch hempty }

theorem flush (hs : c.Sound) (hl : c.Live) (hflush : c.flush = none) (hend : c.endSent = false) :
    Sound
      { c with
        flushSerial := c.flushSerial + 1
        flush := some ⟨c.flushSerial + 1, c.sent + c.send.length, false⟩
        forceSend := true } :=
  have hacked := hs.flush_settled hflush hl.1
  { hs with
    flush_pending := fun f hf => by
      obtain rfl := Option.some.inj hf
      exact ⟨rfl, rfl, by simp only [hacked]⟩
    flush_sent := fun f hf hsent => by
      obtain rfl := Option.some.inj hf
      simp at hsent
    flush_settled := fun h => nomatch h
    acked_le := by have := hs.acked_le; simp only; omega
    end_sent := fun h => by simp [hend] at h
    close_pending := fun h => by simp [(hs.close_pending h).2.1] at hend
    failed := fun h => absurd hl.1 h
    force := fun _ _ => rfl }

theorem endWrite (hs : c.Sound) : Sound { c with endRequested := true, forceSend := true } :=
  { hs with
    end_sent := fun h => ⟨rfl, (hs.end_sent h).2⟩
    discarding := fun h =>
      let ⟨hside, hrecv, _, hclosing⟩ := hs.discarding h
      ⟨hside, hrecv, rfl, hclosing⟩
    force := fun _ _ => rfl }

theorem startClose (hs : c.Sound) (hl : c.Live) (hside : c.config.side = .initiator) :
    Sound
      { c with
        closing := true, discarding := true
        discarded := c.discarded || !c.recv.isEmpty
        consumed := c.consumed + c.recv.length, recv := [], endRequested := true
        forceSend := c.forceSend || !c.endRequested } :=
  { hs with
    inbound := by simpa using hs.inbound.consume le_rfl
    end_sent := fun h => ⟨rfl, (hs.end_sent h).2⟩
    discarding := fun _ => ⟨hside, rfl, rfl, rfl⟩
    discarded := fun _ => rfl
    closing := fun _ _ => rfl
    close_sent := fun h => ⟨(hs.close_sent h).1, rfl⟩
    close_pending := fun h => by
      simp [(hs.close_received (hs.close_pending h).1).1] at hside
    close_admitted := fun x h => by
      have hp : c.closePending ≠ none := by simp_all
      simp [(hs.close_received (hs.close_pending hp).1).1] at hside
    completed := fun h => absurd hl.2 h
    force := fun hsend _ => by
      cases hend : c.endRequested with
      | true => simp [hs.force hsend (.inr hend)]
      | false => simp }

theorem completeClose (hs : c.Sound) {x : Closed} (hl : c.Live) (hclosed : c.closeReceived = true)
    (hend : c.endSent = true) (hrecv : c.recv = []) (hanswered : c.peerFlush = none)
    (hflush : c.flush = none) (hx : x.unreadResponseDiscarded = c.discarded)
    (hadm : c.Admitted (.closed x)) : Sound { c with closePending := some x } :=
  { hs with
    close_pending := fun _ => ⟨hclosed, hend, hrecv, hanswered, hflush⟩
    close_admitted := fun _ h => by
      obtain rfl := Option.some.inj h
      exact ⟨hx, hadm⟩
    failed := fun h => absurd hl.1 h
    completed := fun h => absurd hl.2 h }

/-! Messages handed out -/

theorem sendFlushed (hs : c.Sound) (hl : c.Live) : Sound { c with peerFlush := none } :=
  { hs with
    peer_flush := fun _ h => nomatch h
    close_pending := fun h =>
      let ⟨hclosed, hend, hrecv, _, hflush⟩ := hs.close_pending h
      ⟨hclosed, hend, hrecv, rfl, hflush⟩
    failed := fun h => absurd hl.1 h }

theorem sendWindow (hs : c.Sound)
    (hmore : c.advertisedLimit < satAddInt c.consumed c.config.receiveWindow) :
    Sound { c with advertisedLimit := satAddInt c.consumed c.config.receiveWindow } :=
  { hs with
    inbound := hs.inbound.advertise hmore
      (satAddInt_le_add (by have := hs.inbound.nonneg; omega)) (satAddInt_le_max _ _) }

theorem sendClosed (hs : c.Sound) {x : Closed} (hl : c.Live) (hx : c.closePending = some x) :
    Sound
      { c with
        closePending := none
        completed := some ⟨x.disposition, x.unreadResponseDiscarded, x.facts⟩ } :=
  have hp := hs.close_pending (by simp [hx])
  { hs with
    close_pending := fun h => absurd rfl h
    close_admitted := fun _ h => nomatch h
    failed := fun h => absurd hl.1 h
    completed := fun _ => ⟨hp.2.1, (hs.close_received hp.1).2, hp.2.2.1, rfl⟩ }

theorem sendFlush (hs : c.Sound) {f : PendingFlush} (hl : c.Live) (hf : c.flush = some f)
    (hdrained : c.sent = f.offset) : Sound { c with flush := some { f with sent := true } } :=
  { hs with
    flush_pending := fun g hg => by
      obtain rfl := Option.some.inj hg
      exact hs.flush_pending f hf
    flush_sent := fun _ _ _ => by
      have := (hs.flush_pending f hf).1
      exact List.eq_nil_of_length_eq_zero (show c.send.length = 0 by omega)
    flush_settled := fun h => nomatch h
    end_sent := fun h =>
      let ⟨hreq, hsend, _⟩ := hs.end_sent h
      ⟨hreq, hsend, fun g hg => by obtain rfl := Option.some.inj hg; rfl⟩
    close_pending := fun h => by simp [(hs.close_pending h).2.2.2.2] at hf
    failed := fun h => absurd hl.1 h
    force := fun hsend _ => hs.force hsend (.inl (by simp [hf])) }

theorem credit_eq (hs : c.Sound) : (asUsize (c.peerLimit - c.sent) : ℤ) = c.peerLimit - c.sent := by
  obtain ⟨h0, hsent, -, htop⟩ := hs.outbound
  rw [asUsize_eq (by omega) (by omega)]
  omega

theorem dataCount_le (c : Core) : c.dataCount ≤ c.send.length := by
  unfold Core.dataCount; omega

theorem dataCount_pos (hs : c.Sound) (hsend : c.send ≠ [])
    (hcredit : 0 < asUsize (c.peerLimit - c.sent)) : 0 < c.dataCount := by
  have := hs.payload_pos
  have := List.length_pos_of_ne_nil hsend
  unfold Core.dataCount; omega

theorem sendData (hs : c.Sound) (hl : c.Live) (hsend : c.send ≠ []) : c.pushed.Sound :=
  have hle := dataCount_le c
  have hlen : c.pushed.send.length = c.send.length - c.dataCount := List.length_drop
  have hne : c.pushed.send ≠ [] → c.pushed.batchDeadline = c.batchDeadline ∧
      c.pushed.forceSend = c.forceSend := fun h => ⟨if_neg h, if_neg h⟩
  { hs with
    outbound := hs.outbound.push (by
      have := hs.credit_eq
      have : c.dataCount ≤ asUsize (c.peerLimit - c.sent) := by unfold Core.dataCount; omega
      omega)
    send_le := by rw [hlen]; exact (Nat.sub_le _ _).trans hs.send_le
    send_max := by rw [hlen]; have := hs.send_max; simp only [Core.pushed]; omega
    flush_pending := fun f hf => by
      have := hs.flush_pending f hf
      rw [hlen]; simp only [Core.pushed]; omega
    flush_sent := fun f hf hsent => absurd (hs.flush_sent f hf hsent) hsend
    end_sent := fun h => absurd (hs.end_sent h).2.1 hsend
    failed := fun h => absurd hl.1 h
    force := fun h hwhy => by
      rw [(hne h).2]
      exact hs.force hsend hwhy
    batch := fun h => by
      rw [(hne h).1]
      exact hs.batch hsend }

theorem sendEnd (hs : c.Sound) (hl : c.Live) (hreq : c.endRequested = true) (hsend : c.send = [])
    (hflush : ∀ f, c.flush = some f → f.sent = true ∨ c.sent ≠ f.offset) :
    Sound { c with endSent := true } :=
  { hs with
    end_sent := fun _ => ⟨hreq, hsend, fun f hf => (hflush f hf).resolve_right (by
      have := (hs.flush_pending f hf).1
      simp only [hsend, List.length_nil] at this
      omega)⟩
    close_sent := fun h => ⟨rfl, (hs.close_sent h).2⟩
    close_pending := fun h =>
      let ⟨hclosed, _, hrest⟩ := hs.close_pending h
      ⟨hclosed, rfl, hrest⟩
    completed := fun h => absurd hl.2 h }

theorem sendClose (hs : c.Sound) (hside : c.config.side = .initiator) (hclosing : c.closing = true)
    (hend : c.endSent = true) : Sound { c with closeSent := true } :=
  { hs with close_sent := fun _ => ⟨hend, hs.closing hclosing hside⟩ }

/-! Messages taken -/

theorem takeData (hs : c.Sound) (hl : c.Live) {d : Data} (ha : c.Accepts (.data d)) :
    (c.after (.data d)).Sound := by
  obtain ⟨-, hgot, hoffset, -, -, hlimit, -⟩ := ha
  rw [hoffset] at hlimit
  have hopen : c.closePending = none := by
    by_contra h
    simp [(hs.close_received (hs.close_pending h).1).2] at hgot
  cases hd : c.discarding with
  | true =>
    rw [c.after_data_discarding hd, hoffset]
    have hrecv := (hs.discarding hd).2.1
    exact { hs with
      inbound := by
        have := hs.inbound
        rw [hrecv, List.length_nil] at this ⊢
        exact this.discard hlimit
      discarded := fun _ => hd
      close_admitted := fun x hx => by simp [hopen] at hx }
  | false =>
    rw [c.after_data_keeping hd, hoffset]
    exact { hs with
      inbound := by
        rw [List.length_append]
        exact hs.inbound.accept hlimit
      discarding := fun h => by simp [hd] at h
      close_pending := fun h => absurd hopen h
      completed := fun h => absurd hl.2 h }

theorem takeWindow (hs : c.Sound) {w : Window} (ha : c.Accepts (.window w)) :
    (c.after (.window w)).Sound :=
  { hs with
    outbound := hs.outbound.grant (ha.imp_right fun h =>
      ⟨h.trans (satAddInt_le_add (by have := hs.outbound.nonneg; omega)),
        h.trans (satAddInt_le_max _ _)⟩) }

theorem takeFlush (hs : c.Sound) (hl : c.Live) {b : Barrier} (ha : c.Accepts (.flush b)) :
    (c.after (.flush b)).Sound :=
  have ⟨_, hserial, hoffset, hgot⟩ := ha
  have hpos : 0 < b.barrierId := hs.peer_serial.trans_lt hserial
  { hs with
    peer_serial := hpos.le
    peer_flush := fun b' hb' => by
      obtain rfl := Option.some.inj hb'
      exact ⟨hoffset ▸ hs.inbound.received_nonneg, hpos⟩
    close_pending := fun h => by simp [(hs.close_received (hs.close_pending h).1).2] at hgot
    failed := fun h => absurd hl.1 h }

theorem takeFlushed (hs : c.Sound) (hl : c.Live) {b : Barrier} (ha : c.Accepts (.flushed b)) :
    (c.after (.flushed b)).Sound :=
  have ⟨_, hid, hacked⟩ := hs.flush_pending _ ha
  { hs with
    flush_pending := fun _ h => nomatch h
    flush_sent := fun _ h => nomatch h
    flush_settled := fun _ _ => hid
    acked_nonneg := by
      have := hs.acked_nonneg
      simp only [Core.after] at hid ⊢
      omega
    acked_le := hid.le
    end_sent := fun h =>
      let ⟨hreq, hsend, _⟩ := hs.end_sent h
      ⟨hreq, hsend, fun _ h => nomatch h⟩
    close_pending := fun h =>
      let ⟨hclosed, hend, hrecv, hanswered, _⟩ := hs.close_pending h
      ⟨hclosed, hend, hrecv, hanswered, rfl⟩
    failed := fun h => absurd hl.1 h
    force := fun hsend hwhy => hs.force hsend (.inl (by simp [show c.flush = _ from ha])) }

theorem takeEnd (hs : c.Sound) (hl : c.Live) {e : EndWrite} : (c.after (.endWrite e)).Sound :=
  { hs with
    close_received := fun h => ⟨(hs.close_received h).1, rfl⟩
    completed := fun h => absurd hl.2 h }

theorem takeClose (hs : c.Sound) {x : Close} (ha : c.Accepts (.close x)) :
    (c.after (.close x)).Sound :=
  have ⟨hside, hgot, _⟩ := ha
  { hs with
    discarding := fun h => by simp [(hs.discarding h).1] at hside
    closing := fun _ h => by simp [Core.after, hside] at h
    close_received := fun _ => ⟨hside, hgot⟩
    close_pending := fun h => ⟨rfl, (hs.close_pending h).2⟩ }

theorem takeClosed (hs : c.Sound) (hl : c.Live) {x : Closed} (ha : c.Accepts (.closed x)) :
    (c.after (.closed x)).Sound := by
  obtain ⟨hside, hsent, hgot⟩ := ha
  unfold Core.after
  dsimp only
  split
  · exact hs.fail hl _
  · obtain ⟨hend, hdiscarding⟩ := hs.close_sent hsent
    have hpending : c.closePending = none := by
      by_contra h
      simp [(hs.close_received (hs.close_pending h).1).1] at hside
    exact { hs with
      failed := fun h => absurd hl.1 h
      completed := fun _ => ⟨hend, hgot, (hs.discarding hdiscarding).2.1, hpending⟩ }

theorem take (hs : c.Sound) (hl : c.Live) {b : Body} (ha : c.Accepts b) : (c.after b).Sound := by
  cases b with
  | data d => exact hs.takeData hl ha
  | window w => exact hs.takeWindow ha
  | flush b => exact hs.takeFlush hl ha
  | flushed b => exact hs.takeFlushed hl ha
  | endWrite e => exact hs.takeEnd hl
  | close x => exact hs.takeClose ha
  | closed x => exact hs.takeClosed hl ha
  | cancel x => exact hs.fail hl _
  | failed f => exact hs.fail hl _

/-- **Every move keeps the invariant.** -/
theorem move {e : Event} {c' : Core} (hs : c.Sound) (h : Move c e c') : c'.Sound := by
  cases h with
  | idle => exact hs
  | tick ht => exact hs.tick ht
  | write hl hend hflush _ hn hroom hrange => exact hs.write hl hend hflush hn hroom hrange
  | overflow hl => exact hs.failSelf hl _
  | read hk => exact hs.read (by rw [hk]; exact Nat.min_le_right _ _)
  | flush hl hflush hend => exact hs.flush hl hflush hend
  | reflush => exact hs
  | flushOverflow _ hrange =>
    have h0 := hs.outbound.nonneg
    rw [checkedAdd_of_le (by omega) hs.send_max] at hrange
    cases hrange
  | endWrite => exact hs.endWrite
  | startClose hl hside => exact hs.startClose hl hside
  | completeClose _ hl _ hclosed hend _ hrecv hanswered hflush _ hx hadm =>
    exact hs.completeClose hl hclosed hend hrecv hanswered hflush hx hadm
  | fail _ hl ht => exact (hs.tick ht).failSelf hl _
  | failTerminal hl _ hadm => exact hs.failWith hl _ (.inr ⟨_, rfl, hadm⟩)
  | disconnect hl => exact (hs.fail hl _).tell_none
  | hangUp => exact hs.tell_none
  | sendTerminal => exact hs.tell_none
  | sendFlushed hl => exact hs.sendFlushed hl
  | sendWindow _ hmore => exact hs.sendWindow hmore
  | sendClosed hl hx => exact hs.sendClosed hl hx
  | sendFlush hl hf _ hdrained => exact hs.sendFlush hl hf hdrained
  | sendData hl hsend => exact hs.sendData hl hsend
  | sendEnd hl hreq _ hsend hflush => exact hs.sendEnd hl hreq hsend hflush
  | sendClose _ hside hclosing hend => exact hs.sendClose hside hclosing hend
  | ignore => exact hs
  | expire hl => exact hs.failSelf hl _
  | refuse hl => exact hs.failSelf hl _
  | take hl good => exact hs.take hl good.accepts

end Sound

end Core

theorem StreamMachine.new_eq_ok {k : Config} {m : StreamMachine}
    (h : StreamMachine.new k = .ok m) : k.validate = .ok () ∧ m = .initial k := by
  unfold StreamMachine.new at h
  split at h
  · cases h
  next hk => exact ⟨hk, (Except.ok.inj h).symm⟩

theorem StreamMachine.new_of_validate {k : Config} (h : k.validate = .ok ()) :
    StreamMachine.new k = .ok (.initial k) := by
  unfold StreamMachine.new
  rw [h]

/-- Every machine reached from a valid configuration is sound. -/
theorem sound_of_run {k : Config} {tr : List Event} {m₀ m : StreamMachine}
    (h₀ : StreamMachine.new k = .ok m₀) (h : Run Step m₀ tr m) : m.core.Sound := by
  obtain ⟨hk, rfl⟩ := StreamMachine.new_eq_ok h₀
  exact h.invariant (P := fun _ m => m.core.Sound)
    (Core.sound_initial (Config.ranged_of_validate hk))
    fun _ _ _ _ _ hs hstep => hs.move hstep.move

/-! ### Credit -/

/-- **Credit is kept on both sides of a machine whatever happens to it.**  The buffers stay within
their bounds, the credit of `next_message` is the difference it stands for, and data that passes
the offset checks of `accept` also passes its check of the buffer. -/
theorem credit_bounds {k : Config} {tr : List Event} {m₀ m : StreamMachine}
    (h₀ : StreamMachine.new k = .ok m₀) (h : Run Step m₀ tr m) :
    m.config = k ∧
    (m.consumed + m.recv.length = m.received ∧ m.received ≤ m.advertisedLimit ∧
      m.advertisedLimit ≤ m.consumed + k.receiveWindow) ∧
    (m.sent ≤ m.peerLimit ∧ m.peerLimit ≤ m.sent + k.peerReceiveWindow) ∧
    m.recv.length ≤ k.receiveWindow ∧ m.send.length ≤ k.sendBuffer ∧
    (0 ≤ m.peerLimit - m.sent ∧ (m.credit : ℤ) = m.peerLimit - m.sent) ∧
    ∀ (d : Data) (finish : ℤ), checkedAdd d.offset d.payload.length = some finish →
      d.offset = m.received → finish ≤ m.advertisedLimit →
      ¬ m.recv.length + d.payload.length > k.receiveWindow := by
  have hs := sound_of_run h₀ h
  obtain ⟨-, rfl⟩ := StreamMachine.new_eq_ok h₀
  obtain rfl : m.config = k := config_of_run h
  have hcredit : (m.credit : ℤ) = m.peerLimit - m.sent := hs.credit_eq
  refine ⟨rfl, ⟨hs.inbound.balance, hs.inbound.received_le, hs.inbound.limit_le⟩,
    ⟨hs.outbound.sent_le, hs.outbound.limit_le⟩, hs.inbound.buffered_le, hs.send_le,
    ⟨by omega, hcredit⟩, fun d finish hfinish hoffset hlimit => ?_⟩
  obtain ⟨rfl, -, -⟩ := checkedAdd_eq_some hfinish
  rw [hoffset] at hlimit
  exact not_lt.2 (hs.inbound.room hlimit)

/-- The bounds after a write, a message out and a delivery. -/
theorem credit_bounds_short_run :
    let ops : List Op := [.call (.write [1, 2, 3]), .call (.advance 100), .nextMessage,
      .receive ((Config.small .endpoint).seal (.data ⟨0, [7, 8]⟩)), .call (.read 1)]
    let m := ((StreamMachine.initial (Config.small .endpoint)).exec ops).1
    (m.sent = 3 ∧ m.received = 2 ∧ m.recv = [8]) ∧
      m.received ≤ m.advertisedLimit ∧ m.advertisedLimit ≤ m.consumed + 8 :=
  ⟨by decide +kernel, (credit_bounds (k := Config.small .endpoint) rfl
    (StreamMachine.run_exec _ _)).2.1.2⟩

end GwzTransport.Stream
