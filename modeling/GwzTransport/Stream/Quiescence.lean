import GwzTransport.Stream.Honest

/-!
# Quiescent streams

When both channels are empty and neither side has anything to send, only unread data can be what
holds the stream back.  `Quiet` is what `nextMessage` found when it handed out nothing; the links
of an idle pair are equations between the two machines; and a byte that was accepted long enough
ago, or that its host has asked for since, is eligible for sending until it is sent (`Pressed`).
-/

namespace GwzTransport.Stream

open Protocol MachineInt Transition

/-- A live machine that has nothing to send. -/
structure Quiet (m : StreamMachine) : Prop where
  unanswered : ∀ b, m.peerFlush = some b → ¬ b.offset ≤ m.core.sinkOffset
  advertised : satAddInt m.consumed m.config.receiveWindow ≤ m.advertisedLimit
  flushing : ∀ f, m.flush = some f → f.sent = true ∨ m.sent ≠ f.offset
  sending : m.send ≠ [] → m.eligible = true → m.credit = 0
  ending : m.endRequested = true → m.endSent = false → m.send ≠ []

variable {m : StreamMachine}

theorem quiet_of_nextData (h : m.nextData.2 = none) :
    (m.send ≠ [] → m.eligible = true → m.credit = 0) ∧
      (m.endRequested = true → m.endSent = false → m.send ≠ []) := by
  unfold StreamMachine.nextData at h
  split_ifs at h with hdata hend hclose
  simp only [Bool.and_eq_true, Bool.not_eq_true', List.isEmpty_eq_false_iff, decide_eq_true_eq,
    not_and, not_lt, nonpos_iff_eq_zero, List.isEmpty_iff] at hdata hend
  exact ⟨fun hsend heligible => hdata ⟨hsend, heligible⟩, fun hreq hsent => hend ⟨hreq, hsent⟩⟩

theorem quiet_of_nextControl (h : m.nextControl.2 = none) :
    satAddInt m.consumed m.config.receiveWindow ≤ m.advertisedLimit ∧
      (∀ f, m.flush = some f → f.sent = true ∨ m.sent ≠ f.offset) ∧ m.nextData.2 = none := by
  unfold StreamMachine.nextControl at h
  dsimp only at h
  split at h
  · cases h
  next hlimit =>
    refine ⟨not_lt.1 hlimit, ?_⟩
    split at h
    · cases h
    next =>
      split at h
      next hflush => exact ⟨fun f hf => (nomatch hflush.symm.trans hf), h⟩
      next f hflush =>
        split_ifs at h with hsend
        refine ⟨fun f' hf' => ?_, h⟩
        obtain rfl := Option.some.inj (hflush.symm.trans hf')
        simp only [Bool.and_eq_true, Bool.not_eq_true', beq_iff_eq, not_and] at hsend
        cases hs : f.sent with
        | true => exact .inl rfl
        | false => exact .inr (hsend hs)

theorem quiet_of_nextMessage (hl : m.core.Live) (h : m.nextMessage.2 = none) :
    Quiet m := by
  unfold StreamMachine.nextMessage at h
  split at h
  · cases h
  next =>
    have hover : ¬ (m.error.isSome || m.completed.isSome) = true :=
      fun hover => m.not_live_of_over hover hl
    rw [if_neg hover] at h
    have rest : m.nextControl.2 = none →
        (∀ b, m.peerFlush = some b → ¬ b.offset ≤ m.core.sinkOffset) → Quiet m := by
      intro hcontrol hunanswered
      obtain ⟨hlimit, hflush, hdata⟩ := quiet_of_nextControl hcontrol
      obtain ⟨hsend, hend⟩ := quiet_of_nextData hdata
      exact ⟨hunanswered, hlimit, hflush, hsend, hend⟩
    split at h
    next hpeer => exact rest h fun b hb => nomatch hpeer.symm.trans hb
    next b hpeer =>
      split_ifs at h with hreached
      refine rest h fun b' hb' => ?_
      obtain rfl := Option.some.inj (hpeer.symm.trans hb')
      exact hreached

/-! ### Bytes that press to be sent -/

/-- The byte before offset `n` is sent, or what makes it eligible still holds. -/
def Pressed (n : ℤ) (P : Core → Prop) (c : Core) : Prop := ¬ c.Live ∨ n ≤ c.sent ∨ P c

/-- Whether data is sent at once. -/
def Forced (c : Core) : Prop := c.forceSend = true

/-- Whether the batch is due at the time `t`. -/
def DueBy (t : ℕ) (c : Core) : Prop := ∃ d, c.batchDeadline = some d ∧ d ≤ t

/-- A reason to send that lasts until the buffer was empty. -/
def Lasting (P : Core → Prop) : Prop :=
  ∀ c e c', Move c e c' → c'.Live → P c → c.send = [] ∨ c'.send = [] ∨ P c'

theorem forced_lasting : Lasting Forced := by
  intro c e c' h hl hP
  have hP : c.forceSend = true := hP
  unfold Forced
  cases h with
  | read => right; right; simp [Core.read, hP]
  | flush => exact .inr (.inr rfl)
  | endWrite => exact .inr (.inr rfl)
  | startClose => right; right; simp [hP]
  | sendData =>
    by_cases hdrop : c.send.drop c.dataCount = []
    · exact .inr (.inl hdrop)
    · right; right; simp [Core.pushed, hdrop, hP]
  | @take _ b =>
    right; right
    cases b with
    | closed x => exact absurd hl (Core.not_live_after_closed _ _)
    | _ => exact hP
  | _ => exact .inr (.inr hP)

theorem dueBy_lasting (t : ℕ) : Lasting (DueBy t) := by
  rintro c e c' h hl ⟨d, hd, hle⟩
  have kept : c'.batchDeadline = c.batchDeadline → c.send = [] ∨ c'.send = [] ∨ DueBy t c' :=
    fun h => .inr (.inr ⟨d, h.trans hd, hle⟩)
  cases h with
  | write =>
    by_cases hsend : c.send = []
    · exact .inl hsend
    · exact kept (if_neg hsend)
  | sendData =>
    by_cases hdrop : c.send.drop c.dataCount = []
    · exact .inr (.inl hdrop)
    · exact kept (if_neg hdrop)
  | overflow | fail | failTerminal | disconnect | expire | refuse =>
    exact absurd hl (Core.not_live_failed _ _)
  | @take _ b =>
    cases b with
    | closed x => exact absurd hl (Core.not_live_after_closed _ _)
    | cancel x => exact absurd hl (Core.not_live_failed _ _)
    | failed f => exact absurd hl (Core.not_live_failed _ _)
    | _ => exact kept rfl
  | _ => exact kept rfl

/-- While a byte is not sent, a lasting reason to send it stays. -/
theorem pressed_of_run {k : Config} {tr tr' : List Event} {m₀ m' : StreamMachine} {n : ℤ}
    {P : Core → Prop} (hP : Lasting P) (h₀ : StreamMachine.new k = .ok m₀) (h : Run Step m₀ tr m)
    (hn : n ≤ (tr.flatMap Event.accepted).length) (hm : Pressed n P m.core)
    (h' : Run Step m tr' m') : Pressed n P m'.core := by
  refine h'.invariant (P := fun _ m' => Pressed n P m'.core) hm
    fun tr' m₁ e m₂ hr hm₁ hstep => ?_
  -- an empty buffer means that all accepted bytes were sent
  have drained : ∀ {tr₁ m₁}, Run Step m₀ (tr ++ tr₁) m₁ → m₁.core.Live → m₁.core.send = [] →
      n ≤ m₁.core.sent := fun {tr₁ m₁} hr hl hsend => by
    have hacc := (outputs_of_run h₀ hr).accepted hl.1
    rw [hsend] at hacc
    simp only [List.flatMap_append, List.length_append, List.length_nil] at hacc
    push_cast at hacc
    omega
  have hr₁ := h.append hr
  by_cases hl : m₂.core.Live
  · have hl₁ := hstep.move.live hl
    obtain hdead | hsent | hP₁ := hm₁
    · exact absurd hl₁ hdead
    · exact .inr (.inl (hsent.trans hstep.move.sent_le))
    · obtain hempty | hempty | hP₂ := hP _ _ _ hstep.move hl hP₁
      · exact .inr (.inl ((drained hr₁ hl₁ hempty).trans hstep.move.sent_le))
      · have hr₂ : Run Step m₀ (tr ++ (tr' ++ [e])) m₂ := by
          rw [← List.append_assoc]
          exact hr₁.snoc hstep
        exact .inr (.inl (drained hr₂ hl hempty))
      · exact .inr (.inr hP₂)
  · exact .inl hl

/-- The calls that make buffered data eligible at once.  A flush counts unless its serial number
is exhausted. -/
def Event.Nudges : Event → Prop
  | (.call .startFlush, o) => o ≠ .ticket (.error .protocol)
  | (.call .endWrite, _) => True
  | (.call (.read n), _) => 0 < n
  | _ => False

theorem startFlush_cases (hl : m.core.Live) :
    m.startFlush.2 = .error .protocol ∨ (m.endSent = true ∧ m.startFlush.1 = m) ∨
      m.startFlush.1.flush ≠ none := by
  unfold StreamMachine.startFlush
  rw [m.live_eq_ok.2 hl]
  dsimp only
  split
  next f hf => exact .inr (.inr (by simp [hf]))
  next =>
    split_ifs with hend
    · exact .inr (.inl ⟨hend, rfl⟩)
    · split
      · exact .inl rfl
      · split
        · exact .inl rfl
        · exact .inr (.inr (Option.some_ne_none _))

theorem forceSend_of_read {n : ℕ} (hn : 0 < n) :
    (m.read n).1.forceSend = (m.forceSend || !m.send.isEmpty) ∧ (m.read n).1.send = m.send := by
  have hnudge : m.nudge.forceSend = (m.forceSend || !m.send.isEmpty) ∧ m.nudge.send = m.send :=
    ⟨congrArg Core.forceSend m.core_nudge, congrArg Core.send m.core_nudge⟩
  rw [StreamMachine.read, if_neg hn.ne']
  by_cases hrecv : m.nudge.recv = []
  · rwa [(m.nudge.readSome_of_nil hrecv n).1]
  · have hcore := (m.nudge.readSome_of_ne_nil hrecv n).1
    exact ⟨(congrArg Core.forceSend hcore).trans hnudge.1,
      (congrArg Core.send hcore).trans hnudge.2⟩

/-- A nudge presses all bytes accepted before it. -/
theorem pressed_of_nudge {k : Config} {tr : List Event} {m₀ m' : StreamMachine} {e : Event}
    {n : ℤ} (h₀ : StreamMachine.new k = .ok m₀) (h : Run Step m₀ tr m)
    (hn : n ≤ (tr.flatMap Event.accepted).length) (hstep : Step m e m') (he : e.Nudges) :
    Pressed n Forced m'.core := by
  by_cases hl' : m'.core.Live
  swap
  · exact .inl hl'
  right
  have hl := hstep.move.live hl'
  have hs' : m'.core.Sound := sound_of_run h₀ (h.snoc hstep)
  by_cases hsend : m'.core.send = []
  · left
    have hacc := (outputs_of_run h₀ (h.snoc hstep)).accepted hl'.1
    rw [hsend] at hacc
    simp only [List.flatMap_append, List.length_append, List.length_nil] at hacc
    push_cast at hacc
    omega
  · right
    obtain ⟨op, o⟩ := e
    have hm' : (m.step op).1 = m' := by rw [show m.step op = (m', o) from hstep]
    have ho : (m.step op).2 = o := by rw [show m.step op = (m', o) from hstep]
    cases op with
    | receive message => exact he.elim
    | nextMessage => exact he.elim
    | call c =>
      cases c with
      | startFlush =>
        have hm' : m.startFlush.1 = m' := hm'
        obtain hrefused | ⟨hend, hsame⟩ | hflush := startFlush_cases hl
        · exact absurd (ho.symm.trans (congrArg Outcome.ticket hrefused)) he
        · have hend' : m'.core.endSent = true := by rw [← hm', hsame]; exact hend
          exact absurd (hs'.end_sent hend').2.1 hsend
        · exact hs'.force hsend (.inl (by rw [← hm']; exact hflush))
      | endWrite =>
        have hm' : m.endWrite.1 = m' := hm'
        refine hs'.force hsend (.inr ?_)
        rw [← hm', (m.endWrite_of_live hl).2]
      | read n =>
        have hm' : (m.read n).1 = m' := hm'
        obtain ⟨hforce, hsame⟩ := forceSend_of_read (m := m) he
        rw [hm'] at hforce hsame
        have hne : m.send ≠ [] := fun h => hsend (hsame.trans h)
        rw [Forced, show m'.core.forceSend = _ from hforce]
        simp [hne]
      | _ => exact he.elim

namespace Pair

variable {k : Side → Config} {p p₁ : Pair} {s : Side} {tr tr₁ tr₂ : List (Side × Event)}

/-- Nothing is under way, nothing is to be sent and neither side has ended. -/
structure Quiescent (p : Pair) : Prop where
  empty : ∀ s, p.channel s = []
  silent : ∀ s, (p.machine s).nextMessage.2 = none
  live : ∀ s, (p.machine s).error = none ∧ (p.machine s).completed = none

/-- In a quiescent pair each side knows all that the other has said. -/
theorem idle_link (hk : Matched k) (h : Run Step (initial k) tr p) (hq : Quiescent p) (s : Side) :
    (p.machine s.peer).received = (p.machine s).sent ∧
      (p.machine s.peer).peerLimit = (p.machine s).advertisedLimit ∧
      (p.machine s.peer).peerFlush.toList = (inFlight (p.machine s).flush).toList := by
  have hbodies : ∀ s, p.bodies s = [] := fun s => by simp [bodies, hq.empty s]
  have hlink := linked hk h s
  rw [Linked, hbodies, hbodies] at hlink
  obtain ⟨v, hrun, hv⟩ := hlink.flow (hq.live s.peer)
  obtain rfl := hrun.eq_of_nil
  have htokens := hlink.tokens (hq.live s) (hq.live s.peer)
  exact ⟨hv.offset, hv.limit, by simpa [StreamMachine.core] using htokens⟩

/-- In a quiescent pair, data that is eligible but not sent waits for the reader's full buffer. -/
theorem full_of_starved (hk : Matched k) (h : Run Step (initial k) tr p) (hq : Quiescent p)
    (hsend : (p.machine s).send ≠ []) (heligible : (p.machine s).eligible = true) :
    (p.machine s.peer).discarding = false ∧
      (p.machine s.peer).recv.length = (k s.peer).receiveWindow := by
  have hs := sound hk h s
  have hr := sound hk h s.peer
  have hconfig : (p.machine s.peer).config = k s.peer := config_eq h s.peer
  have hcredit : (0 : ℤ) = (p.machine s).peerLimit - (p.machine s).sent := by
    have hzero := (quiet_of_nextMessage (hq.live s) (hq.silent s)).sending hsend heligible
    rw [← Nat.cast_zero, ← hzero]
    exact hs.credit_eq
  have hadvertised := (quiet_of_nextMessage (hq.live s.peer) (hq.silent s.peer)).advertised
  obtain ⟨hreceived, -, -⟩ := idle_link hk h hq s
  have hlimit : (p.machine s).peerLimit = (p.machine s.peer).advertisedLimit := by
    have := (idle_link hk h hq s.peer).2.1
    rwa [Side.peer_peer] at this
  have hnonneg : 0 ≤ (p.machine s.peer).consumed := hr.inbound.nonneg
  have hbalance : (p.machine s.peer).consumed + (p.machine s.peer).recv.length =
      (p.machine s.peer).received := hr.inbound.balance
  have hle : (p.machine s.peer).recv.length ≤ (p.machine s.peer).config.receiveWindow :=
    hr.inbound.buffered_le
  have hmax : (p.machine s).sent + (p.machine s).send.length ≤ i64Max := hs.send_max
  have hpos := List.length_pos_of_ne_nil hsend
  -- the limit is not clipped: there is room for at least one more offset
  rw [satAddInt_eq (by omega)] at hadvertised
  have hfull : (p.machine s.peer).recv.length = (k s.peer).receiveWindow := by
    rw [← hconfig]
    omega
  refine ⟨?_, hfull⟩
  by_contra hd
  have hnil : (p.machine s.peer).recv = [] :=
    (hr.discarding (by simpa [StreamMachine.core] using hd)).2.1
  have := (Config.ranged_of_validate (hk.valid s.peer)).window_pos
  simp only [hnil, List.length_nil] at hfull
  omega

theorem eligible_of_forced (h : Forced m.core) : m.eligible = true := by
  have h : m.forceSend = true := h
  simp [StreamMachine.eligible, h]

theorem eligible_of_dueBy {t : ℕ} (h : DueBy t m.core) (ht : t ≤ m.now) :
    m.eligible = true := by
  obtain ⟨d, hd, hle⟩ := h
  have hd : m.batchDeadline = some d := hd
  simp [StreamMachine.eligible, hd, hle.trans ht]

/-- A byte that was accepted a batch delay ago, or nudged since, is eligible as long as it is not
sent. -/
theorem eligible_of_waiting (hk : Matched k) (h₁ : Run Step (initial k) tr₁ p₁)
    (h₂ : Run Step p₁ tr₂ p) (hl : (p.machine s).core.Live)
    (hunsent : (p.machine s).sent < (accepted s tr₁).length)
    (hwhy : (p₁.machine s).now + (k s).coalesceDelayMs ≤ (p.machine s).now ∨
      ∃ e ∈ history s tr₂, e.Nudges) :
    (p.machine s).send ≠ [] ∧ (p.machine s).eligible = true := by
  have h₀ := StreamMachine.new_of_validate (hk.valid s)
  have hr₁ : Run Stream.Step (.initial (k s)) (history s tr₁) (p₁.machine s) := run_machine h₁ s
  have hr₂ := run_machine h₂ s
  constructor
  · intro hsend
    have hacc := (outputs hk (h₁.append h₂) s).accepted hl.1
    rw [show (p.machine s).core.send = [] from hsend] at hacc
    simp only [accepted, history_append, List.flatMap_append, List.length_append,
      List.length_nil] at hacc hunsent
    push_cast at hacc
    simp only [StreamMachine.core] at hacc
    omega
  have settle : ∀ {P}, Pressed (accepted s tr₁).length P (p.machine s).core →
      P (p.machine s).core := fun h => by
    obtain hdead | hsent | hP := h
    · exact absurd hl hdead
    · exact absurd hsent (not_le.2 hunsent)
    · exact hP
  obtain htime | ⟨e, he, hnudge⟩ := hwhy
  · have hdue : Pressed (accepted s tr₁).length (DueBy ((p₁.machine s).now + (k s).coalesceDelayMs))
        (p₁.machine s).core := by
      by_cases hsend : (p₁.machine s).core.send = []
      · by_cases hl₁ : (p₁.machine s).core.Live
        · have hacc := (outputs hk h₁ s).accepted hl₁.1
          rw [hsend] at hacc
          exact .inr (.inl (by simpa using hacc.le))
        · exact .inl hl₁
      · obtain ⟨d, hd, hle⟩ := (sound hk h₁ s).batch hsend
        rw [show (p₁.machine s).core.config = k s from config_eq h₁ s] at hle
        exact .inr (.inr ⟨d, hd, hle.trans (satAdd_le_add _ _)⟩)
    exact eligible_of_dueBy (settle (pressed_of_run (dueBy_lasting _) h₀ hr₁ le_rfl hdue hr₂)) htime
  · obtain ⟨xs, ys, hsplit⟩ := List.append_of_mem he
    rw [hsplit] at hr₂
    obtain ⟨m₁, hx, hy⟩ := hr₂.split
    obtain ⟨m₂, hstep, hy⟩ := hy.uncons
    have hr := hr₁.append hx
    have hn : ∀ zs, ((accepted s tr₁).length : ℤ) ≤
        ((history s tr₁ ++ zs).flatMap Event.accepted).length := fun zs => by
      rw [List.flatMap_append, List.length_append, accepted]
      omega
    have hforced := pressed_of_nudge h₀ hr (hn xs) hstep hnudge
    have hr := hr.snoc hstep
    rw [List.append_assoc] at hr
    exact eligible_of_forced (settle (pressed_of_run forced_lasting h₀ hr (hn _) hforced hy))

/-- In a quiescent pair a pending flush waits for bytes that the reader has not read. -/
theorem unread_of_flush (hk : Matched k) (h : Run Step (initial k) tr p) (hq : Quiescent p)
    (hflush : (p.machine s).flush ≠ none) : (p.machine s.peer).recv ≠ [] := by
  obtain ⟨f, hf⟩ := Option.ne_none_iff_exists'.1 hflush
  have hs := sound hk h s
  have hquiet := quiet_of_nextMessage (hq.live s) (hq.silent s)
  have hoffset : f.offset = (p.machine s).sent + (p.machine s).send.length :=
    (hs.flush_pending f hf).1
  cases hsent : f.sent with
  | true =>
    -- the barrier has reached the peer, which would answer it had it read everything
    intro hrecv
    have hsend : (p.machine s).send = [] := hs.flush_sent f hf hsent
    obtain ⟨hreceived, -, htokens⟩ := idle_link hk h hq s
    have hpeer : (p.machine s.peer).peerFlush = some ⟨f.id, f.offset⟩ := by
      simpa [inFlight, hf, hsent, Option.toList_eq_singleton_iff] using htokens
    refine (quiet_of_nextMessage (hq.live s.peer) (hq.silent s.peer)).unanswered _ hpeer ?_
    have hbalance : (p.machine s.peer).consumed + (p.machine s.peer).recv.length =
        (p.machine s.peer).received := (sound hk h s.peer).inbound.balance
    rw [hsend] at hoffset
    rw [hrecv] at hbalance
    simp only [List.length_nil, Nat.cast_zero, add_zero] at hoffset hbalance
    simp only [Core.sinkOffset, StreamMachine.core, hbalance, ite_self, hreceived, hoffset, le_refl]
  | false =>
    have hsend : (p.machine s).send ≠ [] := by
      intro hsend
      obtain h | h := hquiet.flushing f hf
      · exact absurd h (by simp [hsent])
      · exact h (by simp [hoffset, hsend])
    have hforced : Forced (p.machine s).core := hs.force hsend (.inl hflush)
    have hfull := (full_of_starved hk h hq hsend (eligible_of_forced hforced)).2
    have hpos := (Config.ranged_of_validate (hk.valid s.peer)).window_pos
    exact List.ne_nil_of_length_pos (by omega)

/-- **Only unread data holds a quiescent stream back.**  In a quiescent pair, bytes of the side `s`
that were accepted in the run `tr₁` and are still unsent, though the batch delay has passed since
or the side was nudged, find the peer's buffer full; a flush without its answer finds it not empty;
and a half-close that was not sent finds it full. -/
theorem no_lost_credit (hk : Matched k) (h : Run Step (initial k) tr p) (hq : Quiescent p)
    (s : Side) :
    (∀ tr₁ p₁ tr₂, Run Step (initial k) tr₁ p₁ → Run Step p₁ tr₂ p →
      (p.machine s).sent < (accepted s tr₁).length →
      ((p₁.machine s).now + (k s).coalesceDelayMs ≤ (p.machine s).now ∨
        ∃ e ∈ history s tr₂, e.Nudges) →
      (p.machine s.peer).discarding = false ∧
        (p.machine s.peer).recv.length = (k s.peer).receiveWindow) ∧
    ((p.machine s).flush ≠ none → (p.machine s.peer).recv ≠ []) ∧
    ((p.machine s).endRequested = true → (p.machine s).endSent = false →
      (p.machine s.peer).recv.length = (k s.peer).receiveWindow) := by
  refine ⟨fun tr₁ p₁ tr₂ h₁ h₂ hunsent hwhy => ?_, unread_of_flush hk h hq, fun hreq hend => ?_⟩
  · obtain ⟨hsend, heligible⟩ := eligible_of_waiting hk h₁ h₂ (hq.live s) hunsent hwhy
    exact full_of_starved hk h hq hsend heligible
  · have hsend := (quiet_of_nextMessage (hq.live s) (hq.silent s)).ending hreq hend
    have hforced : Forced (p.machine s).core := (sound hk h s).force hsend (.inr hreq)
    exact (full_of_starved hk h hq hsend (eligible_of_forced hforced)).2

/-- The endpoint has read nothing of a full window, and the ninth byte waits. -/
theorem no_lost_credit_short_run :
    let r₁ := (initial Config.small).exec
      [(.initiator, .call (.write [1, 2, 3, 4, 5, 6, 7, 8])), (.initiator, .call (.read 1)),
        (.initiator, .nextMessage), (.initiator, .nextMessage), (.endpoint, .deliver),
        (.endpoint, .deliver), (.initiator, .call (.write [9]))]
    let r₂ := r₁.1.exec [(.initiator, .call (.read 1)), (.initiator, .call .endWrite)]
    (r₂.1.machine .initiator).sent < (accepted .initiator r₁.2).length ∧
      (r₂.1.machine .endpoint).recv.length = 8 := by
  intro r₁ r₂
  have h₁ : Run Step (initial Config.small) r₁.2 r₁.1 := run_exec _ _
  have h₂ : Run Step r₁.1 r₂.2 r₂.1 := run_exec _ _
  have hq : Quiescent r₂.1 :=
    ⟨fun s => by cases s <;> decide +kernel, fun s => by cases s <;> decide +kernel,
      fun s => by cases s <;> decide +kernel⟩
  have hunsent : (r₂.1.machine .initiator).sent < (accepted .initiator r₁.2).length := by
    decide +kernel
  have hnudge : ∃ e ∈ history .initiator r₂.2, e.Nudges :=
    ⟨(.call .endWrite, .done (.ok ())), .tail _ (.head _), trivial⟩
  have hcredit := no_lost_credit matched_small (h₁.append h₂) hq .initiator
  exact ⟨hunsent, (hcredit.1 _ _ _ h₁ h₂ hunsent (.inr hnudge)).2⟩

/-! ### Exhausted flush numbers -/

/-- The pair of the machines `a` and `b` with `c` and `d` on their way. -/
def of (a b : StreamMachine) (c d : List Envelope) : Pair where
  machine
    | .initiator => a
    | .endpoint => b
  channel
    | .initiator => c
    | .endpoint => d

/-- An initiator that has done nothing but `n` flushes. -/
def flusher (n : ℤ) (force : Bool) (revision : ℕ) : StreamMachine :=
  { StreamMachine.initial (Config.small .initiator) with
    flushSerial := n, flushAcked := n, forceSend := force, revision := revision }

/-- An endpoint that has answered `n` flushes. -/
def answerer (n : ℤ) (revision : ℕ) : StreamMachine :=
  { StreamMachine.initial (Config.small .endpoint) with
    peerFlushSerial := n, revision := revision }

theorem accept_small {s : Side} (hm : m.config = Config.small s) {b : Body}
    (hb : b.Plain (Config.small s)) :
    m.accept ((Config.small s).seal b) = m.acceptBody ((Config.small s).seal b) := by
  have hadmitted := admitted_of_plain (Config.usable_of_validate (Config.small_validate s)) hb
  unfold StreamMachine.accept
  rw [if_neg (by rw [hm]; cases b <;> simp [Config.seal, Config.envelope]), hm,
    show (Config.small s).receiveLimits = (Config.small s).peerLimits from rfl, hadmitted]

theorem receive_small {m' : StreamMachine} {s : Side} (hm : m.config = Config.small s)
    (hover : (m.error.isSome || m.completed.isSome) = false) (hexpired : m.expired = false)
    {b : Body} (hb : b.Plain (Config.small s))
    (h : m.acceptBody ((Config.small s).seal b) = .ok m') :
    Stream.Step m (.receive ((Config.small s).seal b), .done (.ok ())) m' := by
  simp [Stream.Step, StreamMachine.step, StreamMachine.receive, StreamMachine.expireIoIfDue, hover,
    hexpired, accept_small hm hb, h]

/-- One flush is started, asked for, answered and acknowledged. -/
theorem flush_round {n : ℤ} (h0 : 0 ≤ n) (hn : n < i64Max) (force : Bool) (r r' : ℕ) : ∃ tr,
    Run Step (of (flusher n force r) (answerer n r') [] []) tr
      (of (flusher (n + 1) true (flusher n force r).touch.touch.touch.revision)
        (answerer (n + 1) (answerer n r').touch.touch.revision) [] []) := by
  let a₁ : StreamMachine := .touch { flusher n force r with
    flushSerial := n + 1, flush := some ⟨n + 1, 0, false⟩, forceSend := true }
  let a₂ : StreamMachine := .touch { a₁ with flush := some ⟨n + 1, 0, true⟩ }
  let a₃ : StreamMachine := .touch { a₂ with flushAcked := n + 1, flush := none }
  let b₁ : StreamMachine := .touch { answerer n r' with
    peerFlushSerial := n + 1, peerFlush := some ⟨n + 1, 0⟩ }
  let b₂ : StreamMachine := .touch { b₁ with peerFlush := none }
  let ask : Envelope := (Config.small .initiator).seal (.flush ⟨n + 1, 0⟩)
  let answer : Envelope := (Config.small .endpoint).seal (.flushed ⟨n + 1, 0⟩)
  have hserial : checkedAdd n 1 = some (n + 1) := checkedAdd_of_le (by omega) (by omega)
  have hstart : (flusher n force r).startFlush = (a₁, .ok ⟨n + 1⟩) := by
    unfold StreamMachine.startFlush
    rw [(flusher n force r).live_eq_ok.2 ⟨rfl, rfl⟩, show (flusher n force r).flush = none from rfl,
      show (flusher n force r).flushSerial = n from rfl, hserial]
    rfl
  have h₁ : Step (of (flusher n force r) (answerer n r') [] [])
      (.initiator, (.call .startFlush, .ticket (.ok ⟨n + 1⟩))) (of a₁ (answerer n r') [] []) := by
    refine ⟨?_, rfl, rfl, rfl⟩
    show ((flusher n force r).startFlush.1, Outcome.ticket (flusher n force r).startFlush.2) = _
    rw [hstart]
    rfl
  have h₂ : Step (of a₁ (answerer n r') [] []) (.initiator, (.nextMessage, .message (some ask)))
      (of a₂ (answerer n r') [ask] []) :=
    ⟨rfl, rfl, rfl, rfl⟩
  have h₃ : Step (of a₂ (answerer n r') [ask] []) (.endpoint, (.receive ask, .done (.ok ())))
      (of a₂ b₁ [] []) := by
    have hplain : (Body.flush ⟨n + 1, 0⟩).Plain (Config.small .endpoint) :=
      ⟨le_rfl, show 0 < n + 1 by omega⟩
    have hflush : (answerer n r').acceptFlush ⟨n + 1, 0⟩ = .ok { answerer n r' with
        peerFlushSerial := n + 1, peerFlush := some ⟨n + 1, 0⟩ } :=
      if_neg (by simp [answerer, StreamMachine.initial])
    have haccept : (answerer n r').acceptBody ask = .ok b₁ :=
      congrArg (Except.map StreamMachine.touch) hflush
    exact ⟨receive_small (s := .endpoint) rfl rfl rfl hplain haccept, rfl, rfl, rfl⟩
  have h₄ : Step (of a₂ b₁ [] []) (.endpoint, (.nextMessage, .message (some answer)))
      (of a₂ b₂ [] [answer]) :=
    ⟨rfl, rfl, rfl, rfl⟩
  have h₅ : Step (of a₂ b₂ [] [answer]) (.initiator, (.receive answer, .done (.ok ())))
      (of a₃ b₂ [] []) := by
    have hplain : (Body.flushed ⟨n + 1, 0⟩).Plain (Config.small .initiator) :=
      ⟨le_rfl, show 0 < n + 1 by omega⟩
    have hflushed : a₂.acceptFlushed ⟨n + 1, 0⟩ =
        .ok { a₂ with flushAcked := n + 1, flush := none } :=
      if_neg (by simp)
    have haccept : a₂.acceptBody answer = .ok a₃ :=
      congrArg (Except.map StreamMachine.touch) hflushed
    exact ⟨receive_small (s := .initiator) rfl rfl rfl hplain haccept, rfl, rfl, rfl⟩
  exact ⟨_, .cons h₁ (.cons h₂ (.cons h₃ (.cons h₄ (.single h₅))))⟩

/-- Every number of flushes can be done. -/
theorem flush_rounds (n : ℕ) (hn : (n : ℤ) ≤ i64Max) : ∃ tr, Run Step (initial Config.small) tr
    (of (flusher n (decide (0 < n)) (3 * n % (u64Max + 1))) (answerer n (2 * n % (u64Max + 1)))
      [] []) := by
  induction n with
  | zero =>
    have hstart : initial Config.small = of (flusher 0 false 0) (answerer 0 0) [] [] := by
      simp only [initial, of, Pair.mk.injEq]
      exact ⟨funext fun s => by cases s <;> rfl, funext fun s => by cases s <;> rfl⟩
    rw [hstart]
    exact ⟨[], .nil⟩
  | succ n ih =>
    obtain ⟨tr, h⟩ := ih (by omega)
    obtain ⟨tr', h'⟩ := flush_round (Int.natCast_nonneg n) (by omega) (decide (0 < n))
      (3 * n % (u64Max + 1)) (2 * n % (u64Max + 1))
    have hr : (flusher n (decide (0 < n)) (3 * n % (u64Max + 1))).touch.touch.touch.revision =
        3 * (n + 1) % (u64Max + 1) := by
      simp only [StreamMachine.touch, flusher, u64Max]
      omega
    have hr' : (answerer n (2 * n % (u64Max + 1))).touch.touch.revision =
        2 * (n + 1) % (u64Max + 1) := by
      simp only [StreamMachine.touch, answerer, u64Max]
      omega
    rw [hr, hr'] at h'
    rw [decide_eq_true (Nat.succ_pos n)]
    exact ⟨tr ++ tr', h.append h'⟩

/-- When the flush numbers are exhausted, `start_flush` fails and makes nothing eligible: a byte
waits for its batch delay while the endpoint has room for seven more. -/
theorem start_flush_exhausted : ∃ tr₁ p₁ tr₂ p,
    Run Step (initial Config.small) tr₁ p₁ ∧ Run Step p₁ tr₂ p ∧ Quiescent p ∧
      (p.machine .initiator).sent < (accepted .initiator tr₁).length ∧
      (∃ e ∈ history .initiator tr₂, e.1 = .call .startFlush) ∧
      (p.machine .endpoint).recv.length ≠ (Config.small .endpoint).receiveWindow := by
  let p₀ := of (flusher 9223372036854775807 true 9223372036854775805)
    (answerer 9223372036854775807 18446744073709551614) [] []
  let r₁ := p₀.exec [(.initiator, .call (.write [1])), (.initiator, .nextMessage),
    (.endpoint, .deliver), (.initiator, .call (.write [2]))]
  let r₂ := r₁.1.exec [(.initiator, .call .startFlush)]
  obtain ⟨tr, h₀⟩ : ∃ tr, Run Step (initial Config.small) tr p₀ := flush_rounds _ (by decide)
  have h₁ : Run Step (initial Config.small) (tr ++ r₁.2) r₁.1 := h₀.append (run_exec p₀ _)
  have h₂ : Run Step r₁.1 r₂.2 r₂.1 := run_exec _ _
  refine ⟨_, _, _, _, h₁, h₂, ⟨?_, ?_, ?_⟩, ?_, ?_, ?_⟩
  · intro s
    cases s <;> decide +kernel
  · intro s
    cases s <;> decide +kernel
  · intro s
    cases s <;> decide +kernel
  · have hlive : (r₁.1.machine .initiator).core.error = none := by decide +kernel
    rw [(outputs matched_small h₁ .initiator).accepted hlive]
    decide +kernel
  · exact ⟨_, .head _, rfl⟩
  · decide +kernel

end Pair

end GwzTransport.Stream
