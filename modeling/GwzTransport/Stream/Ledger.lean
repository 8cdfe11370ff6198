import GwzTransport.Stream.Pair

/-!
# What was accepted and returned

The ledger of one machine ties its offsets to the history of its host's calls: how many bytes were
accepted and how many were returned.  With the links between the two sides it gives the meaning of
the two answers a host relies on:

* a completed flush: what was accepted before it has arrived (`flush_delivered`);
* a completed close: both sides agree, and the initiator knows whether it missed any of the
  answer (`close_agreement`).
-/

namespace GwzTransport.Stream

open Protocol MachineInt Transition

/-- The writer's offsets against the bytes its host had accepted. -/
structure Outputs (c : Core) (acc : List UInt8) : Prop where
  accepted : c.error = none → (acc.length : ℤ) = c.sent + c.send.length
  sent_le : c.sent ≤ acc.length
  ended : c.endSent = true → (acc.length : ℤ) = c.sent

/-- The reader's offsets against the bytes its host was given. -/
structure Inputs (c : Core) (ret : List UInt8) : Prop where
  kept : c.discarded = false → (ret.length : ℤ) + c.recv.length = c.received
  missed : c.discarded = true → (ret.length : ℤ) < c.received
  consumed : c.discarding = false → c.consumed = ret.length

variable {c c' : Core} {e : Event} {acc ret : List UInt8}

theorem Move.sent_eq (h : Move c e c') (hs : c.Sound) :
    c'.sent = c.sent + (payloads e.spoken).length := by
  have still : e.spoken = [] → c'.sent = c.sent →
      c'.sent = c.sent + (payloads e.spoken).length :=
    fun hspoken hsent => by simp [hspoken, hsent, payloads]
  cases h with
  | idle hsilent => exact still hsilent.spoken rfl
  | completeClose hsilent => exact still hsilent.spoken rfl
  | fail hsilent => exact still hsilent.spoken rfl
  | read => exact still (Event.spoken_call _ _) rfl
  | sendTerminal hpending =>
    obtain ⟨b, hb, hspoken⟩ := spoken_terminal hs hpending
    rw [hspoken]
    cases b <;> first | exact hb.elim | simp [payloads, Core.tell]
  | sendData =>
    rw [Event.spoken_seal]
    simp [payloads, Core.pushed, List.length_take_of_le (Core.Sound.dataCount_le c)]
  | sendFlushed | sendWindow | sendClosed | sendFlush | sendEnd | sendClose =>
    rw [Event.spoken_seal]
    simp [payloads]
  | take => exact still rfl (Core.after_sent _ _)
  | _ => exact still rfl rfl

theorem Outputs.move (hs : c.Sound) (ho : Outputs c acc) (h : Move c e c') :
    Outputs c' (acc ++ e.accepted) := by
  have hs' := hs.move h
  have hsent := h.sent_eq hs
  have hout := h.outBytes hs
  by_cases hc : c'.error = none
  · obtain ⟨herror, hbytes⟩ := hout.kept hc
    have hacc : ((acc ++ e.accepted).length : ℤ) = c'.sent + c'.send.length := by
      have := congrArg List.length hbytes
      have := ho.accepted herror
      simp only [List.length_append] at *
      push_cast
      omega
    exact ⟨fun _ => hacc, by omega, fun hend => by rw [hacc, (hs'.end_sent hend).2.1]; simp⟩
  · obtain ⟨-, haccepted, hspoken, hend⟩ := hout.dropped hc
    rw [hspoken, List.length_nil, Nat.cast_zero, add_zero] at hsent
    rw [haccepted, List.append_nil]
    exact ⟨fun h => absurd h hc, hsent ▸ ho.sent_le, fun h => hsent ▸ ho.ended (hend ▸ h)⟩

theorem Inputs.take (hs : c.Sound) (hi : Inputs c ret) {b : Body} (ha : c.Accepts b) :
    Inputs (c.after b) ret := by
  cases b with
  | data d =>
    obtain ⟨-, -, hoffset, hne, -⟩ := ha
    have hpos := List.length_pos_of_ne_nil hne
    cases hd : c.discarding with
    | true =>
      rw [c.after_data_discarding hd]
      have hrecv := (hs.discarding hd).2.1
      refine ⟨fun h => (nomatch h), fun _ => ?_, fun h => ?_⟩
      · simp only
        cases hm : c.discarded with
        | true => have := hi.missed hm; omega
        | false => have := hi.kept hm; simp only [hrecv, List.length_nil] at this; omega
      · simp [hd] at h
    | false =>
      rw [c.after_data_keeping hd]
      have hkept : c.discarded = false := by
        by_contra h
        simp [hs.discarded (by simpa using h)] at hd
      refine ⟨fun _ => ?_, fun h => ?_, hi.consumed⟩
      · have := hi.kept hkept
        simp only [List.length_append]
        push_cast
        omega
      · simp [hkept] at h
  | closed x =>
    cases hx : x.failure with
    | some f => rw [c.after_closed_failed hx]; exact { hi with }
    | none => rw [c.after_closed_done hx]; exact { hi with }
  | _ => exact { hi with }

theorem Inputs.move (hs : c.Sound) (hi : Inputs c ret) (h : Move c e c') :
    Inputs c' (ret ++ e.returned) := by
  have still : e.returned = [] → Inputs c' ret → Inputs c' (ret ++ e.returned) :=
    fun hreturned hi' => by rwa [hreturned, List.append_nil]
  cases h with
  | idle hsilent => exact still hsilent.returned hi
  | completeClose hsilent => exact still hsilent.returned { hi with }
  | fail hsilent => exact still hsilent.returned { hi with }
  | @read n k r hk hr =>
    have hbytes := congrArg List.length (Move.returned_read (n := n) hr)
    have hrecv : (c.read n k).recv.length = c.recv.length - k := by simp [Core.read]
    simp only [List.length_append] at hbytes
    constructor
    · intro h
      have := hi.kept h
      simp only [List.length_append, Core.read] at *
      push_cast
      omega
    · intro h
      have := hi.missed h
      have hnil := (hs.discarding (hs.discarded h)).2.1
      simp only [hnil, List.length_nil] at hbytes
      simp only [List.length_append, Core.read] at *
      push_cast
      omega
    · intro h
      have := hi.consumed h
      simp only [List.length_append, Core.read, List.length_drop] at *
      push_cast
      omega
  | startClose _ _ hfirst =>
    have hkept : c.discarded = false := by
      by_contra h
      simp [(hs.discarding (hs.discarded (by simpa using h))).2.2.2] at hfirst
    have hcount := hi.kept hkept
    refine still rfl ⟨fun h => ?_, fun h => ?_, fun h => (by cases h)⟩
    · simp only [hkept, Bool.false_or, Bool.not_eq_false', List.isEmpty_iff] at h
      simpa [h] using hcount
    · simp only [hkept, Bool.false_or, Bool.not_eq_true', List.isEmpty_eq_false_iff] at h
      have := List.length_pos_of_ne_nil h
      simp only
      omega
  | take _ good => exact still rfl (hi.take hs good.accepts)
  | _ => exact still rfl { hi with }

theorem outputs_of_run {k : Config} {tr : List Event} {m₀ m : StreamMachine}
    (h₀ : StreamMachine.new k = .ok m₀) (h : Run Step m₀ tr m) :
    Outputs m.core (tr.flatMap Event.accepted) := by
  refine h.invariant (P := fun tr m => Outputs m.core (tr.flatMap Event.accepted)) ?_
    fun tr m e m' hr ho hstep => ?_
  · obtain ⟨-, rfl⟩ := StreamMachine.new_eq_ok h₀
    exact ⟨fun _ => rfl, le_rfl, fun h => absurd h Bool.false_ne_true⟩
  · simpa using ho.move (sound_of_run h₀ hr) hstep.move

theorem inputs_of_run {k : Config} {tr : List Event} {m₀ m : StreamMachine}
    (h₀ : StreamMachine.new k = .ok m₀) (h : Run Step m₀ tr m) :
    Inputs m.core (tr.flatMap Event.returned) := by
  refine h.invariant (P := fun tr m => Inputs m.core (tr.flatMap Event.returned)) ?_
    fun tr m e m' hr hi hstep => ?_
  · obtain ⟨-, rfl⟩ := StreamMachine.new_eq_ok h₀
    exact ⟨fun _ => rfl, fun h => absurd h Bool.false_ne_true, fun _ => rfl⟩
  · simpa using hi.move (sound_of_run h₀ hr) hstep.move

namespace Pair

variable {k : Side → Config} {p p' : Pair} {s : Side} {tr : List (Side × Event)}

theorem outputs (hk : Matched k) (h : Run Step (initial k) tr p) (s : Side) :
    Outputs (p.machine s).core (accepted s tr) :=
  outputs_of_run (StreamMachine.new_of_validate (hk.valid s)) (run_machine h s)

theorem inputs (hk : Matched k) (h : Run Step (initial k) tr p) (s : Side) :
    Inputs (p.machine s).core (returned s tr) :=
  inputs_of_run (StreamMachine.new_of_validate (hk.valid s)) (run_machine h s)

/-- An endpoint keeps its input to the last byte. -/
theorem endpoint_keeps (hk : Matched k) (h : Run Step (initial k) tr p) :
    (p.machine .endpoint).discarding = false := by
  by_contra hd
  have hside := ((sound hk h .endpoint).discarding (by simpa [StreamMachine.core] using hd)).1
  rw [show (p.machine .endpoint).core.config = k .endpoint from config_eq h .endpoint,
    hk.side] at hside
  cases hside

/-! ### Closing -/

theorem closeResult_eq_ok {m : StreamMachine} {r : CloseResult} (h : m.closeResult = .ok r) :
    m.error = none ∧ m.completed = some r := by
  unfold StreamMachine.closeResult at h
  split at h
  · cases h
  next he =>
    split at h
    next hr => exact ⟨he, by rw [hr, Except.ok.inj h]⟩
    next => cases h

/-- **When both sides have closed, they agree.**  The endpoint's host has read all that the
initiator's wrote, and the initiator is told that it missed something exactly if it read less
than the endpoint's host wrote. -/
theorem close_agreement {ri re : CloseResult} (hk : Matched k) (h : Run Step (initial k) tr p)
    (hi : (p.machine .initiator).closeResult = .ok ri)
    (he : (p.machine .endpoint).closeResult = .ok re) :
    ri.disposition = re.disposition ∧ ri.facts = re.facts ∧
    returned .endpoint tr = accepted .initiator tr ∧
    (ri.unreadResponseDiscarded = true ↔
      (returned .initiator tr).length < (accepted .endpoint tr).length) := by
  obtain ⟨hi₀, hi⟩ := closeResult_eq_ok hi
  obtain ⟨he₀, he⟩ := closeResult_eq_ok he
  have hsi := sound hk h .initiator
  have hse := sound hk h .endpoint
  obtain ⟨hiend, higot, hirecv, -⟩ := hsi.completed fun h => nomatch hi.symm.trans h
  obtain ⟨heend, hegot, herecv, -⟩ := hse.completed fun h => nomatch he.symm.trans h
  -- forward: the endpoint has read everything
  have hforward : Link (p.machine .initiator).core (p.machine .endpoint).core _ _ _ _ :=
    linked hk h .initiator
  obtain ⟨lost, hbytes, hlost⟩ := hforward.bytes he₀ (endpoint_keeps hk h)
  rw [hlost (.inl hi₀), (hforward.ended hegot).2.2, (hsi.end_sent hiend).2.1, herecv] at hbytes
  have hread : returned .endpoint tr = accepted .initiator tr := by
    simpa [Side.peer] using hbytes
  -- back: what the initiator received is what the endpoint accepted
  have hback : Link (p.machine .endpoint).core (p.machine .initiator).core _ _ _ _ :=
    linked hk h .endpoint
  have hreceived := (hback.ended higot).2.1
  have hside : (p.machine .initiator).core.config.side = .initiator := by
    rw [show (p.machine .initiator).core.config = k .initiator from config_eq h .initiator,
      hk.side]
  obtain ⟨re', hre', hdisposition, hfacts, hunread⟩ := hback.agreed hside ri hi
  obtain rfl := Option.some.inj (he.symm.trans hre')
  refine ⟨hdisposition, hfacts, hread, ?_⟩
  have hin := inputs hk h .initiator
  have hout := (outputs hk h .endpoint).ended heend
  rw [hunread]
  cases hd : (p.machine .initiator).core.discarded with
  | true =>
    have := hin.missed hd
    simp only [true_iff]
    omega
  | false =>
    have := hin.kept hd
    simp only [hirecv, List.length_nil] at this
    simp only [Bool.false_eq_true, false_iff]
    omega

/-- A whole close: the initiator closes while the endpoint still has a byte to say. -/
theorem close_agreement_short_run :
    let facts : Facts := ⟨.none, false, none, none, none, none, none⟩
    let r := (initial Config.small).exec
      [(.initiator, .call (.write [1, 2])), (.initiator, .call .startClose),
        (.initiator, .nextMessage), (.initiator, .nextMessage), (.initiator, .nextMessage),
        (.endpoint, .deliver), (.endpoint, .deliver), (.endpoint, .deliver),
        (.endpoint, .call (.read 8)), (.endpoint, .call (.write [9])), (.endpoint, .call .endWrite),
        (.endpoint, .nextMessage), (.endpoint, .nextMessage), (.endpoint, .nextMessage),
        (.endpoint, .call (.completeClose .reusable facts)), (.endpoint, .nextMessage),
        (.initiator, .deliver), (.initiator, .deliver), (.initiator, .deliver),
        (.initiator, .deliver)]
    (r.1.machine .initiator).closeResult = .ok ⟨.reusable, true, facts⟩ ∧
      (returned .initiator r.2).length < (accepted .endpoint r.2).length := by
  intro facts r
  have hrun : Run Step (initial Config.small) r.2 r.1 := run_exec _ _
  have hi : (r.1.machine .initiator).closeResult = .ok ⟨.reusable, true, facts⟩ := by
    decide +kernel
  have he : (r.1.machine .endpoint).closeResult = .ok ⟨.reusable, false, facts⟩ := by
    decide +kernel
  exact ⟨hi, (close_agreement matched_small hrun hi he).2.2.2.1 rfl⟩

/-! ### Flushing -/

end Pair

/-- A pending flush stays the same one until it is answered. -/
theorem Move.flush_kept (h : Move c e c') {f : PendingFlush} (hf : c.flush = some f) :
    c'.error ≠ none ∨
    (∃ f', c'.flush = some f' ∧ f'.id = f.id ∧ f'.offset = f.offset ∧
      c'.flushAcked = c.flushAcked) ∨
    ∃ b, e.taken = [.flushed b] ∧ b.offset = f.offset := by
  cases h with
  | overflow | fail | failTerminal | disconnect | expire | refuse =>
    exact .inl (Option.some_ne_none _)
  | flush _ hfree => exact nomatch hfree.symm.trans hf
  | sendFlush _ hf' =>
    obtain rfl := Option.some.inj (hf.symm.trans hf')
    exact .inr (.inl ⟨_, rfl, rfl, rfl, rfl⟩)
  | @take message b _ good =>
    cases b with
    | flushed b =>
      obtain rfl := Option.some.inj (hf.symm.trans good.accepts)
      exact .inr (.inr ⟨b, by simp [Event.taken, good.body], rfl⟩)
    | closed x =>
      cases hx : x.failure with
      | some f => rw [c.after_closed_failed hx]; exact .inl (Option.some_ne_none _)
      | none => rw [c.after_closed_done hx]; exact .inr (.inl ⟨f, hf, rfl, rfl, rfl⟩)
    | cancel x => exact .inl (Option.some_ne_none _)
    | failed x => exact .inl (Option.some_ne_none _)
    | _ => exact .inr (.inl ⟨f, hf, rfl, rfl, rfl⟩)
  | _ => exact .inr (.inl ⟨f, hf, rfl, rfl, rfl⟩)

theorem Move.error_kept (h : Move c e c') (hc : c.error ≠ none) : c'.error ≠ none := by
  rw [(h.dead fun hl => hc hl.1).1]
  exact hc

/-- A ticket stands for a pending flush at the present offset. -/
theorem Move.ticket_flush (h : Move c e c') (hs : c.Sound) {t : FlushTicket}
    (ht : e.ticket = some t) : c.Live ∧ ∃ f, c'.flush = some f ∧ f.id = t.id ∧
      f.offset = c.sent + c.send.length ∧ c'.flushAcked < t.id := by
  cases h with
  | idle hsilent | completeClose hsilent | fail hsilent => simp [hsilent.ticket] at ht
  | flush hl hfree =>
    obtain rfl := Option.some.inj ht
    have := hs.flush_settled hfree hl.1
    exact ⟨hl, _, rfl, rfl, rfl, by simp only; omega⟩
  | @reflush f hl hf =>
    obtain rfl := Option.some.inj ht
    obtain ⟨hoffset, hid, hacked⟩ := hs.flush_pending f hf
    exact ⟨hl, f, hf, rfl, hoffset, by simp only; omega⟩
  | _ => cases ht

/-- The flush `id` at `offset`: it is pending, or the offset has reached the reader's sink. -/
def Flushing (id offset : ℤ) (w r : Core) : Prop :=
  w.error ≠ none ∨ (w.flushAcked < id ∧ ∃ f, w.flush = some f ∧ f.id = id ∧ f.offset = offset) ∨
    offset ≤ r.sinkOffset

namespace Pair

variable {k : Side → Config} {p p' p₁ p₂ p₃ : Pair} {s : Side} {tr tr₁ tr₂ : List (Side × Event)}
  {l : Side × Event} {t : FlushTicket}

theorem flushing_step {id offset : ℤ} (hs : ∀ s, (p.machine s).core.Sound)
    (hlink : ∀ s, Linked tr p s) (h : Step p l p')
    (hf : Flushing id offset (p.machine s).core (p.machine s.peer).core) :
    Flushing id offset (p'.machine s).core (p'.machine s.peer).core := by
  have hmove : Move (p.machine l.1).core l.2 (p'.machine l.1).core := h.step.move
  obtain rfl | rfl := l.1.eq_or_eq_peer s
  · rw [h.other]
    obtain herror | ⟨hacked, f, hflush, hid, hoffset⟩ | hreached := hf
    · exact .inl (hmove.error_kept herror)
    · obtain herror | ⟨f', hf', hid', hoffset', hacked'⟩ | ⟨b, htaken, hb⟩ :=
        hmove.flush_kept hflush
      · exact .inl herror
      · exact .inr (.inl ⟨hacked' ▸ hacked, f', hf', hid'.trans hid, hoffset'.trans hoffset⟩)
      · -- the answer was on its way, so its offset had been reached
        refine .inr (.inr ?_)
        rw [← hoffset, ← hb]
        refine (hlink l.1).reached b ?_
        rw [bodies_delivered h, answers_append, htaken]
        simp
    · exact .inr (.inr hreached)
  · rw [h.other, Side.peer_peer]
    rw [Side.peer_peer] at hf
    exact hf.imp_right (·.imp_right fun hreached => hreached.trans (hmove.sinkOffset_le (hs l.1)))

/-- A ticket that reads as complete: what was accepted before it is at the peer's sink. -/
theorem reached_of_flushComplete (hk : Matched k) (h₁ : Run Step (initial k) tr₁ p₁)
    (hflush : Step p₁ (s, (.call .startFlush, .ticket (.ok t))) p₂) (h₂ : Run Step p₂ tr₂ p₃)
    (hdone : (p₃.machine s).flushComplete t = .ok true) :
    ((accepted s tr₁).length : ℤ) ≤ (p₃.machine s.peer).core.sinkOffset := by
  have h₁₂ := h₁.snoc hflush
  obtain ⟨hl, f, hf, hid, hoffset, hacked⟩ :=
    hflush.step.move.ticket_flush (sound hk h₁ s) (t := t) rfl
  have hstart : Flushing t.id (accepted s tr₁).length (p₂.machine s).core
      (p₂.machine s.peer).core :=
    .inr (.inl ⟨hacked, f, hf, hid, hoffset.trans ((outputs hk h₁ s).accepted hl.1).symm⟩)
  have hend : Flushing t.id (accepted s tr₁).length (p₃.machine s).core
      (p₃.machine s.peer).core := by
    refine h₂.invariant (P := fun _ p => Flushing t.id (accepted s tr₁).length
      (p.machine s).core (p.machine s.peer).core) hstart fun tr p l p' hr hp hstep => ?_
    have hr := h₁₂.append hr
    exact flushing_step (sound hk hr) (linked hk hr) hstep hp
  unfold StreamMachine.flushComplete at hdone
  split at hdone
  · cases hdone
  next herror =>
    have hdone : t.id ≤ (p₃.machine s).core.flushAcked :=
      of_decide_eq_true (Except.ok.inj hdone)
    obtain h | ⟨h, -⟩ | h := hend
    · exact absurd herror h
    · omega
    · exact h

/-- **A completed flush has arrived.**  On the initiator, all that was accepted before the flush
was started has been returned by the endpoint's reads; on the endpoint, it has been received by
the initiator. -/
theorem flush_delivered (hk : Matched k) (h₁ : Run Step (initial k) tr₁ p₁)
    (hflush : Step p₁ (s, (.call .startFlush, .ticket (.ok t))) p₂) (h₂ : Run Step p₂ tr₂ p₃)
    (hdone : (p₃.machine s).flushComplete t = .ok true) :
    let tr := tr₁ ++ (s, (.call .startFlush, .ticket (.ok t))) :: tr₂
    (s = .initiator → accepted s tr₁ <+: returned s.peer tr) ∧
    (s = .endpoint → ((accepted s tr₁).length : ℤ) ≤ (p₃.machine s.peer).received ∧
      ((p₃.machine s.peer).discarding = false →
        accepted s tr₁ <+: returned s.peer tr ++ (p₃.machine s.peer).recv)) := by
  intro tr
  have hrun : Run Step (initial k) tr p₃ := h₁.append (.cons hflush h₂)
  have hlink := linked hk hrun s
  have hreached := reached_of_flushComplete hk h₁ hflush h₂ hdone
  have hacc : accepted s tr₁ <+: accepted s tr := by
    simp only [tr, accepted, history_append, List.flatMap_append]
    exact List.prefix_append _ _
  have hside : (p₃.machine s.peer).core.config.side = s.peer := by
    rw [show (p₃.machine s.peer).core.config = k s.peer from config_eq hrun s.peer, hk.side]
  unfold Core.sinkOffset at hreached
  rw [hside] at hreached
  have hin := inputs hk hrun s.peer
  constructor
  · rintro rfl
    have hkeep : (p₃.machine Side.initiator.peer).discarding = false := endpoint_keeps hk hrun
    rw [if_neg (by decide), hin.consumed hkeep] at hreached
    exact List.prefix_of_prefix_length_le hacc
      ((List.prefix_append _ _).trans (hlink.front hkeep)) (by exact_mod_cast hreached)
  · rintro rfl
    rw [if_pos (by decide)] at hreached
    refine ⟨hreached, fun hkeep => ?_⟩
    have hkept : (p₃.machine Side.endpoint.peer).core.discarded = false := by
      by_contra hd
      have := (sound hk hrun Side.endpoint.peer).discarded (by simpa using hd)
      exact Bool.false_ne_true (hkeep.symm.trans this)
    have hcount : _ + ((p₃.machine Side.endpoint.peer).recv.length : ℤ) = _ := hin.kept hkept
    refine List.prefix_of_prefix_length_le hacc (hlink.front hkeep) ?_
    rw [List.length_append]
    omega

/-- A flush is started twice while it is pending, and is complete after the endpoint has read. -/
theorem flush_delivered_short_run :
    let r₁ := (initial Config.small).exec [(.initiator, .call (.write [1, 2, 3]))]
    let p₂ : Pair :=
      ⟨r₁.1.put .initiator (r₁.1.machine .initiator).startFlush.1, r₁.1.channel⟩
    let r₃ := p₂.exec
      [(.initiator, .call .startFlush), (.initiator, .nextMessage), (.initiator, .nextMessage),
        (.endpoint, .deliver), (.endpoint, .deliver), (.endpoint, .call (.read 8)),
        (.endpoint, .nextMessage), (.initiator, .deliver), (.initiator, .call (.write [4]))]
    (r₃.1.machine .initiator).flushComplete ⟨1⟩ = .ok true ∧
      accepted .initiator r₁.2 <+: returned .endpoint
        (r₁.2 ++ (.initiator, (.call .startFlush, .ticket (.ok ⟨1⟩))) :: r₃.2) := by
  intro r₁ p₂ r₃
  have h₁ : Run Step (initial Config.small) r₁.2 r₁.1 := run_exec _ _
  have h₃ : Run Step p₂ r₃.2 r₃.1 := run_exec _ _
  have hticket : (r₁.1.machine .initiator).startFlush.2 = .ok ⟨1⟩ := by decide +kernel
  have hflush : Step r₁.1 (.initiator, (.call .startFlush, .ticket (.ok ⟨1⟩))) p₂ := by
    rw [← hticket]
    exact step_of_act (a := .call .startFlush) rfl
  have hdone : (r₃.1.machine .initiator).flushComplete ⟨1⟩ = .ok true := by decide +kernel
  exact ⟨hdone, (flush_delivered matched_small h₁ hflush h₃ hdone).1 rfl⟩

end Pair

end GwzTransport.Stream
