import GwzTransport.Stream.Sound

/-!
# Every message of a stream is admitted

A machine hands out messages that its peer's limits admit.  Data is admitted because the
configuration was validated with the largest data message at the largest offset; the other bodies
that a machine makes itself are small against any usable limits; and what its host gave it to
announce was admitted when it was given.
-/

namespace GwzTransport.Stream

open Protocol MachineInt

/-- What a machine checks of its own configuration, for its peer's limits. -/
structure Config.Usable (k : Config) : Prop where
  session : k.sessionId.isEmpty = false
  sessionSize : k.sessionId.utf8ByteSize ≤ 128
  stream : 0 < k.streamId
  version : k.profileVersion = 1 ∨ k.profileVersion = 2
  payload : k.maxPayload ≤ 65536
  limits : Codec.limits k.peerLimits = .ok ()
  frame : 4096 ≤ k.peerLimits.encodedFrame
  metadata : 256 ≤ k.peerLimits.metadataBytes
  nesting : 10 ≤ k.peerLimits.nesting
  entries : 128 ≤ k.peerLimits.collectionEntries
  allocation : 65536 ≤ k.peerLimits.decodeAllocation
  probe : Codec.admitLimited k.probe k.peerLimits = .ok ()

theorem isOk_iff {ε : Type} {r : Except ε Unit} : r.isOk = true ↔ r = .ok () := by
  cases r <;> simp [Except.isOk, Except.toBool]

theorem Config.usable_of_validate {k : Config} (h : k.validate = .ok ()) : k.Usable := by
  unfold Config.validate at h
  split_ifs at h with hlimits hrange hprobe
  simp only [List.all_cons, List.all_nil, Bool.and_true, Bool.not_eq_true', Bool.not_eq_false,
    Bool.and_eq_true, limitsUsable, isOk_iff] at hlimits hprobe
  obtain ⟨-, hlimits, husable⟩ := hlimits
  simp only [Config.outOfRange, decide_eq_true_eq, not_or, not_lt, not_le, not_not] at hrange
  unfold Binding.usable at husable
  split_ifs at husable with hbounds
  simp only [not_or, not_lt] at hbounds
  exact {
    session := by simpa using hrange.1
    sessionSize := by omega
    stream := by omega
    version := by omega
    payload := by omega
    limits := hlimits
    frame := by omega
    metadata := by omega
    nesting := by omega
    entries := by omega
    allocation := by omega
    probe := hprobe.2 }

/-- The bodies that a machine makes itself. -/
def Body.Plain (k : Config) : Body → Prop
  | .data d => 0 ≤ d.offset ∧ d.offset + d.payload.length ≤ i64Max ∧
      d.payload.length ≤ k.maxPayload
  | .window w => 0 ≤ w.maxOffset
  | .flush b | .flushed b => 0 ≤ b.offset ∧ 0 < b.barrierId
  | .endWrite e => 0 ≤ e.finalOffset
  | .close x => 0 ≤ x.finalOffset
  | .closed _ => False
  | .cancel x => x.reason = .cancelled ∨ x.reason = .timeout
  | .failed f => f.facts = none ∧ f.detail = none ∧ f.code ≠ .repositoryRefused

variable {k : Config} {b : Body}

/-- A configuration that can stand in the header of a message. -/
structure Config.Named (k : Config) : Prop where
  session : k.sessionId.isEmpty = false
  sessionSize : k.sessionId.utf8ByteSize ≤ 128
  stream : 0 < k.streamId
  version : k.profileVersion = 1 ∨ k.profileVersion = 2

theorem Config.Usable.named (hk : k.Usable) : k.Named :=
  ⟨hk.session, hk.sessionSize, hk.stream, hk.version⟩

theorem header_seal (hk : k.Named) (b : Body) : Codec.header (k.seal b) = .ok () := by
  have h1 := hk.session
  have h2 := not_lt.2 hk.sessionSize
  have h3 := not_le.2 hk.stream
  obtain hv | hv := hk.version <;> cases b <;>
    simp [Codec.header, Config.seal, Config.envelope, Codec.bodies, MessageKind.wire,
      Checks.refuseIf, bind, Except.bind, h1, h2, h3, hv]

theorem numbers_seal (hb : b.Plain k) : Codec.numbers (k.seal b) = .ok () := by
  cases b with
  | data d =>
    obtain ⟨h0, hmax, -⟩ := hb
    simp [Codec.numbers, Checks.refuseIf, Config.seal, Config.envelope, h0,
      checkedAdd_of_le (by omega) hmax]
  | flush x | flushed x =>
    have := hb.1
    have := hb.2
    simp [Codec.numbers, Checks.refuseIf, Config.seal, Config.envelope, *]
  | window x | endWrite x | close x =>
    simp only [Body.Plain] at hb
    simp [Codec.numbers, Checks.refuseIf, Config.seal, Config.envelope, hb]
  | closed x => exact hb.elim
  | cancel x | failed x => rfl

theorem envelope_seal (hk : k.Named) (hb : b.Plain k) : Codec.envelope (k.seal b) = .ok () := by
  unfold Codec.envelope
  rw [header_seal hk b, numbers_seal hb]
  cases b with
  | closed x => exact hb.elim
  | cancel x =>
    obtain h | h := hb <;>
      simp [Codec.failures, Codec.factsOf, Checks.refuseIf, Config.seal, Config.envelope, bind,
        Except.bind, pure, Except.pure, h]
  | failed x =>
    obtain ⟨h1, h2, h3⟩ := hb
    simp [Codec.failures, Codec.factsOf, Checks.refuseIf, Config.seal, Config.envelope, bind,
      Except.bind, pure, Except.pure, Codec.failureDetail, Codec.failureHasV2Fields, h1, h2, h3]
  | _ =>
    simp [Codec.failures, Codec.factsOf, Checks.refuseIf, Config.seal, Config.envelope, bind,
      Except.bind, pure, Except.pure]

/-! ### The walk over a sealed body -/

/-- The charges of a body, one level below the envelope. -/
def Body.charges : Body → List Codec.Charge
  | .data d => Codec.visitData d 1
  | .window w => Codec.visitWindow w 1
  | .flush b | .flushed b => Codec.visitBarrier b 1
  | .endWrite e => Codec.visitEndwrite e 1
  | .close x => Codec.visitClose x 1
  | .closed x => Codec.visitClosed x 1
  | .cancel x => Codec.visitCancel x 1
  | .failed f => Codec.visitFailure f 1

/-- The charges of an envelope's own fields. -/
def headCharges (k : Config) (kind : MessageKind) : List Codec.Charge :=
  [.container 23 0, .key 1, .integer k.profileVersion 1,
    .key 2, .bytes k.sessionId.utf8ByteSize Codec.maxMetadata 1, .key 3, .integer k.streamId 1,
    .key 4, .integer kind.wire 1, .key 5, .scalar 1]

/-- The charges of absent bodies. -/
def blanks (tags : List ℕ) : List Codec.Charge := tags.flatMap fun tag => [.key tag, .scalar 1]

/-- A sealed body is walked between the envelope's own fields and absent bodies. -/
theorem visitEnvelope_seal (k : Config) (b : Body) : ∃ kind before tag after,
    before.length + after.length = 17 ∧ Codec.visitEnvelope (k.seal b) 0 =
      headCharges k kind ++ blanks before ++ (.key tag :: b.charges) ++ blanks after := by
  cases b with
  | data d => exact ⟨.data, [10, 11, 12, 13, 14, 15], 16,
      [17, 18, 19, 20, 21, 22, 23, 24, 25, 26, 27], rfl, rfl⟩
  | window w => exact ⟨.window, [10, 11, 12, 13, 14, 15, 16], 17,
      [18, 19, 20, 21, 22, 23, 24, 25, 26, 27], rfl, rfl⟩
  | flush b => exact ⟨.flush, [10, 11, 12, 13, 14, 15, 16, 17], 18,
      [19, 20, 21, 22, 23, 24, 25, 26, 27], rfl, rfl⟩
  | flushed b => exact ⟨.flushed, [10, 11, 12, 13, 14, 15, 16, 17, 18], 19,
      [20, 21, 22, 23, 24, 25, 26, 27], rfl, rfl⟩
  | endWrite e => exact ⟨.endWrite, [10, 11, 12, 13, 14, 15, 16, 17, 18, 19], 20,
      [21, 22, 23, 24, 25, 26, 27], rfl, rfl⟩
  | close x => exact ⟨.close, [10, 11, 12, 13, 14, 15, 16, 17, 18, 19, 20], 21,
      [22, 23, 24, 25, 26, 27], rfl, rfl⟩
  | closed x => exact ⟨.closed, [10, 11, 12, 13, 14, 15, 16, 17, 18, 19, 20, 21], 22,
      [23, 24, 25, 26, 27], rfl, rfl⟩
  | cancel x => exact ⟨.cancel, [10, 11, 12, 13, 14, 15, 16, 17, 18, 19, 20, 21, 22], 23,
      [24, 25, 26, 27], rfl, rfl⟩
  | failed f => exact ⟨.failed, [10, 11, 12, 13, 14, 15, 16, 17, 18, 19, 20, 21, 22, 23], 24,
      [25, 26, 27], rfl, rfl⟩

theorem blanks_light (tags : List ℕ) : ∀ c ∈ blanks tags, c.Light := by
  simp only [blanks, List.mem_flatMap, List.mem_cons, List.not_mem_nil, or_false]
  rintro c ⟨tag, -, rfl | rfl⟩
  · trivial
  · exact Nat.one_le_ofNat

theorem headCharges_light (hk : k.Named) (kind : MessageKind) :
    ∀ c ∈ headCharges k kind, c.Light := by
  have := hk.sessionSize
  simp only [headCharges, List.forall_mem_cons, Codec.Charge.Light, List.not_mem_nil,
    false_imp_iff, implies_true, and_true, true_and]
  omega

theorem blanks_length (tags : List ℕ) : (blanks tags).length = 2 * tags.length := by
  simp [blanks, Nat.mul_comm]

theorem textOf_blanks (tags : List ℕ) : Codec.textOf (blanks tags) = 0 := by
  induction tags with
  | nil => rfl
  | cons tag tags ih =>
    exact (Nat.zero_add _).trans ((Nat.zero_add _).trans ih)

/-- A body of few light charges without text is admitted. -/
theorem fits_of_light_body (hk : k.Usable) (hb : ∀ c ∈ b.charges, c.Light)
    (hlength : b.charges.length ≤ 14) (htext : Codec.textOf b.charges = 0) :
    (Codec.Budget.new false k.peerLimits).Fits (Codec.visitEnvelope (k.seal b) 0) := by
  obtain ⟨kind, before, tag, after, hcount, heq⟩ := visitEnvelope_seal k b
  rw [heq]
  refine Codec.fits_of_light ?_ ?_ ?_ hk.frame hk.metadata hk.nesting hk.entries hk.allocation
  · simp only [List.forall_mem_append, List.forall_mem_cons]
    exact ⟨⟨⟨headCharges_light hk.named kind, blanks_light before⟩, trivial, hb⟩,
      blanks_light after⟩
  · simp only [List.length_append, List.length_cons, blanks_length, headCharges, List.length_nil]
    omega
  · have hsize := hk.sessionSize
    have h1 := textOf_blanks before
    have h2 := textOf_blanks after
    simp only [Codec.textOf, headCharges, List.map_append, List.map_cons, List.map_nil,
      List.sum_append, List.sum_cons, List.sum_nil, Codec.Charge.text] at *
    omega

/-- A data message asks for no more than the probe. -/
theorem data_le_probe (hk : k.Usable) {d : Data} (hd : d.payload.length ≤ k.maxPayload) :
    List.Forall₂ Codec.Charge.Le (Codec.visitEnvelope (k.seal (.data d)) 0)
      (Codec.visitEnvelope k.probe 0) := by
  have same : ∀ cs : List Codec.Charge, List.Forall₂ Codec.Charge.Le cs cs :=
    fun cs => List.forall₂_same.2 fun c _ => .refl c
  have hversion : Codec.head (Codec.argument k.profileVersion) ≤
      Codec.head (Codec.argument 1) := by
    obtain h | h := hk.version
    · rw [h]
    · rw [h]; decide
  -- the probe's offset takes the longest head there is
  have hoffset : Codec.head (Codec.argument d.offset) ≤
      Codec.head (Codec.argument (i64Max - k.maxPayload)) := by
    have := hk.payload
    have hargument : Codec.argument (i64Max - k.maxPayload) = (i64Max - k.maxPayload).toNat :=
      if_neg (by unfold i64Max; omega)
    refine (Codec.head_le _).trans ?_
    unfold Codec.head
    rw [hargument, if_neg, if_neg, if_neg, if_neg] <;> (unfold i64Max; omega)
  have hlength : d.payload.length ≤ (List.replicate k.maxPayload (0 : UInt8)).length := by
    simpa using hd
  have hbody : List.Forall₂ Codec.Charge.Le (Codec.visitData d 1)
      (Codec.visitData ⟨i64Max - k.maxPayload, List.replicate k.maxPayload 0⟩ 1) :=
    .cons (.refl _) (.cons (.refl _) (.cons (Codec.Charge.le_integer _ hoffset)
      (.cons (.refl _) (.cons (Codec.Charge.le_bytes _ _ hlength) .nil))))
  have hhead : List.Forall₂ Codec.Charge.Le (headCharges k .data)
      (headCharges { k with profileVersion := 1 } .data) :=
    .cons (.refl _) (.cons (.refl _) (.cons (Codec.Charge.le_integer _ hversion) (same _)))
  exact List.rel_append (List.rel_append (List.rel_append hhead
    (same (blanks [10, 11, 12, 13, 14, 15]))) (.cons (.refl (.key 16)) hbody))
    (same (blanks [17, 18, 19, 20, 21, 22, 23, 24, 25, 26, 27]))

/-- **What a machine makes itself is admitted by its peer.** -/
theorem admitted_of_plain (hk : k.Usable) (hb : b.Plain k) :
    Codec.admitLimited (k.seal b) k.peerLimits = .ok () := by
  have hstream : ∀ e : Envelope, e.streamId = k.streamId → (e.streamId == 0) = false :=
    fun e he => by simpa [he] using hk.stream.ne'
  rw [Codec.admitLimited_eq_ok_iff, hstream _ (by cases b <;> rfl)]
  refine ⟨hk.limits, envelope_seal hk.named hb, ?_⟩
  cases b with
  | data d =>
    have hprobe := ((Codec.admitLimited_eq_ok_iff _ _).1 hk.probe).2.2
    rw [hstream _ rfl] at hprobe
    exact hprobe.of_le (data_le_probe hk hb.2.2)
  | closed x => exact hb.elim
  | failed f =>
    obtain ⟨h1, h2, h3⟩ := hb
    refine fits_of_light_body hk ?_ ?_ ?_ <;>
      cases hcause : f.setupCause <;>
      simp [Body.charges, Codec.visitFailure, Codec.visitMap, Codec.visitOption,
        Codec.visitInteger, Codec.Charge.Light, Codec.textOf, Codec.Charge.text, h1, h2, hcause]
  | _ =>
    refine fits_of_light_body hk ?_ ?_ ?_ <;>
      simp [Body.charges, Codec.visitWindow, Codec.visitBarrier, Codec.visitEndwrite,
        Codec.visitClose, Codec.visitCancel, Codec.visitMap, Codec.visitInteger,
        Codec.Charge.Light, Codec.textOf, Codec.Charge.text]

theorem failureBody_plain (k : Config) (side : Side) (error : Error) :
    (failureBody side error).Plain k := by
  unfold failureBody
  split_ifs <;> simp [Body.Plain]

/-- Every message that a machine hands out is sealed, and it is one of its own making or what its
host gave it to announce. -/
theorem Move.emitted_cases {c c' : Core} {e : Event} (hs : c.Sound) (h : Move c e c')
    {m : Envelope} (hm : e.emitted = some m) : ∃ b, m = c.config.seal b ∧
      (b.Plain c.config ∨
        c.Admitted b ∧ (c.terminalMessage = some m ∨ c.closePending ≠ none)) := by
  have made : ∀ b, b.Plain c.config → c.config.seal b = m → ∃ b, m = c.config.seal b ∧
      (b.Plain c.config ∨
        c.Admitted b ∧ (c.terminalMessage = some m ∨ c.closePending ≠ none)) :=
    fun b hb hm => ⟨b, hm.symm, .inl hb⟩
  cases h with
  | idle silent | completeClose silent | fail silent => simp [silent.emitted] at hm
  | sendTerminal pending =>
    obtain rfl := Option.some.inj hm
    obtain ⟨-, b, rfl, ⟨error, rfl⟩ | ⟨f, rfl, hadmitted⟩⟩ := hs.terminal _ pending
    · exact made _ (failureBody_plain _ _ _) rfl
    · exact ⟨_, rfl, .inr ⟨hadmitted, .inl pending⟩⟩
  | sendFlushed live pending =>
    exact made (.flushed _) (hs.peer_flush _ pending) (Option.some.inj hm)
  | sendWindow live more =>
    have hnonneg : 0 ≤ satAddInt c.consumed c.config.receiveWindow :=
      hs.inbound.received_nonneg.trans (hs.inbound.received_le.trans more.le)
    exact made (.window ⟨_⟩) hnonneg (Option.some.inj hm)
  | sendClosed live pending =>
    exact ⟨_, (Option.some.inj hm).symm, .inr ⟨(hs.close_admitted _ pending).2, .inr (by
      rw [pending]
      nofun)⟩⟩
  | sendFlush live pending =>
    obtain ⟨hoffset, hid, hacked⟩ := hs.flush_pending _ pending
    have hnonneg := hs.outbound.nonneg
    have hpos := hs.acked_nonneg
    exact made (.flush _) ⟨by dsimp only; omega, by dsimp only; omega⟩ (Option.some.inj hm)
  | sendData live unsent credit =>
    have hlength : (c.send.take c.dataCount).length ≤ c.send.length := by simp
    have hmax := hs.send_max
    refine made (.data _) ⟨hs.outbound.nonneg, by dsimp only; omega, ?_⟩ (Option.some.inj hm)
    simp [Core.dataCount]
  | sendEnd => exact made (.endWrite ⟨c.sent⟩) hs.outbound.nonneg (Option.some.inj hm)
  | sendClose => exact made (.close ⟨c.sent⟩) hs.outbound.nonneg (Option.some.inj hm)
  | _ => cases hm

/-- **Every message that a machine hands out is sealed and admitted by its peer's limits.** -/
theorem Move.emitted_admitted {c c' : Core} {e : Event} (hk : c.config.Usable) (hs : c.Sound)
    (h : Move c e c') {m : Envelope} (hm : e.emitted = some m) :
    ∃ b, m = c.config.seal b ∧ c.Admitted b := by
  obtain ⟨b, hseal, hplain | ⟨hadmitted, -⟩⟩ := h.emitted_cases hs hm
  · exact ⟨b, hseal, admitted_of_plain hk hplain⟩
  · exact ⟨b, hseal, hadmitted⟩

end GwzTransport.Stream
