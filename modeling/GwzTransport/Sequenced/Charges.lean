import GwzTransport.Sequenced.Calls

/-!
# What a receiver accounts for

The receiver keeps three counters: the held frames, their weight, and the weight of the first and
last frames it retains.  Together with the records of the streams they stay within what the limits
leave after the control reserve.

* `live_invariant`: what every move of a live receiver keeps holds in every live state of a run,
  under a condition on the calls;
* `Accounted`: the counters against the frames that are really there.  A stream whose first frame
  is also its last is retained without being counted, so the retained weight is exact only up to
  such frames (`lost`);
* `counters_exact`: the counters are exact in a run without such frames.
-/

namespace GwzTransport.Sequenced

open Protocol MachineInt Checks Transition Receiver

variable {lay : Layout}

/-! ### Runs of live receivers -/

theorem limits_of_validLimits {limits : Limits} (h : validLimits lay limits = .ok ()) :
    Codec.limits limits = .ok () := by
  have hvalid := refuseIf_eq_ok.1 h
  simp only [Binding.validSequencedLimits, Bool.not_eq_false', Bool.and_eq_true] at hvalid
  cases hadmitted : Codec.admitLimited (Binding.offer "probe" .local_) limits with
  | error e => rw [hadmitted] at hvalid; cases hvalid.1
  | ok u => exact ((Codec.admitLimited_eq_ok_iff _ _).1 hadmitted).1

theorem new_eq_ok {sessionId : String} {direction : Direction} {limits : Limits} {r : Receiver}
    (h : Receiver.new lay sessionId direction limits = .ok r) :
    Codec.limits limits = .ok () ∧
      r = ⟨sessionId, direction, limits, .empty, 0, 0, 0, false⟩ := by
  obtain ⟨_, hvalid, h⟩ := bind_eq_ok.1 h
  obtain ⟨_, -, h⟩ := bind_eq_ok.1 h
  exact ⟨limits_of_validLimits hvalid, (Except.ok.inj h).symm⟩

theorem filed_of_new {sessionId : String} {direction : Direction} {limits : Limits} {r : Receiver}
    (h : Receiver.new lay sessionId direction limits = .ok r) : Filed lay r := by
  obtain ⟨hl, rfl⟩ := new_eq_ok h
  exact ⟨hl, fun id s hs => by cases hs⟩

/-- What every move keeps while the receiver lives holds in every live state. -/
theorem live_invariant {C : Receiver → Call → Bool} {Q : Receiver → Prop}
    (hmove : ∀ r₀ call r l r', C r₀ call = true → Filed lay r → Q r →
      Move lay (r₀.given call) r l r' →
      r'.failed = false → Q r')
    {s r : Receiver} {tr : List (Call × Outcome)} (hf : Filed lay s) (hq : Q s)
    (hrun : Run (StepWhen lay C) s tr r) (live : r.failed = false) : Filed lay r ∧ Q r := by
  refine hrun.invariant (P := fun _ r => r.failed = false → Filed lay r ∧ Q r)
    (fun _ => ⟨hf, hq⟩) (fun _ r l r' _ ih hstep => ?_) live
  obtain ⟨hcall, hC⟩ := hstep
  obtain ⟨evs, hw, -⟩ := call_shown (fun live => (ih live).1) l.1
  rw [show r.call lay l.1 = (r', l.2) from hcall] at hw
  refine hw.invariant (P := fun r => r.failed = false → Filed lay r ∧ Q r) (A := fun _ => True)
    (fun t k u _ hp hm live => ?_) (by simp) ih
  obtain ⟨hft, hqt⟩ := hp hm.live
  exact ⟨filed_move hft hm live, hmove r l.1 t k u hC hft hqt hm live⟩

/-! ### The counters -/

/-- The weight of a frame that was let in. -/
def weight (lay : Layout) (limits : Limits) (message : Envelope) : ℕ :=
  (frameCharge lay message limits).toOption.getD 0

theorem Frame.weight_eq {limits : Limits} {id seq : ℤ} {message : Envelope} {c : ℕ}
    (h : Frame lay limits id seq message c) : weight lay limits message = c := by
  unfold weight
  rw [h.charged]
  rfl

namespace StreamState

/-- The weight of the first and the last frame of a stream, as far as they are kept. -/
def kept (lay : Layout) (limits : Limits) (s : StreamState) : ℕ :=
  (s.opening.map (weight lay limits)).getD 0 +
    (s.terminal.map fun t => weight lay limits t.2).getD 0

/-- The weight of a last frame that is also the first. -/
def lost (lay : Layout) (limits : Limits) (s : StreamState) : ℕ :=
  (s.terminal.map fun t => if t.1 = 1 then weight lay limits t.2 else 0).getD 0

variable {limits : Limits} {id : ℤ} {s : StreamState} {message : Envelope} {c : ℕ}

/-- An applied frame is retained, lost, or not kept. -/
theorem kept_mark (h : s.Filed lay limits id) (unended : s.terminal = none)
    (frame : Frame lay limits id s.expected message c) :
    (s.mark s.expected message).kept lay limits = s.kept lay limits +
      (if retains s.expected message.kind then c else 0) +
        (s.mark s.expected message).lost lay limits := by
  have hweight := frame.weight_eq
  have hopening : s.expected = 1 → s.opening = none := by
    intro hone
    by_contra hne
    obtain ⟨opening, ho⟩ := Option.ne_none_iff_exists'.1 hne
    have := (h.opening opening ho).1
    omega
  unfold kept lost StreamState.mark retains
  cases hfinal : senderFinal message.kind <;> by_cases hone : s.expected = 1 <;>
    simp [hone, hopening, unended, hweight]

end StreamState

namespace Receiver

/-- The counters against what is there. -/
structure Accounted (lay : Layout) (r : Receiver) : Prop where
  frames : r.bufferedFrames = r.streams.sum (·.pending.size)
  buffered : r.bufferedCharge = r.streams.sum (·.pending.sum (·.charge))
  retained : r.retainedCharge + r.streams.sum (·.lost lay r.limits) =
    r.streams.sum (·.kept lay r.limits)
  bound : r.used lay ≤ r.availableBytes

variable {r : Receiver} {id : ℤ} {s s' : StreamState}

theorem sum_put (s' : StreamState) (hs : r.streams.get? id = some s) (f : StreamState → ℕ) :
    (r.put id s').streams.sum f + f s = r.streams.sum f + f s' := by
  have := r.streams.sum_insert f id s'
  rw [hs] at this
  exact this

theorem le_sum (hs : r.streams.get? id = some s) (f : StreamState → ℕ) :
    f s ≤ r.streams.sum f := by
  have := r.streams.sum_erase f id
  rw [hs] at this
  simp only [Option.map_some, Option.getD_some] at this
  omega

/-- The accounts after the work on one stream: what comes in and goes out of each counter is
what comes in and goes out of the stream. -/
theorem Accounted.put {r₁ : Receiver} (h : r.Accounted lay) (hs : r.streams.get? id = some s)
    (hstreams : r₁.streams = r.streams) (hlimits : r₁.limits = r.limits)
    (hframes : r₁.bufferedFrames + s.pending.size = r.bufferedFrames + s'.pending.size)
    (hbuffered : r₁.bufferedCharge + s.pending.sum (·.charge) =
      r.bufferedCharge + s'.pending.sum (·.charge))
    (hretained : r₁.retainedCharge + s'.lost lay r.limits + s.kept lay r.limits =
      r.retainedCharge + s.lost lay r.limits + s'.kept lay r.limits)
    (hbound : r₁.used lay ≤ r.availableBytes) : (r₁.put id s').Accounted lay := by
  have hs₁ : r₁.streams.get? id = some s := by rw [hstreams, hs]
  have hsum := fun f => sum_put s' hs₁ f
  have hle := fun f => le_sum hs f
  obtain ⟨h1, h2, h3, -⟩ := h
  refine ⟨?_, ?_, ?_, ?_⟩
  · have e := hsum (·.pending.size)
    rw [hstreams] at e
    have := hle (·.pending.size)
    show r₁.bufferedFrames = _
    omega
  · have e := hsum (·.pending.sum (·.charge))
    rw [hstreams] at e
    have := hle (·.pending.sum (·.charge))
    show r₁.bufferedCharge = _
    omega
  · have e := hsum (·.lost lay r.limits)
    have e' := hsum (·.kept lay r.limits)
    rw [hstreams] at e e'
    show r₁.retainedCharge + (r₁.put id s').streams.sum (·.lost lay r₁.limits) =
      (r₁.put id s').streams.sum (·.kept lay r₁.limits)
    rw [hlimits]
    omega
  · have hused : (r₁.put id s').used lay = r₁.used lay := by
      simp only [used, size_put_of_some hs₁]
      rfl
    have havailable : (r₁.put id s').availableBytes = r.availableBytes := by
      show asUsize (r₁.limits.queuedBytes - r₁.limits.controlReserveBytes) = _
      rw [hlimits]
      rfl
    rw [hused, havailable]
    exact hbound

end Receiver

/-- Every move of a live receiver keeps its accounts. -/
theorem accounted_move {A : Given} {r r' : Receiver} {l : Option Event} (hf : Filed lay r)
    (h : r.Accounted lay) (hm : Move lay A r l r') (hlive : r'.failed = false) :
    r'.Accounted lay := by
  cases hm with
  | @register id live positive fresh room =>
    obtain ⟨h1, h2, h3, -⟩ := h
    have hsum := fun f => r.streams.sum_insert f id StreamState.new
    simp only [fresh, Option.map_none, Option.getD_none, Nat.add_zero] at hsum
    refine ⟨?_, ?_, ?_, ?_⟩
    · exact h1.trans (hsum (·.pending.size)).symm
    · exact h2.trans (hsum (·.pending.sum (·.charge))).symm
    · exact (congrArg (r.retainedCharge + ·) (hsum (·.lost lay r.limits))).trans
        (h3.trans (hsum (·.kept lay r.limits)).symm)
    · rw [used, size_put_of_none fresh]
      exact (Nat.le_add_right _ _).trans room
  | @hold id seq s message c since given live hs frame unended free due first room =>
    have hsize := s.pending.sum_insert (fun _ => 1) seq ⟨message, c⟩
    have hcharge := s.pending.sum_insert (·.charge) seq ⟨message, c⟩
    simp only [free, Option.map_none, Option.getD_none, Nat.add_zero, ← SortedMap.size_eq_sum]
      at hsize hcharge
    refine h.put hs rfl rfl ?_ ?_ rfl ?_
    · show r.bufferedFrames + 1 + _ = _ + (s.pending.insert seq ⟨message, c⟩).size
      omega
    · show r.bufferedCharge + c + _ = _ + (s.pending.insert seq ⟨message, c⟩).sum (·.charge)
      omega
    · have : (r.hold c).used lay = r.used lay + c := by
        simp only [used, Receiver.hold]
        omega
      omega
  | @take id s message c given live hs frame unended free first last room =>
    have hkept := StreamState.kept_mark (hf.streams id s hs) unended frame
    have hlost : s.lost lay r.limits = 0 := by simp [StreamState.lost, unended]
    have hpending : (s.mark s.expected message).pending = s.pending :=
      SortedMap.erase_eq_self _ free
    refine h.put hs rfl rfl (by rw [hpending]; rfl) (by rw [hpending]; rfl) ?_ ?_
    · show r.retainedCharge + _ + _ + _ = _
      omega
    · have hbound := h.bound
      simp only [used, retain] at *
      by_cases hretains : retains s.expected message.kind = true
      · have hkeeps : s.expected = 1 ∨ senderFinal message.kind = true := by
          by_contra hne
          push Not at hne
          simp [retains, hne] at hretains
        have := room hkeeps
        rw [if_pos hretains]
        omega
      · rw [if_neg hretains]
        exact hbound
  | @drain id s held live hs hheld last =>
    have hfs := hf.streams id s hs
    have unended := hfs.unended hheld
    have hkept := StreamState.kept_mark hfs unended (hfs.pending _ _ hheld).1
    have hlost : s.lost lay r.limits = 0 := by simp [StreamState.lost, unended]
    have hsize := s.pending.sum_erase (fun _ => 1) s.expected
    have hcharge := s.pending.sum_erase (·.charge) s.expected
    simp only [hheld, Option.map_some, Option.getD_some, ← SortedMap.size_eq_sum] at hsize hcharge
    have hle := le_sum hs (·.pending.size)
    have hle' := le_sum hs (·.pending.sum (·.charge))
    rw [← h.frames] at hle
    rw [← h.buffered] at hle'
    refine h.put hs rfl rfl ?_ ?_ ?_ ?_
    · show r.bufferedFrames - 1 + _ = _ + (s.pending.erase s.expected).size
      omega
    · show r.bufferedCharge - held.charge + _ = _ + (s.pending.erase s.expected).sum (·.charge)
      omega
    · show r.retainedCharge + _ + _ + _ = _
      omega
    · have hbound := h.bound
      simp only [used, retain, uncharge] at *
      split_ifs <;> omega
  | @overtake id seq s message c given live hs frame unended passes above room =>
    obtain ⟨beyond, -, hfinal⟩ := of_overtakes passes
    have hexp := (hf.streams id s hs).expected
    have hle := le_sum hs (·.pending.size)
    have hle' := le_sum hs (·.pending.sum (·.charge))
    rw [← h.frames] at hle
    rw [← h.buffered] at hle'
    have hretains := retains_of_lt (show 1 < seq by omega) hfinal
    refine h.put hs rfl rfl ?_ ?_ ?_ ?_
    · show r.bufferedFrames - s.pending.size + _ = _ + 0
      omega
    · show r.bufferedCharge - s.pending.sum (·.charge) + _ = _ + 0
      omega
    · have hone : seq ≠ 1 := by omega
      simp [retain, release, hretains, StreamState.lost, StreamState.kept, unended, hone,
        frame.weight_eq]
      omega
    · have hbound := h.bound
      simp only [used, retain, release, hretains, if_true] at *
      omega
  | @settle id s since live hs => exact h.put hs rfl rfl rfl rfl rfl h.bound
  | clash given live hs frame why ended => rw [ended] at hlive; cases hlive
  | reject live ended => rw [ended] at hlive; cases hlive
  | timeout live => cases hlive

theorem accounted_of_new {sessionId : String} {direction : Direction} {limits : Limits}
    {r : Receiver} (h : Receiver.new lay sessionId direction limits = .ok r) :
    r.Accounted lay := by
  obtain ⟨-, rfl⟩ := new_eq_ok h
  exact ⟨rfl, rfl, rfl, by simp [used, SortedMap.size, SortedMap.empty]⟩

/-- A call that gives a frame submits it, in the state in which the frame is dealt with. -/
theorem Receiver.of_given {r₀ r : Receiver} {call : Call} {message : Envelope} {held : Bool}
    (h : r₀.given call r message held) : r = r₀ ∧ ∃ now apply, call = .submit message now apply ∧
      message.sessionId = r.sessionId ∧ (held = true → r.Early message ∨
        apply 0 message = .error .wouldBlock) := by
  cases call with
  | submit m now apply =>
    obtain ⟨rfl, rfl, hsession, hheld⟩ := h
    exact ⟨rfl, now, apply, rfl, hsession, hheld⟩
  | register => cases h
  | advance => cases h
  | retry => cases h

/-! ### A small receiver -/

/-- Limits that hold few frames of the largest size. -/
def tightLimits : Limits where
  encodedFrame := 4096
  dataPayload := 1024
  metadataBytes := 256
  nesting := 10
  collectionEntries := 128
  decodeAllocation := 16384
  queuedBytes := 59424
  queuedFrames := 8
  receiveWindow := 1024
  controlReserveBytes := 1024
  controlReserveFrames := 2

/-- The sizes the source's types have on a 64-bit target. -/
def builtLayout : Layout := ⟨3768, 1864⟩

/-- A receiver as it is made. -/
def freshReceiver (direction : Direction) : Receiver :=
  ⟨"s", direction, tightLimits, .empty, 0, 0, 0, false⟩

theorem freshReceiver_new (direction : Direction) :
    Receiver.new builtLayout "s" direction tightLimits = .ok (freshReceiver direction) := by
  have hvalid : validLimits builtLayout tightLimits = .ok () :=
    refuseIf_eq_ok.2 (by decide +kernel)
  unfold Receiver.new
  rw [hvalid]
  rfl

/-- The application takes every frame. -/
def acceptAll : Apply := fun _ _ => .ok ()

def identityCheckedFrame (id seq : ℤ) : Envelope where
  version := 3
  sessionId := "s"
  streamId := id
  kind := .identityChecked
  messageSeq := some seq
  identityChecked := some ⟨⟩

def openFrame (id seq : ℤ) : Envelope where
  version := 3
  sessionId := "s"
  streamId := id
  kind := .open_
  messageSeq := some seq
  open_ := some
    { endpointId := "e", operationId := "o"
      destination := ⟨.ssh, "host", 22, "/path", some "git", none⟩
      service := .uploadPackAdvertisement
      identity := ⟨.ambient, none, none⟩
      policy := .sshAmbient
      deadlines := ⟨1, 1, 1, 1, 1⟩
      receiveLimits := tightLimits }

def windowFrame (id seq : ℤ) : Envelope where
  version := 3
  sessionId := "s"
  streamId := id
  kind := .window
  messageSeq := some seq
  window := some ⟨1⟩

/-! ### First frames that are also last -/

/-- The frame is let in as the first and the last one of its stream. -/
def Receiver.lone (lay : Layout) (r : Receiver) (message : Envelope) : Bool :=
  match r.checkFrame lay message, r.streams.get? message.streamId with
  | .ok (seq, c), some s => seq == 1 && senderFinal message.kind && s.terminal.isNone &&
    s.expected == 1 && (s.pending.get? 1).isNone && firstKind r.direction message.kind &&
    decide (r.used lay + c ≤ r.availableBytes)
  | _, _ => false

/-- The call submits no frame that is let in as the first and the last one of its stream. -/
def Receiver.counted (lay : Layout) (r : Receiver) : Call → Bool
  | .submit message _ _ => !r.lone lay message
  | _ => true

/-- No stream ended with its first frame, and none is about to. -/
def Receiver.Plural (r : Receiver) : Prop :=
  ∀ id s, r.streams.get? id = some s → (∀ message, s.terminal ≠ some (1, message)) ∧
    ∀ held, s.pending.get? 1 = some held → senderFinal held.message.kind = false

theorem StreamState.lost_eq_zero {limits : Limits} {s : StreamState}
    (h : ∀ message, s.terminal ≠ some (1, message)) : s.lost lay limits = 0 := by
  unfold lost
  cases hterminal : s.terminal with
  | none => rfl
  | some t =>
    obtain ⟨last, message⟩ := t
    have hone : last ≠ 1 := fun hone => h message (hone ▸ hterminal)
    simp [hone]

theorem Receiver.Plural.put {r : Receiver} {id : ℤ} {s : StreamState} (h : r.Plural)
    (h1 : ∀ message, s.terminal ≠ some (1, message))
    (h2 : ∀ held, s.pending.get? 1 = some held → senderFinal held.message.kind = false) :
    (r.put id s).Plural :=
  r.streams.forall_insert h ⟨h1, h2⟩

theorem plural_move {r₀ r r' : Receiver} {call : Call} {l : Option Event}
    (hC : r₀.counted lay call = true) (hf : Filed lay r) (h : r.Plural)
    (hm : Move lay (r₀.given call) r l r') (hlive : r'.failed = false) : r'.Plural := by
  -- a frame that is given is not both the first and the last one of a stream without an end
  have hgiven : ∀ {id seq s message c b}, r₀.given call r message b →
      r.streams.get? id = some s → Frame lay r.limits id seq message c → s.terminal = none →
      s.expected ≤ seq → s.pending.get? seq = none →
      (seq = 1 → firstKind r.direction message.kind = true) → r.used lay + c ≤ r.availableBytes →
      seq = 1 → senderFinal message.kind = false := by
    rintro id seq s message c b hgiven hs frame unended due free first room rfl
    obtain ⟨rfl, now, apply, rfl, hsession, -⟩ := of_given hgiven
    have hexp := (hf.streams id s hs).expected
    have hone : s.expected = 1 := by omega
    obtain rfl := frame.stream
    simpa [counted, lone, checkFrame_eq_ok.2 ⟨hsession, frame⟩, hs, unended, hone, free, first rfl,
      room] using hC
  cases hm with
  | register => exact h.put (fun _ h => by cases h) fun _ h => by cases h
  | @hold id seq s message c since given live hs frame unended free due first room =>
    have hr : (r.hold c).Plural := h
    obtain ⟨h1, h2⟩ := h id s hs
    refine hr.put h1 fun held hheld => ?_
    rw [SortedMap.get?_insert] at hheld
    split_ifs at hheld with hone
    · obtain rfl := Option.some.inj hheld
      exact hgiven given hs frame unended due free first (by omega) hone.symm
    · exact h2 held hheld
  | @take id s message c given live hs frame unended free first last room =>
    have hr : (r.retain s.expected message.kind c).Plural := h
    obtain ⟨h1, h2⟩ := h id s hs
    refine hr.put (fun m hm => ?_) fun held hheld => ?_
    · cases hfinal : senderFinal message.kind with
      | false =>
        simp only [StreamState.mark, hfinal, Bool.false_eq_true, if_false] at hm
        exact h1 m hm
      | true =>
        simp only [StreamState.mark, hfinal, if_true, Option.some.injEq, Prod.mk.injEq] at hm
        have := hgiven given hs frame unended le_rfl free first (room (.inr hfinal)) hm.1
        rw [hfinal] at this
        cases this
    · have hheld : (s.pending.erase s.expected).get? 1 = some held := hheld
      rw [SortedMap.erase_eq_self _ free] at hheld
      exact h2 held hheld
  | @drain id s held live hs hheld last =>
    have hr : ((r.uncharge held.charge).retain s.expected held.message.kind held.charge).Plural := h
    obtain ⟨h1, h2⟩ := h id s hs
    refine hr.put (fun m hm => ?_) fun other hother => ?_
    · cases hfinal : senderFinal held.message.kind with
      | false =>
        simp only [StreamState.mark, hfinal, Bool.false_eq_true, if_false] at hm
        exact h1 m hm
      | true =>
        simp only [StreamState.mark, hfinal, if_true, Option.some.injEq, Prod.mk.injEq] at hm
        have := h2 held (hm.1 ▸ hheld)
        rw [hfinal] at this
        cases this
    · have hother : (s.pending.erase s.expected).get? 1 = some other := hother
      rw [SortedMap.get?_erase] at hother
      split_ifs at hother
      exact h2 other hother
  | @overtake id seq s message c given live hs frame unended passes above room =>
    have hr : ((r.release s).retain seq message.kind c).Plural := h
    refine hr.put (fun m hm => ?_) fun held hheld => ?_
    · obtain ⟨rfl, -⟩ := Prod.mk.inj (Option.some.inj hm)
      have := (of_overtakes passes).1
      have := (hf.streams id s hs).expected
      omega
    · rw [SortedMap.get?_empty] at hheld
      cases hheld
  | @settle id s since live hs => exact h.put (h id s hs).1 (h id s hs).2
  | clash given live hs frame why ended => rw [ended] at hlive; cases hlive
  | reject live ended => rw [ended] at hlive; cases hlive
  | timeout live => cases hlive

/-- **The accounts of a receiver.**  As long as no frame is let in as the first and the last one of
its stream, the three counters are exact in every live state, and the receiver
stays within what the limits leave. -/
theorem counters_exact {sessionId : String} {direction : Direction} {limits : Limits}
    {r₀ r : Receiver} {tr : List (Call × Outcome)}
    (hnew : Receiver.new lay sessionId direction limits = .ok r₀)
    (hrun : Run (StepWhen lay (Receiver.counted lay)) r₀ tr r) (live : r.failed = false) :
    r.bufferedFrames = r.streams.sum (·.pending.size) ∧
      r.bufferedCharge = r.streams.sum (·.pending.sum (·.charge)) ∧
      r.retainedCharge = r.streams.sum (·.kept lay r.limits) ∧
      ((lay.recordCharge * r.streams.size + r.retainedCharge + r.bufferedCharge : ℕ) : ℤ) ≤
        r.limits.queuedBytes - r.limits.controlReserveBytes := by
  obtain ⟨hf, haccounted, hplural⟩ := live_invariant (Q := fun r => r.Accounted lay ∧ r.Plural)
    (fun r₀ call r l r' hC hf hq hm hlive => ⟨accounted_move hf hq.1 hm hlive,
      plural_move hC hf hq.2 hm hlive⟩)
    (filed_of_new hnew) ⟨accounted_of_new hnew, by
      obtain ⟨-, rfl⟩ := new_eq_ok hnew
      exact fun id s hs => by cases hs⟩ hrun live
  obtain ⟨h1, h2, h3, h4⟩ := haccounted
  refine ⟨h1, h2, ?_, ?_⟩
  · have hlost : r.streams.sum (·.lost lay r.limits) = 0 := by
      refine List.sum_eq_zero fun n hn => ?_
      obtain ⟨⟨id, s⟩, hmem, rfl⟩ := List.mem_map.1 hn
      exact StreamState.lost_eq_zero (hplural id s (r.streams.mem_toList.1 hmem)).1
    omega
  · have havailable := (availableBytes_eq hf.limits).1
    have : lay.recordCharge * r.streams.size = r.streams.size * lay.recordCharge := Nat.mul_comm _ _
    unfold used at h4
    omega

/-- An identity check and its answer. -/
def checkedOnce : List Call :=
  [.register 1, .submit (identityCheckedFrame 1 1) 0 acceptAll]

/-- The answer to an identity check is its stream's first and last frame: it is retained, and not
counted. -/
theorem lone_frame_uncounted : ∃ tr r, Run (Step builtLayout) (freshReceiver .endpoint) tr r ∧
    r.failed = false ∧ r.retainedCharge = 0 ∧
      r.streams.sum (·.kept builtLayout r.limits) = 6496 := by
  refine ⟨_, (freshReceiver .endpoint).after builtLayout checkedOnce,
    run_of_runWhen (run_after (C := fun _ _ => true) rfl), ?_⟩
  decide +kernel

/-- A stream's second frame arrives before its first, and two other streams are opened. -/
def heldAndOpened : List Call :=
  [.register 1, .register 2, .register 3, .register 4, .submit (windowFrame 1 2) 0 acceptAll,
    .submit (openFrame 2 1) 0 acceptAll, .submit (openFrame 3 1) 0 acceptAll]

theorem counters_exact_open :
    let r := (freshReceiver .initiator).after builtLayout heldAndOpened
    r.bufferedFrames = 1 ∧ 0 < r.retainedCharge ∧
      r.bufferedFrames = r.streams.sum (·.pending.size) ∧
      r.bufferedCharge = r.streams.sum (·.pending.sum (·.charge)) ∧
      r.retainedCharge = r.streams.sum (·.kept builtLayout r.limits) ∧
      ((builtLayout.recordCharge * r.streams.size + r.retainedCharge + r.bufferedCharge : ℕ) : ℤ) ≤
        r.limits.queuedBytes - r.limits.controlReserveBytes :=
  ⟨by decide +kernel, by decide +kernel, counters_exact (freshReceiver_new .initiator)
    (run_after (by decide +kernel)) (by decide +kernel)⟩

end GwzTransport.Sequenced
