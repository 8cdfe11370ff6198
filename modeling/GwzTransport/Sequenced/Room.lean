import GwzTransport.Sequenced.Charges

/-!
# The room for the frame that is waited for

A frame that comes too early is held only if room remains for the frame its stream waits for.
Later calls may use that room up: the first and the last frame of another stream are retained, and
a frame that the application is not ready for is held, without leaving it.  Only the first frame
of a stream needs the room, since later frames are handed on without being kept.

* `Spare`: while a stream that holds frames waits for its first one, there is room for it;
* `spares`: the calls that leave this room;
* `predecessor_admitted`: with such calls the missing frame is never refused for want of room.
-/

namespace GwzTransport.Sequenced

open Protocol MachineInt Checks Transition Receiver

variable {lay : Layout}

/-- The stream holds frames and has not seen its first one. -/
def StreamState.waits (s : StreamState) : Bool :=
  s.terminal.isNone && s.expected == 1 && !s.pending.isEmpty && (s.pending.get? 1).isNone

namespace Receiver

/-- A stream other than this one waits for its first frame. -/
def awaited (r : Receiver) (id : ℤ) : Bool :=
  r.streams.toList.any fun e => e.1 != id && e.2.waits

/-- Whether a frame that is dealt with at once adds to the accounts: the first and the last frame
of a stream, and a frame that the application is not ready for. -/
def addsTo (s : StreamState) (message : Envelope) (seq : ℤ) (apply : Apply) : Bool :=
  seq == s.expected && (seq == 1 || senderFinal message.kind ||
    match apply 0 message with
    | .error .wouldBlock => true
    | _ => false)

/-- If a frame fits once something is given up for it, the room kept for a first frame is left. -/
def leavesRoom (lay : Layout) (r : Receiver) (c freed : ℕ) : Bool :=
  decide (r.availableBytes + freed < r.used lay + c) ||
    decide (r.used lay + c + r.predecessorReserve lay ≤ r.availableBytes + freed)

/-- While another stream waits for its first frame, the frame leaves the room kept for it. -/
def sparesFor (lay : Layout) (r : Receiver) (s : StreamState) (message : Envelope) (seq : ℤ)
    (c : ℕ) (apply : Apply) : Bool :=
  !r.awaited message.streamId || (remembered s message seq).isSome ||
    (!addsTo s message seq apply || r.leavesRoom lay c 0) &&
    (!overtakes r.direction s message.kind seq || r.leavesRoom lay c (s.pending.sum (·.charge)))

/-- The call leaves the room kept for the first frame of another stream. -/
def spares (lay : Layout) (r : Receiver) : Call → Bool
  | .submit message _ apply =>
    match r.checkFrame lay message, r.streams.get? message.streamId with
    | .ok (seq, c), some s => r.sparesFor lay s message seq c apply
    | _, _ => true
  | _ => true

/-- While a stream waits for its first frame, there is room for it. -/
def Spare (lay : Layout) (r : Receiver) : Prop :=
  ∀ id s, r.streams.get? id = some s → s.waits = true →
    r.used lay + r.predecessorReserve lay ≤ r.availableBytes

variable {r : Receiver} {id : ℤ} {s s' : StreamState}

theorem spares_submit {message : Envelope} {now : ℕ} {apply : Apply} {seq : ℤ} {c : ℕ}
    (hs : r.streams.get? id = some s) (frame : Frame lay r.limits id seq message c)
    (hsession : message.sessionId = r.sessionId)
    (h : r.spares lay (.submit message now apply) = true) :
    r.sparesFor lay s message seq c apply = true := by
  obtain rfl := frame.stream
  simpa [spares, hs, checkFrame_eq_ok.2 ⟨hsession, frame⟩] using h

/-- After work on one stream that leaves it not waiting, room is needed only for others. -/
theorem Spare.put {r₁ : Receiver} (hs : r.streams.get? id = some s)
    (hstreams : r₁.streams = r.streams) (hlimits : r₁.limits = r.limits)
    (hwaits : s'.waits = true → r₁.used lay + r.predecessorReserve lay ≤ r.availableBytes)
    (hothers : r.awaited id = true →
      r₁.used lay + r.predecessorReserve lay ≤ r.availableBytes) : (r₁.put id s').Spare lay := by
  have hs₁ : r₁.streams.get? id = some s := by rw [hstreams, hs]
  have hused : (r₁.put id s').used lay = r₁.used lay := by
    simp only [used, size_put_of_some hs₁]
    rfl
  have havailable : (r₁.put id s').availableBytes = r.availableBytes := by
    show asUsize (r₁.limits.queuedBytes - r₁.limits.controlReserveBytes) = _
    rw [hlimits]
    rfl
  have hreserve : (r₁.put id s').predecessorReserve lay = r.predecessorReserve lay := by
    show asUsize (r₁.limits.encodedFrame + r₁.limits.decodeAllocation) + _ = _
    rw [hlimits]
    rfl
  intro j t ht hwait
  rw [hused, havailable, hreserve]
  have ht : (r₁.streams.insert id s').get? j = some t := ht
  rw [SortedMap.get?_insert, hstreams] at ht
  split_ifs at ht with hj
  · exact hwaits (Option.some.inj ht ▸ hwait)
  · refine hothers (List.any_eq_true.2 ⟨(j, t), r.streams.mem_toList.2 ht, ?_⟩)
    simp [hj, hwait]

theorem remembered_eq_none {message : Envelope} {seq : ℤ} (unended : s.terminal = none)
    (due : s.expected ≤ seq) (free : s.pending.get? seq = none) :
    remembered s message seq = none := by
  simp [remembered, unended, not_lt.2 due, free]

theorem waits_mark {limits : Limits} (message : Envelope) (h : s.Filed lay limits id) :
    (s.mark s.expected message).waits = false := by
  have hexp := h.expected
  have hne : s.expected + 1 ≠ 1 := by omega
  simp [StreamState.waits, StreamState.mark, hne]

end Receiver

/-- Every move of calls that leave the room keeps it. -/
theorem spare_move {r₀ r r' : Receiver} {call : Call} {l : Option Event}
    (hC : r₀.spares lay call = true) (hf : Filed lay r) (ha : r.Accounted lay) (h : r.Spare lay)
    (hm : Move lay (r₀.given call) r l r') (hlive : r'.failed = false) : r'.Spare lay := by
  have hawaited : ∀ id, r.awaited id = true →
      r.used lay + r.predecessorReserve lay ≤ r.availableBytes := by
    intro id hid
    obtain ⟨⟨j, t⟩, hmem, hj⟩ := List.any_eq_true.1 hid
    simp only [Bool.and_eq_true] at hj
    exact h j t (r.streams.mem_toList.1 hmem) hj.2
  cases hm with
  | @register id live positive fresh room =>
    intro j t ht hwait
    have hused : (r.put id .new).used lay + r.predecessorReserve lay ≤ r.availableBytes := by
      rw [used, size_put_of_none fresh]
      exact room
    exact hused
  | @hold id seq s message c since given live hs frame unended free due first room =>
    have hused : (r.hold c).used lay = r.used lay + c := by
      simp only [used, Receiver.hold]
      omega
    obtain ⟨rfl, now, apply, rfl, hsession, hheld⟩ := of_given given
    by_cases hearly : s.expected < seq
    · rw [if_pos hearly] at room
      exact Spare.put hs rfl rfl (fun _ => by omega) fun _ => by omega
    · obtain rfl : s.expected = seq := le_antisymm due (not_lt.1 hearly)
      refine Spare.put hs rfl rfl (fun hwait => ?_) fun hother => ?_
      · -- the frame that is held is the one the stream waits for
        simp only [StreamState.waits, Bool.and_eq_true, beq_iff_eq, Option.isNone_iff_eq_none]
          at hwait
        obtain ⟨⟨⟨-, hone⟩, -⟩, hnone⟩ := hwait
        rw [hone, SortedMap.get?_insert_self] at hnone
        cases hnone
      · have hblocked : apply 0 message = .error .wouldBlock := by
          refine (hheld rfl).resolve_left ?_
          rintro ⟨t, ht, hlt⟩
          rw [frame.stream, hs] at ht
          rw [frame.numbered, ← Option.some.inj ht] at hlt
          exact lt_irrefl _ hlt
        have hspares := spares_submit hs frame hsession hC
        simp only [sparesFor, frame.stream, hother, remembered_eq_none unended due free, addsTo,
          hblocked, overtakes, leavesRoom] at hspares
        simp at hspares
        rw [if_neg hearly] at room
        omega
  | @take id s message c given live hs frame unended free first last room =>
    obtain ⟨rfl, now, apply, rfl, hsession, -⟩ := of_given given
    have hmark := waits_mark message (hf.streams id s hs)
    refine Spare.put hs rfl rfl (fun hwait => by rw [hmark] at hwait; cases hwait) fun hother => ?_
    have hspare := hawaited id hother
    by_cases hretains : retains s.expected message.kind = true
    · have hkeeps : s.expected = 1 ∨ senderFinal message.kind = true := by
        by_contra hne
        push Not at hne
        simp [retains, hne] at hretains
      have hspares := spares_submit hs frame hsession hC
      simp only [sparesFor, frame.stream, hother, remembered_eq_none unended le_rfl free, addsTo,
        overtakes, leavesRoom] at hspares
      have hadds : (s.expected == 1 || senderFinal message.kind) = true := by simpa using hkeeps
      simp [hadds] at hspares
      have hroom := room hkeeps
      simp only [used, retain, hretains, if_true] at *
      omega
    · simp only [used, retain, hretains] at *
      exact hspare
  | @drain id s held live hs hheld last =>
    have hmark := waits_mark held.message (hf.streams id s hs)
    refine Spare.put hs rfl rfl (fun hwait => by rw [hmark] at hwait; cases hwait) fun hother => ?_
    have hspare := hawaited id hother
    have hcharge := s.pending.sum_erase (·.charge) s.expected
    simp only [hheld, Option.map_some, Option.getD_some] at hcharge
    have hle := le_sum hs (·.pending.sum (·.charge))
    rw [← ha.buffered] at hle
    simp only [used, retain, uncharge] at *
    split_ifs <;> omega
  | @overtake id seq s message c given live hs frame unended passes above room =>
    obtain ⟨rfl, now, apply, rfl, hsession, -⟩ := of_given given
    refine Spare.put hs rfl rfl (fun hwait => by simp [StreamState.waits] at hwait) fun hother => ?_
    obtain ⟨beyond, -, hfinal⟩ := of_overtakes passes
    have hexp := (hf.streams id s hs).expected
    have hretains := retains_of_lt (show 1 < seq by omega) hfinal
    have free : s.pending.get? seq = none := by
      by_contra hne
      obtain ⟨other, hother⟩ := Option.ne_none_iff_exists'.1 hne
      exact lt_irrefl _ (above seq other hother)
    have hspares := spares_submit hs frame hsession hC
    simp only [sparesFor, frame.stream, hother, remembered_eq_none unended beyond.le free, addsTo,
      passes, leavesRoom] at hspares
    have hne : (seq == s.expected) = false := by simpa using beyond.ne'
    simp [hne] at hspares
    have hle := le_sum hs (·.pending.sum (·.charge))
    rw [← ha.buffered] at hle
    simp only [used, retain, release, hretains, if_true] at *
    omega
  | @settle id s since live hs =>
    exact Spare.put hs rfl rfl (fun hwait => h id s hs hwait) fun hother => hawaited id hother
  | clash given live hs frame why ended => rw [ended] at hlive; cases hlive
  | reject live ended => rw [ended] at hlive; cases hlive
  | timeout live => cases hlive

/-- The frame a stream waits for, with frames held behind it, is refused for want of room only if
it is the stream's first. -/
theorem waits_of_wouldBlock {r : Receiver} {id : ℤ} {s : StreamState} {message : Envelope}
    {c now : ℕ} {apply : Apply} (live : r.failed = false) (hf : Filed lay r)
    (hs : r.streams.get? id = some s) (unended : s.terminal = none)
    (hheld : s.pending.isEmpty = false) (frame : Frame lay r.limits id s.expected message c)
    (haccept : apply 0 message = .ok ())
    (h : ((r.without id).submitInner lay s message s.expected c now apply).result =
      .error .wouldBlock) :
    s.waits = true ∧ r.availableBytes < r.used lay + c := by
  have hfs := hf.streams id s hs
  have hexp := hfs.expected
  have hbounds := frame.bounds
  unfold submitInner at h
  cases hanswer : remembered s message s.expected with
  | some answer =>
    rw [hanswer] at h
    rcases of_remembered_eq_some hanswer with ⟨status, rfl⟩ | ⟨rfl, -⟩ <;> cases h
  | none =>
    obtain ⟨-, -, free⟩ := of_remembered_eq_none hanswer
    have hover : overtakes (r.without id).direction s message.kind s.expected = false := by
      simp [overtakes]
    simp only [hanswer, hover, Bool.false_eq_true, if_false, lt_irrefl] at h
    by_cases hfirst : (s.expected == 1 && !firstKind (r.without id).direction message.kind) = true
    · rw [if_pos hfirst] at h
      cases h
    rw [if_neg hfirst] at h
    have hfinal : senderFinal message.kind = false := by
      by_contra hne
      have hne : senderFinal message.kind = true := by simpa using hne
      rw [applyNext, hne, hheld] at h
      cases h
    have hgoes : (senderFinal message.kind && !s.pending.isEmpty) = false := by simp [hfinal]
    cases hretain : (if (s.expected == 1 || senderFinal message.kind) = true then
        (r.without id).checkRetain lay c 0 else Except.ok ()) with
    | error e =>
      have hone : s.expected = 1 := by
        by_contra hne
        rw [if_neg (by simp [hne, hfinal])] at hretain
        cases hretain
      rw [if_pos (by simp [hone])] at hretain
      refine ⟨?_, ?_⟩
      · rw [hone] at free
        simp [StreamState.waits, unended, hone, hheld, free]
      · by_contra hroom
        have hok : (r.without id).checkRetain lay c 0 = .ok () := by
          rw [checkRetain_eq_ok (r := r.without id) hf.limits, size_without hs]
          simpa [used] using hroom
        rw [hretain] at hok
        cases hok
    | ok u =>
      -- an accepted frame is followed by a drain, which is not refused
      rw [applyNext_of_accepted frame hexp.2 free (by simp [hfinal]) hretain haccept] at h
      have hm : Move lay (fun _ _ _ => True) r _ _ := Move.take trivial live hs frame unended free
        (fun hone => by simpa [hone] using hfirst) (by simp [hfinal]) (by
          intro hkept
          rw [if_pos (by simpa using hkept)] at hretain
          have := (checkRetain_eq_ok (r := r.without id) hf.limits).1 hretain
          rw [size_without hs] at this
          simpa [used] using this)
      rw [← put_without] at hm
      obtain ⟨-, hfatal⟩ := drainPending_explained (A := fun _ _ _ => True) apply 1
        (r := (r.without id).retain s.expected message.kind c) (s := s.mark s.expected message) live
        (filed_move hf hm live)
      simp only at h
      cases hdrain : (((r.without id).retain s.expected message.kind c).drainPending
          (s.mark s.expected message) id apply 1).result with
      | ok resolved => rw [hdrain] at h; cases h
      | error e =>
        have := hfatal e hdrain
        rw [hdrain] at h this
        cases h
        cases this

/-- **The missing frame is admitted.**  In a run whose calls leave the room that is kept for the
first frame of another stream, a stream that holds frames is never refused the frame it waits for:
not for want of room, once the application takes it. -/
theorem predecessor_admitted {sessionId : String} {direction : Direction} {limits : Limits}
    {r₀ r : Receiver} {tr : List (Call × Outcome)}
    (hnew : Receiver.new lay sessionId direction limits = .ok r₀)
    (hrun : Run (StepWhen lay (Receiver.spares lay)) r₀ tr r) (live : r.failed = false)
    {s : StreamState} {message : Envelope} {c : ℕ}
    (hs : r.streams.get? message.streamId = some s) (unended : s.terminal = none)
    (hheld : s.pending.isEmpty = false)
    (hvalid : r.checkFrame lay message = .ok (s.expected, c)) (now : ℕ) (apply : Apply)
    (haccept : apply 0 message = .ok ()) :
    (r.submit lay message now apply).2.result ≠ .error .wouldBlock := by
  obtain ⟨hf, haccounted, hspare⟩ := live_invariant
    (Q := fun r => r.Accounted lay ∧ r.Spare lay)
    (fun r₀ call r l r' hC hf hq hm hlive => ⟨accounted_move hf hq.1 hm hlive,
      spare_move hC hf hq.1 hq.2 hm hlive⟩)
    (filed_of_new hnew) ⟨accounted_of_new hnew, by
      obtain ⟨-, rfl⟩ := new_eq_ok hnew
      exact fun id s hs => by cases hs⟩ hrun live
  intro hblock
  rcases submit_cases lay r message now apply with
    ⟨e, hanswer, hne, -⟩ | ⟨-, s', seq, c', hs', -, frame, hsubmit⟩
  · rw [hanswer] at hblock
    exact hne (Except.error.inj hblock)
  · obtain rfl : s = s' := Option.some.inj (hs.symm.trans hs')
    have hframe := (checkFrame_eq_ok.1 hvalid).2
    obtain rfl : seq = s.expected := by
      have := frame.numbered.symm.trans hframe.numbered
      exact Option.some.inj this
    rw [hsubmit] at hblock
    obtain ⟨hwaits, hroom⟩ := waits_of_wouldBlock live hf hs unended hheld frame haccept hblock
    have := hspare _ s hs hwaits
    have := frame.le_reserve hf.limits
    omega

/-- The room kept for the first frame of one stream goes to the first frame of another. -/
theorem opening_takes_room : ∃ tr r s, Run (Step builtLayout) (freshReceiver .initiator) tr r ∧
    r.failed = false ∧ r.streams.get? 1 = some s ∧ s.waits = true ∧
      (r.checkFrame builtLayout (openFrame 1 1)).isOk = true ∧
      (r.submit builtLayout (openFrame 1 1) 0 acceptAll).2.result = .error .wouldBlock := by
  have hwaits : (((freshReceiver .initiator).after builtLayout heldAndOpened).streams.get? 1).any
      StreamState.waits = true := by decide +kernel
  obtain ⟨s, hs, hw⟩ := (Option.any_eq_true _ _).1 hwaits
  exact ⟨_, _, s, run_of_runWhen (run_after (C := fun _ _ => true) rfl), by decide +kernel, hs, hw,
    by decide +kernel, by decide +kernel⟩

/-- A stream's second frame arrives before its first. -/
def heldAlone : List Call := [.register 1, .submit (windowFrame 1 2) 0 acceptAll]

theorem predecessor_admitted_alone :
    let r := (freshReceiver .initiator).after builtLayout heldAlone
    r.bufferedFrames = 1 ∧
      (r.submit builtLayout (openFrame 1 1) 0 acceptAll).2.result ≠ .error .wouldBlock := by
  refine ⟨by decide +kernel, ?_⟩
  have hstate : (((freshReceiver .initiator).after builtLayout heldAlone).streams.get? 1).any
      (fun s => s.terminal.isNone && !s.pending.isEmpty && s.expected == 1) = true := by
    decide +kernel
  obtain ⟨s, hs, hstate⟩ := (Option.any_eq_true _ _).1 hstate
  simp only [Bool.and_eq_true, Option.isNone_iff_eq_none, Bool.not_eq_true', beq_iff_eq] at hstate
  obtain ⟨⟨unended, hheld⟩, hexpected⟩ := hstate
  have hvalid : (((freshReceiver .initiator).after builtLayout heldAlone).checkFrame builtLayout
      (openFrame 1 1)).toOption.map (·.1) = some 1 := by decide +kernel
  cases hcheck : ((freshReceiver .initiator).after builtLayout heldAlone).checkFrame builtLayout
      (openFrame 1 1) with
  | error e => rw [hcheck] at hvalid; cases hvalid
  | ok frame =>
    obtain ⟨seq, c⟩ := frame
    rw [hcheck] at hvalid
    obtain rfl : seq = 1 := Option.some.inj hvalid
    exact predecessor_admitted (freshReceiver_new .initiator) (run_after (by decide +kernel))
      (by decide +kernel) hs unended hheld (by rw [hexpected]; exact hcheck) 0 acceptAll rfl

end GwzTransport.Sequenced
