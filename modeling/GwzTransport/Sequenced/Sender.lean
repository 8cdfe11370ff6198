import GwzTransport.Lib.Method
import GwzTransport.Sequenced.Order

/-!
# What a sender queues

`Outbound::enqueue` gives a frame its number before it knows whether the queue has room, and
changes its books afterwards.  `enqueueInPlace` is the method statement by statement, and an error
leaves the object as it was.

* `Books`: the queue, the two counters and the three maps against the frames that were accepted and
  those that were popped; kept by both calls;
* `openStreams`: the streams that were begun and not yet ended by their sender.
-/

namespace GwzTransport.Sequenced

open Protocol MachineInt Checks Transition Method

variable {lay : Layout}

/-- A prefix of numbered frames is numbered. -/
theorem Numbered.of_append {n : ℕ} {log log' : List Envelope} (h : Numbered n (log ++ log')) :
    Numbered log.length log := by
  unfold Numbered at *
  have htake := congrArg (List.take log.length) h
  rw [List.map_append, List.take_left' (List.length_map _), ← List.map_take,
    List.take_range] at htake
  have hle : log.length ≤ n := by
    have := congrArg List.length h
    simp at this
    omega
  rwa [min_eq_left hle] at htake

/-- The streams of some frames. -/
def begun (log : List Envelope) : Finset ℤ := (log.map (·.streamId)).toFinset

/-- The streams that a frame has ended. -/
def finished (log : List Envelope) : Finset ℤ := begun (log.filter (senderFinal ·.kind))

/-- The streams that have begun and not ended. -/
def openStreams (log : List Envelope) : Finset ℤ := begun log \ finished log

theorem mem_begun {id : ℤ} {log : List Envelope} :
    id ∈ begun log ↔ ∃ m ∈ log, m.streamId = id := by
  simp [begun]

theorem begun_snoc (log : List Envelope) (m : Envelope) :
    begun (log ++ [m]) = insert m.streamId (begun log) := by
  ext id
  simp [begun, eq_comm]

theorem finished_snoc (log : List Envelope) (m : Envelope) : finished (log ++ [m]) =
    if senderFinal m.kind then insert m.streamId (finished log) else finished log := by
  unfold finished
  rw [List.filter_append]
  cases hfinal : senderFinal m.kind with
  | true => rw [List.filter_singleton, hfinal, if_pos rfl]; exact begun_snoc _ _
  | false => simp [hfinal]

theorem finished_subset (log : List Envelope) : finished log ⊆ begun log := by
  intro id hid
  obtain ⟨m, hm, rfl⟩ := mem_begun.1 hid
  exact mem_begun.2 ⟨m, (List.mem_filter.1 hm).1, rfl⟩

theorem frames_bounds {limits : Limits} (h : Codec.limits limits = .ok ()) :
    0 < limits.controlReserveFrames ∧ limits.controlReserveFrames < limits.queuedFrames ∧
      limits.queuedFrames ≤ 64 := by
  have h := Checks.refuseIf_eq_ok.1 h
  simp only [List.any_cons, List.any_nil, Bool.or_eq_false_iff, decide_eq_false_iff_not, not_le,
    gt_iff_lt, not_lt, ge_iff_le] at h
  omega

namespace Outbound

/-- A frame with its number. -/
def stamped (message : Envelope) (seq : ℤ) : Envelope := { message with messageSeq := some seq }

/-- `enqueue`, statement by statement. -/
def enqueueInPlace (lay : Layout) (message : Envelope) : EStateM Error Outbound ℤ := do
  asks (·.admitFrame message)
  let o ← get
  let sequence := (o.next.get? message.streamId).getD 1
  let next ← asks fun _ => required .capacity (checkedAdd sequence 1)
  let message := stamped message sequence
  let c ← asks fun o => frameCharge lay message o.limits
  asks fun o => refuseIf (o.full message.kind c) .wouldBlock
  modify fun o => { o with queuedCharge := o.queuedCharge + c }
  modify fun o => { o with queue := o.queue ++ [(message, c)] }
  modify fun o => { o with next := o.next.insert message.streamId next }
  if message.kind == .close then
    modify fun o => { o with closeSent := o.closeSent.insert message.streamId () }
  if senderFinal message.kind then
    modify fun o => { o with ended := o.ended.insert message.streamId true }
  return sequence

/-- The method makes all its checks before its first change. -/
theorem run_enqueueInPlace (o : Outbound) (message : Envelope) :
    (enqueueInPlace lay message).run o = settled id o (o.enqueue lay message) := by
  unfold enqueueInPlace enqueue
  refine run_asks_bind fun _ _ => ?_
  rw [run_get_bind]
  refine run_asks_bind fun next _ => run_asks_bind fun c _ => run_asks_bind fun _ _ => ?_
  cases hclose : message.kind == .close <;> cases hfinal : senderFinal message.kind <;>
    simp only [stamped, hclose, hfinal, if_true, Bool.false_eq_true, if_false] <;> rfl

inductive Call
  | enqueue (message : Envelope)
  | pop

inductive Reply
  | enqueued (result : Except Error ℤ)
  | popped (frame : Option Envelope)

def call (lay : Layout) (o : Outbound) : Call → Outbound × Reply
  | .enqueue message =>
    match (enqueueInPlace lay message).run o with
    | .ok seq o' => (o', .enqueued (.ok seq))
    | .error e o' => (o', .enqueued (.error e))
  | .pop =>
    match o.pop with
    | some (message, o') => (o', .popped (some message))
    | none => (o, .popped none)

/-- One call of the host. -/
def Step (lay : Layout) (o : Outbound) (l : Call × Reply) (o' : Outbound) : Prop :=
  o.call lay l.1 = (o', l.2)

theorem step_call (o : Outbound) (c : Call) :
    Step lay o (c, (o.call lay c).2) (o.call lay c).1 := rfl

/-- The frames that entered the queue, with their numbers. -/
def accepted (tr : List (Call × Reply)) : List Envelope := tr.filterMap fun
  | (.enqueue message, .enqueued (.ok seq)) => some (stamped message seq)
  | _ => none

/-- The frames that left it. -/
def popped (tr : List (Call × Reply)) : List Envelope := tr.filterMap fun
  | (_, .popped frame) => frame
  | _ => none

/-- What may follow a frame of the same stream. -/
def Follows (a b : Envelope) : Prop := a.streamId = b.streamId →
  senderFinal a.kind = false ∧ (a.kind = .close → afterClose b.kind = true)

/-- The sender's books: `log` are the frames it accepted, `out` those it gave out. -/
structure Books (lay : Layout) (k : Limits) (n : ℕ) (o : Outbound)
    (log out : List Envelope) : Prop where
  limits : o.limits = k
  maxQueued : o.maxQueued = n
  line : log = out ++ o.queue.map (·.1)
  charged : ∀ x ∈ o.queue, frameCharge lay x.1 k = .ok x.2
  charge : o.queuedCharge = (o.queue.map (·.2)).sum
  numbered : ∀ id, Numbered (ofStream id log).length (ofStream id log)
  next : ∀ id, (o.next.get? id).getD 1 = (ofStream id log).length + 1
  begun : ∀ id, (o.next.get? id).isSome = true ↔ id ∈ begun log
  ended : ∀ id, (o.ended.get? id).isSome = true ↔ id ∈ finished log
  closed : ∀ m ∈ log, m.kind = .close → (o.closeSent.get? m.streamId).isSome = true
  nextSize : o.next.size = (Sequenced.begun log).card
  endedSize : o.ended.size = (finished log).card
  follows : log.Pairwise Follows
  frames : (o.queue.length : ℤ) ≤ n + k.controlReserveFrames
  bytes : (o.queuedCharge : ℤ) ≤ k.queuedBytes
  active : (openStreams log).card ≤ maxActiveStreams

variable {o o' : Outbound} {limits : Limits} {maxQueued : ℕ} {log out : List Envelope}
  {message : Envelope} {seq : ℤ}

theorem books_of_new {sessionId : String} {direction : Direction}
    (h : new lay sessionId direction limits maxQueued = .ok o) :
    Codec.limits limits = .ok () ∧ o.Books lay limits maxQueued [] [] := by
  obtain ⟨_, hvalid, h⟩ := bind_eq_ok.1 h
  obtain ⟨_, -, h⟩ := bind_eq_ok.1 h
  obtain rfl := Except.ok.inj h
  have hlimits := limits_of_validLimits hvalid
  have hframes := frames_bounds hlimits
  have hbytes := limits_bounds hlimits
  refine ⟨hlimits, rfl, rfl, rfl, by simp, rfl, fun _ => rfl, fun _ => rfl, fun id => ?_,
    fun id => ?_, by simp, rfl, rfl, .nil, ?_, ?_, by simp [openStreams, Sequenced.begun]⟩
  · simp [Sequenced.begun]
  · simp [finished, Sequenced.begun]
  · simp only [List.length_nil]
    omega
  · dsimp only
    omega

/-- What a frame that enters the queue has passed, and what it changes. -/
theorem enqueue_eq_ok (h : o.enqueue lay message = .ok (o', seq)) :
    ∃ m c, m = stamped message seq ∧ m.messageSeq = some seq ∧
      o.ended.get? m.streamId = none ∧
      ((o.closeSent.get? m.streamId).isSome = true → afterClose m.kind = true) ∧
      (o.next.get? m.streamId = none → o.next.size - o.ended.size < maxActiveStreams) ∧
      seq = (o.next.get? m.streamId).getD 1 ∧ frameCharge lay m o.limits = .ok c ∧
      o.full m.kind c = false ∧
      o' = { o with
        queuedCharge := o.queuedCharge + c
        queue := o.queue ++ [(m, c)]
        next := o.next.insert m.streamId (seq + 1)
        closeSent := if m.kind == .close then o.closeSent.insert m.streamId () else o.closeSent
        ended := if senderFinal m.kind then o.ended.insert m.streamId true else o.ended } := by
  obtain ⟨_, hadmitted, h⟩ := bind_eq_ok.1 h
  obtain ⟨next, hnext, h⟩ := bind_eq_ok.1 h
  obtain ⟨c, hcharge, h⟩ := bind_eq_ok.1 h
  obtain ⟨_, hfull, h⟩ := bind_eq_ok.1 h
  obtain ⟨_, -, hadmitted⟩ := bind_eq_ok.1 hadmitted
  obtain ⟨_, -, hadmitted⟩ := bind_eq_ok.1 hadmitted
  obtain ⟨_, hended, hadmitted⟩ := bind_eq_ok.1 hadmitted
  obtain ⟨_, hclosed, hadmitted⟩ := bind_eq_ok.1 hadmitted
  obtain ⟨_, -, hadmitted⟩ := bind_eq_ok.1 hadmitted
  obtain ⟨_, hactive, -⟩ := bind_eq_ok.1 hadmitted
  obtain ⟨rfl, rfl⟩ := Prod.mk.inj (Except.ok.inj h)
  obtain ⟨rfl, -, -⟩ := checkedAdd_eq_some (required_eq_ok.1 hnext)
  refine ⟨_, c, rfl, rfl, ?_, fun hsome => ?_, fun hnew => ?_, rfl, hcharge,
    refuseIf_eq_ok.1 hfull, rfl⟩
  · show o.ended.get? message.streamId = none
    simpa using refuseIf_eq_ok.1 hended
  · show afterClose message.kind = true
    have hsome : (o.closeSent.get? message.streamId).isSome = true := hsome
    simpa [hsome] using refuseIf_eq_ok.1 hclosed
  · have hnew : o.next.get? message.streamId = none := hnew
    simpa [hnew] using refuseIf_eq_ok.1 hactive

/-- A queue with room stays within the limits. -/
theorem room_of_full {kind : MessageKind} {c : ℕ} (hl : Codec.limits o.limits = .ok ())
    (h : o.full kind c = false) :
    (o.queue.length + 1 : ℤ) ≤ o.maxQueued + o.limits.controlReserveFrames ∧
      (o.queuedCharge + c : ℤ) ≤ o.limits.queuedBytes := by
  obtain ⟨h1, h2, h3⟩ := frames_bounds hl
  obtain ⟨-, -, -, -, h4, h5, h6⟩ := limits_bounds hl
  simp only [full, Bool.or_eq_false_iff, decide_eq_false_iff_not, not_le, not_lt] at h
  have hframes : asUsize o.limits.controlReserveFrames = o.limits.controlReserveFrames.toNat :=
    asUsize_eq h1.le (by unfold i64Max; omega)
  have hbytes : ∀ b : Bool, asUsize (o.limits.queuedBytes -
      if b then 0 else o.limits.controlReserveBytes) ≤ o.limits.queuedBytes.toNat := by
    intro b
    rw [asUsize_eq] <;> cases b <;> simp only [Bool.false_eq_true, if_true, if_false] <;>
      (try unfold i64Max) <;> omega
  have hsum := (satAdd_le_iff (by unfold u64Max; omega)).1 (h.2.trans (hbytes (kind != .data)))
  refine ⟨?_, by omega⟩
  have hlen := h.1
  cases hk : kind != .data <;> simp only [hk, Bool.false_eq_true, if_true, if_false] at hlen <;>
    omega

theorem ofStream_snoc (id : ℤ) (log : List Envelope) (m : Envelope) : ofStream id (log ++ [m]) =
    if m.streamId = id then ofStream id log ++ [m] else ofStream id log := by
  rw [ofStream_append]
  split_ifs with hid <;> simp [ofStream, hid]

/-- A frame that enters the queue gets the next number of its stream. -/
theorem Books.enqueue (hl : Codec.limits limits = .ok ()) (h : o.Books lay limits maxQueued log out)
    (henqueue : o.enqueue lay message = .ok (o', seq)) :
    o'.Books lay limits maxQueued (log ++ [stamped message seq]) out := by
  obtain ⟨m, c, hm, hnumber, hended, hclosed, hactive, hseq, hcharge, hfull, rfl⟩ :=
    enqueue_eq_ok henqueue
  rw [← hm]
  rw [h.next] at hseq
  obtain ⟨hframes, hbytes⟩ := room_of_full (by rwa [h.limits]) hfull
  rw [h.limits] at hframes hbytes hcharge
  rw [h.maxQueued] at hframes
  have hunfinished : m.streamId ∉ finished log := by
    rw [← h.ended, hended]
    simp
  refine ⟨h.limits, h.maxQueued, ?_, ?_, ?_, fun id => ?_, fun id => ?_, fun id => ?_, fun id => ?_,
    fun a ha hclose => ?_, ?_, ?_, ?_, ?_, ?_, ?_⟩
  · rw [List.map_append, ← List.append_assoc, ← h.line]
    rfl
  · intro x hx
    rcases List.mem_append.1 hx with hx | hx
    · exact h.charged x hx
    · rw [List.mem_singleton.1 hx]
      exact hcharge
  · simp [h.charge]
  · rw [ofStream_snoc]
    split_ifs with hm
    · subst hm
      rw [List.length_append, List.length_singleton]
      exact (h.numbered _).snoc (hnumber.trans (congrArg some hseq))
    · exact h.numbered id
  · rw [ofStream_snoc, SortedMap.get?_insert]
    by_cases hm : m.streamId = id
    · subst hm
      simp [hseq]
    · rw [if_neg hm, if_neg (Ne.symm hm)]
      exact h.next id
  · rw [begun_snoc, SortedMap.get?_insert, Finset.mem_insert, ← h.begun]
    split_ifs with hm <;> simp [hm]
  · rw [finished_snoc]
    dsimp only
    split_ifs
    · rw [SortedMap.get?_insert, Finset.mem_insert, ← h.ended]
      split_ifs with hm <;> simp [hm]
    · exact h.ended id
  · rcases List.mem_append.1 ha with ha | ha
    · have hold := h.closed a ha hclose
      dsimp only
      split_ifs
      · rw [SortedMap.get?_insert]
        split_ifs
        · rfl
        · exact hold
      · exact hold
    · rw [List.mem_singleton.1 ha] at hclose ⊢
      simp [hclose]
  · have hsize := o.next.size_insert m.streamId (seq + 1)
    rw [begun_snoc]
    by_cases hm : m.streamId ∈ Sequenced.begun log
    · rw [Finset.insert_eq_of_mem hm, ← h.nextSize]
      rw [(h.begun _).2 hm] at hsize
      simpa using hsize
    · have hnone : (o.next.get? m.streamId).isSome = false := by
        rw [← Bool.not_eq_true, h.begun]
        exact hm
      rw [Finset.card_insert_of_notMem hm, ← h.nextSize]
      rw [hnone] at hsize
      simpa using hsize
  · rw [finished_snoc]
    dsimp only
    split_ifs
    · have hsize := o.ended.size_insert m.streamId true
      rw [hended] at hsize
      rw [Finset.card_insert_of_notMem hunfinished, ← h.endedSize]
      simpa using hsize
    · exact h.endedSize
  · refine List.pairwise_append.2 ⟨h.follows, List.pairwise_singleton _ _,
      fun a ha b hb hsame => ?_⟩
    rw [List.mem_singleton.1 hb] at hsame ⊢
    refine ⟨?_, fun hclose => hclosed ?_⟩
    · by_contra hfinal
      refine hunfinished (mem_begun.2 ⟨a, List.mem_filter.2 ⟨ha, ?_⟩, hsame⟩)
      simpa using hfinal
    · rw [← hsame]
      exact h.closed a ha hclose
  · rw [List.length_append, List.length_singleton]
    push_cast
    exact hframes
  · push_cast
    exact hbytes
  · -- a new stream was let in below the bound; an old one changes nothing or ends
    have hsub : openStreams (log ++ [m]) ⊆ insert m.streamId (openStreams log) := by
      intro id hmem
      obtain ⟨hb, hf⟩ := Finset.mem_sdiff.1 hmem
      rw [begun_snoc, Finset.mem_insert] at hb
      rw [finished_snoc] at hf
      refine Finset.mem_insert.2 (hb.imp_right fun hb => Finset.mem_sdiff.2 ⟨hb, fun hmem => hf ?_⟩)
      split_ifs
      · exact Finset.mem_insert_of_mem hmem
      · exact hmem
    by_cases hm : m.streamId ∈ Sequenced.begun log
    · have hopen : m.streamId ∈ openStreams log := Finset.mem_sdiff.2 ⟨hm, hunfinished⟩
      rw [Finset.insert_eq_of_mem hopen] at hsub
      exact (Finset.card_le_card hsub).trans h.active
    · have hnew : o.next.get? m.streamId = none := by
        rw [← Option.not_isSome_iff_eq_none, h.begun]
        exact hm
      have hlt := hactive hnew
      rw [h.nextSize, h.endedSize, ← Finset.card_sdiff_of_subset (finished_subset log)] at hlt
      exact (Finset.card_le_card hsub).trans ((Finset.card_insert_le _ _).trans hlt)

theorem Books.pop {m : Envelope} (h : o.Books lay limits maxQueued log out)
    (hpop : o.pop = some (m, o')) : o'.Books lay limits maxQueued log (out ++ [m]) := by
  unfold Outbound.pop at hpop
  split at hpop
  · cases hpop
  next c rest hqueue =>
    cases hpop
    have hline := h.line
    have hcharge := h.charge
    have hframes := h.frames
    have hbytes := h.bytes
    rw [hqueue] at hline hcharge hframes
    rw [List.map_cons, List.sum_cons] at hcharge
    rw [List.length_cons] at hframes
    refine { h with
      line := ?_
      charged := fun x hx => h.charged x (hqueue ▸ List.mem_cons_of_mem _ hx)
      charge := ?_
      frames := ?_
      bytes := ?_ }
    · rw [hline, List.append_assoc]
      rfl
    · show o.queuedCharge - c = _
      rw [hcharge]
      exact Nat.add_sub_cancel_left _ _
    · show (rest.length : ℤ) ≤ _
      push_cast at hframes
      omega
    · show ((o.queuedCharge - c : ℕ) : ℤ) ≤ _
      omega

theorem call_enqueue_error {e : Error}
    (h : o.call lay (.enqueue message) = (o', .enqueued (.error e))) : o' = o := by
  simp only [call, run_enqueueInPlace] at h
  cases henqueue : o.enqueue lay message with
  | ok x => rw [henqueue] at h; cases h
  | error e' =>
    rw [henqueue] at h
    cases h
    rfl

/-- The books after a call. -/
theorem Books.call {tr : List (Call × Reply)} {l : Call × Reply} (hl : Codec.limits limits = .ok ())
    (h : o.Books lay limits maxQueued (accepted tr) (popped tr)) (hs : Step lay o l o') :
    o'.Books lay limits maxQueued (accepted (tr ++ [l])) (popped (tr ++ [l])) := by
  obtain ⟨c, reply⟩ := l
  have hcall : o.call lay c = (o', reply) := hs
  unfold accepted popped at *
  rw [List.filterMap_append, List.filterMap_append]
  cases c with
  | enqueue message =>
    simp only [Outbound.call, run_enqueueInPlace] at hcall
    cases henqueue : o.enqueue lay message with
    | ok x =>
      rw [henqueue] at hcall
      cases hcall
      simpa using h.enqueue hl henqueue
    | error e =>
      rw [henqueue] at hcall
      cases hcall
      simpa using h
  | pop =>
    simp only [Outbound.call] at hcall
    cases hpop : o.pop with
    | none =>
      rw [hpop] at hcall
      cases hcall
      simpa using h
    | some x =>
      rw [hpop] at hcall
      cases hcall
      simpa using h.pop hpop

/-- **What a sender sends.**  After any calls, the frames that were popped are the first of those
that were accepted, in that order, and the rest is the queue; every stream is numbered from one on.
The charge is that of the queued frames, a refused frame changes nothing, nothing follows a frame
that ends its stream, and the queue and the streams stay within their bounds. -/
theorem outbound_in_order {sessionId : String} {direction : Direction} {o₀ : Outbound}
    {tr : List (Call × Reply)} (hnew : new lay sessionId direction limits maxQueued = .ok o₀)
    (hrun : Run (Step lay) o₀ tr o) :
    popped tr ++ o.queue.map (·.1) = accepted tr ∧
      (∀ id, (ofStream id (popped tr)).map (·.messageSeq) =
        (List.range (ofStream id (popped tr)).length).map fun k : ℕ => some ((k : ℤ) + 1)) ∧
      o.queuedCharge = (o.queue.map (·.2)).sum ∧
      (∀ x ∈ o.queue, frameCharge lay x.1 limits = .ok x.2) ∧
      (∀ message o' e, o.call lay (.enqueue message) = (o', .enqueued (.error e)) → o' = o) ∧
      (accepted tr).Pairwise (fun a b => a.streamId = b.streamId → senderFinal a.kind = false ∧
        (a.kind = .close → b.kind ∈ [.window, .flushed, .cancel, .failed])) ∧
      (o.queue.length : ℤ) ≤ maxQueued + limits.controlReserveFrames ∧
      (o.queuedCharge : ℤ) ≤ limits.queuedBytes ∧
      (openStreams (accepted tr)).card ≤ maxActiveStreams := by
  obtain ⟨hl, hbooks⟩ := books_of_new hnew
  have h := hrun.invariant (P := fun tr o => o.Books lay limits maxQueued (accepted tr) (popped tr))
    hbooks fun _ _ _ _ _ h hs => h.call hl hs
  refine ⟨h.line.symm, fun id => ?_, h.charge, h.charged, fun _ _ _ => call_enqueue_error,
    h.follows.imp fun hab hsame => ?_, h.frames, h.bytes, h.active⟩
  · have hnumbered := h.numbered id
    rw [h.line, ofStream_append] at hnumbered
    exact hnumbered.of_append
  · obtain ⟨hfinal, hclose⟩ := hab hsame
    refine ⟨hfinal, fun hkind => ?_⟩
    simpa [afterClose, or_assoc] using hclose hkind

def freshOutbound : Outbound := ⟨"s", .initiator, tightLimits, 2, [], 0, .empty, .empty, .empty⟩

/-- The first frame of a stream, as its sender hands it in. -/
def unnumbered (id : ℤ) : Envelope := { openFrame id 1 with messageSeq := none }

/-- Two streams are begun and one frame leaves. -/
theorem outbound_in_order_two_streams :
    let enqueue := fun id => Call.enqueue (unnumbered id)
    let o₁ := (freshOutbound.call builtLayout (enqueue 1)).1
    let o₂ := (o₁.call builtLayout (enqueue 2)).1
    let tr := [(enqueue 1, (freshOutbound.call builtLayout (enqueue 1)).2),
      (enqueue 2, (o₁.call builtLayout (enqueue 2)).2), (.pop, (o₂.call builtLayout .pop).2)]
    popped tr = [openFrame 1 1] ∧
      popped tr ++ (o₂.call builtLayout .pop).1.queue.map (·.1) = accepted tr := by
  intro enqueue o₁ o₂ tr
  have hvalid : validLimits builtLayout tightLimits = .ok () := refuseIf_eq_ok.2 (by decide +kernel)
  have hnew : new builtLayout "s" .initiator tightLimits 2 = .ok freshOutbound := by
    unfold new
    rw [hvalid]
    rfl
  have hrun : Run (Step builtLayout) freshOutbound tr (o₂.call builtLayout .pop).1 :=
    ((Run.nil.snoc (step_call _ _)).snoc (step_call _ _)).snoc (step_call _ _)
  exact ⟨by decide +kernel, (outbound_in_order hnew hrun).1⟩

end Outbound

end GwzTransport.Sequenced
