import GwzTransport.Lib.Guarded
import GwzTransport.Sequenced.Machine

/-!
# What a receiver does, move by move

A call of the receiver makes a few moves: it holds a frame, hands a frame to the application,
takes a held frame out and hands it on, or lets an abortive frame overtake.  `Move` says what each
of them needs and changes; the stream stays in the map, and the counters follow.  A receiver that
has failed makes no move.

* `Frame`: a frame that passed the checks of a submission;
* `Clash`: the ways a frame contradicts what the stream has seen;
* `Filed`: what the fields of a live receiver say of each other, kept by every move.

Which frames arrive is a parameter of the moves, so that a run can be followed under what is
known of its frames.
-/

namespace GwzTransport.Sequenced

open Protocol MachineInt Checks Transition

variable {lay : Layout}

/-! ### Frames -/

/-- A frame of a stream with its number and weight, as a submission lets it in. -/
structure Frame (lay : Layout) (limits : Limits) (id seq : ℤ) (message : Envelope) (c : ℕ) :
    Prop where
  stream : message.streamId = id
  positive : 0 < id
  numbered : message.messageSeq = some seq
  version : message.version = 3
  charged : frameCharge lay message limits = .ok c

theorem frameCharge_eq_ok {message : Envelope} {limits : Limits} {c : ℕ}
    (h : frameCharge lay message limits = .ok c) :
    ∃ n, Codec.allocationCharge message limits = .ok n ∧ c = satAdd n lay.frameOverhead := by
  obtain ⟨n, hn, hc⟩ := bind_eq_ok.1 h
  exact ⟨n, orError_eq_ok.1 hn, (Except.ok.inj hc).symm⟩

theorem allocationCharge_eq_ok {message : Envelope} {limits : Limits} {n : ℕ}
    (h : Codec.allocationCharge message limits = .ok n) :
    Codec.envelope message = .ok () ∧ Codec.walkCharge message limits = .ok n := by
  obtain ⟨_, -, h⟩ := bind_eq_ok.1 h
  obtain ⟨_, he, hw⟩ := bind_eq_ok.1 h
  exact ⟨he, hw⟩

section Frame

variable {limits : Limits} {id seq : ℤ} {message : Envelope} {c : ℕ}

/-- The number of a frame is positive, and not the last one there is. -/
theorem Frame.bounds (h : Frame lay limits id seq message c) : 0 < seq ∧ seq ≠ i64Max := by
  obtain ⟨n, hn, -⟩ := frameCharge_eq_ok h.charged
  obtain ⟨k, hk, hb⟩ := Codec.messageSeq_of_envelope (allocationCharge_eq_ok hn).1 h.version
    (h.stream ▸ h.positive)
  rw [h.numbered] at hk
  exact Option.some.inj hk ▸ hb

theorem Frame.charge_le (h : Frame lay limits id seq message c) :
    c ≤ limits.decodeAllocation.toNat + lay.frameOverhead := by
  obtain ⟨n, hn, rfl⟩ := frameCharge_eq_ok h.charged
  have := Codec.walkCharge_le (allocationCharge_eq_ok hn).2
  exact (satAdd_le_add _ _).trans (by omega)

end Frame

/-! ### Room -/

theorem limits_bounds {limits : Limits} (h : Codec.limits limits = .ok ()) :
    0 < limits.encodedFrame ∧ limits.encodedFrame ≤ 131072 ∧ 0 < limits.decodeAllocation ∧
      limits.decodeAllocation ≤ 524288 ∧ 0 < limits.controlReserveBytes ∧
      limits.controlReserveBytes < limits.queuedBytes ∧ limits.queuedBytes ≤ 4194304 := by
  have h := Checks.refuseIf_eq_ok.1 h
  simp only [List.any_cons, List.any_nil, Bool.or_eq_false_iff, decide_eq_false_iff_not, not_le,
    gt_iff_lt, not_lt, ge_iff_le, Codec.maxFrame, Codec.maxAllocation] at h
  omega

namespace Receiver

variable {r : Receiver}

/-- What the receiver accounts for: the records, the retained and the held frames. -/
def used (lay : Layout) (r : Receiver) : ℕ :=
  r.streams.size * lay.recordCharge + r.retainedCharge + r.bufferedCharge

theorem availableBytes_eq (h : Codec.limits r.limits = .ok ()) :
    (r.availableBytes : ℤ) = r.limits.queuedBytes - r.limits.controlReserveBytes ∧
      r.availableBytes < u64Max := by
  obtain ⟨-, -, -, -, h1, h2, h3⟩ := limits_bounds h
  unfold availableBytes
  rw [asUsize_eq (by omega) (by unfold i64Max; omega)]
  unfold u64Max
  omega

theorem predecessorReserve_eq (h : Codec.limits r.limits = .ok ()) : r.predecessorReserve lay =
    r.limits.encodedFrame.toNat + r.limits.decodeAllocation.toNat + lay.frameOverhead := by
  obtain ⟨h1, h2, h3, h4, -⟩ := limits_bounds h
  unfold predecessorReserve
  rw [asUsize_eq (by omega) (by unfold i64Max; omega)]
  omega

theorem records_add_le_iff (lay : Layout) (r : Receiver) (x : ℕ) {d : ℕ} (hd : d < u64Max) :
    r.records lay + x ≤ d ↔ (r.streams.size + 1) * lay.recordCharge + x ≤ d := by
  unfold records
  rw [satMul_add_le_iff hd]
  by_cases hsize : r.streams.size + 1 ≤ u64Max
  · rw [satAdd, min_eq_left hsize]
  · rw [satAdd, min_eq_right (by omega)]
    rcases Nat.eq_zero_or_pos lay.recordCharge with h0 | hpos
    · rw [h0]
      omega
    · have h1 : u64Max ≤ u64Max * lay.recordCharge := Nat.le_mul_of_pos_right _ hpos
      have h2 : u64Max * lay.recordCharge ≤ (r.streams.size + 1) * lay.recordCharge :=
        Nat.mul_le_mul_right _ (by omega)
      omega

theorem satAdd_records_le_iff {x y z d : ℕ} (hd : d < u64Max) :
    satAdd (satAdd (satAdd (r.records lay) x) y) z ≤ d ↔
      (r.streams.size + 1) * lay.recordCharge + x + y + z ≤ d := by
  rw [satAdd_le_iff hd, satAdd_add_le_iff hd]
  have h := satAdd_add_le_iff (a := r.records lay) (b := x) (c := y + z) hd
  have h' := records_add_le_iff lay r (x + (y + z)) hd
  omega

theorem checkRetain_eq_ok {c releasing : ℕ} (hl : Codec.limits r.limits = .ok ()) :
    r.checkRetain lay c releasing = .ok () ↔ (r.streams.size + 1) * lay.recordCharge +
      r.retainedCharge + (r.bufferedCharge - releasing) + c ≤ r.availableBytes := by
  have hd := (availableBytes_eq hl).2
  rw [checkRetain, refuseIf_eq_ok, decide_eq_false_iff_not, not_lt, satAdd_records_le_iff hd]

/-- What holding a frame has checked about the weights. -/
theorem room_of_crowded {state : StreamState} {c : ℕ} {outOfOrder : Bool}
    (hl : Codec.limits r.limits = .ok ()) (h : r.crowded lay state c outOfOrder = false) :
    (r.streams.size + 1) * lay.recordCharge + r.retainedCharge + r.bufferedCharge + c +
      (if outOfOrder then r.predecessorReserve lay else 0) ≤ r.availableBytes := by
  have hd := (availableBytes_eq hl).2
  simp only [crowded, Bool.or_eq_false_iff, decide_eq_false_iff_not, not_lt] at h
  have h := h.1.2
  rw [satAdd_le_iff hd, satAdd_add_le_iff hd] at h
  generalize (if outOfOrder then r.predecessorReserve lay else 0) = reserve at h ⊢
  have h1 := satAdd_add_le_iff (a := satAdd r.bufferedCharge r.retainedCharge)
    (b := r.records lay) (c := c + reserve) hd
  have h2 := satAdd_add_le_iff (a := r.bufferedCharge) (b := r.retainedCharge)
    (c := r.records lay + (c + reserve)) hd
  have h3 := records_add_le_iff lay r
    (r.bufferedCharge + r.retainedCharge + (c + reserve)) hd
  omega

end Receiver

/-- A frame that is waited for fits into the room that is kept for it. -/
theorem Frame.le_reserve {r : Receiver} {id seq : ℤ} {message : Envelope} {c : ℕ}
    (h : Frame lay r.limits id seq message c) (hl : Codec.limits r.limits = .ok ()) :
    c ≤ r.predecessorReserve lay := by
  rw [Receiver.predecessorReserve_eq hl]
  have := h.charge_le
  omega

/-! ### Moves -/

/-- What a move shows: a frame the application accepted, the numbers of the held frames that were
dropped for it, a frame that is held from now on, or the end of the receiver. -/
inductive Event
  | applied (id : ℤ) (dropped : List ℤ) (seq : ℤ) (message : Envelope)
  | held (id seq : ℤ)
  | clashed
  | rejected

/-- The ways a frame contradicts what its stream has seen. -/
inductive Clash (direction : Direction) (state : StreamState) (message : Envelope) (seq : ℤ) : Prop
  | opening {opening} (hseq : seq = 1) (hopening : state.opening = some opening)
      (hne : opening ≠ message)
  | past {last terminal} (hterminal : state.terminal = some (last, terminal))
      (hseq : last ≤ seq) (hne : ¬ (seq = last ∧ message = terminal))
  | unopened (hterminal : state.terminal = none) (hseq : seq = 1) (hexpected : seq < state.expected)
      (hopening : state.opening ≠ some message)
  | copy {held} (hheld : state.pending.get? seq = some held) (hne : held.message ≠ message)
  | first (hseq : seq = 1) (hkind : firstKind direction message.kind = false)
  | below {k held} (hheld : state.pending.get? k = some held) (hk : k < seq)
      (hfinal : senderFinal held.message.kind = true)
  | above {k held} (hheld : state.pending.get? k = some held)
      (hk : satAddInt seq 1 ≤ k) (hfinal : senderFinal message.kind = true)

/-- The stream after a frame was applied: the next number is expected, and the first and the last
frame are kept. -/
def StreamState.mark (state : StreamState) (seq : ℤ) (message : Envelope) : StreamState :=
  { state with
    expected := seq + 1
    pending := state.pending.erase seq
    opening := if seq = 1 ∧ senderFinal message.kind = false then some message else state.opening
    terminal := if senderFinal message.kind then some (seq, message) else state.terminal }

/-- Which applied frames add to the retained weight: the first and the last frame of a stream,
but not one that is both. -/
def retains (seq : ℤ) (kind : MessageKind) : Bool := (seq == 1) != senderFinal kind

namespace Receiver

def put (r : Receiver) (id : ℤ) (state : StreamState) : Receiver :=
  { r with streams := r.streams.insert id state }

def retain (r : Receiver) (seq : ℤ) (kind : MessageKind) (c : ℕ) : Receiver :=
  { r with retainedCharge := r.retainedCharge + if retains seq kind then c else 0 }

def hold (r : Receiver) (c : ℕ) : Receiver :=
  { r with bufferedFrames := r.bufferedFrames + 1, bufferedCharge := r.bufferedCharge + c }

/-- All held frames of a stream are dropped. -/
def release (r : Receiver) (state : StreamState) : Receiver :=
  { r with
    bufferedFrames := r.bufferedFrames - state.pending.size
    bufferedCharge := r.bufferedCharge - state.pending.sum (·.charge) }

@[simp] theorem put_put (r : Receiver) (id : ℤ) (s s' : StreamState) :
    (r.put id s).put id s' = r.put id s' := by
  simp only [put, SortedMap.insert_insert]

theorem put_without {r : Receiver} {id : ℤ} {s : StreamState} :
    (r.without id).put id s = r.put id s := by
  simp only [put, without, SortedMap.insert_erase]

theorem put_get? {r : Receiver} {id : ℤ} {s : StreamState} (h : r.streams.get? id = some s) :
    r.put id s = r := by
  simp only [put, SortedMap.insert_get? _ h]

theorem size_put_of_none {r : Receiver} {id : ℤ} {s : StreamState}
    (h : r.streams.get? id = none) : (r.put id s).streams.size = r.streams.size + 1 := by
  have := r.streams.sum_insert (fun _ => 1) id s
  rw [h] at this
  simpa [put, SortedMap.size_eq_sum] using this

theorem size_put_of_some {r : Receiver} {id : ℤ} {s t : StreamState}
    (h : r.streams.get? id = some t) : (r.put id s).streams.size = r.streams.size := by
  have := r.streams.sum_insert (fun _ => 1) id s
  rw [h] at this
  simpa [put, SortedMap.size_eq_sum] using this

end Receiver

/-- Which frames a receiver is given, in which state, and whether they are to be held or handed
on. -/
abbrev Given := Receiver → Envelope → Bool → Prop

/-- One move of a live receiver. -/
inductive Move (lay : Layout) (A : Given) : Receiver → Option Event → Receiver → Prop
  | register {r id} (live : r.failed = false) (positive : 0 < id) (fresh : r.streams.get? id = none)
      (room : (r.streams.size + 1) * lay.recordCharge + r.retainedCharge + r.bufferedCharge +
        r.predecessorReserve lay ≤ r.availableBytes) :
      Move lay A r none (r.put id .new)
  | hold {r id seq s message c since} (given : A r message true) (live : r.failed = false)
      (hs : r.streams.get? id = some s) (frame : Frame lay r.limits id seq message c)
      (unended : s.terminal = none)
      (free : s.pending.get? seq = none) (due : s.expected ≤ seq)
      (first : seq = 1 → firstKind r.direction message.kind = true)
      (room : r.used lay + c + (if s.expected < seq then r.predecessorReserve lay else 0) ≤
        r.availableBytes) :
      Move lay A r (some (.held id seq)) ((r.hold c).put id
        { s with gapSince := since, pending := s.pending.insert seq ⟨message, c⟩ })
  | take {r id s message c}
      (given : A r message false) (live : r.failed = false) (hs : r.streams.get? id = some s)
      (frame : Frame lay r.limits id s.expected message c) (unended : s.terminal = none)
      (free : s.pending.get? s.expected = none)
      (first : s.expected = 1 → firstKind r.direction message.kind = true)
      (last : senderFinal message.kind = true → s.pending.isEmpty = true)
      (room : s.expected = 1 ∨ senderFinal message.kind = true →
        r.used lay + c ≤ r.availableBytes) :
      Move lay A r (some (.applied id [] s.expected message))
        ((r.retain s.expected message.kind c).put id (s.mark s.expected message))
  | drain {r id s held} (live : r.failed = false) (hs : r.streams.get? id = some s)
      (hheld : s.pending.get? s.expected = some held)
      (last : senderFinal held.message.kind = true →
        (s.pending.erase s.expected).isEmpty = true) :
      Move lay A r (some (.applied id [] s.expected held.message))
        (((r.uncharge held.charge).retain s.expected held.message.kind held.charge).put id
          (s.mark s.expected held.message))
  | overtake {r id seq s message c}
      (given : A r message false) (live : r.failed = false) (hs : r.streams.get? id = some s)
      (frame : Frame lay r.limits id seq message c) (unended : s.terminal = none)
      (passes : Receiver.overtakes r.direction s message.kind seq = true)
      (above : ∀ k held, s.pending.get? k = some held → k < seq)
      (room : r.used lay + c ≤ r.availableBytes + s.pending.sum (·.charge)) :
      Move lay A r (some (.applied id (s.pending.toList.map (·.1)) seq message))
        (((r.release s).retain seq message.kind c).put id
          { s with pending := .empty, terminal := some (seq, message), gapSince := none })
  | settle {r id s since} (live : r.failed = false)
      (hs : r.streams.get? id = some s) : Move lay A r none (r.put id { s with gapSince := since })
  | clash {r r' id seq s message c}
      (given : A r message false ∨ s.pending.get? seq = some ⟨message, c⟩)
      (live : r.failed = false) (hs : r.streams.get? id = some s)
      (frame : Frame lay r.limits id seq message c)
      (why : Clash r.direction s message seq) (ended : r'.failed = true) :
      Move lay A r (some .clashed) r'
  | reject {r r'} (live : r.failed = false) (ended : r'.failed = true) :
      Move lay A r (some .rejected) r'
  | timeout {r} (live : r.failed = false) : Move lay A r none { r with failed := true }

variable {A : Given}

/-- A move starts from a live receiver. -/
theorem Move.live {r r' : Receiver} {l : Option Event} (h : Move lay A r l r') :
    r.failed = false := by
  cases h <;> assumption

/-! ### What a live receiver keeps in order -/

/-- The fields of one stream agree: held frames lie under their numbers and are not yet due to be
forgotten, and the first and the last frame are kept once they were applied. -/
structure StreamState.Filed (lay : Layout) (limits : Limits) (id : ℤ) (s : StreamState) :
    Prop where
  expected : 1 ≤ s.expected ∧ s.expected ≤ i64Max
  pending : ∀ k held, s.pending.get? k = some held →
    Frame lay limits id k held.message held.charge ∧ s.expected ≤ k
  ended : s.terminal.isSome = true → ∀ k, s.pending.get? k = none
  terminal : ∀ last message, s.terminal = some (last, message) →
    senderFinal message.kind = true ∧ s.expected ≤ last + 1 ∧
    ∃ c, Frame lay limits id last message c
  opening : ∀ message, s.opening = some message → 1 < s.expected ∧
    senderFinal message.kind = false ∧ ∃ c, Frame lay limits id 1 message c
  opened : 1 < s.expected → s.terminal = none → s.opening.isSome = true

structure Filed (lay : Layout) (r : Receiver) : Prop where
  limits : Codec.limits r.limits = .ok ()
  streams : ∀ id s, r.streams.get? id = some s → s.Filed lay r.limits id

theorem StreamState.filed_new {limits : Limits} {id : ℤ} : StreamState.new.Filed lay limits id where
  expected := by decide
  pending _ _ h := by cases h
  ended _ _ := rfl
  terminal _ _ h := by cases h
  opening _ h := by cases h
  opened h := by cases h

/-- A stream that holds a frame has no end. -/
theorem StreamState.Filed.unended {limits : Limits} {id k : ℤ} {s : StreamState} {held : Pending}
    (h : s.Filed lay limits id) (hheld : s.pending.get? k = some held) : s.terminal = none := by
  by_contra hne
  have hnone := h.ended (Option.isSome_iff_ne_none.2 hne) k
  rw [hheld] at hnone
  cases hnone

/-- A frame after which the stream goes on is not a last one. -/
theorem StreamState.senderFinal_of_mark {s : StreamState} {seq : ℤ} {message : Envelope}
    (h : (s.mark seq message).terminal = none) : senderFinal message.kind = false := by
  cases hfinal : senderFinal message.kind with
  | false => rfl
  | true => simp [StreamState.mark, hfinal] at h

/-- The stream after its next frame was applied. -/
theorem StreamState.Filed.mark {limits : Limits} {id : ℤ} {s : StreamState} {message : Envelope}
    {c : ℕ} (h : s.Filed lay limits id) (unended : s.terminal = none)
    (frame : Frame lay limits id s.expected message c)
    (last : senderFinal message.kind = true → (s.pending.erase s.expected).isEmpty = true) :
    (s.mark s.expected message).Filed lay limits id := by
  have hseq := frame.bounds
  have hexp := h.expected
  refine ⟨⟨?_, ?_⟩, ?_, ?_, ?_, ?_, ?_⟩
  · show 1 ≤ s.expected + 1
    omega
  · show s.expected + 1 ≤ i64Max
    omega
  · intro k held hk
    have hk : (s.pending.erase s.expected).get? k = some held := hk
    have hne : k ≠ s.expected := by
      rintro rfl
      rw [SortedMap.get?_erase_self] at hk
      cases hk
    rw [SortedMap.get?_erase_of_ne _ hne] at hk
    obtain ⟨hf, hle⟩ := h.pending k held hk
    exact ⟨hf, by show s.expected + 1 ≤ k; omega⟩
  · intro hend k
    by_cases hfinal : senderFinal message.kind = true
    · exact (SortedMap.isEmpty_iff _).1 (last hfinal) k
    · simp [StreamState.mark, hfinal, unended] at hend
  · intro t m hm
    by_cases hfinal : senderFinal message.kind = true
    · simp only [StreamState.mark, hfinal, if_true, Option.some.injEq, Prod.mk.injEq] at hm
      obtain ⟨rfl, rfl⟩ := hm
      exact ⟨hfinal, le_rfl, c, frame⟩
    · simp [StreamState.mark, hfinal, unended] at hm
  · intro m hm
    by_cases hopens : s.expected = 1 ∧ senderFinal message.kind = false
    · simp only [StreamState.mark, hopens, and_self, if_true, Option.some.injEq] at hm
      subst hm
      exact ⟨by show 1 < s.expected + 1; omega, hopens.2, c, hopens.1 ▸ frame⟩
    · simp only [StreamState.mark, hopens, if_false] at hm
      obtain ⟨h1, h2⟩ := h.opening m hm
      exact ⟨by show 1 < s.expected + 1; omega, h2⟩
  · intro _ hend
    by_cases hfinal : senderFinal message.kind = true
    · simp [StreamState.mark, hfinal] at hend
    · have hfinal : senderFinal message.kind = false := by simpa using hfinal
      by_cases hone : s.expected = 1
      · simp [StreamState.mark, hone, hfinal]
      · have := h.opened (by omega) unended
        simpa [StreamState.mark, hone] using this

theorem Filed.put {r : Receiver} {id : ℤ} {s : StreamState} (h : Filed lay r)
    (hs : s.Filed lay r.limits id) : Filed lay (r.put id s) where
  limits := h.limits
  streams := r.streams.forall_insert h.streams hs

theorem senderFinal_of_abortive {kind : MessageKind} (h : abortive kind = true) :
    senderFinal kind = true := by
  simp [senderFinal, h]

/-- A frame that overtakes is early and ends its stream. -/
theorem Receiver.of_overtakes {direction : Direction} {s : StreamState} {kind : MessageKind}
    {seq : ℤ} (h : overtakes direction s kind seq = true) :
    s.expected < seq ∧ abortive kind = true ∧ senderFinal kind = true := by
  simp only [overtakes, Bool.and_eq_true, decide_eq_true_eq] at h
  exact ⟨h.1.1, h.1.2, senderFinal_of_abortive h.1.2⟩

/-- A move that does not end the receiver keeps its fields in order. -/
theorem filed_move {r r' : Receiver} {l : Option Event} (h : Filed lay r) (hm : Move lay A r l r')
    (hlive : r'.failed = false) : Filed lay r' := by
  cases hm with
  | register => exact h.put StreamState.filed_new
  | @hold id seq s message c since given live hs frame unended free due first room =>
    have hf := h.streams id s hs
    have hr : Filed lay (r.hold c) := ⟨h.limits, h.streams⟩
    refine hr.put ⟨hf.expected, ?_, ?_, hf.terminal, hf.opening, hf.opened⟩
    · exact s.pending.forall_insert hf.pending ⟨frame, due⟩
    · intro hend
      simp [unended] at hend
  | @take id s message c given live hs frame unended free first last room =>
    have hr : Filed lay (r.retain s.expected message.kind c) := ⟨h.limits, h.streams⟩
    refine hr.put ((h.streams id s hs).mark unended frame ?_)
    rw [SortedMap.erase_eq_self _ free]
    exact last
  | @drain id s held live hs hheld last =>
    have hr :
        Filed lay ((r.uncharge held.charge).retain s.expected held.message.kind held.charge) :=
      ⟨h.limits, h.streams⟩
    have hf := h.streams id s hs
    have unended := hf.unended hheld
    exact hr.put (hf.mark unended (hf.pending _ _ hheld).1 last)
  | @overtake id seq s message c given live hs frame unended passes above room =>
    obtain ⟨beyond, -, hfinal⟩ := Receiver.of_overtakes passes
    have hr : Filed lay ((r.release s).retain seq message.kind c) := ⟨h.limits, h.streams⟩
    have hf := h.streams id s hs
    refine hr.put ⟨hf.expected, fun k held hk => ?_, fun _ _ => rfl, fun last m hm => ?_,
      hf.opening, fun _ hend => ?_⟩
    · rw [SortedMap.get?_empty] at hk
      cases hk
    · obtain ⟨rfl, rfl⟩ := Prod.mk.inj (Option.some.inj hm)
      have hle : s.expected ≤ seq + 1 := by omega
      exact ⟨hfinal, hle, c, frame⟩
    · cases hend
  | @settle id s since live hs =>
    have hf := h.streams id s hs
    exact h.put ⟨hf.expected, hf.pending, hf.ended, hf.terminal, hf.opening, hf.opened⟩
  | clash given live hs frame why ended => rw [ended] at hlive; cases hlive
  | reject live ended => rw [ended] at hlive; cases hlive
  | timeout live => cases hlive

end GwzTransport.Sequenced
