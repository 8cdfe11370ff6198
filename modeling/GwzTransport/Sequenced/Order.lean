import GwzTransport.Sequenced.Charges

/-!
# Exactly once and in order

Whatever order frames arrive in, and however often, the application accepts the frames of a stream
with the numbers 1, 2, 3, …; only the last of them may be an abortive frame that overtook others.
A frame that is held is reported at most once: it is applied, or dropped for a frame that overtook
it.

* `InOrder`: the shape of what the application accepted of one stream;
* `ordered_move`, `reported_move`: what one move adds to it, and to the resolutions of one frame;
* `delivered_in_order`: both over whole runs of calls.
-/

namespace GwzTransport.Sequenced

open Protocol MachineInt Checks Transition Receiver

variable {lay : Layout} {A : Given} {r₁ r' : Receiver} {s' : StreamState} {id : ℤ}
  {frames : List Envelope}

/-! ### What is applied -/

/-- Frames with the numbers 1 to `n`. -/
def Numbered (n : ℕ) (log : List Envelope) : Prop :=
  log.map (·.messageSeq) = (List.range n).map (fun k : ℕ => some (k + 1 : ℤ))

/-- Frames with the numbers 1 to `n`, none of which ends the stream. -/
def Counted (n : ℕ) (log : List Envelope) : Prop :=
  Numbered n log ∧ ∀ message ∈ log, senderFinal message.kind = false

/-- The frames of one stream in the order in which they were accepted: numbered from 1 without a
gap, but for a last one that may be an abortive frame with a larger number, and nothing behind a
frame that ends the stream. -/
structure InOrder (log : List Envelope) : Prop where
  numbered : ∃ n body tail, log = body ++ tail ∧ Numbered n body ∧
    (tail = [] ∨ ∃ last, ∃ k : ℤ, tail = [last] ∧ last.messageSeq = some k ∧ n + 1 < k ∧
      abortive last.kind = true)
  increasing : log.Pairwise fun a b => a.messageSeq.getD 0 < b.messageSeq.getD 0
  last : log.Pairwise fun a _ => senderFinal a.kind = false

namespace Numbered

variable {n : ℕ} {log : List Envelope}

theorem snoc {message : Envelope} (h : Numbered n log)
    (hseq : message.messageSeq = some (n + 1 : ℤ)) : Numbered (n + 1) (log ++ [message]) := by
  unfold Numbered at *
  rw [List.map_append, h, List.range_succ, List.map_append]
  simp [hseq]

theorem getD_le (h : Numbered n log) : ∀ message ∈ log, message.messageSeq.getD 0 ≤ n := by
  intro message hmem
  have : message.messageSeq ∈ log.map (·.messageSeq) := List.mem_map_of_mem hmem
  rw [h] at this
  obtain ⟨k, hk, hseq⟩ := List.mem_map.1 this
  have := List.mem_range.1 hk
  rw [← hseq]
  simp only [Option.getD_some]
  omega

theorem increasing (h : Numbered n log) :
    log.Pairwise fun a b => a.messageSeq.getD 0 < b.messageSeq.getD 0 := by
  have hrange : ((List.range n).map (fun k : ℕ => some (k + 1 : ℤ))).Pairwise
      fun a b => a.getD 0 < b.getD 0 := by
    refine List.pairwise_map.2 (List.pairwise_lt_range.imp fun hab => ?_)
    simp only [Option.getD_some]
    omega
  rw [← h] at hrange
  exact (List.pairwise_map (f := fun m : Envelope => m.messageSeq)
    (R := fun a b => a.getD 0 < b.getD 0)).1 hrange

end Numbered

/-- A frame with a larger number behind frames that do not end the stream. -/
theorem Counted.inOrder_snoc {n : ℕ} {log : List Envelope} {message : Envelope} {seq : ℤ}
    (h : Counted n log) (hseq : message.messageSeq = some seq)
    (hnext : seq = n + 1 ∨ n + 1 < seq ∧ abortive message.kind = true) :
    InOrder (log ++ [message]) := by
  have hlt : (n : ℤ) < seq := by omega
  refine ⟨?_, ?_, ?_⟩
  · rcases hnext with rfl | ⟨hgap, habort⟩
    · exact ⟨n + 1, log ++ [message], [], by simp, h.1.snoc hseq, .inl rfl⟩
    · exact ⟨n, log, [message], rfl, h.1, .inr ⟨message, seq, rfl, hseq, hgap, habort⟩⟩
  · refine List.pairwise_append.2 ⟨h.1.increasing, List.pairwise_singleton _ _, ?_⟩
    intro a ha b hb
    rw [List.mem_singleton.1 hb, hseq]
    exact lt_of_le_of_lt (h.1.getD_le a ha) hlt
  · refine List.pairwise_append.2 ⟨?_, List.pairwise_singleton _ _, fun a ha _ _ => h.2 a ha⟩
    exact List.pairwise_of_forall_mem_list fun a ha _ _ => h.2 a ha

theorem Counted.snoc {n : ℕ} {log : List Envelope} {message : Envelope} (h : Counted n log)
    (hseq : message.messageSeq = some (n + 1 : ℤ)) (hfinal : senderFinal message.kind = false) :
    Counted (n + 1) (log ++ [message]) := by
  refine ⟨h.1.snoc hseq, fun m hm => ?_⟩
  rcases List.mem_append.1 hm with hm | hm
  · exact h.2 m hm
  · rw [List.mem_singleton.1 hm]
    exact hfinal

theorem inOrder_nil : InOrder [] :=
  ⟨⟨0, [], [], rfl, rfl, .inl rfl⟩, .nil, .nil⟩

/-- The frames of one stream. -/
def ofStream (id : ℤ) (frames : List Envelope) : List Envelope :=
  frames.filter fun message => message.streamId == id

/-- The accepted frames of a stream follow what the stream expects. -/
structure Ordered (id : ℤ) (frames : List Envelope) (r : Receiver) : Prop where
  inOrder : InOrder (ofStream id frames)
  unknown : r.failed = false → r.streams.get? id = none → ofStream id frames = []
  counted : r.failed = false → ∀ s, r.streams.get? id = some s → s.terminal = none →
    Counted (s.expected - 1).toNat (ofStream id frames)

theorem ofStream_append (id : ℤ) (frames frames' : List Envelope) :
    ofStream id (frames ++ frames') = ofStream id frames ++ ofStream id frames' :=
  List.filter_append ..

/-- A receiver that has ended accepts nothing more. -/
theorem Ordered.ended {r : Receiver} (h : Ordered id frames r)
    (hended : r'.failed = true) : Ordered id frames r' :=
  ⟨h.inOrder, fun hl => (by rw [hended] at hl; cases hl),
    fun hl => (by rw [hended] at hl; cases hl)⟩

/-- Work on another stream. -/
theorem Ordered.other {j : ℤ} {frames' : List Envelope} {r : Receiver}
    (h : Ordered id frames r) (hj : j ≠ id) (live : r.failed = false)
    (hstreams : r₁.streams = r.streams) (hframes : ∀ m ∈ frames', m.streamId = j) :
    Ordered id (frames ++ frames') (r₁.put j s') := by
  have hnil : ofStream id frames' = [] := by
    refine List.filter_eq_nil_iff.2 fun m hm => ?_
    rw [hframes m hm]
    simpa using hj
  have hget : (r₁.put j s').streams.get? id = r.streams.get? id := by
    rw [← hstreams]
    exact r₁.streams.get?_insert_of_ne hj.symm s'
  refine ⟨?_, fun _ hn => ?_, fun _ s hs hend => ?_⟩ <;> rw [ofStream_append, hnil, List.append_nil]
  · exact h.inOrder
  · exact h.unknown live (hget ▸ hn)
  · exact h.counted live s (hget ▸ hs) hend

/-- Work on the stream that accepts nothing. -/
theorem Ordered.same {r : Receiver} {s : StreamState}
    (h : Ordered id frames r) (live : r.failed = false) (hs : r.streams.get? id = some s)
    (hterminal : s'.terminal = s.terminal) (hexp : s'.expected = s.expected) :
    Ordered id frames (r₁.put id s') := by
  have hget : (r₁.put id s').streams.get? id = some s' := SortedMap.get?_insert_self _ _ _
  refine ⟨h.inOrder, fun _ hn => ?_, fun _ t ht hend => ?_⟩
  · rw [hget] at hn
    cases hn
  · obtain rfl := Option.some.inj (hget.symm.trans ht)
    rw [hexp]
    exact h.counted live s hs (hterminal ▸ hend)

/-- A frame of the stream is accepted: the next one, or an abortive one behind a gap. -/
theorem Ordered.accept {seq : ℤ} {r : Receiver}
    {s : StreamState} {message : Envelope} {c : ℕ} (h : Ordered id frames r)
    (live : r.failed = false) (hs : r.streams.get? id = some s) (unended : s.terminal = none)
    (hexp : 1 ≤ s.expected) (frame : Frame lay r.limits id seq message c)
    (hnext : seq = s.expected ∨ s.expected < seq ∧ abortive message.kind = true)
    (hafter : s'.terminal = none → seq = s.expected ∧ s'.expected = s.expected + 1 ∧
      senderFinal message.kind = false) :
    Ordered id (frames ++ [message]) (r₁.put id s') := by
  have hcounted := h.counted live s hs unended
  have happlied : ofStream id (frames ++ [message]) = ofStream id frames ++ [message] := by
    rw [ofStream_append]
    simp [ofStream, frame.stream]
  have hn : ((s.expected - 1).toNat : ℤ) = s.expected - 1 := Int.toNat_of_nonneg (by omega)
  have hget : (r₁.put id s').streams.get? id = some s' := SortedMap.get?_insert_self _ _ _
  refine ⟨?_, fun _ hn => ?_, fun _ t ht hend => ?_⟩
  · rw [happlied]
    refine hcounted.inOrder_snoc frame.numbered ?_
    rw [hn]
    rcases hnext with rfl | ⟨hgap, habort⟩
    · exact .inl (by omega)
    · exact .inr ⟨by omega, habort⟩
  · rw [hget] at hn
    cases hn
  · obtain rfl := Option.some.inj (hget.symm.trans ht)
    obtain ⟨rfl, hexp', hfinal⟩ := hafter hend
    rw [happlied, hexp', show (s.expected + 1 - 1).toNat = (s.expected - 1).toNat + 1 by omega]
    refine hcounted.snoc ?_ hfinal
    rw [frame.numbered, hn]
    congr 1
    omega

/-- What one move adds to the accepted frames of a stream. -/
theorem ordered_move {r : Receiver} {l : Option Event}
    (hf : Filed lay r) (h : Ordered id frames r) (hm : Move lay A r l r') :
    Ordered id (frames ++ l.toList.flatMap Event.accepted) r' := by
  cases hm with
  | @register j live positive fresh room =>
    show Ordered id (_ ++ []) _
    by_cases hj : j = id
    · subst hj
      rw [List.append_nil]
      refine ⟨h.inOrder, fun _ hn => ?_, fun _ t ht _ => ?_⟩
      · have hn : (r.streams.insert j .new).get? j = none := hn
        rw [SortedMap.get?_insert_self] at hn
        cases hn
      · have ht : (r.streams.insert j .new).get? j = some t := ht
        rw [SortedMap.get?_insert_self] at ht
        rw [h.unknown live fresh, ← Option.some.inj ht]
        exact ⟨rfl, by simp⟩
    · exact h.other hj live rfl (by simp)
  | @hold j seq s message c since given live hs frame unended free due first room =>
    show Ordered id (_ ++ []) _
    by_cases hj : j = id
    · subst hj
      rw [List.append_nil]
      exact h.same live hs rfl rfl
    · exact h.other hj live rfl (by simp)
  | @take j s message c given live hs frame unended free first last room =>
    show Ordered id (_ ++ [message]) _
    by_cases hj : j = id
    · subst hj
      refine h.accept live hs unended (hf.streams j s hs).expected.1 frame (.inl rfl) fun hend =>
        ⟨rfl, rfl, StreamState.senderFinal_of_mark hend⟩
    · exact h.other hj live rfl (by simp [frame.stream])
  | @drain j s held live hs hheld last =>
    show Ordered id (_ ++ [held.message]) _
    have hfs := hf.streams j s hs
    have frame := (hfs.pending _ _ hheld).1
    by_cases hj : j = id
    · subst hj
      have unended := hfs.unended hheld
      refine h.accept live hs unended hfs.expected.1 frame (.inl rfl) fun hend =>
        ⟨rfl, rfl, StreamState.senderFinal_of_mark hend⟩
    · exact h.other hj live rfl (by simp [frame.stream])
  | @overtake j seq s message c given live hs frame unended passes above room =>
    show Ordered id (_ ++ [message]) _
    obtain ⟨beyond, abort, -⟩ := of_overtakes passes
    by_cases hj : j = id
    · subst hj
      exact h.accept live hs unended (hf.streams j s hs).expected.1 frame (.inr ⟨beyond, abort⟩)
        fun hend => by cases hend
    · exact h.other hj live rfl (by simp [frame.stream])
  | @settle j s since live hs =>
    simp only [Option.toList_none, List.flatMap_nil]
    by_cases hj : j = id
    · subst hj
      rw [List.append_nil]
      exact h.same live hs rfl rfl
    · exact h.other hj live rfl (by simp)
  | clash given live hs frame why ended =>
    rw [show List.flatMap Event.accepted (some Event.clashed).toList = [] from rfl, List.append_nil]
    exact h.ended ended
  | reject live ended =>
    rw [show List.flatMap Event.accepted (some Event.rejected).toList = [] from rfl,
      List.append_nil]
    exact h.ended ended
  | timeout live =>
    simp only [Option.toList_none, List.flatMap_nil, List.append_nil]
    exact h.ended rfl

/-! ### What is resolved -/

/-- How often the resolutions name a frame. -/
def timesResolved (id seq : ℤ) (resolutions : List Resolution) : ℕ :=
  resolutions.countP fun x => x.streamId == id && x.messageSeq == seq

@[simp] theorem timesResolved_append (id seq : ℤ) (l l' : List Resolution) :
    timesResolved id seq (l ++ l') = timesResolved id seq l + timesResolved id seq l' :=
  List.countP_append ..

@[simp] theorem timesResolved_nil (id seq : ℤ) : timesResolved id seq [] = 0 := rfl

theorem timesResolved_applied (id seq j k : ℤ) (dropped : List ℤ) (message : Envelope) :
    timesResolved id seq (Event.applied j dropped k message).resolutions =
      if j = id then dropped.count seq + (if k = seq then 1 else 0) else 0 := by
  unfold timesResolved Event.resolutions
  rw [List.countP_append, List.countP_map, List.countP_singleton]
  by_cases hj : j = id
  · simp [hj, List.count, Function.comp_def]
  · simp [hj, Function.comp_def]

/-- A frame was reported so often, and the receiver holds it still or is done with it. -/
inductive Reported (id seq : ℤ) (n : ℕ) (r : Receiver) : Prop
  | held (hn : n = 0) (h : r.failed = false → ∃ s p, r.streams.get? id = some s ∧
      s.pending.get? seq = some p)
  | done (hn : n = 1) (h : r.failed = false → ∃ s, r.streams.get? id = some s ∧
      s.pending.get? seq = none ∧ (s.terminal.isSome = true ∨ seq < s.expected))

theorem Reported.le_one {seq : ℤ} {n : ℕ} {r : Receiver} (h : Reported id seq n r) :
    n ≤ 1 := by
  cases h <;> omega

theorem Reported.ended {seq : ℤ} {n : ℕ} {r : Receiver} (h : Reported id seq n r)
    (hended : r'.failed = true) : Reported id seq n r' := by
  have hdead : r'.failed = false → False := fun hl => by rw [hended] at hl; cases hl
  cases h with
  | held hn _ => exact .held hn fun hl => (hdead hl).elim
  | done hn _ => exact .done hn fun hl => (hdead hl).elim

/-- Work on another stream. -/
theorem Reported.other {seq j : ℤ} {n : ℕ} {r : Receiver}
    (h : Reported id seq n r) (hj : j ≠ id) (live : r.failed = false)
    (hstreams : r₁.streams = r.streams) : Reported id seq n (r₁.put j s') := by
  have hget : (r₁.put j s').streams.get? id = r.streams.get? id := by
    rw [← hstreams]
    exact r₁.streams.get?_insert_of_ne hj.symm s'
  cases h with
  | held hn h => exact .held hn fun _ => hget ▸ h live
  | done hn h => exact .done hn fun _ => hget ▸ h live

/-- Work on the stream: what it does to a held frame, and to one that is done with. -/
theorem Reported.work {seq : ℤ} {n k : ℕ} {r : Receiver} {s : StreamState}
    (h : Reported id seq n r) (live : r.failed = false) (hs : r.streams.get? id = some s)
    (hheld : ∀ p, s.pending.get? seq = some p → k = 0 ∧ (∃ p', s'.pending.get? seq = some p') ∨
      k = 1 ∧ s'.pending.get? seq = none ∧ (s'.terminal.isSome = true ∨ seq < s'.expected))
    (hdone : s.pending.get? seq = none → (s.terminal.isSome = true ∨ seq < s.expected) →
      k = 0 ∧ s'.pending.get? seq = none ∧ (s'.terminal.isSome = true ∨ seq < s'.expected)) :
    Reported id seq (n + k) (r₁.put id s') := by
  have hget : (r₁.put id s').streams.get? id = some s' := SortedMap.get?_insert_self _ _ _
  cases h with
  | held hn h =>
    obtain ⟨t, p, ht, hp⟩ := h live
    obtain rfl := Option.some.inj (hs.symm.trans ht)
    rcases hheld p hp with ⟨hk, p', hp'⟩ | ⟨hk, hnone, hpast⟩
    · exact .held (by omega) fun _ => ⟨s', p', hget, hp'⟩
    · exact .done (by omega) fun _ => ⟨s', hget, hnone, hpast⟩
  | done hn h =>
    obtain ⟨t, ht, hnone, hpast⟩ := h live
    obtain rfl := Option.some.inj (hs.symm.trans ht)
    obtain ⟨hk, hnone', hpast'⟩ := hdone hnone hpast
    exact .done (by omega) fun _ => ⟨s', hget, hnone', hpast'⟩

/-- The stream's next frame is applied, and not held any more. -/
theorem Reported.mark {seq : ℤ} {n : ℕ} {r : Receiver} {s : StreamState}
    {message : Envelope} (h : Reported id seq n r) (live : r.failed = false)
    (hs : r.streams.get? id = some s) (unended : s.terminal = none) :
    Reported id seq (n + if s.expected = seq then 1 else 0)
      (r₁.put id (s.mark s.expected message)) := by
  have hexpected : (s.mark s.expected message).expected = s.expected + 1 := rfl
  have hpending : (s.mark s.expected message).pending = s.pending.erase s.expected := rfl
  refine h.work live hs (fun p hp => ?_) fun hnone hpast => ?_
  · by_cases hseq : s.expected = seq
    · refine .inr ⟨if_pos hseq, ?_, .inr (by omega)⟩
      rw [hpending, hseq, SortedMap.get?_erase_self]
    · refine .inl ⟨if_neg hseq, p, ?_⟩
      rw [hpending, SortedMap.get?_erase_of_ne _ (Ne.symm hseq), hp]
  · have hlt : seq < s.expected := by
      rcases hpast with hend | hlt
      · rw [unended] at hend
        cases hend
      · exact hlt
    refine ⟨if_neg (by omega), ?_, .inr (by omega)⟩
    rw [hpending, SortedMap.get?_erase_of_ne _ (by omega), hnone]

/-- The numbers of the held frames, each of them once. -/
theorem count_keys {V : Type} (m : SortedMap ℤ V) (k : ℤ) :
    (m.toList.map (·.1)).count k = if (m.get? k).isSome then 1 else 0 := by
  have hnodup : (m.toList.map (·.1)).Nodup :=
    List.pairwise_map.2 (m.sorted.imp fun hab => hab.ne)
  split_ifs with hsome
  · obtain ⟨v, hv⟩ := Option.isSome_iff_exists.1 hsome
    exact List.count_eq_one_of_mem hnodup (List.mem_map.2 ⟨(k, v), m.mem_toList.2 hv, rfl⟩)
  · refine List.count_eq_zero.2 fun hmem => ?_
    obtain ⟨⟨j, v⟩, hv, rfl⟩ := List.mem_map.1 hmem
    exact hsome (by rw [m.mem_toList.1 hv]; rfl)

/-- What one move adds to the resolutions of one frame. -/
theorem reported_move {seq : ℤ} {n : ℕ} {r : Receiver} {l : Option Event}
    (hf : Filed lay r) (h : Reported id seq n r) (hm : Move lay A r l r') :
    Reported id seq (n + timesResolved id seq (l.toList.flatMap Event.resolutions)) r' := by
  cases hm with
  | @register j live positive fresh room =>
    by_cases hj : j = id
    · subst hj
      cases h with
      | held hn h =>
        obtain ⟨s, p, hs, -⟩ := h live
        rw [fresh] at hs
        cases hs
      | done hn h =>
        obtain ⟨s, hs, -⟩ := h live
        rw [fresh] at hs
        cases hs
    · exact h.other hj live rfl
  | @hold j k s message c since given live hs frame unended free due first room =>
    by_cases hj : j = id
    · subst hj
      refine h.work (k := 0) live hs (fun p hp => .inl ⟨rfl, p, ?_⟩) fun hnone hpast =>
        ⟨rfl, ?_, hpast⟩
      · rw [SortedMap.get?_insert_of_ne _ _, hp]
        rintro rfl
        rw [hp] at free
        cases free
      · rw [SortedMap.get?_insert_of_ne _ _, hnone]
        rintro rfl
        rcases hpast with hend | hlt
        · rw [unended] at hend
          cases hend
        · exact absurd hlt (not_lt.2 due)
    · exact h.other hj live rfl
  | @take j s message c given live hs frame unended free first last room =>
    simp only [Option.toList_some, List.flatMap_singleton, timesResolved_applied]
    by_cases hj : j = id
    · subst hj
      simpa using h.mark live hs unended
    · rw [if_neg hj]
      exact h.other hj live rfl
  | @drain j s held live hs hheld last =>
    simp only [Option.toList_some, List.flatMap_singleton, timesResolved_applied]
    by_cases hj : j = id
    · subst hj
      simpa using h.mark live hs ((hf.streams j s hs).unended hheld)
    · rw [if_neg hj]
      exact h.other hj live rfl
  | @overtake j k s message c given live hs frame unended passes above room =>
    simp only [Option.toList_some, List.flatMap_singleton, timesResolved_applied, count_keys]
    by_cases hj : j = id
    · subst hj
      have hbeyond := (of_overtakes passes).1
      refine h.work live hs (fun p hp => .inr ⟨?_, rfl, .inl rfl⟩) fun hnone hpast =>
        ⟨?_, rfl, .inl rfl⟩
      · have hlt := above seq p hp
        simp [hp, hlt.ne']
      · have hlt : seq < s.expected := by
          rcases hpast with hend | hlt
          · rw [unended] at hend
            cases hend
          · exact hlt
        have hne : k ≠ seq := by omega
        simp [hnone, hne]
    · rw [if_neg hj]
      exact h.other hj live rfl
  | @settle j s since live hs =>
    by_cases hj : j = id
    · subst hj
      exact h.work (k := 0) live hs (fun p hp => .inl ⟨rfl, p, hp⟩) fun hnone hpast =>
        ⟨rfl, hnone, hpast⟩
    · exact h.other hj live rfl
  | clash given live hs frame why ended => exact h.ended ended
  | reject live ended => exact h.ended ended
  | timeout live => exact h.ended rfl

/-! ### Whole runs -/

/-- What the moves of a call add, from a receiver in order. -/
theorem moves_add (id seq : ℤ) {r : Receiver} {evs : List Event}
    (hw : Weak (Move lay A) r evs r') (hf : r.failed = false → Filed lay r) :
    (r'.failed = false → r.failed = false ∧ Filed lay r') ∧
      (∀ frames, Ordered id frames r → Ordered id (frames ++ evs.flatMap Event.accepted) r') ∧
      (∀ n, Reported id seq n r →
        Reported id seq (n + timesResolved id seq (evs.flatMap Event.resolutions)) r') ∧
      (.clashed ∈ evs ∨ .rejected ∈ evs → r'.failed = true) := by
  refine hw.follow [] (P := fun hist t => (t.failed = false → r.failed = false ∧ Filed lay t) ∧
    (∀ frames, Ordered id frames r → Ordered id (frames ++ hist.flatMap Event.accepted) t) ∧
    (∀ n, Reported id seq n r →
      Reported id seq (n + timesResolved id seq (hist.flatMap Event.resolutions)) t) ∧
    (.clashed ∈ hist ∨ .rejected ∈ hist → t.failed = true)) ?_
    ⟨fun live => ⟨live, hf live⟩, by simp, by simp, by simp⟩
  rintro hist t l u ⟨hft, hordered, hreported, hended⟩ hm
  have hlive := hm.live
  obtain ⟨hstart, hft⟩ := hft hlive
  refine ⟨fun live => ⟨hstart, filed_move hft hm live⟩, fun frames h => ?_, fun n h => ?_,
    fun hend => ?_⟩
  · rw [List.flatMap_append, ← List.append_assoc]
    exact ordered_move hft (hordered frames h) hm
  · rw [List.flatMap_append, timesResolved_append, ← Nat.add_assoc]
    exact reported_move hft (hreported n h) hm
  · have hnot : ¬ (.clashed ∈ hist ∨ .rejected ∈ hist) := fun h => by
      rw [hended h] at hlive
      cases hlive
    have hlabel : l = some .clashed ∨ l = some .rejected := by
      simp only [List.mem_append, Option.mem_toList] at hend hnot
      tauto
    rcases hlabel with rfl | rfl
    · cases hm
      assumption
    · cases hm
      assumption

/-- The frames accepted during a run. -/
def appliedIn (tr : List (Call × Outcome)) : List Envelope := tr.flatMap fun l => l.2.applied

/-- The resolutions reported during a run. -/
def reportedIn (tr : List (Call × Outcome)) : List Resolution :=
  tr.flatMap fun l => (l.2.result.toOption.map reported).getD []

theorem reportedIn_snoc (tr : List (Call × Outcome)) (l : Call × Outcome) :
    reportedIn (tr ++ [l]) = reportedIn tr ++ (l.2.result.toOption.map reported).getD [] := by
  simp [reportedIn]

theorem filed_run {r₀ r : Receiver} {tr : List (Call × Outcome)} (hf : Filed lay r₀)
    (hrun : Run (Step lay) r₀ tr r) : r.failed = false → Filed lay r :=
  hrun.invariant (P := fun _ r => r.failed = false → Filed lay r) (fun _ => hf)
    fun tr r l r' _ ih hcall => by
      obtain ⟨evs, hw, -⟩ := call_shown ih l.1
      rw [show r.call lay l.1 = (r', l.2) from hcall] at hw
      exact fun live => ((moves_add 0 0 hw ih).1 live).2

/-- What the application accepted of a stream, after any calls. -/
theorem ordered_run {r₀ r : Receiver} {tr : List (Call × Outcome)} (hf : Filed lay r₀)
    (h₀ : Ordered id [] r₀) (hrun : Run (Step lay) r₀ tr r) : Ordered id (appliedIn tr) r := by
  refine hrun.invariant (P := fun tr r => Ordered id (appliedIn tr) r) h₀
    fun tr r l r' hpre ih hcall => ?_
  have hfr := filed_run hf hpre
  obtain ⟨evs, hw, haccepted, -⟩ := call_shown hfr l.1
  rw [show r.call lay l.1 = (r', l.2) from hcall] at hw haccepted
  have := (moves_add id 0 hw hfr).2.1 _ ih
  rw [appliedIn, List.flatMap_append, List.flatMap_singleton, haccepted]
  exact this

theorem status_of_event {ev : Event} {x : Resolution} (h : x ∈ ev.resolutions) :
    x.status = .applied ∨ x.status = .superseded := by
  cases ev with
  | applied id dropped seq message =>
    rcases List.mem_append.1 h with h | h
    · obtain ⟨k, -, rfl⟩ := List.mem_map.1 h
      exact .inr rfl
    · rw [List.mem_singleton.1 h]
      exact .inl rfl
  | held => cases h
  | clashed => cases h
  | rejected => cases h

/-- What was reported of a held frame, after any calls: as much as the moves resolved, unless a
call that ended the receiver said nothing of it. -/
theorem reported_run {r : Receiver} {tr : List (Call × Outcome)} {seq : ℤ}
    (hf : r₁.failed = false → Filed lay r₁) (h₁ : Reported id seq 0 r₁)
    (hrun : Run (Step lay) r₁ tr r) :
    (∃ n, Reported id seq n r ∧ timesResolved id seq (reportedIn tr) ≤ n ∧
      (r.failed = false → timesResolved id seq (reportedIn tr) = n)) ∧
      ∀ x ∈ reportedIn tr, x.status = .applied ∨ x.status = .superseded := by
  suffices h : (r.failed = false → Filed lay r) ∧
      (∃ n, Reported id seq n r ∧ timesResolved id seq (reportedIn tr) ≤ n ∧
        (r.failed = false → timesResolved id seq (reportedIn tr) = n)) ∧
        ∀ x ∈ reportedIn tr, x.status = .applied ∨ x.status = .superseded from h.2
  refine hrun.invariant (P := fun tr r => (r.failed = false → Filed lay r) ∧
      (∃ n, Reported id seq n r ∧ timesResolved id seq (reportedIn tr) ≤ n ∧
        (r.failed = false → timesResolved id seq (reportedIn tr) = n)) ∧
        ∀ x ∈ reportedIn tr, x.status = .applied ∨ x.status = .superseded)
    ⟨hf, ⟨0, h₁, le_rfl, fun _ => rfl⟩, by simp [reportedIn]⟩ ?_
  rintro tr r l r' - ⟨hfr, ⟨n, hn, hle, heq⟩, hstatus⟩ hcall
  obtain ⟨evs, hw, -, htold⟩ := call_shown hfr l.1
  rw [show r.call lay l.1 = (r', l.2) from hcall] at hw htold
  obtain ⟨hlive, -, hreported, hended⟩ := moves_add id seq hw hfr
  rw [reportedIn_snoc, timesResolved_append]
  cases hresult : l.2.result with
  | ok report =>
    rw [hresult] at htold
    have hsaid : reported report = evs.flatMap Event.resolutions := by
      rcases htold with htold | ⟨-, e, he⟩
      · exact htold
      · cases he
    simp only [Except.toOption, Option.map_some, Option.getD_some, hsaid]
    refine ⟨fun live => (hlive live).2, ⟨_, hreported n hn, by omega, fun live => ?_⟩, ?_⟩
    · rw [heq (hlive live).1]
    · intro x hx
      rcases List.mem_append.1 hx with hx | hx
      · exact hstatus x hx
      · obtain ⟨ev, -, hx⟩ := List.mem_flatMap.1 hx
        exact status_of_event hx
  | error e =>
    rw [hresult] at htold
    simp only [Except.toOption, Option.map_none, Option.getD_none, timesResolved_nil,
      List.append_nil]
    refine ⟨fun live => (hlive live).2, ⟨_, hreported n hn, by omega, fun live => ?_⟩, hstatus⟩
    have hnone : evs = [] := by
      rcases htold with htold | ⟨h, -⟩
      · by_contra hne
        have hdead : .clashed ∈ evs ∨ .rejected ∈ evs := by
          cases e with
          | protocol => exact .inl htold
          | applyRejected => exact .inr htold
          | _ => exact absurd htold hne
        rw [hended hdead] at live
        cases live
      · exact h
    rw [hnone, heq (hlive live).1]
    rfl

/-! ### What a report of a held frame says -/

namespace Receiver

variable {r : Receiver} {s : StreamState} {message : Envelope} {seq : ℤ} {c now : ℕ}
  {apply : Apply} {resolved : List Resolution}

theorem pending_of_remembered (h : remembered s message seq = some (.ok ⟨.buffered, resolved⟩)) :
    ∃ p, s.pending.get? seq = some p := by
  unfold remembered at h
  cases hterminal : s.terminal with
  | some t =>
    obtain ⟨last, terminal⟩ := t
    simp only [hterminal] at h
    split_ifs at h <;> simp at h
  | none =>
    simp only [hterminal] at h
    by_cases hlt : seq < s.expected
    · rw [if_pos hlt] at h
      split_ifs at h <;> simp at h
    · rw [if_neg hlt] at h
      cases hheld : s.pending.get? seq with
      | none => rw [hheld] at h; cases h
      | some p => exact ⟨p, rfl⟩

theorem pending_of_buffer {outOfOrder : Bool} {report : Report}
    (h : (r.buffer lay s message seq c now outOfOrder).result = .ok report) :
    (r.buffer lay s message seq c now outOfOrder).receiver.failed = r.failed ∧
      ∃ p, (r.buffer lay s message seq c now outOfOrder).state.pending.get? seq = some p := by
  unfold buffer at h ⊢
  split_ifs at h ⊢
  exact ⟨rfl, _, SortedMap.get?_insert_self _ _ _⟩

/-- A frame that overtook ends the stream, and nothing is held any more. -/
theorem supersede_ok {report : Report}
    (h : (r.supersede lay s message seq c apply).result = .ok report) :
    report.submitted = .applied ∧
      (r.supersede lay s message seq c apply).state.terminal.isSome = true ∧
      (r.supersede lay s message seq c apply).state.pending = .empty := by
  unfold supersede at h ⊢
  by_cases hbelow : s.pending.toList.any
      (fun e => decide (e.1 < seq) && senderFinal e.2.message.kind) = true
  · rw [if_pos hbelow] at h
    cases h
  rw [if_neg hbelow] at h ⊢
  by_cases habove : s.pending.toList.any (fun e => decide (satAddInt seq 1 ≤ e.1)) = true
  · rw [if_pos habove] at h
    cases h
  rw [if_neg habove] at h ⊢
  cases hretain : r.checkRetain lay c (s.pending.sum (·.charge)) with
  | error e => rw [hretain] at h; cases h
  | ok u =>
    rw [hretain] at h
    cases happly : apply 0 message with
    | error e => cases e <;> rw [happly] at h <;> cases h
    | ok u =>
      rw [happly] at h
      exact ⟨(Except.ok.inj h) ▸ rfl, rfl, rfl⟩

/-- The frame a stream waits for is held or applied, as the application answers. -/
theorem applyNext_ok {report : Report}
    (h : (r.applyNext lay s message seq c now apply).result = .ok report) :
    apply 0 message = .error .wouldBlock ∧ r.applyNext lay s message seq c now apply =
        r.buffer lay s message seq c now false ∨
      apply 0 message = .ok () ∧ report.submitted = .applied ∧
        (senderFinal message.kind = true → s.pending.isEmpty = true) ∧
        (if (seq == 1 || senderFinal message.kind) = true then r.checkRetain lay c 0
          else Except.ok ()) = .ok () := by
  cases hlast : (senderFinal message.kind && !s.pending.isEmpty) with
  | true =>
    simp only [applyNext, hlast, if_true] at h
    cases h
  | false =>
    have hempty : senderFinal message.kind = true → s.pending.isEmpty = true := fun hfinal => by
      simpa [hfinal] using hlast
    cases hretain : (if (seq == 1 || senderFinal message.kind) = true then r.checkRetain lay c 0
        else Except.ok ()) with
    | error e =>
      simp only [applyNext, hlast, hretain, Bool.false_eq_true, if_false] at h
      cases h
    | ok u =>
      simp only [applyNext, hlast, hretain, Bool.false_eq_true, if_false] at h ⊢
      cases happly : apply 0 message with
      | error e =>
        cases e with
        | wouldBlock => exact .inl ⟨rfl, rfl⟩
        | rejected => rw [happly] at h; cases h
      | ok u =>
        refine .inr ⟨rfl, ?_, hempty, trivial⟩
        rw [happly] at h
        simp only at h
        split at h
        · cases h
        · simp only [Except.map] at h
          split at h
          · cases h
          · exact (Except.ok.inj h) ▸ rfl

/-- A frame that is reported as held is held. -/
theorem pending_of_submitInner
    (h : (r.submitInner lay s message seq c now apply).result = .ok ⟨.buffered, resolved⟩) :
    (r.submitInner lay s message seq c now apply).receiver.failed = r.failed ∧
      ∃ p, (r.submitInner lay s message seq c now apply).state.pending.get? seq = some p := by
  cases hanswer : remembered s message seq with
  | some answer =>
    simp only [submitInner, hanswer] at h ⊢
    subst h
    exact ⟨trivial, pending_of_remembered hanswer⟩
  | none =>
    unfold submitInner at h ⊢
    simp only [hanswer] at h ⊢
    by_cases hfirst : (seq == 1 && !firstKind r.direction message.kind) = true
    · rw [if_pos hfirst] at h
      cases h
    rw [if_neg hfirst] at h ⊢
    by_cases hover : overtakes r.direction s message.kind seq = true
    · rw [if_pos hover] at h
      cases (supersede_ok h).1
    rw [if_neg hover] at h ⊢
    by_cases hearly : s.expected < seq
    · rw [if_pos hearly] at h ⊢
      exact pending_of_buffer h
    · rw [if_neg hearly] at h ⊢
      rcases applyNext_ok h with ⟨-, hbuffer⟩ | ⟨-, happlied, -⟩
      · rw [hbuffer] at h ⊢
        exact pending_of_buffer h
      · cases happlied

theorem pending_of_submit
    (h : (r.submit lay message now apply).2.result = .ok ⟨.buffered, resolved⟩)
    (hseq : message.messageSeq = some seq) :
    (r.submit lay message now apply).1.failed = false ∧ ∃ s p,
      (r.submit lay message now apply).1.streams.get? message.streamId = some s ∧
        s.pending.get? seq = some p := by
  rcases submit_cases lay r message now apply with
    ⟨e, hanswer, -⟩ | ⟨live, s, k, c, hs, -, frame, hsubmit⟩
  · rw [hanswer] at h
    cases h
  · rw [hsubmit] at h ⊢
    obtain rfl : k = seq := Option.some.inj (frame.numbered.symm.trans hseq)
    obtain ⟨hfailed, p, hp⟩ := pending_of_submitInner h
    rw [restore_ok h]
    exact ⟨hfailed.trans live, _, p, SortedMap.get?_insert_self _ _ _, hp⟩

end Receiver

/-- **Exactly once and in order.**  After any calls, the frames of a stream that the application
accepted are in order.  A frame that was reported as held is from then on reported as resolved at
most once, and as applied or superseded; while the receiver lives, the frame was reported or is
still held. -/
theorem delivered_in_order {sessionId : String} {direction : Direction} {limits : Limits}
    {r₀ r : Receiver} {tr : List (Call × Outcome)}
    (hnew : Receiver.new lay sessionId direction limits = .ok r₀)
    (hrun : Run (Step lay) r₀ tr r) (id : ℤ) :
    InOrder (ofStream id (appliedIn tr)) ∧
      ∀ before message now apply resolved applied after seq,
        tr = before ++ (.submit message now apply, ⟨.ok (some ⟨.buffered, resolved⟩), applied⟩) ::
          after →
        message.streamId = id → message.messageSeq = some seq →
          timesResolved id seq (reportedIn after) ≤ 1 ∧
          (∀ x ∈ reportedIn after, x.status = .applied ∨ x.status = .superseded) ∧
          (r.failed = false → ∃ s, r.streams.get? id = some s ∧
            (timesResolved id seq (reportedIn after) = 1 ∧ s.pending.get? seq = none ∨
              timesResolved id seq (reportedIn after) = 0 ∧
              (s.pending.get? seq).isSome = true)) := by
  have hf := filed_of_new hnew
  refine ⟨(ordered_run hf ?_ hrun).inOrder, ?_⟩
  · obtain ⟨-, rfl⟩ := new_eq_ok hnew
    exact ⟨inOrder_nil, fun _ _ => rfl, fun _ s hs => by cases hs⟩
  rintro before message now apply resolved applied after seq rfl rfl hseq
  obtain ⟨r₁, hbefore, hrest⟩ := hrun.split
  obtain ⟨r₂, hstep, hafter⟩ := hrest.uncons
  have hf₂ := filed_run hf (hbefore.snoc hstep)
  -- the report comes from a submission that left the frame held
  have hcall : r₁.call lay (.submit message now apply) =
      (r₂, ⟨.ok (some ⟨.buffered, resolved⟩), applied⟩) := hstep
  simp only [Receiver.call, Prod.mk.injEq, Answer.mk.injEq] at hcall
  obtain ⟨rfl, hresult, -⟩ := hcall
  have hresult : (r₁.submit lay message now apply).2.result = .ok ⟨.buffered, resolved⟩ := by
    cases hsubmit : (r₁.submit lay message now apply).2.result with
    | error e => rw [hsubmit] at hresult; cases hresult
    | ok report =>
      rw [hsubmit] at hresult
      exact congrArg Except.ok (Option.some.inj (Except.ok.inj hresult))
  obtain ⟨-, s, p, hs, hp⟩ := pending_of_submit hresult hseq
  obtain ⟨⟨n, hn, hle, heq⟩, hstatus⟩ := reported_run hf₂ (.held rfl fun _ => ⟨s, p, hs, hp⟩) hafter
  refine ⟨hle.trans hn.le_one, hstatus, fun live => ?_⟩
  rw [heq live]
  cases hn with
  | held hzero h =>
    obtain ⟨t, q, ht, hq⟩ := h live
    exact ⟨t, ht, .inr ⟨hzero, by rw [hq]; rfl⟩⟩
  | done hone h =>
    obtain ⟨t, ht, hnone, -⟩ := h live
    exact ⟨t, ht, .inl ⟨hone, hnone⟩⟩

/-- The second frame of a stream, then its first. -/
def swapped : List Call :=
  [.register 1, .submit (windowFrame 1 2) 0 acceptAll, .submit (openFrame 1 1) 0 acceptAll]

theorem delivered_in_order_swapped :
    appliedIn ((freshReceiver .initiator).trace builtLayout swapped) =
        [openFrame 1 1, windowFrame 1 2] ∧
      InOrder (ofStream 1 (appliedIn ((freshReceiver .initiator).trace builtLayout swapped))) :=
  ⟨by decide +kernel, (delivered_in_order (freshReceiver_new .initiator)
    (run_of_runWhen (run_after (C := fun _ _ => true) rfl)) 1).1⟩

end GwzTransport.Sequenced
