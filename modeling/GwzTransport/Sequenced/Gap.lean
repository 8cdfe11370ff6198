import GwzTransport.Sequenced.Order
import GwzTransport.Sequenced.Refusals

/-!
# What the gap deadline measures

`gap_since` is set when a frame is held and cleared when nothing is held any more.  It therefore
also runs while the application does not take the frame that is next, and it goes on when one gap
is closed and another is left.  `SmoothStep` leaves both out: the application takes every frame, and
the frame that a stream waits for is followed by all that is held.

* `StreamState.Moved`: what a call does to a stream under these conditions;
* `MissedSince`: one frame has been missing, and a later one held, in every state since a call.
-/

namespace GwzTransport.Sequenced

open Protocol MachineInt Checks Transition

variable {lay : Layout}

namespace StreamState

/-- The held frames follow the frame the stream waits for, without another gap. -/
def Follows (s : StreamState) : Prop :=
  ∀ k, s.expected + 1 < k → (s.pending.get? k).isSome = true →
    (s.pending.get? (k - 1)).isSome = true

/-- A stream after a call: as it was, or without held frames, or with one more of them, which is
not the one it waits for. -/
def Moved (time : Option ℕ) (s s' : StreamState) : Prop :=
  s' = s ∨ s'.pending.isEmpty = true ∧ s'.gapSince = none ∨
    ∃ now seq held, time = some now ∧ s.expected < seq ∧ s' = { s with
      gapSince := some (s.gapSince.getD now)
      pending := s.pending.insert seq held }

theorem isEmpty_of_follows {pending : SortedMap ℤ Pending} {e : ℤ} (hnone : pending.get? e = none)
    (hfollow : ∀ k, (pending.get? k).isSome = true →
      e ≤ k ∧ (e < k → (pending.get? (k - 1)).isSome = true)) : pending.isEmpty = true := by
  have hfrom : ∀ k, e ≤ k → pending.get? k = none := by
    intro k hk
    induction k, hk using Int.leInduction with
    | base => exact hnone
    | succ k hk ih =>
      by_contra hsome
      have hprev := (hfollow (k + 1) (Option.isSome_iff_ne_none.2 hsome)).2 (by omega)
      rw [show k + 1 - 1 = k by omega, ih] at hprev
      cases hprev
  refine pending.isEmpty_iff.2 fun k => ?_
  by_contra hsome
  exact hsome (hfrom k (hfollow k (Option.isSome_iff_ne_none.2 hsome)).1)

end StreamState

namespace Receiver

variable {r r' : Receiver} {s : StreamState} {message : Envelope} {seq id : ℤ} {c now : ℕ}
  {apply : Apply} {e : Error} {limits : Limits}

/-- The application takes every frame or rejects it. -/
def Prompt (apply : Apply) : Prop := ∀ k message, apply k message ≠ .error .wouldBlock

/-- Work on a stream that did not end the receiver. -/
def Kept {α : Type} (time : Option ℕ) (r : Receiver) (s : StreamState) (t : Turn α) : Prop :=
  fatal t.result = true ∨ t.receiver.streams = r.streams ∧ s.Moved time t.state

theorem kept_same {α : Type} {time : Option ℕ} {result : Except Error α} :
    Kept time r s ⟨r, s, result, []⟩ :=
  .inr ⟨rfl, .inl rfl⟩

/-- A drain of frames without a gap takes them all. -/
theorem drainRounds_all {n accepted : ℕ} (hprompt : Prompt apply) (hsize : s.pending.size < n)
    (hexp : s.expected ≤ i64Max)
    (hframes : ∀ k held, s.pending.get? k = some held →
      Frame lay limits id k held.message held.charge)
    (hfollow : ∀ k, (s.pending.get? k).isSome = true →
      s.expected ≤ k ∧ (s.expected < k → (s.pending.get? (k - 1)).isSome = true)) :
    fatal (drainRounds id apply n accepted r s).result = true ∨
      (drainRounds id apply n accepted r s).receiver.streams = r.streams ∧
        (drainRounds id apply n accepted r s).state.pending.isEmpty = true ∧
        (drainRounds id apply n accepted r s).state.gapSince = none := by
  induction n generalizing accepted r s with
  | zero => omega
  | succ n ih =>
    unfold drainRounds
    cases hheld : s.pending.get? s.expected with
    | none =>
      have hempty := StreamState.isEmpty_of_follows hheld hfollow
      refine .inr ⟨rfl, ?_⟩
      simp only [drained, hempty, if_true, and_self]
    | some held =>
      have frame := hframes _ _ hheld
      have hbounds := frame.bounds
      by_cases hlast : (senderFinal held.message.kind &&
          !(s.pending.erase s.expected).isEmpty) = true
      · simp only [hlast, if_true]
        exact .inl rfl
      simp only [hlast, Bool.false_eq_true, if_false]
      have hlast : senderFinal held.message.kind = true →
          (s.pending.erase s.expected).isEmpty = true := by
        intro hfinal
        simpa [hfinal] using hlast
      cases happly : apply accepted held.message with
      | error e =>
        cases e with
        | wouldBlock => exact absurd happly (hprompt _ _)
        | rejected => exact .inl rfl
      | ok u =>
        have hmark := markApplied_eq (r := r.uncharge held.charge)
          (s := { s with pending := s.pending.erase s.expected }) (c := held.charge)
          frame.numbered hbounds.1 (by omega) (SortedMap.get?_erase_self _ _) hlast
        rw [mark_erase] at hmark
        simp only [hmark, fatal_map]
        refine ih (s := s.mark s.expected held.message) ?_ ?_ ?_ ?_
        · have hshrink := s.pending.size_erase s.expected
          rw [hheld] at hshrink
          simp only [StreamState.mark, Option.isSome_some, Bool.toNat_true] at hshrink ⊢
          omega
        · simp only [StreamState.mark]
          omega
        · exact s.pending.forall_erase _ hframes
        · intro k hk
          simp only [StreamState.mark, SortedMap.get?_erase] at hk ⊢
          split_ifs at hk with hne
          · cases hk
          obtain ⟨hle, hprev⟩ := hfollow k hk
          refine ⟨by omega, fun hlt => ?_⟩
          rw [if_neg (by omega)]
          exact hprev (by omega)

theorem buffer_kept (hearly : s.expected < seq) :
    Kept (some now) r s (r.buffer lay s message seq c now true) := by
  unfold buffer
  split_ifs
  · exact kept_same
  · exact .inr ⟨rfl, .inr (.inr ⟨now, seq, _, rfl, hearly, rfl⟩)⟩

theorem supersede_kept : Kept (some now) r s (r.supersede lay s message seq c apply) := by
  unfold supersede
  split_ifs
  · exact .inl rfl
  · exact .inl rfl
  split
  · exact kept_same
  split
  · exact kept_same
  · exact .inl rfl
  · refine .inr ⟨?_, .inr (.inl ⟨rfl, rfl⟩)⟩
    rw [foldl_uncharge]

theorem applyNext_kept (hprompt : Prompt apply) (hfs : s.Filed lay limits id)
    (frame : Frame lay limits id s.expected message c) (free : s.pending.get? s.expected = none)
    (hfollows : s.Follows) :
    Kept (some now) r s (r.applyNext lay s message s.expected c now apply) := by
  by_cases hlast : (senderFinal message.kind && !s.pending.isEmpty) = true
  · simp only [applyNext, hlast, if_true]
    exact .inl rfl
  have hgoes : (senderFinal message.kind && !s.pending.isEmpty) = false := by simpa using hlast
  have hlast : senderFinal message.kind = true → s.pending.isEmpty = true := by
    intro hfinal
    simpa [hfinal] using hlast
  cases hretain : (if (s.expected == 1 || senderFinal message.kind) = true then
      r.checkRetain lay c 0 else Except.ok ()) with
  | error e =>
    simp only [applyNext, hgoes, hretain, Bool.false_eq_true, if_false]
    exact kept_same
  | ok u =>
    cases happly : apply 0 message with
    | error e =>
      cases e with
      | wouldBlock => exact absurd happly (hprompt _ _)
      | rejected =>
        simp only [applyNext, hgoes, hretain, happly, Bool.false_eq_true, if_false]
        exact .inl rfl
    | ok u =>
      have hbounds := frame.bounds
      have hexp := hfs.expected
      rw [applyNext_of_accepted frame hexp.2 free hlast hretain happly]
      unfold Kept
      simp only [fatal_map]
      have hpending : (s.mark s.expected message).pending = s.pending :=
        SortedMap.erase_eq_self _ free
      have hframes : ∀ k held, (s.mark s.expected message).pending.get? k = some held →
          Frame lay limits id k held.message held.charge := by
        rw [hpending]
        exact fun k held hk => (hfs.pending k held hk).1
      refine (drainRounds_all hprompt (Nat.lt_succ_self _) ?_ hframes ?_).imp_right
        fun h => ⟨h.1, .inr (.inl h.2)⟩
      · simp only [StreamState.mark]
        omega
      · rw [hpending]
        intro k hk
        obtain ⟨held, hheld⟩ := Option.isSome_iff_exists.1 hk
        have hle := (hfs.pending k held hheld).2
        have hne : k ≠ s.expected := by
          rintro rfl
          rw [free] at hk
          cases hk
        simp only [StreamState.mark]
        exact ⟨by omega, fun hlt => hfollows k hlt hk⟩

theorem submitInner_kept (hprompt : Prompt apply) (hfs : s.Filed lay limits id)
    (frame : Frame lay limits id seq message c) (free : s.pending.get? s.expected = none)
    (hfollows : seq = s.expected → s.Follows) :
    Kept (some now) r s (r.submitInner lay s message seq c now apply) := by
  unfold submitInner
  split
  · exact kept_same
  next hfresh =>
    split_ifs with hfirst hover hearly
    · exact .inl rfl
    · exact supersede_kept
    · exact buffer_kept hearly
    · obtain rfl : seq = s.expected := le_antisymm (not_lt.1 hearly)
          (of_remembered_eq_none hfresh).2.1
      exact applyNext_kept hprompt hfs frame free (hfollows rfl)

/-! ### Where the timeout comes from -/

/-- What an error of the work on a stream can be. -/
def Answers {α : Type} (t : Turn α) : Prop :=
  ∀ e, t.result = .error e → (e.goesWrong || e.refuses) = true

theorem answers_error {α : Type} {applied : List Envelope} (h : (e.goesWrong || e.refuses) = true) :
    Answers (⟨r, s, .error e, applied⟩ : Turn α) := by
  rintro e' ⟨⟩
  exact h

theorem drain_answers {f : List Resolution → Report} {n accepted : ℕ}
    (h : (drainRounds id apply n accepted r s).result.map f = .error e) :
    (e.goesWrong || e.refuses) = true := by
  cases hturn : (drainRounds id apply n accepted r s).result with
  | ok resolved => rw [hturn] at h; cases h
  | error e' =>
    rw [hturn] at h
    cases h
    rw [drainRounds_error hturn]
    rfl

theorem answers_buffer {outOfOrder : Bool} :
    Answers (r.buffer lay s message seq c now outOfOrder) := by
  unfold buffer
  split_ifs
  · exact answers_error rfl
  · intro e h
    cases h

theorem answers_supersede : Answers (r.supersede lay s message seq c apply) := by
  unfold supersede
  split_ifs
  · exact answers_error rfl
  · exact answers_error rfl
  split
  · next hretain => exact answers_error (checkRetain_error hretain ▸ rfl)
  split
  · exact answers_error rfl
  · exact answers_error rfl
  · intro e h
    cases h

theorem answers_applyNext : Answers (r.applyNext lay s message seq c now apply) := by
  unfold applyNext
  split
  · exact answers_error rfl
  split
  · next hretain =>
    split_ifs at hretain
    exact answers_error (checkRetain_error hretain ▸ rfl)
  split
  · exact answers_buffer
  · exact answers_error rfl
  split
  · next hmark =>
    refine answers_error ?_
    rw [markApplied_error (congrArg (·.2.2) hmark)]
    rfl
  · exact fun e h => drain_answers h

theorem answers_submitInner : Answers (r.submitInner lay s message seq c now apply) := by
  unfold submitInner
  split
  · next hanswer =>
    intro e h
    rw [remembered_error hanswer h]
    rfl
  split_ifs
  · exact answers_error rfl
  · exact answers_supersede
  · exact answers_buffer
  · exact answers_applyNext

def Call.time : Call → Option ℕ
  | .register _ => none
  | .advance now | .submit _ now _ | .retry _ now _ => some now

theorem map_error {α β : Type} {x : Except Error α} {f : α → β} (h : x.map f = .error e) :
    x = .error e := by
  cases x with
  | ok a => cases h
  | error e' => exact congrArg _ (Except.error.inj h)

theorem advance_gapTimeout (h : (r.advance now).2 = .error .gapTimeout) :
    r.failed = false ∧ r.overdue now = true := by
  unfold advance at h
  split_ifs at h with hfailed hoverdue
  · cases h
  · exact ⟨by simpa using hfailed, hoverdue⟩

theorem submit_gapTimeout (h : (r.submit lay message now apply).2.result = .error .gapTimeout) :
    (r.advance now).2 = .error .gapTimeout := by
  unfold submit at h
  split at h
  · next hadvance =>
    cases h
    rw [hadvance]
  split at h
  · next hcheck =>
    cases h
    rcases checkFrame_error hcheck with he | he <;> cases he
  split at h
  · cases h
  · cases answers_submitInner _ h

theorem retry_gapTimeout (h : (r.retry id now apply).2.result = .error .gapTimeout) :
    (r.advance now).2 = .error .gapTimeout := by
  unfold retry at h
  split at h
  · next hadvance =>
    cases h
    rw [hadvance]
  split at h
  · cases h
  · cases drain_answers h

theorem register_error (h : r.register lay id = .error e) : e ≠ .gapTimeout := by
  rcases bind_eq_error.1 h with h | ⟨_, -, h⟩
  · exact eq_of_refuseIf_eq_error h ▸ nofun
  rcases bind_eq_error.1 h with h | ⟨_, -, h⟩
  · exact eq_of_refuseIf_eq_error h ▸ nofun
  rcases bind_eq_error.1 h with h | ⟨_, -, h⟩
  · exact eq_of_refuseIf_eq_error h ▸ nofun
  rcases bind_eq_error.1 h with h | ⟨_, -, h⟩
  · exact eq_of_refuseIf_eq_error h ▸ nofun
  · cases h

theorem register_ok (h : r.register lay id = .ok r') : r' = r.put id .new := by
  obtain ⟨_, -, h⟩ := bind_eq_ok.1 h
  obtain ⟨_, -, h⟩ := bind_eq_ok.1 h
  obtain ⟨_, -, h⟩ := bind_eq_ok.1 h
  obtain ⟨_, -, h⟩ := bind_eq_ok.1 h
  exact (Except.ok.inj h).symm

/-- A call says that a gap lasted too long only if a stream has waited since. -/
theorem overdue_of_gapTimeout {call : Call} {out : Outcome} (hcall : r.call lay call = (r', out))
    (h : out.result = .error .gapTimeout) :
    r.failed = false ∧ ∃ now, call.time = some now ∧ r.overdue now = true := by
  cases call with
  | register id =>
    simp only [Receiver.call] at hcall
    split at hcall
    · cases hcall
      cases h
    · next hregister =>
      cases hcall
      exact absurd (Except.error.inj h) (register_error hregister)
  | advance now =>
    cases hcall
    obtain ⟨live, hoverdue⟩ := advance_gapTimeout (map_error h)
    exact ⟨live, now, rfl, hoverdue⟩
  | submit message now apply =>
    cases hcall
    obtain ⟨live, hoverdue⟩ := advance_gapTimeout (submit_gapTimeout (map_error h))
    exact ⟨live, now, rfl, hoverdue⟩
  | retry id now apply =>
    cases hcall
    obtain ⟨live, hoverdue⟩ := advance_gapTimeout (retry_gapTimeout (map_error h))
    exact ⟨live, now, rfl, hoverdue⟩

/-! ### Runs -/

/-- The conditions of a call: the application is prompt, and when the frame comes that a stream
waits for, the held frames follow it. -/
def Smooth (r : Receiver) : Call → Prop
  | .register _ => True
  | .advance now => now < u64Max
  | .submit message now apply => now < u64Max ∧ Prompt apply ∧
      ∀ s, r.streams.get? message.streamId = some s → message.messageSeq = some s.expected →
        s.Follows
  | .retry _ now apply => now < u64Max ∧ Prompt apply

def SmoothStep (lay : Layout) (r : Receiver) (l : Call × Outcome) (r' : Receiver) : Prop :=
  Step lay r l r' ∧ r.Smooth l.1

/-- The next frame `e` of a stream is missing, and a later one is held. -/
def Misses (r : Receiver) (id e : ℤ) : Prop :=
  ∃ s, r.streams.get? id = some s ∧ s.expected = e ∧ s.pending.get? e = none ∧
    ∃ k, e < k ∧ (s.pending.get? k).isSome = true

/-- The frame has been missing in every state since a call at the time `since`. -/
def MissedSince (lay : Layout) (r₀ : Receiver) (tr : List (Call × Outcome)) (r : Receiver)
    (id e : ℤ) (since : ℕ) : Prop :=
  ∃ tr₁ l tr₂ a, tr = tr₁ ++ [l] ++ tr₂ ∧ l.1.time = some since ∧
    Run (Step lay) r₀ (tr₁ ++ [l]) a ∧ a.Misses id e ∧
    Run (fun r l r' => Step lay r l r' ∧ r'.Misses id e) a tr₂ r

theorem MissedSince.misses {r₀ : Receiver} {tr : List (Call × Outcome)} {since : ℕ} {k : ℤ}
    (h : MissedSince lay r₀ tr r id k since) : r.Misses id k := by
  obtain ⟨tr₁, l, tr₂, a, -, -, -, ha, hrun⟩ := h
  exact hrun.invariant (P := fun _ r => r.Misses id k) ha fun _ _ _ _ _ _ hs => hs.2

theorem MissedSince.snoc {r₀ : Receiver} {tr : List (Call × Outcome)} {l : Call × Outcome}
    {since : ℕ} {k : ℤ} (h : MissedSince lay r₀ tr r id k since) (hs : Step lay r l r')
    (hmisses : r'.Misses id k) : MissedSince lay r₀ (tr ++ [l]) r' id k since := by
  obtain ⟨tr₁, l₁, tr₂, a, rfl, htime, hbefore, ha, hrun⟩ := h
  exact ⟨tr₁, l₁, tr₂ ++ [l], a, by simp, htime, hbefore, ha, hrun.snoc ⟨hs, hmisses⟩⟩

/-- No stream holds the frame it waits for, and a deadline runs only while a frame is missing. -/
structure Timed (lay : Layout) (r₀ : Receiver) (tr : List (Call × Outcome)) (r : Receiver) :
    Prop where
  filed : Filed lay r
  free : ∀ id s, r.streams.get? id = some s → s.pending.get? s.expected = none
  missed : ∀ id s since, r.streams.get? id = some s → s.gapSince = some since →
    MissedSince lay r₀ tr r id s.expected since

theorem failed_call {call : Call} (h : r.failed = true) : (r.call lay call).1 = r := by
  cases call with
  | register id =>
    have hclosed : r.register lay id = .error .closed := by
      unfold register
      rw [h]
      rfl
    simp only [Receiver.call, hclosed]
  | advance now => simp [Receiver.call, advance, h]
  | submit message now apply => simp [Receiver.call, submit, advance, h]
  | retry id now apply => simp [Receiver.call, retry, advance, h]

/-- The streams after work on one of them. -/
theorem restore_moved {α : Type} {t : Turn α} {time : Option ℕ} {j : ℤ} {s' : StreamState}
    (hs : r.streams.get? id = some s) (hkept : Kept time (r.without id) s t)
    (live : (restore id t).failed = false) (hs' : (restore id t).streams.get? j = some s') :
    ∃ s, r.streams.get? j = some s ∧ s.Moved time s' := by
  rcases hkept with hfatal | ⟨hstreams, hmoved⟩
  · rw [restore_failed hfatal] at live
    cases live
  · simp only [restore, hstreams, without, SortedMap.insert_erase, SortedMap.get?_insert] at hs'
    split_ifs at hs' with hj
    · subst hj
      cases hs'
      exact ⟨s, hs, hmoved⟩
    · exact ⟨s', hs', .inl rfl⟩

/-- What a call does to the streams of a receiver that goes on. -/
theorem call_moved {call : Call} {out : Outcome} (hcall : r.call lay call = (r', out))
    (hsmooth : r.Smooth call) (hf : Filed lay r)
    (hfree : ∀ id s, r.streams.get? id = some s → s.pending.get? s.expected = none)
    (live : r'.failed = false) {s' : StreamState} (hs' : r'.streams.get? id = some s') :
    s' = .new ∨ ∃ s, r.streams.get? id = some s ∧ s.Moved call.time s' := by
  have hadvance : ∀ now, (r.advance now).1.streams = r.streams := by
    intro now
    rcases advance_cases r now with ⟨e, h, -⟩ | ⟨h, -⟩ | ⟨h, -⟩ <;> rw [h]
  cases call with
  | register j =>
    simp only [Receiver.call] at hcall
    split at hcall
    · next hregister =>
      cases hcall
      rw [register_ok hregister] at hs'
      simp only [put, SortedMap.get?_insert] at hs'
      split_ifs at hs'
      · exact .inl (Option.some.inj hs').symm
      · exact .inr ⟨s', hs', .inl rfl⟩
    · cases hcall
      exact .inr ⟨s', hs', .inl rfl⟩
  | advance now =>
    cases hcall
    rw [hadvance] at hs'
    exact .inr ⟨s', hs', .inl rfl⟩
  | submit message now apply =>
    obtain rfl : (r.submit lay message now apply).1 = r' := congrArg Prod.fst hcall
    obtain ⟨-, hprompt, hfollows⟩ := hsmooth
    rcases submit_cases lay r message now apply with
      ⟨e, -, -, hr, -⟩ | ⟨-, s, seq, c, hs, -, frame, hsubmit⟩
    · rw [hr, hadvance] at hs'
      exact .inr ⟨s', hs', .inl rfl⟩
    · rw [hsubmit] at live hs'
      refine .inr (restore_moved hs (submitInner_kept hprompt (hf.streams _ _ hs) frame
        (hfree _ _ hs) fun hnext => hfollows s hs ?_) live hs')
      rw [← hnext]
      exact frame.numbered
  | retry j now apply =>
    obtain rfl : (r.retry j now apply).1 = r' := congrArg Prod.fst hcall
    rcases retry_cases r j now apply with ⟨e, -, hr, -⟩ | ⟨-, s, hs, hretry⟩
    · rw [hr, hadvance] at hs'
      exact .inr ⟨s', hs', .inl rfl⟩
    · rw [hretry] at live hs'
      refine .inr (restore_moved hs (.inr ?_) live hs')
      -- the stream does not hold the frame it waits for
      rw [drainPending, drainRounds, hfree _ _ hs]
      refine ⟨rfl, ?_⟩
      unfold drained
      split_ifs with hempty
      · exact .inr (.inl ⟨hempty, rfl⟩)
      · exact .inl rfl

/-- A smooth call keeps the deadlines to the gaps. -/
theorem Timed.call {r₀ : Receiver} {tr : List (Call × Outcome)} {l : Call × Outcome}
    (hrun : Run (Step lay) r₀ tr r) (h : Timed lay r₀ tr r) (hs : SmoothStep lay r l r')
    (live : r'.failed = false) (hf' : Filed lay r') : Timed lay r₀ (tr ++ [l]) r' := by
  have hmoved : ∀ id s', r'.streams.get? id = some s' →
      s' = .new ∨ ∃ s, r.streams.get? id = some s ∧ s.Moved l.1.time s' :=
    fun _ _ hs' => call_moved hs.1 hs.2 h.filed h.free live hs'
  refine ⟨hf', fun id s' hs' => ?_, fun id s' since hs' hsince => ?_⟩
  · rcases hmoved id s' hs' with rfl | ⟨s, hold,
      rfl | ⟨hempty, -⟩ | ⟨now, seq, held, -, hearly, rfl⟩⟩
    · rfl
    · exact h.free id s' hold
    · exact s'.pending.isEmpty_iff.1 hempty _
    · show (s.pending.insert seq held).get? s.expected = none
      rw [SortedMap.get?_insert_of_ne _ (by omega)]
      exact h.free id s hold
  · rcases hmoved id s' hs' with
      rfl | ⟨s, hold, rfl | ⟨-, hnone⟩ | ⟨now, seq, held, htime, hearly, rfl⟩⟩
    · cases hsince
    · have hmissed := h.missed id s' since hold hsince
      obtain ⟨t, ht, -, hrest⟩ := hmissed.misses
      rw [hold] at ht
      cases ht
      exact hmissed.snoc hs.1 ⟨s', hs', rfl, hrest⟩
    · rw [hnone] at hsince
      cases hsince
    · have hmisses : r'.Misses id s.expected := by
        refine ⟨_, hs', rfl, ?_, seq, hearly, ?_⟩
        · show (s.pending.insert seq held).get? s.expected = none
          rw [SortedMap.get?_insert_of_ne _ (by omega)]
          exact h.free id s hold
        · show ((s.pending.insert seq held).get? seq).isSome = true
          rw [SortedMap.get?_insert_self]
          rfl
      cases hgap : s.gapSince with
      | some before =>
        rw [hgap] at hsince
        cases hsince
        exact (h.missed id s _ hold hgap).snoc hs.1 hmisses
      | none =>
        rw [hgap] at hsince
        cases hsince
        exact ⟨tr, l, [], r', by simp, htime, hrun.snoc hs.1, hmisses, .nil⟩

theorem overdue_eq_true (h : r.overdue now = true) (hnow : now < u64Max) :
    ∃ id s since, r.streams.get? id = some s ∧ s.gapSince = some since ∧
      since + gapTimeoutMs ≤ now := by
  obtain ⟨⟨id, s⟩, hmem, hgap⟩ := List.any_eq_true.1 h
  obtain ⟨since, hsince, hle⟩ := (Option.any_eq_true _ _).1 hgap
  refine ⟨id, s, since, r.streams.mem_toList.1 hmem, hsince, ?_⟩
  have hle := of_decide_eq_true hle
  unfold satAdd at hle
  omega

/-- **A timeout names a gap.**  While the application is prompt and no gap is left behind a frame
that a stream waits for, a call says that a gap lasted too long only if one and the same frame of a
stream has been missing, and a later one held, in every state since a call that was made so long
ago. -/
theorem gapTimeout_of_missed {sessionId : String} {direction : Direction} {limits : Limits}
    {r₀ : Receiver} {tr : List (Call × Outcome)} {call : Call} {out : Outcome}
    (hnew : new lay sessionId direction limits = .ok r₀) (hrun : Run (SmoothStep lay) r₀ tr r)
    (hs : SmoothStep lay r (call, out) r') (h : out.result = .error .gapTimeout) :
    ∃ now id e since, call.time = some now ∧ since + gapTimeoutMs ≤ now ∧
      MissedSince lay r₀ tr r id e since := by
  have hplain : Run (Step lay) r₀ tr r := hrun.mono fun _ _ _ hs => hs.1
  have htimed := hrun.invariant
    (P := fun tr r => Run (Step lay) r₀ tr r ∧ (r.failed = false → Timed lay r₀ tr r))
    ⟨.nil, fun _ => ⟨filed_of_new hnew, fun id s hs => ?_, fun id s _ hs => ?_⟩⟩
    fun tr r l r' _ ih hs => ⟨ih.1.snoc hs.1, fun live => ?_⟩
  · obtain ⟨live, now, htime, hoverdue⟩ := overdue_of_gapTimeout hs.1 h
    have hnow : now < u64Max := by
      have hsmooth := hs.2
      cases call with
      | register id => cases htime
      | advance now => cases htime; exact hsmooth
      | submit message now apply => cases htime; exact hsmooth.1
      | retry id now apply => cases htime; exact hsmooth.1
    obtain ⟨id, s, since, hstream, hsince, hle⟩ := overdue_eq_true hoverdue hnow
    exact ⟨now, id, s.expected, since, htime, hle, (htimed.2 live).missed id s since hstream hsince⟩
  · obtain ⟨-, rfl⟩ := new_eq_ok hnew
    cases hs
  · obtain ⟨-, rfl⟩ := new_eq_ok hnew
    cases hs
  · have hlive : r.failed = false := by
      by_contra hfailed
      have hsame : (r.call lay l.1).1 = r := failed_call (by simpa using hfailed)
      rw [show r.call lay l.1 = (r', l.2) from hs.1] at hsame
      rw [← show r' = r from hsame, live] at hfailed
      exact hfailed rfl
    exact (ih.2 hlive).call ih.1 hs live
      (filed_run (filed_of_new hnew) (ih.1.snoc hs.1) live)

/-- A frame comes early, and the first frame never comes. -/
theorem gapTimeout_of_missed_early :
    let submit : Call := .submit (windowFrame 1 2) 0 acceptAll
    let r := (freshReceiver .initiator).after builtLayout [.register 1, submit]
    (r.call builtLayout (.advance 30000)).2.result = .error .gapTimeout ∧
      ∃ now id e since, (Call.advance 30000).time = some now ∧ since + gapTimeoutMs ≤ now ∧
        MissedSince builtLayout (freshReceiver .initiator)
          ((freshReceiver .initiator).trace builtLayout [.register 1, submit]) r id e since := by
  intro submit r
  have htimeout : (r.call builtLayout (.advance 30000)).2.result = .error .gapTimeout := by
    decide +kernel
  have hsmooth : ((freshReceiver .initiator).after builtLayout [.register 1]).Smooth submit := by
    refine ⟨by decide, fun _ _ => nofun, fun s hs hseq => ?_⟩
    have hexpected : (((freshReceiver .initiator).after builtLayout [.register 1]).streams.get?
        (windowFrame 1 2).streamId).map (·.expected) = some 1 := by decide +kernel
    rw [hs] at hexpected
    rw [show s.expected = 1 from Option.some.inj hexpected] at hseq
    cases hseq
  have hrun : Run (SmoothStep builtLayout) (freshReceiver .initiator)
      ((freshReceiver .initiator).trace builtLayout [.register 1, submit]) r :=
    .cons ⟨rfl, trivial⟩ (.cons ⟨rfl, hsmooth⟩ .nil)
  exact ⟨htimeout, gapTimeout_of_missed (freshReceiver_new .initiator) hrun
    ⟨rfl, show 30000 < u64Max by decide⟩ htimeout⟩

/-- The first frame comes, and the application does not take it yet. -/
def unwanted : List Call :=
  [.register 1, .submit (openFrame 1 1) 0 fun _ _ => .error .wouldBlock]

/-- The deadline of a stream to which no frame is missing. -/
theorem gapTimeout_without_gap :
    let r := (freshReceiver .initiator).after builtLayout unwanted
    Run (Step builtLayout) (freshReceiver .initiator)
        ((freshReceiver .initiator).trace builtLayout unwanted) r ∧
      (r.call builtLayout (.advance 30000)).2.result = .error .gapTimeout ∧
      ∀ id e since, ¬ MissedSince builtLayout (freshReceiver .initiator)
        ((freshReceiver .initiator).trace builtLayout unwanted) r id e since := by
  intro r
  refine ⟨run_of_runWhen (run_after (C := fun _ _ => true) rfl), by decide +kernel, ?_⟩
  intro id e since h
  obtain ⟨s, hs, rfl, hnone, -⟩ := h.misses
  have hheld : r.streams.toList.all (fun e => (e.2.pending.get? e.2.expected).isSome) = true := by
    decide +kernel
  have hheld := List.all_eq_true.1 hheld _ (r.streams.mem_toList.2 hs)
  rw [show (id, s).2.pending.get? (id, s).2.expected = none from hnone] at hheld
  cases hheld

end Receiver

end GwzTransport.Sequenced
