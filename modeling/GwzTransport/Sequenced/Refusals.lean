import GwzTransport.Sequenced.Charges

/-!
# A refused call changes nothing

A call of the receiver may hand several frames to the application before it ends.  The answers
`WouldBlock`, `WrongSession` and `InvalidMessage` are given only before the first of them: the
receiver is as it was, and the same frame may come again.

`mark_applied` has a branch for a last frame with held frames behind it.  With anything in its
place the calls are the calls of the source, so the branch is never reached.
-/

namespace GwzTransport.Sequenced

open Protocol MachineInt Checks

variable {lay : Layout}

/-- The answers after which a frame is presented again. -/
def Error.refuses : Error → Bool
  | .wouldBlock | .wrongSession | .invalidMessage => true
  | _ => false

/-- The answers to a frame that went wrong with the stream. -/
def Error.goesWrong : Error → Bool
  | .protocol | .capacity | .applyRejected => true
  | _ => false

theorem Error.refuses_of_goesWrong {e : Error} (h : e.goesWrong = true) : e.refuses = false := by
  cases e <;> first | rfl | cases h

namespace Receiver

variable {r : Receiver} {s : StreamState} {message : Envelope} {seq id : ℤ} {c now : ℕ}
  {apply : Apply} {e : Error}

/-- A piece of work that was refused: nothing was accepted, and nothing changed. -/
def Untouched {α : Type} (r : Receiver) (s : StreamState) (t : Turn α) : Prop :=
  ∀ e, t.result = .error e → e.refuses = true → t.receiver = r ∧ t.state = s ∧ t.applied = []

theorem markApplied_error (h : (r.markApplied s message c).2.2 = .error e) :
    e.goesWrong = true := by
  unfold markApplied at h
  dsimp only at h
  split at h
  · cases h
    rfl
  · split_ifs at h <;> cases h <;> rfl

/-- A drain is never refused: it stops at a frame that the application does not take yet. -/
theorem drainRounds_error {rounds accepted : ℕ}
    (h : (drainRounds id apply rounds accepted r s).result = .error e) : e.goesWrong = true := by
  induction rounds generalizing accepted r s with
  | zero => cases h
  | succ rounds ih =>
    unfold drainRounds at h
    split at h
    · cases h
    dsimp only at h
    split_ifs at h
    · cases h
      rfl
    split at h
    · cases h
    · cases h
      rfl
    · split at h
      · next hmark =>
        cases h
        exact markApplied_error (congrArg (·.2.2) hmark)
      · dsimp only at h
        cases hturn : (drainRounds id apply rounds (accepted + 1) _ _).result with
        | ok resolved => rw [hturn] at h; cases h
        | error e' =>
          rw [hturn] at h
          cases h
          exact ih hturn

theorem untouched_buffer (outOfOrder : Bool) :
    Untouched r s (r.buffer lay s message seq c now outOfOrder) := by
  intro e h _
  unfold buffer at h ⊢
  split_ifs at h ⊢
  exact ⟨rfl, rfl, rfl⟩

theorem untouched_error {α : Type} (e : Error) :
    Untouched r s (⟨r, s, .error e, []⟩ : Turn α) :=
  fun _ _ _ => ⟨rfl, rfl, rfl⟩

theorem untouched_supersede : Untouched r s (r.supersede lay s message seq c apply) := by
  unfold supersede
  split_ifs
  · exact untouched_error _
  · exact untouched_error _
  split
  · exact untouched_error _
  split
  · exact untouched_error _
  · exact untouched_error _
  · intro e h
    cases h

theorem untouched_applyNext : Untouched r s (r.applyNext lay s message seq c now apply) := by
  unfold applyNext
  split_ifs
  all_goals first
    | exact untouched_error _
    | split
      · exact untouched_error _
      split
      · exact untouched_buffer false
      · exact untouched_error _
      split
      · next hmark =>
        intro e h he
        cases h
        rw [Error.refuses_of_goesWrong (markApplied_error (congrArg (·.2.2) hmark))] at he
        cases he
      · intro e h he
        dsimp only at h
        cases hturn : (drainPending _ _ message.streamId apply 1).result with
        | ok resolved => rw [hturn] at h; cases h
        | error e' =>
          rw [hturn] at h
          cases h
          rw [Error.refuses_of_goesWrong (drainRounds_error hturn)] at he
          cases he

theorem remembered_error {answer : Except Error Report} (h : remembered s message seq = some answer)
    (he : answer = .error e) : e.goesWrong = true := by
  subst he
  unfold remembered at h
  split at h
  · split_ifs at h <;> cases h <;> rfl
  · split_ifs at h
    · cases h
      rfl
    · cases h
    · split at h
      · split_ifs at h <;> cases h
        rfl
      · cases h

theorem untouched_submitInner :
    Untouched r s (r.submitInner lay s message seq c now apply) := by
  unfold submitInner
  split
  · next answer hanswer =>
    intro e h he
    rw [Error.refuses_of_goesWrong (remembered_error hanswer h)] at he
    cases he
  split_ifs
  · exact untouched_error _
  · exact untouched_supersede
  · exact untouched_buffer true
  · exact untouched_applyNext

/-- The stream goes back as it was. -/
theorem restore_untouched {α : Type} {t : Turn α} (hs : r.streams.get? id = some s)
    (ht : Untouched (r.without id) s t) (h : t.result = .error e) (he : e.refuses = true) :
    restore id t = r ∧ t.applied = [] := by
  obtain ⟨hr, hstate, happlied⟩ := ht e h he
  refine ⟨?_, happlied⟩
  have hfatal : fatal t.result = false := by
    rw [h]
    cases e <;> first | rfl | cases he
  simp only [restore, hr, hstate, hfatal, without, Bool.or_false, SortedMap.insert_erase,
    SortedMap.insert_get? _ hs]

theorem advance_refuses (r : Receiver) (now : ℕ) (e : Error) (h : (r.advance now).2 = .error e) :
    e.refuses = false := by
  unfold advance at h
  split_ifs at h <;> cases h <;> rfl

theorem submit_refused (h : (r.submit lay message now apply).2.result = .error e)
    (he : e.refuses = true) :
    (r.submit lay message now apply).2.applied = [] ∧
      (r.submit lay message now apply).1 = r := by
  have hadvance := advance_refuses r now e
  unfold submit at h ⊢
  rcases advance_cases r now with ⟨e', ha, -⟩ | ⟨ha, -⟩ | ⟨ha, -⟩ <;>
    rw [ha] at h hadvance ⊢ <;> dsimp only at h ⊢
  · cases h
    rw [hadvance rfl] at he
    cases he
  · cases h
    rw [hadvance rfl] at he
    cases he
  · split at h
    · exact ⟨rfl, rfl⟩
    split at h
    · exact ⟨rfl, rfl⟩
    next hs =>
      obtain ⟨hr, happlied⟩ := restore_untouched hs untouched_submitInner h he
      exact ⟨happlied, hr⟩

theorem retry_refused (h : (r.retry id now apply).2.result = .error e) (he : e.refuses = true) :
    (r.retry id now apply).2.applied = [] ∧ (r.retry id now apply).1 = r := by
  have hadvance := advance_refuses r now e
  unfold retry at h ⊢
  rcases advance_cases r now with ⟨e', ha, -⟩ | ⟨ha, -⟩ | ⟨ha, -⟩ <;>
    rw [ha] at h hadvance ⊢ <;> dsimp only at h ⊢
  · cases h
    rw [hadvance rfl] at he
    cases he
  · cases h
    rw [hadvance rfl] at he
    cases he
  · split at h
    · exact ⟨rfl, rfl⟩
    next s hs =>
      cases hturn : ((r.without id).drainPending s id apply 0).result with
      | ok resolved => rw [hturn] at h; cases h
      | error e' =>
        rw [hturn] at h
        cases h
        rw [Error.refuses_of_goesWrong (drainRounds_error hturn)] at he
        cases he

/-! ### The branch of `mark_applied` -/

variable {branch : Branch}

theorem markApplied_branch (h : senderFinal message.kind = true → s.pending.isEmpty = true) :
    r.markApplied s message c branch = r.markApplied s message c := by
  unfold markApplied
  dsimp only
  cases checkedAdd (message.messageSeq.getD 0) 1 with
  | none => rfl
  | some next =>
    cases hfinal : senderFinal message.kind with
    | false => rfl
    | true => simp [h hfinal]

theorem drainRounds_branch (id : ℤ) (apply : Apply) (rounds accepted : ℕ) (r : Receiver)
    (s : StreamState) : drainRounds id apply rounds accepted r s branch =
      drainRounds id apply rounds accepted r s := by
  induction rounds generalizing accepted r s with
  | zero => rfl
  | succ rounds ih =>
    unfold drainRounds
    cases s.pending.get? s.expected with
    | none => rfl
    | some held =>
      dsimp only
      split_ifs with hlast
      · rfl
      rw [markApplied_branch (by simpa using hlast)]
      simp only [ih]

theorem applyNext_branch : r.applyNext lay s message seq c now apply branch =
    r.applyNext lay s message seq c now apply := by
  unfold applyNext
  split_ifs with hlast
  · rfl
  all_goals
    rw [markApplied_branch (by simpa using hlast)]
    simp only [drainPending, drainRounds_branch]

theorem submit_branch :
    r.submit lay message now apply branch = r.submit lay message now apply := by
  unfold submit submitInner
  simp only [applyNext_branch]

theorem retry_branch : r.retry id now apply branch = r.retry id now apply := by
  unfold retry
  simp only [drainPending, drainRounds_branch]

end Receiver

open Receiver

/-- **A refused call changes nothing.**  When `submit` or `retry` answers that a frame has to come
again, the application accepted nothing and the receiver is as before.  What the calls do does not
depend on the branch of `mark_applied` that answers `Protocol`. -/
theorem refused_call_changes_nothing (lay : Layout) (r : Receiver) :
    (∀ message now apply e, (r.submit lay message now apply).2.result = .error e →
        e = .wouldBlock ∨ e = .wrongSession ∨ e = .invalidMessage →
        (r.submit lay message now apply).2.applied = [] ∧
          (r.submit lay message now apply).1 = r) ∧
      (∀ id now apply e, (r.retry id now apply).2.result = .error e →
        e = .wouldBlock ∨ e = .wrongSession ∨ e = .invalidMessage →
        (r.retry id now apply).2.applied = [] ∧ (r.retry id now apply).1 = r) ∧
      ∀ branch, (∀ message now apply,
          r.submit lay message now apply branch = r.submit lay message now apply) ∧
        ∀ id now apply, r.retry id now apply branch = r.retry id now apply := by
  have hrefuses : ∀ {e : Error}, e = .wouldBlock ∨ e = .wrongSession ∨ e = .invalidMessage →
      e.refuses = true := by
    rintro e (rfl | rfl | rfl) <;> rfl
  exact ⟨fun _ _ _ _ h he => submit_refused h (hrefuses he),
    fun _ _ _ _ h he => retry_refused h (hrefuses he),
    fun branch => ⟨fun _ _ _ => submit_branch, fun _ _ _ => retry_branch⟩⟩

/-- A frame is held, and there is no room for the first frame of its stream. -/
theorem refused_call_changes_nothing_full :
    let r := (freshReceiver .initiator).after builtLayout heldAndOpened
    (r.submit builtLayout (openFrame 1 1) 0 acceptAll).2.result = .error .wouldBlock ∧
      r.bufferedFrames = 1 ∧ (r.submit builtLayout (openFrame 1 1) 0 acceptAll).2.applied = [] ∧
      (r.submit builtLayout (openFrame 1 1) 0 acceptAll).1 = r := by
  have hblocked : (((freshReceiver .initiator).after builtLayout heldAndOpened).submit builtLayout
      (openFrame 1 1) 0 acceptAll).2.result = .error .wouldBlock := by decide +kernel
  exact ⟨hblocked, by decide +kernel,
    (refused_call_changes_nothing builtLayout _).1 _ _ _ _ hblocked (.inl rfl)⟩

end GwzTransport.Sequenced
