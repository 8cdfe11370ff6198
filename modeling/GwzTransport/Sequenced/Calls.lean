import GwzTransport.Sequenced.Moves

/-!
# Calls of a receiver as runs of moves

Every piece of a call is a run of moves of which the caller sees the frames that were accepted and
the resolutions that are reported.  `Explains` says so of the work on one stream, `call_shown` of
every call; `submit_cases` and `retry_cases` say what a submission and a retry are made of.

A call gives the receiver one frame at most, and in the state in which the call is made: the frame
is the first thing a submission deals with, and what follows are held frames.
-/

namespace GwzTransport.Sequenced

open Protocol MachineInt Checks Transition

variable {lay : Layout} {A : Given}

/-! ### What is seen of moves -/

def Event.accepted : Event → List Envelope
  | .applied _ _ _ message => [message]
  | _ => []

def Event.resolutions : Event → List Resolution
  | .applied id dropped seq _ =>
    dropped.map (fun k => ⟨id, k, .superseded⟩) ++ [⟨id, seq, .applied⟩]
  | _ => []

/-- What a result says of the moves made: they are all reported, or the last one ended the
receiver, or there were none. -/
def Told (evs : List Event) : Except Error (List Resolution) → Prop
  | .ok resolved => resolved = evs.flatMap Event.resolutions
  | .error .protocol => .clashed ∈ evs
  | .error .applyRejected => .rejected ∈ evs
  | .error _ => evs = []

/-- A run of moves from `r` to `r'` shows a result and the frames that were accepted. -/
def Explains (lay : Layout) (A : Given) (r r' : Receiver) (result : Except Error (List Resolution))
    (accepted : List Envelope) : Prop :=
  ∃ evs, Weak (Move lay A) r evs r' ∧ accepted = evs.flatMap Event.accepted ∧ Told evs result

theorem Explains.stay {r : Receiver} {result : Except Error (List Resolution)}
    (h : Told [] result) : Explains lay A r r result [] :=
  ⟨[], .refl r, rfl, h⟩

theorem Explains.clash {r r' : Receiver} (h : Move lay A r (some .clashed) r') :
    Explains lay A r r' (.error .protocol) [] :=
  ⟨[.clashed], .visible h, rfl, List.mem_singleton_self _⟩

theorem Explains.reject {r r' : Receiver} (live : r.failed = false) (ended : r'.failed = true) :
    Explains lay A r r' (.error .applyRejected) [] :=
  ⟨[.rejected], .visible (.reject live ended), rfl, List.mem_singleton_self _⟩

/-- An accepted frame before the rest of the work. -/
theorem Explains.after_applied {r r' r'' : Receiver} {id seq : ℤ} {message : Envelope}
    {result : Except Error (List Resolution)} {accepted : List Envelope}
    (hm : Move lay A r (some (.applied id [] seq message)) r')
    (h : Explains lay A r' r'' result accepted)
    (hend : ∀ e, result = .error e → Receiver.fatal result = true) :
    Explains lay A r r'' (result.map (⟨id, seq, .applied⟩ :: ·)) (message :: accepted) := by
  obtain ⟨evs, hw, rfl, htold⟩ := h
  refine ⟨.applied id [] seq message :: evs, (Weak.visible hm).trans hw, rfl, ?_⟩
  cases result with
  | ok resolved =>
    simp only [Told] at htold
    simp [Except.map, Told, htold, Event.resolutions]
  | error e =>
    have := hend e rfl
    cases e <;> first | exact List.mem_cons_of_mem _ htold | cases this

namespace Receiver

variable {r : Receiver} {s : StreamState} {id : ℤ}

theorem restore_ok {α : Type} {t : Turn α} {a : α} (h : t.result = .ok a) :
    restore id t = t.receiver.put id t.state := by
  have hfatal : fatal t.result = false := by rw [h]; rfl
  simp only [restore, hfatal, Bool.or_false, put]

theorem restore_failed {α : Type} {t : Turn α} (h : fatal t.result = true) :
    (restore id t).failed = true := by
  simp [restore, h]

theorem markApplied_eq {seq : ℤ} {message : Envelope} {c : ℕ}
    (hseq : message.messageSeq = some seq) (hpos : 0 < seq) (hmax : seq + 1 ≤ i64Max)
    (free : s.pending.get? seq = none)
    (last : senderFinal message.kind = true → s.pending.isEmpty = true) :
    r.markApplied s message c =
      (r.retain seq message.kind c, s.mark seq message, .ok ()) := by
  have hnext : checkedAdd seq 1 = some (seq + 1) := checkedAdd_of_le (by omega) hmax
  unfold markApplied StreamState.mark retain retains
  rw [SortedMap.erase_eq_self _ free, hseq]
  simp only [Option.getD_some, hnext]
  by_cases hone : seq = 1 <;> cases hfinal : senderFinal message.kind <;>
    simp [hone, last, hfinal]

theorem mark_erase {seq : ℤ} {message : Envelope} :
    ({ s with pending := s.pending.erase seq } : StreamState).mark seq message =
      s.mark seq message := by
  simp [StreamState.mark, SortedMap.erase_eq_self]

theorem drained_explained (live : r.failed = false) :
    Explains lay A (r.put id s) (restore id (r.drained s)) (r.drained s).result
      (r.drained s).applied := by
  rw [restore_ok rfl]
  unfold drained
  split_ifs with hempty
  · have hm : Move lay A (r.put id s) none ((r.put id s).put id { s with gapSince := none }) :=
      .settle live (SortedMap.get?_insert_self _ _ _)
    rw [put_put] at hm
    exact ⟨[], .silent hm, rfl, rfl⟩
  · exact .stay rfl

@[simp] theorem fatal_map {α β : Type} (x : Except Error α) (f : α → β) :
    fatal (x.map f) = fatal x := by
  cases x with
  | ok a => rfl
  | error e => cases e <;> rfl

theorem restore_map {α β : Type} {t : Turn α} (f : α → β) (accepted : List Envelope) :
    restore id { t with result := t.result.map f, applied := accepted } = restore id t := by
  simp [restore]

/-- A drain is a run of moves, and one that fails ends the receiver. -/
theorem drainRounds_explained {apply : Apply} (n accepted : ℕ) (live : r.failed = false)
    (hf : Filed lay (r.put id s)) :
    Explains lay A (r.put id s) (restore id (drainRounds id apply n accepted r s))
        (drainRounds id apply n accepted r s).result
        (drainRounds id apply n accepted r s).applied ∧
      ∀ e, (drainRounds id apply n accepted r s).result = .error e →
        fatal (drainRounds id apply n accepted r s).result = true := by
  induction n generalizing accepted r s with
  | zero => exact ⟨drained_explained live, nofun⟩
  | succ n ih =>
    have hs : (r.put id s).streams.get? id = some s := SortedMap.get?_insert_self _ _ _
    have hfs := hf.streams id s hs
    unfold drainRounds
    cases hheld : s.pending.get? s.expected with
    | none => exact ⟨drained_explained live, nofun⟩
    | some held =>
      obtain ⟨frame, -⟩ := hfs.pending _ _ hheld
      have hbounds := frame.bounds
      have hexp := hfs.expected
      by_cases hlast : (senderFinal held.message.kind &&
          !(s.pending.erase s.expected).isEmpty) = true
      · simp only [hlast, if_true]
        refine ⟨.clash (.clash (.inr hheld) live hs frame ?_ (restore_failed rfl)), fun _ _ => rfl⟩
        -- another frame is held behind the last one
        simp only [Bool.and_eq_true, Bool.not_eq_true'] at hlast
        have hrest : ¬ ∀ k, (s.pending.erase s.expected).get? k = none := by
          rw [← SortedMap.isEmpty_iff, hlast.2]
          nofun
        push Not at hrest
        obtain ⟨k, hk⟩ := hrest
        have hne : k ≠ s.expected := by
          rintro rfl
          exact hk (SortedMap.get?_erase_self _ _)
        rw [SortedMap.get?_erase_of_ne _ hne] at hk
        obtain ⟨other, hother⟩ := Option.ne_none_iff_exists'.1 hk
        have hle := (hfs.pending k other hother).2
        refine .above hother ((satAddInt_le_add (by omega)).trans (by omega)) hlast.1
      · simp only [hlast, Bool.false_eq_true, if_false]
        have hlast : senderFinal held.message.kind = true →
            (s.pending.erase s.expected).isEmpty = true := by
          intro hfinal
          simpa [hfinal] using hlast
        cases happly : apply accepted held.message with
        | error e =>
          cases e with
          | wouldBlock => exact ⟨drained_explained live, nofun⟩
          | rejected => exact ⟨.reject live (restore_failed rfl), fun _ _ => rfl⟩
        | ok u =>
          have hmark := markApplied_eq (r := r.uncharge held.charge)
            (s := { s with pending := s.pending.erase s.expected }) (c := held.charge)
            frame.numbered hbounds.1 (by omega) (SortedMap.get?_erase_self _ _) hlast
          rw [mark_erase] at hmark
          have hm : Move lay A (r.put id s) _ _ := .drain live hs hheld hlast
          rw [show (((r.put id s).uncharge held.charge).retain s.expected held.message.kind
              held.charge).put id (s.mark s.expected held.message) =
              ((r.uncharge held.charge).retain s.expected held.message.kind held.charge).put id
                (s.mark s.expected held.message) from put_put
                  ((r.uncharge held.charge).retain s.expected held.message.kind held.charge) id s _]
            at hm
          simp only [hmark]
          obtain ⟨hexplained, hfatal⟩ := ih (accepted + 1)
            (r := (r.uncharge held.charge).retain s.expected held.message.kind held.charge)
            (s := s.mark s.expected held.message) live (filed_move hf hm live)
          rw [restore_map, frame.numbered, Option.getD_some]
          refine ⟨hexplained.after_applied hm hfatal, ?_⟩
          intro e he
          rw [fatal_map]
          cases hresult : (drainRounds id apply n (accepted + 1) ((r.uncharge held.charge).retain
            s.expected held.message.kind held.charge) (s.mark s.expected held.message)).result with
          | ok resolved => rw [hresult] at he; cases he
          | error e' => exact hresult ▸ hfatal e' hresult

theorem drainPending_explained (apply : Apply) (accepted : ℕ) (live : r.failed = false)
    (hf : Filed lay (r.put id s)) :
    Explains lay A (r.put id s) (restore id (r.drainPending s id apply accepted))
        (r.drainPending s id apply accepted).result (r.drainPending s id apply accepted).applied ∧
      ∀ e, (r.drainPending s id apply accepted).result = .error e →
        fatal (r.drainPending s id apply accepted).result = true :=
  drainRounds_explained _ accepted live hf

theorem map_map {α β γ : Type} (x : Except Error α) (f : α → β) (g : β → γ) :
    (x.map f).map g = x.map (g ∘ f) := by
  cases x <;> rfl

/-! #### The work of a submission -/

@[simp] theorem without_direction : (r.without id).direction = r.direction := rfl
@[simp] theorem without_retainedCharge : (r.without id).retainedCharge = r.retainedCharge := rfl
@[simp] theorem without_bufferedCharge : (r.without id).bufferedCharge = r.bufferedCharge := rfl
@[simp] theorem without_availableBytes : (r.without id).availableBytes = r.availableBytes := rfl
@[simp] theorem without_predecessorReserve :
    (r.without id).predecessorReserve lay = r.predecessorReserve lay := rfl

theorem size_without (hs : r.streams.get? id = some s) :
    (r.without id).streams.size + 1 = r.streams.size := by
  have := r.streams.sum_erase (fun _ => 1) id
  rw [hs] at this
  simpa [without, SortedMap.size_eq_sum] using this

/-- Work that changes nothing and is not fatal leaves the receiver as it was. -/
theorem restore_idle {α : Type} {x : Except Error α} {accepted : List Envelope}
    (hs : r.streams.get? id = some s) (hx : fatal x = false) :
    restore id ⟨r.without id, s, x, accepted⟩ = r := by
  have hfailed : ((r.without id).failed || fatal x) = r.failed := by
    rw [hx, Bool.or_false]
    rfl
  simp only [restore, hfailed]
  exact (put_without (s := s)).trans (put_get? hs)

variable {seq : ℤ} {message : Envelope} {c now : ℕ}

theorem buffer_explained {outOfOrder : Bool} (given : A r message true) (live : r.failed = false)
    (hf : Filed lay r)
    (hs : r.streams.get? id = some s) (frame : Frame lay r.limits id seq message c)
    (unended : s.terminal = none) (free : s.pending.get? seq = none) (due : s.expected ≤ seq)
    (first : seq = 1 → firstKind r.direction message.kind = true)
    (horder : outOfOrder = decide (s.expected < seq)) :
    Explains lay A r (restore id ((r.without id).buffer lay s message seq c now outOfOrder))
      (((r.without id).buffer lay s message seq c now outOfOrder).result.map (·.resolved))
      ((r.without id).buffer lay s message seq c now outOfOrder).applied := by
  unfold buffer
  cases hcrowded : (r.without id).crowded lay s c outOfOrder with
  | true =>
    simp only [if_true]
    rw [restore_idle hs rfl]
    exact .stay rfl
  | false =>
    simp only [Bool.false_eq_true, if_false]
    rw [restore_ok rfl]
    have hroom := room_of_crowded (r := r.without id) hf.limits hcrowded
    rw [size_without hs] at hroom
    have hm : Move lay A r (some (.held id seq)) ((r.hold c).put id
        { s with
          gapSince := some (s.gapSince.getD now)
          pending := s.pending.insert seq ⟨message, c⟩ }) :=
      .hold given live hs frame unended free due first (by simpa [horder, used] using hroom)
    refine ⟨[.held id seq], .visible ?_, rfl, rfl⟩
    rw [show ∀ t, put (r.hold c) id t = put ((r.without id).hold c) id t from
      fun t => (put_without (r := r.hold c)).symm] at hm
    exact hm

/-- A check of the retained weight that is not passed leaves everything as it was. -/
theorem checkRetain_error {releasing : ℕ} {e : Error}
    (h : r.checkRetain lay c releasing = .error e) : e = .wouldBlock := by
  unfold checkRetain refuseIf at h
  split_ifs at h
  exact (Except.error.inj h).symm

theorem foldl_uncharge (l : List (ℤ × Pending)) (r : Receiver) :
    l.foldl (fun r e => r.uncharge e.2.charge) r =
      { r with
        bufferedFrames := r.bufferedFrames - l.length
        bufferedCharge := r.bufferedCharge - (l.map fun e => e.2.charge).sum } := by
  induction l generalizing r with
  | nil => rfl
  | cons e l ih =>
    rw [List.foldl_cons, ih]
    simp only [uncharge, List.length_cons, List.map_cons, List.sum_cons]
    congr 1 <;> omega

theorem retains_of_lt {kind : MessageKind} (hseq : 1 < seq) (hfinal : senderFinal kind = true) :
    retains seq kind = true := by
  simp [retains, hfinal, show seq ≠ 1 by omega]

theorem supersede_explained {apply : Apply} (given : A r message false) (live : r.failed = false)
    (hf : Filed lay r)
    (hs : r.streams.get? id = some s) (frame : Frame lay r.limits id seq message c)
    (unended : s.terminal = none) (free : s.pending.get? seq = none)
    (hover : overtakes r.direction s message.kind seq = true) :
    Explains lay A r (restore id ((r.without id).supersede lay s message seq c apply))
      (((r.without id).supersede lay s message seq c apply).result.map (·.resolved))
      ((r.without id).supersede lay s message seq c apply).applied := by
  have hfs := hf.streams id s hs
  obtain ⟨hbeyond, -, hfinal⟩ := of_overtakes hover
  have hexp := hfs.expected
  unfold supersede
  by_cases hbelow : s.pending.toList.any
      (fun e => decide (e.1 < seq) && senderFinal e.2.message.kind) = true
  · rw [if_pos hbelow]
    obtain ⟨⟨k, held⟩, hmem, hk⟩ := List.any_eq_true.1 hbelow
    simp only [Bool.and_eq_true, decide_eq_true_eq] at hk
    exact .clash (.clash (.inl given) live hs frame (.below (s.pending.mem_toList.1 hmem) hk.1 hk.2)
      (restore_failed rfl))
  rw [if_neg hbelow]
  by_cases habove : s.pending.toList.any (fun e => decide (satAddInt seq 1 ≤ e.1)) = true
  · rw [if_pos habove]
    obtain ⟨⟨k, held⟩, hmem, hk⟩ := List.any_eq_true.1 habove
    exact .clash (.clash (.inl given) live hs frame (.above (s.pending.mem_toList.1 hmem)
      (of_decide_eq_true hk) hfinal) (restore_failed rfl))
  rw [if_neg habove]
  cases hretain : (r.without id).checkRetain lay c (s.pending.sum (·.charge)) with
  | error e =>
    obtain rfl := checkRetain_error hretain
    simp only
    rw [restore_idle hs rfl]
    exact .stay rfl
  | ok u =>
    cases happly : apply 0 message with
    | error e =>
      cases e with
      | wouldBlock =>
        simp only
        rw [restore_idle hs rfl]
        exact .stay rfl
      | rejected => exact .reject live (restore_failed rfl)
    | ok u =>
      have hroom := (checkRetain_eq_ok (r := r.without id) hf.limits).1 hretain
      rw [size_without hs] at hroom
      have hbelowAll : ∀ k held, s.pending.get? k = some held → k < seq := by
        intro k held hk
        have hmem := s.pending.mem_toList.2 hk
        have hk' : ¬ satAddInt seq 1 ≤ k := fun hle =>
          habove (List.any_eq_true.2 ⟨(k, held), hmem, decide_eq_true hle⟩)
        have hne : k ≠ seq := by
          rintro rfl
          rw [hk] at free
          cases free
        have := satAddInt_le_add (a := seq) (b := 1) (by omega)
        omega
      simp only [without_retainedCharge, without_bufferedCharge, without_availableBytes] at hroom
      have hm := Move.overtake given live hs frame unended hover hbelowAll (by
        unfold used
        omega)
      rw [← put_without] at hm
      simp only [retain, retains_of_lt (show 1 < seq by omega) hfinal, if_true] at hm
      simp only [foldl_uncharge]
      rw [restore_ok rfl]
      refine ⟨[_], .visible hm, rfl, ?_⟩
      simp [Except.map, Told, Event.resolutions, frame.stream, Function.comp_def]

/-- The frame a stream waits for, once the application takes it: the held frames follow. -/
theorem applyNext_of_accepted {apply : Apply} {limits : Limits}
    (frame : Frame lay limits id s.expected message c) (hexp : s.expected ≤ i64Max)
    (free : s.pending.get? s.expected = none)
    (hlast : senderFinal message.kind = true → s.pending.isEmpty = true)
    (hretain : (if (s.expected == 1 || senderFinal message.kind) = true then r.checkRetain lay c 0
      else Except.ok ()) = .ok ()) (haccept : apply 0 message = .ok ()) :
    r.applyNext lay s message s.expected c now apply =
      let turn := (r.retain s.expected message.kind c).drainPending (s.mark s.expected message) id
        apply 1
      { turn with
        result := turn.result.map fun resolved =>
          ⟨.applied, ⟨id, s.expected, .applied⟩ :: resolved⟩
        applied := message :: turn.applied } := by
  have hbounds := frame.bounds
  have hfinal : (senderFinal message.kind && !s.pending.isEmpty) = false := by
    cases hkind : senderFinal message.kind with
    | false => rfl
    | true => simp [hlast hkind]
  have hmark := markApplied_eq (r := r) (c := c) frame.numbered hbounds.1 (by omega) free hlast
  simp only [applyNext, hfinal, hretain, haccept, hmark, frame.stream, Bool.false_eq_true, if_false]

theorem applyNext_explained {apply : Apply} (given : A r message false)
    (blocked : apply 0 message = .error .wouldBlock → A r message true)
    (live : r.failed = false) (hf : Filed lay r)
    (hs : r.streams.get? id = some s) (frame : Frame lay r.limits id s.expected message c)
    (unended : s.terminal = none) (free : s.pending.get? s.expected = none)
    (first : s.expected = 1 → firstKind r.direction message.kind = true) :
    Explains lay A r (restore id ((r.without id).applyNext lay s message s.expected c now apply))
      (((r.without id).applyNext lay s message s.expected c now apply).result.map (·.resolved))
      ((r.without id).applyNext lay s message s.expected c now apply).applied := by
  have hfs := hf.streams id s hs
  have hexp := hfs.expected
  have hbounds := frame.bounds
  by_cases hlast : (senderFinal message.kind && !s.pending.isEmpty) = true
  · simp only [applyNext, hlast, if_true]
    simp only [Bool.and_eq_true, Bool.not_eq_true'] at hlast
    have hsome : ¬ ∀ k, s.pending.get? k = none := by
      rw [← SortedMap.isEmpty_iff, hlast.2]
      nofun
    push Not at hsome
    obtain ⟨k, hk⟩ := hsome
    obtain ⟨other, hother⟩ := Option.ne_none_iff_exists'.1 hk
    have hle := (hfs.pending k other hother).2
    have hne : k ≠ s.expected := fun h => hk (h ▸ free)
    exact .clash (.clash (.inl given) live hs frame (.above hother
      ((satAddInt_le_add (by omega)).trans (by omega)) hlast.1) (restore_failed rfl))
  have hgoes : (senderFinal message.kind && !s.pending.isEmpty) = false := by simpa using hlast
  have hlast : senderFinal message.kind = true → s.pending.isEmpty = true := by
    intro hfinal
    simpa [hfinal] using hlast
  cases hretain : (if (s.expected == 1 || senderFinal message.kind) = true then
      (r.without id).checkRetain lay c 0 else Except.ok ()) with
  | error e =>
    have he : e = .wouldBlock := by
      split_ifs at hretain
      exact checkRetain_error hretain
    subst he
    simp only [applyNext, hgoes, hretain, Bool.false_eq_true, if_false]
    rw [restore_idle hs rfl]
    exact .stay rfl
  | ok u =>
    have hroom : s.expected = 1 ∨ senderFinal message.kind = true →
        r.used lay + c ≤ r.availableBytes := by
      intro hkept
      rw [if_pos (by simpa using hkept)] at hretain
      have := (checkRetain_eq_ok (r := r.without id) hf.limits).1 hretain
      rw [size_without hs] at this
      simpa [used] using this
    cases happly : apply 0 message with
    | error e =>
      cases e with
      | wouldBlock =>
        simp only [applyNext, hgoes, hretain, happly, Bool.false_eq_true, if_false]
        exact buffer_explained (blocked happly) live hf hs frame unended free le_rfl first (by simp)
      | rejected =>
        simp only [applyNext, hgoes, hretain, happly, Bool.false_eq_true, if_false]
        exact .reject live (restore_failed rfl)
    | ok u =>
      have hm := Move.take given live hs frame unended free first hlast hroom
      rw [← put_without] at hm
      obtain ⟨hrest, hfatal⟩ := drainPending_explained apply 1
        (r := (r.without id).retain s.expected message.kind c) (s := s.mark s.expected message) live
        (filed_move hf hm live)
      rw [applyNext_of_accepted frame hexp.2 free hlast hretain happly, restore_map, map_map]
      exact hrest.after_applied hm hfatal

/-- A frame that is not answered from what the stream remembers. -/
theorem of_remembered_eq_none (h : remembered s message seq = none) :
    s.terminal = none ∧ s.expected ≤ seq ∧ s.pending.get? seq = none := by
  unfold remembered at h
  cases hterminal : s.terminal with
  | some t => rw [hterminal] at h; cases h
  | none =>
    simp only [hterminal] at h
    split_ifs at h with hlt
    cases hheld : s.pending.get? seq with
    | some held => rw [hheld] at h; cases h
    | none => exact ⟨rfl, not_lt.1 hlt, rfl⟩

/-- An answer from what the stream remembers is a status, or names a clash. -/
theorem of_remembered_eq_some {answer : Except Error Report}
    (h : remembered s message seq = some answer) :
    (∃ status, answer = .ok ⟨status, []⟩) ∨
      answer = .error .protocol ∧ ∀ direction, Clash direction s message seq := by
  unfold remembered at h
  cases hterminal : s.terminal with
  | some t =>
    obtain ⟨last, terminal⟩ := t
    simp only [hterminal] at h
    obtain rfl := Option.some.inj h
    split_ifs with hopening hlt hexpected hsame
    · right
      simp only [Bool.and_eq_true, beq_iff_eq] at hopening
      obtain ⟨opening, ho, hne⟩ := Option.any_eq_true _ _ |>.1 hopening.2
      exact ⟨rfl, fun _ => .opening hopening.1 ho (by simpa using hne)⟩
    · exact .inl ⟨_, rfl⟩
    · exact .inl ⟨_, rfl⟩
    · exact .inl ⟨_, rfl⟩
    · right
      refine ⟨rfl, fun _ => .past hterminal (not_lt.1 hlt) ?_⟩
      simpa using hsame
  | none =>
    simp only [hterminal] at h
    by_cases hlt : seq < s.expected
    · rw [if_pos hlt] at h
      obtain rfl := Option.some.inj h
      split_ifs with hopening
      · right
        simp only [Bool.and_eq_true, beq_iff_eq, bne_iff_ne] at hopening
        exact ⟨rfl, fun _ => .unopened hterminal hopening.1 hlt hopening.2⟩
      · exact .inl ⟨_, rfl⟩
    · rw [if_neg hlt] at h
      cases hheld : s.pending.get? seq with
      | none => rw [hheld] at h; cases h
      | some held =>
        simp only [hheld] at h
        obtain rfl := Option.some.inj h
        split_ifs with hne
        · exact .inr ⟨rfl, fun _ => .copy hheld (by simpa using hne)⟩
        · exact .inl ⟨_, rfl⟩

theorem submitInner_explained (now : ℕ) (apply : Apply) (given : A r message false)
    (held : s.expected < seq ∨ apply 0 message = .error .wouldBlock → A r message true)
    (live : r.failed = false) (hf : Filed lay r)
    (hs : r.streams.get? id = some s) (frame : Frame lay r.limits id seq message c) :
    Explains lay A r (restore id ((r.without id).submitInner lay s message seq c now apply))
      (((r.without id).submitInner lay s message seq c now apply).result.map (·.resolved))
      ((r.without id).submitInner lay s message seq c now apply).applied := by
  unfold submitInner
  cases hanswer : remembered s message seq with
  | some answer =>
    rcases of_remembered_eq_some hanswer with ⟨status, rfl⟩ | ⟨rfl, why⟩
    · simp only
      rw [restore_idle hs rfl]
      exact .stay rfl
    · exact .clash (.clash (.inl given) live hs frame (why _) (restore_failed rfl))
  | none =>
    obtain ⟨unended, due, free⟩ := of_remembered_eq_none hanswer
    simp only
    by_cases hfirst : (seq == 1 && !firstKind (r.without id).direction message.kind) = true
    · rw [if_pos hfirst]
      simp only [Bool.and_eq_true, beq_iff_eq, Bool.not_eq_true'] at hfirst
      exact .clash (.clash (.inl given) live hs frame (.first hfirst.1 hfirst.2)
        (restore_failed rfl))
    rw [if_neg hfirst]
    have first : seq = 1 → firstKind r.direction message.kind = true := by
      rintro rfl
      simpa using hfirst
    by_cases hover : overtakes (r.without id).direction s message.kind seq = true
    · rw [if_pos hover]
      exact supersede_explained given live hf hs frame unended free hover
    rw [if_neg hover]
    by_cases hearly : s.expected < seq
    · rw [if_pos hearly]
      exact buffer_explained (held (.inl hearly)) live hf hs frame unended free due first
        (by simp [hearly])
    · rw [if_neg hearly]
      obtain rfl : s.expected = seq := le_antisymm due (not_lt.1 hearly)
      exact applyNext_explained given (fun h => held (.inr h)) live hf hs frame unended free first

/-! #### Calls -/

/-- A call shows its moves, or it is refused and makes none. -/
def Shown (lay : Layout) (A : Given) (r r' : Receiver) (result : Except Error (List Resolution))
    (accepted : List Envelope) : Prop :=
  ∃ evs, Weak (Move lay A) r evs r' ∧ accepted = evs.flatMap Event.accepted ∧
    (Told evs result ∨ evs = [] ∧ ∃ e, result = .error e)

/-- A frame of the session that is let in. -/
theorem checkFrame_eq_ok : r.checkFrame lay message = .ok (seq, c) ↔
    message.sessionId = r.sessionId ∧ Frame lay r.limits message.streamId seq message c := by
  constructor
  · intro h
    obtain ⟨_, hsession, h⟩ := bind_eq_ok.1 h
    obtain ⟨_, hversion, h⟩ := bind_eq_ok.1 h
    obtain ⟨k, hk, h⟩ := bind_eq_ok.1 h
    obtain ⟨n, hn, h⟩ := bind_eq_ok.1 h
    obtain ⟨rfl, rfl⟩ := Prod.mk.inj (Except.ok.inj h)
    have hversion := refuseIf_eq_ok.1 hversion
    simp only [Bool.or_eq_false_iff, bne_eq_false_iff_eq, decide_eq_false_iff_not,
      not_le] at hversion
    exact ⟨by simpa using refuseIf_eq_ok.1 hsession, rfl, hversion.2, required_eq_ok.1 hk,
      hversion.1, hn⟩
  · rintro ⟨hsession, frame⟩
    refine bind_eq_ok.2 ⟨(), refuseIf_eq_ok.2 (by simp [hsession]), bind_eq_ok.2 ⟨(),
      refuseIf_eq_ok.2 (by simpa [frame.version] using frame.positive), bind_eq_ok.2 ⟨seq,
      required_eq_ok.2 frame.numbered, bind_eq_ok.2 ⟨c, frame.charged, rfl⟩⟩⟩⟩

/-- The clock: the receiver ends, or goes on as it is. -/
theorem advance_cases (r : Receiver) (now : ℕ) :
    (∃ e, r.advance now = (r, .error e) ∧ r.failed = true) ∨
      (r.advance now = ({ r with failed := true }, .error .gapTimeout) ∧ r.failed = false) ∨
      (r.advance now = (r, .ok ()) ∧ r.failed = false) := by
  unfold advance
  cases hfailed : r.failed with
  | true => exact .inl ⟨_, rfl, rfl⟩
  | false =>
    cases r.overdue now with
    | true => exact .inr (.inl ⟨rfl, rfl⟩)
    | false => exact .inr (.inr ⟨rfl, rfl⟩)

theorem advance_weak (r : Receiver) (now : ℕ) : Weak (Move lay A) r [] (r.advance now).1 := by
  rcases advance_cases r now with ⟨e, h, -⟩ | ⟨h, live⟩ | ⟨h, -⟩ <;> rw [h]
  · exact .refl r
  · exact .silent (.timeout live)
  · exact .refl r

/-- The checks before the stream is looked up have answers of their own. -/
theorem ne_of_advance_error (now : ℕ) {e : Error} (h : (r.advance now).2 = .error e) :
    e ≠ .protocol ∧ e ≠ .wouldBlock := by
  unfold advance at h
  split_ifs at h <;> cases h <;> decide

theorem checkFrame_error {e : Error} (h : r.checkFrame lay message = .error e) :
    e = .wrongSession ∨ e = .invalidMessage := by
  rcases bind_eq_error.1 h with h | ⟨_, -, h⟩
  · exact .inl (eq_of_refuseIf_eq_error h)
  rcases bind_eq_error.1 h with h | ⟨_, -, h⟩
  · exact .inr (eq_of_refuseIf_eq_error h)
  rcases bind_eq_error.1 h with h | ⟨_, -, h⟩
  · exact .inr (eq_of_required_eq_error h)
  rcases bind_eq_error.1 h with h | ⟨_, -, h⟩
  · rcases bind_eq_error.1 h with h | ⟨_, -, h⟩
    · exact .inr (eq_of_orError_eq_error h)
    · cases h
  · cases h

/-- A submission is refused before the stream is looked up, or it works on the stream. -/
theorem submit_cases (lay : Layout) (r : Receiver) (message : Envelope) (now : ℕ) (apply : Apply) :
    (∃ e, (r.submit lay message now apply).2 = ⟨.error e, []⟩ ∧ e ≠ .wouldBlock ∧
        (r.submit lay message now apply).1 = (r.advance now).1 ∧
        (e = .protocol → r.streams.get? message.streamId = none)) ∨
      r.failed = false ∧ ∃ s seq c, r.streams.get? message.streamId = some s ∧
        message.sessionId = r.sessionId ∧ Frame lay r.limits message.streamId seq message c ∧
        r.submit lay message now apply =
          (restore message.streamId
            ((r.without message.streamId).submitInner lay s message seq c now apply),
            ⟨((r.without message.streamId).submitInner lay s message seq c now apply).result,
              ((r.without message.streamId).submitInner lay s message seq c now
                apply).applied⟩) := by
  have hne := fun e => ne_of_advance_error (r := r) now (e := e)
  unfold submit
  rcases advance_cases r now with ⟨e, h, -⟩ | ⟨h, -⟩ | ⟨h, live⟩ <;>
    rw [h] at hne ⊢
  · exact .inl ⟨e, rfl, (hne e rfl).2, rfl, fun he => absurd he (hne e rfl).1⟩
  · exact .inl ⟨_, rfl, nofun, rfl, nofun⟩
  · simp only
    cases hcheck : r.checkFrame lay message with
    | error e =>
      rcases checkFrame_error hcheck with rfl | rfl <;> exact .inl ⟨_, rfl, nofun, rfl, nofun⟩
    | ok frame =>
      obtain ⟨seq, c⟩ := frame
      cases hs : r.streams.get? message.streamId with
      | none => exact .inl ⟨_, rfl, nofun, rfl, fun _ => rfl⟩
      | some s =>
        obtain ⟨hsession, frame⟩ := checkFrame_eq_ok.1 hcheck
        exact .inr ⟨live, s, seq, c, rfl, hsession, frame, rfl⟩

theorem retry_cases (r : Receiver) (id : ℤ) (now : ℕ) (apply : Apply) :
    (∃ e, (r.retry id now apply).2 = ⟨.error e, []⟩ ∧
        (r.retry id now apply).1 = (r.advance now).1 ∧
        (e = .protocol → r.streams.get? id = none)) ∨
      r.failed = false ∧ ∃ s, r.streams.get? id = some s ∧
        r.retry id now apply =
          (restore id ((r.without id).drainPending s id apply 0),
            ⟨((r.without id).drainPending s id apply 0).result.map
                (retried ((r.without id).drainPending s id apply 0).state),
              ((r.without id).drainPending s id apply 0).applied⟩) := by
  have hne := fun e => ne_of_advance_error (r := r) now (e := e)
  unfold retry
  rcases advance_cases r now with ⟨e, h, -⟩ | ⟨h, -⟩ | ⟨h, live⟩ <;>
    rw [h] at hne ⊢
  · exact .inl ⟨e, rfl, rfl, fun he => absurd he (hne e rfl).1⟩
  · exact .inl ⟨_, rfl, rfl, nofun⟩
  · simp only
    cases hs : r.streams.get? id with
    | none => exact .inl ⟨_, rfl, rfl, fun _ => rfl⟩
    | some s =>
      refine .inr ⟨live, s, rfl, ?_⟩
      simp only
      rw [restore_map]

theorem shown_of_explains {r r' : Receiver} {result : Except Error (List Resolution)}
    {accepted : List Envelope} (h : Explains lay A r r' result accepted) :
    Shown lay A r r' result accepted := by
  obtain ⟨evs, hw, ha, ht⟩ := h
  exact ⟨evs, hw, ha, .inl ht⟩

theorem shown_refused {r r' : Receiver} {e : Error} (h : Weak (Move lay A) r [] r') :
    Shown lay A r r' (.error e) [] :=
  ⟨[], h, rfl, .inr ⟨rfl, e, rfl⟩⟩

/-- The resolutions a call reports. -/
def reported (report : Option Report) : List Resolution := (report.map (·.resolved)).getD []

/-- The frame comes before the one its stream waits for. -/
def Early (r : Receiver) (message : Envelope) : Prop :=
  ∃ s, r.streams.get? message.streamId = some s ∧ s.expected < message.messageSeq.getD 0

/-- The frame of its session that a call gives, in the state the call is made in; it is held if it
came early or the application is not ready for it. -/
def given (r : Receiver) : Call → Given
  | .submit message _ apply => fun r' m held => r' = r ∧ m = message ∧
    message.sessionId = r.sessionId ∧ (held = true → r.Early message ∨
      apply 0 message = .error .wouldBlock)
  | _ => fun _ _ _ => False

/-- **Every call of a receiver in order is a run of moves that shows what the caller sees.** -/
theorem call_shown (hf : r.failed = false → Filed lay r) (call : Call) :
    Shown lay (r.given call) r (r.call lay call).1 ((r.call lay call).2.result.map reported)
      (r.call lay call).2.applied := by
  cases call with
  | register id =>
    simp only [Receiver.call]
    cases hreg : r.register lay id with
    | error e => exact shown_refused (.refl r)
    | ok r' =>
      obtain ⟨_, hfailed, hreg⟩ := bind_eq_ok.1 hreg
      obtain ⟨_, hnew, hreg⟩ := bind_eq_ok.1 hreg
      obtain ⟨_, -, hreg⟩ := bind_eq_ok.1 hreg
      obtain ⟨_, hroom, hreg⟩ := bind_eq_ok.1 hreg
      obtain rfl := Except.ok.inj hreg
      have live := refuseIf_eq_ok.1 hfailed
      have hnew := refuseIf_eq_ok.1 hnew
      have hroom := refuseIf_eq_ok.1 hroom
      simp only [Bool.or_eq_false_iff, decide_eq_false_iff_not, not_le,
        Option.isSome_eq_false_iff, Option.isNone_iff_eq_none] at hnew
      rw [decide_eq_false_iff_not, not_lt,
        satAdd_records_le_iff (availableBytes_eq (hf live).limits).2] at hroom
      exact ⟨[], .silent (.register live hnew.1 hnew.2 hroom), rfl, .inl rfl⟩
  | advance now =>
    refine ⟨[], advance_weak r now, rfl, ?_⟩
    unfold Receiver.call
    cases hadvance : (r.advance now).2 with
    | ok u => simp [hadvance, Except.map, Told, reported]
    | error e => exact .inr ⟨rfl, e, by simp [hadvance, Except.map]⟩
  | submit message now apply =>
    unfold Receiver.call
    rcases submit_cases lay r message now apply with
      ⟨e, hanswer, -, hr, -⟩ | ⟨live, s, seq, c, hs, hsession, frame, hsubmit⟩
    · simp only [hanswer, hr]
      exact shown_refused (advance_weak r now)
    · simp only [hsubmit, map_map]
      have heldGiven : s.expected < seq ∨ apply 0 message = .error .wouldBlock →
          r.given (.submit message now apply) r message true := by
        refine fun h => ⟨rfl, rfl, hsession, fun _ => h.imp_left fun hlt => ⟨s, hs, ?_⟩⟩
        rwa [frame.numbered]
      exact shown_of_explains
        (submitInner_explained now apply ⟨rfl, rfl, hsession, nofun⟩ heldGiven live
          (hf live) hs frame)
  | retry id now apply =>
    unfold Receiver.call
    rcases retry_cases r id now apply with ⟨e, hanswer, hr, -⟩ | ⟨live, s, hs, hretry⟩
    · simp only [hanswer, hr]
      exact shown_refused (advance_weak r now)
    · simp only [hretry, map_map]
      have hput : (r.without id).put id s = r := put_without.trans (put_get? hs)
      have hfiled : Filed lay ((r.without id).put id s) := by
        rw [hput]
        exact hf live
      have hdrain := (drainPending_explained (A := r.given (.retry id now apply)) apply 0
        (r := r.without id) live hfiled).1
      rw [hput] at hdrain
      have hid : ∀ x : Except Error (List Resolution),
          ∀ t, x.map (reported ∘ (some ∘ retried t)) = x := by
        intro x t
        cases x <;> rfl
      rw [hid]
      exact shown_of_explains hdrain

end Receiver

/-! ### Some calls in a row -/

open Receiver

/-- Calls that meet a condition in the state in which they are made. -/
def StepWhen (lay : Layout) (C : Receiver → Call → Bool) (r : Receiver) (l : Call × Outcome)
    (r' : Receiver) : Prop :=
  Step lay r l r' ∧ C r l.1 = true

namespace Receiver

/-- The receiver after some calls. -/
def after (lay : Layout) (r : Receiver) (calls : List Call) : Receiver :=
  calls.foldl (fun r call => (r.call lay call).1) r

/-- The calls with what each of them showed. -/
def trace (lay : Layout) : Receiver → List Call → List (Call × Outcome)
  | _, [] => []
  | r, call :: calls => (call, (r.call lay call).2) :: trace lay (r.call lay call).1 calls

/-- Every call meets the condition in its state. -/
def meets (lay : Layout) (C : Receiver → Call → Bool) : Receiver → List Call → Bool
  | _, [] => true
  | r, call :: calls => C r call && meets lay C (r.call lay call).1 calls

theorem run_after {C : Receiver → Call → Bool} {r : Receiver} {calls : List Call}
    (h : r.meets lay C calls = true) :
    Run (StepWhen lay C) r (r.trace lay calls) (r.after lay calls) := by
  induction calls generalizing r with
  | nil => exact .nil
  | cons call calls ih =>
    simp only [meets, Bool.and_eq_true] at h
    exact .cons ⟨rfl, h.1⟩ (ih h.2)

end Receiver

theorem run_of_runWhen {C : Receiver → Call → Bool} {r r' : Receiver}
    {tr : List (Call × Outcome)} (h : Run (StepWhen lay C) r tr r') : Run (Step lay) r tr r' :=
  h.mono fun _ _ _ hs => hs.1

end GwzTransport.Sequenced
