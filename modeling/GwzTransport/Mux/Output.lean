import GwzTransport.Mux.Runs

/-!
# What an endpoint says on a stream

The messages an endpoint hands out for a stream reach a peer that closes the whole session on the
first one it cannot accept.  `Speak` is the peer's view of a stream, as a small labelled system:
a state, a message, the next state.  What was handed out for a stream followed by what is queued
for it is a run of `Speak` (`Spoken`), and every move keeps that, provided the host keeps to
`strict`: no cancellation while an `Opened` of the request is queued, and nothing but an ending
on a stream that waits to be cancelled.
-/

namespace GwzTransport.Mux

open Protocol Binding Transition

/-- A stream's state, a message of the endpoint, the next state. -/
inductive Speak : Option Kind → MessageKind → Option Kind → Prop
  | mk {state kind} : validKind true state kind = true → Speak (some state) kind (state.after kind)

/-- The kinds of a list's messages for a stream. -/
def kindsOf (id : ℤ) (l : List Attachment) : List MessageKind :=
  (l.filter fun item => item.2.streamId == id).map (·.2.kind)

@[simp] theorem kindsOf_nil (id : ℤ) : kindsOf id [] = [] := rfl

theorem kindsOf_append (id : ℤ) (l l' : List Attachment) :
    kindsOf id (l ++ l') = kindsOf id l ++ kindsOf id l' := by
  simp [kindsOf]

theorem kindsOf_cons_self {id : ℤ} {item : Attachment} (h : item.2.streamId = id)
    (l : List Attachment) : kindsOf id (item :: l) = item.2.kind :: kindsOf id l := by
  simp [kindsOf, h]

variable {m : Mux} {s t : Option Kind} {kind : MessageKind} {l : List MessageKind}

theorem mem_kindsOf {id : ℤ} {l : List Attachment} :
    kind ∈ kindsOf id l ↔ ∃ item ∈ l, item.2.streamId = id ∧ item.2.kind = kind := by
  simp [kindsOf, and_assoc]

/-! ### Runs of the peer's view -/

theorem Speak.ends_eq_false {t : Kind} (h : Speak s kind (some t)) : ends kind = false := by
  generalize ht : some t = u at h
  cases h with
  | @mk state kind hv =>
    unfold Kind.after at ht
    split_ifs at ht with hopened hends
    · rw [hopened]
      rfl
    · simpa using hends

theorem Speak.starts_eq_false (h : Speak s kind t) :
    starts kind = false ∧ kind ≠ .bind ∧ kind ≠ .bound ∧ kind ≠ .bindRejected := by
  cases h with
  | @mk state kind hv =>
    refine ⟨starts_of_validKind hv, ?_, ?_, ?_⟩ <;> rintro rfl <;> cases state <;> cases hv

/-- Nothing follows the end. -/
theorem Speak.run_none (h : Run Speak none l t) :
    l = [] ∧ t = none := by
  cases l with
  | nil => exact ⟨rfl, h.eq_of_nil⟩
  | cons kind l =>
    obtain ⟨u, hu, -⟩ := h.uncons
    cases hu

/-- A stream that goes on has seen no ending. -/
theorem Speak.run_some {t : Kind} (h : Run Speak s l (some t)) : ∀ kind ∈ l, ends kind = false := by
  induction l generalizing s with
  | nil => exact fun kind hk => (by cases hk)
  | cons kind l ih =>
    obtain ⟨u, hu, hr⟩ := h.uncons
    have hrest := ih hr
    intro kind' hk
    rcases List.mem_cons.1 hk with rfl | hk
    · cases u with
      | none => cases (run_none hr).2
      | some u => exact hu.ends_eq_false
    · exact hrest kind' hk

theorem Speak.run_mem (h : Run Speak s l t) :
    ∀ kind ∈ l, starts kind = false ∧ kind ≠ .bind ∧ kind ≠ .bound ∧ kind ≠ .bindRejected :=
  h.forall_labels fun _ _ _ hs => hs.starts_eq_false

/-- Messages that neither open nor end the stream can be left out. -/
theorem Speak.run_filter {l : List Attachment} {keep : Attachment → Bool}
    (hkeep : ∀ x ∈ l, keep x = false → ends x.2.kind = false ∧ x.2.kind ≠ .opened)
    (h : Run Speak s (l.map (·.2.kind)) t) : Run Speak s ((l.filter keep).map (·.2.kind)) t := by
  induction l generalizing s with
  | nil => exact h
  | cons x l ih =>
    obtain ⟨u, hu, hr⟩ := h.uncons
    have hrest := ih (fun y hy => hkeep y (List.mem_cons_of_mem _ hy)) hr
    cases hx : keep x with
    | true =>
      rw [List.filter_cons_of_pos hx]
      exact .cons hu hrest
    | false =>
      rw [List.filter_cons_of_neg (by simp [hx])]
      obtain ⟨hends, hopened⟩ := hkeep x List.mem_cons_self hx
      cases hu with
      | @mk state kind hv =>
        rw [Kind.after, if_neg hopened, if_neg (by simp [hends])] at hrest
        exact hrest

/-! ### What was said and what is queued -/

/-- The rules of an endpoint whose host waits with a cancellation until no `Opened` is queued, and
then sends nothing but an ending. -/
def strict : Rules where
  endpoint := true
  valid := fun _ _ => True
  late := fun kind => ends kind = true
  tidy := True
  late_of_ends := fun h => h

/-- The start of a stream among the marks. -/
def firstHeard (id : ℤ) (marks : List Mark) : Option MessageKind :=
  marks.findSome? fun
    | .heard x => if x.2.streamId = id ∧ starts x.2.kind = true then some x.2.kind else none
    | _ => none

/-- What the marks say was handed out for a stream. -/
def saidBy (id : ℤ) (marks : List Mark) : List MessageKind :=
  marks.filterMap fun
    | .message x => if x.2.streamId = id then some x.2.kind else none
    | _ => none

structure Spoken (r : Router) (id : ℤ) (first : Option MessageKind) (said : List MessageKind) :
    Prop where
  started : ∀ kind, first = some kind → id ≤ r.highest
  silent : first = none → said = [] ∧ kindsOf id r.outbound = [] ∧ r.routes id = none
  spoken : ∀ kind, first = some kind → ∃ t,
    Run Speak (some (.first kind)) (said ++ kindsOf id r.outbound) t ∧
      ∀ s, r.routes id = some s → t = some s.kind ∧
        (s.cancelled = true → kindsOf id r.outbound = [])
  request : ∀ s, r.routes id = some s → ∀ x ∈ r.outbound, x.2.streamId = id → x.1 = s.request

namespace Spoken

variable {r r' : Router} {id : ℤ} {first : Option MessageKind} {said : List MessageKind}

/-- A stream that is there was started. -/
theorem exists_first (h : Spoken r id first said) {s : Stream} (hs : r.routes id = some s) :
    ∃ kind, first = some kind := by
  cases first with
  | none =>
    rw [(h.silent rfl).2.2] at hs
    cases hs
  | some kind => exact ⟨kind, rfl⟩

/-- A change that leaves the stream and its queued messages alone. -/
theorem congr (h : Spoken r id first said) (hroutes : r'.routes id = r.routes id)
    (hout : r'.outbound.filter (fun x => x.2.streamId == id) =
      r.outbound.filter fun x => x.2.streamId == id)
    (hhighest : r.highest ≤ r'.highest) : Spoken r' id first said := by
  have hkinds : kindsOf id r'.outbound = kindsOf id r.outbound := by rw [kindsOf, hout, kindsOf]
  refine ⟨fun kind hk => (h.started kind hk).trans hhighest, ?_, ?_, ?_⟩
  · rw [hkinds, hroutes]
    exact h.silent
  · rw [hkinds, hroutes]
    exact h.spoken
  · intro s hs x hx hid
    refine h.request s (hroutes ▸ hs) x ?_ hid
    have : x ∈ r'.outbound.filter fun x => x.2.streamId == id :=
      List.mem_filter.2 ⟨hx, by simpa using hid⟩
    rw [hout] at this
    exact (List.mem_filter.1 this).1

end Spoken

/-! ### One move -/

namespace Spoken

variable {r r' : Router} {id : ℤ} {first : Option MessageKind} {said : List MessageKind}
  {item : Attachment}

theorem hearStart (h : Spoken r id first said) (hstarts : starts item.2.kind = true)
    (hnew : r.highest < item.2.streamId) (operation : Option (Option String)) :
    Spoken (((r.setRow item.1 operation).start item).act item) id
      (first.or (if item.2.streamId = id ∧ starts item.2.kind = true then some item.2.kind
        else none)) said := by
  by_cases hid : item.2.streamId = id
  · have hnone : first = none := by
      cases first with
      | none => rfl
      | some kind => exact absurd (h.started kind rfl) (by omega)
    obtain ⟨hsaid, hqueued, hroute⟩ := h.silent hnone
    rw [hnone, if_pos ⟨hid, hstarts⟩, Option.none_or]
    have hstream : (((r.setRow item.1 operation).start item).act item).routes id =
        some (.first item) := by
      simp [Router.start, Router.act, Router.setRoute, hid]
    refine ⟨fun kind _ => hid.symm.le, fun hno => (by cases hno), ?_, ?_⟩
    · rintro kind ⟨⟩
      refine ⟨some (.first item.2.kind), ?_, fun s hs => ?_⟩
      · show Run Speak _ (said ++ kindsOf id r.outbound) _
        rw [hsaid, hqueued]
        exact .nil
      · rw [hstream] at hs
        cases hs
        exact ⟨rfl, fun hc => by cases hc⟩
    · intro s _ x hx hxid
      have : x.2.kind ∈ kindsOf id r.outbound := mem_kindsOf.2 ⟨x, hx, hxid, rfl⟩
      rw [hqueued] at this
      cases this
  · rw [if_neg (fun hc => hid hc.1), Option.or_none]
    exact h.congr (Function.update_of_ne (Ne.symm hid) _ _) rfl hnew.le

/-- A message queued on the stream. -/
theorem send (h : Spoken r id first said) {s : Stream}
    (hroute : r.routes item.2.streamId = some s) (hrequest : s.request = item.1)
    (hkind : validKind true s.kind item.2.kind = true)
    (hlate : s.cancelled = true → ends item.2.kind = true) :
    Spoken ((r.setRoute item.2.streamId (s.after item.2.kind)).queue item) id first said := by
  by_cases hid : item.2.streamId = id
  · subst hid
    obtain ⟨kind, rfl⟩ := h.exists_first hroute
    have hout : kindsOf item.2.streamId (r.outbound ++ [item]) =
        kindsOf item.2.streamId r.outbound ++ [item.2.kind] := by
      rw [kindsOf_append, kindsOf_cons_self rfl, kindsOf_nil]
    have hset : ((r.setRoute item.2.streamId (s.after item.2.kind)).queue item).routes
        item.2.streamId = s.after item.2.kind := Function.update_self _ _ _
    refine ⟨h.started, fun hno => (by cases hno), ?_, ?_⟩
    · rintro kind' ⟨⟩
      obtain ⟨t, hrun, hstream⟩ := h.spoken kind rfl
      obtain ⟨rfl, -⟩ := hstream s hroute
      refine ⟨s.kind.after item.2.kind, ?_, fun s' hs' => ?_⟩
      · show Run Speak _ (said ++ kindsOf item.2.streamId (r.outbound ++ [item])) _
        rw [hout, ← List.append_assoc]
        exact hrun.snoc (.mk hkind)
      · rw [hset] at hs'
        obtain ⟨state, hstate, rfl⟩ := Option.map_eq_some_iff.1 hs'
        refine ⟨hstate, fun hcancelled => ?_⟩
        -- on a cancelled stream only an ending is sent, and then the stream is gone
        have hends := hlate hcancelled
        have hopened : item.2.kind ≠ .opened := by
          intro ho
          rw [ho] at hends
          cases hends
        rw [Kind.after, if_neg hopened, if_pos hends] at hstate
        cases hstate
    · intro s' hs' x hx hxid
      rw [hset] at hs'
      obtain ⟨state, -, rfl⟩ := Option.map_eq_some_iff.1 hs'
      rcases List.mem_append.1 hx with hx | hx
      · exact h.request s hroute x hx hxid
      · rw [List.mem_singleton.1 hx]
        exact hrequest.symm
  · refine h.congr (Function.update_of_ne (Ne.symm hid) _ _) ?_ le_rfl
    show (r.outbound ++ [item]).filter _ = _
    simp [hid]

/-- A message heard on the stream. -/
theorem hear (h : Spoken r id first said) {s : Stream} (hroute : r.routes item.2.streamId = some s)
    (hkind : validKind false s.kind item.2.kind = true) :
    Spoken ((r.setRoute item.2.streamId (s.after item.2.kind)).act item) id first said := by
  by_cases hid : item.2.streamId = id
  · subst hid
    have hset : ((r.setRoute item.2.streamId (s.after item.2.kind)).act item).routes
        item.2.streamId = s.after item.2.kind := Function.update_self _ _ _
    -- an initiator never sends `Opened`, so the stream keeps its state or ends
    have hsame : ∀ s', s.after item.2.kind = some s' → s' = s := by
      intro s' hs'
      obtain ⟨state, hstate, rfl⟩ := Option.map_eq_some_iff.1 hs'
      have hopened : item.2.kind ≠ .opened := by
        intro ho
        rw [ho] at hkind
        cases hk : s.kind <;> rw [hk] at hkind <;> cases hkind
      unfold Kind.after at hstate
      rw [if_neg hopened] at hstate
      split_ifs at hstate
      cases hstate
      rfl
    refine ⟨h.started, fun hno => ?_, fun kind hk => ?_, fun s' hs' => ?_⟩
    · obtain ⟨kind, hk⟩ := h.exists_first hroute
      rw [hk] at hno
      cases hno
    · obtain ⟨t, hrun, hstream⟩ := h.spoken kind hk
      refine ⟨t, hrun, fun s' hs' => ?_⟩
      rw [hset] at hs'
      rw [hsame s' hs']
      exact hstream s hroute
    · rw [hset] at hs'
      rw [hsame s' hs']
      exact h.request s hroute
  · exact h.congr (Function.update_of_ne (Ne.symm hid) _ _) rfl le_rfl

/-- The first queued message handed out. -/
theorem handOut (h : Spoken r id first said) {rest : List Attachment}
    (hout : r.outbound = item :: rest) : Spoken { r with outbound := rest } id first
      (said ++ if item.2.streamId = id then [item.2.kind] else []) := by
  by_cases hid : item.2.streamId = id
  · rw [if_pos hid]
    have hkinds : kindsOf id r.outbound = item.2.kind :: kindsOf id rest := by
      rw [hout, kindsOf_cons_self hid]
    refine ⟨h.started, fun hno => ?_, fun kind hk => ?_, fun s hs x hx hxid => ?_⟩
    · have := (h.silent hno).2.1
      rw [hkinds] at this
      cases this
    · obtain ⟨t, hrun, hstream⟩ := h.spoken kind hk
      refine ⟨t, ?_, fun s hs => ⟨(hstream s hs).1, fun hc => ?_⟩⟩
      · rw [hkinds] at hrun
        simpa using hrun
      · have := (hstream s hs).2 hc
        rw [hkinds] at this
        cases this
    · exact h.request s hs x (hout ▸ List.mem_cons_of_mem _ hx) hxid
  · rw [if_neg hid, List.append_nil]
    refine h.congr rfl ?_ le_rfl
    rw [hout, List.filter_cons_of_neg (by simpa using hid)]

/-- A cancelled stream ended from its slot. -/
theorem giveUp (h : Spoken r id first said) {s : Stream}
    (hroute : r.routes item.2.streamId = some s) (hcancelled : s.cancelled = true)
    (hkind : item.2.kind = s.kind.ending) :
    Spoken (r.setRoute item.2.streamId none) id first
      (said ++ if item.2.streamId = id then [item.2.kind] else []) := by
  by_cases hid : item.2.streamId = id
  · subst hid
    rw [if_pos rfl]
    have hset : (r.setRoute item.2.streamId none).routes item.2.streamId = none :=
      Function.update_self _ _ _
    obtain ⟨kind, rfl⟩ := h.exists_first hroute
    refine ⟨h.started, fun hno => (by cases hno), ?_, fun s' hs' => ?_⟩
    · rintro kind' ⟨⟩
      obtain ⟨t, hrun, hstream⟩ := h.spoken kind rfl
      obtain ⟨rfl, hqueued⟩ := hstream s hroute
      rw [hqueued hcancelled, List.append_nil] at hrun
      refine ⟨none, ?_, fun s' hs' => ?_⟩
      · show Run Speak _ (said ++ [item.2.kind] ++ kindsOf item.2.streamId r.outbound) _
        rw [hqueued hcancelled, List.append_nil, hkind]
        have hspeak := Speak.mk (validKind_ending s.kind)
        rw [Kind.after_ending] at hspeak
        exact hrun.snoc hspeak
      · rw [hset] at hs'
        cases hs'
    · rw [hset] at hs'
      cases hs'
  · rw [if_neg hid, List.append_nil]
    exact h.congr (Function.update_of_ne (Ne.symm hid) _ _) rfl le_rfl

/-- What `discard` drops neither opens nor ends a stream. -/
theorem discard (h : Spoken r id first said) {request : String}
    (htidy : ∀ x ∈ r.outbound, x.1 = request → x.2.kind ≠ .opened) :
    Spoken { r.setRow request none with
      outbound := r.outbound.filter (Queue.kept request) } id first said := by
  have hdrop : ∀ x ∈ r.outbound, Queue.kept request x = false →
      ends x.2.kind = false ∧ x.2.kind ≠ .opened := by
    intro x hx hkept
    simp only [Queue.kept, Bool.or_eq_false_iff, bne_eq_false_iff_eq] at hkept
    refine ⟨?_, htidy x hx hkept.1.1.1.1.1⟩
    by_contra hends
    have hterminal := terminal_of_ends (by simpa using hends)
    rw [hterminal] at hkept
    cases hkept.1.1.1.1.2
  have hcomm : (r.outbound.filter (Queue.kept request)).filter (fun x => x.2.streamId == id) =
      (r.outbound.filter fun x => x.2.streamId == id).filter (Queue.kept request) := by
    rw [List.filter_filter, List.filter_filter]
    exact List.filter_congr fun x _ => Bool.and_comm _ _
  refine ⟨h.started, fun hno => ?_, fun kind hk => ?_, fun s hs x hx hxid => ?_⟩
  · obtain ⟨hsaid, hqueued, hroute⟩ := h.silent hno
    refine ⟨hsaid, ?_, hroute⟩
    have hnil : r.outbound.filter (fun x => x.2.streamId == id) = [] := by
      simpa [kindsOf] using hqueued
    rw [kindsOf, hcomm, hnil]
    rfl
  · obtain ⟨t, hrun, hstream⟩ := h.spoken kind hk
    obtain ⟨u, hsaid, hqueued⟩ := hrun.split
    refine ⟨t, hsaid.append ?_, fun s hs => ⟨(hstream s hs).1, fun hc => ?_⟩⟩
    · rw [kindsOf, hcomm]
      exact Speak.run_filter (fun x hx => hdrop x (List.mem_filter.1 hx).1) hqueued
    · have hnil : r.outbound.filter (fun x => x.2.streamId == id) = [] := by
        simpa [kindsOf] using (hstream s hs).2 hc
      rw [kindsOf, hcomm, hnil]
      rfl
  · exact h.request s hs x (List.mem_filter.1 hx).1 hxid

/-- Streams are marked when nothing of them is queued any more. -/
theorem mark (h : Spoken r id first said) {request : String}
    (hkept : ∀ x ∈ r.outbound, Queue.kept request x = true) :
    Spoken (r.mark request) id first said := by
  cases hroute : r.routes id with
  | none =>
    refine h.congr ?_ rfl le_rfl
    simp [Router.mark, hroute]
  | some s =>
    have hset : (r.mark request).routes id = some (if s.request = request then
        { s with cancelled := true } else s) := by simp [Router.mark, hroute]
    by_cases hrequest : s.request = request
    · rw [if_pos hrequest] at hset
      obtain ⟨kind, rfl⟩ := h.exists_first hroute
      refine ⟨h.started, fun hno => (by cases hno), ?_, fun s' hs' => ?_⟩
      · rintro kind' ⟨⟩
        obtain ⟨t, hrun, hstream⟩ := h.spoken kind rfl
        obtain ⟨rfl, -⟩ := hstream s hroute
        refine ⟨some s.kind, hrun, fun s' hs' => ?_⟩
        rw [hset] at hs'
        cases hs'
        refine ⟨rfl, fun _ => List.eq_nil_iff_forall_not_mem.2 fun k hk => ?_⟩
        -- a message of a live stream is no ending, so it would have been dropped
        obtain ⟨x, hx, hxid, rfl⟩ := mem_kindsOf.1 hk
        have hmem : x.2.kind ∈ said ++ kindsOf id r.outbound := List.mem_append_right _ hk
        have hends := Speak.run_some hrun _ hmem
        obtain ⟨hstarts, hbind, hbound, hrejected⟩ := Speak.run_mem hrun _ hmem
        have hx1 := (h.request s hroute x hx hxid).trans hrequest
        have hterminal : terminal x.2.kind = false := by
          cases hk : x.2.kind <;> simp_all [ends, terminal]
        have := hkept x hx
        simp [Queue.kept, hx1, hterminal, hstarts, hbind, hbound, hrejected] at this
      · rw [hset] at hs'
        cases hs'
        exact h.request s hroute
    · rw [if_neg hrequest] at hset
      exact h.congr (hset.trans hroute.symm) rfl le_rfl

theorem close (h : Spoken r id first said) : Spoken r.closed id first said := by
  refine ⟨h.started, fun hno => ⟨(h.silent hno).1, rfl, rfl⟩, fun kind hk => ?_,
    fun s hs => by cases hs⟩
  obtain ⟨t, hrun, -⟩ := h.spoken kind hk
  obtain ⟨u, hsaid, -⟩ := hrun.split
  exact ⟨u, by simpa [Router.closed] using hsaid, fun s hs => by cases hs⟩

end Spoken

theorem firstHeard_append (id : ℤ) (l l' : List Mark) :
    firstHeard id (l ++ l') = (firstHeard id l).or (firstHeard id l') := List.findSome?_append

theorem saidBy_append (id : ℤ) (l l' : List Mark) :
    saidBy id (l ++ l') = saidBy id l ++ saidBy id l' := List.filterMap_append

/-- Every move keeps what was said and what is queued in order. -/
theorem spoken_move {r r' : Router} {hist : List Mark} {l : Option Mark} {id : ℤ} (hid : id ≠ 0)
    (h : Spoken r id (firstHeard id hist) (saidBy id hist)) (hm : Move strict r l r') :
    Spoken r' id (firstHeard id (hist ++ l.toList)) (saidBy id (hist ++ l.toList)) := by
  rw [firstHeard_append, saidBy_append]
  -- most labels neither start a stream nor hand out a message
  have hquiet : ∀ {r'' : Router}, Spoken r'' id (firstHeard id hist) (saidBy id hist) →
      firstHeard id l.toList = none → saidBy id l.toList = [] →
      Spoken r'' id ((firstHeard id hist).or (firstHeard id l.toList))
        (saidBy id hist ++ saidBy id l.toList) := by
    intro r'' h' hfirst hsaid
    rwa [hfirst, hsaid, Option.or_none, List.append_nil]
  cases hm with
  | register operation _ => exact hquiet (h.congr rfl rfl le_rfl) rfl rfl
  | start hside _ _ _ => cases hside
  | hearStart operation _ hstarts hnew =>
    have := h.hearStart hstarts hnew (some (some operation))
    simpa [firstHeard, saidBy] using this
  | send hroute hrequest hkind _ hlate =>
    exact hquiet (h.send hroute hrequest hkind (hlate rfl)) rfl rfl
  | @hear item s hroute hrequest hkind =>
    refine hquiet (h.hear hroute hkind) ?_ rfl
    simp [firstHeard, starts_of_validKind hkind]
  | notice _ _ _ _ => exact hquiet (h.congr rfl rfl le_rfl) rfl rfl
  | expire hside _ _ _ => cases hside
  | @control item hzero =>
    refine hquiet (h.congr rfl ?_ le_rfl) rfl rfl
    show (r.outbound ++ [item]).filter _ = _
    simp [hzero, Ne.symm hid]
  | @handOut item rest hout =>
    have := h.handOut hout
    by_cases hsame : item.2.streamId = id
    · simpa [firstHeard, saidBy, hsame] using this
    · simpa [firstHeard, saidBy, hsame] using this
  | handAction _ => exact hquiet (h.congr rfl rfl le_rfl) rfl rfl
  | ask hside _ _ _ _ _ _ => cases hside
  | @giveUp item s _ hroute hcancelled _ hkind _ =>
    have := h.giveUp hroute hcancelled hkind
    by_cases hsame : item.2.streamId = id
    · simpa [firstHeard, saidBy, hsame] using this
    · simpa [firstHeard, saidBy, hsame] using this
  | discard request htidy => exact hquiet (h.discard (htidy trivial)) rfl rfl
  | dropActions request => exact hquiet (h.congr rfl rfl le_rfl) rfl rfl
  | mark request hkept => exact hquiet (h.mark hkept) rfl rfl
  | close => exact hquiet h.close rfl rfl

/-! ### Legal output -/

/-- The traffic of an open stream. -/
def traffic : MessageKind → Bool
  | .data | .window | .flush | .flushed | .endWrite => true
  | _ => false

/-- What may be handed out for a stream that was opened with a message of the kind. -/
def Legal : Option MessageKind → List MessageKind → Prop
  | none, l => l = []
  | some .checkIdentity, l => l = [] ∨ l = [.identityChecked] ∨ l = [.identityCheckFailed]
  | some .open_, l => l = [] ∨ l = [.openFailed] ∨ ∃ body last, l = .opened :: (body ++ last) ∧
      (∀ kind ∈ body, traffic kind = true) ∧ (last = [] ∨ last = [.closed] ∨ last = [.failed])
  | some _, _ => False

theorem Speak.run_stream (h : Run Speak (some .stream) l t) : ∃ body last, l = body ++ last ∧
      (∀ kind ∈ body, traffic kind = true) ∧ (last = [] ∨ last = [.closed] ∨ last = [.failed]) := by
  induction l with
  | nil => exact ⟨[], [], rfl, by simp, .inl rfl⟩
  | cons kind l ih =>
    obtain ⟨u, hu, hr⟩ := h.uncons
    generalize hs : some Kind.stream = s at hu
    cases hu with
    | @mk state kind hv =>
      cases hs
      by_cases hends : ends kind = true
      · have hopened : kind ≠ .opened := by
          rintro rfl
          cases hends
        rw [Kind.after, if_neg hopened, if_pos hends] at hr
        obtain ⟨rfl, -⟩ := run_none hr
        refine ⟨[], [kind], rfl, by simp, .inr ?_⟩
        cases kind <;> simp_all [validKind, ends]
      · have htraffic : traffic kind = true := by
          cases kind <;> simp_all [validKind, ends, traffic]
        have hopened : kind ≠ .opened := by
          rintro rfl
          cases htraffic
        rw [Kind.after, if_neg hopened, if_neg hends] at hr
        obtain ⟨body, last, rfl, hbody, hlast⟩ := ih hr
        refine ⟨kind :: body, last, rfl, ?_, hlast⟩
        intro k hk
        rcases List.mem_cons.1 hk with rfl | hk
        · exact htraffic
        · exact hbody k hk

theorem legal_of_run (hstarts : starts kind = true)
    (h : Run Speak (some (.first kind)) l t) : Legal (some kind) l := by
  cases l with
  | nil => cases kind <;> first | exact .inl rfl | cases hstarts
  | cons x l =>
    obtain ⟨u, hu, hr⟩ := h.uncons
    generalize hs : some (Kind.first kind) = s at hu
    cases hu with
    | @mk state kind' hv =>
      cases hs
      cases kind with
      | checkIdentity =>
        -- a check is answered by one message
        have hx : x = .identityChecked ∨ x = .identityCheckFailed := by
          simpa [Kind.first, validKind] using hv
        rcases hx with rfl | rfl
        · obtain ⟨rfl, -⟩ := Speak.run_none hr
          exact .inr (.inl rfl)
        · obtain ⟨rfl, -⟩ := Speak.run_none hr
          exact .inr (.inr rfl)
      | open_ =>
        have hx : x = .opened ∨ x = .openFailed := by
          simpa [Kind.first, validKind] using hv
        rcases hx with rfl | rfl
        · obtain ⟨body, last, rfl, hbody, hlast⟩ := Speak.run_stream hr
          exact .inr (.inr ⟨body, last, rfl, hbody, hlast⟩)
        · obtain ⟨rfl, -⟩ := Speak.run_none hr
          exact .inr (.inl rfl)
      | _ => cases hstarts

/-! ### Runs of an endpoint -/

/-- What a run handed out for a stream. -/
def emitted (id : ℤ) (tr : List (Call × Outcome)) : List MessageKind :=
  tr.filterMap fun
    | (.nextMessage, .item (some x)) => if x.2.streamId = id then some x.2.kind else none
    | _ => none

/-- The kind of the message with which the peer opened a stream: the first that was accepted. -/
def opener (session : String) (id : ℤ) (tr : List (Call × Outcome)) : Option MessageKind :=
  tr.findSome? fun
    | (.receive x, .done (.ok ())) =>
      if x.2.sessionId = session ∧ x.2.streamId = id ∧ starts x.2.kind = true then some x.2.kind
      else none
    | _ => none

/-- The host waits with a cancellation until no `Opened` of the request is queued, and sends
nothing but an ending on a stream that waits to be cancelled. -/
def Disciplined (m : Mux) : Call → Prop
  | .send request message => (m.send request message).isOk = true →
    ∀ route, m.routes.get? message.streamId = some route → route.cancel.isSome = true →
      ends message.kind = true
  | .cancel request | .finish request => m.cancels request = true →
    ∀ x ∈ m.outbound.attachments, x.1 = request → x.2.kind ≠ .opened
  | _ => True

theorem orderly_of_disciplined {c : Call} (h : Disciplined m c) : Orderly strict m c := by
  cases c <;> first | exact fun _ => h | trivial

theorem obeys_strict (h : m.endpointConfig.isSome = true) : Obeys m strict :=
  ⟨h.symm, fun _ _ => trivial, fun _ _ _ => trivial, fun _ _ _ => ⟨trivial, trivial⟩⟩

theorem highest_move {ρ : Rules} {r r' : Router} {l : Option Mark} (h : Move ρ r l r') :
    r.highest ≤ r'.highest := by
  cases h with
  | start _ _ hnew _ => exact hnew.le
  | hearStart _ _ _ hnew => exact hnew.le
  | _ => exact le_rfl

theorem highest_weak {ρ : Rules} {r r' : Router} {marks : List Mark}
    (h : Weak (Move ρ) r marks r') : r.highest ≤ r'.highest :=
  h.invariant (P := fun t => r.highest ≤ t.highest) (A := fun _ => True)
    (fun _ _ _ _ hle hm => hle.trans (highest_move hm)) (by simp) le_rfl

/-- Only a mark of an item handed out speaks of a stream's output. -/
theorem saidBy_filter (id : ℤ) (marks : List Mark) :
    saidBy id (marks.filter Mark.handed) = saidBy id marks := by
  rw [saidBy, saidBy, List.filterMap_filter]
  refine List.filterMap_congr fun k _ => ?_
  cases k <;> rfl

theorem saidBy_handedBy (id : ℤ) (c : Call) (o : Outcome) :
    saidBy id (handedBy c o) = emitted id [(c, o)] := by
  cases c with
  | nextMessage => rcases o with _ | _ | _ | _ <;> rfl
  | nextAction => rcases o with _ | _ | _ | _ <;> rfl
  | _ => rfl

/-- What a run of an endpoint says of each stream. -/
structure Speaks (session : String) (tr : List (Call × Outcome)) (m : Mux) : Prop where
  begun : Begun m
  side : m.endpointConfig.isSome = true
  named : m.session = session
  spoken : ∃ hist, ∀ id, id ≠ 0 → Spoken m.router id (firstHeard id hist) (saidBy id hist) ∧
    saidBy id hist = emitted id tr ∧
    (firstHeard id hist = opener session id tr ∨ firstHeard id hist = none ∧ id ≤ m.highestId)

/-- How the first start of a stream among the marks of a call and the call's own record agree. -/
theorem firstHeard_call {n : Mux} {c : Call} {o : Outcome} {marks : List Mark} (id : ℤ)
    (hs : Shows m c n o marks) :
    firstHeard id marks = opener m.session id [(c, o)] ∨
      firstHeard id marks = none ∧ id ≤ m.highestId := by
  have hmem : ∀ kind, firstHeard id marks = some kind → ∃ x, .heard x ∈ marks ∧
      x.2.streamId = id ∧ starts x.2.kind = true ∧ x.2.kind = kind := by
    intro kind hk
    obtain ⟨k, hk, hx⟩ := List.exists_of_findSome?_eq_some hk
    cases k with
    | heard x =>
      dsimp only at hx
      split_ifs at hx with hc
      exact ⟨x, hk, hc.1, hc.2, Option.some.inj hx⟩
    | _ => cases hx
  cases hf : firstHeard id marks with
  | some kind =>
    obtain ⟨x, hx, hid, hstarts, rfl⟩ := hmem kind hf
    obtain ⟨rfl, rfl, hsession, -⟩ := hs.heard x hx
    left
    simp [opener, hsession, hid, hstarts]
  | none =>
    cases ho : opener m.session id [(c, o)] with
    | none => exact .inl rfl
    | some kind =>
      refine .inr ⟨rfl, ?_⟩
      obtain ⟨l, hl, hx⟩ := List.exists_of_findSome?_eq_some ho
      obtain rfl := List.mem_singleton.1 hl
      split at hx
      next x heq =>
        cases heq
        split_ifs at hx with hc
        rcases hs.missed x rfl rfl hc.1 hc.2.2 with hheard | hle
        · exfalso
          have hfind := List.findSome?_eq_none_iff.1 hf _ hheard
          simp [hc.2.1, hc.2.2] at hfind
        · exact hc.2.1 ▸ hle
      · cases hx

theorem Speaks.step {session : String} {tr : List (Call × Outcome)} {n : Mux}
    {l : Call × Outcome} (h : Speaks session tr m) (hd : Disciplined m l.1) (hs : Step m l n) :
    Speaks session (tr ++ [l]) n := by
  obtain ⟨c, o⟩ := l
  have hcall : m.call c = (n, o) := hs
  obtain ⟨marks, hw, hshows⟩ :=
    call_moves (obeys_strict h.side) h.begun.rows (orderly_of_disciplined hd)
  have hf : Frame m n := by
    have := Frame.call m c
    rwa [hcall] at this
  rw [hcall] at hw hshows
  obtain ⟨hist, hhist⟩ := h.spoken
  refine ⟨h.begun.step hs, by rw [hf.side, h.side], hf.session.trans h.named,
    hist ++ marks, fun id hid => ?_⟩
  obtain ⟨hspoken, hsaid, hfirst⟩ := hhist id hid
  have hle : m.highestId ≤ n.highestId := highest_weak hw
  refine ⟨hw.follow (P := fun hist r => Spoken r id (firstHeard id hist) (saidBy id hist)) hist
    (fun _ _ _ _ hp hm => spoken_move hid hp hm) hspoken, ?_, ?_⟩
  · rw [saidBy_append, hsaid, ← saidBy_filter id marks, hshows.handed, saidBy_handedBy, emitted,
      emitted, emitted, List.filterMap_append]
  · have hopener : opener session id (tr ++ [(c, o)]) =
        (opener session id tr).or (opener session id [(c, o)]) := List.findSome?_append
    rw [firstHeard_append, hopener]
    have hnew := firstHeard_call id hshows
    rw [h.named] at hnew
    rcases hfirst with hfirst | ⟨hfirst, hidle⟩
    · rw [hfirst]
      cases ho : opener session id tr with
      | some kind => exact .inl rfl
      | none =>
        rw [Option.none_or, Option.none_or]
        exact hnew.imp_right fun hn => ⟨hn.1, hn.2.trans hle⟩
    · -- the id was passed over, so no later message starts it
      right
      refine ⟨?_, hidle.trans hle⟩
      rw [hfirst, Option.none_or]
      by_contra hne
      obtain ⟨kind, hk⟩ := Option.ne_none_iff_exists'.1 hne
      obtain ⟨k, hk, hx⟩ := List.exists_of_findSome?_eq_some hk
      cases k with
      | heard x =>
        dsimp only at hx
        split_ifs at hx with hc
        have := (hshows.heard x hk).2.2.2 hc.2
        omega
      | _ => cases hx

theorem Speaks.new {profile : Profile} {session : String} {k : EndpointConfig} {config : Config}
    (h : endpoint profile session k config = .ok m) : Speaks session [] m := by
  have hbegun := Begun.new h
  obtain ⟨-, rfl⟩ := new_eq_ok h
  refine ⟨hbegun, rfl, rfl, [], fun id _ => ⟨?_, rfl, .inl rfl⟩⟩
  exact ⟨fun kind hk => (by cases hk), fun _ => ⟨rfl, rfl, rfl⟩, fun kind hk => (by cases hk),
    fun s hs => (by cases hs)⟩

theorem starts_of_opener {session : String} {id : ℤ} {tr : List (Call × Outcome)}
    (h : opener session id tr = some kind) : starts kind = true := by
  obtain ⟨l, -, hx⟩ := List.exists_of_findSome?_eq_some h
  split at hx
  · split_ifs at hx with hc
    exact Option.some.inj hx ▸ hc.2.2
  · cases hx

/-- In every run of an endpoint whose host keeps the discipline, what is handed out for a stream
is legal for the peer that opened it. -/
theorem output_legal {profile : Profile} {session : String} {k : EndpointConfig} {config : Config}
    {m₀ m : Mux} {tr : List (Call × Outcome)} (h₀ : endpoint profile session k config = .ok m₀)
    (h : Run (fun m l n => Disciplined m l.1 ∧ Step m l n) m₀ tr m) (id : ℤ) (hid : id ≠ 0) :
    Legal (opener session id tr) (emitted id tr) := by
  have hspeaks : Speaks session tr m := h.invariant (P := Speaks session) (.new h₀)
    fun _ _ _ _ _ hp hs => hp.step hs.1 hs.2
  obtain ⟨hist, hhist⟩ := hspeaks.spoken
  obtain ⟨hspoken, hsaid, hfirst⟩ := hhist id hid
  cases hf : firstHeard id hist with
  | none =>
    have hnil : emitted id tr = [] := by
      rw [← hsaid]
      exact (hspoken.silent hf).1
    rw [hnil]
    cases ho : opener session id tr with
    | none => rfl
    | some kind => exact legal_of_run (starts_of_opener ho) .nil
  | some kind =>
    obtain ⟨t, hrun, -⟩ := hspoken.spoken kind hf
    obtain ⟨u, hrun, -⟩ := hrun.split
    rcases hfirst with hfirst | ⟨hfirst, -⟩
    · rw [← hfirst, hf, ← hsaid]
      exact legal_of_run (starts_of_opener (hfirst ▸ hf)) hrun
    · rw [hf] at hfirst
      cases hfirst

/-! ### Runs within and outside the discipline -/

/-- `Disciplined`, evaluated. -/
def disciplined (m : Mux) : Call → Bool
  | .send request message => !(m.send request message).isOk ||
    (m.routes.get? message.streamId).all fun route => !route.cancel.isSome || ends message.kind
  | .cancel request | .finish request => !m.cancels request ||
    m.outbound.attachments.all fun x => x.1 != request || x.2.kind != .opened
  | _ => true

theorem disciplined_sound {c : Call} (h : disciplined m c = true) : Disciplined m c := by
  have hqueued : ∀ request, disciplined m (.cancel request) = true → m.cancels request = true →
      ∀ x ∈ m.outbound.attachments, x.1 = request → x.2.kind ≠ .opened := by
    intro request h hcancels x hx hreq
    rw [disciplined, hcancels] at h
    simpa [hreq] using List.all_eq_true.1 h x hx
  cases c with
  | send request message =>
    intro hok route hroute hcancel
    simpa only [disciplined, hok, hroute, Option.all_some, hcancel, Bool.not_true, Bool.false_or]
      using h
  | cancel request => exact hqueued request h
  | finish request => exact hqueued request h
  | _ => trivial

/-- A stream cancelled after its `Opened` was handed out. -/
def politeCancel : List Call :=
  upToOpen ++ [.send "r" (openedMessage 1), .nextMessage, .cancel "r", .nextMessage]

theorem politeCancel_run : Run (fun m l n => Disciplined m l.1 ∧ Step m l n) smallEndpoint
    (replay smallEndpoint politeCancel).1 (replay smallEndpoint politeCancel).2 := by
  have hallowed : allowed disciplined smallEndpoint politeCancel = true := by decide +kernel
  have hrun := run_of_allowed hallowed
  exact hrun.mono fun _ _ _ h => ⟨disciplined_sound h.1, h.2⟩

theorem output_legal_cancelled :
    emitted 1 (replay smallEndpoint politeCancel).1 = [.opened, .failed] ∧
      Legal (opener "s" 1 (replay smallEndpoint politeCancel).1)
        (emitted 1 (replay smallEndpoint politeCancel).1) := by
  refine ⟨by decide +kernel, ?_⟩
  exact output_legal smallEndpoint_new politeCancel_run 1 (by decide)

/-- A queued `Opened` that a cancellation drops, an `Opened` sent after the cancellation, and
traffic sent after it. -/
def rudeCancels : List (List Call × List MessageKind) :=
  [(upToOpen ++ [.send "r" (openedMessage 1), .cancel "r", .nextMessage], [.failed]),
    (upToOpen ++ [.cancel "r", .send "r" (openedMessage 1), .nextMessage, .nextMessage],
      [.failed, .opened]),
    (upToOpen ++ [.send "r" (openedMessage 1), .nextMessage, .cancel "r",
      .send "r" (windowMessage 1), .nextMessage, .nextMessage], [.opened, .failed, .window])]

theorem not_legal_failed_first (l : List MessageKind) : ¬ Legal (some .open_) (.failed :: l) := by
  rintro (h | h | ⟨body, last, h, -⟩) <;> cases h

theorem not_legal_after_failed : ¬ Legal (some .open_) [.opened, .failed, .window] := by
  rintro (h | h | ⟨body, last, h, hbody, hlast⟩)
  · cases h
  · cases h
  · cases body with
    | nil =>
      simp only [List.nil_append, List.cons.injEq, true_and] at h
      rcases hlast with rfl | rfl | rfl <;> cases h
    | cons kind body =>
      simp only [List.cons_append, List.cons.injEq, true_and] at h
      obtain ⟨rfl, -⟩ := h
      cases hbody .failed List.mem_cons_self

/-- Without the discipline the endpoint hands out `Failed` before, or instead of, the `Opened` of
its stream, or traffic after `Failed`. -/
theorem cancel_overtakes_opened :
    endpoint .stable "s" sshEndpoint smallConfig = .ok smallEndpoint ∧
      ∀ p ∈ rudeCancels, ∃ tr m, Run Step smallEndpoint tr m ∧ tr.map (·.1) = p.1 ∧
        opener "s" 1 tr = some .open_ ∧ emitted 1 tr = p.2 ∧ ¬ Legal (some .open_) p.2 := by
  refine ⟨smallEndpoint_new, ?_⟩
  have hmap : ∀ (cs : List Call) (m : Mux), (replay m cs).1.map (·.1) = cs := by
    intro cs
    induction cs with
    | nil => exact fun _ => rfl
    | cons c cs ih => exact fun m => congrArg (c :: ·) (ih _)
  intro p hp
  refine ⟨_, _, run_replay smallEndpoint p.1, hmap _ _, ?_⟩
  rcases List.mem_cons.1 hp with rfl | hp
  · exact ⟨by decide +kernel, by decide +kernel, not_legal_failed_first _⟩
  rcases List.mem_cons.1 hp with rfl | hp
  · exact ⟨by decide +kernel, by decide +kernel, not_legal_failed_first _⟩
  · rw [List.mem_singleton.1 hp]
    exact ⟨by decide +kernel, by decide +kernel, not_legal_after_failed⟩

end GwzTransport.Mux
