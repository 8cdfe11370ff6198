import GwzTransport.Mux.Lane
import GwzTransport.Mux.Output

/-!
# The ledger of streams

A stream is routed once, and ends with one terminal message.  The terminal is produced in several
places: sent by the host, heard from the peer, taken from the slot of a cancelled stream, made by
a deadline.  It then waits in one of the queues until it is handed out, and `cancel` filters both
queues.

`Lane.balance` adds up the terminals of a stream that were handed out, those that still wait, and
the route itself.  Every move but the end of the session keeps it (`Lane.balance_move`), so a
routed stream has balance one from then on.
-/

namespace GwzTransport.Mux

open Protocol Binding Transition

variable {ρ : Rules} {L L' : Lane} {hist : List Mark} {l : Option Mark}

/-! ### The balance of a stream -/

/-- The endings in a queue. -/
def endings (items : List Attachment) : ℕ := items.countP fun x => ends x.2.kind

/-- The endings that were handed out. -/
def handedEnds (marks : List Mark) : ℕ :=
  marks.countP fun
    | .message x | .action x => ends x.2.kind
    | _ => false

/-- The kinds of the actions that were handed out. -/
def performedBy (marks : List Mark) : List MessageKind :=
  marks.filterMap fun
    | .action x => some x.2.kind
    | _ => none

def present (s : Option Stream) : ℕ := if s.isSome then 1 else 0

theorem present_some (s : Stream) : present (some s) = 1 := rfl

def Lane.balance (L : Lane) (hist : List Mark) : ℕ :=
  handedEnds hist + endings L.outbound + endings L.actions + present L.route

theorem endings_append (items : List Attachment) (item : Attachment) :
    endings (items ++ [item]) = endings items + if ends item.2.kind then 1 else 0 := by
  simp [endings, List.countP_append, List.countP_cons]

theorem endings_cons (items : List Attachment) (item : Attachment) :
    endings (item :: items) = endings items + if ends item.2.kind then 1 else 0 := by
  simp [endings, List.countP_cons]

theorem endings_filter {keep : Attachment → Bool} (items : List Attachment)
    (h : ∀ x ∈ items, ends x.2.kind = true → keep x = true) :
    endings (items.filter keep) = endings items := by
  rw [endings, endings, List.countP_filter]
  refine List.countP_congr fun x hx => ?_
  rw [Bool.and_eq_true]
  exact ⟨And.left, fun hc => ⟨hc, h x hx hc⟩⟩

theorem handedEnds_append (hist marks : List Mark) :
    handedEnds (hist ++ marks) = handedEnds hist + handedEnds marks := List.countP_append

theorem performedBy_append (hist marks : List Mark) :
    performedBy (hist ++ marks) = performedBy hist ++ performedBy marks := List.filterMap_append

theorem handedEnds_message (item : Attachment) :
    handedEnds [.message item] = if ends item.2.kind then 1 else 0 := by
  simp [handedEnds, List.countP_cons]

theorem handedEnds_action (item : Attachment) :
    handedEnds [.action item] = if ends item.2.kind then 1 else 0 := by
  simp [handedEnds, List.countP_cons]

/-- A message takes the route away exactly when it ends the stream. -/
theorem present_after (s : Stream) (kind : MessageKind) :
    present (s.after kind) + (if ends kind then 1 else 0) = 1 := by
  cases kind <;> rfl

theorem ends_of_after {s : Stream} {kind : MessageKind} (h : s.after kind ≠ none) :
    ends kind = false := by
  cases kind <;> first | rfl | exact absurd rfl h

theorem request_of_after {s s' : Stream} {kind : MessageKind} (h : s.after kind = some s') :
    s'.request = s.request := by
  obtain ⟨state, -, rfl⟩ := Option.map_eq_some_iff.1 h
  rfl

variable {m : Mux} {request : String}

theorem kept_of_ends {x : Attachment} (h : ends x.2.kind = true) :
    Queue.kept request x = true := by
  simp [Queue.kept, terminal_of_ends h]

/-- Every move but the end of the session keeps the balance of a stream whose id was reached. -/
theorem Lane.balance_move (hist : List Mark) (hreached : L.reached = true) (hl : l ≠ some .closed)
    (hm : Lane.Move ρ L l L') : L'.balance (hist ++ l.toList) = L.balance hist := by
  unfold balance
  rw [handedEnds_append]
  cases hm with
  | idle => rfl
  | pass hno => simp [hreached] at hno
  | start _ _ hno _ => simp [hreached] at hno
  | hearStart _ _ hno => simp [hreached] at hno
  | @send item s hroute _ _ _ _ =>
    have hafter := present_after s item.2.kind
    show _ + endings (L.outbound ++ [item]) + endings L.actions + present (s.after item.2.kind) = _
    rw [endings_append, hroute, present_some]
    change _ + 0 + _ + _ + _ = _
    omega
  | @hear item s hroute _ _ =>
    have hafter := present_after s item.2.kind
    show _ + endings L.outbound + endings (L.actions ++ [item]) + present (s.after item.2.kind) = _
    rw [endings_append, hroute, present_some]
    change _ + 0 + _ + _ + _ = _
    omega
  | @notice item s _ hroute _ hkind =>
    show _ + _ + endings (L.actions ++ [item]) + present (some s) = _
    rw [endings_append, hkind, hroute]
    rfl
  | @expire item s _ hroute _ hkind =>
    show _ + endings L.outbound + endings (L.actions ++ [item]) + present none = _
    rw [endings_append, hkind, ends_ending, hroute, present_some, if_pos rfl]
    change _ + 0 + _ + _ + 0 = _
    omega
  | @handOut item rest hout =>
    rw [hout, endings_cons, Option.toList_some, handedEnds_message]
    dsimp only
    omega
  | @handAction item rest hact =>
    rw [hact, endings_cons, Option.toList_some, handedEnds_action]
    dsimp only
    omega
  | @ask item s _ hroute _ _ hkind _ _ =>
    rw [Option.toList_some, handedEnds_message, hkind, hroute]
    rfl
  | @giveUp item s _ hroute _ _ hkind _ =>
    rw [Option.toList_some, handedEnds_message, hkind, ends_ending, hroute]
    rw [present_some, if_pos rfl]
    change _ + 1 + endings L.outbound + endings L.actions + 0 = _
    omega
  | discard request _ =>
    rw [endings_filter _ fun x _ hx => kept_of_ends hx]
    rfl
  | dropActions request =>
    rw [endings_filter _ fun x _ hx => by simp [terminal_of_ends hx]]
    rfl
  | mark request _ =>
    show _ + present (L.route.map _) = _
    rw [present, Option.isSome_map]
    rfl
  | close => exact absurd rfl hl

/-! ### The account of a stream -/

/-- What is known of a stream along a run. -/
structure Lane.Account (L : Lane) (hist : List Mark) : Prop where
  fresh : L.reached = false → L.route = none ∧ L.outbound = [] ∧ L.actions = [] ∧
    handedEnds hist = 0 ∧ performedBy hist = []
  once : L.balance hist ≤ 1
  same : ∀ s, L.route = some s → ∀ x ∈ L.outbound ++ L.actions, x.1 = s.request
  /-- An action that another one follows is no ending. -/
  order : (performedBy hist ++ L.actions.map (·.2.kind)).Pairwise fun kind _ => ends kind = false
  going : L.route ≠ none → ∀ kind ∈ performedBy hist ++ L.actions.map (·.2.kind),
    ends kind = false

namespace Lane.Account

/-- A route at most, and no ending among its actions. -/
theorem live (h : L.Account hist) {s : Stream} (hs : L.route = some s) :
    ∀ kind ∈ performedBy hist ++ L.actions.map (·.2.kind), ends kind = false :=
  h.going (by simp [hs])

/-- An action added behind others that end nothing. -/
theorem order_snoc {kinds : List MessageKind} (h : kinds.Pairwise fun kind _ => ends kind = false)
    (hlive : ∀ kind ∈ kinds, ends kind = false) (kind : MessageKind) :
    (kinds ++ [kind]).Pairwise fun kind _ => ends kind = false := by
  refine List.pairwise_append.2 ⟨h, List.pairwise_singleton _ _, fun k hk _ _ => hlive k hk⟩

/-- The account after an item was queued for the host of a live stream. -/
theorem act (h : L.Account hist) {s : Stream} {route : Option Stream} {item : Attachment}
    (hs : L.route = some s) (hrequest : s.request = item.1)
    (hroute : ∀ s', route = some s' → s'.request = s.request)
    (hends : route ≠ none → ends item.2.kind = false) {marks : List Mark}
    (hquiet : handedEnds marks = 0 ∧ performedBy marks = [])
    (hone : (L.act route item).balance (hist ++ marks) ≤ 1) :
    (L.act route item).Account (hist ++ marks) := by
  have hkinds : performedBy (hist ++ marks) ++ (L.actions ++ [item]).map (·.2.kind) =
      performedBy hist ++ L.actions.map (·.2.kind) ++ [item.2.kind] := by
    rw [performedBy_append, hquiet.2]
    simp
  refine ⟨fun hno => ?_, hone, fun s' hs' x hx => ?_, ?_, fun hne kind hk => ?_⟩
  · rw [(h.fresh hno).1] at hs
    cases hs
  · have hx : x ∈ L.outbound ++ L.actions ∨ x = item := by
      have : x ∈ L.outbound ++ (L.actions ++ [item]) := hx
      rwa [← List.append_assoc, List.mem_append, List.mem_singleton] at this
    rw [hroute s' hs']
    rcases hx with hx | rfl
    · exact h.same s hs x hx
    · exact hrequest.symm
  · show (performedBy (hist ++ marks) ++ (L.actions ++ [item]).map (·.2.kind)).Pairwise _
    rw [hkinds]
    exact order_snoc h.order (h.live hs) _
  · have hk : kind ∈ performedBy (hist ++ marks) ++ (L.actions ++ [item]).map (·.2.kind) := hk
    rw [hkinds] at hk
    rcases List.mem_append.1 hk with hk | hk
    · exact h.live hs kind hk
    · rw [List.mem_singleton.1 hk]
      exact hends hne

/-- The account after a change that adds no action and no route. -/
theorem keep (h : L.Account hist) {marks : List Mark} (hreached : L'.reached = L.reached)
    (hfresh : L.reached = false →
      L'.route = none ∧ L'.outbound = [] ∧ L'.actions = [] ∧ handedEnds marks = 0)
    (hsame : ∀ s', L'.route = some s' → ∀ x ∈ L'.outbound ++ L'.actions, x.1 = s'.request)
    (hkinds : (performedBy (hist ++ marks) ++ L'.actions.map (·.2.kind)).Sublist
      (performedBy hist ++ L.actions.map (·.2.kind)))
    (hroute : L'.route ≠ none → L.route ≠ none)
    (hone : L.reached = true → L'.balance (hist ++ marks) ≤ 1) : L'.Account (hist ++ marks) := by
  refine ⟨fun hno => ?_, ?_, hsame, h.order.sublist hkinds,
    fun hne kind hk => h.going (hroute hne) kind (hkinds.subset hk)⟩
  · rw [hreached] at hno
    obtain ⟨hnone, hout, hact, hquiet⟩ := hfresh hno
    obtain ⟨-, -, hact₀, hhanded, hperformed⟩ := h.fresh hno
    refine ⟨hnone, hout, hact, by rw [handedEnds_append, hhanded, hquiet], ?_⟩
    rw [hperformed, hact₀, hact] at hkinds
    simpa using hkinds
  · cases hr : L.reached with
    | true => exact hone hr
    | false =>
      obtain ⟨hnone, hout, hact, hquiet⟩ := hfresh hr
      rw [balance, handedEnds_append, (h.fresh hr).2.2.2.1, hquiet, hnone, hout, hact]
      exact Nat.zero_le 1

/-- The account after a change that adds nothing at all. -/
theorem shrink (h : L.Account hist) {marks : List Mark} (hreached : L'.reached = L.reached)
    (hroute : ∀ s', L'.route = some s' → ∃ s, L.route = some s ∧ s'.request = s.request)
    (hitems : ∀ x ∈ L'.outbound ++ L'.actions, x ∈ L.outbound ++ L.actions)
    (hkinds : (performedBy (hist ++ marks) ++ L'.actions.map (·.2.kind)).Sublist
      (performedBy hist ++ L.actions.map (·.2.kind)))
    (hquiet : L.reached = false → handedEnds marks = 0)
    (hone : L.reached = true → L'.balance (hist ++ marks) ≤ 1) : L'.Account (hist ++ marks) := by
  have hnone : L.route = none → L'.route = none := fun hnone => by
    cases hr : L'.route with
    | none => rfl
    | some s' =>
      obtain ⟨s, hs, -⟩ := hroute s' hr
      rw [hnone] at hs
      cases hs
  refine h.keep hreached (fun hno => ?_) (fun s' hs' x hx => ?_) hkinds (mt hnone) hone
  · obtain ⟨hr, hout, hact, -⟩ := h.fresh hno
    have hempty : L'.outbound ++ L'.actions = [] :=
      List.eq_nil_iff_forall_not_mem.2 fun x hx => by simpa [hout, hact] using hitems x hx
    obtain ⟨hout', hact'⟩ := List.append_eq_nil_iff.1 hempty
    exact ⟨hnone hr, hout', hact', hquiet hno⟩
  · obtain ⟨s, hs, hrequest⟩ := hroute s' hs'
    rw [hrequest]
    exact h.same s hs x (hitems x hx)

/-- The account of a stream that starts. -/
theorem start (h : L.Account hist) (hreached : L.reached = false) {item : Attachment}
    (hstarts : starts item.2.kind = true) (hout : L'.outbound ++ L'.actions = [item])
    (hroute : L'.route = some (.first item)) (hr : L'.reached = true) {marks : List Mark}
    (hquiet : handedEnds marks = 0 ∧ performedBy marks = []) : L'.Account (hist ++ marks) := by
  obtain ⟨-, -, -, hhanded, hperformed⟩ := h.fresh hreached
  have hends : ends item.2.kind = false := by
    cases hk : item.2.kind <;> rw [hk] at hstarts <;> first | rfl | cases hstarts
  have hperformed' : performedBy (hist ++ marks) = [] := by
    rw [performedBy_append, hperformed, hquiet.2]
    rfl
  have hactions : ∀ kind ∈ L'.actions.map (·.2.kind), ends kind = false := by
    intro kind hk
    obtain ⟨x, hx, rfl⟩ := List.mem_map.1 hk
    have : x ∈ L'.outbound ++ L'.actions := List.mem_append_right _ hx
    rw [hout, List.mem_singleton] at this
    rw [this]
    exact hends
  have hzero : endings (L'.outbound ++ L'.actions) = 0 := by
    rw [hout]
    simp [endings, hends]
  refine ⟨fun hno => by simp [hr] at hno, ?_, fun s hs x hx => ?_, ?_, fun _ => ?_⟩
  · have hsum : endings (L'.outbound ++ L'.actions) = endings L'.outbound + endings L'.actions :=
      List.countP_append
    have hhanded' := handedEnds_append hist marks
    unfold balance
    rw [hroute, present_some]
    omega
  · rw [hout, List.mem_singleton] at hx
    rw [hroute] at hs
    cases hs
    rw [hx]
    rfl
  · rw [hperformed', List.nil_append]
    exact List.Pairwise.imp_of_mem (fun hk _ _ => hactions _ hk)
      (List.pairwise_of_forall fun _ _ => trivial)
  · rw [hperformed', List.nil_append]
    exact hactions

end Lane.Account

/-- Every move keeps the account of a stream. -/
theorem Lane.account_move (h : L.Account hist) (hm : Lane.Move ρ L l L') :
    L'.Account (hist ++ l.toList) := by
  have hreached : ∀ {s}, L.route = some s → ¬ L.reached = false := by
    intro s hs hr
    rw [(h.fresh hr).1] at hs
    cases hs
  have hone : l ≠ some .closed → L.reached = true → L'.balance (hist ++ l.toList) ≤ 1 :=
    fun hl hr => (balance_move hist hr hl hm).trans_le h.once
  have hlive : ∀ {s}, L.route = some s → l ≠ some .closed →
      L'.balance (hist ++ l.toList) ≤ 1 := fun hs hl => hone hl (by simpa using hreached hs)
  -- a history that grows by no action
  have hkinds : ∀ {marks}, performedBy marks = [] →
      (performedBy (hist ++ marks) ++ L.actions.map (·.2.kind)).Sublist
        (performedBy hist ++ L.actions.map (·.2.kind)) := by
    intro marks hmarks
    rw [performedBy_append, hmarks, List.append_nil]
  cases hm with
  | idle => simpa using h
  | pass hno =>
    obtain ⟨hroute, hout, hact, hhanded, hperformed⟩ := h.fresh hno
    refine ⟨fun hc => (by cases hc), ?_, by simp [hroute], ?_, by simp [hroute]⟩
    · simpa [balance] using h.once
    · simpa using h.order
  | @start item _ hstarts hno _ =>
    obtain ⟨-, hout, hact, -⟩ := h.fresh hno
    refine h.start hno hstarts ?_ rfl rfl ⟨rfl, rfl⟩
    show (L.outbound ++ [item]) ++ L.actions = _
    rw [hout, hact]
    rfl
  | @hearStart item _ hstarts hno =>
    obtain ⟨-, hout, hact, -⟩ := h.fresh hno
    refine h.start hno hstarts ?_ rfl rfl ⟨rfl, rfl⟩
    show L.outbound ++ (L.actions ++ [item]) = _
    rw [hout, hact]
    rfl
  | @send item s hroute hrequest _ _ _ =>
    refine h.keep rfl (fun hno => absurd hno (hreached hroute)) (fun s' hs' x hx => ?_)
      (hkinds rfl) (fun _ => by simp [hroute]) (hone (by simp))
    have hx : x ∈ L.outbound ++ L.actions ∨ x = item := by
      have : x ∈ (L.outbound ++ [item]) ++ L.actions := hx
      simp only [List.mem_append, List.mem_singleton] at this ⊢
      tauto
    rw [request_of_after hs']
    rcases hx with hx | rfl
    · exact h.same s hroute x hx
    · exact hrequest.symm
  | @hear item s hroute hrequest _ =>
    exact h.act hroute hrequest (fun s' hs' => request_of_after hs') ends_of_after ⟨rfl, rfl⟩
      (hlive hroute (by simp))
  | @notice item s _ hroute hrequest hkind =>
    refine h.act hroute hrequest (fun s' hs' => by cases hs'; rfl) (fun _ => ?_) ⟨rfl, rfl⟩
      (hlive hroute (by simp))
    rw [hkind]
    rfl
  | @expire item s _ hroute hrequest _ =>
    exact h.act hroute hrequest (fun s' hs' => by cases hs') (fun hne => absurd rfl hne) ⟨rfl, rfl⟩
      (hlive hroute (by simp))
  | @handOut item rest hout =>
    refine h.shrink rfl (fun s hs => ⟨s, hs, rfl⟩) (fun x hx => ?_) (hkinds rfl) (fun hno => ?_)
      (hone (by simp))
    · rw [hout]
      exact List.mem_cons_of_mem _ hx
    · rw [(h.fresh hno).2.1] at hout
      cases hout
  | @handAction item rest hact =>
    refine h.shrink rfl (fun s hs => ⟨s, hs, rfl⟩) (fun x hx => ?_) ?_ (fun hno => ?_)
      (hone (by simp))
    · rw [hact]
      rcases List.mem_append.1 hx with hx | hx
      · exact List.mem_append_left _ hx
      · exact List.mem_append_right _ (List.mem_cons_of_mem _ hx)
    · rw [performedBy_append, hact]
      simp [performedBy]
    · rw [(h.fresh hno).2.2.1] at hact
      cases hact
  | @ask item s _ hroute _ _ hkind _ _ =>
    refine h.shrink rfl (fun s' hs' => ⟨s, hroute, ?_⟩) (fun _ hx => hx) (hkinds rfl)
      (fun hno => absurd hno (hreached hroute)) (hone (by simp))
    cases hs'
    rfl
  | @giveUp item s _ hroute _ _ _ _ =>
    exact h.shrink rfl (fun s' hs' => by cases hs') (fun _ hx => hx) (hkinds rfl)
      (fun hno => absurd hno (hreached hroute)) (hone (by simp))
  | discard request _ =>
    refine h.shrink rfl (fun s hs => ⟨s, hs, rfl⟩) (fun x hx => ?_) (hkinds rfl) (fun _ => rfl)
      (hone (by simp))
    rcases List.mem_append.1 hx with hx | hx
    · exact List.mem_append_left _ (List.mem_filter.1 hx).1
    · exact List.mem_append_right _ hx
  | dropActions request =>
    have hsub : (L.actions.filter fun x => x.1 != request || terminal x.2.kind).Sublist L.actions :=
      List.filter_sublist
    refine h.shrink rfl (fun s hs => ⟨s, hs, rfl⟩) (fun x hx => ?_) ?_ (fun _ => rfl)
      (hone (by simp))
    · rcases List.mem_append.1 hx with hx | hx
      · exact List.mem_append_left _ hx
      · exact List.mem_append_right _ (hsub.subset hx)
    · rw [Option.toList_none, List.append_nil]
      exact (List.Sublist.refl _).append (hsub.map _)
  | mark request _ =>
    refine h.shrink rfl (fun s hs => ?_) (fun _ hx => hx) (hkinds rfl) (fun _ => rfl)
      (hone (by simp))
    obtain ⟨s', hs', rfl⟩ := Option.map_eq_some_iff.1 hs
    refine ⟨s', hs', ?_⟩
    split_ifs <;> rfl
  | close =>
    refine h.shrink rfl (fun s hs => by cases hs) (fun x hx => by cases hx) ?_ (fun _ => rfl)
      fun _ => ?_
    · rw [performedBy_append]
      simp [performedBy]
    · have honce := h.once
      unfold balance at honce ⊢
      rw [handedEnds_append]
      change _ + 0 + 0 + 0 + 0 ≤ 1
      omega

/-- An item for the host, among the items of a lane. -/
theorem items_act {item : Attachment} {route : Option Stream}
    (h : ∀ x ∈ L.outbound ++ L.actions, x.1 = request) (hitem : item.1 = request) :
    ∀ x ∈ (L.act route item).outbound ++ (L.act route item).actions, x.1 = request := by
  intro x hx
  have hx : x ∈ L.outbound ++ (L.actions ++ [item]) := hx
  rw [← List.append_assoc, List.mem_append, List.mem_singleton] at hx
  rcases hx with hx | rfl
  · exact h x hx
  · exact hitem

/-- What is known of a stream once it was routed for a request. -/
structure Lane.Settled (request : String) (L : Lane) (hist : List Mark) : Prop where
  reached : L.reached = true
  route : ∀ s, L.route = some s → s.request = request
  items : ∀ x ∈ L.outbound ++ L.actions, x.1 = request
  balance : .closed ∈ hist ∨ L.balance hist = 1

theorem Lane.Account.settled (h : L.Account hist) {s : Stream} (hs : L.route = some s) :
    L.Settled s.request hist := by
  refine ⟨?_, fun s' hs' => ?_, h.same s hs, .inr ?_⟩
  · cases hr : L.reached with
    | true => rfl
    | false =>
      rw [(h.fresh hr).1] at hs
      cases hs
  · rw [hs] at hs'
    cases hs'
    rfl
  · have honce := h.once
    unfold balance at honce ⊢
    rw [hs, present_some] at honce ⊢
    omega

theorem Lane.settled_move (h : L.Settled request hist)
    (hm : Lane.Move ρ L l L') : L'.Settled request (hist ++ l.toList) := by
  have hbalance : .closed ∈ hist ++ l.toList ∨ L'.balance (hist ++ l.toList) = 1 := by
    by_cases hl : l = some .closed
    · exact .inl (by simp [hl])
    · rw [balance_move hist h.reached hl hm]
      exact h.balance.imp_left (List.mem_append_left _)
  have hitem : ∀ {s : Stream} {item : Attachment}, L.route = some s → s.request = item.1 →
      item.1 = request := fun hs hrequest => hrequest.symm.trans (h.route _ hs)
  cases hm with
  | idle => exact ⟨h.reached, h.route, h.items, hbalance⟩
  | pass hno => simp [h.reached] at hno
  | start _ _ hno _ => simp [h.reached] at hno
  | hearStart _ _ hno => simp [h.reached] at hno
  | @send item s hroute hrequest _ _ _ =>
    refine ⟨h.reached, fun s' hs' => (request_of_after hs').trans (h.route s hroute), ?_, hbalance⟩
    intro x hx
    have hx : x ∈ (L.outbound ++ [item]) ++ L.actions := hx
    simp only [List.mem_append, List.mem_singleton] at hx
    rcases hx with (hx | rfl) | hx
    · exact h.items x (List.mem_append_left _ hx)
    · exact hitem hroute hrequest
    · exact h.items x (List.mem_append_right _ hx)
  | @hear item s hroute hrequest _ =>
    refine ⟨h.reached, fun s' hs' => (request_of_after hs').trans (h.route s hroute), ?_, hbalance⟩
    exact items_act h.items (hitem hroute hrequest)
  | @notice item s _ hroute hrequest _ =>
    refine ⟨h.reached, fun s' hs' => ?_, items_act h.items (hitem hroute hrequest), hbalance⟩
    cases hs'
    exact h.route s hroute
  | @expire item s _ hroute hrequest _ =>
    exact ⟨h.reached, fun s' hs' => (by cases hs'), items_act h.items (hitem hroute hrequest),
      hbalance⟩
  | @handOut item rest hout =>
    refine ⟨h.reached, h.route, fun x hx => h.items x ?_, hbalance⟩
    rw [hout]
    exact List.mem_cons_of_mem _ hx
  | @handAction item rest hact =>
    refine ⟨h.reached, h.route, fun x hx => h.items x ?_, hbalance⟩
    rw [hact]
    rcases List.mem_append.1 hx with hx | hx
    · exact List.mem_append_left _ hx
    · exact List.mem_append_right _ (List.mem_cons_of_mem _ hx)
  | @ask item s _ hroute _ _ _ _ _ =>
    refine ⟨h.reached, fun s' hs' => ?_, h.items, hbalance⟩
    cases hs'
    exact h.route s hroute
  | giveUp _ _ _ _ _ _ => exact ⟨h.reached, fun s' hs' => (by cases hs'), h.items, hbalance⟩
  | discard request' _ =>
    refine ⟨h.reached, h.route, fun x hx => h.items x ?_, hbalance⟩
    exact ((List.filter_sublist (p := Queue.kept request')).append (.refl _)).subset hx
  | dropActions request' =>
    refine ⟨h.reached, h.route, fun x hx => h.items x ?_, hbalance⟩
    exact ((List.Sublist.refl _).append List.filter_sublist).subset hx
  | mark request' _ =>
    refine ⟨h.reached, fun s hs => ?_, h.items, hbalance⟩
    obtain ⟨s', hs', rfl⟩ := Option.map_eq_some_iff.1 hs
    split_ifs
    · exact h.route s' hs'
    · exact h.route s' hs'
  | close => exact ⟨h.reached, fun s hs => (by cases hs), fun x hx => (by cases hx), hbalance⟩

/-! ### Stream ids are positive -/

/-- Streams have positive ids, and so have the items for the host. -/
structure Positive (r : Router) (hist : List Mark) : Prop where
  highest : 0 ≤ r.highest
  routes : ∀ id, r.routes id ≠ none → 0 < id
  actions : ∀ x ∈ r.actions, 0 < x.2.streamId
  handed : ∀ x, .action x ∈ hist → 0 < x.2.streamId

theorem positive_move {r r' : Router} (h : Positive r hist) (hm : Move ρ r l r') :
    Positive r' (hist ++ l.toList) := by
  have hsnoc : ∀ {item : Attachment}, 0 < item.2.streamId →
      ∀ x ∈ r.actions ++ [item], 0 < x.2.streamId := by
    intro item hitem x hx
    rcases List.mem_append.1 hx with hx | hx
    · exact h.actions x hx
    · exact List.mem_singleton.1 hx ▸ hitem
  have hupdate : ∀ {id' : ℤ} {s : Option Stream}, 0 < id' → ∀ id,
      Function.update r.routes id' s id ≠ none → 0 < id := by
    intro id' s hpos id hid
    by_cases hsame : id = id'
    · exact hsame ▸ hpos
    · rw [Function.update_of_ne hsame] at hid
      exact h.routes id hid
  have hquiet : (∀ x, l ≠ some (.action x)) → ∀ x, .action x ∈ hist ++ l.toList →
      0 < x.2.streamId := by
    intro hl x hx
    rcases List.mem_append.1 hx with hx | hx
    · exact h.handed x hx
    · exact absurd (Option.mem_toList.1 hx) (hl x)
  have hroutes : ∀ {item : Attachment} {s : Stream}, r.routes item.2.streamId = some s →
      0 < item.2.streamId := fun hs => h.routes _ (by simp [hs])
  cases hm with
  | register _ _ => exact ⟨h.highest, h.routes, h.actions, hquiet (by simp)⟩
  | start _ _ hnew _ =>
    have hpos := h.highest.trans_lt hnew
    exact ⟨hpos.le, hupdate hpos, h.actions, hquiet (by simp)⟩
  | hearStart _ _ _ hnew =>
    have hpos := h.highest.trans_lt hnew
    exact ⟨hpos.le, hupdate hpos, hsnoc hpos, hquiet (by simp)⟩
  | send hs _ _ _ _ => exact ⟨h.highest, hupdate (hroutes hs), h.actions, hquiet (by simp)⟩
  | hear hs _ _ => exact ⟨h.highest, hupdate (hroutes hs), hsnoc (hroutes hs), hquiet (by simp)⟩
  | notice _ hs _ _ => exact ⟨h.highest, h.routes, hsnoc (hroutes hs), hquiet (by simp)⟩
  | expire _ hs _ _ =>
    exact ⟨h.highest, hupdate (hroutes hs), hsnoc (hroutes hs), hquiet (by simp)⟩
  | control _ => exact ⟨h.highest, h.routes, h.actions, hquiet (by simp)⟩
  | handOut _ => exact ⟨h.highest, h.routes, h.actions, hquiet (by simp)⟩
  | @handAction item rest hact =>
    have hitem : ∀ x ∈ item :: rest, 0 < x.2.streamId := hact ▸ h.actions
    refine ⟨h.highest, h.routes, fun x hx => hitem x (List.mem_cons_of_mem _ hx), fun x hx => ?_⟩
    rcases List.mem_append.1 hx with hx | hx
    · exact h.handed x hx
    · cases List.mem_singleton.1 hx
      exact hitem item List.mem_cons_self
  | ask _ hs _ _ _ _ _ => exact ⟨h.highest, hupdate (hroutes hs), h.actions, hquiet (by simp)⟩
  | giveUp _ hs _ _ _ _ => exact ⟨h.highest, hupdate (hroutes hs), h.actions, hquiet (by simp)⟩
  | discard _ _ => exact ⟨h.highest, h.routes, h.actions, hquiet (by simp)⟩
  | dropActions _ =>
    exact ⟨h.highest, h.routes, fun x hx => h.actions x (List.mem_filter.1 hx).1, hquiet (by simp)⟩
  | mark _ _ =>
    refine ⟨h.highest, fun id hid => h.routes id fun hnone => hid ?_, h.actions, hquiet (by simp)⟩
    simp [Router.mark, hnone]
  | close =>
    exact ⟨h.highest, fun id hid => absurd rfl hid, by simp [Router.closed], hquiet (by simp)⟩

/-! ### Runs of a multiplexer -/

/-- The rules of a host that keeps to nothing. -/
def free (endpoint : Bool) : Rules where
  endpoint := endpoint
  valid := fun _ _ => True
  late := fun _ => True
  tidy := False
  late_of_ends := fun _ => trivial

theorem obeys_free (m : Mux) : Obeys m (free m.endpointConfig.isSome) :=
  ⟨rfl, fun _ _ => trivial, fun _ _ _ => trivial, fun _ _ _ => ⟨trivial, trivial⟩⟩

theorem orderly_free {side : Bool} (c : Call) : Orderly (free side) m c := by
  cases c with
  | send _ _ => exact fun _ _ _ _ _ => trivial
  | cancel _ => exact fun h => h.elim
  | finish _ => exact fun h => h.elim
  | _ => trivial

/-- Every run of a multiplexer is a run of moves that hand out what the calls returned. -/
theorem run_moves {n : Mux} {tr : List (Call × Outcome)} (hb : Begun m) (h : Run Step m tr n) :
    Begun n ∧ n.endpointConfig.isSome = m.endpointConfig.isSome ∧
    ∃ marks, Weak (Move (free m.endpointConfig.isSome)) m.router marks n.router ∧
      marks.filter Mark.handed = tr.flatMap (fun l => handedBy l.1 l.2) ∧
      (.closed ∈ marks ∨ m.phase = .closed → n.phase = .closed) := by
  induction h with
  | nil => exact ⟨hb, rfl, [], .refl _, rfl, by simp⟩
  | @snoc tr k n l _ hs ih =>
    obtain ⟨hk, hside, marks, hw, hhanded, hclosed⟩ := ih
    have hcall : k.call l.1 = (n, l.2) := hs
    have hf : Frame k n := by
      have := Frame.call k l.1
      rwa [hcall] at this
    obtain ⟨new, hnew, hshows⟩ := call_moves (obeys_free k) hk.rows (orderly_free l.1)
    rw [hcall] at hnew hshows
    rw [hside] at hnew
    refine ⟨hk.step hs, by rw [hf.side, hside], marks ++ new, hw.trans hnew, ?_, fun hc => ?_⟩
    · rw [List.filter_append, hhanded, hshows.handed, List.flatMap_append]
      simp
    · rcases hc with hc | hc
      · rcases List.mem_append.1 hc with hc | hc
        · exact hf.closed (hclosed (.inl hc))
        · exact hshows.closed hc
      · exact hf.closed (hclosed (.inr hc))

/-- The terminal messages that a run handed out for a stream. -/
def terminals (id : ℤ) (tr : List (Call × Outcome)) : ℕ :=
  tr.countP fun
    | (.nextMessage, .item (some x)) | (.nextAction, .item (some x)) =>
      x.2.streamId == id && ends x.2.kind
    | _ => false

/-- The kinds of the actions that a run handed out for a stream. -/
def performed (id : ℤ) (tr : List (Call × Outcome)) : List MessageKind :=
  tr.filterMap fun
    | (.nextAction, .item (some x)) => if x.2.streamId = id then some x.2.kind else none
    | _ => none

/-- The terminal messages of a stream that wait to be handed out. -/
def waiting (m : Mux) (id : ℤ) : ℕ :=
  (m.outbound.attachments ++ m.actions.attachments).countP fun x =>
    x.2.streamId == id && ends x.2.kind

theorem handedEnds_filter_handed (id : ℤ) (marks : List Mark) :
    handedEnds ((marks.filter Mark.handed).filter (Mark.on id)) =
      handedEnds (marks.filter (Mark.on id)) := by
  rw [handedEnds, handedEnds, List.countP_filter, List.countP_filter, List.countP_filter]
  refine List.countP_congr fun k _ => ?_
  cases k <;> simp [Mark.handed]

theorem performedBy_filter_handed (id : ℤ) (marks : List Mark) :
    performedBy ((marks.filter Mark.handed).filter (Mark.on id)) =
      performedBy (marks.filter (Mark.on id)) := by
  rw [performedBy, performedBy, List.filter_filter, List.filterMap_filter, List.filterMap_filter]
  refine List.filterMap_congr fun k _ => ?_
  cases k <;> simp [Mark.handed, Mark.on]

theorem handedEnds_run (id : ℤ) (tr : List (Call × Outcome)) :
    handedEnds ((tr.flatMap fun l => handedBy l.1 l.2).filter (Mark.on id)) = terminals id tr := by
  induction tr with
  | nil => rfl
  | cons l tr ih =>
    have hone : handedEnds ((handedBy l.1 l.2).filter (Mark.on id)) = terminals id [l] := by
      obtain ⟨c, o⟩ := l
      cases c with
      | nextMessage =>
        rcases o with _ | _ | _ | x
        · rfl
        · rfl
        · rfl
        · simp [handedBy, handedEnds, terminals, List.countP_filter, List.countP_cons, Mark.on,
            and_comm]
      | nextAction =>
        rcases o with _ | _ | _ | x
        · rfl
        · rfl
        · rfl
        · simp [handedBy, handedEnds, terminals, List.countP_filter, List.countP_cons, Mark.on,
            and_comm]
      | _ => rfl
    have hcons : terminals id (l :: tr) = terminals id [l] + terminals id tr := by
      rw [← List.singleton_append]
      exact List.countP_append
    rw [List.flatMap_cons, List.filter_append, handedEnds_append, ih, hone, hcons]

theorem performedBy_run (id : ℤ) (tr : List (Call × Outcome)) :
    performedBy ((tr.flatMap fun l => handedBy l.1 l.2).filter (Mark.on id)) = performed id tr := by
  induction tr with
  | nil => rfl
  | cons l tr ih =>
    have hone : performedBy ((handedBy l.1 l.2).filter (Mark.on id)) = performed id [l] := by
      obtain ⟨c, o⟩ := l
      cases c with
      | nextMessage =>
        rcases o with _ | _ | _ | x
        · rfl
        · rfl
        · rfl
        · by_cases hx : x.2.streamId = id <;> simp [handedBy, performedBy, performed, Mark.on, hx]
      | nextAction =>
        rcases o with _ | _ | _ | x
        · rfl
        · rfl
        · rfl
        · by_cases hx : x.2.streamId = id <;> simp [handedBy, performedBy, performed, Mark.on, hx]
      | _ => rfl
    have hcons : performed id (l :: tr) = performed id [l] ++ performed id tr :=
      List.filterMap_append (l := [l])
    rw [List.flatMap_cons, List.filter_append, performedBy_append, ih, hone, hcons]

theorem endings_itemsOf (id : ℤ) (items : List Attachment) :
    endings (itemsOf id items) = items.countP fun x => x.2.streamId == id && ends x.2.kind := by
  rw [endings, itemsOf, List.countP_filter]
  exact List.countP_congr fun x _ => by simp [and_comm]

/-- A multiplexer before its first call. -/
theorem account_fresh (profile : Profile) (session : String) (endpoint : Option EndpointConfig)
    (config : Config) (id : ℤ) :
    ((fresh profile session endpoint config).router.lane id).Account [] :=
  ⟨fun _ => ⟨rfl, rfl, rfl, rfl, rfl⟩, Nat.zero_le 1, fun s hs => (by cases hs), .nil,
    fun hne => absurd rfl hne⟩

theorem positive_fresh (profile : Profile) (session : String) (endpoint : Option EndpointConfig)
    (config : Config) : Positive (fresh profile session endpoint config).router [] :=
  ⟨le_rfl, fun _ hne => absurd rfl hne, fun x hx => (by cases hx), fun x hx => (by cases hx)⟩

/-- A cancellation that succeeds ends the session only while it binds. -/
theorem phase_of_cancel (h : (m.cancel request).2 = .ok ()) :
    (m.cancel request).1.phase ≠ .closed ∨ m.phase = .binding := by
  rcases m.cancel_cases request with
    ⟨e, hr⟩ | ⟨hbinding, -⟩ | ⟨row, -, hclosed, ⟨-, hr⟩ | ⟨-, hr⟩ | hr⟩
  · rw [hr] at h
    cases h
  · exact .inr hbinding
  · exact .inl (by rw [hr]; exact hclosed)
  · rw [hr] at h ⊢
    -- notices that all fit leave the phase alone
    have hnotices : ∀ (ids : List ℤ) (n : Mux), (notices request n ids).2 = .ok () →
        (notices request n ids).1.phase = n.phase := by
      intro ids
      induction ids with
      | nil => exact fun n _ => rfl
      | cons id ids ih =>
        intro n hn
        rw [notices] at hn ⊢
        split at hn
        · cases hn
        · split at hn
          · cases hn
          next queued hq =>
            obtain ⟨-, -, hphase, -⟩ := enqueue_keeps hq
            exact (ih queued hn).trans hphase
    exact .inl (by rw [hnotices _ _ h]; exact hclosed)
  · exact .inl (by rw [hr]; exact hclosed)

/-- A request that can be finished has no stream and no terminal left. -/
theorem finish_ok (h : (m.finish request).2 = .ok ()) :
    (m.cancel request).2 = .ok () ∧ (m.cancel request).1.unfinished request = false := by
  unfold finish at h
  cases hc : m.cancel request with
  | mk n r =>
    rw [hc] at h
    cases r with
    | error e => cases h
    | ok u =>
      dsimp only at h
      split_ifs at h with hun
      exact ⟨rfl, by simpa using hun⟩

/-- The balance of a request's stream when nothing of the request is left. -/
theorem balance_of_finished {n : Mux} (hn : n.unfinished request = false)
    {id : ℤ} {hist : List Mark} (h : (n.router.lane id).Settled request hist) :
    (n.router.lane id).balance hist = handedEnds hist := by
  obtain ⟨⟨hroutes, hout⟩, hact⟩ :
      ((n.routesOf request).isEmpty = true ∧ n.outbound.hasTerminal request = false) ∧
        n.actions.hasTerminal request = false := by
    simpa [unfinished] using hn
  have hquiet : ∀ {items : List Attachment},
      (∀ x ∈ items, x.1 = request → terminal x.2.kind = false) →
      (∀ x ∈ itemsOf id items, x.1 = request) → endings (itemsOf id items) = 0 := by
    intro items hitems hrequest
    refine List.countP_eq_zero.2 fun x hx hends => ?_
    have := hitems x (mem_itemsOf.1 hx).1 (hrequest x hx)
    rw [terminal_of_ends hends] at this
    cases this
  have hout' : endings (n.router.lane id).outbound = 0 :=
    hquiet (Queue.hasTerminal_eq_false.1 hout) fun x hx => h.items x (List.mem_append_left _ hx)
  have hact' : endings (n.router.lane id).actions = 0 :=
    hquiet (Queue.hasTerminal_eq_false.1 hact) fun x hx => h.items x (List.mem_append_right _ hx)
  have hroute : (n.router.lane id).route = none := by
    cases hr : n.routes.get? id with
    | none => simp [Router.lane, router, hr]
    | some route =>
      have hrequest : route.request = request :=
        h.route route.stream (by simp [Router.lane, router, hr])
      have hmem : id ∈ n.routesOf request := mem_routesOf.2 ⟨route, hr, hrequest⟩
      rw [List.isEmpty_iff.1 hroutes] at hmem
      cases hmem
  unfold Lane.balance
  rw [hout', hact', hroute]
  rfl

/-- What a run from the start says of one stream. -/
structure Booked (id : ℤ) (tr : List (Call × Outcome)) (m : Mux) (marks : List Mark) : Prop where
  begun : Begun m
  positive : Positive m.router marks
  account : id ≠ 0 → (m.router.lane id).Account (marks.filter (Mark.on id))
  handed : handedEnds (marks.filter (Mark.on id)) = terminals id tr
  performed : performedBy (marks.filter (Mark.on id)) = performed id tr
  closed : .closed ∈ marks → m.phase = .closed

theorem exists_booked {profile : Profile} {session : String} {k : Option EndpointConfig}
    {config : Config} {m₀ : Mux} {tr : List (Call × Outcome)}
    (h₀ : new profile session k config = .ok m₀) (h : Run Step m₀ tr m) (id : ℤ) :
    ∃ marks, Booked id tr m marks := by
  have hb := Begun.new h₀
  obtain ⟨-, rfl⟩ := new_eq_ok h₀
  obtain ⟨hm, -, marks, hw, hhanded, hclosed⟩ := run_moves hb h
  refine ⟨marks, hm, ?_, fun hid => ?_, ?_, ?_, fun hc => hclosed (.inl hc)⟩
  · exact hw.follow (P := fun hist r => Positive r hist) [] (fun _ _ _ _ => positive_move)
      (positive_fresh profile session k config)
  · exact (lane_weak hid hw).follow (P := fun hist L => L.Account hist) []
      (fun _ _ _ _ => Lane.account_move) (account_fresh profile session k config id)
  · rw [← handedEnds_filter_handed, hhanded, handedEnds_run]
  · rw [← performedBy_filter_handed, hhanded, performedBy_run]

/-- A stream that is routed stays settled. -/
theorem exists_settled {id : ℤ} {tr tr' : List (Call × Outcome)} {n : Mux} {marks : List Mark}
    {route : Route} (h : Booked id tr m marks) (hroute : m.routes.get? id = some route)
    (hr : Run Step m tr' n) :
    ∃ hist, (n.router.lane id).Settled route.request hist ∧
    handedEnds hist = terminals id (tr ++ tr') ∧
      (.closed ∈ hist → n.phase = .closed) := by
  have hstream : m.router.routes id = some route.stream := by simp [router, hroute]
  have hid : id ≠ 0 := (h.positive.routes id (by simp [hstream])).ne'
  obtain ⟨-, -, new, hw, hhanded, hclosed⟩ := run_moves h.begun hr
  refine ⟨marks.filter (Mark.on id) ++ new.filter (Mark.on id), ?_, ?_, fun hc => hclosed ?_⟩
  · exact (lane_weak hid hw).follow (P := fun hist L => L.Settled route.request hist) _
      (fun _ _ _ _ => Lane.settled_move) ((h.account hid).settled hstream)
  · rw [handedEnds_append, h.handed, ← handedEnds_filter_handed, hhanded, handedEnds_run]
    exact List.countP_append.symm
  · rcases List.mem_append.1 hc with hc | hc
    · exact .inr (h.closed (List.mem_filter.1 hc).1)
    · exact .inl (List.mem_filter.1 hc).1

/-- The balance of a stream, as its multiplexer shows it. -/
theorem balance_router (m : Mux) (id : ℤ) (hist : List Mark) :
    (m.router.lane id).balance hist =
      handedEnds hist + waiting m id + if (m.routes.get? id).isSome then 1 else 0 := by
  have hwaiting : waiting m id =
      endings (m.router.lane id).outbound + endings (m.router.lane id).actions := by
    rw [waiting, List.countP_append, ← endings_itemsOf, ← endings_itemsOf]
    rfl
  have hpresent : present (m.router.lane id).route =
      if (m.routes.get? id).isSome then 1 else 0 := by
    simp [present, Router.lane, router]
  rw [hwaiting, ← hpresent, Lane.balance, ← Nat.add_assoc]

/-- In every run of a multiplexer, of either role: no action of a stream follows its terminal; a
stream that was routed has one terminal, handed out or still waiting, unless it is still routed or
the session was closed; and a request that can be finished has its streams' terminals handed
out. -/
theorem finish_settles {profile : Profile} {session : String} {k : Option EndpointConfig}
    {config : Config} {m₀ m : Mux} {tr : List (Call × Outcome)}
    (h₀ : new profile session k config = .ok m₀) (h : Run Step m₀ tr m) (id : ℤ) :
    (∀ before kind after, performed id tr = before ++ kind :: after → ends kind = true →
      after = []) ∧
    ∀ tr₁ tr₂ m₁ route, tr = tr₁ ++ tr₂ → Run Step m₀ tr₁ m₁ → Run Step m₁ tr₂ m →
      m₁.routes.get? id = some route →
      (m.phase = .closed ∨
        terminals id tr + waiting m id + (if (m.routes.get? id).isSome then 1 else 0) = 1) ∧
      ((m.finish route.request).2 = .ok () → terminals id tr = 1) := by
  obtain ⟨marks, hbooked⟩ := exists_booked h₀ h id
  constructor
  · intro before kind after hsplit hends
    by_cases hid : id = 0
    · -- the host never sees the stream of the bootstrap
      exfalso
      have hmem : kind ∈ performedBy (marks.filter (Mark.on id)) := by
        rw [hbooked.performed, hsplit]
        simp
      obtain ⟨mark, hmark, hkind⟩ := List.mem_filterMap.1 hmem
      obtain ⟨hmark, hon⟩ := List.mem_filter.1 hmark
      cases mark with
      | action x =>
        have := hbooked.positive.handed x hmark
        rw [show x.2.streamId = id by simpa [Mark.on] using hon, hid] at this
        exact lt_irrefl _ this
      | _ => cases hkind
    · have horder := (hbooked.account hid).order
      rw [hbooked.performed, hsplit] at horder
      have hpair := (List.pairwise_append.1 (List.pairwise_append.1 horder).1).2.1
      cases after with
      | nil => rfl
      | cons kind' after =>
        have := List.rel_of_pairwise_cons hpair (List.mem_cons_self (a := kind'))
        rw [hends] at this
        cases this
  · rintro tr₁ tr₂ m₁ route rfl h₁ h₂ hroute
    obtain ⟨marks₁, hbooked₁⟩ := exists_booked h₀ h₁ id
    obtain ⟨hist, hsettled, hhanded, hclosed⟩ := exists_settled hbooked₁ hroute h₂
    constructor
    · rw [← hhanded, ← balance_router]
      exact hsettled.balance.imp_left hclosed
    · intro hfinish
      obtain ⟨hcancel, hun⟩ := finish_ok hfinish
      -- the cancellation inside `finish` hands out nothing
      have hrun : Run Step m [(.cancel route.request, .done (.ok ()))]
          (m.cancel route.request).1 := .single (by rw [Step, call, hcancel])
      obtain ⟨hist', hsettled', hhanded', hclosed'⟩ :=
        exists_settled hbooked₁ hroute (h₂.append hrun)
      rw [← List.append_assoc] at hhanded'
      have hsame : terminals id (tr₁ ++ tr₂ ++ [(.cancel route.request, .done (.ok ()))]) =
          terminals id (tr₁ ++ tr₂) := by
        rw [terminals, List.countP_append]
        rfl
      rw [← hsame, ← hhanded', ← balance_of_finished hun hsettled']
      refine hsettled'.balance.resolve_left fun hc => ?_
      rcases phase_of_cancel hcancel with hphase | hphase
      · exact hphase (hclosed' hc)
      · -- no stream was routed before the session was bound
        have hzero := hbooked.begun.early (by simp [hphase]) (by simp [hphase])
        have hreached : id ≤ m.router.highest := by simpa [Router.lane] using hsettled.reached
        have hreached : id ≤ m.highestId := hreached
        have hpos := hbooked₁.positive.routes id (by simp [router, hroute])
        omega

/-- A cancelled stream whose terminal was handed out lets its request finish. -/
theorem finish_settles_cancelled :
    ((replay smallEndpoint politeCancel).2.finish "r").2 = .ok () ∧
      terminals 1 (replay smallEndpoint politeCancel).1 = 1 := by
  have hfinish : ((replay smallEndpoint politeCancel).2.finish "r").2 = .ok () := by
    decide +kernel
  refine ⟨hfinish, ?_⟩
  obtain ⟨route, hroute, hrequest⟩ := Option.map_eq_some_iff.1
    (show ((replay smallEndpoint upToOpen).2.routes.get? 1).map (·.request) = some "r" by
      decide +kernel)
  have hrest := run_replay (replay smallEndpoint upToOpen).2 (politeCancel.drop upToOpen.length)
  refine ((finish_settles smallEndpoint_new (run_replay smallEndpoint politeCancel) 1).2 _ _ _ route
    rfl (run_replay smallEndpoint upToOpen) hrest hroute).2 ?_
  rw [hrequest]
  exact hfinish

end GwzTransport.Mux
