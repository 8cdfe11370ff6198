import GwzTransport.Mux.Router

/-!
# One stream of a router

Most of what a router keeps for one stream does not depend on the others: the route, and the
stream's own items in the two queues.  `Router.lane` is that part, and `Lane.Move` lists what a
move of the router can do to it (`lane_move`).  What the other streams do shows here as no change
at all, or as an id that was passed over.
-/

namespace GwzTransport.Mux

open Protocol Transition

@[ext] structure Lane where
  /-- Whether the stream's id was started or passed over. -/
  reached : Bool
  route : Option Stream
  outbound : List Attachment
  actions : List Attachment

/-- The items of a stream. -/
def itemsOf (id : ℤ) (items : List Attachment) : List Attachment :=
  items.filter fun item => item.2.streamId == id

theorem itemsOf_snoc_self (item : Attachment) (items : List Attachment) :
    itemsOf item.2.streamId (items ++ [item]) = itemsOf item.2.streamId items ++ [item] := by
  simp [itemsOf]

theorem itemsOf_snoc_other {id : ℤ} {item : Attachment} (h : item.2.streamId ≠ id)
    (items : List Attachment) : itemsOf id (items ++ [item]) = itemsOf id items := by
  simp [itemsOf, h]

theorem itemsOf_cons_self (item : Attachment) (items : List Attachment) :
    itemsOf item.2.streamId (item :: items) = item :: itemsOf item.2.streamId items := by
  simp [itemsOf]

theorem itemsOf_cons_other {id : ℤ} {item : Attachment} (h : item.2.streamId ≠ id)
    (items : List Attachment) : itemsOf id (item :: items) = itemsOf id items := by
  simp [itemsOf, h]

theorem mem_itemsOf {id : ℤ} {items : List Attachment} {item : Attachment} :
    item ∈ itemsOf id items ↔ item ∈ items ∧ item.2.streamId = id := by simp [itemsOf]

theorem itemsOf_filter (id : ℤ) (items : List Attachment) (keep : Attachment → Bool) :
    itemsOf id (items.filter keep) = (itemsOf id items).filter keep := by
  rw [itemsOf, itemsOf, List.filter_filter, List.filter_filter]
  exact List.filter_congr fun x _ => Bool.and_comm _ _

def Router.lane (r : Router) (id : ℤ) : Lane where
  reached := decide (id ≤ r.highest)
  route := r.routes id
  outbound := itemsOf id r.outbound
  actions := itemsOf id r.actions

/-- Whether a mark speaks of a stream. -/
def Mark.on (id : ℤ) : Mark → Bool
  | .message x | .action x | .heard x | .started x | .control x => x.2.streamId == id
  | .expired id' => id' == id
  | .sealed _ | .closed => true

namespace Lane

/-- A route's new state with a message queued for the peer. -/
def queue (L : Lane) (route : Option Stream) (item : Attachment) : Lane :=
  { L with route := route, outbound := L.outbound ++ [item] }

/-- A route's new state with an item queued for the host. -/
def act (L : Lane) (route : Option Stream) (item : Attachment) : Lane :=
  { L with route := route, actions := L.actions ++ [item] }

def mark (L : Lane) (request : String) : Lane :=
  { L with route := L.route.map fun s =>
      if s.request = request then { s with cancelled := true } else s }

/-- The changes of a lane, one at a time. -/
inductive Move (ρ : Rules) : Lane → Option Mark → Lane → Prop
  | idle {L} : Move ρ L none L
  /-- A later stream was started. -/
  | pass {L} : L.reached = false → Move ρ L none { L with reached := true }
  | start {L item} : ρ.endpoint = false → starts item.2.kind = true → L.reached = false →
      ρ.valid (.first item) item →
      Move ρ L (some (.started item)) { L.queue (some (.first item)) item with reached := true }
  | hearStart {L item} : ρ.endpoint = true → starts item.2.kind = true → L.reached = false →
      Move ρ L (some (.heard item)) { L.act (some (.first item)) item with reached := true }
  | send {L item s} :
      L.route = some s → s.request = item.1 → validKind ρ.endpoint s.kind item.2.kind = true →
      ρ.valid s item → (ρ.endpoint = true → s.cancelled = true → ρ.late item.2.kind) →
      Move ρ L none (L.queue (s.after item.2.kind) item)
  | hear {L item s} :
      L.route = some s → s.request = item.1 → validKind (!ρ.endpoint) s.kind item.2.kind = true →
      Move ρ L (some (.heard item)) (L.act (s.after item.2.kind) item)
  | notice {L item s} :
      ρ.endpoint = true → L.route = some s → s.request = item.1 → item.2.kind = .cancel →
      Move ρ L none (L.act (some s) item)
  | expire {L item s} :
      ρ.endpoint = false → L.route = some s → s.request = item.1 → item.2.kind = s.kind.ending →
      Move ρ L (some (.expired item.2.streamId)) (L.act none item)
  | handOut {L item rest} :
      L.outbound = item :: rest → Move ρ L (some (.message item)) { L with outbound := rest }
  | handAction {L item rest} :
      L.actions = item :: rest → Move ρ L (some (.action item)) { L with actions := rest }
  | ask {L item s} :
      ρ.endpoint = false → L.route = some s → s.cancelled = true → s.request = item.1 →
      item.2.kind = .cancel → ρ.valid s item → (∀ x ∈ L.outbound, starts x.2.kind = false) →
      Move ρ L (some (.message item)) { L with route := some { s with cancelled := false } }
  | giveUp {L item s} :
      ρ.endpoint = true → L.route = some s → s.cancelled = true → s.request = item.1 →
      item.2.kind = s.kind.ending → ρ.valid s item →
      Move ρ L (some (.message item)) { L with route := none }
  | discard {L} (request : String) :
      (ρ.tidy → ∀ x ∈ L.outbound, x.1 = request → x.2.kind ≠ .opened) →
      Move ρ L (some (.sealed request))
        { L with outbound := L.outbound.filter (Queue.kept request) }
  | dropActions {L} (request : String) :
      Move ρ L none { L with actions := L.actions.filter fun item =>
        item.1 != request || terminal item.2.kind }
  | mark {L} (request : String) :
      (∀ x ∈ L.outbound, Queue.kept request x = true) → Move ρ L none (L.mark request)
  | close {L} : Move ρ L (some .closed) { L with route := none, outbound := [], actions := [] }

end Lane

variable {ρ : Rules} {r r' : Router} {l : Option Mark} {id : ℤ}

/-- A move on another stream can only pass over the id. -/
theorem lane_other (hroutes : r'.routes id = r.routes id)
    (hout : itemsOf id r'.outbound = itemsOf id r.outbound)
    (hact : itemsOf id r'.actions = itemsOf id r.actions) (hhighest : r.highest ≤ r'.highest) :
    Weak (Lane.Move ρ) (r.lane id) [] (r'.lane id) := by
  by_cases hreached : decide (id ≤ r'.highest) = decide (id ≤ r.highest)
  · have : r'.lane id = r.lane id := Lane.ext hreached hroutes hout hact
    rw [this]
    exact .refl _
  · have hbefore : ¬ id ≤ r.highest := fun hle => hreached (by simp [hle, hle.trans hhighest])
    have hafter : id ≤ r'.highest := by
      by_contra hno
      exact hreached (by simp [hbefore, hno])
    have : r'.lane id = { r.lane id with reached := true } :=
      Lane.ext (by simpa [Router.lane] using hafter) hroutes hout hact
    rw [this]
    exact .silent (.pass (by simpa [Router.lane] using hbefore))

/-- A move on the stream of an item moves that stream and no other. -/
theorem lane_on (item : Attachment) (hl : ∀ k ∈ l, k.on id = (item.2.streamId == id))
    (hself : item.2.streamId = id → ∃ L, Lane.Move ρ (r.lane id) l L ∧ r'.lane id = L)
    (hother : item.2.streamId ≠ id → r'.routes id = r.routes id ∧
      itemsOf id r'.outbound = itemsOf id r.outbound ∧
      itemsOf id r'.actions = itemsOf id r.actions) (hhighest : r.highest ≤ r'.highest) :
    Weak (Lane.Move ρ) (r.lane id) (l.toList.filter (Mark.on id)) (r'.lane id) := by
  by_cases hsame : item.2.streamId = id
  · obtain ⟨L, hmove, rfl⟩ := hself hsame
    cases l with
    | none => exact .silent hmove
    | some k =>
      rw [Option.toList_some, List.filter_cons_of_pos (by simp [hl k rfl, hsame])]
      exact .visible hmove
  · obtain ⟨hroutes, hout, hact⟩ := hother hsame
    have hoff : l.toList.filter (Mark.on id) = [] := by
      refine List.filter_eq_nil_iff.2 fun k hk => ?_
      simp [hl k (Option.mem_toList.1 hk), hsame]
    rw [hoff]
    exact lane_other hroutes hout hact hhighest

/-- What a move does to one stream. -/
theorem lane_move (hid : id ≠ 0) (hm : Move ρ r l r') :
    Weak (Lane.Move ρ) (r.lane id) (l.toList.filter (Mark.on id)) (r'.lane id) := by
  -- the route of another stream stays
  have hroute : ∀ {item : Attachment} {s : Option Stream}, item.2.streamId ≠ id →
      Function.update r.routes item.2.streamId s id = r.routes id :=
    fun hsame => Function.update_of_ne (Ne.symm hsame) _ _
  cases hm with
  | register operation _ => exact lane_other rfl rfl rfl le_rfl
  | @start item hside hstarts hnew hvalid =>
    refine lane_on item (by simp [Mark.on]) (fun hsame => ?_)
      (fun hsame => ⟨hroute hsame, itemsOf_snoc_other hsame _, rfl⟩) hnew.le
    subst hsame
    refine ⟨_, .start hside hstarts (by simpa [Router.lane] using hnew) hvalid, ?_⟩
    exact Lane.ext (by simp [Router.lane, Router.start, Router.queue])
      (Function.update_self _ _ _) (itemsOf_snoc_self item _) rfl
  | @hearStart item operation hside hstarts hnew =>
    refine lane_on item (by simp [Mark.on]) (fun hsame => ?_)
      (fun hsame => ⟨hroute hsame, rfl, itemsOf_snoc_other hsame _⟩) hnew.le
    subst hsame
    refine ⟨_, .hearStart hside hstarts (by simpa [Router.lane] using hnew), ?_⟩
    exact Lane.ext (by simp [Router.lane, Router.start, Router.act])
      (Function.update_self _ _ _) rfl (itemsOf_snoc_self item _)
  | @send item s hr hrequest hkind hvalid hlate =>
    refine lane_on item (by simp) (fun hsame => ?_)
      (fun hsame => ⟨hroute hsame, itemsOf_snoc_other hsame _, rfl⟩) le_rfl
    subst hsame
    refine ⟨_, .send hr hrequest hkind hvalid hlate, ?_⟩
    exact Lane.ext rfl (Function.update_self _ _ _) (itemsOf_snoc_self item _) rfl
  | @hear item s hr hrequest hkind =>
    refine lane_on item (by simp [Mark.on]) (fun hsame => ?_)
      (fun hsame => ⟨hroute hsame, rfl, itemsOf_snoc_other hsame _⟩) le_rfl
    subst hsame
    refine ⟨_, .hear hr hrequest hkind, ?_⟩
    exact Lane.ext rfl (Function.update_self _ _ _) rfl (itemsOf_snoc_self item _)
  | @notice item s hside hr hrequest hkind =>
    refine lane_on item (by simp) (fun hsame => ?_)
      (fun hsame => ⟨rfl, rfl, itemsOf_snoc_other hsame _⟩) le_rfl
    subst hsame
    exact ⟨_, .notice hside hr hrequest hkind, Lane.ext rfl hr rfl (itemsOf_snoc_self item _)⟩
  | @expire item s hside hr hrequest hkind =>
    refine lane_on item (by simp [Mark.on]) (fun hsame => ?_)
      (fun hsame => ⟨hroute hsame, rfl, itemsOf_snoc_other hsame _⟩) le_rfl
    subst hsame
    refine ⟨_, .expire hside hr hrequest hkind, ?_⟩
    exact Lane.ext rfl (Function.update_self _ _ _) rfl (itemsOf_snoc_self item _)
  | @control item hzero =>
    refine lane_on item (by simp [Mark.on]) (fun hsame => absurd (hzero ▸ hsame) (Ne.symm hid))
      (fun hsame => ⟨rfl, itemsOf_snoc_other hsame _, rfl⟩) le_rfl
  | @handOut item rest hout =>
    refine lane_on item (by simp [Mark.on]) (fun hsame => ?_)
      (fun hsame => ⟨rfl, by rw [hout, itemsOf_cons_other hsame], rfl⟩) le_rfl
    subst hsame
    refine ⟨_, @Lane.Move.handOut ρ _ item (itemsOf item.2.streamId rest) ?_, rfl⟩
    rw [Router.lane, hout, itemsOf_cons_self]
  | @handAction item rest hact =>
    refine lane_on item (by simp [Mark.on]) (fun hsame => ?_)
      (fun hsame => ⟨rfl, rfl, by rw [hact, itemsOf_cons_other hsame]⟩) le_rfl
    subst hsame
    refine ⟨_, @Lane.Move.handAction ρ _ item (itemsOf item.2.streamId rest) ?_, rfl⟩
    rw [Router.lane, hact, itemsOf_cons_self]
  | @ask item s hside hr hcancelled hrequest hkind hvalid hfirst =>
    refine lane_on item (by simp [Mark.on]) (fun hsame => ?_)
      (fun hsame => ⟨hroute hsame, rfl, rfl⟩) le_rfl
    subst hsame
    refine ⟨_, .ask hside hr hcancelled hrequest hkind hvalid fun x hx =>
      hfirst x (mem_itemsOf.1 hx).1 (mem_itemsOf.1 hx).2, ?_⟩
    exact Lane.ext rfl (Function.update_self _ _ _) rfl rfl
  | @giveUp item s hside hr hcancelled hrequest hkind hvalid =>
    refine lane_on item (by simp [Mark.on]) (fun hsame => ?_)
      (fun hsame => ⟨hroute hsame, rfl, rfl⟩) le_rfl
    subst hsame
    refine ⟨_, .giveUp hside hr hcancelled hrequest hkind hvalid, ?_⟩
    exact Lane.ext rfl (Function.update_self _ _ _) rfl rfl
  | discard request htidy =>
    have hmove := Lane.Move.discard (ρ := ρ) (L := r.lane id) request
      fun ht x hx => htidy ht x (mem_itemsOf.1 hx).1
    refine Weak.visible ?_
    have heq : Router.lane { r.setRow request none with
          outbound := r.outbound.filter (Queue.kept request) } id =
        { r.lane id with outbound := (r.lane id).outbound.filter (Queue.kept request) } :=
      Lane.ext rfl rfl (itemsOf_filter _ _ _) rfl
    rw [heq]
    exact hmove
  | dropActions request =>
    have hmove := Lane.Move.dropActions (ρ := ρ) (L := r.lane id) request
    refine Weak.silent ?_
    have heq : Router.lane { r with actions := r.actions.filter fun item =>
          item.1 != request || terminal item.2.kind } id =
        { r.lane id with actions := (r.lane id).actions.filter fun item =>
          item.1 != request || terminal item.2.kind } :=
      Lane.ext rfl rfl rfl (itemsOf_filter _ _ _)
    rw [heq]
    exact hmove
  | mark request hkept =>
    exact .silent (.mark (L := r.lane id) request fun x hx => hkept x (mem_itemsOf.1 hx).1)
  | close => exact Weak.visible (.close (L := r.lane id))

/-- What a run of moves does to one stream. -/
theorem lane_weak (hid : id ≠ 0) {marks : List Mark} (h : Weak (Move ρ) r marks r') :
    Weak (Lane.Move ρ) (r.lane id) (marks.filter (Mark.on id)) (r'.lane id) :=
  h.project (fun r => r.lane id) (Mark.on id) fun _ _ _ hm => lane_move hid hm

end GwzTransport.Mux
