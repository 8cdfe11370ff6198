import GwzTransport.Mux.Runs

/-!
# What the queues of a multiplexer hold

The counters of a queue are the sums over its items by construction.  What they add up to is
measured with the limits that were in force when each item was queued, since the limits change when
the session is bound: `Watched` records them, and `Within` says that what is queued up to an item
fits that item's limits.
-/

namespace GwzTransport.Mux

open Protocol MachineInt Checks Binding Transition

variable {limits : Limits} {n : Mux} {item : Attachment}

/-! ### Items with their limits -/

/-- The items of a queue, each with the limits in force when it was queued. -/
abbrev Tagged := List (Queued × Limits)

def Tagged.items (t : Tagged) : List Queued := t.map Prod.fst

/-- A change of a queue while `limits` are in force: items leave it, or one is queued. -/
inductive Tagged.Step (limits : Limits) : Tagged → Tagged → Prop
  | drop {t t'} : t'.Sublist t → Step limits t t'
  | push {t item} : Fits limits item (t.items ++ [item]) → Step limits t (t ++ [(item, limits)])

/-- Every item fits, with what stands before it, the limits it was queued under. -/
def Tagged.Within (t : Tagged) : Prop :=
  ∀ before item limits after, t = before ++ (item, limits) :: after →
    Fits limits item (Tagged.items before ++ [item])

theorem Tagged.Within.sublist {t t' : Tagged} (h : t.Within) (hsub : t'.Sublist t) :
    t'.Within := by
  rintro before item limits after rfl
  obtain ⟨l, r, rfl, hbefore, hrest⟩ := List.append_sublist_iff.1 hsub
  obtain ⟨r₁, r₂, rfl, hmem, -⟩ := List.cons_sublist_iff.1 hrest
  obtain ⟨s₁, s₂, rfl⟩ := List.append_of_mem hmem
  refine (h (l ++ s₁) item limits (s₂ ++ r₂) (by simp)).sublist ?_
  refine (List.Sublist.map Prod.fst ?_).append (List.Sublist.refl _)
  exact hbefore.trans (List.sublist_append_left l s₁)

theorem Tagged.Within.push {t : Tagged} {item : Queued} {limits : Limits} (h : t.Within)
    (hfits : Fits limits item (t.items ++ [item])) :
    Tagged.Within (t ++ [(item, limits)]) := by
  intro before item' limits' after heq
  rcases List.eq_nil_or_concat after with rfl | ⟨after, last, rfl⟩
  · obtain ⟨rfl, hlast⟩ := List.append_inj' heq rfl
    cases hlast
    exact hfits
  · rw [List.concat_eq_append, ← List.cons_append, ← List.append_assoc] at heq
    exact h before item' limits' after (List.append_inj' heq rfl).1

def Tagged.Steps (limits : Limits) : Tagged → Tagged → Prop :=
  Relation.ReflTransGen (Tagged.Step limits)

theorem Tagged.Within.steps {t t' : Tagged} (h : t.Within) (hs : Tagged.Steps limits t t') :
    t'.Within := by
  induction hs with
  | refl => exact h
  | tail _ hstep ih =>
    cases hstep with
    | drop hsub => exact ih.sublist hsub
    | push hfits => exact ih.push hfits

/-- Items that leave a queue leave it with their limits. -/
theorem Tagged.exists_drop {t : Tagged} {items : List Queued} (h : items.Sublist t.items) :
    ∃ t' : Tagged, t'.items = items ∧ Tagged.Step limits t t' := by
  obtain ⟨t', hsub, ht'⟩ := List.sublist_map_iff.1 h
  exact ⟨t', ht'.symm, .drop hsub⟩

theorem Tagged.exists_push {t : Tagged} {item : Queued} (h : Fits limits item (t.items ++ [item])) :
    ∃ t' : Tagged, t'.items = t.items ++ [item] ∧ Tagged.Step limits t t' :=
  ⟨t ++ [(item, limits)], by simp [Tagged.items], .push h⟩

theorem items_retain (q : Queue) (keep : Attachment → Bool) :
    (q.retain keep).items.Sublist q.items :=
  List.filter_sublist

theorem items_of_pop {q rest : Queue} (h : q.pop = some (item, rest)) :
    rest.items.Sublist q.items := by
  unfold Queue.pop at h
  split at h
  · cases h
  next entry left hq =>
    cases h
    show left.Sublist q.items
    rw [hq]
    exact List.sublist_cons_self entry left

/-- However the items of the queues are tagged, an edit can be followed. -/
theorem Queues.Step.exists_tagged {q q' : Queues} {e : Edit} (h : Queues.Step limits q e q')
    {t u : Tagged} (ht : t.items = q.outbound.items) (hu : u.items = q.actions.items) :
    ∃ t' u' : Tagged, t'.items = q'.outbound.items ∧ u'.items = q'.actions.items ∧
      Tagged.Step limits t t' ∧ Tagged.Step limits u u' := by
  cases h with
  | send hfits =>
    rw [← ht] at hfits
    obtain ⟨t', ht', hstep⟩ := Tagged.exists_push hfits
    exact ⟨t', u, by rw [ht', ht]; rfl, hu, hstep, .drop (.refl u)⟩
  | act hfits =>
    rw [← hu] at hfits
    obtain ⟨u', hu', hstep⟩ := Tagged.exists_push hfits
    exact ⟨t, u', ht, by rw [hu', hu]; rfl, .drop (.refl t), hstep⟩
  | handOut hpop =>
    obtain ⟨t', ht', hstep⟩ := Tagged.exists_drop (ht ▸ items_of_pop hpop)
    exact ⟨t', u, ht', hu, hstep, .drop (.refl u)⟩
  | handAction hpop =>
    obtain ⟨u', hu', hstep⟩ := Tagged.exists_drop (hu ▸ items_of_pop hpop)
    exact ⟨t, u', ht, hu', .drop (.refl t), hstep⟩
  | discard request =>
    obtain ⟨t', ht', hstep⟩ :=
      Tagged.exists_drop (ht ▸ items_retain q.outbound (Queue.kept request))
    exact ⟨t', u, ht', hu, hstep, .drop (.refl u)⟩
  | dropActions request =>
    obtain ⟨u', hu', hstep⟩ := Tagged.exists_drop (hu ▸ items_retain q.actions fun item =>
      item.1 != request || terminal item.2.kind)
    exact ⟨t, u', ht, hu', .drop (.refl t), hstep⟩
  | clear => exact ⟨[], [], rfl, rfl, .drop (List.nil_sublist t), .drop (List.nil_sublist u)⟩

theorem exists_tagged_run {q q' : Queues} {edits : List Edit} {t u : Tagged}
    (h : Run (Queues.Step limits) q edits q') (ht : t.items = q.outbound.items)
    (hu : u.items = q.actions.items) :
    ∃ t' u' : Tagged, t'.items = q'.outbound.items ∧ u'.items = q'.actions.items ∧
      Tagged.Steps limits t t' ∧ Tagged.Steps limits u u' := by
  induction h with
  | nil => exact ⟨t, u, ht, hu, .refl, .refl⟩
  | snoc _ hstep ih =>
    obtain ⟨t₁, u₁, ht₁, hu₁, hts, hus⟩ := ih
    obtain ⟨t₂, u₂, ht₂, hu₂, htstep, hustep⟩ := hstep.exists_tagged ht₁ hu₁
    exact ⟨t₂, u₂, ht₂, hu₂, hts.tail htstep, hus.tail hustep⟩

/-! ### Runs with their queues watched -/

/-- A multiplexer with the limits in force when each of its items was queued. -/
structure Watched where
  mux : Mux
  outbound : Tagged
  actions : Tagged
  outbound_items : outbound.items = mux.outbound.items
  actions_items : actions.items = mux.actions.items

/-- A call, and the edits that it makes under the limits in force. -/
structure Watched.Step (w : Watched) (l : Call × Outcome) (w' : Watched) : Prop where
  step : Mux.Step w.mux l w'.mux
  outbound : Tagged.Steps w.mux.limits w.outbound w'.outbound
  actions : Tagged.Steps w.mux.limits w.actions w'.actions

theorem Watched.exists_step {w : Watched} {l : Call × Outcome} (h : Mux.Step w.mux l n) :
    ∃ w', w.Step l w' ∧ w'.mux = n := by
  obtain rfl : (w.mux.call l.1).1 = n := congrArg Prod.fst h
  obtain ⟨edits, hrun, -⟩ := (call_makes w.mux l.1).edited
  obtain ⟨outbound, actions, houtbound, hactions, hout, hact⟩ :=
    exists_tagged_run hrun w.outbound_items w.actions_items
  exact ⟨⟨_, outbound, actions, houtbound, hactions⟩, ⟨h, hout, hact⟩, rfl⟩

theorem Watched.exists_run {w : Watched} {tr : List (Call × Outcome)}
    (h : Run Mux.Step w.mux tr n) : ∃ w', Run Watched.Step w tr w' ∧ w'.mux = n := by
  induction h with
  | nil => exact ⟨w, .nil, rfl⟩
  | snoc _ hstep ih =>
    obtain ⟨w', hrun, rfl⟩ := ih
    obtain ⟨w'', hstep, hn⟩ := Watched.exists_step hstep
    exact ⟨w'', hrun.snoc hstep, hn⟩

theorem Watched.within_run {w w' : Watched} {tr : List (Call × Outcome)}
    (h : Run Watched.Step w tr w') (houtbound : w.outbound.Within) (hactions : w.actions.Within) :
    w'.outbound.Within ∧ w'.actions.Within :=
  h.invariant (P := fun _ w => w.outbound.Within ∧ w.actions.Within) ⟨houtbound, hactions⟩
    fun _ _ _ _ _ hw hs => ⟨hw.1.steps hs.outbound, hw.2.steps hs.actions⟩

/-- The counters are those of the items, and `pop` subtracts no more than they have. -/
structure Queue.Counted (q : Queue) : Prop where
  bytes : q.bytes = (q.items.map (·.charge)).sum
  dataBytes : q.dataBytes = (dataCharges q.items).sum
  dataFrames : q.dataFrames = (q.items.filter fun item => !item.control).length
  pop : ∀ entry rest, q.items = entry :: rest → entry.charge ≤ q.bytes ∧
    (entry.control = false → entry.charge ≤ q.dataBytes ∧ 1 ≤ q.dataFrames)

theorem Queue.counted (q : Queue) : q.Counted := by
  refine ⟨q.bytes_eq, q.dataBytes_eq, by rw [q.dataFrames_eq, dataCharges, List.length_map],
    fun entry rest hitems => ?_⟩
  have hbytes := q.bytes_eq
  have hdata := q.dataBytes_eq
  have hframes := q.dataFrames_eq
  rw [hitems] at hbytes hdata hframes
  refine ⟨by simp [hbytes], fun hcontrol => ?_⟩
  simp only [dataCharges, List.filter_cons, hcontrol] at hdata hframes
  exact ⟨by simp [hdata], by simp [hframes]⟩

/-- A side before its first call, with its empty queues. -/
def Watched.fresh (profile : Profile) (session : String) (endpoint : Option EndpointConfig)
    (config : Config) : Watched :=
  ⟨Mux.fresh profile session endpoint config, [], [], rfl, rfl⟩

/-- In every state that a multiplexer reaches, the counters of its queues are exact and no `pop`
underflows; the limits in force when each item was queued can be recorded along the run, and
whenever they are, each queue is within them at every item, so as a whole within those of its last
item. -/
theorem queues_counted_and_within {profile : Profile} {session : String}
    {endpoint : Option EndpointConfig} {config : Config} {m₀ : Mux} {tr : List (Call × Outcome)}
    (hnew : new profile session endpoint config = .ok m₀) (hrun : Run Mux.Step m₀ tr m) :
    m.outbound.Counted ∧ m.actions.Counted ∧
      (∃ w, Run Watched.Step (.fresh profile session endpoint config) tr w ∧ w.mux = m) ∧
      ∀ w, Run Watched.Step (.fresh profile session endpoint config) tr w →
        w.outbound.Within ∧ w.actions.Within := by
  obtain ⟨-, rfl⟩ := new_eq_ok hnew
  have hempty : Tagged.Within [] := fun before item limits after h => by
    cases List.append_eq_nil_iff.1 h.symm |>.2
  exact ⟨m.outbound.counted, m.actions.counted,
    Watched.exists_run (w := .fresh profile session endpoint config) hrun,
    fun w hw => Watched.within_run hw hempty hempty⟩

theorem queues_counted_and_within_opened :
    let m := (replay smallEndpoint (upToOpen ++ [.send "r" (openedMessage 1)])).2
    m.outbound.items.length = 1 ∧ m.actions.items.length = 1 ∧
      ∃ w : Watched, w.mux = m ∧ w.outbound.Within ∧ w.actions.Within := by
  refine ⟨by decide +kernel, by decide +kernel, ?_⟩
  obtain ⟨-, -, ⟨w, hrun, hw⟩, hwithin⟩ := queues_counted_and_within smallEndpoint_new
    (run_replay smallEndpoint (upToOpen ++ [.send "r" (openedMessage 1)]))
  exact ⟨w, hw, hwithin w hrun⟩

end GwzTransport.Mux
