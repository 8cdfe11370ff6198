import GwzTransport.Stream.Sound

/-!
# The grammar of a machine's messages

`Wire` is what can be read off the messages a machine has handed out so far, and `Wire.Next` says
which message may come next.  `Grammar` adds what the machine was told in between: the flush it
waits for and the flushes it has to answer.

Two results connect the grammar to the machine: `Says.move` follows the messages of one move from
any point of the conversation, which is what a peer's view needs, and `follows_of_run` follows a
whole run from the start.
-/

namespace GwzTransport.Stream

open Protocol MachineInt Transition

/-! ### What was said so far -/

structure Wire where
  /-- The number of data bytes. -/
  offset : ℤ
  /-- The latest credit limit. -/
  limit : ℤ
  /-- The latest flush id. -/
  serial : ℤ
  /-- `EndWrite` was sent. -/
  ended : Bool
  /-- `Close` was sent. -/
  closed : Bool
  /-- `Closed`, `Cancel` or `Failed` was sent. -/
  finished : Bool

/-- Before the first message. -/
def Wire.initial (k : Config) : Wire := ⟨0, k.receiveWindow, 0, false, false, false⟩

/-- The messages that may follow, and what they add. -/
inductive Wire.Next (k : Config) (v : Wire) : Body → Wire → Prop
  | data {d} (going : v.finished = false) (more : v.ended = false)
      (contiguous : d.offset = v.offset) (nonempty : d.payload ≠ [])
      (bounded : d.payload.length ≤ k.maxPayload) :
      Next k v (.data d) { v with offset := v.offset + d.payload.length }
  | window {w} (going : v.finished = false) (up : v.limit < w.maxOffset) :
      Next k v (.window w) { v with limit := w.maxOffset }
  | flush {b} (going : v.finished = false) (more : v.ended = false)
      (up : v.serial < b.barrierId) (here : b.offset = v.offset) :
      Next k v (.flush b) { v with serial := b.barrierId }
  | flushed {b} (going : v.finished = false) : Next k v (.flushed b) v
  | endWrite {e} (going : v.finished = false) (first : v.ended = false)
      (total : e.finalOffset = v.offset) : Next k v (.endWrite e) { v with ended := true }
  | close {x} (going : v.finished = false) (side : k.side = .initiator)
      (after : v.ended = true) (first : v.closed = false) (total : x.finalOffset = v.offset) :
      Next k v (.close x) { v with closed := true }
  | closed {x} (going : v.finished = false) (side : k.side = .endpoint)
      (after : v.ended = true) : Next k v (.closed x) { v with finished := true }
  | failure {b} (going : v.finished = false) (failure : b.IsFailure) :
      Next k v b { v with finished := true }

namespace Wire

variable {k : Config} {v v' : Wire} {b : Body} {c : List Body}

/-- What was said stays said. -/
structure Le (v v' : Wire) : Prop where
  offset : v.offset ≤ v'.offset
  limit : v.limit ≤ v'.limit
  serial : v.serial ≤ v'.serial
  ended : v.ended = true → v'.ended = true ∧ v'.offset = v.offset
  closed : v.closed = true → v'.closed = true
  finished : v.finished = true → v'.finished = true

theorem Le.refl (v : Wire) : v.Le v :=
  ⟨le_rfl, le_rfl, le_rfl, fun h => ⟨h, rfl⟩, id, id⟩

theorem Le.trans {u v w : Wire} (h : u.Le v) (h' : v.Le w) : u.Le w where
  offset := h.offset.trans h'.offset
  limit := h.limit.trans h'.limit
  serial := h.serial.trans h'.serial
  ended he :=
    have ⟨h1, h2⟩ := h.ended he
    have ⟨h3, h4⟩ := h'.ended h1
    ⟨h3, h4.trans h2⟩
  closed hc := h'.closed (h.closed hc)
  finished ho := h'.finished (h.finished ho)

theorem Next.le (h : Next k v b v') : v.Le v' := by
  cases h with
  | data going more => exact { Le.refl v with
      offset := by simp only; omega
      ended := fun h => by simp [h] at more }
  | window going up => exact { Le.refl v with limit := up.le }
  | flush going more up => exact { Le.refl v with serial := up.le }
  | flushed => exact Le.refl v
  | endWrite => exact { Le.refl v with ended := fun _ => ⟨rfl, rfl⟩ }
  | close => exact { Le.refl v with closed := fun _ => rfl }
  | closed => exact { Le.refl v with finished := fun _ => rfl }
  | failure => exact { Le.refl v with finished := fun _ => rfl }

theorem le_of_run (h : Run (Next k) v c v') : v.Le v' :=
  h.invariant (P := fun _ v' => v.Le v') (Le.refl v)
    fun _ _ _ _ _ hle hnext => hle.trans hnext.le

end Wire

/-! ### The machine keeps to the grammar, from any point on -/

namespace Event

/-- The body of the message handed out, if any. -/
def spoken (e : Event) : List Body := e.emitted.toList.filterMap bodyOf

/-- The body of a message that was delivered without an error. -/
def heard : Event → List Body
  | (.receive e, .done (.ok ())) => (bodyOf e).toList
  | _ => []

theorem Silent.spoken {e : Event} (h : e.Silent) : e.spoken = [] := by
  simp [Event.spoken, h.emitted]

theorem Silent.heard {e : Event} (h : e.Silent) : e.heard = [] := by
  unfold Event.heard
  split
  next message => exact absurd rfl (h.receive message)
  next => rfl

@[simp] theorem spoken_seal (k : Config) (b : Body) :
    spoken (.nextMessage, .message (some (k.seal b))) = [b] := by
  simp [spoken, emitted]

@[simp] theorem spoken_call (c : Call) (o : Outcome) : spoken (.call c, o) = [] := by
  cases c <;> cases o <;> rfl

@[simp] theorem spoken_receive (e : Envelope) (o : Outcome) : spoken (.receive e, o) = [] := by
  cases o <;> rfl

@[simp] theorem heard_nextMessage (o : Outcome) : heard (.nextMessage, o) = [] := by
  cases o <;> rfl

end Event

/-- `v` is what the messages of a machine in the state `c` come to. -/
structure Says (c : Core) (v : Wire) : Prop where
  offset : v.offset = c.sent
  limit : v.limit = c.advertisedLimit
  serial : v.serial ≤ c.flushSerial
  unsent : ∀ f, c.flush = some f → f.sent = false → v.serial < f.id
  ended : v.ended = c.endSent
  closed : v.closed = c.closeSent
  finished : v.finished = true → ¬ c.Live ∧ c.terminalMessage = none

namespace Says

variable {c : Core} {v : Wire}

theorem initial (k : Config) : Says (StreamMachine.initial k).core (Wire.initial k) where
  offset := rfl
  limit := rfl
  serial := le_rfl
  unsent _ h := nomatch h
  ended := rfl
  closed := rfl
  finished h := nomatch h

theorem going (hv : Says c v) (hl : c.Live) : v.finished = false := by
  by_contra h
  exact (hv.finished (by simpa using h)).1 hl

theorem tick (hv : Says c v) (t : ℕ) : Says { c with now := t } v := { hv with }

theorem fail (hv : Says c v) (hl : c.Live) (error : Error) : Says (c.failed error) v :=
  { hv with
    unsent := fun _ h => nomatch h
    finished := fun h => absurd hl (hv.finished h).1 }

theorem failWith (hv : Says c v) (hl : c.Live) (error : Error) (message : Envelope) :
    Says (c.failedWith error message) v :=
  { hv.fail hl error with finished := fun h => absurd hl (hv.finished h).1 }

theorem take (hv : Says c v) (hl : c.Live) (b : Body) : Says (c.after b) v := by
  have hover (h : v.finished = true) : False := (hv.finished h).1 hl
  cases b with
  | flushed b =>
    exact { hv with
      unsent := fun _ h => nomatch h
      finished := fun h => (hover h).elim }
  | closed x =>
    unfold Core.after
    dsimp only
    split
    · exact hv.fail hl _
    · exact { hv with finished := fun h => (hover h).elim }
  | cancel x => exact hv.fail hl _
  | failed f => exact hv.fail hl _
  | _ => exact { hv with finished := fun h => (hover h).elim }

/-- What one move says continues the conversation. -/
theorem move {e : Event} {c' : Core} (hs : c.Sound) (hv : Says c v) (h : Move c e c') :
    ∃ v', Run (Wire.Next c.config) v e.spoken v' ∧ Says c' v' := by
  have quiet : e.spoken = [] → Says c' v → ∃ v', Run (Wire.Next c.config) v e.spoken v' ∧
      Says c' v' :=
    fun he hv' => ⟨v, he ▸ .nil, hv'⟩
  have speak : ∀ {b v'}, e.spoken = [b] → Wire.Next c.config v b v' → Says c' v' →
      ∃ v', Run (Wire.Next c.config) v e.spoken v' ∧ Says c' v' :=
    fun he hnext hv' => ⟨_, he ▸ .single hnext, hv'⟩
  cases h with
  | idle hsilent => exact quiet hsilent.spoken hv
  | tick => exact quiet rfl (hv.tick _)
  | write => exact quiet rfl { hv with }
  | overflow hl => exact quiet rfl (hv.failWith hl _ _)
  | read => exact quiet (Event.spoken_call _ _) { hv with }
  | flush => exact quiet rfl { hv with
      serial := by have := hv.serial; simp only; omega
      unsent := fun f hf _ => by
        obtain rfl := Option.some.inj hf
        have := hv.serial
        simp only; omega }
  | reflush => exact quiet rfl hv
  | flushOverflow => exact quiet rfl { hv with
      serial := by have := hv.serial; simp only; omega }
  | endWrite => exact quiet rfl { hv with }
  | startClose => exact quiet rfl { hv with }
  | completeClose hsilent => exact quiet hsilent.spoken { hv with }
  | @fail _ t _ hsilent hl => exact quiet hsilent.spoken ((hv.tick t).failWith hl _ _)
  | failTerminal hl => exact quiet rfl (hv.failWith hl _ _)
  | disconnect hl => exact quiet rfl { hv.fail hl .carrierLost with
      finished := fun h => absurd hl (hv.finished h).1 }
  | hangUp => exact quiet rfl { hv with finished := fun h => ⟨(hv.finished h).1, rfl⟩ }
  | sendTerminal hpending =>
    obtain ⟨herror, b, rfl, hb⟩ := hs.terminal _ hpending
    have hgoing : v.finished = false := by
      by_contra h
      simp [(hv.finished (by simpa using h)).2] at hpending
    have hfailure : b.IsFailure := by
      obtain ⟨error, rfl⟩ | ⟨f, rfl, -⟩ := hb
      · exact failureBody_isFailure _ _
      · trivial
    exact speak (Event.spoken_seal _ _) (.failure hgoing hfailure)
      { hv with finished := fun _ => ⟨fun hl => herror hl.1, rfl⟩ }
  | sendFlushed hl => exact speak (Event.spoken_seal _ _) (.flushed (hv.going hl)) { hv with }
  | sendWindow hl hmore =>
    exact speak (Event.spoken_seal _ _) (.window (hv.going hl) (hv.limit ▸ hmore))
      { hv with limit := rfl }
  | sendClosed hl hx =>
    have hp := hs.close_pending (by simp [hx])
    have hterminal : c.terminalMessage = none := by
      by_contra h
      obtain ⟨e, he⟩ := Option.ne_none_iff_exists'.1 h
      exact (hs.terminal e he).1 hl.1
    exact speak (Event.spoken_seal _ _)
      (.closed (hv.going hl) (hs.close_received hp.1).1 (hv.ended.trans hp.2.1))
      { hv with finished := fun _ => ⟨fun hl' => (nomatch hl'.2), hterminal⟩ }
  | @sendFlush f hl hf hunsent hdrained =>
    have hmore : v.ended = false := by
      rw [hv.ended]
      by_contra h
      simp [(hs.end_sent (by simpa using h)).2.2 f hf] at hunsent
    exact speak (Event.spoken_seal _ _)
      (.flush (hv.going hl) hmore (hv.unsent f hf hunsent) (hdrained.symm.trans hv.offset.symm))
      { hv with
        serial := (hs.flush_pending f hf).2.1.le
        unsent := fun g hg hsent => by
          obtain rfl := Option.some.inj hg
          simp at hsent }
  | sendData hl hsend hcredit =>
    have hmore : v.ended = false := by
      rw [hv.ended]
      by_contra h
      exact hsend (hs.end_sent (by simpa using h)).2.1
    have hpos := hs.dataCount_pos hsend hcredit
    have hlen : (c.send.take c.dataCount).length = c.dataCount :=
      List.length_take_of_le (Core.Sound.dataCount_le c)
    refine speak (Event.spoken_seal _ _)
      (.data (hv.going hl) hmore hv.offset.symm ?_ ?_) { hv with offset := ?_ }
    · exact List.ne_nil_of_length_pos (by rw [hlen]; exact hpos)
    · rw [hlen]; unfold Core.dataCount; omega
    · simp only [hlen, hv.offset, Core.pushed]
  | sendEnd hl _ hfirst =>
    exact speak (Event.spoken_seal _ _)
      (.endWrite (hv.going hl) (hv.ended.trans hfirst) hv.offset.symm) { hv with ended := rfl }
  | sendClose hl hside _ hend hfirst =>
    exact speak (Event.spoken_seal _ _)
      (.close (hv.going hl) hside (hv.ended.trans hend) (hv.closed.trans hfirst) hv.offset.symm)
      { hv with closed := rfl }
  | ignore => exact quiet rfl hv
  | expire hl => exact quiet rfl (hv.failWith hl _ _)
  | refuse hl => exact quiet rfl (hv.failWith hl _ _)
  | take hl good => exact quiet rfl (hv.take hl _)

end Says

/-! ### Flushes and their answers -/

/-- A message handed out, or one delivered without an error. -/
inductive Said
  | out (b : Body)
  | heard (b : Body)

/-- What an event adds to the conversation. -/
def Event.said (e : Event) : List Said := e.spoken.map .out ++ e.heard.map .heard

/-- The state of a conversation as one machine takes part in it. -/
structure Grammar where
  wire : Wire
  /-- The own flush that is not answered yet. -/
  waiting : Option Barrier
  /-- The peer's flushes that are not answered yet. -/
  asked : List Barrier

def Grammar.initial (k : Config) : Grammar := ⟨Wire.initial k, none, []⟩

/-- The conversation's rules: what is said keeps to the order of the messages, a flush waits for
the answer to the one before, and an answer uses up one flush that was heard. -/
inductive Grammar.Next (k : Config) (g : Grammar) : Said → Grammar → Prop
  | say {b v} (order : g.wire.Next k b v)
      (plain : ∀ x, b ≠ .flush x ∧ b ≠ .flushed x) : Next k g (.out b) { g with wire := v }
  | ask {x v} (order : g.wire.Next k (.flush x) v) (settled : g.waiting = none) :
      Next k g (.out (.flush x)) { g with wire := v, waiting := some x }
  | answer {x v} (order : g.wire.Next k (.flushed x) v) (open_ : x ∈ g.asked) :
      Next k g (.out (.flushed x)) { g with wire := v, asked := g.asked.erase x }
  | hearFlush {x} : Next k g (.heard (.flush x)) { g with asked := x :: g.asked }
  | hearFlushed {x} : Next k g (.heard (.flushed x))
        { g with waiting := if g.waiting = some x then none else g.waiting }
  | hear {b} (plain : ∀ x, b ≠ .flush x ∧ b ≠ .flushed x) : Next k g (.heard b) g

/-- The barrier of a flush that is on its way or being answered. -/
def inFlight (flush : Option PendingFlush) : Option Barrier :=
  flush.bind fun f => if f.sent then some ⟨f.id, f.offset⟩ else none

/-- The machine in the state `c` takes part in the conversation `g`. -/
structure Follows (c : Core) (g : Grammar) : Prop where
  wire : Says c g.wire
  waiting : c.Live → g.waiting = inFlight c.flush
  asked : c.Live → g.asked = c.peerFlush.toList

/-- Anything may be heard, and it changes nothing of what was said. -/
theorem Grammar.exists_hear (k : Config) (g : Grammar) (b : Body) :
    ∃ g', Grammar.Next k g (.heard b) g' ∧ g'.wire = g.wire := by
  cases b with
  | flush x => exact ⟨_, .hearFlush, rfl⟩
  | flushed x => exact ⟨_, .hearFlushed, rfl⟩
  | _ => exact ⟨g, .hear fun x => ⟨nofun, nofun⟩, rfl⟩

namespace Follows

variable {c : Core} {g : Grammar}

theorem initial (k : Config) : Follows (StreamMachine.initial k).core (Grammar.initial k) :=
  ⟨Says.initial k, fun _ => rfl, fun _ => rfl⟩

/-- What a move that takes a body adds to the conversation. -/
theorem take (hg : Follows c g) {b : Body} (hl : c.Live) (ha : c.Accepts b) :
    ∃ g', Grammar.Next c.config g (.heard b) g' ∧ Follows (c.after b) g' := by
  have hsays := hg.wire.take hl b
  cases b with
  | flush x =>
    refine ⟨_, .hearFlush, hsays, fun _ => hg.waiting hl, fun _ => ?_⟩
    rw [hg.asked hl, ha.1]
    rfl
  | flushed x =>
    have hwaiting : g.waiting = some x := by
      rw [hg.waiting hl, show c.flush = _ from ha]
      rfl
    exact ⟨_, .hearFlushed, hsays, fun _ => if_pos hwaiting, fun _ => hg.asked hl⟩
  | closed x =>
    have hdead := c.not_live_after_closed x
    exact ⟨g, .hear fun x => ⟨nofun, nofun⟩, hsays, fun h => absurd h hdead,
      fun h => absurd h hdead⟩
  | cancel x =>
    have hdead : ¬ (c.after (.cancel x)).Live := c.not_live_failed _
    exact ⟨g, .hear fun x => ⟨nofun, nofun⟩, hsays, fun h => absurd h hdead,
      fun h => absurd h hdead⟩
  | failed x =>
    have hdead : ¬ (c.after (.failed x)).Live := c.not_live_failed _
    exact ⟨g, .hear fun x => ⟨nofun, nofun⟩, hsays, fun h => absurd h hdead,
      fun h => absurd h hdead⟩
  | _ =>
    exact ⟨g, .hear fun x => ⟨nofun, nofun⟩, hsays, fun _ => hg.waiting hl, fun _ => hg.asked hl⟩

/-- One move continues the conversation by its rules. -/
theorem move {e : Event} {c' : Core} (hs : c.Sound) (hg : Follows c g) (h : Move c e c') :
    ∃ g', Run (Grammar.Next c.config) g e.said g' ∧ Follows c' g' := by
  obtain ⟨v, hrun, hsays⟩ := hg.wire.move hs h
  -- a move that neither speaks nor hears, and keeps the flushes if it keeps the machine live
  have still : e.spoken = [] → e.heard = [] → (c'.Live → c.Live ∧
      inFlight c'.flush = inFlight c.flush ∧ c'.peerFlush = c.peerFlush) →
      ∃ g', Run (Grammar.Next c.config) g e.said g' ∧ Follows c' g' :=
      fun hspoken hheard hkeep => by
    rw [hspoken] at hrun
    obtain rfl := hrun.eq_of_nil
    refine ⟨g, ?_, hsays, fun hl => ?_, fun hl => ?_⟩
    · simpa [Event.said, hspoken, hheard] using Run.nil
    · rw [hg.waiting (hkeep hl).1, (hkeep hl).2.1]
    · rw [hg.asked (hkeep hl).1, (hkeep hl).2.2]
  -- a message that is no part of a flush
  have plain : ∀ b, e.spoken = [b] → e.heard = [] → (∀ x, b ≠ .flush x ∧ b ≠ .flushed x) →
      (c'.Live → c.Live ∧ inFlight c'.flush = inFlight c.flush ∧ c'.peerFlush = c.peerFlush) →
      ∃ g', Run (Grammar.Next c.config) g e.said g' ∧ Follows c' g' :=
    fun b hspoken hheard hplain hkeep => by
    rw [hspoken] at hrun
    refine ⟨{ g with wire := v }, ?_, hsays, fun hl => ?_, fun hl => ?_⟩
    · simpa [Event.said, hspoken, hheard] using Run.single (.say hrun.step_of_single hplain)
    · exact (hg.waiting (hkeep hl).1).trans (hkeep hl).2.1.symm
    · exact (hg.asked (hkeep hl).1).trans (congrArg _ (hkeep hl).2.2.symm)
  have fails : ∀ {c₁ error}, c' = Core.failed c₁ error ∨ (∃ m, c' = c₁.failedWith error m) →
      c'.Live → c.Live ∧ inFlight c'.flush = inFlight c.flush ∧ c'.peerFlush = c.peerFlush := by
    rintro c₁ error (rfl | ⟨m, rfl⟩) hl <;> exact absurd hl (c₁.not_live_failed error)
  cases h with
  | idle hsilent => exact still hsilent.spoken hsilent.heard fun hl => ⟨hl, rfl, rfl⟩
  | tick => exact still rfl rfl fun hl => ⟨hl, rfl, rfl⟩
  | write => exact still rfl rfl fun hl => ⟨hl, rfl, rfl⟩
  | overflow hl => exact still rfl rfl (fails (.inr ⟨_, rfl⟩))
  | read => exact still (Event.spoken_call _ _) rfl fun hl => ⟨hl, rfl, rfl⟩
  | flush hl hfree => exact still rfl rfl fun _ => ⟨hl, by rw [hfree]; rfl, rfl⟩
  | reflush => exact still rfl rfl fun hl => ⟨hl, rfl, rfl⟩
  | flushOverflow => exact still rfl rfl fun hl => ⟨hl, rfl, rfl⟩
  | endWrite => exact still rfl rfl fun hl => ⟨hl, rfl, rfl⟩
  | startClose => exact still rfl rfl fun hl => ⟨hl, rfl, rfl⟩
  | completeClose hsilent => exact still hsilent.spoken hsilent.heard fun hl => ⟨hl, rfl, rfl⟩
  | fail hsilent => exact still hsilent.spoken hsilent.heard (fails (.inr ⟨_, rfl⟩))
  | failTerminal => exact still rfl rfl (fails (.inr ⟨_, rfl⟩))
  | disconnect => exact still rfl rfl fun hl => absurd hl (c.not_live_failed .carrierLost)
  | hangUp hdead => exact still rfl rfl fun hl => absurd hl hdead
  | sendTerminal hpending =>
    obtain ⟨herror, b, rfl, hb⟩ := hs.terminal _ hpending
    refine plain b (Event.spoken_seal _ _) rfl (fun x => ?_) fun hl => absurd hl.1 herror
    obtain ⟨error, rfl⟩ | ⟨f, rfl, -⟩ := hb
    · have := failureBody_isFailure c.config.side error
      constructor <;> (intro h; rw [h] at this; exact this)
    · exact ⟨nofun, nofun⟩
  | @sendFlushed b hl hb =>
    rw [Event.spoken_seal] at hrun
    refine ⟨{ g with wire := v, asked := g.asked.erase b }, ?_, hsays, fun _ => hg.waiting hl,
      fun _ => ?_⟩
    · simpa [Event.said] using Run.single (.answer hrun.step_of_single (by simp [hg.asked hl, hb]))
    · simp [hg.asked hl, hb]
  | sendWindow =>
    exact plain _ (Event.spoken_seal _ _) rfl (fun x => ⟨nofun, nofun⟩) fun hl => ⟨hl, rfl, rfl⟩
  | sendClosed =>
    exact plain _ (Event.spoken_seal _ _) rfl (fun x => ⟨nofun, nofun⟩) fun hl => (nomatch hl.2)
  | @sendFlush f hl hf hunsent =>
    rw [Event.spoken_seal] at hrun
    refine ⟨{ g with wire := v, waiting := some ⟨f.id, f.offset⟩ }, ?_, hsays, fun _ => rfl,
      fun _ => hg.asked hl⟩
    have hsettled : g.waiting = none := by simp [hg.waiting hl, hf, inFlight, hunsent]
    simpa [Event.said] using Run.single (.ask hrun.step_of_single hsettled)
  | sendData =>
    exact plain _ (Event.spoken_seal _ _) rfl (fun x => ⟨nofun, nofun⟩) fun hl => ⟨hl, rfl, rfl⟩
  | sendEnd =>
    exact plain _ (Event.spoken_seal _ _) rfl (fun x => ⟨nofun, nofun⟩) fun hl => ⟨hl, rfl, rfl⟩
  | sendClose =>
    exact plain _ (Event.spoken_seal _ _) rfl (fun x => ⟨nofun, nofun⟩) fun hl => ⟨hl, rfl, rfl⟩
  | @ignore e hdead =>
    obtain rfl := (show Run (Wire.Next c.config) g.wire [] v from hrun).eq_of_nil
    cases hb : bodyOf e with
    | none => exact still rfl (by simp [Event.heard, hb]) fun hl => absurd hl hdead
    | some b =>
      obtain ⟨g', hnext, hwire⟩ := g.exists_hear c.config b
      refine ⟨g', ?_, hwire ▸ hsays, fun hl => absurd hl hdead, fun hl => absurd hl hdead⟩
      simpa [Event.said, Event.heard, hb] using Run.single hnext
  | expire => exact still rfl rfl (fails (.inr ⟨_, rfl⟩))
  | refuse => exact still rfl rfl (fails (.inr ⟨_, rfl⟩))
  | take hl good =>
    obtain ⟨g', hnext, hg'⟩ := hg.take hl good.accepts
    refine ⟨g', ?_, hg'⟩
    simpa [Event.said, Event.heard, good.body] using Run.single hnext

end Follows

/-- A machine's conversation keeps to the grammar from the first message on. -/
theorem follows_of_run {k : Config} {tr : List Event} {m₀ m : StreamMachine}
    (h₀ : StreamMachine.new k = .ok m₀) (h : Run Step m₀ tr m) :
    ∃ g, Run (Grammar.Next k) (Grammar.initial k) (tr.flatMap Event.said) g ∧
      Follows m.core g := by
  refine h.invariant (P := fun tr m => ∃ g, Run (Grammar.Next k) (Grammar.initial k)
    (tr.flatMap Event.said) g ∧ Follows m.core g) ?_ fun tr m e m' hr ⟨g, hrun, hg⟩ hstep => ?_
  · obtain ⟨-, rfl⟩ := StreamMachine.new_eq_ok h₀
    exact ⟨_, .nil, Follows.initial k⟩
  · obtain ⟨g', hrun', hg'⟩ := hg.move (sound_of_run h₀ hr) hstep.move
    have hconfig : m.core.config = k := by
      obtain ⟨-, rfl⟩ := StreamMachine.new_eq_ok h₀
      exact config_of_run hr
    rw [hconfig] at hrun'
    exact ⟨g', by simpa using hrun.append hrun', hg'⟩

/-! ### After the end -/

/-- The bytes of the data bodies, in order. -/
def payloads (c : List Body) : List UInt8 :=
  c.flatMap fun
    | .data d => d.payload
    | _ => []

theorem Move.returned_read {c : Core} {n k : ℕ} {r : Except Error (List UInt8)}
    (hr : r = .ok (c.recv.take k) ∨ k = 0 ∧ ∀ bytes, r = .ok bytes → bytes = []) :
    Event.returned (.call (.read n), .bytes r) ++ (c.read n k).recv = c.recv := by
  obtain rfl | ⟨rfl, hbytes⟩ := hr
  · exact List.take_append_drop k c.recv
  · cases r with
    | error e => rfl
    | ok bytes => simp [hbytes bytes rfl, Event.returned, Core.read]

/-- A terminal state is final; what is left is to read what was received. -/
theorem Move.dead {c c' : Core} {e : Event} (h : Move c e c') (hdead : ¬ c.Live) :
    c'.error = c.error ∧ c'.completed = c.completed ∧ e.returned ++ c'.recv = c.recv := by
  cases h with
  | idle hsilent => exact ⟨rfl, rfl, by rw [hsilent.returned, List.nil_append]⟩
  | tick => exact ⟨rfl, rfl, rfl⟩
  | read _ hr => exact ⟨rfl, rfl, Move.returned_read hr⟩
  | hangUp => exact ⟨rfl, rfl, rfl⟩
  | sendTerminal => exact ⟨rfl, rfl, rfl⟩
  | ignore => exact ⟨rfl, rfl, rfl⟩
  | flush hl | reflush hl | flushOverflow hl | endWrite hl | startClose hl | disconnect hl
  | sendFlushed hl | sendWindow hl | sendClosed hl | sendFlush hl | sendData hl | sendEnd hl
  | sendClose hl | expire hl | refuse hl | take hl | write hl | overflow hl
  | completeClose _ hl | fail _ hl | failTerminal hl => exact absurd hl hdead

theorem Move.live {c c' : Core} {e : Event} (h : Move c e c') (hl : c'.Live) : c.Live := by
  by_contra hdead
  obtain ⟨herror, hcompleted, -⟩ := h.dead hdead
  exact hdead ⟨herror.symm.trans hl.1, hcompleted.symm.trans hl.2⟩

/-- The move into a terminal state leaves what was received. -/
theorem Move.dying {c c' : Core} {e : Event} (h : Move c e c') (hl : c.Live)
    (hdead : ¬ c'.Live) : c'.recv = c.recv ∧ e.returned = [] := by
  cases h with
  | idle hsilent => exact absurd hl hdead
  | fail hsilent => exact ⟨rfl, hsilent.returned⟩
  | completeClose => exact absurd hl hdead
  | @take _ b _ good =>
    refine ⟨?_, rfl⟩
    cases b with
    | closed x => unfold Core.after; dsimp only; split <;> rfl
    | cancel x => rfl
    | failed f => rfl
    | _ => exact absurd hl hdead
  | overflow | failTerminal | disconnect | sendClosed | expire | refuse => exact ⟨rfl, rfl⟩
  | _ => exact absurd hl hdead

/-- While a machine is live and keeps its input, every byte it took is returned or buffered. -/
theorem Move.kept {c c' : Core} {e : Event} (h : Move c e c') (hl : c'.Live)
    (hkeep : c'.discarding = false) :
    c.Live ∧ c.discarding = false ∧ e.returned ++ c'.recv = c.recv ++ payloads e.heard := by
  cases h with
  | idle hsilent =>
    exact ⟨hl, hkeep, by rw [hsilent.returned, hsilent.heard, List.nil_append]; simp [payloads]⟩
  | read _ hr =>
    exact ⟨hl, hkeep, by rw [Move.returned_read hr]; simp [payloads, Event.heard]⟩
  | completeClose hsilent _ =>
    exact ⟨hl, hkeep, by rw [hsilent.returned, hsilent.heard, List.nil_append]; simp [payloads]⟩
  | startClose => simp at hkeep
  | ignore hdead => exact absurd hl hdead
  | hangUp hdead => exact absurd hl hdead
  | fail => exact absurd hl (Core.not_live_failed _ _)
  | @take message b hl' good =>
    have hheard : Event.heard (.receive message, .done (.ok ())) = [b] := by
      simp [Event.heard, good.body]
    rw [hheard]
    cases b with
    | data d =>
      have hkeep : c.discarding = false := hkeep
      exact ⟨hl', hkeep, by simp [c.after_data_keeping hkeep, payloads, Event.returned]⟩
    | closed x => exact absurd hl (c.not_live_after_closed x)
    | cancel x => exact absurd hl (Core.not_live_failed _ _)
    | failed f => exact absurd hl (Core.not_live_failed _ _)
    | _ => exact ⟨hl', hkeep, by simp [Core.after, payloads, Event.returned]⟩
  | sendClosed => exact absurd hl.2 (by simp)
  | overflow | failTerminal | disconnect | expire | refuse =>
    exact absurd hl (Core.not_live_failed _ _)
  | _ =>
    exact ⟨hl, hkeep, by simp [payloads, Event.heard, Event.returned, Core.pushed, Core.tell]⟩

theorem dead_of_run {m m' : StreamMachine} {tr : List Event} (h : Run Step m tr m')
    (hdead : ¬ m.core.Live) :
    m'.error = m.error ∧ m'.completed = m.completed ∧
      tr.flatMap Event.returned ++ m'.recv = m.recv := by
  refine h.invariant (P := fun tr m' => m'.error = m.error ∧ m'.completed = m.completed ∧
    tr.flatMap Event.returned ++ m'.recv = m.recv) ⟨rfl, rfl, rfl⟩
    fun tr m₁ e m₂ _ ⟨herror, hcompleted, hbytes⟩ hstep => ?_
  have hdead₁ : ¬ m₁.core.Live := by
    unfold Core.Live
    rwa [show m₁.core.error = m.core.error from herror,
      show m₁.core.completed = m.core.completed from hcompleted]
  obtain ⟨herror', hcompleted', hbytes'⟩ := hstep.move.dead hdead₁
  refine ⟨herror'.trans herror, hcompleted'.trans hcompleted, ?_⟩
  rw [← hbytes, List.flatMap_append, List.flatMap_singleton, List.append_assoc]
  exact congrArg _ hbytes'

theorem kept_of_run {k : Config} {tr : List Event} {m₀ m : StreamMachine}
    (h₀ : StreamMachine.new k = .ok m₀) (h : Run Step m₀ tr m) (hl : m.core.Live)
    (hkeep : m.discarding = false) :
    tr.flatMap Event.returned ++ m.recv = payloads (tr.flatMap Event.heard) := by
  revert hl hkeep
  refine h.invariant (P := fun tr m => m.core.Live → m.discarding = false →
    tr.flatMap Event.returned ++ m.recv = payloads (tr.flatMap Event.heard))
    (fun _ _ => ?_) fun tr m e m' _ ih hstep hl hkeep => ?_
  · obtain ⟨-, rfl⟩ := StreamMachine.new_eq_ok h₀
    rfl
  · obtain ⟨hl₁, hkeep₁, hbytes⟩ := hstep.move.kept hl hkeep
    have hbytes : e.returned ++ m'.recv = m.recv ++ payloads e.heard := hbytes
    rw [List.flatMap_append, List.flatMap_singleton, List.append_assoc, hbytes,
      ← List.append_assoc, ih hl₁ hkeep₁]
    simp [payloads]

/-- A failed machine returns what it received, then its error. -/
theorem read_of_error {m : StreamMachine} {error : Error} (h : m.error = some error) {n : ℕ}
    (hn : 0 < n) :
    (m.read n).2 = if m.recv = [] then .error error else .ok (m.recv.take n) := by
  have hrecv : m.nudge.recv = m.recv := by unfold StreamMachine.nudge; split_ifs <;> rfl
  have herror : m.nudge.error = m.error := by unfold StreamMachine.nudge; split_ifs <;> rfl
  rw [StreamMachine.read, if_neg hn.ne', StreamMachine.readSome, hrecv, herror, h]
  cases hr : m.recv with
  | nil => simp
  | cons b bs => simp [List.take_eq_take_iff]

/-- **What a machine says, whatever it is told.**  The messages handed out, among those heard,
keep to the grammar; failure and completion exclude each other and are final; and what was
received before a failure is returned, in order, before the error is. -/
theorem output_grammar {k : Config} {tr : List Event} {m₀ m : StreamMachine}
    (h₀ : StreamMachine.new k = .ok m₀) (h : Run Step m₀ tr m) :
    (∃ g, Run (Grammar.Next k) (Grammar.initial k) (tr.flatMap Event.said) g) ∧
    (m.error = none ∨ m.completed = none) ∧
    (∀ tr' m', Run Step m tr' m' →
      (∀ error, m.error = some error → m'.error = some error ∧ m'.completed = none) ∧
      (∀ r, m.completed = some r → m'.completed = some r ∧ m'.error = none)) ∧
    (∀ e m₁ error tr' m₂, m.error = none → m.completed = none → Step m e m₁ →
      m₁.error = some error → Run Step m₁ tr' m₂ →
      (m.discarding = false →
        tr.flatMap Event.returned ++ m.recv = payloads (tr.flatMap Event.heard)) ∧
      tr'.flatMap Event.returned ++ m₂.recv = m.recv ∧
      ∀ n, 0 < n →
        (m₂.read n).2 = if m₂.recv = [] then .error error else .ok (m₂.recv.take n)) := by
  have hs := sound_of_run h₀ h
  have hexclusive : ∀ error, m.error = some error → m.completed = none :=
    fun error he => (hs.failed (by simp [StreamMachine.core, he])).1
  refine ⟨?_, ?_, fun tr' m' h' => ⟨fun error he => ?_, fun r hr => ?_⟩,
    fun e m₁ error tr' m₂ he hc hstep he₁ h' => ⟨fun hkeep => ?_, ?_, fun n hn => ?_⟩⟩
  · obtain ⟨g, hrun, -⟩ := follows_of_run h₀ h
    exact ⟨g, hrun⟩
  · cases he : m.error with
    | none => exact .inl rfl
    | some error => exact .inr (hexclusive error he)
  · obtain ⟨herror, hcompleted, -⟩ := dead_of_run h' fun hl => (by cases he.symm.trans hl.1)
    exact ⟨herror.trans he, hcompleted.trans (hexclusive error he)⟩
  · obtain ⟨herror, hcompleted, -⟩ := dead_of_run h' fun hl => (by cases hr.symm.trans hl.2)
    refine ⟨hcompleted.trans hr, herror.trans ?_⟩
    cases he : m.error with
    | none => rfl
    | some error => simp [hexclusive error he] at hr
  · exact kept_of_run h₀ h ⟨he, hc⟩ hkeep
  · have hdead : ¬ m₁.core.Live := fun hl => (by cases he₁.symm.trans hl.1)
    have hrecv : m₁.recv = m.recv := (hstep.move.dying ⟨he, hc⟩ hdead).1
    exact (dead_of_run h' hdead).2.2.trans hrecv
  · have hdead : ¬ m₁.core.Live := fun hl => (by cases he₁.symm.trans hl.1)
    exact read_of_error ((dead_of_run h' hdead).1.trans he₁) hn

/-- An endpoint that answers a flush, sends, ends its writing and is cancelled by its host. -/
theorem output_grammar_short_run :
    let k := Config.small .endpoint
    let r := (StreamMachine.initial k).exec
      [.receive (k.seal (.data ⟨0, [7, 8]⟩)), .receive (k.seal (.flush ⟨1, 2⟩)), .call (.read 1),
        .call (.write [1, 2, 3]), .call .endWrite, .call (.read 1), .nextMessage, .nextMessage,
        .nextMessage, .nextMessage, .call .cancel, .nextMessage, .nextMessage]
    r.2.flatMap Event.spoken = [.flushed ⟨1, 2⟩, .window ⟨10⟩, .data ⟨0, [1, 2, 3]⟩,
        .endWrite ⟨3⟩, .cancel ⟨.cancelled⟩] ∧
      ∃ g, Run (Grammar.Next k) (Grammar.initial k) (r.2.flatMap Event.said) g :=
  ⟨by decide +kernel, (output_grammar (k := Config.small .endpoint) rfl
    (StreamMachine.run_exec _ _)).1⟩

end GwzTransport.Stream
