import GwzTransport.Lib.Guarded
import GwzTransport.Mux.Machine

/-!
# What a multiplexer does to its streams

Of a multiplexer's state only a part decides which messages it hands out: the live requests, the
routes, the highest stream id, and the two queues.  `Router` is that part, and `Move` says how it
can change, one change at a time.  An operation of the multiplexer is a sequence of moves, so a
property that every move keeps is a property of every run.

A move shows a `Mark` where it matters outside: an item handed out or heard, a stream started, a
request sealed, a message of the bootstrap, a deadline, the end of the session.

`Rules` are what a move may rely on: the side, what was checked of a sent message, and the
discipline the host keeps.
-/

namespace GwzTransport.Mux

open Protocol

/-- A stream as its messages see it. -/
structure Stream where
  request : String
  kind : Kind
  scheme : Option Scheme
  policy : Option AuthPolicy
  cancelled : Bool
  deriving DecidableEq

/-- The state after a message; `none` is the end of the stream. -/
def Kind.after (state : Kind) (kind : MessageKind) : Option Kind :=
  if kind = .opened then some .stream else if ends kind then none else some state

def Stream.after (s : Stream) (kind : MessageKind) : Option Stream :=
  (s.kind.after kind).map fun state => { s with kind := state }

/-- The kind of the message with which a side ends a stream on its own. -/
def Kind.ending : Kind → MessageKind
  | .check => .identityCheckFailed
  | .opening => .openFailed
  | .stream => .failed

/-- The first state of a stream. -/
def Kind.first (kind : MessageKind) : Kind := if kind = .open_ then .opening else .check

/-- The stream that a message starts. -/
def Stream.first (item : Attachment) : Stream where
  request := item.1
  kind := Kind.first item.2.kind
  scheme := item.2.open_.map (·.destination.scheme)
  policy := item.2.open_.map (·.policy)
  cancelled := false

@[ext] structure Router where
  /-- The live requests with their operations. -/
  rows : String → Option (Option String)
  routes : ℤ → Option Stream
  highest : ℤ
  outbound : List Attachment
  actions : List Attachment

/-- What the outside sees of a move. -/
inductive Mark
  | message (item : Attachment)
  | action (item : Attachment)
  | heard (item : Attachment)
  | started (item : Attachment)
  | sealed (request : String)
  | control (item : Attachment)
  | expired (id : ℤ)
  | closed

structure Rules where
  endpoint : Bool
  /-- What was checked of a message before it was sent on a stream. -/
  valid : Stream → Attachment → Prop
  /-- What an endpoint's host still sends on a cancelled stream. -/
  late : MessageKind → Prop
  /-- Whether the host waits with a cancellation until no `Opened` is queued. -/
  tidy : Prop
  late_of_ends : ∀ {kind}, ends kind = true → late kind

namespace Router

variable (r : Router)

/-- A route's new state. -/
def setRoute (id : ℤ) (s : Option Stream) : Router :=
  { r with routes := Function.update r.routes id s }

def setRow (request : String) (row : Option (Option String)) : Router :=
  { r with rows := Function.update r.rows request row }

def queue (item : Attachment) : Router := { r with outbound := r.outbound ++ [item] }

def act (item : Attachment) : Router := { r with actions := r.actions ++ [item] }

/-- A new stream. -/
def start (item : Attachment) : Router :=
  { r.setRoute item.2.streamId (some (.first item)) with highest := item.2.streamId }

/-- A request's streams marked as cancelled. -/
def mark (request : String) : Router :=
  { r with routes := fun id => (r.routes id).map fun s =>
      if s.request = request then { s with cancelled := true } else s }

/-- Nothing left of the session. -/
def closed : Router := { r with rows := fun _ => none, routes := fun _ => none
                                outbound := [], actions := [] }

end Router

/-- The changes of a router, one at a time. -/
inductive Move (ρ : Rules) : Router → Option Mark → Router → Prop
  | register {r request} (operation : Option String) :
      r.rows request = none → Move ρ r none (r.setRow request (some operation))
  /-- The initiator starts a stream. -/
  | start {r item} : ρ.endpoint = false → starts item.2.kind = true → r.highest < item.2.streamId →
      ρ.valid (.first item) item → Move ρ r (some (.started item)) ((r.start item).queue item)
  /-- The endpoint hears of a new stream. -/
  | hearStart {r item} (operation : String) :
      ρ.endpoint = true → starts item.2.kind = true → r.highest < item.2.streamId →
      Move ρ r (some (.heard item))
        (((r.setRow item.1 (some (some operation))).start item).act item)
  | send {r item s} : r.routes item.2.streamId = some s → s.request = item.1 →
      validKind ρ.endpoint s.kind item.2.kind = true → ρ.valid s item →
      (ρ.endpoint = true → s.cancelled = true → ρ.late item.2.kind) →
      Move ρ r none ((r.setRoute item.2.streamId (s.after item.2.kind)).queue item)
  | hear {r item s} : r.routes item.2.streamId = some s → s.request = item.1 →
      validKind (!ρ.endpoint) s.kind item.2.kind = true →
      Move ρ r (some (.heard item)) ((r.setRoute item.2.streamId (s.after item.2.kind)).act item)
  /-- The endpoint's host is told of a cancellation. -/
  | notice {r item s} : ρ.endpoint = true → r.routes item.2.streamId = some s → s.request = item.1 →
      item.2.kind = .cancel → Move ρ r none (r.act item)
  /-- The initiator's host is told of a timeout. -/
  | expire {r item s} :
      ρ.endpoint = false → r.routes item.2.streamId = some s → s.request = item.1 →
      item.2.kind = s.kind.ending →
      Move ρ r (some (.expired item.2.streamId)) ((r.setRoute item.2.streamId none).act item)
  | control {r item} : item.2.streamId = 0 → Move ρ r (some (.control item)) (r.queue item)
  | handOut {r item rest} :
      r.outbound = item :: rest → Move ρ r (some (.message item)) { r with outbound := rest }
  | handAction {r item rest} :
      r.actions = item :: rest → Move ρ r (some (.action item)) { r with actions := rest }
  /-- The initiator's cancellation, from its slot. -/
  | ask {r item s} : ρ.endpoint = false → r.routes item.2.streamId = some s → s.cancelled = true →
      s.request = item.1 → item.2.kind = .cancel → ρ.valid s item →
      (∀ x ∈ r.outbound, x.2.streamId = item.2.streamId → starts x.2.kind = false) →
      Move ρ r (some (.message item))
        (r.setRoute item.2.streamId (some { s with cancelled := false }))
  /-- The endpoint's end of a cancelled stream, from its slot. -/
  | giveUp {r item s} : ρ.endpoint = true → r.routes item.2.streamId = some s → s.cancelled = true →
      s.request = item.1 → item.2.kind = s.kind.ending → ρ.valid s item →
      Move ρ r (some (.message item)) (r.setRoute item.2.streamId none)
  | discard {r} (request : String) :
      (ρ.tidy → ∀ x ∈ r.outbound, x.1 = request → x.2.kind ≠ .opened) →
      Move ρ r (some (.sealed request))
        { r.setRow request none with outbound := r.outbound.filter (Queue.kept request) }
  | dropActions {r} (request : String) :
      Move ρ r none { r with actions := r.actions.filter fun item =>
        item.1 != request || terminal item.2.kind }
  | mark {r} (request : String) :
      (∀ x ∈ r.outbound, Queue.kept request x = true) → Move ρ r none (r.mark request)
  | close {r} : Move ρ r (some .closed) r.closed

/-! ### Kinds -/

theorem Kind.after_ending (state : Kind) : state.after state.ending = none := by
  cases state <;> rfl

theorem ends_ending (state : Kind) : ends state.ending = true := by cases state <;> rfl

theorem validKind_ending (state : Kind) : validKind true state state.ending = true := by
  cases state <;> rfl

theorem validKind_cancel (state : Kind) : validKind false state .cancel = true := by
  cases state <;> rfl

theorem terminal_of_ends {kind : MessageKind} (h : ends kind = true) : terminal kind = true := by
  cases kind <;> first | rfl | cases h

/-- What a side may send never starts a stream. -/
theorem starts_of_validKind {side : Bool} {state : Kind} {kind : MessageKind}
    (h : validKind side state kind = true) : starts kind = false := by
  cases kind with
  | open_ => cases state <;> cases side <;> cases h
  | checkIdentity => cases state <;> cases side <;> cases h
  | _ => rfl

/-! ### The router of a multiplexer -/

def Route.stream (route : Route) : Stream :=
  ⟨route.request, route.kind, route.scheme, route.policy, route.cancel.isSome⟩

/-- What counts of a request's row: whether it is live, and its operation. -/
def Request.view (row : Request) : Option (Option String) :=
  if row.sealed then none else some row.operation

def router (m : Mux) : Router where
  rows request := (m.requests.get? request).bind Request.view
  routes id := (m.routes.get? id).map Route.stream
  highest := m.highestId
  outbound := m.outbound.attachments
  actions := m.actions.attachments

end GwzTransport.Mux
