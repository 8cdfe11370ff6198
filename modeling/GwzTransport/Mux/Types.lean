import GwzTransport.Binding
import GwzTransport.Lib.SortedMap

/-!
# The request multiplexer: its types

`mux/mod.rs` routes the messages of many host requests over one session.  This module has the
types it works on: attachments, the routes of streams, request rows, and the two queues with their
charges.

A queue carries that its counters are the sums over its items, so no operation can let them drift.
-/

namespace GwzTransport.Mux

open Protocol MachineInt

/-- A host request's id with a message. -/
abbrev Attachment := String × Envelope

/-- Why a call fails. -/
inductive Error
  | invalidRequest | capacity | wouldBlock | protocol | rejected | closed | wrongState
  deriving DecidableEq

/-- The phases of a session. -/
inductive Phase
  | unbound | binding | rejecting | ready | closed
  deriving DecidableEq

/-- The configuration of a side. -/
structure Config where
  limits : Limits
  role : EndpointRole
  maxRequests : ℕ
  maxStreams : ℕ
  bootstrapTimeoutMs : ℕ
  cleanupTimeoutMs : ℕ
  maxCheckMs : ℕ
  deriving DecidableEq

/-- `Config::default`. -/
def defaultConfig : Config where
  limits := Binding.defaultLimits
  role := .driver
  maxRequests := 256
  maxStreams := 64
  bootstrapTimeoutMs := 5000
  cleanupTimeoutMs := 5000
  maxCheckMs := 120000

/-- A registered request. -/
structure Request where
  operation : Option String
  sealed : Bool
  cleanupDeadline : Option ℕ
  deriving DecidableEq

/-- Where a stream's exchange stands. -/
inductive Kind
  | check | opening | stream
  deriving DecidableEq

/-- A stream of a request. -/
structure Route where
  request : String
  kind : Kind
  scheme : Option Scheme
  policy : Option AuthPolicy
  deadline : Option ℕ
  cancel : Option ErrorCode
  deriving DecidableEq

def identifier (value : String) : Bool :=
  !value.isEmpty && decide (value.utf8ByteSize ≤ 128) && !value.toList.any Codec.isControl

/-- The kinds that end a stream, and a refused bootstrap. -/
def terminal : MessageKind → Bool
  | .bindRejected | .openFailed | .identityChecked | .identityCheckFailed | .failed | .closed =>
    true
  | _ => false

/-- The kinds that end a stream. -/
def ends : MessageKind → Bool
  | .closed | .failed | .openFailed | .identityChecked | .identityCheckFailed => true
  | _ => false

/-- The kinds that start a stream. -/
def starts : MessageKind → Bool
  | .open_ | .checkIdentity => true
  | _ => false

/-! ### Queues -/

/-- An item of a queue. -/
structure Queued where
  attachment : Attachment
  charge : ℕ
  control : Bool

/-- The charges of the items that are not control messages. -/
def dataCharges (items : List Queued) : List ℕ :=
  (items.filter fun q => !q.control).map (·.charge)

/-- A queue and its counters. -/
structure Queue where
  items : List Queued
  bytes : ℕ
  dataBytes : ℕ
  dataFrames : ℕ
  bytes_eq : bytes = (items.map (·.charge)).sum
  dataBytes_eq : dataBytes = (dataCharges items).sum
  dataFrames_eq : dataFrames = (dataCharges items).length

namespace Queue

/-- A queue of the items, its counters taken from them. -/
def ofItems (items : List Queued) : Queue :=
  ⟨items, _, _, _, rfl, rfl, rfl⟩

def empty : Queue := ofItems []

def attachments (q : Queue) : List Attachment := q.items.map (·.attachment)

def canPush (q : Queue) (charge : ℕ) (control : Bool) (limits : Limits) : Bool :=
  decide (q.bytes + charge ≤ asUsize limits.queuedBytes) &&
    decide (q.items.length < asUsize limits.queuedFrames) &&
    (control ||
      (decide (q.dataBytes + charge ≤
          asUsize (limits.queuedBytes - limits.controlReserveBytes)) &&
        decide (q.dataFrames < asUsize (limits.queuedFrames - limits.controlReserveFrames))))

def push (q : Queue) (item : Attachment) (charge : ℕ) (control : Bool) : Queue where
  items := q.items ++ [⟨item, charge, control⟩]
  bytes := q.bytes + charge
  dataBytes := if control then q.dataBytes else q.dataBytes + charge
  dataFrames := if control then q.dataFrames else q.dataFrames + 1
  bytes_eq := by simp [q.bytes_eq]
  dataBytes_eq := by cases control <;> simp [q.dataBytes_eq, dataCharges]
  dataFrames_eq := by cases control <;> simp [q.dataFrames_eq, dataCharges]

/-- The first item and the queue without it. -/
def pop (q : Queue) : Option (Attachment × Queue) :=
  match hq : q.items with
  | [] => none
  | entry :: rest => some (entry.attachment,
    { items := rest
      bytes := q.bytes - entry.charge
      dataBytes := if entry.control then q.dataBytes else q.dataBytes - entry.charge
      dataFrames := if entry.control then q.dataFrames else q.dataFrames - 1
      bytes_eq := by simp [q.bytes_eq, hq]
      dataBytes_eq := by cases hc : entry.control <;> simp [q.dataBytes_eq, hq, dataCharges, hc]
      dataFrames_eq := by
        cases hc : entry.control <;> simp [q.dataFrames_eq, hq, dataCharges, hc] })

def hasTerminal (q : Queue) (request : String) : Bool :=
  q.items.any fun entry => entry.attachment.1 == request && terminal entry.attachment.2.kind

/-- The items with a property; the counters are taken anew, as the source does after every
`retain`. -/
def retain (q : Queue) (keep : Attachment → Bool) : Queue :=
  ofItems (q.items.filter fun entry => keep entry.attachment)

/-- What `discard` keeps in the queue. -/
def kept (request : String) (item : Attachment) : Bool :=
  item.1 != request || terminal item.2.kind || starts item.2.kind ||
    item.2.kind == .bind || item.2.kind == .bound || item.2.kind == .bindRejected

def discard (q : Queue) (request : String) : Queue := q.retain (kept request)

@[simp] theorem attachments_push (q : Queue) (item : Attachment) (charge : ℕ) (control : Bool) :
    (q.push item charge control).attachments = q.attachments ++ [item] := by
  simp [attachments, push]

@[simp] theorem attachments_retain (q : Queue) (keep : Attachment → Bool) :
    (q.retain keep).attachments = q.attachments.filter keep := by
  simp only [attachments, retain, ofItems, List.filter_map]
  rfl

theorem pop_eq_none {q : Queue} : q.pop = none ↔ q.attachments = [] := by
  unfold pop attachments
  split
  next hq => simp [hq]
  next hq => simp [hq]

theorem attachments_of_pop {q rest : Queue} {item : Attachment} (h : q.pop = some (item, rest)) :
    q.attachments = item :: rest.attachments := by
  unfold pop at h
  split at h
  · cases h
  next hq =>
    cases h
    simp [attachments, hq]

theorem hasTerminal_eq_false {q : Queue} {request : String} :
    q.hasTerminal request = false ↔
      ∀ item ∈ q.attachments, item.1 = request → terminal item.2.kind = false := by
  simp [hasTerminal, attachments]

end Queue

end GwzTransport.Mux
