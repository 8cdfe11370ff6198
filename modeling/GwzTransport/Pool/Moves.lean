import GwzTransport.Pool.Calls
import GwzTransport.Lib.Guarded

/-!
# The elementary moves of the pool

Every call of the pool is a sequence of moves, each of which changes at most one request and one
connection.  A move states what the code has checked when it makes the change, and nothing more.

* `Pending.target`, `Entry.holder`: the connection a request points to and the request a
  connection works for;
* `Event`: what a connection's history is made of;
* `Move`: the moves, labelled with the event they are;
* what no move changes, and where the requests of a state come from.
-/

namespace GwzTransport.Pool

open Protocol MachineInt Transition

/-- The connection a request points to. -/
def RequestState.target : RequestState → Option ConnectionId
  | .opening c => some c
  | .ready l => some l.connection
  | _ => none

/-- The request a connection works for. -/
def State.holder : State → Option RequestId
  | .opening o => o.request
  | .leased _ r => r
  | _ => none

def ConnectClock.isShared : ConnectClock → Bool
  | .shared _ => true
  | _ => false

/-- A connection whose closing starts. -/
def Entry.shut (e : Entry) (reason : CloseReason) (deadline : ℕ) : Entry :=
  { e with owner := none, state := .closing reason (.new deadline) }

/-- An opening whose request has failed after the connect command. -/
def Opening.cancelled (o : Opening) (k : ConnectClock) (deadline : ℕ) : Opening :=
  { o with clock := some k, request := none, cancel := some (.new deadline) }

/-- The clock runs out no later than the absolute deadline of its request. -/
def ConnectClock.Within (k : ConnectClock) (p : Pending) : Prop :=
  ∀ a, p.absoluteDeadline = some a → p.deadline ≤ a → ∃ d, k.deadline = some d ∧ d ≤ a

/-- The commands for one connection and the acknowledgements the pool accepts for it. -/
inductive Event
  | connect
  | cancelConnect
  | abortConnect
  | connected (ok : Bool)
  | close
  | abort
  | closed
  | idleClosed
  deriving DecidableEq

/-- The visible moves: an event of a connection, its return to the idle ones with the time it
counts as idle from, the credential scope it gains, or the retirement of that scope with the word
whether it worked for a request. -/
inductive Mark
  | event (c : ConnectionId) (e : Event)
  | released (c : ConnectionId) (since : ℕ)
  | scoped (c : ConnectionId) (scope : String)
  | retired (c : ConnectionId) (busy : Bool)

namespace PoolMachine

/-- The requests after the one a connection worked for, if any, has failed. -/
def answer (m : PoolMachine) (holder : Option RequestId) (error : Error) :
    SortedMap RequestId Pending :=
  match holder with
  | none => m.requests
  | some r =>
    match m.requests.get? r with
    | none => m.requests
    | some p => m.requests.insert r { p with state := .failed error }

inductive Move (m : PoolMachine) : Option Mark → PoolMachine → Prop
  | touch (v : ℕ) : Move m none { m with revision := v }
  | configure (settles : List (Site × ℕ)) (noEvicts : List Site) (stopped driverLost : Bool)
      (hstop : m.stopped = true → stopped = true) :
      Move m none { m with settles, noEvicts, stopped, driverLost }
  | lapse (holds : SortedMap ConnectionId Hold)
      (hh : ∀ q, holds.countWhere q ≤ m.holds.countWhere q) : Move m none { m with holds }
  -- requests
  | note {r p} (hr : m.requests.get? r = some p) (eviction : Option ConnectionId) :
      Move m none { m with requests := m.requests.insert r { p with eviction } }
  | refuse {r p} (hr : m.requests.get? r = some p)
      (hp : p.state = .waiting ∨ ∃ c e, p.state.target = some c ∧ m.entries.get? c = some e ∧
        e.state.isClosing = true) (error : Error) (v : ℕ) :
      Move m none
        { m with requests := m.requests.insert r { p with state := .failed error }, revision := v }
  | forget {r} (hp : ∀ p, m.requests.get? r = some p → p.state.target = none) (v : ℕ) :
      Move m none { m with requests := m.requests.erase r, revision := v }
  -- a request gets a connection
  | lease {r p c e since} (hr : m.requests.get? r = some p) (hp : p.state = .waiting)
      (hfresh : p.request.fresh = false) (hfull : m.ownerFull p.request = false)
      (hc : m.entries.get? c = some e) (he : e.state = .idle since)
      (hcompat : compatible p.request c e = true) (v : ℕ) :
      Move m none
        { m with
          leaseSerial := m.leaseSerial + 1
          requests := m.requests.insert r
            { p with state := .ready ⟨c, m.leaseSerial + 1⟩, eviction := none }
          entries := m.entries.insert c
            { e with
              owner := some p.request.owner, idleSince := some since
              state := .leased ⟨c, m.leaseSerial + 1⟩ (some r) }
          revision := v }
  | reserve {r p o} (hr : m.requests.get? r = some p) (hp : p.state = .waiting)
      (hfull : m.ownerFull p.request = false)
      (hsize : m.entries.size < (m.ceilingsFor p.request).total)
      (huser : m.userHostTotal p.request.key < (m.ceilingsFor p.request).perUserHost)
      (hhost : m.hostTotal p.request.key.host < (m.ceilingsFor p.request).perHost)
      (hsite : m.siteFull p.request.key = false)
      (ho : o.request = some r) (hclock : o.clock = none) (hcancel : o.cancel = none) (v : ℕ) :
      Move m none
        { m with
          connectionSerial := m.connectionSerial + 1
          requests := m.requests.insert r
            { p with state := .opening ⟨m.poolId, m.connectionSerial + 1⟩, eviction := none }
          entries := m.entries.insert ⟨m.poolId, m.connectionSerial + 1⟩
            { key := p.request.key, identity := p.request.identity, reusable := false
              owner := some p.request.owner, idleSince := none, born := m.now
              state := .opening o }
          revision := v }
  -- a request with a connection fails
  | failReady {r p c e} (hr : m.requests.get? r = some p) (hc : m.entries.get? c = some e)
      (he : e.state.isLeased = true) (hh : e.state.holder = some r) (error : Error)
      (reason : CloseReason) (deadline v : ℕ) :
      Move m none
        { m with
          requests := m.requests.insert r { p with state := .failed error }
          entries := m.entries.insert c (e.shut reason deadline)
          revision := v }
  | failReserved {r p c e o} (hr : m.requests.get? r = some p) (hc : m.entries.get? c = some e)
      (he : e.state = .opening o) (ho : o.request = some r) (hclock : o.clock = none)
      (error : Error) (v : ℕ) :
      Move m none
        { m with
          requests := m.requests.insert r { p with state := .failed error }
          entries := m.entries.erase c
          revision := v }
  | failDialing {r p c e o} (hr : m.requests.get? r = some p) (hc : m.entries.get? c = some e)
      (he : e.state = .opening o) (ho : o.request = some r) (hclock : o.clock.isSome = true)
      (k : ConnectClock) (error : Error) (deadline v : ℕ) :
      Move m none
        { m with
          requests := m.requests.insert r { p with state := .failed error }
          entries := m.entries.insert c { e with state := .opening (o.cancelled k deadline) }
          revision := v }
  -- an opening connection
  | clock {c e o k}
      (hc : m.entries.get? c = some e) (he : e.state = .opening o) (hclock : o.clock = some k)
      (k' : ConnectClock)
      (hk : k'.isShared = true ∨ k.isShared = false ∧
        ∀ r p, o.request = some r → m.requests.get? r = some p → k'.Within p)
      (interactionMs v : ℕ) :
      Move m none
        { m with
          entries := m.entries.insert c
            { e with state := .opening { o with clock := some k', interactionMs } }
          revision := v }
  | connect {c e o} (hc : m.entries.get? c = some e)
      (he : e.state = .opening o) (hclock : o.clock = none) (hcancel : o.cancel = none)
      (deadline : Option ℕ)
      (hk : ∀ r p, o.request = some r → m.requests.get? r = some p →
        (ConnectClock.network deadline).Within p) (v : ℕ) :
      Move m (some (.event c .connect))
        { m with
          entries := m.entries.insert c
            { e with state := .opening { o with clock := some (.network deadline) } }
          revision := v }
  | cancelConnect {c e o k}
      (hc : m.entries.get? c = some e) (he : e.state = .opening o) (hcancel : o.cancel = some k)
      (hsent : k.sent = false) (haborted : k.aborted = false) (v : ℕ) :
      Move m (some (.event c .cancelConnect))
        { m with
          entries := m.entries.insert c
            { e with state := .opening { o with cancel := some { k with sent := true } } }
          revision := v }
  | abortConnect {c e o k}
      (hc : m.entries.get? c = some e) (he : e.state = .opening o) (hcancel : o.cancel = some k)
      (haborted : k.aborted = false) (v : ℕ) :
      Move m (some (.event c .abortConnect))
        { m with
          entries := m.entries.insert c
            { e with state := .opening { o with cancel := some { k with aborted := true } } }
          revision := v }
  | connectedErr {c e o} (hc : m.entries.get? c = some e)
      (he : e.state = .opening o) (hclock : o.clock.isSome = true) (error : Error)
      -- the requests among which the hold looks for its evictor
      (queue : SortedMap RequestId Pending) (settle : Bool) (v : ℕ) :
      Move m (some (.event c (.connected false)))
        { m with
          requests := m.answer o.request error
          entries := m.entries.erase c
          holds := (dispose { m with requests := queue } c settle).holds
          revision := v }
  | connectedReady {r p c e o} (hr : m.requests.get? r = some p) (hc : m.entries.get? c = some e)
      (he : e.state = .opening o) (ho : o.request = some r) (hclock : o.clock.isSome = true)
      (reusable : Bool) (v : ℕ) :
      Move m (some (.event c (.connected true)))
        { m with
          leaseSerial := m.leaseSerial + 1
          requests := m.requests.insert r { p with state := .ready ⟨c, m.leaseSerial + 1⟩ }
          entries := m.entries.insert c
            { e with reusable, born := m.now, state := .leased ⟨c, m.leaseSerial + 1⟩ (some r) }
          revision := v }
  | connectedClosing {c e o} (hc : m.entries.get? c = some e)
      (he : e.state = .opening o) (hclock : o.clock.isSome = true) (error : Error)
      (reason : CloseReason) (deadline v : ℕ) :
      Move m (some (.event c (.connected true)))
        { m with
          requests := m.answer o.request error
          entries := m.entries.insert c (e.shut reason deadline)
          revision := v }
  -- a connection without a request
  | take {r p c e l} (hr : m.requests.get? r = some p) (hc : m.entries.get? c = some e)
      (he : e.state = .leased l (some r)) (v : ℕ) :
      Move m none
        { m with
          requests := m.requests.erase r
          entries := m.entries.insert c { e with state := .leased l none }
          revision := v }
  | takeLost {r p c} (hr : m.requests.get? r = some p) (hp : p.state.target = some c)
      (hc : ∀ e, m.entries.get? c = some e → e.state.isClosing = true) (v : ℕ) :
      Move m none { m with requests := m.requests.erase r, revision := v }
  | scope {c e} (hc : m.entries.get? c = some e)
      (he : e.state.isLeased = true) (hid : e.identity = .https) (scope : String) (v : ℕ) :
      Move m (some (.scoped c scope))
        { m with
          entries := m.entries.insert c { e with identity := .httpsScoped scope }
          revision := v }
  | release {c e l} (hc : m.entries.get? c = some e)
      (he : e.state = .leased l none) (hreuse : e.reusable = true)
      (hage : aged m.now e.born m.config.maxAgeMs = false) (hstop : m.stopped = false)
      (since v : ℕ) :
      Move m (some (.released c since))
        { m with
          entries := m.entries.insert c
            { e with owner := none, idleSince := none, state := .idle since }
          revision := v }
  | close {c e} (hc : m.entries.get? c = some e)
      (he : e.state.isIdle = true ∨ ∃ l, e.state = .leased l none) (reason : CloseReason)
      (deadline v : ℕ) :
      Move m none
        { m with
          entries := m.entries.insert c (e.shut reason deadline)
          revision := v }
  | retire {c e} (hc : m.entries.get? c = some e)
      (he : e.state.isClosing = false) (reason : CloseReason) (deadline v : ℕ) :
      Move m (some (.retired c e.state.holder.isSome))
        { m with
          entries := m.entries.insert c (e.shut reason deadline)
          revision := v }
  -- a closing connection
  | sendClose {c e reason k} (hc : m.entries.get? c = some e) (he : e.state = .closing reason k)
      (hsent : k.sent = false) (haborted : k.aborted = false) (v : ℕ) :
      Move m (some (.event c .close))
        { m with
          entries := m.entries.insert c { e with state := .closing reason { k with sent := true } }
          revision := v }
  | sendAbort {c e reason k} (hc : m.entries.get? c = some e) (he : e.state = .closing reason k)
      (haborted : k.aborted = false) (v : ℕ) :
      Move m (some (.event c .abort))
        { m with
          entries := m.entries.insert c
            { e with state := .closing reason { k with aborted := true } }
          revision := v }
  | closed {c e reason k} (hc : m.entries.get? c = some e) (he : e.state = .closing reason k)
      (hk : (k.sent || k.aborted) = true) (v : ℕ) :
      Move m (some (.event c .closed))
        { m with
          entries := m.entries.erase c
          holds := (m.dispose c true).holds
          revision := v }
  | idleClosed {c e} (hc : m.entries.get? c = some e)
      (he : (e.state.isIdle || e.state.isClosing) = true) (v : ℕ) :
      Move m (some (.event c .idleClosed))
        { m with entries := m.entries.erase c, revision := v }

end PoolMachine

end GwzTransport.Pool
