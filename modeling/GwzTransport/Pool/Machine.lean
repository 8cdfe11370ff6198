import GwzTransport.Pool.SetupClock

/-!
# The connection pool: state and inner operations

`pool/machine.rs`, `allocation.rs`, `limit.rs` and the inner half of `lifecycle.rs` and
`setup.rs`.  The machine holds the pending requests and the connections, both ordered by the
serial of their identifier, and is a pure state machine: what it wants done it offers as actions.

An operation that the source can leave by a panic (an `expect`, an index into a map) returns an
`Option`, and `none` is that panic.  A setup clock is shared with the adapter; here its state
stands in the entry of its connection.
-/

namespace GwzTransport.Pool

open Protocol MachineInt

/-- The states of a request. -/
inductive RequestState
  | waiting
  | opening (connection : ConnectionId)
  | ready (lease : LeaseId)
  | failed (error : Error)
  deriving DecidableEq

/-- A request of the pool. -/
structure Pending where
  request : Request
  deadline : ℕ
  absoluteDeadline : Option ℕ
  state : RequestState
  eviction : Option ConnectionId
  /-- The lease the preferred connection held, and when the wait for it lapses. -/
  preferWait : Option (LeaseId × ℕ)

/-- The state of a close, or of a cancelled connect. -/
structure Cleanup where
  deadline : ℕ
  sent : Bool
  aborted : Bool
  deriving DecidableEq

/-- A cleanup that the host was not told of. -/
def Cleanup.new (deadline : ℕ) : Cleanup := ⟨deadline, false, false⟩

/-- What limits the time of a connect. -/
inductive ConnectClock
  | network (deadline : Option ℕ)
  | interaction (deadline : ℕ) (remaining : Option ℕ)
  | localWait (deadline : ℕ) (remaining : Option ℕ)
  | shared (clock : SetupClock)

/-- When a connect runs out of time. -/
def ConnectClock.deadline : ConnectClock → Option ℕ
  | .network time => time
  | .interaction time _ => some time
  | .localWait time _ => some time
  | .shared clock => clock.cachedDeadline

/-- The error of a clock that ran out; `none` for a shared clock, which reports its own. -/
def ConnectClock.timeout : ConnectClock → Option Error
  | .network _ => some .connectTimeout
  | .interaction _ _ => some .interactionTimeout
  | .localWait _ _ => some .localWaitExpired
  | .shared _ => none

/-- A connection that is being opened. -/
structure Opening where
  request : Option RequestId
  /-- Absent until the connect command was handed out. -/
  clock : Option ConnectClock
  networkMs : ℕ
  interactionMs : ℕ
  cancel : Option Cleanup

/-- The states of a connection. -/
inductive State
  | opening (o : Opening)
  | idle (since : ℕ)
  | leased (lease : LeaseId) (request : Option RequestId)
  | closing (reason : CloseReason) (cleanup : Cleanup)

/-- The connect is not answered. -/
def State.isOpening : State → Bool
  | .opening _ => true
  | _ => false

/-- The connection is idle. -/
def State.isIdle : State → Bool
  | .idle _ => true
  | _ => false

/-- The connection is leased. -/
def State.isLeased : State → Bool
  | .leased _ _ => true
  | _ => false

/-- The connection is to be closed. -/
def State.isClosing : State → Bool
  | .closing _ _ => true
  | _ => false

/-- A connection of the pool. -/
structure Entry where
  key : Key
  identity : Identity
  reusable : Bool
  owner : Option Owner
  state : State
  idleSince : Option ℕ
  born : ℕ

/-- Whether a connection established at `born` has outlived `maxAgeMs`. -/
def aged (now born maxAgeMs : ℕ) : Bool := decide (satAdd born maxAgeMs ≤ now)

/-- A slot the host has disposed of, held until the server stops counting it. -/
structure Hold where
  key : Key
  expires : ℕ
  evictor : Option RequestId
  deriving DecidableEq

/-- How many connections are in each state. -/
structure Counts where
  opening : ℕ := 0
  idle : ℕ := 0
  leased : ℕ := 0
  closing : ℕ := 0
  deriving DecidableEq

namespace Counts

/-- All of them. -/
def total (c : Counts) : ℕ := c.opening + c.idle + c.leased + c.closing

/-- One more in the state. -/
def add (c : Counts) : State → Counts
  | .opening _ => { c with opening := c.opening + 1 }
  | .idle _ => { c with idle := c.idle + 1 }
  | .leased _ _ => { c with leased := c.leased + 1 }
  | .closing _ _ => { c with closing := c.closing + 1 }

theorem total_add (c : Counts) (s : State) : (c.add s).total = c.total + 1 := by
  cases s <;> simp only [add, total] <;> omega

end Counts

/-- The state of a pool. -/
structure PoolMachine where
  config : Config
  poolId : ℕ
  now : ℕ
  requestSerial : ℕ
  connectionSerial : ℕ
  leaseSerial : ℕ
  requests : SortedMap RequestId Pending
  entries : SortedMap ConnectionId Entry
  limits : List (Site × ℕ)
  settles : List (Site × ℕ)
  noEvicts : List Site
  holds : SortedMap ConnectionId Hold
  stopped : Bool
  driverLost : Bool
  revision : ℕ

namespace PoolMachine

/-- The state of a new machine. -/
def fresh (config : Config) (poolId : ℕ) : PoolMachine where
  config := config
  poolId := poolId
  now := 0
  requestSerial := 0
  connectionSerial := 0
  leaseSerial := 0
  requests := .empty
  entries := .empty
  limits := []
  settles := []
  noEvicts := []
  holds := .empty
  stopped := false
  driverLost := false
  revision := 0

/-- A new machine; the process-wide counter supplies `poolId`. -/
def new (config : Config) (poolId : ℕ) : Except Error PoolMachine :=
  match config.validate with
  | .error e => .error e
  | .ok () => .ok (fresh config poolId)

variable (m : PoolMachine)

/-- A new revision; the counter wraps. -/
def touch : PoolMachine := { m with revision := (m.revision + 1) % (u64Max + 1) }

/-- A connection is stored. -/
def putEntry (c : ConnectionId) (e : Entry) : PoolMachine :=
  { m with entries := m.entries.insert c e }

/-- A request is stored. -/
def putRequest (r : RequestId) (p : Pending) : PoolMachine :=
  { m with requests := m.requests.insert r p }

/-- `requests.get_mut(&r).expect(..).state = state`. -/
def setRequestState (r : RequestId) (state : RequestState) : Option PoolMachine := do
  let p ← m.requests.get? r
  return m.putRequest r { p with state }

/-! ### Counting -/

/-- The pool's own bounds. -/
def capacity : Capacity := m.config.capacity

/-- The bounds of a request, or the pool's. -/
def limitsOf (request : Request) : Capacity := request.limits.getD m.capacity

/-- The connections of a session that are opening or leased. -/
def ownedWhere (session : String) (matching : Entry → Bool) : ℕ :=
  m.entries.countWhere fun e =>
    (e.state.isOpening || e.state.isLeased) && e.owner.any (·.session == session) && matching e

/-- The session has as many connections as its request allows. -/
def ownerFull (request : Request) : Bool :=
  let limits := m.limitsOf request
  let session := request.owner.session
  decide (m.ownedWhere session (fun _ => true) ≥ limits.total) ||
    decide (m.ownedWhere session (·.key.host == request.key.host) ≥ limits.perHost) ||
    decide (m.ownedWhere session (·.key.sameUserHost request.key) ≥ limits.perUserHost)

/-- The larger of the pool's bounds and the request's. -/
def ceilingsFor (request : Request) : Capacity :=
  let limits := m.limitsOf request
  { perUserHost := max m.config.perUserHost limits.perUserHost
    perHost := max m.config.perHost limits.perHost
    total := max m.config.total limits.total
    maxRequests := max m.config.maxRequests limits.maxRequests }

/-- The connections with a property, by state. -/
def countWhere (predicate : Entry → Bool) : Counts :=
  m.entries.toList.foldl
    (fun counts e => if predicate e.2 then counts.add e.2.state else counts) {}

/-- The connections of a host. -/
def countsForHost (host : String) : Counts := m.countWhere (·.key.host == host)

/-- The connections of a user on a host. -/
def countsForUserHost (key : Key) : Counts := m.countWhere (·.key.sameUserHost key)

/-- The lease is the connection's present one. -/
def isLive (lease : LeaseId) : Bool :=
  (m.entries.get? lease.connection).any fun e =>
    match e.state with
    | .leased live _ => live == lease
    | _ => false

/-- The connection is to be closed. -/
def isClosing (connection : ConnectionId) : Bool :=
  (m.entries.get? connection).any (·.state.isClosing)

/-- The pool is stopped and has no connection left. -/
def shutdownComplete : Bool := m.stopped && decide (m.entries.size = 0)

theorem countWhere_total (p : Entry → Bool) : (m.countWhere p).total = m.entries.countWhere p := by
  have h : ∀ (l : List (ConnectionId × Entry)) (c : Counts),
      (l.foldl (fun counts e => if p e.2 then counts.add e.2.state else counts) c).total =
        c.total + l.countP fun e => p e.2 := by
    intro l
    induction l with
    | nil => exact fun c => rfl
    | cons e l ih =>
      intro c
      rw [List.foldl_cons, ih, List.countP_cons]
      split_ifs
      · rw [Counts.total_add]
        omega
      · rfl
  exact (h m.entries.toList {}).trans (Nat.zero_add _)

/-! ### Numbers per site -/

/-- The first entry of the site gets the value, or a new one at the end. -/
def assign (site : Site) (value : ℕ) : List (Site × ℕ) → List (Site × ℕ)
  | [] => [(site, value)]
  | e :: l => if e.1 = site then (site, value) :: l else e :: assign site value l

/-- The limit of a site. -/
def limit (site : Site) : Option ℕ := (m.limits.find? (·.1 == site)).map (·.2)

/-- The slots of a site that are held after a close. -/
def settling (site : Site) : ℕ := m.holds.countWhere (·.key.onSite site)

/-- Whether numbers of sites may be set. -/
def acceptsNumbers : Except Error Unit :=
  if m.driverLost then .error .driverLost
  else if m.stopped then .error .shutdown
  else .ok ()

/-- The slots of a site that are taken. -/
def siteTotal (site : Site) : ℕ := (m.countWhere (·.key.onSite site)).total + m.settling site

/-- The site of the key has a limit, and no slot below it. -/
def siteFull (key : Key) : Bool :=
  (m.limits.find? fun e => key.onSite e.1).any fun e => decide (m.siteTotal e.1 ≥ e.2)

/-- The slots of a host that are taken. -/
def hostTotal (host : String) : ℕ :=
  (m.countsForHost host).total + m.holds.countWhere (·.key.host == host)

/-- The slots of a user on a host that are taken. -/
def userHostTotal (key : Key) : ℕ :=
  (m.countsForUserHost key).total + m.holds.countWhere (·.key.sameUserHost key)

/-- The connect is to be cancelled. -/
def cancelledConnect (connection : ConnectionId) : Bool :=
  (m.entries.get? connection).any fun e =>
    match e.state with
    | .opening o => o.cancel.isSome
    | _ => false

/-! ### Closing and disposal -/

/-- The deadline of a cleanup that starts now; one that follows a cancelled connect keeps the
deadline of that. -/
def cleanupDeadline (e : Entry) : ℕ :=
  match e.state with
  | .opening { cancel := some cleanup, .. } => cleanup.deadline
  | _ => satAdd m.now m.config.cleanupTimeoutMs

/-- A connection is to be closed. -/
def startClosing (connection : ConnectionId) (reason : CloseReason) : Option PoolMachine := do
  let e ← m.entries.get? connection
  if e.state.isClosing then return m
  else
    return (m.putEntry connection
      { e with owner := none, state := .closing reason (.new (m.cleanupDeadline e)) }).touch

/-- How long the slot of a disposed connection stays held. -/
def settleMs (key : Key) (settle : Bool) : ℕ :=
  if settle && !m.stopped then
    ((m.settles.find? fun e => key.onSite e.1).map (·.2)).getD 0
  else 0

/-- Removes the entry; with a settle time on its site the slot stays held. -/
def dispose (connection : ConnectionId) (settle : Bool) : PoolMachine :=
  match m.entries.get? connection with
  | none => m
  | some e =>
    let milliseconds := m.settleMs e.key settle
    let m := { m with entries := m.entries.erase connection }
    if milliseconds = 0 then m
    else
      let evictor := m.requests.firstWhere fun _ p =>
        p.state == .waiting && p.eviction == some connection
      let hold : Hold := ⟨e.key, satAdd m.now milliseconds, evictor⟩
      { m with holds := m.holds.insert connection hold }

/-! ### Setup clocks -/

/-- The clock that the host keeps for a connect. -/
def sharedSetupClock (connection : ConnectionId) : Option SetupClock :=
  match (m.entries.get? connection).map Entry.state with
  | some (.opening { clock := some (.shared clock), .. }) => some clock
  | _ => none

/-- The clock of an opening connection moves on; any other entry is left alone. -/
def putConnectClock (connection : ConnectionId) (clock : ConnectClock) : PoolMachine :=
  match m.entries.get? connection with
  | some e =>
    match e.state with
    | .opening o =>
      m.putEntry connection { e with state := .opening { o with clock := some clock } }
    | _ => m
  | none => m

/-- Another clock for a connect. -/
def setConnectClock (connection : ConnectionId) (next : ConnectClock) : PoolMachine :=
  (m.putConnectClock connection next).touch

/-- What the clock is told when the pool fails its request. -/
def setupCause : Error → SetupCause
  | .driverLost => .driverLost
  | .setupEnded record => record.cause
  | .connectFailed code effect setupCause => .resourceFailure code effect setupCause
  | _ => .cancelled

/-- The error of a setup; a shared clock ends with its own record. -/
def arbitrateSetupError (connection : ConnectionId) (error : Error) : PoolMachine × Error :=
  match m.sharedSetupClock connection with
  | none => (m, error)
  | some clock =>
    let (clock, record) := clock.terminate (setupCause error)
    (m.putConnectClock connection (.shared clock), .setupEnded record)

/-! ### Failing a request -/

/-- The opening of a failed request: dropped before its connect command, cancelled after it. -/
def cancelOpening (connection : ConnectionId) : Option PoolMachine := do
  let e ← m.entries.get? connection
  match e.state with
  | .opening o =>
    if o.clock.isNone then return { m with entries := m.entries.erase connection }
    else
      let cleanup := Cleanup.new (satAdd m.now m.config.cleanupTimeoutMs)
      return m.putEntry connection
        { e with state := .opening { o with request := none, cancel := some cleanup } }
  | _ => return m

/-- A request fails, and what it had is given back. -/
def failRequest (id : RequestId) (error : Error) (reason : CloseReason) :
    Option (PoolMachine × Except Error Unit) :=
  match m.requests.get? id with
  | none => some (m, .error .stale)
  | some pending =>
    match pending.state with
    | .failed _ => some (m, .ok ())
    | .waiting => do
      let m ← m.setRequestState id (.failed error)
      return (m.touch, .ok ())
    | .ready lease => do
      let m ← m.startClosing lease.connection reason
      let m ← m.setRequestState id (.failed error)
      return (m.touch, .ok ())
    | .opening connection => do
      let (m, error) := m.arbitrateSetupError connection error
      let m ← m.cancelOpening connection
      let m ← m.setRequestState id (.failed error)
      return (m.touch, .ok ())

/-! ### Scheduling -/

/-- A connection that a request may reuse. -/
def compatible (request : Request) (connection : ConnectionId) (e : Entry) : Bool :=
  e.key == request.key && e.reusable && e.identity == request.identity &&
    !request.exclude.contains connection

/-- The request waits for the lease of the connection it prefers. -/
def preferWaits (id : RequestId) : Bool :=
  match m.requests.get? id with
  | none => false
  | some pending =>
    match pending.request.prefer, pending.preferWait with
    | some connection, some (finishing, time) =>
      !pending.request.fresh && decide (m.now < time) &&
        (m.entries.get? connection).any fun e =>
          (match e.state with
            | .leased lease _ => lease == finishing
            | _ => false) && compatible pending.request connection e
    | _, _ => false

/-- The next lease of a connection. -/
def leaseId (connection : ConnectionId) : Except Error (PoolMachine × LeaseId) :=
  if m.leaseSerial < u64Max then
    .ok ({ m with leaseSerial := m.leaseSerial + 1 }, ⟨connection, m.leaseSerial + 1⟩)
  else .error .capacity

/-- A connection is opened for a waiting request, if there is room. -/
def openFor (id : RequestId) : PoolMachine :=
  match m.requests.get? id with
  | none => m
  | some pending =>
    let request := pending.request
    let ceilings := m.ceilingsFor request
    if pending.state != .waiting || m.preferWaits id then m
    else if m.ownerFull request || decide (m.entries.size ≥ ceilings.total) ||
        decide (m.userHostTotal request.key ≥ ceilings.perUserHost) ||
        decide (m.hostTotal request.key.host ≥ ceilings.perHost) ||
        m.siteFull request.key then m
    else if m.connectionSerial < u64Max then
      let connection : ConnectionId := ⟨m.poolId, m.connectionSerial + 1⟩
      let e : Entry :=
        { key := request.key, identity := request.identity, reusable := false
          owner := some request.owner, idleSince := none, born := m.now
          state := .opening
            { request := some id, clock := none
              networkMs := request.connectTimeoutMs.getD m.config.connectTimeoutMs
              interactionMs := request.interactionTimeoutMs.getD m.config.interactionTimeoutMs
              cancel := none } }
      (PoolMachine.putRequest
        { m with
          connectionSerial := m.connectionSerial + 1
          entries := m.entries.insert connection e }
        id { pending with state := .opening connection, eviction := none }).touch
    else m.putRequest id { pending with state := .failed .capacity }

/-- The idle connection a waiting request may take: the one it prefers, or the first. -/
def idleFor (request : Request) (preferred : Option ConnectionId) : Option ConnectionId :=
  preferred.or (m.entries.firstWhere fun c e => e.state.isIdle && compatible request c e)

/-- The first pass of `schedule` for one waiting request: reuse of an idle connection. -/
def reuseFor (id : RequestId) : Option PoolMachine := do
  let pending ← m.requests.get? id
  let request := pending.request
  if request.fresh || m.ownerFull request then return m
  let preferred := request.prefer.filter fun c =>
    (m.entries.get? c).any fun e => e.state.isIdle && compatible request c e
  if preferred.isNone && m.preferWaits id then return m
  match m.idleFor request preferred with
  | none => return m
  | some connection =>
    match m.leaseId connection with
    | .ok (m, lease) =>
      let pending ← m.requests.get? id
      let e ← m.entries.get? connection
      let idleSince := match e.state with
        | .idle since => some since
        | _ => e.idleSince
      let m := m.putEntry connection
        { e with
          owner := some pending.request.owner, idleSince
          state := .leased lease (some id) }
      return (m.putRequest id { pending with state := .ready lease, eviction := none }).touch
    | .error error =>
      let m ← m.setRequestState id (.failed error)
      return m.touch

/-- The idle connection that has to go for a waiting request: the one idle for longest among
those whose closing makes room for it. -/
def victimFor (request : Request) : Option ConnectionId :=
  let key := request.key
  let ceilings := m.ceilingsFor request
  let userHostFull := decide (m.userHostTotal key ≥ ceilings.perUserHost)
  let hostFull := decide (m.hostTotal key.host ≥ ceilings.perHost)
  let siteFull := m.siteFull key
  let idle : List (ℕ ×ₗ ConnectionId) := m.entries.toList.filterMap fun e =>
    match e.2.state with
    | .idle since =>
      if (!userHostFull || e.2.key.sameUserHost key) && (!hostFull || e.2.key.host == key.host) &&
          (!siteFull || e.2.key.sameSite key) then some (toLex (since, e.1))
      else none
    | _ => none
  idle.min?.map fun x => (ofLex x).2

/-- The last pass of `schedule` for one waiting request: eviction. -/
def evictFor (id : RequestId) : Option PoolMachine := do
  let pending ← m.requests.get? id
  if pending.state != .waiting ||
      pending.eviction.any (fun victim =>
        (m.entries.get? victim).isSome || (m.holds.get? victim).isSome) ||
      m.preferWaits id then return m
  if m.noEvicts.any pending.request.key.onSite then return m
  if m.ownerFull pending.request then return m
  match m.victimFor pending.request with
  | none => return m
  | some connection =>
    let m ← m.startClosing connection .evicted
    let pending ← m.requests.get? id
    return m.putRequest id { pending with eviction := some connection }

/-- Reuse of idle connections for all waiting requests, then new ones, then evictions. -/
def schedule : Option PoolMachine :=
  if m.stopped then some m
  else do
    let waiting := m.requests.keysWhere fun _ p => p.state == .waiting
    let m ← waiting.foldlM reuseFor m
    let m := waiting.foldl openFor m
    waiting.foldlM evictFor m

/-- Ends the holds whose time has come and serves their evictors first. -/
def lapseHolds : PoolMachine :=
  let lapsed : List (ℕ ×ₗ ConnectionId) := m.holds.toList.filterMap fun h =>
    if h.2.expires ≤ m.now then some (toLex (h.2.expires, h.1)) else none
  let ids := (lapsed.insertionSort (· ≤ ·)).map fun x => (ofLex x).2
  if ids.isEmpty then m
  else
    let evictors := ids.filterMap fun c => (m.holds.get? c).bind (·.evictor)
    let m := { m with holds := ids.foldl SortedMap.erase m.holds }
    (evictors.foldl
      (fun m r => if (m.requests.get? r).any (·.state == .waiting) then m.openFor r else m)
      m).touch

end PoolMachine

end GwzTransport.Pool
