import GwzTransport.Pool.Machine

/-!
# The connection pool: its public calls

The calls of `PoolMachine` that change it, from `machine.rs`, `allocation.rs`, `lifecycle.rs`,
`clock.rs`, `limit.rs` and `setup.rs`, and `next_deadline`.  `Call` lists them, with one more
case for what an adapter does through its handle of a setup clock.
-/

namespace GwzTransport.Pool

open Protocol MachineInt

namespace PoolMachine

variable (m : PoolMachine)

/-! ### Requests and leases -/

/-- The lease the preferred connection holds while the request is made. -/
def finishing (prefer : Option ConnectionId) : Option LeaseId := do
  let e ← m.entries.get? (← prefer)
  match e.state with
  | .leased lease _ => some lease
  | _ => none

/-- A request as it enters the queue. -/
def pending (request : Request) (absoluteDeadline : Option ℕ) : Pending :=
  let allocation :=
    satAdd m.now (request.allocationTimeoutMs.getD m.config.allocationTimeoutMs)
  let deadline := absoluteDeadline.elim allocation (min allocation)
  { request, deadline, absoluteDeadline, state := .waiting, eviction := none
    preferWait := do
      let lease ← m.finishing request.prefer
      let wait ← request.preferWaitMs
      return (lease, min (satAdd m.now wait) deadline) }

/-- A new request. -/
def requestUntil (request : Request) (absoluteDeadline : Option ℕ) :
    Option (PoolMachine × Except Error RequestId) :=
  if m.driverLost then some (m, .error .driverLost)
  else if m.stopped then some (m, .error .shutdown)
  else if !request.valid m.config then some (m, .error .invalidRequest)
  else if absoluteDeadline.any fun time => decide (time ≤ m.now) then
    some (m, .error .allocationTimeout)
  else if decide (m.requests.size ≥ (m.ceilingsFor request).maxRequests) ||
      decide (m.requests.countWhere (·.request.owner.session == request.owner.session) ≥
        (m.limitsOf request).maxRequests) then some (m, .error .capacity)
  else if m.requestSerial < u64Max then do
    let id : RequestId := ⟨m.poolId, m.requestSerial + 1⟩
    let m ← schedule
      { m with
        requestSerial := m.requestSerial + 1
        requests := m.requests.insert id (m.pending request absoluteDeadline) }
    return (m.touch, .ok id)
  else some (m, .error .capacity)

/-- The lease of a connection no longer belongs to a request. -/
def claim (connection : ConnectionId) : PoolMachine :=
  match m.entries.get? connection with
  | some e =>
    match e.state with
    | .leased lease _ => m.putEntry connection { e with state := .leased lease none }
    | _ => m
  | none => m

def forget (r : RequestId) : PoolMachine := { m with requests := m.requests.erase r }

/-- A ready request gets its lease. -/
def take (request : RequestId) : PoolMachine × Except Error LeaseId :=
  match (m.requests.get? request).map Pending.state with
  | none => (m, .error .stale)
  | some (.ready lease) => (((m.claim lease.connection).forget request).touch, .ok lease)
  | some (.failed error) => ((m.forget request).touch, .error error)
  | some _ => (m, .error .wouldBlock)

def scopeHttps (lease : LeaseId) (scope : String) : PoolMachine × Except Error Unit :=
  if !m.isLive lease then (m, .error .stale)
  else match m.entries.get? lease.connection with
  | none => (m, .error .stale)
  | some e =>
    let gained := Identity.httpsScoped scope
    if !gained.validFor e.key then (m, .error .invalidRequest)
    else match e.identity with
    | .https => ((m.putEntry lease.connection { e with identity := gained }).touch, .ok ())
    | .httpsScoped existing =>
      if existing = scope then (m.touch, .ok ()) else (m, .error .wrongState)
    | _ => (m, .error .wrongState)

def retireHttpsScope (scope : String) : Option PoolMachine := do
  let retired := m.entries.keysWhere fun _ e => e.identity == .httpsScoped scope
  let m ← retired.foldlM (fun m c => m.startClosing c .cancelled) m
  m.schedule

def cancel (request : RequestId) : Option (PoolMachine × Except Error Unit) := do
  match ← m.failRequest request .cancelled .cancelled with
  | (m, .error e) => return (m, .error e)
  | (m, .ok ()) => return (← m.schedule, .ok ())

def abandon (request : RequestId) : Option PoolMachine := do
  match ← m.cancel request with
  | (m, .ok ()) => return (m.forget request).touch
  | (m, .error _) => return m

def cancelMatching (matchesOwner : Owner → Bool) : Option PoolMachine := do
  let requests := m.requests.keysWhere fun _ p => matchesOwner p.request.owner
  let m ← requests.foldlM (fun m r => (m.failRequest r .cancelled .cancelled).map (·.1)) m
  let leased := m.entries.keysWhere fun _ e => e.owner.any matchesOwner && e.state.isLeased
  let m ← leased.foldlM (fun m c => m.startClosing c .cancelled) m
  m.schedule

def cancelOperation (owner : Owner) : Option PoolMachine := m.cancelMatching (· == owner)

def cancelSession (session : String) : Option PoolMachine :=
  m.cancelMatching (·.session == session)

/-- A lease comes back. -/
def releaseAt (lease : LeaseId) (disposition : Disposition) (since : Option ℕ) :
    Option (PoolMachine × Except Error Unit) :=
  if !m.isLive lease then some (m, .error .stale)
  else do
    let e ← m.entries.get? lease.connection
    match e.state with
    | .leased _ (some _) => return (m, .error .wrongState)
    | _ =>
      let outlived := aged m.now e.born m.config.maxAgeMs
      let m ←
        if disposition = .reusable && e.reusable && !outlived && !m.stopped then
          some (m.putEntry lease.connection
            { e with owner := none, idleSince := none, state := .idle (since.getD m.now) })
        else
          m.startClosing lease.connection <|
            if !e.reusable then .unproven
            else if outlived && disposition = .reusable then .ageExpired
            else .discarded
      let m ← m.schedule
      return (m.touch, .ok ())

def release (lease : LeaseId) (disposition : Disposition) :
    Option (PoolMachine × Except Error Unit) := m.releaseAt lease disposition none

def releaseUnused (lease : LeaseId) : Option (PoolMachine × Except Error Unit) :=
  m.releaseAt lease .reusable ((m.entries.get? lease.connection).bind (·.idleSince))

/-! ### Acknowledgements of the adapter -/

def closed (connection : ConnectionId) : Option (PoolMachine × Except Error Unit) :=
  match (m.entries.get? connection).map Entry.state with
  | none => some (m, .error .stale)
  | some (.closing _ cleanup) =>
    if cleanup.sent || cleanup.aborted then do
      let m ← (m.dispose connection true).schedule
      return (m.touch, .ok ())
    else some (m, .error .wrongState)
  | some _ => some (m, .error .wrongState)

def idleClosed (connection : ConnectionId) : Option (PoolMachine × Except Error Unit) :=
  match m.entries.get? connection with
  | none => some (m, .error .stale)
  | some e =>
    if e.state.isIdle || e.state.isClosing then do
      let m ← schedule { m with entries := m.entries.erase connection }
      return (m.touch, .ok ())
    else some (m, .error .wrongState)

/-- What a finished connect tells the shared clock: the record that stands afterwards. -/
def completeSetup (clock : SetupClock) (identity : Identity)
    (result : Except Failure (Option Identity)) : SetupClock × SetupTerminal :=
  match result with
  | .error failure =>
    clock.terminate (.resourceFailure failure.code failure.effect failure.setupCause)
  | .ok proof =>
    if proof.all (· == identity) then
      match clock.admitCompleted with
      | (clock, .ok record) => (clock, record)
      | (clock, .error (.activeTerminal record)) => (clock, record)
      | (clock, .error _) => clock.terminate (.resourceFailure .invalidRequest .none none)
    else clock.terminate (.resourceFailure .authentication .none none)

/-- A connect whose setup clock ended first, or that failed under one. -/
def connectedEnded (connection : ConnectionId) (record : SetupTerminal) (failed : Bool) :
    Option PoolMachine := do
  let request := match (m.entries.get? connection).map Entry.state with
    | some (.opening o) => o.request
    | _ => none
  let m ← match request with
    | some id => m.setRequestState id (.failed (.setupEnded record))
    | none => some m
  let m ←
    if failed then some (m.dispose connection (m.cancelledConnect connection))
    else m.startClosing connection .cancelled
  m.schedule

/-- A connect that succeeded in time: the connection is leased, or closed again. -/
def connectedOk (connection : ConnectionId) (e : Entry) (o : Opening) (proof : Option Identity) :
    Option PoolMachine :=
  let cancelled := o.cancel.isSome
  let mismatch := proof.any (· != e.identity)
  if cancelled || mismatch then do
    let m ← match o.request with
      | some id => m.setRequestState id (.failed .identityMismatch)
      | none => some m
    m.startClosing connection (if mismatch then .identityMismatch else .cancelled)
  else do
    let id ← o.request
    match m.leaseId connection with
    | .ok (m, lease) =>
      let e ← m.entries.get? connection
      let m := m.putEntry connection
        { e with
          reusable := proof.isSome, born := m.now
          state := .leased lease (some id) }
      m.setRequestState id (.ready lease)
    | .error error =>
      let m ← m.setRequestState id (.failed error)
      m.startClosing connection .discarded

/-- A connect that failed: nothing is left of it but a hold if the pool had cancelled it. -/
def connectedErr (connection : ConnectionId) (o : Opening) (failure : Failure) :
    Option PoolMachine :=
  let m := m.dispose connection o.cancel.isSome
  match o.request with
  | some id =>
    m.setRequestState id
      (.failed (.connectFailed failure.code failure.effect failure.setupCause))
  | none => some m

/-- `connected` past the setup clock. -/
def connectedOpening (connection : ConnectionId) (result : Except Failure (Option Identity))
    (shared : Bool) : Option (PoolMachine × Except Error Unit) :=
  match m.entries.get? connection with
  | none => some (m, .error .stale)
  | some e =>
    match e.state with
    | .opening o =>
      match o.clock with
      | none => some (m, .error .wrongState)
      | some clock =>
        let absolute := (o.request.bind m.requests.get?).bind (·.absoluteDeadline)
        if !shared && absolute.any (fun time => decide (m.now ≥ time)) then do
          let error ← clock.timeout
          match o.request with
          | some id =>
            match ← m.failRequest id error .cancelled with
            | (m, .error e) => return (m, .error e)
            | (m, .ok ()) => return ((← m.schedule).touch, .ok ())
          | none => return ((← m.schedule).touch, .ok ())
        else do
          let m ← match result with
            | .error failure => m.connectedErr connection o failure
            | .ok proof => m.connectedOk connection e o proof
          return ((← m.schedule).touch, .ok ())
    | _ => some (m, .error .wrongState)

/-- A connect was answered. -/
def connected (connection : ConnectionId) (result : Except Failure (Option Identity)) :
    Option (PoolMachine × Except Error Unit) :=
  match m.entries.get? connection, m.sharedSetupClock connection with
  | some e, some clock =>
    let (clock, record) := completeSetup clock e.identity result
    let m := m.putConnectClock connection (.shared clock)
    let failed := !result.isOk
    if record.cause ≠ .completed || failed then do
      let m ← m.connectedEnded connection record failed
      return (m.touch, .ok ())
    else m.connectedOpening connection result true
  | _, _ => m.connectedOpening connection result false

/-! ### Idle connections and shutdown -/

def closeAll (reason : CloseReason) (ids : List ConnectionId) : Option PoolMachine :=
  ids.foldlM (fun m c => m.startClosing c reason) m

def expireIdle : Option (PoolMachine × ℕ) := do
  let idle := m.entries.keysWhere fun _ e => e.state.isIdle
  let m ← m.closeAll .idleExpired idle
  return (← m.schedule, idle.length)

def discardIdle (site : Site) : Option (PoolMachine × ℕ) := do
  let idle := m.entries.keysWhere fun _ e => e.state.isIdle && e.key.onSite site
  return (← m.closeAll .discarded idle, idle.length)

/-- The pool stops. -/
def stop (error : Error) (reason : CloseReason) : Option PoolMachine := do
  let m := { m with stopped := true, holds := .empty }
  let requests := m.requests.keysWhere fun _ _ => true
  let m ← requests.foldlM (fun m r => (m.failRequest r error reason).map (·.1)) m
  let entries := m.entries.keysWhere fun _ e => e.state.isIdle || e.state.isLeased
  return (← m.closeAll reason entries).touch

def shutdown : Option PoolMachine := m.stop .shutdown .shutdown

def loseDriver : Option PoolMachine := stop { m with driverLost := true } .driverLost .driverLost

/-! ### Actions -/

/-- The cleanup command an entry has to offer, and the entry once it is handed out. -/
def cleanupAction (connection : ConnectionId) (e : Entry) : Option (Action × Entry) :=
  match e.state with
  | .opening o =>
    o.cancel.bind fun cleanup =>
      if !cleanup.aborted && decide (m.now ≥ cleanup.deadline) then
        some (.abortConnect connection,
          { e with state := .opening { o with cancel := some { cleanup with aborted := true } } })
      else if !cleanup.sent && !cleanup.aborted then
        some (.cancelConnect connection cleanup.deadline,
          { e with state := .opening { o with cancel := some { cleanup with sent := true } } })
      else none
  | .closing reason cleanup =>
    if !cleanup.aborted && decide (m.now ≥ cleanup.deadline) then
      some (.abort connection, { e with state := .closing reason { cleanup with aborted := true } })
    else if !cleanup.sent && !cleanup.aborted then
      some (.close connection reason cleanup.deadline,
        { e with state := .closing reason { cleanup with sent := true } })
    else none
  | _ => none

/-- The earlier of the network's deadline and the request's own. -/
def boundBy (network absolute : Option ℕ) : Option ℕ :=
  match network, absolute with
  | some n, some a => some (min n a)
  | none, some a => some a
  | network, none => network

/-- The connect command of an opening entry, and the entry with its clock started. -/
def connectAction (connection : ConnectionId) (e : Entry) : Option (Action × Entry) :=
  match e.state with
  | .opening o =>
    if o.cancel.isNone && o.clock.isNone then
      let pending := o.request.bind m.requests.get?
      let network := if o.networkMs > 0 then some (satAdd m.now o.networkMs) else none
      let deadline := boundBy network (pending.bind (·.absoluteDeadline))
      some (.connect connection e.key e.identity deadline (pending.bind (·.request.tag)),
        { e with state := .opening { o with clock := some (.network deadline) } })
    else none
  | _ => none

/-- The first entry, in order, with something to offer. -/
def firstAction (offer : ConnectionId → Entry → Option (Action × Entry)) :
    Option (ConnectionId × Action × Entry) :=
  m.entries.toList.findSome? fun x => (offer x.1 x.2).map fun a => (x.1, a)

/-- The next command for the host. -/
def nextAction : PoolMachine × Option Action :=
  match (m.firstAction m.cleanupAction).or (m.firstAction m.connectAction) with
  | some (connection, action, e) => ((m.putEntry connection e).touch, some action)
  | none => (m, none)

/-! ### Time -/

/-- Whether the pass of `advance` over the requests fails this one; a shared clock is read. -/
def overdue (pending : Pending) : Option (PoolMachine × Option Error) :=
  match pending.state with
  | .waiting =>
    some (m, if m.now ≥ pending.deadline then some .allocationTimeout else none)
  | .opening connection => do
    let e ← m.entries.get? connection
    match e.state with
    | .opening { clock := none, .. } =>
      return (m, if m.now ≥ pending.deadline then some .allocationTimeout else none)
    | .opening { clock := some (.shared shared), cancel := none, .. } =>
      let (shared, observation) := shared.observe
      return (m.putConnectClock connection (.shared shared), match observation with
        | .terminal record => some (.setupEnded record)
        | .alive _ _ _ _ => none)
    | .opening { clock := some clock, cancel := none, .. } =>
      if clock.deadline.any fun time => decide (m.now ≥ time) then
        return (m, some (← clock.timeout))
      else return (m, none)
    | _ => return (m, none)
  | .ready _ =>
    some (m, if pending.absoluteDeadline.any fun time => decide (m.now ≥ time) then
      some .allocationTimeout else none)
  | .failed _ => some (m, none)

/-- The requests that have run out of time, with their errors. -/
def collectExpired : List (RequestId × Pending) →
    PoolMachine → Option (PoolMachine × List (RequestId × Error))
  | [], m => some (m, [])
  | (id, pending) :: rest, m => do
    let (m, error) ← m.overdue pending
    let (m, expired) ← collectExpired rest m
    return (m, (error.map fun e => (id, e)).toList ++ expired)

/-- Why an idle connection has to go now, if it has. -/
def idleReason (e : Entry) : Option CloseReason :=
  match e.state with
  | .idle since =>
    if m.now ≥ satAdd since m.config.idleTimeoutMs then some .idleExpired
    else if aged m.now e.born m.config.maxAgeMs then some .ageExpired
    else none
  | _ => none

def cleanupDeadlineCrossed (previous now : ℕ) : Bool :=
  m.entries.toList.any fun x =>
    let crossed := fun cleanup : Cleanup => cleanup.sent && !cleanup.aborted &&
      decide (previous < cleanup.deadline) && decide (now ≥ cleanup.deadline)
    match x.2.state with
    | .opening o => o.cancel.any crossed
    | .closing _ cleanup => crossed cleanup
    | _ => false

/-- Time passes. -/
def advance (now : ℕ) : Option PoolMachine :=
  if now < m.now then some m
  else do
    let previous := m.now
    let before := m.revision
    let (m, expired) ← collectExpired m.requests.toList { m with now := now }
    let m ← expired.foldlM (fun m x => (m.failRequest x.1 x.2 .cancelled).map (·.1)) m
    let idle := m.entries.toList.filterMap fun x => (m.idleReason x.2).map fun r => (x.1, r)
    let m ← idle.foldlM (fun m x => m.startClosing x.1 x.2) m
    let m ← m.lapseHolds.schedule
    return if m.revision = before && decide (previous < m.now) &&
        m.cleanupDeadlineCrossed previous m.now then m.touch
      else m

/-- The deadline a request adds to the pool's next one. -/
def queueDeadline (id : RequestId) (pending : Pending) : Option (Option ℕ) :=
  match pending.state with
  | .waiting =>
    let wait := (pending.preferWait.map (·.2)).filter fun _ => m.preferWaits id
    some (some (min pending.deadline (wait.getD u64Max)))
  | .opening connection => do
    let e ← m.entries.get? connection
    match e.state with
    | .opening { clock := none, .. } => return some pending.deadline
    | _ => return none
  | .ready _ => some pending.absoluteDeadline
  | .failed _ => some none

def resourceDeadline (e : Entry) : Option ℕ :=
  match e.state with
  | .idle since =>
    some (min (satAdd since m.config.idleTimeoutMs) (satAdd e.born m.config.maxAgeMs))
  | .opening { cancel := some cleanup, .. } =>
    if cleanup.aborted then none else some cleanup.deadline
  | .closing _ cleanup => if cleanup.aborted then none else some cleanup.deadline
  | .opening { clock := some clock, cancel := none, .. } => clock.deadline
  | _ => none

def nextDeadline : Option (Option ℕ) := do
  let queue ← m.requests.toList.mapM fun x => m.queueDeadline x.1 x.2
  let resources := m.entries.toList.filterMap fun x => m.resourceDeadline x.2
  return (queue.reduceOption ++ resources ++ m.holds.toList.map (·.2.expires)).min?

/-! ### Interactions and local waits -/

/-- The absolute deadline of the request an opening works for. -/
def absoluteOf (o : Opening) : Option ℕ :=
  (o.request.bind m.requests.get?).bind (·.absoluteDeadline)

def beginInteraction (connection : ConnectionId) : PoolMachine × Except Error Unit :=
  match m.entries.get? connection with
  | none => (m, .error .stale)
  | some e =>
    match e.state with
    | .opening o =>
      match o.clock, o.cancel with
      | some (.network time), none =>
        let remaining := time.map (· - m.now)
        if remaining = some 0 then (m, .error .connectTimeout)
        else if o.interactionMs = 0 then (m, .error .interactionTimeout)
        else
          let end_ := satAdd m.now o.interactionMs
          let end_ := (m.absoluteOf o).elim end_ (min end_)
          (m.putConnectClock connection (.interaction end_ remaining), .ok ())
      | _, _ => (m, .error .wrongState)
    | _ => (m, .error .wrongState)

def endInteraction (connection : ConnectionId) : PoolMachine × Except Error Unit :=
  match m.entries.get? connection with
  | none => (m, .error .stale)
  | some e =>
    match e.state with
    | .opening o =>
      match o.clock, o.cancel with
      | some (.interaction time remaining), none =>
        if m.now ≥ time then (m, .error .interactionTimeout)
        else
          let resumed := boundBy (remaining.map (satAdd m.now)) (m.absoluteOf o)
          let o := { o with interactionMs := time - m.now, clock := some (.network resumed) }
          (m.putEntry connection { e with state := .opening o }, .ok ())
      | _, _ => (m, .error .wrongState)
    | _ => (m, .error .wrongState)

/-- What the pool makes of a shared clock's answer. -/
def setupAnswer : Except PublicationError Unit → Except Error Unit
  | .ok () => .ok ()
  | .error (.activeTerminal record) => .error (.setupEnded record)
  | .error _ => .error .wrongState

def beginLocalWait (connection : ConnectionId) : Option (PoolMachine × Except Error Unit) :=
  match m.entries.get? connection with
  | none => some (m, .error .stale)
  | some e =>
    match e.state with
    | .opening o =>
      match o.clock, o.cancel with
      | some clock, none =>
        let allocation := (o.request.bind m.requests.get?).map (·.deadline)
        match clock with
        | .localWait _ _ => some (m, .ok ())
        | .interaction _ _ => some (m, .error .wrongState)
        | .network time =>
          match allocation with
          | none => some (m, .error .wrongState)
          | some allocation =>
            let remaining := time.map (· - m.now)
            if remaining = some 0 then some (m, .error .connectTimeout)
            else if allocation ≤ m.now then some (m, .error .localWaitExpired)
            else some (m.setConnectClock connection (.localWait allocation remaining), .ok ())
        | .shared shared =>
          match allocation with
          | none => some (m, .error .wrongState)
          | some allocation => do
            let (shared, answer) ← shared.beginLocalWait (allocation - m.now)
            return (m.putConnectClock connection (.shared shared), setupAnswer answer)
      | _, _ => some (m, .error .wrongState)
    | _ => some (m, .error .wrongState)

def endLocalWait (connection : ConnectionId) : PoolMachine × Except Error Unit :=
  match m.entries.get? connection with
  | none => (m, .error .stale)
  | some e =>
    match e.state with
    | .opening o =>
      match o.clock, o.cancel with
      | some (.localWait _ remaining), none =>
        let resumed := boundBy (remaining.map (satAdd m.now)) (m.absoluteOf o)
        (m.setConnectClock connection (.network resumed), .ok ())
      | some (.shared shared), none =>
        let (shared, answer) := shared.endLocalWait
        (m.putConnectClock connection (.shared shared), setupAnswer answer)
      | _, _ => (m, .error .wrongState)
    | _ => (m, .error .wrongState)

def installSetupClock (connection : ConnectionId) (source : ℕ → ℕ) (stallMs : ℕ) :
    PoolMachine × Except Error Unit :=
  match m.entries.get? connection with
  | none => (m, .error .stale)
  | some e =>
    match e.state with
    | .opening { clock := some (.network time), cancel := none, .. } =>
      match (SetupClock.new connection source time stallMs).observe with
      | (_, .terminal record) => (m, .error (.setupEnded record))
      | (clock, .alive _ _ _ _) =>
        ((m.putConnectClock connection (.shared clock)).touch, .ok ())
    | _ => (m, .error .wrongState)

/-- An adapter works with its handle; a clock the pool no longer looks at is gone. -/
def useSetupClock (connection : ConnectionId) (use : SetupClock.Use) : Option PoolMachine :=
  match m.sharedSetupClock connection with
  | none => some m
  | some clock => do
    let clock ← clock.use use
    return m.putConnectClock connection (.shared clock)

/-! ### Numbers of the host -/

def setLimit (site : Site) (limit : ℕ) : Option (PoolMachine × Except Error Unit) :=
  match m.acceptsNumbers with
  | .error e => some (m, .error e)
  | .ok () =>
    if !site.valid || limit = 0 then some (m, .error .invalidRequest)
    else do
      let m ← schedule { m with limits := assign site limit m.limits }
      return (m.touch, .ok ())

def clearLimit (site : Site) : Option PoolMachine := do
  let m ← schedule { m with limits := m.limits.filter (·.1 != site) }
  return m.touch

def setSettle (site : Site) (milliseconds : ℕ) : PoolMachine × Except Error Unit :=
  match m.acceptsNumbers with
  | .error e => (m, .error e)
  | .ok () =>
    if !site.valid then (m, .error .invalidRequest)
    else ({ m with settles := assign site milliseconds m.settles }, .ok ())

/-- `swap_remove` puts the last site in the place of the removed one; the order of the list is
never read, so the model erases. -/
def setNoEvict (site : Site) (on : Bool) : Option (PoolMachine × Except Error Unit) :=
  match m.acceptsNumbers with
  | .error e => some (m, .error e)
  | .ok () =>
    if !site.valid then some (m, .error .invalidRequest)
    else match on, m.noEvicts.contains site with
    | true, false => do
      let m ← schedule { m with noEvicts := m.noEvicts ++ [site] }
      return (m.touch, .ok ())
    | false, true => do
      let m ← schedule { m with noEvicts := m.noEvicts.erase site }
      return (m.touch, .ok ())
    | _, _ => some (m, .ok ())

end PoolMachine

/-! ### The calls together -/

/-- The calls of a pool. -/
inductive Call
  | requestUntil (request : Request) (absoluteDeadline : Option ℕ)
  | take (request : RequestId)
  | scopeHttps (lease : LeaseId) (scope : String)
  | retireHttpsScope (scope : String)
  | cancel (request : RequestId)
  | abandon (request : RequestId)
  | cancelOperation (owner : Owner)
  | cancelSession (session : String)
  | release (lease : LeaseId) (disposition : Disposition)
  | releaseUnused (lease : LeaseId)
  | connected (connection : ConnectionId) (result : Except Failure (Option Identity))
  | closed (connection : ConnectionId)
  | idleClosed (connection : ConnectionId)
  | expireIdle
  | discardIdle (site : Site)
  | shutdown
  | driverLost
  | nextAction
  | advance (now : ℕ)
  | beginInteraction (connection : ConnectionId)
  | endInteraction (connection : ConnectionId)
  | beginLocalWait (connection : ConnectionId)
  | endLocalWait (connection : ConnectionId)
  | installSetupClock (connection : ConnectionId) (source : ℕ → ℕ) (stallMs : ℕ)
  | setLimit (site : Site) (limit : ℕ)
  | clearLimit (site : Site)
  | setSettle (site : Site) (milliseconds : ℕ)
  | setNoEvict (site : Site) (on : Bool)
  | useSetupClock (connection : ConnectionId) (use : SetupClock.Use)

/-- What a call returns. -/
inductive Outcome
  | done
  | requested (result : Except Error RequestId)
  | taken (result : Except Error LeaseId)
  | replied (result : Except Error Unit)
  | counted (n : ℕ)
  | offered (action : Option Action)

namespace PoolMachine

def call (m : PoolMachine) : Call → Option (PoolMachine × Outcome)
  | .requestUntil request absolute =>
    (m.requestUntil request absolute).map fun x => (x.1, .requested x.2)
  | .take request => some ((m.take request).1, .taken (m.take request).2)
  | .scopeHttps lease scope =>
    some ((m.scopeHttps lease scope).1, .replied (m.scopeHttps lease scope).2)
  | .retireHttpsScope scope => (m.retireHttpsScope scope).map fun x => (x, .done)
  | .cancel request => (m.cancel request).map fun x => (x.1, .replied x.2)
  | .abandon request => (m.abandon request).map fun x => (x, .done)
  | .cancelOperation owner => (m.cancelOperation owner).map fun x => (x, .done)
  | .cancelSession session => (m.cancelSession session).map fun x => (x, .done)
  | .release lease disposition =>
    (m.release lease disposition).map fun x => (x.1, .replied x.2)
  | .releaseUnused lease => (m.releaseUnused lease).map fun x => (x.1, .replied x.2)
  | .connected connection result =>
    (m.connected connection result).map fun x => (x.1, .replied x.2)
  | .closed connection => (m.closed connection).map fun x => (x.1, .replied x.2)
  | .idleClosed connection => (m.idleClosed connection).map fun x => (x.1, .replied x.2)
  | .expireIdle => m.expireIdle.map fun x => (x.1, .counted x.2)
  | .discardIdle site => (m.discardIdle site).map fun x => (x.1, .counted x.2)
  | .shutdown => m.shutdown.map fun x => (x, .done)
  | .driverLost => m.loseDriver.map fun x => (x, .done)
  | .nextAction => some (m.nextAction.1, .offered m.nextAction.2)
  | .advance now => (m.advance now).map fun x => (x, .done)
  | .beginInteraction connection =>
    some ((m.beginInteraction connection).1, .replied (m.beginInteraction connection).2)
  | .endInteraction connection =>
    some ((m.endInteraction connection).1, .replied (m.endInteraction connection).2)
  | .beginLocalWait connection =>
    (m.beginLocalWait connection).map fun x => (x.1, .replied x.2)
  | .endLocalWait connection =>
    some ((m.endLocalWait connection).1, .replied (m.endLocalWait connection).2)
  | .installSetupClock connection source stallMs =>
    some ((m.installSetupClock connection source stallMs).1,
      .replied (m.installSetupClock connection source stallMs).2)
  | .setLimit site limit => (m.setLimit site limit).map fun x => (x.1, .replied x.2)
  | .clearLimit site => (m.clearLimit site).map fun x => (x, .done)
  | .setSettle site milliseconds =>
    some ((m.setSettle site milliseconds).1, .replied (m.setSettle site milliseconds).2)
  | .setNoEvict site on => (m.setNoEvict site on).map fun x => (x.1, .replied x.2)
  | .useSetupClock connection use => (m.useSetupClock connection use).map fun x => (x, .done)

end PoolMachine

end GwzTransport.Pool
