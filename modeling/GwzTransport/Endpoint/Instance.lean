import GwzTransport.Pool.Calls

/-!
# An endpoint instance

`gwz-connection`: `instance/{state,leasing,proofs,owner}.rs`, with `cancel_binding` and
`LocalOpening::wait` of `exchange.rs`.  What runs under the lock of the instance is one step.  The
pass of the driver is a sequence of such steps; here they come in any order, among the calls of any
number of operations.  A binding is named by its owner, whose session no other binding has.

* `Instance`: the instance with the flags of its bindings;
* `Instance.call`: what is done to it.
-/

namespace GwzTransport.Endpoint

open Protocol MachineInt Pool

/-- An opening, with its request at the pool. -/
structure Pending where
  id : ℕ
  request : RequestId
  template : Request
  scope : ℕ
  misfits : ℕ
  excluded : List ConnectionId
  deadline : ℕ
  deriving DecidableEq

def Pending.binding (p : Pending) : Owner := p.template.owner

/-- An opening whose lease waits for the proof of its binding. -/
structure Authorizing where
  pending : Pending
  lease : LeaseId
  proof : ℕ
  deriving DecidableEq

/-- A connection the adapter was told to set up. -/
structure Setup where
  scope : Option ℕ
  https : Bool
  lessee : Option Owner
  deriving DecidableEq

def Setup.fits (setup : Setup) (scope : ℕ) : Bool := !setup.https || setup.scope == some scope

inductive ReuseVerdict
  | authorized | revoked | unprovable
  deriving DecidableEq

/-- How an exchange starts; `lost` is a connection that was gone before the request was handed
over (`NotConnected` without effect). -/
inductive Start
  | ok | lost | failed
  deriving DecidableEq

/-- What the adapter answers in a section: whether it begins a proof, how an exchange starts, and
whether the opening is still there to take it. -/
structure Replies where
  authorizes : Bool := true
  start : Start := .ok
  heard : Bool := true
  deriving DecidableEq

inductive Event
  | asked (id : ℕ) (request : Request)
  | started (id : ℕ) (binding : Owner)
  deriving DecidableEq

def Event.binding : Event → Owner
  | .asked _ request => request.owner
  | .started _ binding => binding

/-- The state under the lock, the flags of the bindings, and the calls between their two steps:
`checked` for the openings that have passed the check of the flags, `cancelling` for the
cancellations that have set one.  The log is its history, which no function reads. -/
structure Instance where
  pool : PoolMachine
  adapter : Bool
  openings : List Pending
  authorizing : List Authorizing
  settling : List LeaseId
  connections : SortedMap ConnectionId Setup
  nextProof : ℕ
  nextId : ℕ
  cancelled : List Owner
  cancelling : List Owner
  checked : List Owner
  log : List Event

namespace Instance

def fresh (config : Config) (poolId : ℕ) : Instance :=
  ⟨.fresh config poolId, true, [], [], [], .empty, 0, 0, [], [], [], []⟩

variable (w : Instance)

/-! ### Requests -/

def use (c : Pool.Call) : Option Instance := (w.pool.call c).map fun x => { w with pool := x.1 }

/-- `request_until` for the opening `id`. -/
def requestUntil (id : ℕ) (request : Request) (deadline : Option ℕ) :
    Option (Instance × Option RequestId) :=
  (w.pool.requestUntil request deadline).map fun
    | (pool, .ok r) => ({ w with pool, log := w.log ++ [.asked id request] }, some r)
    | (pool, .error _) => ({ w with pool }, none)

/-- The opening asks with `request` and joins the others; refused, it ends. -/
def ask (p : Pending) (request : Request) : Option Instance :=
  (w.requestUntil p.id request (some p.deadline)).map fun x =>
    { x.1 with openings := x.1.openings ++ (x.2.map fun r => { p with request := r }).toList }

def refusedForCancelled (p : Pending) : Bool := w.cancelled.contains p.binding

def askAgain (p : Pending) (bounced : Option ConnectionId) : Option Instance :=
  if w.refusedForCancelled p then some w
  else
    let excluded := p.excluded ++ (bounced.filter fun c => !p.excluded.contains c).toList
    w.ask { p with excluded }
      (if excluded.length ≤ maxExcluded then { p.template with exclude := excluded }
       else { p.template with fresh := true })

def askFresh (p : Pending) : Option Instance :=
  if w.refusedForCancelled p then some w
  else w.ask { p with excluded := [] } { p.template with fresh := true, exclude := [] }

def misfitBound (request : Request) : ℕ :=
  let ceiling := w.pool.capacity.perUserHost
  (request.limits.elim ceiling fun limits => max ceiling limits.perUserHost) + 1

def lostLease (p : Pending) : Option Instance :=
  if p.misfits + 1 > w.misfitBound p.template then some w
  else w.askAgain { p with misfits := p.misfits + 1 } none

/-! ### Leases -/

/-- The exchange of `p` is started on its lease. -/
def serve (p : Pending) (lease : LeaseId) (r : Replies) : Option Instance :=
  if w.adapter then
    let w := { w with log := w.log ++ [Event.started p.id p.binding] }
    match r.start with
    | .ok =>
      let connections := match w.connections.get? lease.connection with
        | some setup => w.connections.insert lease.connection { setup with lessee := p.binding }
        | none => w.connections
      if r.heard then some { w with connections }
      else use { w with connections } (.release lease .discarded)
    | .lost => (w.use (.release lease .discarded)).bind fun w => w.lostLease p
    | .failed => w.use (.release lease .discarded)
  else w.use (.release lease .discarded)

/-- The openings with the one at `i` replaced by `p`, or removed. -/
def replace (i : ℕ) (p : Option Pending) : Instance :=
  { w with openings := w.openings.take i ++ p.toList ++ w.openings.drop (i + 1) }

/-- A lease of a connection of another scope goes back, and the opening at `i` asks for a new
connection; it does not look at the flag of its binding. -/
def misfit (i : ℕ) (p : Pending) (lease : LeaseId) : Option Instance := do
  let w ← w.use (.release lease .reusable)
  let p := { p with misfits := p.misfits + 1 }
  if p.misfits > w.misfitBound p.template then return w.replace i none
  let (w, asked) ← w.requestUntil p.id { p.template with fresh := true } (some p.deadline)
  return w.replace i (asked.map fun r => { p with request := r })

/-- One turn of `openings`, for the opening at `i`. -/
def opening (i : ℕ) (r : Replies) : Option Instance := do
  let p ← w.openings[i]?
  let (pool, taken) := w.pool.take p.request
  let w := { w with pool }
  match taken with
  | .error .wouldBlock => return w
  | .error _ => return w.replace i none
  | .ok lease =>
    match w.connections.get? lease.connection with
    | none =>
      let w ← w.use (.release lease .discarded)
      (w.replace i none).lostLease p
    | some setup =>
      if !setup.fits p.scope then w.misfit i p lease
      else
        let w := w.replace i none
        if setup.lessee.any (· != p.binding) then
          let w := { w with nextProof := w.nextProof + 1 }
          if w.adapter && r.authorizes then
            return { w with authorizing := w.authorizing ++ [⟨p, lease, w.nextProof⟩] }
          else
            let w ← w.use (.releaseUnused lease)
            w.askAgain p (some lease.connection)
        else w.serve p lease r

/-! ### Proofs -/

/-- Each of the openings ends whose proof is given up; its lease goes back unused. -/
def endAuthorizing (ends : Authorizing → Bool) : Option Instance :=
  (w.authorizing.filter ends).foldlM (fun w item => w.use (.releaseUnused item.lease))
    { w with authorizing := w.authorizing.filter fun item => !ends item }

def cancelAuthorizing (binding : Owner) : Option Instance :=
  w.endAuthorizing fun item => item.pending.binding == binding

def expireAuthorizing (now : ℕ) : Option Instance :=
  w.endAuthorizing fun item => decide (item.pending.deadline ≤ now)

def reused (connection : ConnectionId) (proof : ℕ) (verdict : ReuseVerdict) (r : Replies) :
    Option Instance :=
  let waits := fun item : Authorizing => item.proof == proof && item.lease.connection == connection
  match w.authorizing.find? waits with
  | none => some w
  | some item =>
    let w := { w with authorizing := w.authorizing.eraseP waits }
    match verdict with
    | .authorized => w.serve item.pending item.lease r
    | .revoked => (w.use (.release item.lease .discarded)).bind (·.askFresh item.pending)
    | .unprovable =>
      (w.use (.releaseUnused item.lease)).bind (·.askAgain item.pending (some connection))

/-! ### Calls -/

/-- The calls to the pool that are not made for an opening. -/
def drives : Pool.Call → Bool
  | .requestUntil .. | .take _ => false
  | _ => true

/-- What the driver brings to the pool and from it: a connect is recorded under the scope of the
opening it is for, and the end of a connection ends its record. -/
def drive (c : Pool.Call) : Option Instance := do
  guard (drives c)
  let (pool, out) ← w.pool.call c
  let w := { w with pool }
  match c, out with
  | .nextAction, .offered (some (.connect connection key _ _ tag)) =>
    let opening := tag.bind fun tag => w.openings.find? (·.template.tag == some tag)
    let setup : Setup := ⟨opening.map Pending.scope, key.scheme == .https, none⟩
    return if w.adapter then { w with connections := w.connections.insert connection setup } else w
  | .connected connection (.error _), _ | .closed connection, _ | .idleClosed connection, _ =>
    return { w with connections := w.connections.erase connection }
  | _, _ => return w

/-- The second step of `wait`: the request is queued; it waits for the connection it prefers only
while the exchange before it settles there. -/
def submit (request : Request) (scope now : ℕ) : Option Instance := do
  guard (w.checked.contains request.owner)
  let w ← { w with checked := w.checked.erase request.owner }.use (.advance now)
  let settles := request.prefer.filter fun c => w.settling.any (·.connection == c)
  let asked := { request with preferWaitMs := settles.map fun _ => w.pool.config.cleanupTimeoutMs }
  let timeout := request.allocationTimeoutMs.getD w.pool.config.allocationTimeoutMs
  let (w, taken) ← w.requestUntil w.nextId asked none
  return { w with
    nextId := w.nextId + 1
    openings := w.openings ++ (taken.map fun r =>
      ⟨w.nextId, r, request, scope, 0, [], satAdd now timeout⟩).toList }

def abandon (id : ℕ) : Option Instance :=
  Option.bind
    (match w.openings.find? (·.id == id) with
      | some p => use { w with openings := w.openings.eraseP (·.id == id) } (.abandon p.request)
      | none => some w)
    fun w => w.endAuthorizing fun item => item.pending.id == id

/-- The second step of `cancel_binding`. -/
def sweep (binding : Owner) : Option Instance := do
  guard (w.cancelling.contains binding)
  let w ← { w with cancelling := w.cancelling.erase binding }.cancelAuthorizing binding
  w.use (.cancelOperation binding)

inductive Call
  | check (binding : Owner)
  | submit (request : Request) (scope now : ℕ)
  | cancel (binding : Owner)
  | sweep (binding : Owner)
  | drive (call : Pool.Call)
  | opening (i : ℕ) (r : Replies)
  | expireAuthorizing (now : ℕ)
  | reused (connection : ConnectionId) (proof : ℕ) (verdict : ReuseVerdict) (r : Replies)
  | settle (lease : LeaseId)
  | settled (lease : LeaseId) (disposition : Disposition)
  | abandon (id : ℕ)
  | takeAdapter

/-- A check of set flags, and a cancellation of a cancelled binding, do nothing more. -/
def call : Call → Option Instance
  | .check binding =>
    some (if w.cancelled.contains binding then w else { w with checked := binding :: w.checked })
  | .submit request scope now => w.submit request scope now
  | .cancel binding =>
    some (if w.cancelled.contains binding then w
      else { w with
        cancelled := binding :: w.cancelled
        cancelling := binding :: w.cancelling })
  | .sweep binding => w.sweep binding
  | .drive c => w.drive c
  | .opening i r => w.opening i r
  | .expireAuthorizing now => w.expireAuthorizing now
  | .reused connection proof verdict r => w.reused connection proof verdict r
  | .settle lease => some { w with settling := w.settling ++ [lease] }
  | .settled lease disposition =>
    use { w with settling := w.settling.erase lease } (.release lease disposition)
  | .abandon id => w.abandon id
  | .takeAdapter => some { w with adapter := false }

def Step (w : Instance) (c : Call) (w' : Instance) : Prop := w.call c = some w'

end Instance

end GwzTransport.Endpoint
