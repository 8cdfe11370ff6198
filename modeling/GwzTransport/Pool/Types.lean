import GwzTransport.Codec.Validate
import GwzTransport.Lib.SortedMap

/-!
# The connection pool: values

`pool/mod.rs`: what a host gives to the pool and gets from it.  Identifiers are ordered by their
pool and serial number, so the ordered maps of the machine list requests and connections in the
order in which they were issued.
-/

namespace GwzTransport.Pool

open Protocol MachineInt

/-- How many connections and requests there may be. -/
structure Capacity where
  perUserHost : ℕ
  perHost : ℕ
  total : ℕ
  maxRequests : ℕ
  deriving DecidableEq

/-- No bound is zero. -/
def Capacity.valid (c : Capacity) : Bool :=
  decide (c.perUserHost > 0) && decide (c.perHost > 0) && decide (c.total > 0) &&
    decide (c.maxRequests > 0)

/-- No bound of `c` is above the one of `d`. -/
def Capacity.Within (c d : Capacity) : Prop :=
  c.perUserHost ≤ d.perUserHost ∧ c.perHost ≤ d.perHost ∧ c.total ≤ d.total ∧
    c.maxRequests ≤ d.maxRequests

/-- The larger bounds of two. -/
def Capacity.sup (c d : Capacity) : Capacity :=
  ⟨max c.perUserHost d.perUserHost, max c.perHost d.perHost, max c.total d.total,
    max c.maxRequests d.maxRequests⟩

namespace Capacity

variable {a b c : Capacity}

theorem within_refl (c : Capacity) : c.Within c := ⟨le_rfl, le_rfl, le_rfl, le_rfl⟩

theorem Within.trans (h : a.Within b) (h' : b.Within c) : a.Within c :=
  ⟨h.1.trans h'.1, h.2.1.trans h'.2.1, h.2.2.1.trans h'.2.2.1, h.2.2.2.trans h'.2.2.2⟩

theorem within_sup_left (c d : Capacity) : c.Within (c.sup d) :=
  ⟨le_max_left _ _, le_max_left _ _, le_max_left _ _, le_max_left _ _⟩

theorem within_sup_right (c d : Capacity) : d.Within (c.sup d) :=
  ⟨le_max_right _ _, le_max_right _ _, le_max_right _ _, le_max_right _ _⟩

theorem sup_eq_left (h : b.Within a) : a.sup b = a := by
  obtain ⟨h₁, h₂, h₃, h₄⟩ := h
  simp only [sup, max_eq_left h₁, max_eq_left h₂, max_eq_left h₃, max_eq_left h₄]

end Capacity

/-- The configuration of a pool; times are in milliseconds. -/
structure Config where
  perUserHost : ℕ
  perHost : ℕ
  total : ℕ
  maxRequests : ℕ
  idleTimeoutMs : ℕ
  maxAgeMs : ℕ
  allocationTimeoutMs : ℕ
  connectTimeoutMs : ℕ
  interactionTimeoutMs : ℕ
  cleanupTimeoutMs : ℕ
  deriving DecidableEq

/-- The defaults of the source. -/
def Config.default : Config where
  perUserHost := 32
  perHost := 32
  total := 256
  maxRequests := 1024
  idleTimeoutMs := 60000
  maxAgeMs := 600000
  allocationTimeoutMs := 30000
  connectTimeoutMs := 30000
  interactionTimeoutMs := 120000
  cleanupTimeoutMs := 5000

/-- The bounds of a configuration. -/
def Config.capacity (k : Config) : Capacity :=
  ⟨k.perUserHost, k.perHost, k.total, k.maxRequests⟩

/-- What a connection is opened to. -/
structure Key where
  scheme : Scheme
  username : Option String
  host : String
  port : ℕ
  deriving DecidableEq

/-- What a limit and a settle time are keyed by: a key without its username. -/
structure Site where
  scheme : Scheme
  host : String
  port : ℕ
  deriving DecidableEq

/-- A host and a port that can be named. -/
def validSite (host : String) (port : ℕ) : Bool :=
  !host.isEmpty && decide (host.utf8ByteSize ≤ 255) && port != 0 &&
    !host.toList.any Codec.forbiddenInHost

/-- A text that is not empty, not too long and without control characters. -/
def boundedText (text : String) (max : ℕ) : Bool :=
  !text.isEmpty && decide (text.utf8ByteSize ≤ max) && !text.toList.any Codec.isControl

namespace Key

/-- The key of an SSH destination. -/
def ssh (username host : String) (port : ℕ) : Key := ⟨.ssh, some username, host, port⟩

/-- The key of an HTTPS destination. -/
def https (host : String) (port : ℕ) : Key := ⟨.https, none, host, port⟩

/-- The server of a key. -/
def site (k : Key) : Site := ⟨k.scheme, k.host, k.port⟩

/-- The same user on the same host. -/
def sameUserHost (k other : Key) : Bool := k.host == other.host && k.username == other.username

/-- The same server. -/
def sameSite (k other : Key) : Bool :=
  k.scheme.wire == other.scheme.wire && k.host == other.host && k.port == other.port

/-- A key of the server. -/
def onSite (k : Key) (site : Site) : Bool :=
  k.scheme.wire == site.scheme.wire && k.host == site.host && k.port == site.port

/-- A server, with a user name for SSH only. -/
def valid (k : Key) : Bool :=
  validSite k.host k.port &&
    match k.scheme with
    | .ssh => k.username.any fun s => boundedText s 128
    | .https => k.username.isNone

theorem onSite_iff (k : Key) (site : Site) : k.onSite site = true ↔ k.site = site := by
  obtain ⟨s, u, h, p⟩ := k
  obtain ⟨s', h', p'⟩ := site
  cases s <;> cases s' <;> simp [onSite, Key.site, Scheme.wire]

/-- Two keys of one user and host count together. -/
theorem sameUserHost_congr {k other : Key} (h : k.sameUserHost other = true) (j : Key) :
    j.sameUserHost k = j.sameUserHost other := by
  simp only [sameUserHost, Bool.and_eq_true, beq_iff_eq] at h
  simp only [sameUserHost, h.1, h.2]

end Key

/-- A server that can be named. -/
def Site.valid (s : Site) : Bool := validSite s.host s.port

/-- The identity that a connection is opened with. -/
inductive Identity
  | ambient
  | explicit (proof : String)
  | https
  | httpsScoped (scope : String)
  deriving DecidableEq

/-- An identity that the key's scheme knows. -/
def Identity.validFor (i : Identity) (key : Key) : Bool :=
  match key.scheme, i with
  | .ssh, .ambient => true
  | .https, .https => true
  | .ssh, .explicit proof => boundedText proof 1024
  | .https, .httpsScoped scope => boundedText scope 1024
  | _, _ => false

/-- Whom a request is for. -/
structure Owner where
  session : String
  operation : String
  deriving DecidableEq

/-- Names of the session and the operation. -/
def Owner.valid (o : Owner) : Bool := boundedText o.session 128 && boundedText o.operation 128

/-- The name of a connection. -/
structure ConnectionId where
  pool : ℕ
  serial : ℕ
  deriving DecidableEq

/-- The name of a request. -/
structure RequestId where
  pool : ℕ
  serial : ℕ
  deriving DecidableEq

instance : LinearOrder ConnectionId :=
  LinearOrder.lift' (fun c => toLex (c.pool, c.serial)) fun a b h => by
    cases a; cases b; simpa using h

instance : LinearOrder RequestId :=
  LinearOrder.lift' (fun r => toLex (r.pool, r.serial)) fun a b h => by
    cases a; cases b; simpa using h

/-- The name of one lease of a connection. -/
structure LeaseId where
  connection : ConnectionId
  generation : ℕ
  deriving DecidableEq

/-- A request for a connection. -/
structure Request where
  key : Key
  identity : Identity
  owner : Owner
  allocationTimeoutMs : Option ℕ := none
  connectTimeoutMs : Option ℕ := none
  interactionTimeoutMs : Option ℕ := none
  fresh : Bool := false
  tag : Option String := none
  exclude : List ConnectionId := []
  limits : Option Capacity := none
  prefer : Option ConnectionId := none
  preferWaitMs : Option ℕ := none
  deriving DecidableEq

/-- How many connections a request may exclude. -/
def maxExcluded : ℕ := 64

/-- A time of the request's own, not above the configured one. -/
def networkTimeoutValid (value : Option ℕ) (configured : ℕ) : Bool :=
  value.all fun value => decide (value ≤ i32Max) &&
    if value = 0 then configured == 0 else configured == 0 || decide (value ≤ configured)

/-- The checks of a request. -/
def Request.valid (r : Request) (k : Config) : Bool :=
  r.key.valid && r.identity.validFor r.key && r.owner.valid &&
    r.allocationTimeoutMs.all (fun v => decide (v > 0) && decide (v ≤ k.allocationTimeoutMs)) &&
    networkTimeoutValid r.connectTimeoutMs k.connectTimeoutMs &&
    r.interactionTimeoutMs.all (fun v => decide (v > 0) && decide (v ≤ k.interactionTimeoutMs)) &&
    decide (r.exclude.length ≤ maxExcluded) && r.limits.all Capacity.valid &&
    r.preferWaitMs.all fun wait =>
      r.prefer.isSome && decide (wait > 0) && decide (wait ≤ k.cleanupTimeoutMs)

/-- Why a connection is closed. -/
inductive CloseReason
  | idleExpired | ageExpired | evicted | discarded | unproven | cancelled | shutdown
  | identityMismatch | driverLost
  deriving DecidableEq

/-! ### Setup records -/

/-- The number of a phase of a connection's setup. -/
structure PhaseId where
  serial : ℕ
  deriving DecidableEq

/-- Why a setup ended. -/
inductive SetupCause
  | networkAggregate | networkStall | localDeadline | localWaitExpired | preparationDeadline
  | cancelled | driverLost | completed
  | resourceFailure (code : ErrorCode) (effect : Effect) (setupCause : Option SetupFailureCause)
  deriving DecidableEq

/-- The record of a setup's end. -/
structure SetupTerminal where
  connection : ConnectionId
  phase : PhaseId
  cause : SetupCause
  deriving DecidableEq

/-- The errors of the pool. -/
inductive Error
  | invalidConfig | invalidRequest | capacity | wouldBlock | cancelled | shutdown | driverLost
  | stale | wrongState | allocationTimeout | connectTimeout | interactionTimeout
  | localWaitExpired | identityMismatch
  | setupEnded (record : SetupTerminal)
  | connectFailed (code : ErrorCode) (effect : Effect) (setupCause : Option SetupFailureCause)
  deriving DecidableEq

/-- What the host is to do next. -/
inductive Action
  | connect (connection : ConnectionId) (key : Key) (identity : Identity)
      (networkDeadline : Option ℕ) (tag : Option String)
  | cancelConnect (connection : ConnectionId) (deadline : ℕ)
  | abortConnect (connection : ConnectionId)
  | close (connection : ConnectionId) (reason : CloseReason) (deadline : ℕ)
  | abort (connection : ConnectionId)
  deriving DecidableEq

/-- The checks of a configuration. -/
def Config.validate (k : Config) : Except Error Unit :=
  if !k.capacity.valid ||
      [k.idleTimeoutMs, k.maxAgeMs, k.allocationTimeoutMs, k.interactionTimeoutMs,
        k.cleanupTimeoutMs].any (fun v => !(decide (1 ≤ v) && decide (v ≤ 86400000))) ||
      decide (k.connectTimeoutMs > i32Max) then .error .invalidConfig
  else .ok ()

end GwzTransport.Pool
