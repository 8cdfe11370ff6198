import GwzTransport.Lib.Checks
import GwzTransport.Lib.MachineInt
import GwzTransport.Codec.Text

/-!
# Validation of typed messages

`codec/validate.rs`, `codec/failure_detail.rs` and `policy.rs`: what an envelope must satisfy
before it is admitted, independent of the receiver's limits.  `envelope` runs its checks in the
source's order; each check either passes or ends the walk with its error.
-/

namespace GwzTransport.Codec

open Protocol MachineInt Checks

/-- Why a message is refused. -/
inductive Error
  | frameTooLarge | bounds | invalidMessage | unsupportedVersion | malformed
  deriving DecidableEq

/-- The largest frame. -/
def maxFrame : ℕ := 131072
/-- The largest frame before a session is bound. -/
def maxBootstrap : ℕ := 65536
/-- The largest piece of data. -/
def maxData : ℕ := 65536
/-- The longest text. -/
def maxMetadata : ℕ := 16384
/-- The deepest nesting. -/
def maxDepth : ℕ := 16
/-- The most entries of a message. -/
def maxEntries : ℕ := 256
/-- The most memory of a message. -/
def maxAllocation : ℕ := 524288
/-- The most memory before a session is bound. -/
def maxBootstrapAllocation : ℕ := 262144

/-! ### Policies -/

/-- The policies and identities of a scheme. -/
def allows (scheme : Scheme) (policy : AuthPolicy) (identity : IdentityMode) : Bool :=
  match scheme, policy, identity with
  | .ssh, .sshAmbient, .ambient => true
  | .ssh, .sshExplicit, .explicitKey => true
  | .https, .anonymous, .credentialsDisabled => true
  | .https, .gh, .ambient => true
  | .https, .windowsConfigured, .ambient => true
  | .https, .windowsDefault, .ambient => true
  | _, _, _ => false

/-- A policy of native authentication. -/
def native (policy : AuthPolicy) : Bool :=
  policy == .windowsConfigured || policy == .windowsDefault

/-- The scheme knows the policy. -/
def supports (scheme : Scheme) (policy : AuthPolicy) : Bool :=
  [IdentityMode.ambient, .explicitKey, .credentialsDisabled].any (allows scheme policy)

/-- Schemes and policies, each with a partner in the other list. -/
def capabilities (schemes : List Scheme) (policies : List AuthPolicy) : Bool :=
  !schemes.isEmpty && !policies.isEmpty &&
    schemes.all (fun s => policies.any (supports s)) &&
    policies.all (fun p => schemes.any (fun s => supports s p))

/-! ### Limits -/

/-- `validate::limits`: every field positive and below the codec's hard ceilings, and the
reserves strictly inside the queue. -/
def limits (value : Limits) : Except Error Unit :=
  refuseIf
    ([value.encodedFrame, value.dataPayload, value.metadataBytes, value.nesting,
        value.collectionEntries, value.decodeAllocation, value.queuedBytes, value.queuedFrames,
        value.receiveWindow, value.controlReserveBytes, value.controlReserveFrames].any (· ≤ 0) ||
      decide (value.encodedFrame > maxFrame) || decide (value.dataPayload > maxData) ||
      decide (value.metadataBytes > maxMetadata) || decide (value.nesting > maxDepth) ||
      decide (value.collectionEntries > maxEntries) ||
      decide (value.decodeAllocation > maxAllocation) ||
      decide (value.queuedBytes > 4194304) || decide (value.queuedFrames > 64) ||
      decide (value.receiveWindow > value.queuedBytes) ||
      decide (value.controlReserveBytes ≥ value.queuedBytes) ||
      decide (value.controlReserveFrames ≥ value.queuedFrames))
    .bounds

/-! ### Failure details -/

/-- A token of at most 32 bytes. -/
def schemeToken (value : String) : Bool :=
  !value.isEmpty && decide (value.utf8ByteSize ≤ 32) &&
    (bytesOf value).all fun b => isAsciiAlphanumeric b ||
      ("!#$%&'*+-.^_`|~".toUTF8.toList.contains b)

/-- The closed vocabulary of pipe failures. -/
def pipeKinds : List String :=
  ["NotFound", "PermissionDenied", "ConnectionRefused", "ConnectionReset", "HostUnreachable",
    "NetworkUnreachable", "ConnectionAborted", "NotConnected", "AddrInUse", "AddrNotAvailable",
    "NetworkDown", "BrokenPipe", "AlreadyExists", "WouldBlock", "NotADirectory", "IsADirectory",
    "DirectoryNotEmpty", "ReadOnlyFilesystem", "FilesystemLoop", "StaleNetworkFileHandle",
    "InvalidInput", "InvalidData", "TimedOut", "WriteZero", "StorageFull", "NotSeekable",
    "QuotaExceeded", "FileTooLarge", "ResourceBusy", "ExecutableFileBusy", "Deadlock",
    "CrossesDevices", "TooManyLinks", "InvalidFilename", "ArgumentListTooLong", "Interrupted",
    "Unsupported", "UnexpectedEof", "OutOfMemory", "Other"]

/-- A kind of the vocabulary. -/
def pipeKind (value : String) : Bool := pipeKinds.contains value

/-- A host name or address that a detail may name. -/
def capacityHost (value : String) : Bool :=
  if value.isEmpty || decide (value.utf8ByteSize > 255) then false
  else if value.toList.contains ':' then
    (bytesOf value).all fun b => isAsciiHexdigit b || b == 0x3a || b == 0x2e
  else
    (bytesOf value).all fun b => isAsciiAlphanumeric b || b == 0x2d || b == 0x2e || b == 0x5f

/-- A capacity detail, against its failure. -/
def capacity (failure : Failure) (detail : FailureDetail) (c : CapacityDetail) :
    Except Error Unit :=
  let named := [c.scheme.isSome, c.host.isSome, c.port.isSome]
  let any := named.any id
  let all := named.all id
  if failure.code != .capacity || detail.helperCause.isSome || detail.pipeKind.isSome ||
      detail.schemes.isSome || detail.helperBudgetMs.isSome then .error .invalidMessage
  else if c.cause == .local_ then
    refuseIf (any || detail.retryAttempt.isSome || c.limitApplied.isSome ||
      c.maxPerHost.isSome || c.elapsedMs.isSome || c.lastSignal.isSome || c.retryAfterMs.isSome)
      .invalidMessage
  else
    match c.maxPerHost with
    | none => .error .invalidMessage
    | some ceiling =>
      refuseIf ((any && !all) || (c.elapsedMs.all (fun ms => decide (ms < 0))) ||
        c.retryAfterMs.any (fun ms => decide (ms < 0)) ||
        (c.cause == .serverRetryAfter && c.retryAfterMs.isNone) ||
        !(decide (1 ≤ ceiling) && decide (ceiling ≤ u32Max)) ||
        c.limitApplied.any (fun limit => decide (limit < 1) || decide (limit > ceiling)) ||
        c.port.any (fun port : ℤ => !(decide (1 ≤ port) && decide (port ≤ u16Max))) ||
        c.host.any (fun host => !capacityHost host)) .invalidMessage

/-- A helper allowance stands alone on a timeout of the matching setup cause. -/
def helperBudget (failure : Failure) (detail : FailureDetail) : Except Error Unit :=
  match detail.helperBudgetMs with
  | none => .ok ()
  | some allowance =>
    let bounded := match failure.setupCause with
      | some .interaction => decide (1 ≤ allowance) && decide (allowance ≤ 120000)
      | some .allocation => decide (0 ≤ allowance) && decide (allowance ≤ 86400000)
      | _ => false
    refuseIf (failure.code != .timeout || failure.effect != .none || !bounded ||
      detail.helperCause.isSome || detail.pipeKind.isSome || detail.schemes.isSome)
      .invalidMessage

/-- A pipe failure, and nothing else, has a kind. -/
def pipeCause (detail : FailureDetail) : Except Error Unit :=
  match detail.helperCause, detail.pipeKind with
  | some .pipeFailure, some kind => refuseIf (!pipeKind kind) .invalidMessage
  | some .pipeFailure, none => .error .invalidMessage
  | _, some _ => .error .invalidMessage
  | _, none => .ok ()

/-- `failure_detail::validate`. -/
def failureDetail (failure : Failure) : Except Error Unit :=
  match failure.detail with
  | none => .ok ()
  | some detail => do
    helperBudget failure detail
    refuseIf (detail.helperCause.isSome && detail.schemes.isSome) .invalidMessage
    pipeCause detail
    refuseIf (detail.schemes.any fun schemes =>
      decide (schemes.length > 4) || schemes.any (fun scheme => !schemeToken scheme))
      .invalidMessage
    refuseIf (detail.retryAttempt.any fun count =>
      decide (count.attempt ≤ 0) || decide (count.attempts < count.attempt) ||
        decide (count.attempts > (u32Max : ℤ))) .invalidMessage
    match detail.capacity with
    | none => .ok ()
    | some c => capacity failure detail c

/-! ### Parts of an envelope -/

/-- Observation, scheme and mechanism agree. -/
def nativeValid (facts : Facts) (native : NativeFacts) : Bool :=
  match native.observation with
  | .notStarted => native.mechanism.isNone && !native.authoritative && !facts.credentialOffered
  | .unresolved =>
    native.scheme == .negotiate && native.mechanism.isNone && !native.authoritative
  | .selected =>
    match native.scheme, native.mechanism with
    | .negotiate, some .kerberos => true
    | .negotiate, some .ntlm => true
    | .ntlm, some .ntlm => true
    | _, _ => false

/-- Native facts stand with SSPI, from version 2 on. -/
def nativeFacts (facts : Facts) (version : ℤ) : Except Error Unit :=
  if (facts.method == .sspi) != facts.native.isSome then .error .invalidMessage
  else match facts.native with
  | none => .ok ()
  | some native =>
    if version == 1 || facts.keyFingerprint.isSome || facts.sshExitStatus.isSome then
      .error .invalidMessage
    else
      refuseIf (!nativeValid facts native ||
        (native.scheme == .digest &&
          (native.source != .configured || native.observation != .notStarted)) ||
        (facts.authenticated == some true &&
          (!facts.credentialOffered || native.observation != .selected ||
            !native.authoritative))) .invalidMessage

/-- What a refused offer may say. -/
def bindRejection (failure : Failure) : Except Error Unit :=
  refuseIf (!(failure.code == .unsupportedVersion || failure.code == .unsupportedOperation ||
      failure.code == .capacity || failure.code == .invalidRequest ||
      failure.code == .cancelled) ||
    failure.effect != .none || failure.facts.isSome || failure.detail.isSome) .invalidMessage

/-- What version 1 does not know. -/
def failureHasV2Fields (failure : Failure) : Bool :=
  failure.facts.isSome || failure.code == .repositoryRefused

/-- A key path for an explicit key, and for nothing else. -/
def validIdentity (value : Identity) : Bool :=
  if value.mode != .explicitKey then value.keyPath.isNone && value.pathBase.isNone
  else
    value.keyPath.any (fun path => !path.isEmpty && !path.toList.contains '\x00') &&
      value.pathBase.all (fun base => !base.isEmpty && !base.toList.contains '\x00')

/-- A character that no host holds. -/
def forbiddenInHost (c : Char) : Bool :=
  isControl c || isWhitespace c || "@/?#\\".toList.contains c

/-- A user name that HTTPS cannot send. -/
def httpsUsernameBad (value : String) : Bool :=
  value.isEmpty || decide (value.utf8ByteSize > 18000) ||
    (bytesOf value).any (fun b => decide (b.toNat > 0x7f)) ||
    (bytesOf value).any (fun b => isAsciiControl b || isAsciiWhitespace b ||
      "@:/?#\\".toUTF8.toList.contains b) ||
    hasDecodedControl value

/-- The length of the URL an HTTPS destination stands for. -/
def httpsUrlLength (value : Destination) : ℕ :=
  let brackets := if value.host.toList.contains ':' && !value.host.startsWith "[" then 2 else 0
  let port := if value.port == 443 then 0 else 1 + (toString value.port).length
  let selector := match value.httpsUsername with
    | none => 0
    | some name => name.utf8ByteSize + 1
  8 + value.host.utf8ByteSize + brackets + port + selector + value.path.utf8ByteSize

/-- The fields of a destination. -/
def destination (value : Destination) : Except Error Unit := do
  refuseIf (value.host.isEmpty || value.host.toList.any forbiddenInHost ||
    !(decide (1 ≤ value.port) && decide (value.port ≤ 65535)) ||
    value.path.isEmpty || value.path.toList.contains '\x00') .invalidMessage
  refuseIf (value.scheme == .https && (value.sshUsername.isSome ||
    value.path.toList.contains '?' || value.path.toList.contains '#')) .invalidMessage
  if value.scheme == .https then
    refuseIf (value.httpsUsername.any httpsUsernameBad ||
      decide (value.path.utf8ByteSize > 18000) || hasDecodedControl value.path) .invalidMessage
    refuseIf (decide (httpsUrlLength value > 18000)) .invalidMessage
  else
    refuseIf value.httpsUsername.isSome .invalidMessage
  refuseIf (value.scheme == .ssh &&
    value.sshUsername.all (fun s => s.isEmpty || s.toList.any isControl)) .invalidMessage

/-! ### The envelope -/

/-- Which bodies are present, in the order of the kinds' wire numbers. -/
def bodies (value : Envelope) : List Bool :=
  [value.bind.isSome, value.bound.isSome, value.bindRejected.isSome, value.open_.isSome,
    value.opened.isSome, value.openFailed.isSome, value.data.isSome, value.window.isSome,
    value.flush.isSome, value.flushed.isSome, value.endWrite.isSome, value.close.isSome,
    value.closed.isSome, value.cancel.isSome, value.failed.isSome, value.checkIdentity.isSome,
    value.identityChecked.isSome, value.identityCheckFailed.isSome]

/-- Header, presence of exactly the kind's own body, and sequence number. -/
def header (value : Envelope) : Except Error Unit := do
  refuseIf (!(decide (1 ≤ value.version) && decide (value.version ≤ 3))) .unsupportedVersion
  refuseIf (value.sessionId.isEmpty || decide (value.sessionId.utf8ByteSize > 128))
    .invalidMessage
  let kind := value.kind.wire.toNat
  refuseIf ((bodies value).count true != 1 || !((bodies value)[kind - 1]?).getD false)
    .invalidMessage
  refuseIf ((decide (kind ≤ 3) && (value.streamId != 0 || value.version != 1)) ||
    (decide (kind > 3) && decide (value.streamId ≤ 0))) .invalidMessage
  if value.version == 3 && decide (value.streamId > 0) then
    refuseIf (value.messageSeq.all fun sequence =>
      decide (sequence ≤ 0) || sequence == i64Max) .invalidMessage
  else
    refuseIf value.messageSeq.isSome .invalidMessage
  refuseIf (decide (kind ≥ 16) && decide (value.version < 2)) .unsupportedVersion

/-- The body of an offer. -/
def bindBody (bind : Bind) : Except Error Unit := do
  refuseIf (bind.versions.isEmpty || !capabilities bind.schemes bind.policies) .invalidMessage
  limits bind.receiveLimits

/-- The body of an answer to an offer. -/
def boundBody (bound : Bound) : Except Error Unit := do
  refuseIf (!(decide (1 ≤ bound.version) && decide (bound.version ≤ 3)) ||
    bound.endpointId.isEmpty || bound.trustOwner.isEmpty ||
    !capabilities bound.schemes bound.policies ||
    (bound.version == 1 && bound.policies.any native)) .invalidMessage
  limits bound.receiveLimits

/-- The body of an `Open`. -/
def openBody (version : ℤ) (body : Open) : Except Error Unit := do
  limits body.receiveLimits
  destination body.destination
  refuseIf (body.endpointId.isEmpty || body.operationId.isEmpty) .invalidMessage
  refuseIf (!validIdentity body.identity) .invalidMessage
  refuseIf (!allows body.destination.scheme body.policy body.identity.mode) .invalidMessage
  refuseIf (version == 1 && native body.policy) .invalidMessage
  let d := body.deadlines
  refuseIf ([d.allocationMs, d.interactionMs, d.cleanupMs].any (· ≤ 0) ||
    [d.connectMs, d.ioMs].any (fun v : ℤ => !(decide (0 ≤ v) && decide (v ≤ i32Max))))
    .invalidMessage

/-- The body of a check of an identity. -/
def checkIdentityBody (check : CheckIdentity) : Except Error Unit :=
  refuseIf (check.endpointId.isEmpty || check.operationId.isEmpty ||
    decide (check.timeoutMs ≤ 0) || decide (check.timeoutMs > i32Max) ||
    check.identity.mode != .explicitKey || !validIdentity check.identity) .invalidMessage

/-- The body of an `Opened`. -/
def openedBody (opened : Opened) : Except Error Unit := do
  limits opened.receiveLimits
  refuseIf (opened.connectionId.isEmpty || opened.endpointId.isEmpty ||
    opened.trustOwner.isEmpty ||
    (opened.reused && opened.facts.credentialOffered &&
      !(opened.facts.method == .gh || opened.facts.method == .sspi))) .invalidMessage

/-- Checks that hold of a failure wherever it stands. -/
def failures (value : Envelope) : List Failure :=
  [value.bindRejected, value.openFailed, value.failed, value.identityCheckFailed,
    value.closed.bind (·.failure)].filterMap id

/-- The facts an envelope carries, in the order they are checked. -/
def factsOf (value : Envelope) : List Facts :=
  [value.opened.map (·.facts), value.closed.map (·.facts), value.bindRejected.bind (·.facts),
    value.openFailed.bind (·.facts), value.failed.bind (·.facts)].filterMap id

/-- Offsets and identifiers of the stream bodies. -/
def numbers (value : Envelope) : Except Error Unit :=
  let barrierBad := fun b : Barrier => decide (b.offset < 0) || decide (b.barrierId ≤ 0)
  refuseIf (value.data.any (fun v => decide (v.offset < 0) ||
      (checkedAdd v.offset v.payload.length).isNone) ||
    value.window.any (fun v => decide (v.maxOffset < 0)) ||
    value.flush.any barrierBad || value.flushed.any barrierBad ||
    value.endWrite.any (fun v => decide (v.finalOffset < 0)) ||
    value.close.any (fun v => decide (v.finalOffset < 0))) .invalidMessage

/-- Run a check on a body that may be absent. -/
def onSome {α : Type} (body : Option α) (check : α → Except Error Unit) : Except Error Unit :=
  match body with
  | none => .ok ()
  | some v => check v

@[simp] theorem onSome_none {α : Type} (check : α → Except Error Unit) :
    onSome none check = .ok () := rfl
@[simp] theorem onSome_some {α : Type} (v : α) (check : α → Except Error Unit) :
    onSome (some v) check = check v := rfl

/-- `validate::envelope`. -/
def envelope (value : Envelope) : Except Error Unit := do
  header value
  onSome value.bind bindBody
  onSome value.bound boundBody
  onSome value.bindRejected bindRejection
  (failures value).forM failureDetail
  (factsOf value).forM (nativeFacts · value.version)
  refuseIf (value.version == 1 && (value.openFailed.any failureHasV2Fields ||
    value.failed.any failureHasV2Fields)) .invalidMessage
  onSome value.identityCheckFailed fun failure =>
    refuseIf (failure.effect != .none || failure.facts.isSome) .invalidMessage
  onSome value.closed fun closed =>
    refuseIf (closed.failure.any fun failure => failure.facts.isSome ||
      (value.version == 1 && failure.code == .repositoryRefused)) .invalidMessage
  onSome value.open_ (openBody value.version)
  onSome value.checkIdentity checkIdentityBody
  onSome value.opened openedBody
  numbers value
  refuseIf (value.cancel.any fun cancel =>
    !(cancel.reason == .cancelled || cancel.reason == .timeout)) .invalidMessage

end GwzTransport.Codec
