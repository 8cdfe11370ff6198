import Mathlib.Tactic

/-!
# The message protocol: typed values

The typed side of the generated protocol (`src/protocol.rs`).  Every message travels as an
`Envelope`: a header (profile version, session, stream, kind, sequence number) and one optional
body for each kind.  Wire numbers of the enumerations are kept, because admission charges an
enumeration by the encoded size of its number.

Integers that the source keeps in 64 signed bits are `ℤ`; byte strings are lists of bytes; text
is `String`, whose `utf8ByteSize` is the length the source checks.
-/

namespace GwzTransport.Protocol

/-- What a message is. -/
inductive MessageKind
  | bind | bound | bindRejected | open_ | opened | openFailed
  | data | window | flush | flushed | endWrite | close | closed | cancel | failed
  | checkIdentity | identityChecked | identityCheckFailed
  deriving DecidableEq

/-- Its number on the wire. -/
def MessageKind.wire : MessageKind → ℤ
  | .bind => 1
  | .bound => 2
  | .bindRejected => 3
  | .open_ => 4
  | .opened => 5
  | .openFailed => 6
  | .data => 7
  | .window => 8
  | .flush => 9
  | .flushed => 10
  | .endWrite => 11
  | .close => 12
  | .closed => 13
  | .cancel => 14
  | .failed => 15
  | .checkIdentity => 16
  | .identityChecked => 17
  | .identityCheckFailed => 18

/-- Where an endpoint runs. -/
inductive EndpointRole
  | local_ | driver
  deriving DecidableEq

/-- Its number on the wire. -/
def EndpointRole.wire : EndpointRole → ℤ
  | .local_ => 1
  | .driver => 2

/-- How a destination is reached. -/
inductive Scheme
  | ssh | https
  deriving DecidableEq

/-- Its number on the wire. -/
def Scheme.wire : Scheme → ℤ
  | .ssh => 1
  | .https => 2

/-- Which credentials may be used. -/
inductive AuthPolicy
  | sshAmbient | sshExplicit | anonymous | gh | windowsConfigured | windowsDefault
  deriving DecidableEq

/-- Its number on the wire. -/
def AuthPolicy.wire : AuthPolicy → ℤ
  | .sshAmbient => 1
  | .sshExplicit => 2
  | .anonymous => 3
  | .gh => 4
  | .windowsConfigured => 5
  | .windowsDefault => 6

/-- The Git services that a stream can carry. -/
inductive GitService
  | uploadPackAdvertisement | uploadPackExchange
  | receivePackAdvertisement | receivePackExchange
  deriving DecidableEq

/-- Its number on the wire. -/
def GitService.wire : GitService → ℤ
  | .uploadPackAdvertisement => 1
  | .uploadPackExchange => 2
  | .receivePackAdvertisement => 3
  | .receivePackExchange => 4

/-- Where the identity of a request comes from. -/
inductive IdentityMode
  | ambient | explicitKey | credentialsDisabled
  deriving DecidableEq

/-- Its number on the wire. -/
def IdentityMode.wire : IdentityMode → ℤ
  | .ambient => 1
  | .explicitKey => 2
  | .credentialsDisabled => 3

/-- Why a request failed. -/
inductive ErrorCode
  | unsupportedVersion | unsupportedOperation | unavailable | invalidRequest | capacity
  | timeout | cancelled | authentication | trust | io | protocol | carrierLost
  | repositoryRefused
  deriving DecidableEq

/-- Its number on the wire. -/
def ErrorCode.wire : ErrorCode → ℤ
  | .unsupportedVersion => 1
  | .unsupportedOperation => 2
  | .unavailable => 3
  | .invalidRequest => 4
  | .capacity => 5
  | .timeout => 6
  | .cancelled => 7
  | .authentication => 8
  | .trust => 9
  | .io => 10
  | .protocol => 11
  | .carrierLost => 12
  | .repositoryRefused => 13

/-- Why a connection could not be set up. -/
inductive SetupFailureCause
  | stall | aggregate | interaction | allocation | connectionRefused | notFound
  | addressNotAvailable
  deriving DecidableEq

/-- Its number on the wire. -/
def SetupFailureCause.wire : SetupFailureCause → ℤ
  | .stall => 1
  | .aggregate => 2
  | .interaction => 3
  | .allocation => 4
  | .connectionRefused => 5
  | .notFound => 6
  | .addressNotAvailable => 7

/-- How a helper process failed. -/
inductive HelperFailureCause
  | pipeFailure | outputLimit | controlCharacter | usernameColon | notUtf8 | missingNewline
  | missingField | malformedOutput | noHelper | declined | configurationRefused
  deriving DecidableEq

/-- Its number on the wire. -/
def HelperFailureCause.wire : HelperFailureCause → ℤ
  | .pipeFailure => 1
  | .outputLimit => 2
  | .controlCharacter => 3
  | .usernameColon => 4
  | .notUtf8 => 5
  | .missingNewline => 6
  | .missingField => 7
  | .malformedOutput => 8
  | .noHelper => 9
  | .declined => 10
  | .configurationRefused => 11

/-- Who had no room. -/
inductive CapacityCause
  | serverThrottle | serverRetryAfter | local_
  deriving DecidableEq

/-- Its number on the wire. -/
def CapacityCause.wire : CapacityCause → ℤ
  | .serverThrottle => 1
  | .serverRetryAfter => 2
  | .local_ => 3

/-- The status with which a server said that it is full. -/
inductive CapacitySignal
  | http429 | http503
  deriving DecidableEq

/-- Its number on the wire. -/
def CapacitySignal.wire : CapacitySignal → ℤ
  | .http429 => 1
  | .http503 => 2

/-- Whether a failed exchange may have had an effect at the far end. -/
inductive Effect
  | none | possible
  deriving DecidableEq

/-- Its number on the wire. -/
def Effect.wire : Effect → ℤ
  | .none => 1
  | .possible => 2

/-- What becomes of a connection after its exchange. -/
inductive Disposition
  | reusable | discarded
  deriving DecidableEq

/-- Its number on the wire. -/
def Disposition.wire : Disposition → ℤ
  | .reusable => 1
  | .discarded => 2

/-- How a connection was authenticated. -/
inductive AuthMethod
  | none | sshAgent | sshKey | gh | sspi
  deriving DecidableEq

/-- Its number on the wire. -/
def AuthMethod.wire : AuthMethod → ℤ
  | .none => 1
  | .sshAgent => 2
  | .sshKey => 3
  | .gh => 4
  | .sspi => 5

/-- Whose native credentials are used. -/
inductive NativeSource
  | configured | currentLogon
  deriving DecidableEq

/-- Its number on the wire. -/
def NativeSource.wire : NativeSource → ℤ
  | .configured => 1
  | .currentLogon => 2

/-- A scheme of native authentication. -/
inductive NativeScheme
  | negotiate | ntlm | digest
  deriving DecidableEq

/-- Its number on the wire. -/
def NativeScheme.wire : NativeScheme → ℤ
  | .negotiate => 1
  | .ntlm => 2
  | .digest => 3

/-- How far native authentication got. -/
inductive NativeObservation
  | notStarted | unresolved | selected
  deriving DecidableEq

/-- Its number on the wire. -/
def NativeObservation.wire : NativeObservation → ℤ
  | .notStarted => 1
  | .unresolved => 2
  | .selected => 3

/-- A mechanism of native authentication. -/
inductive NativeMechanism
  | kerberos | ntlm
  deriving DecidableEq

/-- Its number on the wire. -/
def NativeMechanism.wire : NativeMechanism → ℤ
  | .kerberos => 1
  | .ntlm => 2

/-- What is reported of native authentication. -/
structure NativeFacts where
  source : NativeSource
  scheme : NativeScheme
  observation : NativeObservation
  mechanism : Option NativeMechanism
  authoritative : Bool
  deriving DecidableEq

/-- A receiver's negotiated limits. -/
structure Limits where
  encodedFrame : ℤ
  dataPayload : ℤ
  metadataBytes : ℤ
  nesting : ℤ
  collectionEntries : ℤ
  decodeAllocation : ℤ
  queuedBytes : ℤ
  queuedFrames : ℤ
  receiveWindow : ℤ
  controlReserveBytes : ℤ
  controlReserveFrames : ℤ
  deriving DecidableEq

/-- The offer that starts a session. -/
structure Bind where
  versions : List ℤ
  role : EndpointRole
  schemes : List Scheme
  policies : List AuthPolicy
  receiveLimits : Limits
  deriving DecidableEq

/-- The answer to an offer. -/
structure Bound where
  version : ℤ
  endpointId : String
  role : EndpointRole
  schemes : List Scheme
  policies : List AuthPolicy
  receiveLimits : Limits
  trustOwner : String
  deriving DecidableEq

/-- Which attempt failed, of how many. -/
structure RetryAttempt where
  attempt : ℤ
  attempts : ℤ
  deriving DecidableEq

/-- The details of a capacity failure. -/
structure CapacityDetail where
  cause : CapacityCause
  scheme : Option Scheme
  host : Option String
  port : Option ℤ
  limitApplied : Option ℤ
  maxPerHost : Option ℤ
  elapsedMs : Option ℤ
  lastSignal : Option CapacitySignal
  retryAfterMs : Option ℤ
  deriving DecidableEq

/-- What is known of a failure beside its code. -/
structure FailureDetail where
  helperCause : Option HelperFailureCause
  pipeKind : Option String
  schemes : Option (List String)
  retryAttempt : Option RetryAttempt
  helperBudgetMs : Option ℤ
  capacity : Option CapacityDetail
  deriving DecidableEq

/-- What an endpoint observed about authentication and the exchange's status. -/
structure Facts where
  method : AuthMethod
  credentialOffered : Bool
  authenticated : Option Bool
  keyFingerprint : Option String
  httpStatus : Option ℤ
  sshExitStatus : Option ℤ
  native : Option NativeFacts
  deriving DecidableEq

/-- A failure as it is reported. -/
structure Failure where
  code : ErrorCode
  effect : Effect
  facts : Option Facts
  setupCause : Option SetupFailureCause
  detail : Option FailureDetail
  deriving DecidableEq

/-- Where a stream leads. -/
structure Destination where
  scheme : Scheme
  host : String
  port : ℤ
  path : String
  sshUsername : Option String
  httpsUsername : Option String
  deriving DecidableEq

/-- The identity to use. -/
structure Identity where
  mode : IdentityMode
  keyPath : Option String
  pathBase : Option String
  deriving DecidableEq

/-- The times of a stream, in milliseconds. -/
structure Deadlines where
  allocationMs : ℤ
  connectMs : ℤ
  ioMs : ℤ
  interactionMs : ℤ
  cleanupMs : ℤ
  deriving DecidableEq

/-- The body of a message that opens a stream. -/
structure Open where
  endpointId : String
  operationId : String
  destination : Destination
  service : GitService
  identity : Identity
  policy : AuthPolicy
  deadlines : Deadlines
  receiveLimits : Limits
  deriving DecidableEq

/-- The body of a check of an identity. -/
structure CheckIdentity where
  endpointId : String
  operationId : String
  identity : Identity
  timeoutMs : ℤ
  deriving DecidableEq

/-- The answer to a check of an identity. -/
structure IdentityChecked where
  deriving DecidableEq

/-- The answer to an `Open`. -/
structure Opened where
  connectionId : String
  reused : Bool
  endpointId : String
  trustOwner : String
  facts : Facts
  receiveLimits : Limits
  deriving DecidableEq

/-- A piece of a stream's bytes. -/
structure Data where
  offset : ℤ
  payload : List UInt8
  deriving DecidableEq

/-- Credit for more bytes. -/
structure Window where
  maxOffset : ℤ
  deriving DecidableEq

/-- A point up to which bytes are flushed. -/
structure Barrier where
  barrierId : ℤ
  offset : ℤ
  deriving DecidableEq

/-- The end of one direction of a stream. -/
structure EndWrite where
  finalOffset : ℤ
  deriving DecidableEq

/-- The request to close a stream. -/
structure Close where
  finalOffset : ℤ
  deriving DecidableEq

/-- The end of a stream. -/
structure Closed where
  disposition : Disposition
  unreadResponseDiscarded : Bool
  facts : Facts
  failure : Option Failure
  deriving DecidableEq

/-- The request to cancel a stream. -/
structure Cancel where
  reason : ErrorCode
  deriving DecidableEq

/-- One message: a header and, for a well-formed value, the one body its kind names. -/
structure Envelope where
  version : ℤ
  sessionId : String
  streamId : ℤ
  kind : MessageKind
  messageSeq : Option ℤ := none
  bind : Option Bind := none
  bound : Option Bound := none
  bindRejected : Option Failure := none
  open_ : Option Open := none
  opened : Option Opened := none
  openFailed : Option Failure := none
  data : Option Data := none
  window : Option Window := none
  flush : Option Barrier := none
  flushed : Option Barrier := none
  endWrite : Option EndWrite := none
  close : Option Close := none
  closed : Option Closed := none
  cancel : Option Cancel := none
  failed : Option Failure := none
  checkIdentity : Option CheckIdentity := none
  identityChecked : Option IdentityChecked := none
  identityCheckFailed : Option Failure := none
  deriving DecidableEq

end GwzTransport.Protocol
