import GwzTransport.Codec.Admission
import GwzTransport.Lib.Checks

/-!
# Binding of an endpoint's capabilities

`binding.rs`: an initiator offers versions, schemes, policies and limits; the endpoint accepts the
offer with what both sides have, or refuses it; the initiator verifies the acknowledgement before
it installs the binding.

* `EndpointConfig.accept` and `verify`: the two halves of the negotiation;
* `Binding.checkOpen`, `Binding.checkIdentity`: what a binding lets through;
* `Negotiated`: what a binding is, and `verify_of_accept`: the initiator installs the binding that
  the endpoint accepted.

Which versions can be bound depends on the build: `Profile` says which of the two `profile`
modules is compiled.
-/

namespace GwzTransport.Binding

open Protocol MachineInt Checks

def failure (code : ErrorCode) : Failure :=
  { code, effect := .none, facts := none, setupCause := none, detail := none }

def defaultLimits : Limits where
  encodedFrame := 131072
  dataPayload := 65536
  metadataBytes := 16384
  nesting := 16
  collectionEntries := 256
  decodeAllocation := 524288
  queuedBytes := 4194304
  queuedFrames := 64
  receiveWindow := 1048576
  controlReserveBytes := 65536
  controlReserveFrames := 8

/-- Space for one worst-case frame with its decode reservation, and for control progress beside
it.  Smaller offers are refused. -/
def usable (limits : Limits) : Except Failure Unit :=
  if limits.encodedFrame < 4096 ∨ limits.metadataBytes < 256 ∨ limits.nesting < 10 ∨
      limits.collectionEntries < 128 ∨ limits.decodeAllocation < 65536 ∨
      limits.controlReserveBytes < 4096 ∨ limits.controlReserveFrames < 2 ∨
      limits.queuedBytes - limits.controlReserveBytes <
        limits.encodedFrame + limits.decodeAllocation ∨
      limits.queuedFrames - limits.controlReserveFrames < 2 ∨
      limits.receiveWindow > limits.queuedBytes - limits.controlReserveBytes then
    .error (failure .unsupportedOperation)
  else .ok ()

/-- The limits of a set, in the order in which they are compared. -/
def fields (a : Limits) : List ℤ :=
  [a.encodedFrame, a.dataPayload, a.metadataBytes, a.nesting, a.collectionEntries,
    a.decodeAllocation, a.queuedBytes, a.queuedFrames, a.receiveWindow, a.controlReserveBytes,
    a.controlReserveFrames]

def noGreater (a b : Limits) : Bool :=
  ((fields a).zip (fields b)).all fun pair => decide (pair.1 ≤ pair.2)

def minimum (a b : Limits) : Limits where
  encodedFrame := min a.encodedFrame b.encodedFrame
  dataPayload := min a.dataPayload b.dataPayload
  metadataBytes := min a.metadataBytes b.metadataBytes
  nesting := min a.nesting b.nesting
  collectionEntries := min a.collectionEntries b.collectionEntries
  decodeAllocation := min a.decodeAllocation b.decodeAllocation
  queuedBytes := min a.queuedBytes b.queuedBytes
  queuedFrames := min a.queuedFrames b.queuedFrames
  receiveWindow := min a.receiveWindow b.receiveWindow
  controlReserveBytes := min a.controlReserveBytes b.controlReserveBytes
  controlReserveFrames := min a.controlReserveFrames b.controlReserveFrames

theorem noGreater_minimum_left (a b : Limits) : noGreater (minimum a b) a = true := by
  simp [noGreater, fields, minimum]

theorem noGreater_minimum_right (a b : Limits) : noGreater (minimum a b) b = true := by
  simp [noGreater, fields, minimum]

end GwzTransport.Binding

namespace GwzTransport.Codec

open Protocol

/-- The source's admission under the default limits. -/
def admitDefault (message : Envelope) : Except Error Unit :=
  admitLimited message Binding.defaultLimits

/-- `codec::allocation_charge`: the charge of a valid message. -/
def allocationCharge (message : Envelope) (limits : Limits) : Except Error ℕ := do
  Codec.limits limits
  envelope message
  walkCharge message limits

end GwzTransport.Codec

namespace GwzTransport.Binding

open Protocol MachineInt Checks

def offer (sessionId : String) (role : EndpointRole) : Envelope where
  version := 1
  sessionId := sessionId
  streamId := 0
  kind := .bind
  bind := some
    { versions := [1], role, schemes := [.ssh, .https]
      policies := [.sshAmbient, .sshExplicit, .anonymous, .gh]
      receiveLimits := defaultLimits }

end GwzTransport.Binding

/-- What a session is bound to. -/
structure GwzTransport.Binding where
  sessionId : String
  bound : GwzTransport.Protocol.Bound
  deriving DecidableEq

namespace GwzTransport.Binding

open Protocol MachineInt Checks

structure EndpointConfig where
  endpointId : String
  role : EndpointRole
  schemes : List Scheme
  policies : List AuthPolicy
  limits : Limits
  trustOwner : String
  deriving DecidableEq

/-! ### Profiles -/

/-- The build: profile 3 exists only with the sequenced kernel, whose records have sizes of the
target. -/
inductive Profile
  | stable
  | sequenced (frameOverhead recordCharge : ℕ)
  deriving DecidableEq

def Profile.bindable : Profile → List ℤ
  | .stable => [1, 2]
  | .sequenced _ _ => [1, 2, 3]

/-- `sequenced::valid_limits`. -/
def validSequencedLimits (frameOverhead recordCharge : ℕ) (limits : Limits) : Bool :=
  (Codec.admitLimited (offer "probe" .local_) limits).isOk &&
    (do let sum ← checkedAdd limits.encodedFrame limits.decodeAllocation
        let worst ← checkedAdd sum frameOverhead
        let twice ← checkedAdd worst worst
        let sum ← checkedAdd twice limits.controlReserveBytes
        checkedAdd sum recordCharge : Option ℤ).any fun required =>
      decide (required ≤ limits.queuedBytes) &&
        decide (limits.controlReserveFrames + 2 ≤ limits.queuedFrames)

def Profile.admit : Profile → ℤ → Limits → Except Failure Unit
  | .stable, _, _ => .ok ()
  | .sequenced frameOverhead recordCharge, version, limits =>
    refuseIf (version == 3 && !validSequencedLimits frameOverhead recordCharge limits)
      (failure .unsupportedOperation)

/-! ### What a binding lets through -/

section Checks

variable (b : Binding)

def endpointId : String := b.bound.endpointId

def limits : Limits := b.bound.receiveLimits

def trustOwner : String := b.bound.trustOwner

def checkOpen (message : Envelope) : Except Failure Unit := do
  orError (failure .invalidRequest) (Codec.admitLimited message b.bound.receiveLimits)
  let body ← required (failure .invalidRequest) message.open_
  refuseIf (message.version != b.bound.version) (failure .unsupportedVersion)
  refuseIf (message.kind != .open_ || message.sessionId != b.sessionId ||
    body.endpointId != b.bound.endpointId) (failure .unavailable)
  refuseIf (!b.bound.schemes.contains body.destination.scheme ||
    !b.bound.policies.contains body.policy ||
    !noGreater body.receiveLimits b.bound.receiveLimits) (failure .unsupportedOperation)
  usable body.receiveLimits

def checkIdentity (message : Envelope) : Except Failure Unit := do
  orError (failure .invalidRequest) (Codec.admitLimited message b.bound.receiveLimits)
  let check ← required (failure .invalidRequest) message.checkIdentity
  refuseIf (!(b.bound.version == 2 || b.bound.version == 3) || message.version != b.bound.version)
    (failure .unsupportedVersion)
  refuseIf (message.kind != .checkIdentity || message.sessionId != b.sessionId ||
    check.endpointId != b.bound.endpointId || check.operationId.isEmpty ||
    decide (check.timeoutMs ≤ 0) || decide (check.timeoutMs > i32Max) ||
    check.identity.mode != .explicitKey) (failure .invalidRequest)
  refuseIf (check.identity.keyPath.all String.isEmpty) (failure .invalidRequest)

end Checks

/-! ### The negotiation -/

/-- The schemes and policies that both sides have, without those that have lost every partner. -/
def EndpointConfig.common (k : EndpointConfig) (bind : Bind) (version : ℤ) :
    List Scheme × List AuthPolicy :=
  let schemes := k.schemes.filter bind.schemes.contains
  let policies := k.policies.filter bind.policies.contains
  let policies := if version = 1 then policies.filter (fun p => !Codec.native p) else policies
  let schemes := schemes.filter fun s => policies.any (Codec.supports s)
  let policies := policies.filter fun p => schemes.any fun s => Codec.supports s p
  (schemes, policies)

def EndpointConfig.accept (profile : Profile) (k : EndpointConfig) (message : Envelope) :
    Except Failure (Envelope × Binding) := do
  refuseIf (!Codec.capabilities k.schemes k.policies) (failure .unsupportedOperation)
  orError (failure .invalidRequest) (Codec.admitDefault message)
  let bind ← required (failure .invalidRequest) message.bind
  refuseIf (bind.role != k.role) (failure .unsupportedOperation)
  let version ← required (failure .unsupportedVersion)
    (profile.bindable.filter bind.versions.contains).max?
  orError (failure .invalidRequest) (Codec.limits k.limits)
  let (schemes, policies) := k.common bind version
  refuseIf (schemes.isEmpty || policies.isEmpty) (failure .unsupportedOperation)
  let receiveLimits := minimum bind.receiveLimits k.limits
  usable receiveLimits
  profile.admit version receiveLimits
  let bound : Bound :=
    { version, endpointId := k.endpointId, role := k.role, schemes, policies, receiveLimits
      trustOwner := k.trustOwner }
  let reply : Envelope :=
    { version := 1, sessionId := message.sessionId, streamId := 0, kind := .bound
      bound := some bound }
  orError (failure .invalidRequest) (Codec.admitDefault reply)
  return (reply, ⟨message.sessionId, bound⟩)

def verify (profile : Profile) (offer reply : Envelope) : Except Failure Binding := do
  orError (failure .invalidRequest) (Codec.admitDefault offer)
  orError (failure .invalidRequest) (Codec.admitDefault reply)
  let requested ← required (failure .invalidRequest) offer.bind
  let bound ← required (failure .unavailable) reply.bound
  refuseIf (reply.sessionId != offer.sessionId || bound.role != requested.role ||
    !profile.bindable.contains bound.version || !requested.versions.contains bound.version ||
    !bound.schemes.all requested.schemes.contains ||
    !bound.policies.all requested.policies.contains ||
    !noGreater bound.receiveLimits requested.receiveLimits) (failure .invalidRequest)
  usable bound.receiveLimits
  profile.admit bound.version bound.receiveLimits
  return ⟨reply.sessionId, bound⟩

/-! ### What is bound -/

/-- A binding that an offer and an endpoint's configuration agree on. -/
structure Negotiated (profile : Profile) (k : EndpointConfig) (offer reply : Envelope)
    (requested : Bind) (b : Binding) : Prop where
  session : b.sessionId = offer.sessionId
  role : requested.role = k.role ∧ b.bound.role = k.role
  version : b.bound.version ∈ profile.bindable ∧ b.bound.version ∈ requested.versions
  greatest : ∀ v ∈ profile.bindable, v ∈ requested.versions → v ≤ b.bound.version
  schemes : ∀ s ∈ b.bound.schemes, s ∈ requested.schemes ∧ s ∈ k.schemes ∧
    ∃ p ∈ b.bound.policies, Codec.supports s p = true
  policies : ∀ p ∈ b.bound.policies, p ∈ requested.policies ∧ p ∈ k.policies ∧
    ∃ s ∈ b.bound.schemes, Codec.supports s p = true
  native : b.bound.version = 1 → ∀ p ∈ b.bound.policies, Codec.native p = false
  limits : noGreater b.limits requested.receiveLimits = true ∧ noGreater b.limits k.limits = true
  valid : Codec.limits b.limits = .ok ()
  usable : Binding.usable b.limits = .ok ()
  admitted : profile.admit b.bound.version b.limits = .ok ()
  acknowledges : reply = { version := 1, sessionId := offer.sessionId, streamId := 0, kind := .bound
                           bound := some b.bound }
  reply_admitted : Codec.admitDefault reply = .ok ()

variable {profile : Profile} {k : EndpointConfig} {offer reply : Envelope} {b : Binding}

theorem mem_common_schemes {bind : Bind} {version : ℤ} {s : Scheme}
    (h : s ∈ (k.common bind version).1) : s ∈ bind.schemes ∧ s ∈ k.schemes ∧
      ∃ p ∈ (k.common bind version).2, Codec.supports s p = true := by
  obtain ⟨hs, hp⟩ := List.mem_filter.1 h
  obtain ⟨hk, hb⟩ := List.mem_filter.1 hs
  obtain ⟨p, hp, hsp⟩ := List.any_eq_true.1 hp
  refine ⟨by simpa using hb, hk, p, ?_, hsp⟩
  -- its partner is kept, because the scheme is
  exact List.mem_filter.2 ⟨hp, List.any_eq_true.2 ⟨s, h, hsp⟩⟩

theorem mem_common_policies {bind : Bind} {version : ℤ} {p : AuthPolicy}
    (h : p ∈ (k.common bind version).2) : p ∈ bind.policies ∧ p ∈ k.policies ∧
      (version = 1 → Codec.native p = false) ∧
      ∃ s ∈ (k.common bind version).1, Codec.supports s p = true := by
  obtain ⟨hp, hs⟩ := List.mem_filter.1 h
  obtain ⟨s, hs, hsp⟩ := List.any_eq_true.1 hs
  refine ⟨?_, ?_, ?_, s, hs, hsp⟩
  · split_ifs at hp with hv
    · simpa using (List.mem_filter.1 (List.mem_filter.1 hp).1).2
    · simpa using (List.mem_filter.1 hp).2
  · split_ifs at hp with hv
    · exact (List.mem_filter.1 (List.mem_filter.1 hp).1).1
    · exact (List.mem_filter.1 hp).1
  · intro hv
    rw [if_pos hv] at hp
    simpa using (List.mem_filter.1 hp).2

/-- An admitted acknowledgement has valid limits. -/
theorem limits_of_admit {bound : Bound} (hb : reply.bound = some bound)
    (h : Codec.admitDefault reply = .ok ()) : Codec.limits bound.receiveLimits = .ok () := by
  obtain ⟨-, henv, -⟩ := (Codec.admitLimited_eq_ok_iff _ _).1 h
  unfold Codec.envelope at henv
  obtain ⟨_, -, henv⟩ := bind_eq_ok.1 henv
  obtain ⟨_, -, henv⟩ := bind_eq_ok.1 henv
  obtain ⟨_, hbody, -⟩ := bind_eq_ok.1 henv
  rw [hb, Codec.onSome_some, Codec.boundBody] at hbody
  obtain ⟨_, -, hlimits⟩ := bind_eq_ok.1 hbody
  exact hlimits

/-- What an accepted offer has been checked for. -/
theorem negotiated_of_accept (h : k.accept profile offer = .ok (reply, b)) :
    Codec.admitDefault offer = .ok () ∧ ∃ requested, offer.bind = some requested ∧
      Negotiated profile k offer reply requested b := by
  unfold EndpointConfig.accept at h
  obtain ⟨_, -, h⟩ := bind_eq_ok.1 h
  obtain ⟨_, hadmitted, h⟩ := bind_eq_ok.1 h
  obtain ⟨requested, hbind, h⟩ := bind_eq_ok.1 h
  obtain ⟨_, hrole, h⟩ := bind_eq_ok.1 h
  obtain ⟨version, hversion, h⟩ := bind_eq_ok.1 h
  obtain ⟨_, -, h⟩ := bind_eq_ok.1 h
  obtain ⟨_, -, h⟩ := bind_eq_ok.1 h
  obtain ⟨_, husable, h⟩ := bind_eq_ok.1 h
  obtain ⟨_, hprofile, h⟩ := bind_eq_ok.1 h
  obtain ⟨_, hreply, h⟩ := bind_eq_ok.1 h
  cases h
  rw [orError_eq_ok] at hadmitted hreply
  rw [required_eq_ok] at hbind hversion
  rw [refuseIf_eq_ok, bne_eq_false_iff_eq] at hrole
  obtain ⟨hmem, hmax⟩ := List.max?_eq_some_iff.1 hversion
  obtain ⟨hbindable, hoffered⟩ := List.mem_filter.1 hmem
  refine ⟨hadmitted, requested, hbind, ?_⟩
  exact {
    session := rfl
    role := ⟨hrole, rfl⟩
    version := ⟨hbindable, by simpa using hoffered⟩
    greatest := fun v hv hr => hmax v (List.mem_filter.2 ⟨hv, by simpa using hr⟩)
    schemes := fun s hs => mem_common_schemes hs
    policies := fun p hp => by
      obtain ⟨hreq, hk, -, hpartner⟩ := mem_common_policies hp
      exact ⟨hreq, hk, hpartner⟩
    native := fun hv p hp => (mem_common_policies hp).2.2.1 hv
    limits := ⟨noGreater_minimum_left _ _, noGreater_minimum_right _ _⟩
    valid := limits_of_admit rfl hreply
    usable := husable
    admitted := hprofile
    acknowledges := rfl
    reply_admitted := hreply }

/-- The initiator installs the binding that the endpoint accepted. -/
theorem verify_of_accept (h : k.accept profile offer = .ok (reply, b)) :
    verify profile offer reply = .ok b := by
  obtain ⟨hadmitted, requested, hbind, hn⟩ := negotiated_of_accept h
  have hbound : reply.bound = some b.bound := by rw [hn.acknowledges]
  have hsession : reply.sessionId = offer.sessionId := by rw [hn.acknowledges]
  have hchecks : (reply.sessionId != offer.sessionId || b.bound.role != requested.role ||
      !profile.bindable.contains b.bound.version || !requested.versions.contains b.bound.version ||
      !b.bound.schemes.all requested.schemes.contains ||
      !b.bound.policies.all requested.policies.contains ||
      !noGreater b.bound.receiveLimits requested.receiveLimits) = false := by
    have hschemes : b.bound.schemes.all requested.schemes.contains = true :=
      List.all_eq_true.2 fun s hs => by simpa using (hn.schemes s hs).1
    have hpolicies : b.bound.policies.all requested.policies.contains = true :=
      List.all_eq_true.2 fun p hp => by simpa using (hn.policies p hp).1
    have hlimits : noGreater b.bound.receiveLimits requested.receiveLimits = true := hn.limits.1
    simp [hsession, hn.role.1, hn.role.2, hn.version.1, hn.version.2, hschemes, hpolicies, hlimits]
  have husable : usable b.bound.receiveLimits = .ok () := hn.usable
  have hprofile : profile.admit b.bound.version b.bound.receiveLimits = .ok () := hn.admitted
  unfold verify
  refine bind_eq_ok.2 ⟨(), orError_eq_ok.2 hadmitted, bind_eq_ok.2 ⟨(),
    orError_eq_ok.2 hn.reply_admitted, bind_eq_ok.2 ⟨requested, required_eq_ok.2 hbind,
    bind_eq_ok.2 ⟨b.bound, required_eq_ok.2 hbound, bind_eq_ok.2 ⟨(), refuseIf_eq_ok.2 hchecks,
    bind_eq_ok.2 ⟨(), husable, bind_eq_ok.2 ⟨(), hprofile, ?_⟩⟩⟩⟩⟩⟩⟩
  rw [hsession, ← hn.session]
  rfl

end GwzTransport.Binding
