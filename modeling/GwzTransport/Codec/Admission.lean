import GwzTransport.Codec.Validate
import GwzTransport.Lib.Checks

/-!
# Admission of typed messages under a receiver's limits

`budget.rs`, the generated `admission.rs` and `codec::admit_limited`.  Admission walks a typed
message without encoding it and charges a `Budget` for every container, key and value: exact
encoded bytes, a conservative live allocation and the number of entries.  A walk is the list of
its charges in the order the source makes them; `Budget.walk` makes them one after another and
stops at the first that does not fit.

Charges only grow, so the checks along the way amount to one check at the end: `walk_eq_ok_iff`
says that a walk succeeds exactly when its total `Fits`.  Two ways to fit follow: a walk that is
charge by charge no more than one that fits (`Fits.of_le`), and a short walk of light charges
(`fits_of_light`).
-/

namespace GwzTransport.Codec

open Protocol MachineInt Checks

/-- The size of one node of the decoded tree: four words on a 64-bit target. -/
def cborSize : ℕ := 32

/-- What one node of the tree is charged besides its encoding. -/
def nodeAllocation : ℕ := 4 * cborSize + 32

/-- The length of a CBOR head with argument `value`. -/
def head (value : ℕ) : ℕ :=
  if value ≤ 23 then 1 else if value ≤ 255 then 2 else if value ≤ 65535 then 3
  else if value ≤ 4294967295 then 5 else 9

/-- One charge of a walk. -/
inductive Charge
  | scalar (depth : ℕ)
  | integer (value : ℤ) (depth : ℕ)
  | key (tag : ℕ)
  | bytes (len max depth : ℕ)
  | container (count depth : ℕ)

/-- What a walk has counted so far. -/
structure Budget where
  encoded : ℕ
  allocation : ℕ
  entries : ℕ
  bootstrap : Bool
  limits : Limits

/-- A walk that begins. -/
def Budget.new (bootstrap : Bool) (limits : Limits) : Budget := ⟨0, 0, 0, bootstrap, limits⟩

/-- The frame size in force. -/
def Budget.maxFrame (b : Budget) : ℕ :=
  if b.bootstrap then min b.limits.encodedFrame.toNat maxBootstrap
  else b.limits.encodedFrame.toNat

/-- The memory in force. -/
def Budget.maxAllocation (b : Budget) : ℕ :=
  if b.bootstrap then min b.limits.decodeAllocation.toNat maxBootstrapAllocation
  else b.limits.decodeAllocation.toNat

/-- Bytes and memory are added. -/
def Budget.charge (b : Budget) (encoded allocation : ℕ) : Except Error Budget :=
  let b' := { b with encoded := b.encoded + encoded, allocation := b.allocation + allocation }
  if b'.encoded > b'.maxFrame ∨ b'.allocation + b'.encoded > b'.maxAllocation then .error .bounds
  else .ok b'

/-- One node at a depth. -/
def Budget.node (b : Budget) (depth encoded : ℕ) : Except Error Budget :=
  let b' := { b with entries := b.entries + 1 }
  if depth > b.limits.nesting.toNat ∨ b'.entries > b.limits.collectionEntries.toNat then
    .error .bounds
  else b'.charge encoded nodeAllocation

/-- The argument a signed integer is encoded with. -/
def argument (value : ℤ) : ℕ := if value < 0 then value.natAbs - 1 else value.toNat

/-- The bound on a string: payloads and metadata are negotiated apart. -/
def stringLimit (limits : Limits) (max : ℕ) : ℕ :=
  min max (if max = maxData then limits.dataPayload.toNat else limits.metadataBytes.toNat)

/-- One charge is added. -/
def Budget.visit (b : Budget) : Charge → Except Error Budget
  | .scalar depth => b.node depth 1
  | .integer value depth => b.node depth (head (argument value))
  | .key tag => b.charge (head tag) 32
  | .bytes len max depth =>
    if len > stringLimit b.limits max then .error .bounds
    else do
      let b ← b.node depth (head len)
      b.charge len (len * 4)
  | .container count depth => do
    let b ← b.node depth (head count)
    if count > b.limits.collectionEntries.toNat - b.entries then .error .bounds else .ok b

/-- The charges are added in order. -/
def Budget.walk (b : Budget) (charges : List Charge) : Except Error Budget :=
  charges.foldlM Budget.visit b

/-! ### The generated walks -/

/-- A message is a map: its container, then each field behind its key. -/
def visitMap (depth : ℕ) (fields : List (ℕ × List Charge)) : List Charge :=
  .container fields.length depth :: fields.flatMap fun field => .key field.1 :: field.2

/-- An absent optional field is charged as one scalar. -/
def visitOption {α : Type} (item : Option α) (visit : α → ℕ → List Charge) (depth : ℕ) :
    List Charge :=
  match item with
  | some v => visit v depth
  | none => [.scalar depth]

/-- A Boolean. -/
def visitBool (_ : Bool) (depth : ℕ) : List Charge := [.scalar depth]

/-- An integer. -/
def visitInteger (value : ℤ) (depth : ℕ) : List Charge := [.integer value depth]

/-- A text. -/
def visitText (value : String) (depth : ℕ) : List Charge :=
  [.bytes value.utf8ByteSize maxMetadata depth]

/-- A list is a container and its items, one level deeper. -/
def visitList {α : Type} (values : List α) (visit : α → ℕ → List Charge) (depth : ℕ) :
    List Charge :=
  .container values.length depth :: values.flatMap (visit · (depth + 1))

/-- The map of a `NativeFacts`. -/
def visitNativefacts (value : NativeFacts) (depth : ℕ) : List Charge :=
  visitMap depth
    [(1, visitInteger value.source.wire (depth + 1)),
      (2, visitInteger value.scheme.wire (depth + 1)),
      (3, visitInteger value.observation.wire (depth + 1)),
      (4, visitOption (value.mechanism.map (·.wire)) visitInteger (depth + 1)),
      (5, visitBool value.authoritative (depth + 1))]

/-- The map of a `Limits`. -/
def visitLimits (value : Limits) (depth : ℕ) : List Charge :=
  visitMap depth
    [(1, visitInteger value.encodedFrame (depth + 1)),
      (2, visitInteger value.dataPayload (depth + 1)),
      (3, visitInteger value.metadataBytes (depth + 1)),
      (4, visitInteger value.nesting (depth + 1)),
      (5, visitInteger value.collectionEntries (depth + 1)),
      (6, visitInteger value.decodeAllocation (depth + 1)),
      (7, visitInteger value.queuedBytes (depth + 1)),
      (8, visitInteger value.queuedFrames (depth + 1)),
      (9, visitInteger value.receiveWindow (depth + 1)),
      (10, visitInteger value.controlReserveBytes (depth + 1)),
      (11, visitInteger value.controlReserveFrames (depth + 1))]

/-- The map of a `Bind`. -/
def visitBind (value : Bind) (depth : ℕ) : List Charge :=
  visitMap depth
    [(1, visitList value.versions visitInteger (depth + 1)),
      (2, visitInteger value.role.wire (depth + 1)),
      (3, visitList (value.schemes.map (·.wire)) visitInteger (depth + 1)),
      (4, visitList (value.policies.map (·.wire)) visitInteger (depth + 1)),
      (5, visitLimits value.receiveLimits (depth + 1))]

/-- The map of a `Bound`. -/
def visitBound (value : Bound) (depth : ℕ) : List Charge :=
  visitMap depth
    [(1, visitInteger value.version (depth + 1)),
      (2, visitText value.endpointId (depth + 1)),
      (3, visitInteger value.role.wire (depth + 1)),
      (4, visitList (value.schemes.map (·.wire)) visitInteger (depth + 1)),
      (5, visitList (value.policies.map (·.wire)) visitInteger (depth + 1)),
      (6, visitLimits value.receiveLimits (depth + 1)),
      (7, visitText value.trustOwner (depth + 1))]

/-- The map of a `RetryAttempt`. -/
def visitRetryattempt (value : RetryAttempt) (depth : ℕ) : List Charge :=
  visitMap depth
    [(1, visitInteger value.attempt (depth + 1)), (2, visitInteger value.attempts (depth + 1))]

/-- The map of a `CapacityDetail`. -/
def visitCapacitydetail (value : CapacityDetail) (depth : ℕ) : List Charge :=
  visitMap depth
    [(1, visitInteger value.cause.wire (depth + 1)),
      (2, visitOption (value.scheme.map (·.wire)) visitInteger (depth + 1)),
      (3, visitOption value.host visitText (depth + 1)),
      (4, visitOption value.port visitInteger (depth + 1)),
      (5, visitOption value.limitApplied visitInteger (depth + 1)),
      (6, visitOption value.maxPerHost visitInteger (depth + 1)),
      (7, visitOption value.elapsedMs visitInteger (depth + 1)),
      (8, visitOption (value.lastSignal.map (·.wire)) visitInteger (depth + 1)),
      (9, visitOption value.retryAfterMs visitInteger (depth + 1))]

/-- The map of a `FailureDetail`. -/
def visitFailuredetail (value : FailureDetail) (depth : ℕ) : List Charge :=
  visitMap depth
    [(1, visitOption (value.helperCause.map (·.wire)) visitInteger (depth + 1)),
      (2, visitOption value.pipeKind visitText (depth + 1)),
      (3, visitOption value.schemes (visitList · visitText) (depth + 1)),
      (4, visitOption value.retryAttempt visitRetryattempt (depth + 1)),
      (5, visitOption value.helperBudgetMs visitInteger (depth + 1)),
      (6, visitOption value.capacity visitCapacitydetail (depth + 1))]

/-- The map of a `Facts`. -/
def visitFacts (value : Facts) (depth : ℕ) : List Charge :=
  visitMap depth
    [(1, visitInteger value.method.wire (depth + 1)),
      (2, visitBool value.credentialOffered (depth + 1)),
      (3, visitOption value.authenticated visitBool (depth + 1)),
      (4, visitOption value.keyFingerprint visitText (depth + 1)),
      (5, visitOption value.httpStatus visitInteger (depth + 1)),
      (6, visitOption value.sshExitStatus visitInteger (depth + 1)),
      (7, visitOption value.native visitNativefacts (depth + 1))]

/-- The map of a `Failure`. -/
def visitFailure (value : Failure) (depth : ℕ) : List Charge :=
  visitMap depth
    [(1, visitInteger value.code.wire (depth + 1)),
      (2, visitInteger value.effect.wire (depth + 1)),
      (3, visitOption value.facts visitFacts (depth + 1)),
      (4, visitOption (value.setupCause.map (·.wire)) visitInteger (depth + 1)),
      (5, visitOption value.detail visitFailuredetail (depth + 1))]

/-- The map of a `Destination`. -/
def visitDestination (value : Destination) (depth : ℕ) : List Charge :=
  visitMap depth
    [(1, visitInteger value.scheme.wire (depth + 1)),
      (2, visitText value.host (depth + 1)),
      (3, visitInteger value.port (depth + 1)),
      (4, visitText value.path (depth + 1)),
      (5, visitOption value.sshUsername visitText (depth + 1)),
      (6, visitOption value.httpsUsername visitText (depth + 1))]

/-- The map of an `Identity`. -/
def visitIdentity (value : Identity) (depth : ℕ) : List Charge :=
  visitMap depth
    [(1, visitInteger value.mode.wire (depth + 1)),
      (2, visitOption value.keyPath visitText (depth + 1)),
      (3, visitOption value.pathBase visitText (depth + 1))]

/-- The map of a `Deadlines`. -/
def visitDeadlines (value : Deadlines) (depth : ℕ) : List Charge :=
  visitMap depth
    [(1, visitInteger value.allocationMs (depth + 1)),
      (2, visitInteger value.connectMs (depth + 1)),
      (3, visitInteger value.ioMs (depth + 1)),
      (4, visitInteger value.interactionMs (depth + 1)),
      (5, visitInteger value.cleanupMs (depth + 1))]

/-- The map of an `Open`. -/
def visitOpen (value : Open) (depth : ℕ) : List Charge :=
  visitMap depth
    [(1, visitText value.endpointId (depth + 1)),
      (2, visitText value.operationId (depth + 1)),
      (3, visitDestination value.destination (depth + 1)),
      (4, visitInteger value.service.wire (depth + 1)),
      (5, visitIdentity value.identity (depth + 1)),
      (6, visitInteger value.policy.wire (depth + 1)),
      (7, visitDeadlines value.deadlines (depth + 1)),
      (8, visitLimits value.receiveLimits (depth + 1))]

/-- The map of a `CheckIdentity`. -/
def visitCheckidentity (value : CheckIdentity) (depth : ℕ) : List Charge :=
  visitMap depth
    [(1, visitText value.endpointId (depth + 1)),
      (2, visitText value.operationId (depth + 1)),
      (3, visitIdentity value.identity (depth + 1)),
      (4, visitInteger value.timeoutMs (depth + 1))]

/-- The map of an `IdentityChecked`. -/
def visitIdentitychecked (_ : IdentityChecked) (depth : ℕ) : List Charge := visitMap depth []

/-- The map of an `Opened`. -/
def visitOpened (value : Opened) (depth : ℕ) : List Charge :=
  visitMap depth
    [(1, visitText value.connectionId (depth + 1)),
      (2, visitBool value.reused (depth + 1)),
      (3, visitText value.endpointId (depth + 1)),
      (4, visitText value.trustOwner (depth + 1)),
      (5, visitFacts value.facts (depth + 1)),
      (6, visitLimits value.receiveLimits (depth + 1))]

/-- The map of a `Data`. -/
def visitData (value : Data) (depth : ℕ) : List Charge :=
  visitMap depth
    [(1, visitInteger value.offset (depth + 1)),
      (2, [.bytes value.payload.length maxData (depth + 1)])]

/-- The map of a `Window`. -/
def visitWindow (value : Window) (depth : ℕ) : List Charge :=
  visitMap depth [(1, visitInteger value.maxOffset (depth + 1))]

/-- The map of a `Barrier`. -/
def visitBarrier (value : Barrier) (depth : ℕ) : List Charge :=
  visitMap depth
    [(1, visitInteger value.barrierId (depth + 1)), (2, visitInteger value.offset (depth + 1))]

/-- The map of an `EndWrite`. -/
def visitEndwrite (value : EndWrite) (depth : ℕ) : List Charge :=
  visitMap depth [(1, visitInteger value.finalOffset (depth + 1))]

/-- The map of a `Close`. -/
def visitClose (value : Close) (depth : ℕ) : List Charge :=
  visitMap depth [(1, visitInteger value.finalOffset (depth + 1))]

/-- The map of a `Closed`. -/
def visitClosed (value : Closed) (depth : ℕ) : List Charge :=
  visitMap depth
    [(1, visitInteger value.disposition.wire (depth + 1)),
      (2, visitBool value.unreadResponseDiscarded (depth + 1)),
      (3, visitFacts value.facts (depth + 1)),
      (4, visitOption value.failure visitFailure (depth + 1))]

/-- The map of a `Cancel`. -/
def visitCancel (value : Cancel) (depth : ℕ) : List Charge :=
  visitMap depth [(1, visitInteger value.reason.wire (depth + 1))]

/-- The map of an envelope. -/
def visitEnvelope (value : Envelope) (depth : ℕ) : List Charge :=
  visitMap depth
    [(1, visitInteger value.version (depth + 1)),
      (2, visitText value.sessionId (depth + 1)),
      (3, visitInteger value.streamId (depth + 1)),
      (4, visitInteger value.kind.wire (depth + 1)),
      (5, visitOption value.messageSeq visitInteger (depth + 1)),
      (10, visitOption value.bind visitBind (depth + 1)),
      (11, visitOption value.bound visitBound (depth + 1)),
      (12, visitOption value.bindRejected visitFailure (depth + 1)),
      (13, visitOption value.open_ visitOpen (depth + 1)),
      (14, visitOption value.opened visitOpened (depth + 1)),
      (15, visitOption value.openFailed visitFailure (depth + 1)),
      (16, visitOption value.data visitData (depth + 1)),
      (17, visitOption value.window visitWindow (depth + 1)),
      (18, visitOption value.flush visitBarrier (depth + 1)),
      (19, visitOption value.flushed visitBarrier (depth + 1)),
      (20, visitOption value.endWrite visitEndwrite (depth + 1)),
      (21, visitOption value.close visitClose (depth + 1)),
      (22, visitOption value.closed visitClosed (depth + 1)),
      (23, visitOption value.cancel visitCancel (depth + 1)),
      (24, visitOption value.failed visitFailure (depth + 1)),
      (25, visitOption value.checkIdentity visitCheckidentity (depth + 1)),
      (26, visitOption value.identityChecked visitIdentitychecked (depth + 1)),
      (27, visitOption value.identityCheckFailed visitFailure (depth + 1))]

/-- `admission::allocation_charge`: the total of the walk. -/
def walkCharge (value : Envelope) (limits : Limits) : Except Error ℕ := do
  let b ← (Budget.new (value.streamId == 0) limits).walk (visitEnvelope value 0)
  return b.encoded + b.allocation

/-- `codec::admit_limited`. -/
def admitLimited (message : Envelope) (limits : Limits) : Except Error Unit := do
  Codec.limits limits
  envelope message
  let _ ← walkCharge message limits

/-! ### A walk's total -/

/-- The bytes of a charge. -/
def Charge.encoded : Charge → ℕ
  | .scalar _ => 1
  | .integer value _ => head (argument value)
  | .key tag => head tag
  | .bytes len _ _ => head len + len
  | .container count _ => head count

/-- The memory of a charge. -/
def Charge.allocation : Charge → ℕ
  | .key _ => 32
  | .bytes len _ _ => nodeAllocation + len * 4
  | _ => nodeAllocation

/-- The entries of a charge. -/
def Charge.entries : Charge → ℕ
  | .key _ => 0
  | _ => 1

/-- The entries that must be free before the charge: a container asks for its items at once. -/
def Charge.reserve : Charge → ℕ
  | .key _ => 0
  | .container count _ => 1 + count
  | _ => 1

/-- The checks of a charge that do not depend on what was charged before. -/
def Charge.Allowed (limits : Limits) : Charge → Prop
  | .scalar depth => depth ≤ limits.nesting.toNat
  | .integer _ depth => depth ≤ limits.nesting.toNat
  | .key _ => True
  | .bytes len max depth => depth ≤ limits.nesting.toNat ∧ len ≤ stringLimit limits max
  | .container _ depth => depth ≤ limits.nesting.toNat

/-- The bytes of a walk. -/
def encodedOf (charges : List Charge) : ℕ := (charges.map Charge.encoded).sum

/-- The memory of a walk. -/
def allocationOf (charges : List Charge) : ℕ := (charges.map Charge.allocation).sum

/-- The entries of a walk. -/
def entriesOf (charges : List Charge) : ℕ := (charges.map Charge.entries).sum

/-- The largest number of entries asked for at any point of the walk. -/
def reserveOf : List Charge → ℕ
  | [] => 0
  | c :: charges => max c.reserve (c.entries + reserveOf charges)

/-- The budget after the charges, were none refused. -/
def Budget.add (b : Budget) (charges : List Charge) : Budget :=
  { b with encoded := b.encoded + encodedOf charges
           allocation := b.allocation + allocationOf charges
           entries := b.entries + entriesOf charges }

/-- The charges fit into what is left of the budget. -/
structure Budget.Fits (b : Budget) (charges : List Charge) : Prop where
  allowed : ∀ c ∈ charges, c.Allowed b.limits
  entries : b.entries + reserveOf charges ≤ b.limits.collectionEntries.toNat
  frame : b.encoded + encodedOf charges ≤ b.maxFrame
  allocation : b.allocation + allocationOf charges + (b.encoded + encodedOf charges) ≤
    b.maxAllocation

theorem Budget.charge_eq_ok_iff (b b' : Budget) (encoded allocation : ℕ) :
    b.charge encoded allocation = .ok b' ↔
      (b.encoded + encoded ≤ b.maxFrame ∧
        b.allocation + allocation + (b.encoded + encoded) ≤ b.maxAllocation) ∧
      b' = { b with encoded := b.encoded + encoded, allocation := b.allocation + allocation } := by
  simp only [Budget.charge, Budget.maxFrame, Budget.maxAllocation]
  split_ifs with h <;> simp only [false_iff, Except.ok.injEq] <;> grind

theorem Budget.node_eq_ok_iff (b b' : Budget) (depth encoded : ℕ) :
    b.node depth encoded = .ok b' ↔
      depth ≤ b.limits.nesting.toNat ∧ b.entries + 1 ≤ b.limits.collectionEntries.toNat ∧
      (b.encoded + encoded ≤ b.maxFrame ∧
        b.allocation + nodeAllocation + (b.encoded + encoded) ≤ b.maxAllocation) ∧
      b' = ⟨b.encoded + encoded, b.allocation + nodeAllocation, b.entries + 1, b.bootstrap,
        b.limits⟩ := by
  simp only [Budget.node]
  split_ifs with h
  · simp only [false_iff]
    omega
  · rw [Budget.charge_eq_ok_iff]
    simp only [Budget.maxFrame, Budget.maxAllocation] at *
    constructor
    · rintro ⟨h1, rfl⟩
      exact ⟨by omega, by omega, h1, rfl⟩
    · rintro ⟨-, -, h1, rfl⟩
      exact ⟨h1, rfl⟩

/-- One charge passes exactly when it fits. -/
theorem Budget.visit_eq_ok_iff (b b' : Budget) (c : Charge)
    (hb : b.entries ≤ b.limits.collectionEntries.toNat) :
    b.visit c = .ok b' ↔ b.Fits [c] ∧ b' = b.add [c] := by
  have hfits : b.Fits [c] ↔ c.Allowed b.limits ∧
      b.entries + max c.reserve c.entries ≤ b.limits.collectionEntries.toNat ∧
      b.encoded + c.encoded ≤ b.maxFrame ∧
      b.allocation + c.allocation + (b.encoded + c.encoded) ≤ b.maxAllocation := by
    constructor
    · rintro ⟨h1, h2, h3, h4⟩
      simp [reserveOf, encodedOf, allocationOf] at h1 h2 h3 h4
      exact ⟨h1, by omega, h3, h4⟩
    · rintro ⟨h1, h2, h3, h4⟩
      exact ⟨by simpa using h1, by simp [reserveOf]; omega, by simpa [encodedOf] using h3,
        by simpa [encodedOf, allocationOf] using h4⟩
  rw [hfits]
  simp only [Budget.add, encodedOf, allocationOf, entriesOf, List.map_cons, List.map_nil,
    List.sum_cons, List.sum_nil, Nat.add_zero]
  cases c with
  | scalar depth =>
    simp only [Budget.visit, Budget.node_eq_ok_iff, Charge.Allowed, Charge.reserve,
      Charge.entries, Charge.encoded, Charge.allocation, max_self]
    tauto
  | integer value depth =>
    simp only [Budget.visit, Budget.node_eq_ok_iff, Charge.Allowed, Charge.reserve,
      Charge.entries, Charge.encoded, Charge.allocation, max_self]
    tauto
  | key tag =>
    simp only [Budget.visit, Budget.charge_eq_ok_iff, Charge.Allowed, Charge.reserve,
      Charge.entries, Charge.encoded, Charge.allocation, max_self, Nat.add_zero, true_and]
    tauto
  | bytes len max depth =>
    simp only [Budget.visit, Charge.Allowed, Charge.reserve, Charge.entries, Charge.encoded,
      Charge.allocation, max_self]
    split_ifs with hlen
    · simp only [false_iff]
      omega
    · simp only [bind, Except.bind]
      constructor
      · intro h
        cases hn : b.node depth (head len) with
        | error e => rw [hn] at h; cases h
        | ok b1 =>
          rw [hn] at h
          obtain ⟨h1, h2, h3, rfl⟩ := (Budget.node_eq_ok_iff _ _ _ _).1 hn
          obtain ⟨h4, rfl⟩ := (Budget.charge_eq_ok_iff _ _ _ _).1 h
          simp only [Budget.maxFrame, Budget.maxAllocation] at *
          refine ⟨⟨⟨h1, by omega⟩, h2, by omega, by omega⟩, ?_⟩
          simp only [Nat.add_assoc]
      · rintro ⟨⟨⟨h1, -⟩, h2, h3, h4⟩, rfl⟩
        rw [(Budget.node_eq_ok_iff b ⟨b.encoded + head len, b.allocation + nodeAllocation,
          b.entries + 1, b.bootstrap, b.limits⟩ depth (head len)).2
          ⟨h1, h2, ⟨by omega, by omega⟩, rfl⟩]
        rw [Budget.charge_eq_ok_iff]
        simp only [Budget.maxFrame, Budget.maxAllocation] at *
        refine ⟨⟨by omega, by omega⟩, ?_⟩
        simp only [Nat.add_assoc]
  | container count depth =>
    simp only [Budget.visit, Charge.Allowed, Charge.reserve, Charge.entries, Charge.encoded,
      Charge.allocation, bind, Except.bind]
    constructor
    · intro h
      cases hn : b.node depth (head count) with
      | error e => rw [hn] at h; cases h
      | ok b1 =>
        rw [hn] at h
        obtain ⟨h1, h2, h3, rfl⟩ := (Budget.node_eq_ok_iff _ _ _ _).1 hn
        simp only at h
        split_ifs at h with hc
        cases h
        exact ⟨⟨h1, by omega, h3⟩, rfl⟩
    · rintro ⟨⟨h1, h2, h3⟩, rfl⟩
      rw [(Budget.node_eq_ok_iff b ⟨b.encoded + head count, b.allocation + nodeAllocation,
        b.entries + 1, b.bootstrap, b.limits⟩ depth (head count)).2 ⟨h1, by omega, h3, rfl⟩]
      simp only
      rw [if_neg (by omega)]

theorem Budget.fits_cons (b : Budget) (c : Charge) (charges : List Charge) :
    b.Fits (c :: charges) ↔ b.Fits [c] ∧ (b.add [c]).Fits charges := by
  constructor
  · rintro ⟨h1, h2, h3, h4⟩
    simp only [reserveOf, encodedOf, allocationOf, List.map_cons, List.sum_cons] at h2 h3 h4
    refine ⟨⟨fun d hd => h1 d (by simp_all), ?_, ?_, ?_⟩,
      ⟨fun d hd => h1 d (List.mem_cons_of_mem _ hd), ?_, ?_, ?_⟩⟩ <;>
      simp [reserveOf, encodedOf, allocationOf, entriesOf, Budget.add, Budget.maxFrame,
        Budget.maxAllocation] at * <;> omega
  · rintro ⟨⟨h1, h2, h3, h4⟩, ⟨h5, h6, h7, h8⟩⟩
    refine ⟨?_, ?_, ?_, ?_⟩
    · intro d hd
      rcases List.mem_cons.1 hd with rfl | hd
      · exact h1 d (by simp)
      · exact h5 d hd
    all_goals
      simp [reserveOf, encodedOf, allocationOf, entriesOf, Budget.add, Budget.maxFrame,
        Budget.maxAllocation] at *
      omega

/-- **A walk succeeds exactly when its total fits.** -/
theorem Budget.walk_eq_ok_iff (charges : List Charge) (b b' : Budget) (hb : b.Fits []) :
    b.walk charges = .ok b' ↔ b.Fits charges ∧ b' = b.add charges := by
  induction charges generalizing b with
  | nil =>
    have hadd : b.add [] = b := by simp [Budget.add, encodedOf, allocationOf, entriesOf]
    rw [hadd]
    simp only [Budget.walk, List.foldlM_nil, pure, Except.pure, Except.ok.injEq]
    exact ⟨fun h => ⟨hb, h.symm⟩, fun h => h.2.symm⟩
  | cons c charges ih =>
    have hle : b.entries ≤ b.limits.collectionEntries.toNat := by simpa [reserveOf] using hb.entries
    have hadd : b.add (c :: charges) = (b.add [c]).add charges := by
      simp [Budget.add, encodedOf, allocationOf, entriesOf, Nat.add_assoc]
    simp only [Budget.walk, List.foldlM_cons, bind, Except.bind]
    rw [Budget.fits_cons, hadd]
    constructor
    · intro h
      cases hv : b.visit c with
      | error e => rw [hv] at h; cases h
      | ok b1 =>
        rw [hv] at h
        obtain ⟨hf, rfl⟩ := (b.visit_eq_ok_iff b1 c hle).1 hv
        have hb1 : (b.add [c]).Fits [] := ((b.fits_cons c []).1 hf).2
        obtain ⟨h1, h2⟩ := (ih _ hb1).1 h
        exact ⟨⟨hf, h1⟩, h2⟩
    · rintro ⟨⟨hf, h1⟩, rfl⟩
      rw [(b.visit_eq_ok_iff _ c hle).2 ⟨hf, rfl⟩]
      have hb1 : (b.add [c]).Fits [] := ((b.fits_cons c []).1 hf).2
      exact (ih _ hb1).2 ⟨h1, rfl⟩

theorem Budget.new_fits_nil (bootstrap : Bool) (limits : Limits) :
    (Budget.new bootstrap limits).Fits [] :=
  ⟨by simp, by simp [new, reserveOf], by simp [new, encodedOf],
    by simp [new, encodedOf, allocationOf]⟩

/-- What a walk charges stays within the receiver's allocation. -/
theorem walkCharge_le {message : Envelope} {limits : Limits} {n : ℕ}
    (h : walkCharge message limits = .ok n) : n ≤ limits.decodeAllocation.toNat := by
  obtain ⟨b, hb, hn⟩ := bind_eq_ok.1 h
  obtain ⟨hfits, rfl⟩ := (Budget.walk_eq_ok_iff _ _ b (Budget.new_fits_nil _ _)).1 hb
  have hle := hfits.allocation
  have hmax : (Budget.new (message.streamId == 0) limits).maxAllocation ≤
      limits.decodeAllocation.toNat := by
    unfold Budget.maxAllocation
    split_ifs
    · exact min_le_left _ _
    · exact le_rfl
  have hn := Except.ok.inj hn
  simp only [Budget.add] at hn
  omega

/-- Admission is three independent checks. -/
theorem admitLimited_eq_ok_iff (message : Envelope) (limits : Limits) :
    admitLimited message limits = .ok () ↔ Codec.limits limits = .ok () ∧
      envelope message = .ok () ∧
      (Budget.new (message.streamId == 0) limits).Fits (visitEnvelope message 0) := by
  have hwalk : (∃ n, walkCharge message limits = .ok n) ↔
      (Budget.new (message.streamId == 0) limits).Fits (visitEnvelope message 0) := by
    have hiff := fun b' => Budget.walk_eq_ok_iff (visitEnvelope message 0)
      (Budget.new (message.streamId == 0) limits) b' (Budget.new_fits_nil _ _)
    simp only [walkCharge, bind, Except.bind]
    constructor
    · rintro ⟨n, hn⟩
      split at hn
      · cases hn
      next b hb => exact ((hiff b).1 hb).1
    · intro hfits
      rw [(hiff _).2 ⟨hfits, rfl⟩]
      exact ⟨_, rfl⟩
  rw [← hwalk]
  simp only [admitLimited, bind, Except.bind]
  cases Codec.limits limits with
  | error e => simp
  | ok u =>
    cases envelope message with
    | error e => simp
    | ok u' => cases walkCharge message limits <;> simp [pure, Except.pure]

/-! ### Smaller walks -/

/-- One charge asks for no more than another, in the same place of a walk. -/
structure Charge.Le (c c' : Charge) : Prop where
  encoded : c.encoded ≤ c'.encoded
  allocation : c.allocation ≤ c'.allocation
  entries : c.entries = c'.entries
  reserve : c.reserve = c'.reserve
  allowed : ∀ limits, c'.Allowed limits → c.Allowed limits

theorem Charge.Le.refl (c : Charge) : c.Le c := ⟨le_rfl, le_rfl, rfl, rfl, fun _ h => h⟩

theorem head_le (n : ℕ) : head n ≤ 9 := by unfold head; split_ifs <;> omega

theorem head_mono {n m : ℕ} (h : n ≤ m) : head n ≤ head m := by
  unfold head; split_ifs <;> omega

theorem Charge.le_integer {value value' : ℤ} (depth : ℕ)
    (h : head (argument value) ≤ head (argument value')) :
    (Charge.integer value depth).Le (.integer value' depth) :=
  ⟨h, le_rfl, rfl, rfl, fun _ h => h⟩

theorem Charge.le_bytes {len len' : ℕ} (max depth : ℕ) (h : len ≤ len') :
    (Charge.bytes len max depth).Le (.bytes len' max depth) where
  encoded := by have := head_mono h; simp only [Charge.encoded]; omega
  allocation := by simp only [Charge.allocation]; omega
  entries := rfl
  reserve := rfl
  allowed _ ha := ⟨ha.1, h.trans ha.2⟩

theorem totals_of_le {cs cs' : List Charge} (h : List.Forall₂ Charge.Le cs cs') :
    encodedOf cs ≤ encodedOf cs' ∧ allocationOf cs ≤ allocationOf cs' ∧
      reserveOf cs = reserveOf cs' := by
  induction h with
  | nil => exact ⟨le_rfl, le_rfl, rfl⟩
  | cons hc _ ih =>
    obtain ⟨h1, h2, h3⟩ := ih
    simp only [encodedOf, allocationOf, List.map_cons, List.sum_cons, reserveOf] at *
    exact ⟨Nat.add_le_add hc.encoded h1, Nat.add_le_add hc.allocation h2,
      by rw [hc.reserve, hc.entries, h3]⟩

/-- A walk that asks for no more fits too. -/
theorem Budget.Fits.of_le {b : Budget} {cs cs' : List Charge} (hfits : b.Fits cs')
    (h : List.Forall₂ Charge.Le cs cs') : b.Fits cs := by
  obtain ⟨hencoded, hallocation, hreserve⟩ := totals_of_le h
  refine ⟨?_, hreserve ▸ hfits.entries, (Nat.add_le_add_left hencoded _).trans hfits.frame, ?_⟩
  · have hallowed := hfits.allowed
    clear hfits hencoded hallocation hreserve
    induction h with
    | nil => simp
    | cons hc _ ih =>
      simp only [List.mem_cons, forall_eq_or_imp] at hallowed ⊢
      exact ⟨hc.allowed _ hallowed.1, ih hallowed.2⟩
  · have := hfits.allocation
    omega

/-! ### Light walks -/

/-- The length of the text of a charge. -/
def Charge.text : Charge → ℕ
  | .bytes len _ _ => len
  | _ => 0

/-- A charge of a message without payload or free text. -/
def Charge.Light : Charge → Prop
  | .scalar depth => depth ≤ 10
  | .integer _ depth => depth ≤ 10
  | .key _ => True
  | .bytes len max depth => depth ≤ 10 ∧ len ≤ 256 ∧ max = maxMetadata
  | .container count depth => depth ≤ 10 ∧ count ≤ 32

/-- The text of a walk. -/
def textOf (charges : List Charge) : ℕ := (charges.map Charge.text).sum

/-- A walk costs a fixed amount for each charge, and five bytes for each byte of text. -/
theorem totals_le (cs : List Charge) : encodedOf cs ≤ 9 * cs.length + textOf cs ∧
    allocationOf cs ≤ nodeAllocation * cs.length + 4 * textOf cs := by
  induction cs with
  | nil => simp [encodedOf, allocationOf]
  | cons c cs ih =>
    obtain ⟨h1, h2⟩ := ih
    have hone : c.encoded ≤ 9 + c.text ∧ c.allocation ≤ nodeAllocation + 4 * c.text := by
      cases c <;>
        simp only [Charge.encoded, Charge.text, Charge.allocation, nodeAllocation, cborSize] <;>
        grind [head_le]
    simp only [encodedOf, allocationOf, textOf, List.map_cons, List.sum_cons,
      List.length_cons] at *
    refine ⟨by omega, ?_⟩
    rw [Nat.mul_succ]
    omega

theorem reserveOf_le {cs : List Charge} (h : ∀ c ∈ cs, c.reserve ≤ 33) :
    reserveOf cs ≤ cs.length + 32 := by
  induction cs with
  | nil => simp [reserveOf]
  | cons c cs ih =>
    obtain ⟨hc, hcs⟩ := List.forall_mem_cons.1 h
    have hentries : c.entries ≤ 1 := by cases c <;> simp [Charge.entries]
    have := ih hcs
    simp only [reserveOf, List.length_cons]
    omega

theorem Charge.Light.reserve_le {c : Charge} (h : c.Light) : c.reserve ≤ 33 := by
  cases c with
  | container count depth =>
    have := h.2
    simp only [Charge.reserve]
    omega
  | _ => simp [Charge.reserve]

theorem Charge.Light.allowed {c : Charge} {limits : Limits} (h : c.Light)
    (hmetadata : 256 ≤ limits.metadataBytes) (hnesting : 10 ≤ limits.nesting) :
    c.Allowed limits := by
  have hdepth : ∀ {depth : ℕ}, depth ≤ 10 → depth ≤ limits.nesting.toNat := fun h => by omega
  cases c with
  | key => trivial
  | bytes len max depth =>
    obtain ⟨hd, hlen, rfl⟩ := h
    refine ⟨hdepth hd, ?_⟩
    simp only [stringLimit, maxMetadata, maxData]
    norm_num
    omega
  | container => exact hdepth h.1
  | _ => exact hdepth h

/-- A walk of at most sixty light charges with one short text fits any usable limits. -/
theorem fits_of_light {limits : Limits} {cs : List Charge} (h : ∀ c ∈ cs, c.Light)
    (hlength : cs.length ≤ 60) (htext : textOf cs ≤ 128)
    (hframe : 4096 ≤ limits.encodedFrame) (hmetadata : 256 ≤ limits.metadataBytes)
    (hnesting : 10 ≤ limits.nesting) (hentries : 128 ≤ limits.collectionEntries)
    (hallocation : 65536 ≤ limits.decodeAllocation) : (Budget.new false limits).Fits cs := by
  obtain ⟨h1, h2⟩ := totals_le cs
  have h3 := reserveOf_le fun c hc => (h c hc).reserve_le
  refine ⟨fun c hc => (h c hc).allowed hmetadata hnesting, ?_, ?_, ?_⟩
  all_goals
    simp only [Budget.new, Budget.maxFrame, Budget.maxAllocation, nodeAllocation, cborSize,
      Bool.false_eq_true, if_false] at *
    omega

/-! ### The header of a valid message -/

section Header

variable {value : Envelope}

theorem header_of_envelope (h : envelope value = .ok ()) : header value = .ok () :=
  (bind_eq_ok.1 h).elim fun _ h => h.1

/-- Messages of the bootstrap, and no others, stand outside every stream. -/
theorem streamId_of_envelope (h : envelope value = .ok ()) :
    (value.kind.wire.toNat ≤ 3 → value.streamId = 0) ∧
      (3 < value.kind.wire.toNat → 0 < value.streamId) := by
  obtain ⟨_, -, h⟩ := bind_eq_ok.1 (header_of_envelope h)
  obtain ⟨_, -, h⟩ := bind_eq_ok.1 h
  obtain ⟨_, -, h⟩ := bind_eq_ok.1 h
  obtain ⟨_, hstream, -⟩ := bind_eq_ok.1 h
  have hstream := refuseIf_eq_ok.1 hstream
  constructor
  · intro hkind
    by_contra hne
    simp [hkind, hne] at hstream
  · intro hkind
    by_contra hle
    have : ¬ value.kind.wire.toNat ≤ 3 := by omega
    have hle : value.streamId ≤ 0 := by omega
    simp [this, hkind, hle] at hstream

/-- A valid message of a numbered stream has a number that can be followed by another. -/
theorem messageSeq_of_envelope (h : envelope value = .ok ()) (hversion : value.version = 3)
    (hstream : 0 < value.streamId) :
    ∃ seq, value.messageSeq = some seq ∧ 0 < seq ∧ seq ≠ i64Max := by
  obtain ⟨_, -, h⟩ := bind_eq_ok.1 (header_of_envelope h)
  obtain ⟨_, -, h⟩ := bind_eq_ok.1 h
  obtain ⟨_, -, h⟩ := bind_eq_ok.1 h
  obtain ⟨_, -, h⟩ := bind_eq_ok.1 h
  have hthree : (value.version == 3 && decide (value.streamId > 0)) = true := by
    simp [hversion, hstream]
  rw [if_pos hthree] at h
  obtain ⟨_, hseq, -⟩ := bind_eq_ok.1 h
  have hseq := refuseIf_eq_ok.1 hseq
  cases hmessage : value.messageSeq with
  | none => rw [hmessage] at hseq; cases hseq
  | some seq =>
    rw [hmessage] at hseq
    simp only [Option.all_some, Bool.or_eq_false_iff, decide_eq_false_iff_not, not_le,
      beq_eq_false_iff_ne] at hseq
    exact ⟨seq, rfl, hseq.1, hseq.2⟩

/-- A valid message carries its kind's own body and no other. -/
theorem bodies_of_envelope (h : envelope value = .ok ()) :
    (bodies value).count true = 1 ∧
      (bodies value)[value.kind.wire.toNat - 1]? = some true := by
  obtain ⟨_, -, h⟩ := bind_eq_ok.1 (header_of_envelope h)
  obtain ⟨_, -, h⟩ := bind_eq_ok.1 h
  obtain ⟨_, hbody, -⟩ := bind_eq_ok.1 h
  have hbody := refuseIf_eq_ok.1 hbody
  simp only [Bool.or_eq_false_iff, bne_eq_false_iff_eq, Bool.not_eq_false'] at hbody
  refine ⟨hbody.1, ?_⟩
  cases hget : (bodies value)[value.kind.wire.toNat - 1]? with
  | none => rw [hget] at hbody; cases hbody.2
  | some b => rw [hget] at hbody; exact congrArg some hbody.2

theorem open_of_checkIdentity (h : envelope value = .ok ())
    (hkind : value.kind = .checkIdentity) : value.open_ = none := by
  obtain ⟨hcount, hbody⟩ := bodies_of_envelope h
  have hcheck : value.checkIdentity.isSome = true := by
    simpa [hkind, MessageKind.wire, bodies] using hbody
  by_contra hne
  have hopen : value.open_.isSome = true := Option.isSome_iff_ne_none.2 hne
  simp only [bodies, hcheck, hopen, List.count_cons] at hcount
  simp at hcount
  omega

end Header

end GwzTransport.Codec
