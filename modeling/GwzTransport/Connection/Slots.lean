import GwzTransport.Lib.SortedMap
import GwzTransport.Lib.Transition
import GwzTransport.Lib.MachineInt
import GwzTransport.Protocol.Types

/-!
# The slots of a host

A host runs a bounded number of operations at once.  An admission waits in the host's queue until
it is at the front and a slot is free, holds the slot in a claim, and hands the claim in when its
operation registers: the slot is then the binding's until the binding retires.  A seal takes back
the slots of all claims that have not registered.

The functions are those of `host/shared/admit.rs` and the half of `seal` in `host/shared.rs` that
works on the admission tables, each one section under the state lock.  A subtraction that
would go below zero is `none`.  The charges of the admissions do not touch the slots and are left
out; a waker is the number of the task it wakes, and a function returns the wakers it wakes.

* `Host`: the state with what the holders of permits and operations keep outside the lock, and a
  ledger of the slots given back; `Host.Step`: every call its owners can make;
* `Host.held`: whether the slot of a permit is still taken;
* `Polled`: what a poll for a slot finds.
-/

namespace GwzTransport.Connection

open Protocol MachineInt Transition

/-! ### The state -/

inductive HostPhase
  | opened
  | closing
  | closed
  deriving DecidableEq

inductive TerminalReason
  | hostClosing
  | hostFault
  | domainClosing
  | clientRefused (code : ErrorCode)
  | carrierLost
  | timedOut
  | cancelled
  deriving DecidableEq

/-- The limits that the admission tables are held to. -/
structure HostLimits where
  activeSlots : ℕ
  waitingAdmissions : ℕ

abbrev Waker := ℕ

structure Waiter where
  id : ℕ
  waker : Option Waker
  deriving DecidableEq

/-- A slot an acquired permit holds before it registers. -/
structure Claim where
  revoked : Option TerminalReason
  /-- The slot was given back already, by a revocation. -/
  released : Bool
  deriving DecidableEq

/-- The flags of a binding, which its operation works on without the host's lock. -/
structure BindingShared where
  sealed : Bool
  live : ℕ
  retired : Bool
  cancelled : Bool
  closing : Option TerminalReason
  deriving DecidableEq

structure HostState where
  phase : HostPhase
  closing : Option TerminalReason
  /-- Whether the cell of the close exists. -/
  close : Bool
  queue : List Waiter
  nextWaiter : ℕ
  active : ℕ
  nextClaim : ℕ
  claims : SortedMap ℕ Claim
  nextBinding : ℕ
  /-- The serials of the registered bindings. -/
  bindings : SortedMap ℕ Unit

/-- What an admission's request for a slot returned. -/
inductive Slot
  | wait
  | granted (claim serial : ℕ)
  | closing (reason : TerminalReason)
  | exhausted
  deriving DecidableEq

inductive AdmissionError
  | closing (reason : TerminalReason)
  | queueFull
  deriving DecidableEq

namespace HostState

/-- The state of a host as `build` makes it. -/
def built : HostState where
  phase := .opened
  closing := none
  close := false
  queue := []
  nextWaiter := 0
  active := 0
  nextClaim := 0
  claims := .empty
  nextBinding := 1
  bindings := .empty

variable (s : HostState)

def closingReason : TerminalReason := s.closing.getD .hostClosing

/-- Takes the waker of the first waiter. -/
def wakeFront : HostState × Option Waker :=
  match s.queue with
  | [] => (s, none)
  | w :: rest => ({ s with queue := { w with waker := none } :: rest }, w.waker)

/-- Registers a waker with the first waiter of an id. -/
def setWaker (id : ℕ) (waker : Waker) : List Waiter → List Waiter
  | [] => []
  | w :: rest =>
    if w.id = id then { w with waker := some waker } :: rest else w :: setWaker id waker rest

/-- The section of `admit_input` under the lock. -/
def admitInput (limits : HostLimits) : HostState × Except AdmissionError ℕ :=
  if s.phase ≠ .opened then (s, .error (.closing s.closingReason))
  else if s.queue.length ≥ limits.waitingAdmissions then (s, .error .queueFull)
  else
    ({ s with
        nextWaiter := (s.nextWaiter + 1) % (u64Max + 1)
        queue := s.queue ++ [⟨s.nextWaiter, none⟩] }, .ok s.nextWaiter)

def takeSlot (limits : HostLimits) (id : ℕ) (waker : Waker) : Option (HostState × Slot) :=
  if s.phase ≠ .opened then
    some ({ s with queue := s.queue.filter (·.id != id) }, .closing s.closingReason)
  else if s.queue.head?.any (·.id == id) ∧ s.active < limits.activeSlots then
    match checkedSucc s.nextBinding with
    | none => some ({ s with queue := s.queue.tail }, .exhausted)
    | some next => do
      let nextClaim ← checkedSucc s.nextClaim
      return ({ s with
          queue := s.queue.tail
          nextBinding := next
          active := s.active + 1
          nextClaim
          claims := s.claims.insert s.nextClaim ⟨none, false⟩ },
        .granted s.nextClaim s.nextBinding)
  else some ({ s with queue := setWaker id waker s.queue }, .wait)

/-- Takes `id` out of the queue; the next waiter may now be at the front. -/
def dequeue (id : ℕ) : HostState × Option Waker :=
  wakeFront { s with queue := s.queue.filter (·.id != id) }

/-- The slot of a claim that leaves the table is given back unless it was already. -/
def giveBack (removed : Option Claim) : Option HostState :=
  if removed.any (!·.released) then (checkedSub s.active 1).map ({ s with active := · }) else some s

/-- Gives a claim's slot back unless a revocation already did, and wakes the next waiter. -/
def dropClaim (claim : ℕ) : Option (HostState × Option Waker) :=
  let removed := s.claims.get? claim
  let s := { s with claims := s.claims.erase claim }
  (s.giveBack removed).map wakeFront

/-- Why a claim cannot register, if it cannot. -/
def refusal (claim : Option Claim) : Option TerminalReason :=
  (claim.bind (·.revoked)).or (if s.phase = .opened then none else some s.closingReason)

def publish (claim serial : ℕ) :
    Option (HostState × Except TerminalReason Unit × Option Waker) :=
  let removed := s.claims.get? claim
  let revoked := s.refusal removed
  let s := { s with claims := s.claims.erase claim }
  match removed, revoked with
  | some _, none => some ({ s with bindings := s.bindings.insert serial () }, .ok (), none)
  | removed, reason =>
    (s.giveBack removed).map fun s =>
      (s.wakeFront.1, .error (reason.getD .hostFault), s.wakeFront.2)

/-- The section of `retire_if_done` under the lock: a binding leaves the table. -/
def retire (serial : ℕ) : Option (HostState × Option Waker) :=
  let removed := s.bindings.get? serial
  let s := { s with bindings := s.bindings.erase serial }
  (if removed.isSome then (checkedSub s.active 1).map ({ s with active := · }) else some s).map
    wakeFront

/-- A claim as a seal leaves it. -/
def revoke (reason : TerminalReason) (claim : Claim) : Claim :=
  ⟨claim.revoked.or (some reason), true⟩

/-- The section of `seal` under the lock; a second seal finds the close and changes nothing. -/
def sealHost (reason : TerminalReason) : Option (HostState × List Waker) :=
  if s.close then some (s, [])
  else do
    let active ← checkedSub s.active (s.claims.countWhere (!·.released))
    return ({ s with
        phase := .closing
        closing := some reason
        close := true
        claims := s.claims.map fun _ => revoke reason
        active
        queue := [] }, s.queue.filterMap (·.waker))

/-- The close is over. -/
def finish : HostState := { s with phase := .closed }

end HostState

/-- When a sealed binding has nothing live left, the first to see it retires it. -/
def BindingShared.done (b : BindingShared) : Bool := b.sealed && b.live == 0 && !b.retired

/-! ### The host and its owners -/

/-- A host with what its owners hold: the serial of the prepared binding of each permit, by the
number of its claim, and the flags of each binding that registered.  `returned` is the ledger of
the slots given back, by the serials they were granted with. -/
structure Host where
  state : HostState
  permits : SortedMap ℕ ℕ
  shared : SortedMap ℕ BindingShared
  returned : List ℕ

/-- The calls of the owners of a host's admissions, permits and operations. -/
inductive Call
  | admitInput
  /-- A poll of an admission. -/
  | takeSlot (id : ℕ) (waker : Waker)
  /-- An admission is dropped, or timed out. -/
  | dequeue (id : ℕ)
  | dropClaim (claim : ℕ)
  | publish (claim serial : ℕ)
  /-- `Live::new`: something of the operation begins. -/
  | enliven (serial : ℕ)
  /-- A `Live` is dropped, up to its call of `retire_if_done`. -/
  | dropLive (serial : ℕ)
  /-- The operation finishes or is dropped, up to its call of `retire_if_done`. -/
  | sealOperation (serial : ℕ)
  | retireIfDone (serial : ℕ)
  | sealHost (reason : TerminalReason)
  | finish
  deriving DecidableEq

inductive Outcome
  | done
  | admitted (result : Except AdmissionError ℕ)
  | slot (slot : Slot)
  | published (result : Except TerminalReason Unit)

/-- The claim and the serial of a slot that was granted. -/
def Outcome.grant : Outcome → Option (ℕ × ℕ)
  | .slot (.granted claim serial) => some (claim, serial)
  | _ => none

namespace Host

def built : Host := ⟨.built, .empty, .empty, []⟩

variable (h : Host)

/-- What the types of the source allow: a permit publishes the binding that was prepared for it,
and only an operation that registered has a binding to work on. -/
def allowed : Call → Bool
  | .publish claim serial => h.permits.get? claim == some serial
  | .enliven serial | .sealOperation serial | .retireIfDone serial => (h.shared.get? serial).isSome
  | .dropLive serial => (h.shared.get? serial).any (0 < ·.live)
  | _ => true

/-- Whether a claim has a slot. -/
def claimed (claim : ℕ) : Bool := (h.state.claims.get? claim).any (!·.released)

/-- The slots that a call gives back. -/
def freed : Call → List ℕ
  | .dropClaim claim => if h.claimed claim then (h.permits.get? claim).toList else []
  | .publish claim serial =>
    if h.claimed claim && (h.state.refusal (h.state.claims.get? claim)).isSome then [serial] else []
  | .retireIfDone serial =>
    if (h.shared.get? serial).any (·.done) && (h.state.bindings.get? serial).isSome then [serial]
    else []
  | .sealHost _ =>
    if h.state.close then []
    else (h.state.claims.keysWhere fun _ c => !c.released).filterMap h.permits.get?
  | _ => []

/-- The permit that goes with a granted slot. -/
def permit : Slot → SortedMap ℕ ℕ
  | .granted claim serial => h.permits.insert claim serial
  | _ => h.permits

/-- The binding that registers has nothing live yet. -/
def register (serial : ℕ) : Except TerminalReason Unit → SortedMap ℕ BindingShared
  | .ok () => h.shared.insert serial ⟨false, 0, false, false, none⟩
  | .error _ => h.shared

def mapShared (serial : ℕ) (f : BindingShared → BindingShared) : Host :=
  match h.shared.get? serial with
  | some b => { h with shared := h.shared.insert serial (f b) }
  | none => h

/-- A seal cancels every registered binding. -/
def cancelBindings (reason : TerminalReason) : SortedMap ℕ BindingShared :=
  if h.state.close then h.shared
  else h.shared.map fun serial b =>
    if (h.state.bindings.get? serial).isSome then
      { b with cancelled := true, closing := some reason }
    else b

def call (limits : HostLimits) (c : Call) : Option (Host × Outcome) :=
  let returned := h.returned ++ h.freed c
  match c with
  | .admitInput =>
    some ({ h with state := (h.state.admitInput limits).1 },
      .admitted (h.state.admitInput limits).2)
  | .takeSlot id waker =>
    (h.state.takeSlot limits id waker).map fun x =>
      ({ h with state := x.1, permits := h.permit x.2 }, .slot x.2)
  | .dequeue id => some ({ h with state := (h.state.dequeue id).1 }, .done)
  | .dropClaim claim =>
    (h.state.dropClaim claim).map fun x => ({ h with state := x.1, returned }, .done)
  | .publish claim serial =>
    (h.state.publish claim serial).map fun x =>
      ({ h with state := x.1, shared := h.register serial x.2.1, returned }, .published x.2.1)
  | .enliven serial => some (h.mapShared serial fun b => { b with live := b.live + 1 }, .done)
  | .dropLive serial => some (h.mapShared serial fun b => { b with live := b.live - 1 }, .done)
  | .sealOperation serial => some (h.mapShared serial fun b => { b with sealed := true }, .done)
  | .retireIfDone serial =>
    if (h.shared.get? serial).any (·.done) then
      (h.state.retire serial).map fun x =>
        ({ h.mapShared serial fun b => { b with retired := true } with state := x.1, returned },
          .done)
    else some (h, .done)
  | .sealHost reason =>
    (h.state.sealHost reason).map fun x =>
      ({ h with state := x.1, shared := h.cancelBindings reason, returned }, .done)
  | .finish => some ({ h with state := h.state.finish }, .done)

/-- One call that does not panic. -/
def Step (limits : HostLimits) (h : Host) (x : Call × Outcome) (h' : Host) : Prop :=
  h.allowed x.1 = true ∧ h.call limits x.1 = some (h', x.2)

/-- The calls of a list, one after the other. -/
def play (limits : HostLimits) (h : Host) : List Call → Option (Host × List (Call × Outcome))
  | [] => some (h, [])
  | c :: rest =>
    if h.allowed c then do
      let (h, out) ← h.call limits c
      let (h, tr) ← play limits h rest
      return (h, (c, out) :: tr)
    else none

theorem run_play {limits : HostLimits} {h h' : Host} {calls : List Call}
    {tr : List (Call × Outcome)} (hp : h.play limits calls = some (h', tr)) :
    Run (Step limits) h tr h' := by
  induction calls generalizing h tr with
  | nil =>
    cases hp
    exact .nil
  | cons c rest ih =>
    unfold play at hp
    split_ifs at hp with hallowed
    obtain ⟨⟨t, out⟩, hcall, hp⟩ := Option.bind_eq_some_iff.1 hp
    obtain ⟨⟨u, tr'⟩, hrest, hp⟩ := Option.bind_eq_some_iff.1 hp
    cases hp
    exact .cons ⟨hallowed, hcall⟩ (ih hrest)

theorem exists_run {limits : HostLimits} {h : Host} {calls : List Call}
    {check : Host × List (Call × Outcome) → Bool} (hp : (h.play limits calls).any check = true) :
    ∃ tr h', Run (Step limits) h tr h' ∧ check (h', tr) = true := by
  obtain ⟨⟨h', tr⟩, hplay, hcheck⟩ := (Option.any_eq_true _ _).1 hp
  exact ⟨tr, h', run_play hplay, hcheck⟩

/-- Whether the slot of a permit is held, by the claim or by the binding that registered. -/
def held (claim serial : ℕ) : Bool := h.claimed claim || (h.state.bindings.get? serial).isSome

end Host

/-! ### What the polls and the wakes do -/

variable {limits : HostLimits} {s : HostState}

theorem wakeFront_eq (s : HostState) : ∃ queue, s.wakeFront.1 = { s with queue } := by
  unfold HostState.wakeFront
  split
  · exact ⟨s.queue, rfl⟩
  · exact ⟨_, rfl⟩

/-- What a poll for a slot finds. -/
inductive Polled (limits : HostLimits) (s : HostState) (id : ℕ) (waker : Waker) :
    HostState → Slot → Prop
  | shut : s.phase ≠ .opened →
      Polled limits s id waker { s with queue := s.queue.filter (·.id != id) }
        (.closing s.closingReason)
  | granted {w rest} : s.phase = .opened → s.queue = w :: rest →
      w.id = id → s.active < limits.activeSlots → s.nextBinding < u64Max →
      Polled limits s id waker
        { s with
          queue := rest
          nextBinding := s.nextBinding + 1
          active := s.active + 1
          nextClaim := s.nextClaim + 1
          claims := s.claims.insert s.nextClaim ⟨none, false⟩ }
        (.granted s.nextClaim s.nextBinding)
  | exhausted {w rest} : s.phase = .opened → s.queue = w :: rest →
      w.id = id → s.active < limits.activeSlots → ¬ s.nextBinding < u64Max →
      Polled limits s id waker { s with queue := rest } .exhausted
  | wait : s.phase = .opened →
      ¬ (s.queue.head?.any (·.id == id) ∧ s.active < limits.activeSlots) →
      Polled limits s id waker { s with queue := HostState.setWaker id waker s.queue } .wait

theorem polled_takeSlot {id : ℕ} {waker : Waker} {t : HostState} {slot : Slot}
    (ht : s.takeSlot limits id waker = some (t, slot)) : Polled limits s id waker t slot := by
  unfold HostState.takeSlot at ht
  by_cases hphase : s.phase = .opened
  · rw [if_neg (not_not.2 hphase)] at ht
    by_cases hfront : s.queue.head?.any (·.id == id) ∧ s.active < limits.activeSlots
    · rw [if_pos hfront] at ht
      obtain ⟨w, rest, hqueue, hid⟩ : ∃ w rest, s.queue = w :: rest ∧ w.id = id := by
        cases hq : s.queue with
        | nil => simp [hq] at hfront
        | cons w rest => exact ⟨w, rest, rfl, by simpa [hq] using hfront.1⟩
      by_cases hbound : s.nextBinding < u64Max
      · rw [checkedSucc_of_lt hbound] at ht
        obtain ⟨next, hnext, ht⟩ := Option.bind_eq_some_iff.1 ht
        rw [checkedSucc, Option.ite_none_right_eq_some] at hnext
        obtain ⟨-, hnext⟩ := hnext
        cases hnext
        cases ht
        rw [hqueue, List.tail_cons]
        exact .granted hphase hqueue hid hfront.2 hbound
      · rw [checkedSucc, if_neg hbound] at ht
        cases ht
        rw [hqueue, List.tail_cons]
        exact .exhausted hphase hqueue hid hfront.2 hbound
    · rw [if_neg hfront] at ht
      cases ht
      exact .wait hphase hfront
  · rw [if_pos hphase] at ht
    cases ht
    exact .shut hphase

end GwzTransport.Connection
