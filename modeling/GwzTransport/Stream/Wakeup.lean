import GwzTransport.Lib.SortedMap
import GwzTransport.Stream.Revision

/-!
# Waiting on a stream

`stream/asynchronous.rs` puts a machine behind a lock and lets tasks wait on it.  A task tries its
call; where the machine has nothing for it the task leaves its waker and sleeps, and whoever
changes the machine next wakes the sleepers.  What tells a change is the machine's `revision`.

`Runtime` is the shared machine with its sleepers.  Each of them carries whether its waker was
called since it fell asleep; `Attended` says that whoever could go on was called.
-/

namespace GwzTransport.Stream

open Protocol MachineInt Transition

/-! ### The shared machine -/

/-- A waiter that sleeps: what it polls for, and whether its waker was called since. -/
structure Registration where
  wait : Wait
  dispatcher : Bool
  woken : Bool
  deriving DecidableEq

structure Runtime where
  machine : StreamMachine
  waiters : SortedMap ℕ Registration
  serial : ℕ

namespace Runtime

def new (machine : StreamMachine) : Runtime := ⟨machine, .empty, 0⟩

/-- Every registered waker is called, but for the caller's own. -/
def wake (r : Runtime) (self : Option ℕ) : Runtime :=
  { r with waiters := r.waiters.map fun id reg =>
      if some id = self then reg else { reg with woken := true } }

/-- The sleepers after a call that took the machine from `before` to where it is now. -/
def notify (r : Runtime) (before : StreamMachine) (self : Option ℕ) : Runtime :=
  if r.machine.revision ≠ before.revision then r.wake self else r

/-- `Shared::change`: an operation that does not wait. -/
def change (r : Runtime) (op : Op) : Runtime × Outcome :=
  (notify { r with machine := (r.machine.step op).1 } r.machine none, (r.machine.step op).2)

/-- Whether another waiter finds no place. -/
def full (r : Runtime) (dispatcher : Bool) : Bool :=
  decide (r.waiters.countWhere (fun reg => reg.dispatcher == dispatcher) ≥
    (if dispatcher then 1 else r.machine.config.maxWaiters)) || r.serial == u64Max

/-- The place of a waiter that has to wait; a new one takes the next serial. -/
def place (r : Runtime) (self : Option ℕ) (dispatcher : Bool) : Option (Runtime × ℕ) :=
  match self with
  | some id => some (r, id)
  | none =>
    if r.full dispatcher then none else some ({ r with serial := r.serial + 1 }, r.serial + 1)

/-- `Waiter::poll` with the waiter's place before and after; an answer of `none` is pending. -/
def poll (r : Runtime) (self : Option ℕ) (dispatcher : Bool) (wait : Wait) :
    Runtime × Option ℕ × Option (Except Error Reply) :=
  let tried := { r with machine := (r.machine.attempt wait).1 }
  match (r.machine.attempt wait).2 with
  | .error .wouldBlock =>
    match tried.place self dispatcher with
    | none => (tried.notify r.machine none, none, some (.error .waiterCapacity))
    | some (placed, id) =>
      (notify { placed with waiters := placed.waiters.insert id ⟨wait, dispatcher, false⟩ }
        r.machine (some id), some id, none)
  | result =>
    let left := match self with
      | some id => { tried with waiters := tried.waiters.erase id }
      | none => tried
    (left.notify r.machine none, none, some result)

/-- What can happen to the shared machine.  A waiter is known by its place, so one that polls with a
place is registered there. -/
inductive Act
  | change (op : Op)
  | poll (self : Option ℕ) (dispatcher : Bool) (wait : Wait)
  | drop (id : ℕ)

def step (r : Runtime) : Act → Option Runtime
  | .change op => some (r.change op).1
  | .poll self dispatcher wait =>
    if self.all fun id => (r.waiters.get? id).any (·.dispatcher == dispatcher) then
      some (r.poll self dispatcher wait).1
    else none
  | .drop id => some { r with waiters := r.waiters.erase id }

/-- Every sleeper that could go on has been called. -/
def Attended (r : Runtime) : Prop :=
  ∀ id reg, r.waiters.get? id = some reg → r.machine.Asleep reg.wait ∨ reg.woken = true

theorem get?_wake (r : Runtime) (self : Option ℕ) (id : ℕ) :
    (r.wake self).waiters.get? id = (r.waiters.get? id).map fun reg =>
      if some id = self then reg else { reg with woken := true } :=
  SortedMap.get?_map ..

/-- After a call the sleepers are attended: the caller's own entry waits for good, and every other
one that the call let go on is woken. -/
theorem attended_notify {r : Runtime} {before : StreamMachine} {self : Option ℕ}
    (hm : before.Moved r.machine)
    (hself : ∀ id reg, self = some id → r.waiters.get? id = some reg →
      r.machine.Asleep reg.wait ∨ reg.woken = true)
    (hrest : ∀ id reg, self ≠ some id → r.waiters.get? id = some reg →
      before.Asleep reg.wait ∨ reg.woken = true) : (r.notify before self).Attended := by
  intro id reg hreg
  unfold notify at hreg ⊢
  split at hreg
  next hrev =>
    rw [if_pos hrev]
    rw [get?_wake, Option.map_eq_some_iff] at hreg
    obtain ⟨old, hold, rfl⟩ := hreg
    split
    next hid => exact hself id old hid.symm hold
    · exact .inr rfl
  next hrev =>
    rw [if_neg hrev]
    by_cases hid : self = some id
    · exact hself id reg hid hreg
    · refine (hrest id reg hid hreg).imp_left fun h => ?_
      -- the revision is the old one, so nothing that is waited for has changed
      rcases hm with ht | hs
      · exact absurd ht.revision_ne hrev
      · exact (hs.asleep _).2 h

theorem Attended.change {r : Runtime} (h : r.Attended) (op : Op) : (r.change op).1.Attended :=
  attended_notify (r.machine.moved_step op) (fun _ _ hid => nomatch hid) fun id reg _ hreg =>
    h id reg hreg

theorem Attended.poll {r : Runtime} (h : r.Attended) (self : Option ℕ) (dispatcher : Bool)
    (wait : Wait) : (r.poll self dispatcher wait).1.Attended := by
  have hm := r.machine.moved_attempt wait
  unfold Runtime.poll
  simp only
  split
  next hblock =>
    split
    next hplace =>
      exact attended_notify hm (fun _ _ hid => nomatch hid) fun id reg _ hreg => h id reg hreg
    next placed id hplace =>
      have hw : placed.waiters = r.waiters ∧ placed.machine = (r.machine.attempt wait).1 := by
        unfold place at hplace
        split at hplace
        · cases hplace
          exact ⟨rfl, rfl⟩
        split_ifs at hplace
        cases hplace
        exact ⟨rfl, rfl⟩
      refine attended_notify (by rw [← hw.2] at hm; exact hm) ?_ ?_
      · intro j reg hj hreg
        cases hj
        rw [SortedMap.get?_insert_self] at hreg
        cases hreg
        left
        show placed.machine.Asleep wait
        rw [hw.2]
        exact StreamMachine.Asleep.attempt hblock
      · intro j reg hj hreg
        rw [SortedMap.get?_insert_of_ne _ (fun e => hj (congrArg some e.symm)), hw.1] at hreg
        exact h j reg hreg
  next =>
    refine attended_notify ?_ (fun _ _ hid => nomatch hid) fun id reg _ hreg => ?_
    · cases self <;> exact hm
    · cases self with
      | none => exact h id reg hreg
      | some own =>
        rw [show (_ : Runtime).waiters.get? id = _ from rfl, SortedMap.get?_erase] at hreg
        split_ifs at hreg
        exact h id reg hreg

theorem Attended.step {r r' : Runtime} {a : Act} (h : r.Attended) (hs : r.step a = some r') :
    r'.Attended := by
  cases a with
  | change op =>
    cases hs
    exact h.change op
  | poll self dispatcher wait =>
    simp only [Runtime.step] at hs
    split_ifs at hs
    cases hs
    exact h.poll self dispatcher wait
  | drop id =>
    cases hs
    exact fun j reg hreg => SortedMap.forall_erase _ id h j reg hreg

end Runtime

/-- **No lost wakeup.**  In every state that a machine reaches an operation that lets a waiting call
go on leaves a new revision; and on the shared machine every registered waiter that could go on has
been woken. -/
theorem no_lost_wakeup (config : Config) :
    (∀ tr m op w, Run Step (.initial config) tr m → m.Blocked w → ¬ (m.step op).1.Blocked w →
      (m.step op).1.revision ≠ m.revision) ∧
    ∀ tr r id reg,
      Run (fun r a r' => Runtime.step r a = some r') (.new (.initial config)) tr r →
      r.waiters.get? id = some reg → ¬ r.machine.Asleep reg.wait → reg.woken = true := by
  constructor
  · intro tr m op w _ hb hn
    exact (m.moved_step op).revision_ne hb hn
  · intro tr r id reg hrun hreg hawake
    have hatt : r.Attended := by
      refine hrun.invariant (P := fun _ r => r.Attended) ?_ fun _ _ _ _ _ h hs => h.step hs
      intro id reg hreg
      cases hreg
    exact (hatt id reg hreg).resolve_left hawake

/-- The peer's end of its data, before there is any. -/
def endOfNothing : Envelope :=
  { (StreamMachine.initial (.small .initiator)).envelope .endWrite with
    endWrite := some { finalOffset := 0 } }

/-- A reader of an empty stream sleeps, and the end of the stream wakes it. -/
theorem no_lost_wakeup_at_end :
    ((StreamMachine.initial (.small .initiator)).step (.receive endOfNothing)).1.revision ≠ 0 ∧
    ∀ r, Run (fun r a r' => Runtime.step r a = some r') (.new (.initial (.small .initiator)))
        [.poll none false (.read 4), .change (.receive endOfNothing)] r →
      ∀ reg, r.waiters.get? 1 = some reg → ¬ r.machine.Asleep reg.wait → reg.woken = true := by
  refine ⟨(no_lost_wakeup (.small .initiator)).1 [] _ (.receive endOfNothing) (.read 4) .nil ?_ ?_,
    fun r hrun reg hreg => (no_lost_wakeup (.small .initiator)).2 _ r 1 reg hrun hreg⟩
  · show (StreamMachine.read _ 4).2 = .error .wouldBlock
    decide +kernel
  · show ¬ (StreamMachine.read _ 4).2 = .error .wouldBlock
    decide +kernel

end GwzTransport.Stream
