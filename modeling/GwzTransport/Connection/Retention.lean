import GwzTransport.Lib.SortedMap
import GwzTransport.Lib.Transition

/-!
# The budget of retained cleanup

Adapters that a host could not dispose of in time become a work item of its cleanup domain.  The
domain counts the item against its budget and then offers it to the composition's retainer, which
takes it or hands it back.  Whoever has the item polls its adapters; the pass that finds none left
confirms the item's ticket and gives its place in the budget back, as a refusal does.

The functions are those of `domain.rs`, and `pend` of `host/shared.rs`, the only caller of `retain`.
The retainer is foreign code that runs between the two halves of `retain`, so its answer is a step
of its own and anything may happen in between: it may poll the item that it is offered, and may
hand back another one.  An item is known by its generation, which its ticket shares.

* `CleanupDomain`: the domain with its work items; `log` is its history, which no function reads;
* `Call` and `CleanupDomain.call`: what the hosts and the retainer can do;
* `Budgeted`: what the calls keep, if no item comes back that was polled to its end;
* `budget_exact`: the account of the budget after any run.
-/

namespace GwzTransport.Connection

open Transition

structure DomainConfig where
  retainedCleanup : ℕ := 64

/-- Who has a work item: the retainer that has not yet answered, the retainer that took it, or the
caller of `pend`. -/
inductive Holder
  | offered
  | retainer
  | owner
  deriving DecidableEq

structure RetainedWork where
  /-- The adapters whose disposal is not confirmed. -/
  adapters : List ℕ
  /-- The state of the item's ticket. -/
  confirmed : Bool
  /-- Whether the domain's budget counts this work. -/
  counted : Bool
  holder : Holder
  deriving DecidableEq

/-- The item is with the retainer, and its disposal is not confirmed. -/
def RetainedWork.outstanding (work : RetainedWork) : Bool :=
  work.holder != .owner && !work.confirmed

inductive BudgetEvent
  | counted (generation : ℕ)
  | released (generation : ℕ)
  deriving DecidableEq

def BudgetEvent.isReleased : BudgetEvent → Bool
  | .released _ => true
  | .counted _ => false

structure CleanupDomain where
  config : DomainConfig
  inUse : ℕ
  nextGeneration : ℕ
  tickets : List ℕ
  works : SortedMap ℕ RetainedWork
  log : List BudgetEvent

namespace CleanupDomain

inductive Call
  /-- A host cannot dispose of adapters. -/
  | pend (adapters : List ℕ)
  /-- The retainer takes the item that it is offered. -/
  | accept (generation : ℕ)
  /-- The retainer refuses, and hands an item back. -/
  | refuse (generation back : ℕ)
  /-- Whoever has the item polls its adapters, and those of a list are disposed of. -/
  | step (generation : ℕ) (disposed : List ℕ)

def new (config : DomainConfig) : CleanupDomain := ⟨config, 0, 0, [], .empty, []⟩

variable (d : CleanupDomain)

def put (g : ℕ) (work : RetainedWork) : CleanupDomain := { d with works := d.works.insert g work }

/-- Gives the place of an item back; the subtraction saturates. -/
def release (g : ℕ) : CleanupDomain :=
  { d with inUse := d.inUse - 1, log := d.log ++ [.released g] }

/-- The status of a ticket. -/
def pending (ticket : ℕ) : Bool := (d.works.get? ticket).any (!·.confirmed)

/-- `retain` up to the question to the retainer. -/
def retain (g : ℕ) (work : RetainedWork) : CleanupDomain :=
  if d.inUse ≥ d.config.retainedCleanup then d.put g work
  else
    { d with
      inUse := d.inUse + 1
      tickets := d.tickets.filter d.pending ++ [g]
      works := d.works.insert g { work with counted := true, holder := .offered }
      log := d.log ++ [.counted g] }

def pend (adapters : List ℕ) : CleanupDomain :=
  { d with nextGeneration := d.nextGeneration + 1 }.retain (d.nextGeneration + 1)
    ⟨adapters, false, false, .owner⟩

/-- The item of an offer becomes the retainer's. -/
def accept (g : ℕ) : Option CleanupDomain :=
  match d.works.get? g with
  | some work =>
    if work.holder = .offered then some (d.put g { work with holder := .retainer }) else none
  | none => none

/-- The rest of `retain` after a refusal, for the item that came back. -/
def handBack (g : ℕ) : Option CleanupDomain :=
  match d.works.get? g with
  | some work =>
    if work.holder = .retainer then
      some ((d.put g { work with counted := false, holder := .owner }).release g)
    else none
  | none => none

/-- A pass over a work item. -/
def pollWork (g : ℕ) (disposed : List ℕ) : Option CleanupDomain :=
  (d.works.get? g).map fun work =>
    let adapters := work.adapters.filter (!disposed.contains ·)
    if adapters.isEmpty then
      let done := d.put g { work with adapters, confirmed := true, counted := false }
      if work.counted then done.release g else done
    else d.put g { work with adapters }

def call : Call → Option CleanupDomain
  | .pend adapters => some (d.pend adapters)
  | .accept g => d.accept g
  | .refuse g back => (d.accept g).bind (·.handBack back)
  | .step g disposed => d.pollWork g disposed

/-- No item comes back that was polled to its end. -/
def handsBackUnfinished : Call → Bool
  | .refuse _ back => d.pending back
  | _ => true

def Step (d : CleanupDomain) (call : Call) (t : CleanupDomain) : Prop := d.call call = some t

/-- The steps in which the retainer hands back no item that was polled to its end. -/
def CarefulStep (d : CleanupDomain) (call : Call) (t : CleanupDomain) : Prop :=
  d.handsBackUnfinished call = true ∧ Step d call t

/-! ### The account -/

/-- The budget counts the items that are with the retainer and not confirmed, and the history has
one count for each of them and one release for each that is over. -/
structure Budgeted (config : DomainConfig) (d : CleanupDomain) : Prop where
  config_eq : d.config = config
  inUse : d.inUse = d.works.countWhere (·.counted)
  room : d.inUse ≤ config.retainedCleanup
  counted : ∀ g work, d.works.get? g = some work → work.counted = work.outstanding
  known : ∀ g work, d.works.get? g = some work → g ≤ d.nextGeneration
  once : ∀ g, d.log.count (.counted g) ≤ if g ≤ d.nextGeneration then 1 else 0
  booked : ∀ g, d.log.count (.released g) + ((d.works.get? g).any (·.counted)).toNat =
    d.log.count (.counted g)
  total : d.log.countP (·.isReleased) + d.inUse = d.log.countP (!·.isReleased)

variable {d} {config : DomainConfig} {g : ℕ} {work work' : RetainedWork}

theorem budgeted_new (config : DomainConfig) : Budgeted config (.new config) where
  config_eq := rfl
  inUse := rfl
  room := Nat.zero_le _
  counted _ _ h := by cases h
  known _ _ h := by cases h
  once _ := Nat.zero_le _
  booked _ := rfl
  total := rfl

/-- An item changes, and the budget counts it as before. -/
theorem Budgeted.put (h : Budgeted config d) (hg : d.works.get? g = some work)
    (hsame : work'.counted = work.counted) (hout : work'.counted = work'.outstanding) :
    Budgeted config (d.put g work') where
  config_eq := h.config_eq
  inUse := by
    have hcount := d.works.countWhere_insert (·.counted) g work'
    rw [hg, Option.any_some, hsame] at hcount
    exact h.inUse.trans (Nat.add_right_cancel hcount).symm
  room := h.room
  counted := SortedMap.forall_insert _ h.counted hout
  known := SortedMap.forall_insert _ h.known (h.known g work hg)
  once := h.once
  booked j := by
    have hj := h.booked j
    show _ + (((d.works.insert g work').get? j).any (·.counted)).toNat = _
    rw [SortedMap.get?_insert]
    split_ifs with hjg
    · rw [hjg, hg, Option.any_some] at hj
      rw [hjg, Option.any_some, hsame]
      exact hj
    · exact hj
  total := h.total

/-- An item that was counted is not counted any more. -/
theorem Budgeted.release (h : Budgeted config d) (hg : d.works.get? g = some work)
    (hcounted : work.counted = true) (hnot : work'.counted = false)
    (hout : work'.outstanding = false) : Budgeted config ((d.put g work').release g) := by
  have hcount := d.works.countWhere_insert (·.counted) g work'
  rw [hg, Option.any_some, hcounted, hnot, ← h.inUse] at hcount
  have hone : (d.works.insert g work').countWhere (·.counted) + 1 = d.inUse := hcount
  exact {
    config_eq := h.config_eq
    inUse := by
      show d.inUse - 1 = (d.works.insert g work').countWhere (·.counted)
      omega
    room := (Nat.sub_le _ _).trans h.room
    counted := SortedMap.forall_insert _ h.counted (hnot.trans hout.symm)
    known := SortedMap.forall_insert _ h.known (h.known g work hg)
    once := fun j => by
      show (d.log ++ [BudgetEvent.released g]).count _ ≤ _
      rw [List.count_append]
      exact h.once j
    booked := fun j => by
      have hj := h.booked j
      show (d.log ++ [BudgetEvent.released g]).count _ +
        (((d.works.insert g work').get? j).any (·.counted)).toNat =
          (d.log ++ [BudgetEvent.released g]).count _
      rw [List.count_append, List.count_append, SortedMap.get?_insert]
      split_ifs with hjg
      · subst hjg
        rw [hg, Option.any_some, hcounted] at hj
        simpa [hnot] using hj
      · simpa [Ne.symm hjg] using hj
    total := by
      have htotal := h.total
      show (d.log ++ [BudgetEvent.released g]).countP _ + (d.inUse - 1) =
        (d.log ++ [BudgetEvent.released g]).countP _
      rw [List.countP_append, List.countP_append]
      show d.log.countP _ + 1 + (d.inUse - 1) = d.log.countP _ + 0
      omega }

/-- A new item, which the budget does not count. -/
theorem Budgeted.enter (h : Budgeted config d) (work : RetainedWork)
    (hout : work.counted = work.outstanding) (hnot : work.counted = false) :
    Budgeted config
      ({ d with nextGeneration := d.nextGeneration + 1 }.put (d.nextGeneration + 1) work) ∧
    d.log.count (.counted (d.nextGeneration + 1)) = 0 := by
  set n := d.nextGeneration + 1 with hn
  have hnone : d.works.get? n = none := by
    by_contra hne
    obtain ⟨work, hw⟩ := Option.ne_none_iff_exists'.1 hne
    have := h.known n work hw
    omega
  have hlog : d.log.count (.counted n) = 0 := by
    have := h.once n
    rwa [if_neg (by omega), Nat.le_zero] at this
  have hcount := d.works.countWhere_insert (·.counted) n work
  rw [hnone, hnot] at hcount
  refine ⟨⟨h.config_eq, h.inUse.trans hcount.symm, h.room,
    SortedMap.forall_insert _ h.counted hout,
    SortedMap.forall_insert _ (fun j x hj => (h.known j x hj).trans (Nat.le_succ _)) le_rfl,
    fun j => (h.once j).trans ?_, fun j => ?_, h.total⟩, hlog⟩
  · show _ ≤ if j ≤ n then 1 else 0
    split_ifs <;> omega
  · have hj := h.booked j
    show d.log.count _ + (((d.works.insert n work).get? j).any (·.counted)).toNat = d.log.count _
    rw [SortedMap.get?_insert]
    split_ifs with hjn
    · rw [hjn, hnone] at hj
      rw [hjn, Option.any_some, hnot]
      exact hj
    · exact hj

/-- An item that never was counted is. -/
theorem Budgeted.count (h : Budgeted config d) (hg : d.works.get? g = some work)
    (hnot : work.counted = false) (hlog : d.log.count (.counted g) = 0)
    (hroom : d.inUse < config.retainedCleanup) (work' : RetainedWork)
    (hcounted : work'.counted = true)
    (hout : work'.outstanding = true) (tickets : List ℕ) :
    Budgeted config
      { d with
        inUse := d.inUse + 1, tickets, works := d.works.insert g work'
        log := d.log ++ [.counted g] } where
  config_eq := h.config_eq
  inUse := by
    have hcount := d.works.countWhere_insert (·.counted) g work'
    rw [hg, Option.any_some, hnot, hcounted, ← h.inUse] at hcount
    exact hcount.symm
  room := hroom
  counted := SortedMap.forall_insert _ h.counted (hcounted.trans hout.symm)
  known := SortedMap.forall_insert _ h.known (h.known g work hg)
  once j := by
    rw [List.count_append]
    by_cases hj : g = j
    · subst hj
      simp [hlog, h.known g work hg]
    · simpa [hj] using h.once j
  booked j := by
    have hj := h.booked j
    rw [List.count_append, List.count_append, SortedMap.get?_insert]
    split_ifs with hjg
    · subst hjg
      rw [hg, Option.any_some, hnot] at hj
      simpa [hcounted] using hj
    · simpa [Ne.symm hjg] using hj
  total := by
    have htotal := h.total
    rw [List.countP_append, List.countP_append]
    show d.log.countP _ + 0 + (d.inUse + 1) = d.log.countP _ + 1
    omega

/-- A new item is offered, or refused by the budget. -/
theorem Budgeted.pend (h : Budgeted config d) (adapters : List ℕ) :
    Budgeted config (d.pend adapters) := by
  obtain ⟨henter, hlog⟩ := h.enter ⟨adapters, false, false, .owner⟩ rfl rfl
  unfold CleanupDomain.pend CleanupDomain.retain
  split_ifs with hfull
  · exact henter
  · rw [ge_iff_le, not_le] at hfull
    have hcount := henter.count (SortedMap.get?_insert_self _ _ _) rfl hlog (h.config_eq ▸ hfull)
      ⟨adapters, false, true, .offered⟩ rfl rfl
    simp only [CleanupDomain.put, SortedMap.insert_insert] at hcount
    exact hcount _

/-! ### The calls -/

theorem accept_eq_some {t : CleanupDomain} (hx : d.accept g = some t) : ∃ work,
    d.works.get? g = some work ∧ work.holder = .offered ∧
      t = d.put g { work with holder := .retainer } := by
  unfold accept at hx
  split at hx
  · rename_i work hg
    split_ifs at hx with hoffer
    exact ⟨work, hg, hoffer, (Option.some.inj hx).symm⟩
  · cases hx

theorem Budgeted.accept {t : CleanupDomain} (h : Budgeted config d) (hx : d.accept g = some t) :
    Budgeted config t := by
  obtain ⟨work, hg, hoffer, rfl⟩ := accept_eq_some hx
  refine h.put hg rfl ((h.counted g work hg).trans ?_)
  rw [RetainedWork.outstanding, hoffer]
  rfl

theorem Budgeted.handBack {t : CleanupDomain} (h : Budgeted config d) (hp : d.pending g = true)
    (hx : d.handBack g = some t) : Budgeted config t := by
  unfold CleanupDomain.handBack at hx
  split at hx
  · rename_i work hg
    split_ifs at hx with hretainer
    cases hx
    rw [pending, hg, Option.any_some] at hp
    refine h.release hg ?_ rfl rfl
    rw [h.counted g work hg, RetainedWork.outstanding, hretainer, hp]
    rfl
  · cases hx

theorem Budgeted.pollWork {t : CleanupDomain} {disposed : List ℕ} (h : Budgeted config d)
    (hx : d.pollWork g disposed = some t) : Budgeted config t := by
  obtain ⟨work, hg, rfl⟩ := Option.map_eq_some_iff.1 hx
  have hover : ∀ adapters, RetainedWork.outstanding
      { work with adapters, confirmed := true, counted := false } = false := by
    simp [RetainedWork.outstanding]
  dsimp only
  split_ifs with hdone hcounted
  · exact h.release hg hcounted rfl (hover _)
  · exact h.put hg (Bool.not_eq_true _ ▸ hcounted).symm (hover _).symm
  · exact h.put hg rfl (h.counted g work hg)

theorem Budgeted.step {call : Call} {t : CleanupDomain} (h : Budgeted config d)
    (hs : CarefulStep d call t) : Budgeted config t := by
  obtain ⟨hcheck, hx⟩ := hs
  cases call with
  | pend adapters =>
    cases hx
    exact h.pend adapters
  | accept g => exact h.accept hx
  | refuse g back =>
    obtain ⟨u, hu, hx⟩ := Option.bind_eq_some_iff.1 hx
    refine (h.accept hu).handBack ?_ hx
    -- the ticket of the item that comes back is as it was before the answer
    obtain ⟨work, hg, -, rfl⟩ := accept_eq_some hu
    have hcheck : (d.works.get? back).any (!·.confirmed) = true := hcheck
    show ((d.works.insert g _).get? back).any (!·.confirmed) = true
    rw [SortedMap.get?_insert]
    split_ifs with hback
    · rwa [hback, hg] at hcheck
    · exact hcheck
  | step g disposed => exact h.pollWork hx

/-- The account of a domain after any run in which the retainer hands back no item that was polled
to its end.  The budget counts the items that are with the retainer and not confirmed, and is kept
to.  An item is counted at most once, and one that was counted has been released once if it is over
and not at all while it is outstanding.  As many places were given back as the count has gone down,
so the subtraction has never saturated. -/
theorem budget_exact {tr : List Call} (h : Run CarefulStep (.new config) tr d) :
    d.inUse = d.works.countWhere (·.outstanding) ∧
    d.inUse ≤ config.retainedCleanup ∧
    (∀ g, d.log.count (.counted g) ≤ 1) ∧
    (∀ g work, d.works.get? g = some work → .counted g ∈ d.log →
      d.log.count (.released g) = if work.outstanding then 0 else 1) ∧
    d.log.countP (·.isReleased) + d.inUse = d.log.countP (!·.isReleased) := by
  have hb : Budgeted config d := h.invariant (P := fun _ => Budgeted config) (budgeted_new config)
    fun _ _ _ _ _ hb hs => hb.step hs
  have honce : ∀ g, d.log.count (.counted g) ≤ 1 := fun g =>
    (hb.once g).trans (by split_ifs <;> decide)
  refine ⟨hb.inUse.trans ?_, hb.room, honce, fun g work hg hin => ?_, hb.total⟩
  · refine List.countP_congr fun x hx => ?_
    exact Bool.eq_iff_iff.1 (hb.counted x.1 x.2 ((SortedMap.mem_toList _).1 hx))
  · have hbook := hb.booked g
    have hpos := List.count_pos_iff.2 hin
    have hle := honce g
    rw [hg, Option.any_some, hb.counted g work hg] at hbook
    split_ifs with hout
    · rw [hout, Bool.toNat_true] at hbook
      omega
    · rw [Bool.not_eq_true] at hout
      rw [hout, Bool.toNat_false] at hbook
      omega

/-- A budget of one: the first item fills it, the second is refused, and the place of the first is
given back when its adapter is disposed of. -/
theorem budget_exact_single : ∃ tr d, Run CarefulStep (.new { retainedCleanup := 1 }) tr d ∧
    d.inUse ≤ 1 ∧ d.log.count (.released 1) = 1 ∧ d.inUse = d.works.countWhere (·.outstanding) := by
  have hplay : (replay call handsBackUnfinished (.new { retainedCleanup := 1 })
      [.pend [7], .step 1 [], .accept 1, .pend [8], .step 1 [7]]).any (fun d =>
        (d.works.get? 1).any (!·.outstanding) && d.log.contains (.counted 1)) = true := by
    decide +kernel
  obtain ⟨d, hd, hcheck⟩ := (Option.any_eq_true _ _).1 hplay
  simp only [Bool.and_eq_true, Option.any_eq_true, List.contains_iff_mem] at hcheck
  obtain ⟨⟨work, hg, hout⟩, hin⟩ := hcheck
  have hrun := run_replay hd
  obtain ⟨hcount, hroom, -, hback, -⟩ := budget_exact hrun
  refine ⟨_, d, hrun, hroom, ?_, hcount⟩
  rw [hback 1 work hg hin, if_neg (by simpa using hout)]

/-- A retainer that polls an item to its end and then refuses it: the place of the item is given
back twice.  The second time it is the place of another item, so that in the end three items are
outstanding in a budget of two, and the domain counts two. -/
theorem refused_after_end : ∃ tr d, Run Step (.new { retainedCleanup := 2 }) tr d ∧
    d.log.count (.released 2) = 2 ∧ d.works.countWhere (·.outstanding) = 3 ∧ d.inUse = 2 := by
  have hplay : (replay call (fun _ _ => true) (.new { retainedCleanup := 2 })
      [.pend [7], .accept 1, .pend [8], .step 2 [8], .refuse 2 2, .pend [9], .accept 3, .pend [10],
        .accept 4]).any (fun d => d.log.count (.released 2) == 2 &&
          d.works.countWhere (·.outstanding) == 3 && d.inUse == 2) = true := by
    decide +kernel
  obtain ⟨d, hd, hcheck⟩ := (Option.any_eq_true _ _).1 hplay
  simp only [Bool.and_eq_true, beq_iff_eq] at hcheck
  exact ⟨_, d, (run_replay hd).mono fun _ _ _ hs => hs.2, hcheck.1.1, hcheck.1.2, hcheck.2⟩

end CleanupDomain

end GwzTransport.Connection
