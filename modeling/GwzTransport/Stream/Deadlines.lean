import GwzTransport.Stream.Budgets
import GwzTransport.Stream.Revision

/-!
# The deadlines of a stream

`next_deadline` is the least of three: the time at which the budget of the I/O state is used up, the
time at which a batch is sent, and the time at which a close is given up.  `advance` acts on each of
them under a guard of its own.

* `punctual_of_run`: in a live machine the first and the third lie ahead;
* `deadlines_exact`: nothing happens before `next_deadline`, and something does at it.

A deadline that does not fit a `u64` is clipped, so at the last time a clock can show a deadline may
be the present (`deadline_at_end`).
-/

namespace GwzTransport.Stream

open Protocol MachineInt Transition

theorem Config.closeTimeout_of_validate {k : Config} (h : k.validate = .ok ()) :
    0 < k.closeTimeoutMs := by
  unfold validate at h
  split_ifs at h with hlimits hrange hprobe
  unfold outOfRange at hrange
  simp only [decide_eq_true_eq, not_or, not_lt] at hrange
  omega

theorem punctual_of_run {k : Config} {tr : List Event} {m₀ m : StreamMachine}
    (h₀ : StreamMachine.new k = .ok m₀) (h : Run Step m₀ tr m) : Punctual m := by
  obtain ⟨hk, rfl⟩ := StreamMachine.new_eq_ok h₀
  refine (h.invariant (P := fun _ m => Punctual m ∧ m.config = k) ⟨⟨?_, ?_⟩, rfl⟩ ?_).1
  · exact fun _ => ahead_none _
  · exact fun _ => ahead_none _
  · intro tr₁ m₁ e m₂ _ hm hstep
    refine ⟨?_, (hstep.move.config_eq).trans hm.2⟩
    have hpos : 0 < m₁.config.closeTimeoutMs := by
      rw [hm.2]
      exact Config.closeTimeout_of_validate hk
    have hnext := (m₁.turn_step e.1).timely hpos hm.1
    rwa [show m₁.step e.1 = (m₂, e.2) from hstep] at hnext

/-! ### The batch -/

/-- The batch has a deadline only while something is buffered. -/
def Core.Batched (c : Core) : Prop := c.batchDeadline ≠ none → c.send ≠ []

namespace Core.Batched

variable {c c' : Core}

theorem of_none (h : c.batchDeadline = none) : c.Batched := fun hne => absurd h hne

theorem after (h : c.Batched) (b : Body) : (c.after b).Batched := by
  cases b with
  | closed x =>
    cases hf : x.failure with
    | none =>
      rw [c.after_closed_done hf]
      exact h
    | some failure =>
      rw [c.after_closed_failed hf]
      exact of_none rfl
  | cancel x => exact of_none rfl
  | failed f => exact of_none rfl
  | data d => exact h
  | window w => exact h
  | flush b => exact h
  | flushed b => exact h
  | endWrite e => exact h
  | close x => exact h

theorem move {e : Event} (h : c.Batched) (hmove : Move c e c') : c'.Batched := by
  cases hmove with
  | @write input n hl hend hflush hpos hn hroom hrange =>
    intro _ hnil
    have htake := (List.append_eq_nil_iff.1 hnil).2
    have hlength : (input.take n).length = n := by rw [List.length_take]; omega
    rw [htake] at hlength
    exact absurd hlength.symm hpos.ne'
  | sendData =>
    intro hne hnil
    exact hne (if_pos hnil)
  | overflow => exact of_none rfl
  | fail => exact of_none rfl
  | failTerminal => exact of_none rfl
  | disconnect => exact of_none rfl
  | expire => exact of_none rfl
  | refuse => exact of_none rfl
  | take _ _ => exact h.after _
  | _ => exact h

end Core.Batched

theorem batched_of_run {k : Config} {tr : List Event} {m₀ m : StreamMachine}
    (h₀ : StreamMachine.new k = .ok m₀) (h : Run Step m₀ tr m) : m.core.Batched := by
  obtain ⟨-, rfl⟩ := StreamMachine.new_eq_ok h₀
  exact h.invariant (P := fun _ m => m.core.Batched) (fun hne => absurd rfl hne)
    fun _ _ _ _ _ hm hstep => hm.move hstep.move

/-! ### The next deadline -/

/-- The deadlines that `next_deadline` chooses from: a batch counts until it is due. -/
def StreamMachine.Timer (m : StreamMachine) (t : ℕ) : Prop :=
  m.io.deadline = some t ∨ (m.batchDeadline = some t ∧ m.now < t ∧ m.forceSend = false) ∨
    m.closeDeadline = some t

namespace StreamMachine

variable {m : StreamMachine}

theorem mem_timers {t : ℕ} :
    t ∈ [m.io.deadline, m.batchDeadline.filter fun deadline =>
        decide (deadline > m.now) && !m.forceSend, m.closeDeadline].filterMap id ↔ m.Timer t := by
  simp only [List.mem_filterMap, List.mem_cons, List.not_mem_nil, or_false, id, Timer]
  constructor
  · rintro ⟨_, rfl | rfl | rfl, h⟩
    · exact .inl h
    · obtain ⟨hb, h⟩ := Option.filter_eq_some_iff.1 h
      exact .inr (.inl ⟨hb, by simpa using h⟩)
    · exact .inr (.inr h)
  · rintro (h | ⟨hb, hnow, hforce⟩ | h)
    · exact ⟨_, .inl rfl, h⟩
    · exact ⟨_, .inr (.inl rfl), Option.filter_eq_some_iff.2 ⟨hb, by simp [hnow, hforce]⟩⟩
    · exact ⟨_, .inr (.inr rfl), h⟩

theorem nextDeadline_eq_some (hl : m.core.Live) {d : ℕ} :
    m.nextDeadline = some d ↔ m.Timer d ∧ ∀ t, m.Timer t → d ≤ t := by
  have hover : ¬ (m.error.isSome || m.completed.isSome) = true := fun h => m.not_live_of_over h hl
  unfold nextDeadline
  rw [if_neg hover]
  dsimp only
  rw [List.min?_eq_some_iff]
  simp only [mem_timers]

theorem nextDeadline_le (hl : m.core.Live) {t : ℕ} (ht : m.Timer t) :
    ∃ d, m.nextDeadline = some d ∧ d ≤ t := by
  have hover : ¬ (m.error.isSome || m.completed.isSome) = true := fun h => m.not_live_of_over h hl
  cases hd : m.nextDeadline with
  | some d => exact ⟨d, rfl, ((nextDeadline_eq_some hl).1 hd).2 t ht⟩
  | none =>
    unfold nextDeadline at hd
    rw [if_neg hover] at hd
    dsimp only at hd
    rw [List.min?_eq_none_iff] at hd
    exact absurd (mem_timers.2 ht) (by rw [hd]; exact List.not_mem_nil)

/-- Whether a budget is used up at a time. -/
theorem expired_iff {t : ℕ} : { m with now := t }.expired = true ↔
    ∃ d, (m.io.deadline = some d ∨ m.closeDeadline = some d) ∧ d ≤ t := by
  simp only [expired, IoClock.due, Bool.or_eq_true, Option.any_eq_true, decide_eq_true_eq]
  constructor
  · rintro (⟨d, hd, h⟩ | ⟨d, hd, h⟩)
    · exact ⟨d, .inr hd, h⟩
    · exact ⟨d, .inl hd, h⟩
  · rintro ⟨d, hd | hd, h⟩
    · exact .inr ⟨d, hd, h⟩
    · exact .inl ⟨d, hd, h⟩

/-- Time that uses up no budget moves only the clock. -/
theorem advance_of_not_expired (hl : m.core.Live) {t : ℕ} (ht : m.now ≤ t)
    (h : { m with now := t }.expired = false) :
    ∃ r, m.advance t = { m with now := t, revision := r } := by
  rcases m.advance_cases t with ⟨hlt, -⟩ | ⟨-, hdead, -⟩ | ⟨-, -, h'⟩
  · exact absurd ht (not_le.2 hlt)
  · exact absurd hl hdead
  · rcases h' with ⟨hexpired, -⟩ | ⟨-, heq | heq⟩
    · exact absurd (h.symm.trans hexpired) Bool.false_ne_true
    · exact ⟨m.revision, heq⟩
    · exact ⟨_, heq⟩

theorem advance_of_expired (hl : m.core.Live) {t : ℕ} (ht : m.now ≤ t)
    (h : { m with now := t }.expired = true) : (m.advance t).error = some .timeout := by
  rcases m.advance_cases t with ⟨hlt, -⟩ | ⟨-, hdead, -⟩ | ⟨-, -, h'⟩
  · exact absurd ht (not_le.2 hlt)
  · exact absurd hl hdead
  · rcases h' with ⟨-, heq⟩ | ⟨hnot, -⟩
    · have hlate : (StreamMachine.core { m with now := t }).Live := hl
      have hcore := congrArg Core.error (core_fail_true hlate .timeout)
      rw [heq]
      exact hcore
    · exact absurd (hnot.symm.trans h) Bool.false_ne_true

end StreamMachine

/-- The deadlines of a stream are exact.  In every state that is reached and has neither failed nor
completed:

* the next deadline lies ahead, or it is the last time the clock can show and the clock shows it;
* before it `advance` changes nothing but the clock and the wake counter;
* at it the stream fails with `Timeout`, or what it has buffered becomes due for sending. -/
theorem deadlines_exact {k : Config} {tr : List Event} {m₀ m : StreamMachine}
    (h₀ : StreamMachine.new k = .ok m₀) (h : Run Step m₀ tr m) (hclock : m.now ≤ u64Max)
    (herror : m.error = none) (hcompleted : m.completed = none) :
    (∀ d, m.nextDeadline = some d → m.now < d ∨ m.now = u64Max ∧ d = u64Max) ∧
    (∀ t, m.now ≤ t → (∀ d, m.nextDeadline = some d → t < d) →
      ∃ r, m.advance t = { m with now := t, revision := r }) ∧
    (∀ d, m.nextDeadline = some d → (m.advance d).error = some .timeout ∨
      m.batchDeadline = some d ∧ m.now < d ∧ m.send ≠ [] ∧ (m.advance d).eligible = true ∧
        ∃ r, m.advance d = { m with now := d, revision := r }) := by
  have hl : m.core.Live := ⟨herror, hcompleted⟩
  have hpunctual := punctual_of_run h₀ h
  have hahead : ∀ d, m.nextDeadline = some d → m.now < d ∨ m.now = u64Max ∧ d = u64Max := by
    intro d hd
    have hclipped : m.now < d ∨ d = u64Max := by
      rcases ((StreamMachine.nextDeadline_eq_some hl).1 hd).1 with hio | ⟨-, hlt, -⟩ | hclose
      · exact hpunctual.io hl d hio
      · exact .inl hlt
      · exact hpunctual.close hl d hclose
    omega
  refine ⟨hahead, fun t ht hbefore => ?_, fun d hd => ?_⟩
  · refine StreamMachine.advance_of_not_expired hl ht ?_
    rw [← Bool.not_eq_true, StreamMachine.expired_iff]
    rintro ⟨d, hd, hle⟩
    obtain ⟨d', hd', hle'⟩ := StreamMachine.nextDeadline_le hl (t := d) (hd.imp_right .inr)
    have hlt := hbefore d' hd'
    omega
  · have hnow : m.now ≤ d := by
      rcases hahead d hd with hlt | ⟨hlast, rfl⟩
      · exact hlt.le
      · exact hlast.le
    cases hexpired : StreamMachine.expired { m with now := d } with
    | true => exact .inl (StreamMachine.advance_of_expired hl hnow hexpired)
    | false =>
      obtain ⟨r, hr⟩ := StreamMachine.advance_of_not_expired hl hnow hexpired
      have hnot : ¬ StreamMachine.expired { m with now := d } = true := by
        rw [hexpired]
        exact Bool.false_ne_true
      rw [StreamMachine.expired_iff] at hnot
      rcases ((StreamMachine.nextDeadline_eq_some hl).1 hd).1 with hio | ⟨hbatch, hlt, -⟩ | hclose
      · exact absurd ⟨d, .inl hio, le_rfl⟩ hnot
      · have hsend : m.send ≠ [] := batched_of_run h₀ h fun hnone =>
          Option.some_ne_none d (hbatch.symm.trans hnone)
        refine .inr ⟨hbatch, hlt, hsend, ?_, r, hr⟩
        rw [hr]
        simp [StreamMachine.eligible, hbatch]
      · exact absurd ⟨d, .inr hclose, le_rfl⟩ hnot

/-- A buffered byte is due for sending when the delay is over. -/
theorem deadlines_exact_batch :
    let m := ((StreamMachine.initial (Config.small .initiator)).exec [.call (.write [7])]).1
    m.nextDeadline = some 100 ∧ (m.advance 100).eligible = true := by
  have hrun := StreamMachine.run_exec (.initial (Config.small .initiator)) [.call (.write [7])]
  have hexact := deadlines_exact
    (StreamMachine.new_of_validate (Config.small_validate .initiator)) hrun
    (by decide +kernel) (by decide +kernel) (by decide +kernel)
  have hd : ((StreamMachine.initial (Config.small .initiator)).exec
      [.call (.write [7])]).1.nextDeadline = some 100 := by decide +kernel
  refine ⟨hd, ?_⟩
  rcases hexact.2.2 100 hd with herror | hbatch
  · exact absurd herror (by decide +kernel)
  · exact hbatch.2.2.2.1

/-- A close that begins at the last time the clock can show is at its deadline already. -/
theorem deadline_at_end :
    let m := ((StreamMachine.initial (Config.small .initiator)).exec
      [.call (.advance u64Max), .call .startClose]).1
    m.error = none ∧ m.completed = none ∧ m.now = u64Max ∧ m.nextDeadline = some m.now := by
  decide +kernel

end GwzTransport.Stream
