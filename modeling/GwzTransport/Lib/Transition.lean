import Mathlib.Tactic

/-!
# Labelled transition systems and their finite runs

A system is a relation `Step : σ → ι → σ → Prop` that says which labelled steps a state can
take.  `Run Step s tr t` is a finite run from `s` to `t` whose labels, oldest first, are `tr`.
Runs grow at the end, so an induction on a run sees the last step and a history of everything
before it.

* `Run.append`, `Run.cons`, `Run.uncons`, `Run.split`: runs compose and come apart;
* `Run.invariant`: a property of the state and of the history that holds at the start and is
  kept by every step holds after every run;
* `Run.unique`: where steps are determined by their labels, so are runs;
* `replay`: a computed run, `run_replay`: it is a run;
* `Run.simulate`: a step-wise relation to another system carries whole runs over.
-/

namespace Transition

variable {σ ι τ κ : Type*}

/-- A finite run with its labels, oldest first. -/
inductive Run (Step : σ → ι → σ → Prop) (s : σ) : List ι → σ → Prop
  | nil : Run Step s [] s
  | snoc {tr : List ι} {t u : σ} {l : ι} :
      Run Step s tr t → Step t l u → Run Step s (tr ++ [l]) u

variable {Step : σ → ι → σ → Prop} {s t u : σ} {tr tr' : List ι}

theorem Run.append (h : Run Step s tr t) (h' : Run Step t tr' u) : Run Step s (tr ++ tr') u := by
  induction h' with
  | nil => simpa using h
  | snoc _ hs ih =>
    rw [← List.append_assoc]
    exact ih.snoc hs

theorem Run.single {l : ι} (h : Step s l t) : Run Step s [l] t := by
  simpa using Run.nil.snoc h

theorem Run.cons {l : ι} (h : Step s l t) (h' : Run Step t tr u) : Run Step s (l :: tr) u := by
  simpa using (Run.single h).append h'

theorem Run.eq_of_nil (h : Run Step s [] t) : t = s := by
  generalize hl : ([] : List ι) = tr at h
  cases h with
  | nil => rfl
  | snoc => simp at hl

/-- The first step of a run. -/
theorem Run.uncons {l : ι} (h : Run Step s (l :: tr) u) :
    ∃ t, Step s l t ∧ Run Step t tr u := by
  generalize hl : l :: tr = ls at h
  induction h generalizing tr with
  | nil => cases hl
  | @snoc ls v u l' hr hs ih =>
    cases ls with
    | nil =>
      obtain ⟨rfl, rfl⟩ : l = l' ∧ tr = [] := by simpa using hl
      exact ⟨u, hr.eq_of_nil ▸ hs, .nil⟩
    | cons a ls =>
      obtain ⟨rfl, rfl⟩ : l = a ∧ tr = ls ++ [l'] := by simpa using hl
      obtain ⟨t, ht, hrest⟩ := ih rfl
      exact ⟨t, ht, hrest.snoc hs⟩

/-- A run passes through a state after any part of its labels. -/
theorem Run.split (h : Run Step s (tr ++ tr') u) : ∃ t, Run Step s tr t ∧ Run Step t tr' u := by
  induction tr generalizing s with
  | nil => exact ⟨s, .nil, h⟩
  | cons l tr ih =>
    obtain ⟨v, hs, hr⟩ := h.uncons
    obtain ⟨t, ht, hu⟩ := ih hr
    exact ⟨t, .cons hs ht, hu⟩

theorem Run.step_of_single {l : ι} (h : Run Step s [l] t) : Step s l t := by
  obtain ⟨v, hs, hr⟩ := h.uncons
  rwa [hr.eq_of_nil]

/-- The invariant rule, with the history as part of the invariant. -/
theorem Run.invariant {P : List ι → σ → Prop} (h0 : P [] s)
    (hs : ∀ tr t l u, Run Step s tr t → P tr t → Step t l u → P (tr ++ [l]) u)
    (h : Run Step s tr t) : P tr t := by
  induction h with
  | nil => exact h0
  | snoc hr hl ih => exact hs _ _ _ _ hr ih hl

/-- What holds of the label of every step holds of all labels of a run. -/
theorem Run.forall_labels {Q : ι → Prop} (hs : ∀ t l u, Step t l u → Q l) (h : Run Step s tr t) :
    ∀ l ∈ tr, Q l := by
  induction h with
  | nil => exact fun l hl => (by cases hl)
  | snoc _ hl ih =>
    intro l hmem
    rcases List.mem_append.1 hmem with hmem | hmem
    · exact ih l hmem
    · exact List.mem_singleton.1 hmem ▸ hs _ _ _ hl

/-- A system whose steps are all steps of another has all its runs there. -/
theorem Run.mono {Step' : σ → ι → σ → Prop} (hs : ∀ t l u, Step t l u → Step' t l u)
    (h : Run Step s tr t) : Run Step' s tr t := by
  induction h with
  | nil => exact .nil
  | snoc _ hl ih => exact ih.snoc (hs _ _ _ hl)

/-- Where a step is determined by its label, a run is determined by its labels. -/
theorem Run.unique (hs : ∀ t l u v, Step t l u → Step t l v → u = v) (h : Run Step s tr t)
    (h' : Run Step s tr u) : t = u := by
  induction h generalizing u with
  | nil => exact h'.eq_of_nil.symm
  | snoc _ hl ih =>
    obtain ⟨v, hv, hu⟩ := h'.split
    obtain rfl := ih hv
    exact hs _ _ _ _ hl hu.step_of_single

/-- A view of the state under which every step is a run of another system: whole runs carry
over, and `obs` says which labels of the other system a label stands for. -/
theorem Run.simulate {Step' : τ → κ → τ → Prop} (view : σ → τ) (obs : ι → List κ)
    (hs : ∀ t l u, Step t l u → Run Step' (view t) (obs l) (view u))
    (h : Run Step s tr t) : Run Step' (view s) (tr.flatMap obs) (view t) := by
  induction h with
  | nil => exact .nil
  | snoc _ hl ih =>
    rw [List.flatMap_append]
    simpa using ih.append (hs _ _ _ hl)

/-- The states that a list of labels leads through, where steps are computed and each has to pass a
check. -/
def replay (step : σ → ι → Option σ) (check : σ → ι → Bool) (s : σ) : List ι → Option σ
  | [] => some s
  | l :: ls => if check s l then (step s l).bind fun t => replay step check t ls else none

theorem run_replay {step : σ → ι → Option σ} {check : σ → ι → Bool} {ls : List ι}
    (h : replay step check s ls = some t) :
    Run (fun s l t => check s l = true ∧ step s l = some t) s ls t := by
  induction ls generalizing s with
  | nil =>
    cases h
    exact .nil
  | cons l ls ih =>
    unfold replay at h
    split_ifs at h with hcheck
    obtain ⟨v, hv, h⟩ := Option.bind_eq_some_iff.1 h
    exact .cons ⟨hcheck, hv⟩ (ih h)

end Transition
