import Mathlib.Data.List.ReduceOption
import GwzTransport.Lib.Transition

/-!
# Partial operations over a transition system

An operation of a program is a partial function on its states: `none` stands for a failure such
as a panic.  Seen from a system of small labelled steps, what it does is a run of which only the
visible labels count.

* `Weak`: runs up to silent steps, and how they compose;
* `Guard`: an invariant of every step, with a property under which no operation may fail;
* `Guard.Does`: an operation fails in no safe state and otherwise makes such a run; its rules for
  sequencing and for loops over lists.
-/

namespace Transition

variable {σ κ ι : Type*}

/-- A run of which only the visible labels are kept. -/
def Weak (Step : σ → Option κ → σ → Prop) (s : σ) (evs : List κ) (t : σ) : Prop :=
  ∃ tr, Run Step s tr t ∧ tr.reduceOption = evs

section Weak

variable {Step : σ → Option κ → σ → Prop} {s t u : σ} {evs evs' : List κ}

theorem Weak.refl (s : σ) : Weak Step s [] s := ⟨[], .nil, rfl⟩

theorem Weak.silent (h : Step s none t) : Weak Step s [] t := ⟨[none], .single h, rfl⟩

theorem Weak.visible {k : κ} (h : Step s (some k) t) : Weak Step s [k] t :=
  ⟨[some k], .single h, rfl⟩

theorem Weak.trans (h : Weak Step s evs t) (h' : Weak Step t evs' u) :
    Weak Step s (evs ++ evs') u := by
  obtain ⟨tr, hr, rfl⟩ := h
  obtain ⟨tr', hr', rfl⟩ := h'
  exact ⟨tr ++ tr', hr.append hr', List.reduceOption_append tr tr'⟩

/-- A property of the state and of the visible history that every step keeps. -/
theorem Weak.follow {P : List κ → σ → Prop} (hist : List κ) (h : Weak Step s evs t)
    (hs : ∀ hist t l u, P hist t → Step t l u → P (hist ++ l.toList) u) (h0 : P hist s) :
    P (hist ++ evs) t := by
  obtain ⟨tr, hr, rfl⟩ := h
  induction hr with
  | nil => simpa using h0
  | @snoc tr t u l _ hl ih =>
    have hred : (tr ++ [l]).reduceOption = tr.reduceOption ++ l.toList := by
      cases l <;> simp [List.reduceOption_append, List.reduceOption_cons_of_some]
    rw [hred, ← List.append_assoc]
    exact hs _ _ _ _ ih hl

/-- A property of the state that every step with labels of a kind keeps. -/
theorem Weak.invariant {P : σ → Prop} {A : κ → Prop} (h : Weak Step s evs t)
    (hs : ∀ t l u, (∀ k ∈ l, A k) → P t → Step t l u → P u) (hA : ∀ k ∈ evs, A k) (h0 : P s) :
    P t := by
  have key := h.follow [] (P := fun hist t => (∀ k ∈ hist, A k) → P t)
    (fun hist t l u ih hl hA => by
      refine hs t l u (fun k hk => hA k ?_) (ih fun k hk => hA k (List.mem_append_left _ hk)) hl
      exact List.mem_append_right _ (Option.mem_toList.2 hk))
    fun _ => h0
  exact key hA

/-- A view of the state that turns every step into a run of another system, with some of the
labels left out. -/
theorem Weak.project {τ : Type*} {Step' : τ → Option κ → τ → Prop} (view : σ → τ) (keep : κ → Bool)
    (h : Weak Step s evs t)
    (hs : ∀ t l u, Step t l u → Weak Step' (view t) (l.toList.filter keep) (view u)) :
    Weak Step' (view s) (evs.filter keep) (view t) := by
  refine h.follow [] (P := fun hist u => Weak Step' (view s) (hist.filter keep) (view u))
    (fun hist t l u ih hl => ?_) (.refl _)
  rw [List.filter_append]
  exact ih.trans (hs t l u hl)

/-- A run that shows one label makes one visible step. -/
theorem Weak.split_singleton {k : κ} (h : Weak Step s [k] t) :
    ∃ u v, Weak Step s [] u ∧ Step u (some k) v ∧ Weak Step v [] t := by
  obtain ⟨tr, hr, htr⟩ := h
  induction hr with
  | nil => cases htr
  | @snoc tr u v l hr hl ih =>
    rw [List.reduceOption_append] at htr
    cases l with
    | none =>
      obtain ⟨x, y, hx, hxy, hy⟩ := ih (by simpa using htr)
      exact ⟨x, y, hx, hxy, by simpa using hy.trans (.silent hl)⟩
    | some k' =>
      have hone : tr.reduceOption ++ [k'] = [] ++ [k] := by simpa using htr
      obtain ⟨hnil, hk⟩ := List.append_inj' hone rfl
      cases hk
      exact ⟨u, v, ⟨tr, hr, hnil⟩, hl, .refl v⟩

end Weak

/-- What the operations of a program rely on: an invariant of all steps, and a property that
rules out failures and that steps with mild labels keep. -/
structure Guard (Step : σ → Option κ → σ → Prop) where
  Inv : σ → Prop
  Safe : σ → Prop
  Mild : κ → Prop
  inv_step : ∀ {s l t}, Inv s → Step s l t → Inv t
  safe_step : ∀ {s l t}, Inv s → Safe s → (∀ k ∈ l, Mild k) → Step s l t → Safe t

namespace Guard

variable {Step : σ → Option κ → σ → Prop} {g : Guard Step}

theorem inv_weak {s t : σ} {evs : List κ} (h : Weak Step s evs t) (hi : g.Inv s) : g.Inv t :=
  h.invariant (A := fun _ => True) (fun _ _ _ _ hi hl => g.inv_step hi hl) (by simp) hi

theorem safe_weak {s t : σ} {evs : List κ} (h : Weak Step s evs t) (hi : g.Inv s)
    (hm : ∀ k ∈ evs, g.Mild k) (hs : g.Safe s) : g.Safe t :=
  (h.invariant (P := fun t => g.Inv t ∧ g.Safe t)
    (fun _ _ _ hA hp hl => ⟨g.inv_step hp.1 hl, g.safe_step hp.1 hp.2 hA hl⟩) hm ⟨hi, hs⟩).2

variable (g) in
/-- The operation's result `x` from `s`: no failure if `s` is safe, and otherwise a run with the
visible labels `evs` to a state with `Q`. -/
def Does (s : σ) (evs : List κ) (x : Option σ) (Q : σ → Prop) : Prop :=
  (x = none → ¬ g.Safe s) ∧ ∀ t, x = some t → Weak Step s evs t ∧ Q t

namespace Does

variable {s t : σ} {evs evs' : List κ} {x : Option σ} {Q R : σ → Prop}

theorem of_weak (h : Weak Step s evs t) (hq : Q t) : g.Does s evs (some t) Q :=
  ⟨nofun, by rintro _ ⟨⟩; exact ⟨h, hq⟩⟩

theorem stay (h : Q s) : g.Does s [] (some s) Q := of_weak (.refl s) h

theorem step (h : Step s none t) (hq : Q t) : g.Does s [] (some t) Q := of_weak (.silent h) hq

theorem fails (h : ¬ g.Safe s) : g.Does s evs none Q := ⟨fun _ => h, nofun⟩

theorem mono (h : g.Does s evs x Q) (hq : ∀ t, Q t → R t) : g.Does s evs x R :=
  ⟨h.1, fun t ht => ⟨(h.2 t ht).1, hq t (h.2 t ht).2⟩⟩

/-- The run itself as part of what is known of the result. -/
theorem traced (h : g.Does s evs x Q) : g.Does s evs x fun t => Weak Step s evs t ∧ Q t :=
  ⟨h.1, fun t ht => ⟨(h.2 t ht).1, h.2 t ht⟩⟩

/-- What the result is, as part of what is known of it. -/
theorem result (h : g.Does s evs x Q) : g.Does s evs x fun t => x = some t ∧ Q t :=
  ⟨h.1, fun t ht => ⟨(h.2 t ht).1, ht, (h.2 t ht).2⟩⟩

/-- The result keeps the invariant. -/
theorem of_inv (hi : g.Inv s) (h : g.Does s evs x Q) : g.Does s evs x fun t => g.Inv t ∧ Q t :=
  ⟨h.1, fun t ht => ⟨(h.2 t ht).1, inv_weak (h.2 t ht).1 hi, (h.2 t ht).2⟩⟩

/-- What is done without any failure is done under every guard. -/
theorem of_total {g' : Guard Step} (h : g'.Does s evs x Q) (hs : ∀ s, g.Safe s → g'.Safe s) :
    g.Does s evs x Q :=
  ⟨fun hx hsafe => h.1 hx (hs s hsafe), h.2⟩

/-- An operation after a run that shows only mild labels. -/
theorem after (hi : g.Inv s) (hm : ∀ k ∈ evs, g.Mild k) (hw : Weak Step s evs t)
    (h : g.Does t evs' x Q) : g.Does s (evs ++ evs') x Q := by
  constructor
  · intro hx hs
    exact h.1 hx (safe_weak hw hi hm hs)
  · intro u hu
    exact ⟨hw.trans (h.2 u hu).1, (h.2 u hu).2⟩

/-- An operation after a run that shows nothing. -/
theorem after_silent (hi : g.Inv s) (hw : Weak Step s [] t) (h : g.Does t evs x Q) :
    g.Does s evs x Q := h.after hi (by simp) hw

/-- Sequencing. -/
theorem seq {f : σ → Option σ} (hi : g.Inv s) (hm : ∀ k ∈ evs, g.Mild k) (hx : g.Does s evs x Q)
    (hf : ∀ t, g.Inv t → Q t → g.Does t evs' (f t) R) :
    g.Does s (evs ++ evs') (x.bind f) R := by
  cases x with
  | none => exact fails (hx.1 rfl)
  | some t =>
    obtain ⟨hw, hq⟩ := hx.2 t rfl
    exact (hf t (inv_weak hw hi) hq).after hi hm hw

/-- Sequencing after an operation that shows nothing. -/
theorem bind {f : σ → Option σ} (hi : g.Inv s) (hx : g.Does s [] x Q)
    (hf : ∀ t, g.Inv t → Q t → g.Does t evs (f t) R) : g.Does s evs (x.bind f) R :=
  seq hi (by simp) hx hf

/-- A total operation after another one. -/
theorem map {f : σ → σ} (hi : g.Inv s) (hx : g.Does s evs x Q)
    (hf : ∀ t, g.Inv t → Q t → Weak Step t [] (f t) ∧ R (f t)) :
    g.Does s evs (x.map f) R := by
  cases x with
  | none => exact fails (hx.1 rfl)
  | some t =>
    obtain ⟨hw, hq⟩ := hx.2 t rfl
    obtain ⟨hw', hr⟩ := hf t (inv_weak hw hi) hq
    exact of_weak (by simpa using hw.trans hw') hr

/-- A loop over a list, with an invariant that also speaks of what is left of the list. -/
theorem foldlM {f : σ → ι → Option σ} {I : List ι → σ → Prop}
    (hf : ∀ i l t, g.Inv t → I (i :: l) t → g.Does t [] (f t i) (I l)) :
    ∀ (l : List ι) (s : σ), g.Inv s → I l s → g.Does s [] (l.foldlM f s) (I []) := by
  intro l
  induction l with
  | nil => exact fun s _ h => stay h
  | cons i l ih =>
    intro s hi h
    exact bind hi (hf i l s hi h) ih

end Does

end Guard

end Transition
