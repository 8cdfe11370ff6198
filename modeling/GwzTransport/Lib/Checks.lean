import Mathlib.Tactic

/-!
# Sequences of checks

A function that may refuse returns in `Except`, and its checks run one after the other.  That it
returns `ok` says that each check passed.
-/

namespace Checks

universe u v

variable {ε δ : Type u} {α β : Type v}

theorem bind_eq_ok {x : Except ε α} {f : α → Except ε β} {b : β} :
    x >>= f = .ok b ↔ ∃ a, x = .ok a ∧ f a = .ok b := by
  cases x with
  | error e => exact ⟨fun h => (by cases h), fun ⟨a, h, _⟩ => (by cases h)⟩
  | ok a =>
    constructor
    · exact fun h => ⟨a, rfl, h⟩
    · rintro ⟨a', h, hf⟩
      cases h
      exact hf

/-- An error is the first one met. -/
theorem bind_eq_error {x : Except ε α} {f : α → Except ε β} {e : ε} :
    x >>= f = .error e ↔ x = .error e ∨ ∃ a, x = .ok a ∧ f a = .error e := by
  cases x with
  | error e' =>
    constructor
    · exact fun h => .inl (congrArg _ (Except.error.inj h))
    · rintro (h | ⟨a, h, -⟩)
      · exact congrArg _ (Except.error.inj h)
      · cases h
  | ok a =>
    constructor
    · exact fun h => .inr ⟨a, rfl, h⟩
    · rintro (h | ⟨a', h, hf⟩)
      · cases h
      · cases h
        exact hf

/-- One check: pass, or end with an error. -/
def refuseIf (bad : Bool) (e : ε) : Except ε Unit := if bad then .error e else .ok ()

theorem refuseIf_eq_ok {bad : Bool} {e : ε} {u : Unit} :
    refuseIf bad e = .ok u ↔ bad = false := by
  cases bad with
  | false => exact ⟨fun _ => rfl, fun _ => rfl⟩
  | true => exact ⟨fun h => (by cases h), fun h => (by cases h)⟩

theorem eq_of_refuseIf_eq_error {bad : Bool} {e e' : ε} (h : refuseIf bad e = .error e') :
    e' = e := by
  cases bad with
  | false => cases h
  | true => exact (Except.error.inj h).symm

/-- A result whose error is replaced by another (`map_err`). -/
def orError (e : δ) : Except ε α → Except δ α
  | .ok a => .ok a
  | .error _ => .error e

theorem orError_eq_ok {e : δ} {x : Except ε α} {a : α} : orError e x = .ok a ↔ x = .ok a := by
  cases x with
  | error e' => exact ⟨fun h => (by cases h), fun h => (by cases h)⟩
  | ok a' =>
    constructor
    · intro h
      cases h
      rfl
    · intro h
      cases h
      rfl

theorem eq_of_orError_eq_error {e e' : δ} {x : Except ε α} (h : orError e x = .error e') :
    e' = e := by
  cases x with
  | error _ => exact (Except.error.inj h).symm
  | ok a => cases h

/-- A value that must be there (`ok_or`). -/
def required (e : ε) : Option α → Except ε α
  | some a => .ok a
  | none => .error e

theorem required_eq_ok {e : ε} {x : Option α} {a : α} : required e x = .ok a ↔ x = some a := by
  cases x with
  | none => exact ⟨fun h => (by cases h), fun h => (by cases h)⟩
  | some a' =>
    constructor
    · intro h
      cases h
      rfl
    · intro h
      cases h
      rfl

theorem eq_of_required_eq_error {e e' : ε} {x : Option α} (h : required e x = .error e') :
    e' = e := by
  cases x with
  | none => exact (Except.error.inj h).symm
  | some a => cases h

end Checks
