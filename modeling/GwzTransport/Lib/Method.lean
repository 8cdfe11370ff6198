import GwzTransport.Lib.Checks

/-!
# Methods that change their object and may fail

A method on a mutable object is an `EStateM` program: what it changed before it fails stays
changed.  A method that makes all its checks before its first change behaves as a function that
gives the new object or an error:

* `asks`: a check that only looks at the object;
* `settled`: the result of such a function, as a method's;
* `run_asks_bind`, `run_bind_updates`: a method follows a function check by check, and then
  through the changes at its end.
-/

namespace Method

variable {ε σ ρ τ α β : Type}

/-- A check that only looks at the object. -/
def asks (read : σ → Except ε α) : EStateM ε σ α := fun s =>
  match read s with
  | .ok a => .ok a s
  | .error e => .error e s

/-- What a method gives that behaves as a function: `out` has the new object and the value, and an
error leaves the object. -/
def settled (out : ρ → σ × α) (s : σ) : Except ε ρ → EStateM.Result ε σ α
  | .ok r => .ok (out r).2 (out r).1
  | .error e => .error e s

variable {s : σ} {out : ρ → σ × α} {out' : τ → σ × β}

theorem run_asks_bind {read : σ → Except ε β} {k : β → EStateM ε σ α} {f : β → Except ε ρ}
    (h : ∀ b, read s = .ok b → (k b).run s = settled out s (f b)) :
    (asks read >>= k).run s = settled out s (read s >>= f) := by
  cases hread : read s with
  | ok b =>
    have hrun : (asks read >>= k).run s = (k b).run s := by
      simp only [EStateM.run, bind, EStateM.bind, asks, hread]
    rw [hrun, h b hread]
    rfl
  | error e =>
    simp only [EStateM.run, bind, EStateM.bind, asks, hread]
    rfl

theorem run_get_bind (k : σ → EStateM ε σ α) (s : σ) : (get >>= k).run s = (k s).run s := rfl

theorem run_bind_updates {x : EStateM ε σ α} {k : α → EStateM ε σ β} {r : Except ε ρ} {f : ρ → τ}
    (h : x.run s = settled out s r)
    (hk : ∀ a, r = .ok a → (k (out a).2).run (out a).1 = .ok (out' (f a)).2 (out' (f a)).1) :
    (x >>= k).run s = settled out' s (r >>= fun a => pure (f a)) := by
  cases r with
  | ok a =>
    have hx : x s = .ok (out a).2 (out a).1 := h
    have hrun : (x >>= k).run s = (k (out a).2).run (out a).1 := by
      simp only [EStateM.run, bind, EStateM.bind, hx]
    rw [hrun, hk a rfl]
    rfl
  | error e =>
    have hx : x s = .error e s := h
    simp only [EStateM.run, bind, EStateM.bind, hx]
    rfl

/-- A failed method that made no change is caught in the state it was called in. -/
theorem run_tryCatch {x : EStateM ε σ α} {handle : ε → EStateM ε σ α} {r : Except ε ρ} :
    x.run s = settled out s r → (tryCatch x handle).run s = match r with
      | .ok a => .ok (out a).2 (out a).1
      | .error e => (handle e).run s := by
  intro h
  cases r with
  | ok a =>
    have hx : x s = .ok (out a).2 (out a).1 := h
    simp only [EStateM.run, tryCatch, tryCatchThe, MonadExceptOf.tryCatch, EStateM.tryCatch, hx]
  | error e =>
    have hx : x s = .error e s := h
    simp only [EStateM.run, tryCatch, tryCatchThe, MonadExceptOf.tryCatch, EStateM.tryCatch, hx]
    rfl

end Method
