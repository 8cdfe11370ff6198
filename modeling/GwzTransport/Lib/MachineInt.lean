import Mathlib.Tactic

/-!
# Fixed-width integers as bounded numbers

Signed 64-bit offsets are integers and unsigned 64-bit clocks are natural numbers.  The
operations that the width makes partial or clipping are written out:

* `checkedAdd` fails outside the signed range;
* `checkedSub` and `checkedSucc` fail outside the unsigned range;
* `satAddInt` clips a signed sum, `satAdd` and `satMul` clip an unsigned sum and product.
-/

namespace MachineInt

/-- The largest signed 64-bit value. -/
def i64Max : ℤ := 9223372036854775807

/-- The smallest signed 64-bit value. -/
def i64Min : ℤ := -9223372036854775808

/-- The largest unsigned 64-bit value. -/
def u64Max : ℕ := 18446744073709551615

/-- The largest signed 32-bit value. -/
def i32Max : ℕ := 2147483647

/-- The largest unsigned 32-bit value. -/
def u32Max : ℕ := 4294967295

/-- The largest unsigned 16-bit value. -/
def u16Max : ℕ := 65535

/-- Signed addition that fails on overflow. -/
def checkedAdd (a b : ℤ) : Option ℤ :=
  if i64Min ≤ a + b ∧ a + b ≤ i64Max then some (a + b) else none

/-- Signed addition clipped to the 64-bit range. -/
def satAddInt (a b : ℤ) : ℤ := max i64Min (min i64Max (a + b))

/-- Unsigned addition clipped to the 64-bit range. -/
def satAdd (a b : ℕ) : ℕ := min (a + b) u64Max

/-- Unsigned multiplication clipped to the 64-bit range. -/
def satMul (a b : ℕ) : ℕ := min (a * b) u64Max

/-- Unsigned subtraction that fails below zero. -/
def checkedSub (a b : ℕ) : Option ℕ := if b ≤ a then some (a - b) else none

/-- The successor of an unsigned 64-bit value, if there is one. -/
def checkedSucc (a : ℕ) : Option ℕ := if a < u64Max then some (a + 1) else none

/-- A signed value reinterpreted as an unsigned 64-bit one. -/
def asUsize (a : ℤ) : ℕ := (a % 18446744073709551616).toNat

theorem checkedAdd_eq_some {a b c : ℤ} (h : checkedAdd a b = some c) :
    c = a + b ∧ i64Min ≤ a + b ∧ a + b ≤ i64Max := by
  unfold checkedAdd at h
  split_ifs at h with hr
  exact ⟨(Option.some.inj h).symm, hr⟩

theorem le_of_checkedAdd_bind {a b c : ℤ}
    (h : ¬ ((checkedAdd a b).bind (checkedAdd · c)).isNone = true) : a + b + c ≤ i64Max := by
  rw [Option.isNone_iff_eq_none] at h
  obtain ⟨r, hr⟩ := Option.ne_none_iff_exists'.1 h
  obtain ⟨s, hs, hr⟩ := Option.bind_eq_some_iff.1 hr
  obtain ⟨rfl, -, -⟩ := checkedAdd_eq_some hs
  exact (checkedAdd_eq_some hr).2.2

theorem checkedAdd_of_le {a b : ℤ} (h0 : 0 ≤ a + b) (h : a + b ≤ i64Max) :
    checkedAdd a b = some (a + b) := by
  unfold checkedAdd
  rw [if_pos ⟨by unfold i64Min; omega, h⟩]

theorem checkedSub_of_le {a b : ℕ} (h : b ≤ a) : checkedSub a b = some (a - b) := if_pos h

theorem checkedSucc_of_lt {a : ℕ} (h : a < u64Max) : checkedSucc a = some (a + 1) := if_pos h

theorem satAddInt_le_max (a b : ℤ) : satAddInt a b ≤ i64Max := by
  unfold satAddInt i64Min i64Max; omega

theorem satAddInt_le_add {a b : ℤ} (h : 0 ≤ a + b) : satAddInt a b ≤ a + b := by
  unfold satAddInt i64Min i64Max; omega

theorem satAddInt_eq {a b : ℤ} (h : 0 ≤ a + b) : satAddInt a b = min i64Max (a + b) := by
  unfold satAddInt i64Min i64Max; omega

theorem asUsize_eq {a : ℤ} (h0 : 0 ≤ a) (h : a ≤ i64Max) : asUsize a = a.toNat := by
  unfold asUsize
  unfold i64Max at h
  rw [Int.emod_eq_of_lt h0 (by omega)]

theorem satAdd_le_add (a b : ℕ) : satAdd a b ≤ a + b := min_le_left _ _

/-- Below the clipping value a clipped sum is bounded as the sum is. -/
theorem satAdd_le_iff {a b c : ℕ} (hc : c < u64Max) : satAdd a b ≤ c ↔ a + b ≤ c := by
  unfold satAdd; omega

theorem satAdd_add_le_iff {a b c d : ℕ} (hd : d < u64Max) :
    satAdd a b + c ≤ d ↔ a + b + c ≤ d := by
  unfold satAdd; omega

theorem satMul_add_le_iff {a b c d : ℕ} (hd : d < u64Max) :
    satMul a b + c ≤ d ↔ a * b + c ≤ d := by
  unfold satMul; omega

theorem satAdd_mono {a a' : ℕ} (h : a ≤ a') (b : ℕ) : satAdd a b ≤ satAdd a' b := by
  unfold satAdd; omega

end MachineInt
