import Mathlib.Tactic
import Mathlib.Logic.Function.Basic

/-!
# Partial matchings between two tables

Two tables refer to each other: `target r` is what the left entry `r` points to and `holder c` is
the left entry that the right entry `c` works for, each with a value that both sides keep.
`Matching` says that they agree, except that a left entry may point to a right one that is
`lost`.

`Change` lists the ways in which a program changes both tables at once, and
`Matching.change` says that each of them keeps a matching.
-/

variable {L R T : Type*}

/-- The tables agree: a right entry that works for a left one is pointed to by it, and a left
entry points to a right one that works for it or is lost. -/
structure Matching (target : L → Option (R × T)) (holder : R → Option (L × T))
    (lost : R → Prop) : Prop where
  target_of_holder : ∀ {c r x}, holder c = some (r, x) → target r = some (c, x)
  holder_of_target : ∀ {r c x}, target r = some (c, x) → lost c ∨ holder c = some (r, x)
  free_of_lost : ∀ {c}, lost c → holder c = none

namespace Matching

variable {target target' : L → Option (R × T)} {holder holder' : R → Option (L × T)}
  {lost lost' busy : R → Prop} {r : L} {c : R} {x : T}

/-- Only one left entry points to a right one that is at work. -/
theorem eq_of_target (h : Matching target holder lost) {j : L} {y : T}
    (hc : holder c = some (r, x)) (ht : target j = some (c, y)) : j = r := by
  rcases h.holder_of_target ht with hl | hh
  · rw [h.free_of_lost hl] at hc
    cases hc
  · rw [hc] at hh
    exact (Prod.mk.inj (Option.some.inj hh)).1.symm

/-- Nothing points to a right entry that is neither lost nor at work. -/
theorem target_ne (h : Matching target holder lost) (hl : ¬ lost c) (hc : holder c = none) (j : L)
    (y : T) : target j ≠ some (c, y) := by
  intro ht
  rcases h.holder_of_target ht with hl' | hh
  · exact hl hl'
  · rw [hc] at hh
    cases hh

variable [DecidableEq L] [DecidableEq R]

/-- The changes of the two tables; `busy` right entries may stop working without a word. -/
inductive Change (target : L → Option (R × T)) (holder : R → Option (L × T)) (busy : R → Prop) :
    (L → Option (R × T)) → (R → Option (L × T)) → Prop
  | keep : Change target holder busy target holder
  /-- A left entry that nothing works for points to nothing any more. -/
  | untie (r : L) (hr : ∀ d y, target r = some (d, y) → holder d = none) :
      Change target holder busy (Function.update target r none) holder
  /-- A right entry stops working. -/
  | retire (c : R) (hc : holder c = none ∨ busy c) :
      Change target holder busy target (Function.update holder c none)
  /-- A pair comes apart. -/
  | part {r : L} {c : R} {x : T} (hc : holder c = some (r, x)) :
      Change target holder busy (Function.update target r none) (Function.update holder c none)
  /-- A pair starts to work together, or goes on with another value. -/
  | tie {r : L} {c : R} (x : T) (hr : ∀ d y, target r = some (d, y) → d = c)
      (hn : ∀ j y, j ≠ r → target j ≠ some (c, y)) :
      Change target holder busy (Function.update target r (some (c, x)))
        (Function.update holder c (some (r, x)))

omit [DecidableEq R] in
theorem untie (h : Matching target holder lost)
    (hr : ∀ d y, target r = some (d, y) → holder d = none) (hmono : ∀ d, lost d → lost' d)
    (hfree : ∀ d, lost' d → holder d = none) :
    Matching (Function.update target r none) holder lost' where
  target_of_holder {c j x} hc := by
    have hj : j ≠ r := by
      rintro rfl
      rw [hr _ _ (h.target_of_holder hc)] at hc
      cases hc
    rw [Function.update_of_ne hj]
    exact h.target_of_holder hc
  holder_of_target {j c x} ht := by
    have hj : j ≠ r := by
      rintro rfl
      simp at ht
    rw [Function.update_of_ne hj] at ht
    exact (h.holder_of_target ht).imp_left (hmono _)
  free_of_lost := hfree _

omit [DecidableEq L] in
theorem retire (h : Matching target holder lost) (hc : holder c = none ∨ lost' c)
    (hmono : ∀ d, lost d → lost' d)
    (hfree : ∀ d, lost' d → Function.update holder c none d = none) :
    Matching target (Function.update holder c none) lost' where
  target_of_holder {d j x} hd := by
    have hne : d ≠ c := by
      rintro rfl
      simp at hd
    rw [Function.update_of_ne hne] at hd
    exact h.target_of_holder hd
  holder_of_target {j d x} ht := by
    by_cases hd : d = c
    · subst hd
      left
      rcases hc with hn | hl
      · rcases h.holder_of_target ht with hl | hh
        · exact hmono _ hl
        · rw [hn] at hh
          cases hh
      · exact hl
    · rw [Function.update_of_ne hd]
      exact (h.holder_of_target ht).imp_left (hmono _)
  free_of_lost := hfree _

theorem part (h : Matching target holder lost) (hc : holder c = some (r, x))
    (hmono : ∀ d, lost d → lost' d)
    (hfree : ∀ d, lost' d → Function.update holder c none d = none) :
    Matching (Function.update target r none) (Function.update holder c none) lost' where
  target_of_holder {d j y} hd := by
    have hne : d ≠ c := by
      rintro rfl
      simp at hd
    rw [Function.update_of_ne hne] at hd
    have hj : j ≠ r := by
      rintro rfl
      -- `r` points to `c` only, so no other entry works for it
      have := (h.target_of_holder hc).symm.trans (h.target_of_holder hd)
      exact hne (Prod.mk.inj (Option.some.inj this)).1.symm
    rw [Function.update_of_ne hj]
    exact h.target_of_holder hd
  holder_of_target {j d y} ht := by
    have hj : j ≠ r := by
      rintro rfl
      simp at ht
    rw [Function.update_of_ne hj] at ht
    have hd : d ≠ c := by
      rintro rfl
      exact hj (h.eq_of_target hc ht)
    rw [Function.update_of_ne hd]
    exact (h.holder_of_target ht).imp_left (hmono _)
  free_of_lost := hfree _

theorem tie (h : Matching target holder lost) (hr : ∀ d y, target r = some (d, y) → d = c)
    (hn : ∀ j y, j ≠ r → target j ≠ some (c, y)) (hmono : ∀ d, lost d → lost' d)
    (hfree : ∀ d, lost' d → Function.update holder c (some (r, x)) d = none) :
    Matching (Function.update target r (some (c, x))) (Function.update holder c (some (r, x)))
      lost' where
  target_of_holder {d j y} hd := by
    by_cases hdc : d = c
    · subst hdc
      simp only [Function.update_self, Option.some.injEq, Prod.mk.injEq] at hd
      obtain ⟨rfl, rfl⟩ := hd
      exact Function.update_self _ _ _
    · rw [Function.update_of_ne hdc] at hd
      have hj : j ≠ r := by
        rintro rfl
        exact hdc (hr d y (h.target_of_holder hd))
      rw [Function.update_of_ne hj]
      exact h.target_of_holder hd
  holder_of_target {j d y} ht := by
    by_cases hj : j = r
    · subst hj
      simp only [Function.update_self, Option.some.injEq, Prod.mk.injEq] at ht
      obtain ⟨rfl, rfl⟩ := ht
      exact .inr (Function.update_self _ _ _)
    · rw [Function.update_of_ne hj] at ht
      have hd : d ≠ c := by
        rintro rfl
        exact hn j y hj ht
      rw [Function.update_of_ne hd]
      exact (h.holder_of_target ht).imp_left (hmono d)
  free_of_lost := hfree _

/-- Every change keeps the matching, if lost entries stay lost and work for nothing. -/
theorem change (h : Matching target holder lost) (hch : Change target holder busy target' holder')
    (hmono : ∀ d, lost d → lost' d) (hbusy : ∀ d, busy d → lost' d)
    (hfree : ∀ d, lost' d → holder' d = none) : Matching target' holder' lost' := by
  cases hch with
  | keep =>
    exact ⟨h.target_of_holder, fun ht => (h.holder_of_target ht).imp_left (hmono _), hfree _⟩
  | untie r hr => exact h.untie hr hmono hfree
  | retire c hc => exact h.retire (hc.imp_right (hbusy c)) hmono hfree
  | part hc => exact h.part hc hmono hfree
  | tie x hr hn => exact h.tie hr hn hmono hfree

end Matching
