import Mathlib.Tactic

/-!
# Credit-based flow control

A receiver grants a sender the offsets below a limit and moves the limit up as its application
consumes data.  Offsets are integers that never pass `top`.

* `Inbound window buffered received consumed limit`: the receiver's books.  What was received is
  consumed or buffered, stays below the limit, and the limit is at most one window ahead of what
  was consumed.
* `Outbound window sent limit`: the sender's books against the limit it was last told.

Each operation of either side has a lemma that keeps the books; `Inbound.room` is the reason why
a receiver that checks the limit needs no second check of its buffer.
-/

namespace Credit

/-- The books of a receiver with a buffer of `window` bytes. -/
structure Inbound (top : ℤ) (window buffered : ℕ) (received consumed limit : ℤ) : Prop where
  nonneg : 0 ≤ consumed
  balance : consumed + buffered = received
  received_le : received ≤ limit
  limit_le : limit ≤ consumed + window
  limit_top : limit ≤ top

/-- The books of a sender. -/
structure Outbound (top : ℤ) (window : ℕ) (sent limit : ℤ) : Prop where
  nonneg : 0 ≤ sent
  sent_le : sent ≤ limit
  limit_le : limit ≤ sent + window
  limit_top : limit ≤ top

variable {top : ℤ} {window buffered : ℕ} {received consumed limit sent : ℤ}

namespace Inbound

theorem initial (h : (window : ℤ) ≤ top) : Inbound top window 0 0 0 window :=
  ⟨le_rfl, by simp, by omega, by omega, h⟩

theorem buffered_le (h : Inbound top window buffered received consumed limit) :
    buffered ≤ window := by
  have := h.balance; have := h.received_le; have := h.limit_le
  omega

theorem received_nonneg (h : Inbound top window buffered received consumed limit) :
    0 ≤ received := by
  have := h.balance; have := h.nonneg
  omega

/-- Data below the limit fits the buffer. -/
theorem room (h : Inbound top window buffered received consumed limit) {n : ℕ}
    (hn : received + n ≤ limit) : buffered + n ≤ window := by
  have := h.balance; have := h.limit_le
  omega

theorem accept (h : Inbound top window buffered received consumed limit) {n : ℕ}
    (hn : received + n ≤ limit) :
    Inbound top window (buffered + n) (received + n) consumed limit :=
  ⟨h.nonneg, by have := h.balance; push_cast; omega, hn, h.limit_le, h.limit_top⟩

theorem consume (h : Inbound top window buffered received consumed limit) {k : ℕ}
    (hk : k ≤ buffered) : Inbound top window (buffered - k) received (consumed + k) limit :=
  ⟨by have := h.nonneg; omega, by have := h.balance; omega, h.received_le,
    by have := h.limit_le; omega, h.limit_top⟩

/-- Data that is dropped on arrival counts as consumed. -/
theorem discard (h : Inbound top window 0 received consumed limit) {n : ℕ}
    (hn : received + n ≤ limit) :
    Inbound top window 0 (received + n) (received + n) limit :=
  ⟨by have := h.balance; have := h.nonneg; omega, by simp, hn,
    by have := h.balance; have := h.limit_le; omega, h.limit_top⟩

theorem advertise (h : Inbound top window buffered received consumed limit) {limit' : ℤ}
    (hup : limit < limit') (hwindow : limit' ≤ consumed + window) (htop : limit' ≤ top) :
    Inbound top window buffered received consumed limit' :=
  ⟨h.nonneg, h.balance, by have := h.received_le; omega, hwindow, htop⟩

end Inbound

namespace Outbound

theorem initial (h : (window : ℤ) ≤ top) : Outbound top window 0 window :=
  ⟨le_rfl, by omega, by omega, h⟩

theorem push (h : Outbound top window sent limit) {n : ℕ} (hn : sent + n ≤ limit) :
    Outbound top window (sent + n) limit :=
  ⟨by have := h.nonneg; omega, hn, by have := h.limit_le; omega, h.limit_top⟩

theorem grant (h : Outbound top window sent limit) {w : ℤ}
    (hw : w ≤ limit ∨ w ≤ sent + window ∧ w ≤ top) :
    Outbound top window sent (max limit w) := by
  obtain ⟨h0, hs, hl, ht⟩ := h
  refine ⟨h0, by omega, by omega, by omega⟩

end Outbound

end Credit
