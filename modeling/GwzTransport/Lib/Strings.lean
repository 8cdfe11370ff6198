import Mathlib.Tactic
import Mathlib.Data.List.Infix

/-!
# Texts as lists of characters

The cuts of a text that a standard library offers, on lists of characters:

* `strip`, `stripEnd`: a text without a given beginning or end;
* `splitOnce`, `rsplitOnce`: the two sides of the first, or last, separator;
* `upperLetters`, `lowerLetters`: what the case of a character changes;
* the pieces of `List.splitOn`: none holds the separator, and each is part of the text.
-/

namespace Strings

variable {text start rest : List Char}

/-- The text after a given beginning. -/
def strip (start text : List Char) : Option (List Char) :=
  if start.isPrefixOf text then some (text.drop start.length) else none

/-- The text before a given end. -/
def stripEnd (finish text : List Char) : Option (List Char) :=
  if finish.isSuffixOf text then some (text.take (text.length - finish.length)) else none

/-- The sides of the first occurrence of a separator. -/
def splitOnce (separator : List Char) : List Char → Option (List Char × List Char)
  | [] => none
  | c :: text =>
    match strip separator (c :: text) with
    | some rest => some ([], rest)
    | none => (splitOnce separator text).map fun sides => (c :: sides.1, sides.2)

/-- The sides of the last occurrence of a character. -/
def rsplitOnce (separator : Char) : List Char → Option (List Char × List Char)
  | [] => none
  | c :: text =>
    match rsplitOnce separator text with
    | some sides => some (c :: sides.1, sides.2)
    | none => if c = separator then some ([], text) else none

theorem strip_eq_some : strip start text = some rest ↔ text = start ++ rest := by
  unfold strip
  split_ifs with h
  · obtain ⟨tail, rfl⟩ := List.isPrefixOf_iff_prefix.1 h
    rw [List.drop_left, Option.some.injEq, List.append_cancel_left_eq]
  · simp only [false_iff]
    rintro rfl
    exact h (List.isPrefixOf_iff_prefix.2 (List.prefix_append _ _))

theorem stripEnd_eq_some {finish : List Char} :
    stripEnd finish text = some rest ↔ text = rest ++ finish := by
  unfold stripEnd
  split_ifs with h
  · obtain ⟨head, rfl⟩ := List.isSuffixOf_iff_suffix.1 h
    simp
  · simp only [false_iff]
    rintro rfl
    exact h (List.isSuffixOf_iff_suffix.2 (List.suffix_append _ _))

theorem stripEnd_eq_none {finish : List Char} :
    stripEnd finish text = none ↔ ¬ finish <:+ text := by
  unfold stripEnd
  split_ifs with h
  · simp [List.isSuffixOf_iff_suffix.1 h]
  · simp [mt List.isSuffixOf_iff_suffix.2 h]

theorem strip_cons (x c : Char) (start text : List Char) :
    strip (x :: start) (c :: text) = if x = c then strip start text else none := by
  by_cases h : x = c <;> simp [strip, h]

theorem strip_nil (text : List Char) : strip [] text = some text := rfl

theorem strip_map {f : Char → Char} {x : Char} (hf : ∀ c, f c = x ↔ c = x) (text : List Char) :
    strip [x] (text.map f) = (strip [x] text).map (List.map f) := by
  cases text with
  | nil => rfl
  | cons c text =>
    rw [List.map_cons, strip_cons, strip_cons]
    by_cases hc : x = c
    · rw [if_pos hc, if_pos ((hf c).2 hc.symm).symm]
      rfl
    · rw [if_neg hc, if_neg fun h => hc ((hf c).1 h.symm).symm]
      rfl

theorem stripEnd_map {f : Char → Char} {x : Char} (hf : ∀ c, f c = x ↔ c = x) (text : List Char) :
    stripEnd [x] (text.map f) = (stripEnd [x] text).map (List.map f) := by
  rcases List.eq_nil_or_concat text with rfl | ⟨init, c, rfl⟩
  · rfl
  · rw [List.concat_eq_append]
    by_cases hc : c = x
    · subst hc
      rw [stripEnd_eq_some.2 rfl, Option.map_some, stripEnd_eq_some, List.map_append,
        List.map_singleton, (hf c).2 rfl]
    · have hnot : ∀ (before : List Char) {d : Char}, d ≠ x →
          stripEnd [x] (before ++ [d]) = none := by
        intro before d hd
        refine stripEnd_eq_none.2 fun ⟨start, h⟩ => hd ?_
        exact (List.singleton_inj.1 (List.append_inj' h rfl).2).symm
      rw [hnot _ hc, List.map_append, List.map_singleton, hnot _ (fun h => hc ((hf c).1 h))]
      rfl

/-- Without one trailing separator a text is a beginning of itself. -/
theorem stripEnd_getD_isPrefix (finish text : List Char) :
    (stripEnd finish text).getD text <+: text := by
  cases h : stripEnd finish text with
  | none => exact List.prefix_rfl
  | some rest =>
    rw [stripEnd_eq_some.1 h]
    exact List.prefix_append _ _

/-! ### Letters -/

def upperLetters : List Char := "ABCDEFGHIJKLMNOPQRSTUVWXYZ".toList

def lowerLetters : List Char := "abcdefghijklmnopqrstuvwxyz".toList

theorem toLower_cases (c : Char) : c.toLower = c ∨ c ∈ upperLetters := by
  by_cases hc : 65 ≤ c.toNat ∧ c.toNat ≤ 90
  · right
    have hmem : ∀ n, 65 ≤ n → n ≤ 90 → Char.ofNat n ∈ upperLetters := by
      intro n h₁ h₂
      interval_cases n <;> decide
    rw [← Char.ofNat_toNat c]
    exact hmem _ hc.1 hc.2
  · left
    refine dif_neg fun h => hc ?_
    simpa [UInt32.le_iff_toNat_le] using h

theorem toUpper_cases (c : Char) : c.toUpper = c ∨ c ∈ lowerLetters := by
  by_cases hc : 97 ≤ c.toNat ∧ c.toNat ≤ 122
  · right
    have hmem : ∀ n, 97 ≤ n → n ≤ 122 → Char.ofNat n ∈ lowerLetters := by
      intro n h₁ h₂
      interval_cases n <;> decide
    rw [← Char.ofNat_toNat c]
    exact hmem _ hc.1 hc.2
  · left
    refine dif_neg fun h => hc ?_
    simpa [UInt32.le_iff_toNat_le] using h

theorem toLower_toLower (c : Char) : c.toLower.toLower = c.toLower := by
  rcases toLower_cases c with h | h
  · rw [h, h]
  · have hall : upperLetters.all (fun c => c.toLower.toLower == c.toLower) = true := by
      decide +kernel
    exact eq_of_beq (List.all_eq_true.1 hall c h)

/-- A character that is no letter is not the lower case of another. -/
theorem toLower_eq_iff {x : Char} (hx : x ∉ upperLetters ∧ x ∉ upperLetters.map Char.toLower)
    (c : Char) : c.toLower = x ↔ c = x := by
  constructor
  · rintro rfl
    rcases toLower_cases c with h | h
    · exact h.symm
    · exact absurd (List.mem_map_of_mem h) hx.2
  · rintro rfl
    exact (toLower_cases c).resolve_right hx.1

/-! ### The pieces between separators -/

/-- The characters of a text that was put together. -/
theorem forall_mem_intercalate {p : Char → Prop} {separator : List Char} {parts : List (List Char)}
    (hseparator : ∀ c ∈ separator, p c) :
    (∀ c ∈ separator.intercalate parts, p c) ↔ ∀ s ∈ parts, ∀ c ∈ s, p c := by
  induction parts with
  | nil => simp [List.intercalate]
  | cons s parts ih =>
    cases parts with
    | nil => simp [List.intercalate]
    | cons t parts =>
      rw [List.intercalate_cons_cons, List.forall_mem_append, List.forall_mem_append,
        and_iff_left hseparator, ih]
      simp

variable {α : Type*} [BEq α] [LawfulBEq α] {a : α}

/-- No piece holds the separator, and each piece is part of the list. -/
theorem mem_splitOn {l piece : List α} (h : piece ∈ l.splitOn a) : a ∉ piece ∧ piece <:+: l := by
  induction l generalizing piece with
  | nil =>
    rw [List.splitOn_nil, List.mem_singleton] at h
    rw [h]
    exact ⟨List.not_mem_nil, List.infix_rfl⟩
  | cons c l ih =>
    rw [List.splitOn_cons_eq_if_modifyHead] at h
    split_ifs at h with hc
    · rcases List.mem_cons.1 h with rfl | h
      · exact ⟨List.not_mem_nil, List.nil_infix⟩
      · exact ⟨(ih h).1, (ih h).2.trans (List.infix_cons List.infix_rfl)⟩
    · -- the character joins the first piece
      obtain ⟨first, others, hs⟩ := List.exists_cons_of_ne_nil (List.splitOn_ne_nil a l)
      rw [hs, List.modifyHead_cons] at h
      rcases List.mem_cons.1 h with rfl | h
      · have hfirst := ih (hs ▸ List.mem_cons_self (a := first))
        have hpre : first <+: l := by
          have hjoin : [a].intercalate (l.splitOn a) = l := List.intercalate_splitOn a
          rw [hs] at hjoin
          cases others with
          | nil =>
            rw [← hjoin]
            simp
          | cons second others =>
            rw [← hjoin, List.intercalate, List.intersperse_cons_cons]
            simp
        refine ⟨fun hmem => ?_, ?_⟩
        · rcases List.mem_cons.1 hmem with rfl | hmem
          · exact hc (by simp)
          · exact hfirst.1 hmem
        · exact (List.cons_prefix_cons.2 ⟨rfl, hpre⟩).isInfix
      · exact ⟨(ih (hs ▸ List.mem_cons_of_mem _ h)).1,
          (ih (hs ▸ List.mem_cons_of_mem _ h)).2.trans (List.infix_cons List.infix_rfl)⟩

theorem splitOn_of_notMem {l : List α} (h : a ∉ l) : l.splitOn a = [l] := by
  simpa using List.splitOn_intercalate a (by simpa using h) (List.cons_ne_nil l [])

/-- The last piece, and what stands behind it. -/
theorem exists_last_piece (a : α) (l : List α) : ∃ init last, (init = [] → last = l) ∧ last <:+ l ∧
    l.splitOn a = init ++ [last] ∧
    ∀ tail, a ∉ tail → (l ++ tail).splitOn a = init ++ [last ++ tail] := by
  induction l with
  | nil => exact ⟨[], [], fun _ => rfl, List.suffix_rfl, rfl, fun _ => splitOn_of_notMem⟩
  | cons c l ih =>
    obtain ⟨init, last, hwhole, hsuffix, hsplit, htail⟩ := ih
    have hsuffix' : last <:+ c :: l := hsuffix.trans (List.suffix_cons _ _)
    by_cases hc : (c == a) = true
    · refine ⟨[] :: init, last, by simp, hsuffix', ?_, fun tail h => ?_⟩
      · rw [List.splitOn_cons_eq_if_modifyHead, if_pos hc, hsplit]
        rfl
      · rw [List.cons_append, List.splitOn_cons_eq_if_modifyHead, if_pos hc, htail tail h]
        rfl
    · cases init with
      | nil =>
        obtain rfl := hwhole rfl
        refine ⟨[], c :: last, fun _ => rfl, List.suffix_rfl, ?_, fun tail h => ?_⟩
        · rw [List.splitOn_cons_eq_if_modifyHead, if_neg hc, hsplit]
          rfl
        · rw [List.cons_append, List.splitOn_cons_eq_if_modifyHead, if_neg hc, htail tail h]
          rfl
      | cons first init =>
        refine ⟨(c :: first) :: init, last, by simp, hsuffix', ?_, fun tail h => ?_⟩
        · rw [List.splitOn_cons_eq_if_modifyHead, if_neg hc, hsplit]
          rfl
        · rw [List.cons_append, List.splitOn_cons_eq_if_modifyHead, if_neg hc, htail tail h]
          rfl

end Strings
