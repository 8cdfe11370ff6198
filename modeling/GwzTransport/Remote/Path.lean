import GwzTransport.Remote.Admission

/-!
# What the canonical path keeps of a written one

The same normalizer serves destinations, exact allowances and prefixes.  `written` states what the
segments of a path are without it: the path behind its base, cut at the slashes, with one trailing
slash and the case of percent escapes disregarded.  `canonicalPath` returns these segments, except
that the last one loses a suffix `.git` (`canonicalPath_eq_ok`).
-/

namespace GwzTransport.Remote

open Protocol Checks Strings

/-! ### Percent escapes -/

/-- The escapes of a text in upper case. -/
def upperEscapes : Text → Text
  | [] => []
  | '%' :: a :: b :: raw => '%' :: a.toUpper :: b.toUpper :: upperEscapes raw
  | c :: raw => c :: upperEscapes raw

def hexDigits : Text := "0123456789abcdefABCDEF".toList

variable {c : Char} {text : Text} {segments : List Text}

theorem mem_hexDigits (h : isHexDigit c = true) : c ∈ hexDigits := by
  have hmem : ∀ n, ((48 ≤ n ∧ n ≤ 57) ∨ (97 ≤ n ∧ n ≤ 102) ∨ (65 ≤ n ∧ n ≤ 70)) →
      Char.ofNat n ∈ hexDigits := by
    rintro n (⟨h₁, h₂⟩ | ⟨h₁, h₂⟩ | ⟨h₁, h₂⟩) <;> interval_cases n <;> decide
  rw [← Char.ofNat_toNat c]
  refine hmem _ ?_
  by_cases hdigit : c.isDigit = true
  · exact .inl (by simpa [Char.isDigit, UInt32.le_iff_toNat_le] using hdigit)
  by_cases hlower : 'a' ≤ c ∧ c ≤ 'f'
  · exact .inr (.inl (by simpa [Char.le_def, UInt32.le_iff_toNat_le] using hlower))
  by_cases hupper : 'A' ≤ c ∧ c ≤ 'F'
  · exact .inr (.inr (by simpa [Char.le_def, UInt32.le_iff_toNat_le] using hupper))
  · unfold isHexDigit digitValue at h
    rw [if_neg hdigit, if_neg hlower, if_neg hupper] at h
    simp at h

/-- What is known of a hex digit in upper case. -/
theorem upper_hexDigit (h : isHexDigit c = true) :
    c.toUpper ≠ '%' ∧ refusedChar c.toUpper = false ∧ c.toUpper.toUpper = c.toUpper := by
  have hall : hexDigits.all (fun c => c.toUpper != '%' && !refusedChar c.toUpper &&
      c.toUpper.toUpper == c.toUpper) = true := by
    decide +kernel
  have hc := List.all_eq_true.1 hall c (mem_hexDigits h)
  simpa [and_assoc] using hc

theorem digitValue_toUpper (c : Char) : digitValue 16 c.toUpper = digitValue 16 c := by
  rcases toUpper_cases c with h | h
  · rw [h]
  · have hall : lowerLetters.all (fun c => digitValue 16 c.toUpper == digitValue 16 c) = true := by
      decide +kernel
    exact eq_of_beq (List.all_eq_true.1 hall c h)

theorem refusedEscape_upper (a b : Char) :
    refusedEscape a.toUpper b.toUpper = refusedEscape a b := by
  rw [refusedEscape, refusedEscape, digitValue_toUpper, digitValue_toUpper]

theorem isHexDigit_toUpper (c : Char) : isHexDigit c.toUpper = isHexDigit c := by
  rw [isHexDigit, digitValue_toUpper, isHexDigit]

theorem percentNormalized_char {raw : Text} (hc : c ≠ '%') :
    percentNormalized (c :: raw) =
      if refusedChar c then .error .path else (percentNormalized raw).map (c :: ·) := by
  rw [percentNormalized.eq_def]
  split
  next heq => cases heq
  next heq => exact absurd (List.cons.inj heq).1 hc
  next heq => exact absurd (List.cons.inj heq).1 hc
  next heq =>
    cases heq
    cases refusedChar c with
    | true => rfl
    | false => cases percentNormalized raw <;> rfl

theorem percentNormalized_escaped {a b : Char} {raw : Text} :
    percentNormalized ('%' :: a :: b :: raw) =
      if isHexDigit a && isHexDigit b && !refusedEscape a b then
        (percentNormalized raw).map fun out => '%' :: a.toUpper :: b.toUpper :: out
      else .error .path := by
  rw [percentNormalized]
  cases isHexDigit a <;> cases isHexDigit b <;> cases refusedEscape a b <;>
    cases percentNormalized raw <;> rfl

theorem percentNormalized_cons_ok {raw out : Text} (hc : c ≠ '%')
    (hok : refusedChar c = false) (h : percentNormalized raw = .ok out) :
    percentNormalized (c :: raw) = .ok (c :: out) := by
  rw [percentNormalized_char hc, hok, h]
  rfl

theorem percentNormalized_escape_ok {a b : Char} {raw out : Text} (ha : isHexDigit a = true)
    (hb : isHexDigit b = true) (hok : refusedEscape a b = false)
    (h : percentNormalized raw = .ok out) :
    percentNormalized ('%' :: a :: b :: raw) = .ok ('%' :: a.toUpper :: b.toUpper :: out) := by
  rw [percentNormalized_escaped, ha, hb, hok, h]
  rfl

variable {raw out : Text}

/-- The three ways in which a path is read. -/
theorem percentNormalized_cons {raw out : Text} (hc : c ≠ '%')
    (h : percentNormalized (c :: raw) = .ok out) :
    refusedChar c = false ∧ ∃ rest, percentNormalized raw = .ok rest ∧ out = c :: rest := by
  unfold percentNormalized at h
  split at h
  · cases ‹c :: raw = []›
  · cases ‹c :: raw = _›
    exact absurd rfl hc
  · cases ‹c :: raw = _›
    exact absurd rfl hc
  next heq =>
    cases heq
    obtain ⟨_, hrefused, h⟩ := bind_eq_ok.1 h
    obtain ⟨rest, hrest, h⟩ := bind_eq_ok.1 h
    cases h
    exact ⟨refuseIf_eq_ok.1 hrefused, rest, hrest, rfl⟩

theorem percentNormalized_escape {raw out : Text} (h : percentNormalized ('%' :: raw) = .ok out) :
    ∃ a b tail rest, raw = a :: b :: tail ∧ isHexDigit a = true ∧ isHexDigit b = true ∧
      refusedEscape a b = false ∧ percentNormalized tail = .ok rest ∧
      out = '%' :: a.toUpper :: b.toUpper :: rest := by
  match raw, h with
  | [], h => cases h
  | [a], h => cases h
  | a :: b :: tail, h =>
    obtain ⟨_, hhex, h⟩ := bind_eq_ok.1 h
    obtain ⟨rest, hrest, h⟩ := bind_eq_ok.1 h
    cases h
    have hhex : (isHexDigit a = true ∧ isHexDigit b = true) ∧ refusedEscape a b = false := by
      simpa [refuseIf_eq_ok] using hhex
    exact ⟨a, b, tail, rest, rfl, hhex.1.1, hhex.1.2, hhex.2, hrest, rfl⟩

/-- A property of normalized texts that holds of the empty one and is kept by a plain character
and by an escape. -/
theorem percentNormalized_induction {P : Text → Text → Prop} (hnil : P [] [])
    (hchar : ∀ c raw out, c ≠ '%' → refusedChar c = false → P raw out → P (c :: raw) (c :: out))
    (hescape : ∀ a b raw out, isHexDigit a = true → isHexDigit b = true →
      refusedEscape a b = false → P raw out →
      P ('%' :: a :: b :: raw) ('%' :: a.toUpper :: b.toUpper :: out))
    (h : percentNormalized raw = .ok out) : P raw out := by
  fun_induction upperEscapes raw generalizing out with
  | case1 =>
    cases h
    exact hnil
  | case2 a b raw ih =>
    obtain ⟨a', b', tail, rest, heq, ha, hb, hok, hrest, rfl⟩ := percentNormalized_escape h
    cases heq
    exact hescape a b raw rest ha hb hok (ih hrest)
  | case3 c raw hesc ih =>
    by_cases hc : c = '%'
    · subst hc
      obtain ⟨a, b, tail, rest, rfl, -⟩ := percentNormalized_escape h
      exact absurd rfl (hesc a b tail rfl)
    · obtain ⟨hok, rest, hrest, rfl⟩ := percentNormalized_cons hc h
      exact hchar c raw rest hc hok (ih hrest)

theorem percentNormalized_eq_ok (h : percentNormalized raw = .ok out) : out = upperEscapes raw := by
  refine percentNormalized_induction (P := fun raw out => out = upperEscapes raw) rfl ?_ ?_ h
  · rintro c raw out hc - rfl
    rw [upperEscapes]
    exact fun _ _ _ h _ => hc h
  · rintro a b raw out - - - rfl
    rfl

theorem percentNormalized_append {tail tail' : Text} (h : percentNormalized raw = .ok out)
    (htail : percentNormalized tail = .ok tail') :
    percentNormalized (raw ++ tail) = .ok (out ++ tail') :=
  percentNormalized_induction
    (P := fun raw out => percentNormalized (raw ++ tail) = .ok (out ++ tail')) htail
    (fun _ _ _ hc hok ih => percentNormalized_cons_ok hc hok ih)
    (fun _ _ _ _ ha hb hok ih => percentNormalized_escape_ok ha hb hok ih) h

/-- A path and its normal form end with the same character, or neither does. -/
def LastKept (c : Char) (raw out : Text) : Prop :=
  (raw = [] ∧ out = []) ∨
    (∃ r o, raw = r ++ [c] ∧ out = o ++ [c] ∧ percentNormalized r = .ok o) ∨
    (raw ≠ [] ∧ out ≠ [] ∧ ¬ [c] <:+ raw ∧ ¬ [c] <:+ out)

theorem normalized_last (hc : isHexDigit c = false) (hpercent : c ≠ '%')
    (h : percentNormalized raw = .ok out) : LastKept c raw out := by
  have hhex : ∀ d, isHexDigit d = true → d ≠ c ∧ d.toUpper ≠ c := by
    intro d hd
    constructor
    · rintro rfl
      exact absurd hd (by simp [hc])
    · rintro rfl
      rw [isHexDigit_toUpper, hd] at hc
      cases hc
  refine percentNormalized_induction (P := LastKept c) (.inl ⟨rfl, rfl⟩) ?_ ?_ h
  · rintro d raw out hd hok (⟨rfl, rfl⟩ | ⟨r, o, rfl, rfl, hr⟩ | ⟨hraw, hout, hnraw, hnout⟩)
    · by_cases hdc : d = c
      · subst hdc
        exact .inr (.inl ⟨[], [], rfl, rfl, rfl⟩)
      · refine .inr (.inr ⟨by simp, by simp, ?_, ?_⟩) <;>
          simpa [List.suffix_cons_iff] using fun h => hdc h.symm
    · exact .inr (.inl ⟨d :: r, d :: o, rfl, rfl, percentNormalized_cons_ok hd hok hr⟩)
    · refine .inr (.inr ⟨by simp, by simp, ?_, ?_⟩)
      · simp [List.suffix_cons_iff, hnraw, hraw.symm]
      · simp [List.suffix_cons_iff, hnout, hout.symm]
  · rintro a b raw out ha hb hok (⟨rfl, rfl⟩ | ⟨r, o, rfl, rfl, hr⟩ | ⟨hraw, hout, hnraw, hnout⟩)
    · refine .inr (.inr ⟨by simp, by simp, ?_, ?_⟩)
      · simpa [List.suffix_cons_iff] using (hhex b hb).1.symm
      · simpa [List.suffix_cons_iff] using (hhex b hb).2.symm
    · exact .inr (.inl ⟨'%' :: a :: b :: r, '%' :: a.toUpper :: b.toUpper :: o, rfl, rfl,
        percentNormalized_escape_ok ha hb hok hr⟩)
    · refine .inr (.inr ⟨by simp, by simp, ?_, ?_⟩)
      · simp [List.suffix_cons_iff, hnraw, hraw.symm]
      · simp [List.suffix_cons_iff, hnout, hout.symm]

/-- A normalized text holds no refused character. -/
theorem refusedChar_normalized (h : percentNormalized raw = .ok out) :
    ∀ c ∈ out, refusedChar c = false := by
  refine percentNormalized_induction (P := fun _ out => ∀ c ∈ out, refusedChar c = false) ?_ ?_ ?_ h
  · simp
  · intro c raw out _ hc ih x hx
    rcases List.mem_cons.1 hx with rfl | hx
    · exact hc
    · exact ih x hx
  · intro a b raw out ha hb _ ih x hx
    simp only [List.mem_cons] at hx
    rcases hx with rfl | rfl | rfl | hx
    · decide
    · exact (upper_hexDigit ha).2.1
    · exact (upper_hexDigit hb).2.1
    · exact ih x hx

/-- A `%` of a normalized text starts an escape that is not refused, in upper case. -/
theorem escape_normalized (h : percentNormalized raw = .ok out) {before after : Text} {a b : Char}
    (hout : out = before ++ '%' :: a :: b :: after) :
    a.toUpper = a ∧ b.toUpper = b ∧ refusedEscape a b = false := by
  refine percentNormalized_induction (P := fun _ out => ∀ before after a b,
    out = before ++ '%' :: a :: b :: after → a.toUpper = a ∧ b.toUpper = b ∧
      refusedEscape a b = false) ?_ ?_ ?_ h before after a b hout
  · intro before after a b hout
    simp at hout
  · intro c raw out hc _ ih before after a b hout
    cases before with
    | nil =>
      cases hout
      exact absurd rfl hc
    | cons x before =>
      cases hout
      exact ih before after a b rfl
  · intro a' b' raw out ha hb hok ih before after a b hout
    -- the digits of an escape are no `%`, so the text goes on behind them
    match before, hout with
    | [], hout =>
      cases hout
      exact ⟨(upper_hexDigit ha).2.2, (upper_hexDigit hb).2.2,
        (refusedEscape_upper _ _).trans hok⟩
    | [x], hout =>
      simp only [List.cons_append, List.nil_append, List.cons.injEq] at hout
      exact absurd hout.2.1 (upper_hexDigit ha).1
    | [x, y], hout =>
      simp only [List.cons_append, List.nil_append, List.cons.injEq] at hout
      exact absurd hout.2.2.1 (upper_hexDigit hb).1
    | x :: y :: z :: before, hout =>
      simp only [List.cons_append, List.cons.injEq] at hout
      exact ih before after a b hout.2.2.2

/-! ### Written segments -/

/-- A path from its base on. -/
def unrooted (scheme : Scheme) (raw : Text) : Text :=
  match scheme with
  | .https => (strip ['/'] raw).getD raw
  | .ssh => (((strip ['~', '/'] raw).or (strip ['/', '~', '/'] raw)).or (strip ['/'] raw)).getD raw

/-- The segments of a path as they are written, up to the case of percent escapes. -/
def written (scheme : Scheme) (raw : Text) : List Text :=
  let rest := trimmed (unrooted scheme (upperEscapes raw))
  if rest.isEmpty then [] else rest.splitOn '/'

variable {scheme : Scheme} {host : Text} {base : Base} {rest : Text}

/-- Where a path begins: its base, and the path from there. -/
inductive Rooted (host : Text) : Scheme → Text → Base → Text → Prop
  | https (rest : Text) : Rooted host .https ('/' :: rest) .absolute rest
  | home (rest : Text) : Rooted host .ssh ('~' :: '/' :: rest) .home rest
  | slashHome (rest : Text) : Rooted host .ssh ('/' :: '~' :: '/' :: rest) .home rest
  | absolute {rest : Text} : rest.head? ≠ some '~' → Rooted host .ssh ('/' :: rest) .absolute rest
  | relative {rest : Text} : rest.head? ≠ some '~' → rest.head? ≠ some '/' →
      Rooted host .ssh rest (if knownHosts.contains host then .absolute else .home) rest

theorem rooted_iff {out : Text} :
    rooted scheme host out = .ok (base, rest) ↔ Rooted host scheme out base rest := by
  constructor
  · intro h
    cases scheme with
    | https =>
      obtain ⟨rest', hrest, h⟩ := bind_eq_ok.1 h
      cases h
      rw [strip_eq_some.1 (required_eq_ok.1 hrest)]
      exact .https rest
    | ssh =>
      unfold rooted at h
      dsimp only at h
      cases hhome : strip ['~', '/'] out with
      | some r =>
        rw [hhome] at h
        cases h
        rw [strip_eq_some.1 hhome]
        exact .home rest
      | none =>
        rw [hhome, Option.none_or] at h
        cases hslash : strip ['/', '~', '/'] out with
        | some r =>
          rw [hslash] at h
          cases h
          rw [strip_eq_some.1 hslash]
          exact .slashHome rest
        | none =>
          rw [hslash] at h
          dsimp only at h
          by_cases huser : ((strip ['~'] out).isSome || (strip ['/', '~'] out).isSome) = true
          · rw [if_pos huser] at h
            cases h
          rw [if_neg huser] at h
          simp only [Bool.or_eq_true, not_or, Bool.not_eq_true, Option.isSome_eq_false_iff,
            Option.isNone_iff_eq_none] at huser
          cases hroot : strip ['/'] out with
          | some r =>
            rw [hroot] at h
            cases h
            rw [strip_eq_some.1 hroot] at huser ⊢
            refine .absolute fun hhead => ?_
            obtain ⟨r, rfl⟩ := List.head?_eq_some_iff.1 hhead
            cases huser.2
          | none =>
            rw [hroot] at h
            cases h
            refine .relative (fun hhead => ?_) fun hhead => ?_
            · obtain ⟨r, rfl⟩ := List.head?_eq_some_iff.1 hhead
              cases huser.1
            · obtain ⟨r, rfl⟩ := List.head?_eq_some_iff.1 hhead
              cases hroot
  · intro h
    cases h with
    | https => exact bind_eq_ok.2 ⟨_, required_eq_ok.2 (strip_eq_some.2 rfl), rfl⟩
    | home => rfl
    | slashHome => rfl
    | absolute hrest =>
      cases rest with
      | nil => rfl
      | cons c rest =>
        have hc : '~' ≠ c := fun h => hrest (by rw [h]; rfl)
        simp [rooted, strip_cons, strip_nil, hc]
    | relative htilde hslash =>
      cases rest with
      | nil => rfl
      | cons c rest =>
        have hc : '~' ≠ c := fun h => htilde (by rw [h]; rfl)
        have hc' : '/' ≠ c := fun h => hslash (by rw [h]; rfl)
        simp [rooted, strip_cons, hc, hc']

theorem rooted_eq_ok (h : rooted scheme host raw = .ok (base, rest)) :
    rest = unrooted scheme raw := by
  cases rooted_iff.1 h with
  | https => rfl
  | home => rfl
  | slashHome => rfl
  | absolute hrest =>
    cases rest with
    | nil => rfl
    | cons c rest =>
      have hc : '~' ≠ c := fun h => hrest (by rw [h]; rfl)
      simp [unrooted, strip_cons, strip_nil, hc]
  | relative htilde hslash =>
    cases raw with
    | nil => rfl
    | cons c raw =>
      have hc : '~' ≠ c := fun h => htilde (by rw [h]; rfl)
      have hc' : '/' ≠ c := fun h => hslash (by rw [h]; rfl)
      simp [unrooted, strip_cons, hc, hc']

theorem unrooted_suffix (scheme : Scheme) (raw : Text) : unrooted scheme raw <:+ raw := by
  have hstrip : ∀ {start rest : Text}, strip start raw = some rest → rest <:+ raw := by
    intro start rest h
    rw [strip_eq_some.1 h]
    exact List.suffix_append _ _
  have hgetD : ∀ {o : Option Text}, (∀ rest, o = some rest → rest <:+ raw) →
      o.getD raw <:+ raw := by
    intro o h
    cases o with
    | none => exact List.suffix_rfl
    | some rest => exact h rest rfl
  cases scheme with
  | https => exact hgetD fun _ => hstrip
  | ssh =>
    refine hgetD fun rest h => ?_
    rcases Option.or_eq_some_iff.1 h with h | ⟨-, h⟩
    · rcases Option.or_eq_some_iff.1 h with h | ⟨-, h⟩
      · exact hstrip h
      · exact hstrip h
    · exact hstrip h

/-- A written segment is part of the path, and holds no slash. -/
theorem mem_written {s : Text} (h : s ∈ written scheme raw) :
    '/' ∉ s ∧ s <:+: upperEscapes raw := by
  unfold written at h
  dsimp only at h
  split_ifs at h
  · cases h
  · obtain ⟨hslash, hinfix⟩ := mem_splitOn h
    refine ⟨hslash, hinfix.trans ?_⟩
    exact (stripEnd_getD_isPrefix _ _).isInfix.trans (unrooted_suffix _ _).isInfix

/-- What the normalizer returns. -/
theorem canonicalPath_eq_ok {allowance : Bool} {base : Option Base}
    (h : canonicalPath raw scheme host allowance = .ok (base, segments)) :
    percentNormalized raw = .ok (upperEscapes raw) ∧
      (written scheme raw = [] ∧ segments = [] ∨ written scheme raw ≠ [] ∧
        (∀ s ∈ written scheme raw, s ≠ [] ∧ s ≠ ['.'] ∧ s ≠ ['.', '.']) ∧
        withoutSuffix (written scheme raw) = .ok segments ∧
        ∃ b, base = some b ∧ ∃ rest, rooted scheme host (upperEscapes raw) = .ok (b, rest)) := by
  obtain ⟨_, -, h⟩ := bind_eq_ok.1 h
  obtain ⟨out, hout, h⟩ := bind_eq_ok.1 h
  obtain rfl := percentNormalized_eq_ok hout
  obtain ⟨⟨b, rest⟩, hrooted, h⟩ := bind_eq_ok.1 h
  refine ⟨hout, ?_⟩
  have hrest := rooted_eq_ok hrooted
  dsimp only at h
  unfold written
  dsimp only
  rw [← hrest]
  by_cases hempty : (trimmed rest).isEmpty = true
  · rw [if_pos hempty] at h ⊢
    obtain ⟨_, -, h⟩ := bind_eq_ok.1 h
    cases h
    exact .inl ⟨rfl, rfl⟩
  · rw [if_neg hempty] at h ⊢
    obtain ⟨segments', hsegments, h⟩ := bind_eq_ok.1 h
    obtain ⟨_, hall, hsuffix⟩ := bind_eq_ok.1 hsegments
    cases h
    refine .inr ⟨List.splitOn_ne_nil _ _, fun s hs => ?_, hsuffix, b, rfl, rest, hrooted⟩
    have hno := List.any_eq_false.1 (refuseIf_eq_ok.1 hall) s hs
    simpa [and_assoc] using hno

/-- How the last segment is rewritten. -/
theorem withoutSuffix_eq_ok {out : List Text} (h : withoutSuffix segments = .ok out) :
    out = segments ∧ (∀ last, segments.getLast? = some last → ¬ dotGit <:+ last) ∨
      ∃ init stem, stem ≠ [] ∧ segments = init ++ [stem ++ dotGit] ∧ out = init ++ [stem] := by
  unfold withoutSuffix at h
  cases hlast : segments.getLast? with
  | none =>
    rw [hlast] at h
    cases h
    exact .inl ⟨rfl, by simp⟩
  | some last =>
    rw [hlast, Option.bind_some] at h
    cases hstem : stripEnd dotGit last with
    | none =>
      rw [hstem] at h
      cases h
      refine .inl ⟨rfl, ?_⟩
      rintro last' ⟨⟩
      exact stripEnd_eq_none.1 hstem
    | some stem =>
      rw [hstem] at h
      cases stem with
      | nil => cases h
      | cons c stem =>
        cases h
        refine .inr ⟨segments.dropLast, c :: stem, by simp, ?_, rfl⟩
        rw [← stripEnd_eq_some.1 hstem]
        exact (List.dropLast_append_getLast? last hlast).symm

/-! ### Safe segments -/

/-- A segment that names one entry of a directory, whatever reads it. -/
structure SafeSegment (s : Text) : Prop where
  nonempty : s ≠ []
  dot : s ≠ ['.']
  dots : s ≠ ['.', '.']
  slash : '/' ∉ s
  backslash : '\\' ∉ s
  control : ∀ c ∈ s, 0x20 ≤ c.toNat ∧ c.toNat ≠ 0x7f
  escapes : ∀ escape ∈ ["%2F", "%5C", "%2E", "%00"], ¬ escape.toList <:+: s.map Char.toUpper

/-- A last segment whose stem is `.` or `..`. -/
def dotted (segments : List Text) : Prop :=
  segments.getLast? = some ('.' :: dotGit) ∨ segments.getLast? = some ('.' :: '.' :: dotGit)

/-- A part of a normalized path holds no refused escape, in either case of its digits. -/
theorem escapes_normalized (h : percentNormalized raw = .ok out) {s : Text} (hs : s <:+: out) :
    ∀ escape ∈ ["%2F", "%5C", "%2E", "%00"], ¬ escape.toList <:+: s.map Char.toUpper := by
  -- an escape in upper case stands in the text as it is
  have hplain : ∀ {a b : Char}, ['%', a, b] <:+: s.map Char.toUpper →
      refusedEscape a b = false := by
    intro a b hinfix
    obtain ⟨before, after, heq⟩ := hinfix
    rw [List.append_assoc] at heq
    obtain ⟨s₁, s₂, rfl, -, h₂⟩ := List.map_eq_append_iff.1 heq.symm
    obtain ⟨x, s₃, rfl, hx, h₃⟩ := List.map_eq_cons_iff.1 h₂
    obtain ⟨y, s₄, rfl, hy, h₄⟩ := List.map_eq_cons_iff.1 h₃
    obtain ⟨z, s₅, rfl, hz, -⟩ := List.map_eq_cons_iff.1 h₄
    have hx : x = '%' := by
      rcases toUpper_cases x with h | h
      · exact h.symm.trans hx
      · have hall : lowerLetters.all (fun c => c.toUpper != '%') = true := by decide +kernel
        exact absurd hx (by simpa using List.all_eq_true.1 hall x h)
    subst hx
    obtain ⟨pre, post, hout⟩ := hs
    have hsplit : out = (pre ++ s₁) ++ '%' :: y :: z :: (s₅ ++ post) := by
      rw [← hout]
      simp
    obtain ⟨hy', hz', hok⟩ := escape_normalized h hsplit
    rw [← hy, ← hz, hy', hz']
    exact hok
  intro escape hescape hinfix
  simp only [List.mem_cons, List.not_mem_nil, or_false] at hescape
  rcases hescape with rfl | rfl | rfl | rfl
  · exact absurd (hplain (a := '2') (b := 'F') hinfix) (by decide)
  · exact absurd (hplain (a := '5') (b := 'C') hinfix) (by decide)
  · exact absurd (hplain (a := '2') (b := 'E') hinfix) (by decide)
  · exact absurd (hplain (a := '0') (b := '0') hinfix) (by decide)

theorem safeSegment_of_infix (h : percentNormalized raw = .ok out) {s : Text} (hs : s <:+: out)
    (hslash : '/' ∉ s) (hnonempty : s ≠ []) (hdot : s ≠ ['.']) (hdots : s ≠ ['.', '.']) :
    SafeSegment s := by
  have hchar : ∀ c ∈ s, refusedChar c = false := fun c hc =>
    refusedChar_normalized h c (hs.subset hc)
  have hplain : ∀ c ∈ s, c ≠ '\\' ∧ 0x20 ≤ c.toNat ∧ c.toNat ≠ 0x7f := by
    intro c hc
    have := hchar c hc
    simpa [refusedChar, and_assoc] using this
  exact ⟨hnonempty, hdot, hdots, hslash, fun hmem => (hplain _ hmem).1 rfl,
    fun c hc => (hplain c hc).2, escapes_normalized h hs⟩

/-- The segments of a canonical path are safe unless the last one was `..git` or `...git`. -/
theorem safe_canonicalPath {allowance : Bool} {base : Option Base}
    (h : canonicalPath raw scheme host allowance = .ok (base, segments)) :
    (∀ s ∈ segments, SafeSegment s) ↔ ¬ dotted (written scheme raw) := by
  obtain ⟨hout, ⟨hnone, rfl⟩ | ⟨-, hall, hsuffix, -⟩⟩ := canonicalPath_eq_ok h
  · rw [hnone]
    simp [dotted]
  have hwritten : ∀ s ∈ written scheme raw, SafeSegment s := by
    intro s hs
    obtain ⟨hslash, hinfix⟩ := mem_written hs
    obtain ⟨hnonempty, hdot, hdots⟩ := hall s hs
    exact safeSegment_of_infix hout hinfix hslash hnonempty hdot hdots
  rcases withoutSuffix_eq_ok hsuffix with ⟨rfl, hlast⟩ | ⟨init, stem, hne, hsegments, rfl⟩
  · refine ⟨fun _ hdotted => ?_, fun _ => hwritten⟩
    rcases hdotted with hd | hd
    · exact hlast _ hd (List.suffix_cons _ _)
    · exact hlast _ hd ((List.suffix_cons _ _).trans (List.suffix_cons _ _))
  · have hgetLast : (written scheme raw).getLast? = some (stem ++ dotGit) := by
      rw [hsegments]
      simp
    have hlast : stem ++ dotGit ∈ written scheme raw := by
      rw [hsegments]
      simp
    obtain ⟨hslash, hinfix⟩ := mem_written hlast
    constructor
    · intro hsafe hdotted
      have hstem := hsafe stem (by simp)
      rcases hdotted with hd | hd
      · rw [hgetLast] at hd
        exact hstem.dot (@List.append_cancel_right _ _ _ ['.'] (Option.some.inj hd))
      · rw [hgetLast] at hd
        exact hstem.dots (@List.append_cancel_right _ _ _ ['.', '.'] (Option.some.inj hd))
    · intro hdotted s hs
      rcases List.mem_append.1 hs with hs | hs
      · refine hwritten s ?_
        rw [hsegments]
        exact List.mem_append_left _ hs
      · rw [List.mem_singleton.1 hs]
        refine safeSegment_of_infix hout ((List.prefix_append _ _).isInfix.trans hinfix)
          (fun hmem => hslash (List.mem_append_left _ hmem)) hne ?_ ?_
        · rintro rfl
          exact hdotted (.inl hgetLast)
        · rintro rfl
          exact hdotted (.inr hgetLast)

/-! ### Destinations and allowances -/

theorem fromDestination_eq_ok {d : Destination} {t : Canonical}
    (h : Canonical.fromDestination d = .ok t) :
    t.scheme = d.scheme ∧ canonicalHost d.host.toList = .ok t.host ∧ t.segments ≠ [] ∧
      canonicalPath d.path.toList d.scheme t.host false = .ok (some t.base, t.segments) := by
  obtain ⟨_, -, h⟩ := bind_eq_ok.1 h
  obtain ⟨host, hhost, h⟩ := bind_eq_ok.1 h
  obtain ⟨⟨base, segments⟩, hpath, h⟩ := bind_eq_ok.1 h
  obtain ⟨base', hbase, h⟩ := bind_eq_ok.1 h
  obtain ⟨_, hne, h⟩ := bind_eq_ok.1 h
  cases h
  obtain rfl := required_eq_ok.1 hbase
  exact ⟨rfl, hhost, by simpa [refuseIf_eq_ok] using hne, hpath⟩

theorem parse_eq_ok {a : Allowance} (h : Allowance.parse text = .ok a) :
    ∃ scheme authority path host, splitAllowance text = .ok (scheme, authority, path) ∧
      splitAuthority authority scheme = .ok (a.user, host, a.port) ∧
      canonicalHost host = .ok a.host ∧ a.scheme = scheme ∧
      a.isPrefix = (path.getLast? == some '/') ∧
      canonicalPath path scheme a.host true = .ok (a.base, a.segments) := by
  obtain ⟨⟨scheme, authority, path⟩, hsplit, h⟩ := bind_eq_ok.1 h
  obtain ⟨⟨user, hostText, port⟩, hauthority, h⟩ := bind_eq_ok.1 h
  obtain ⟨host, hhost, h⟩ := bind_eq_ok.1 h
  obtain ⟨⟨base, segments⟩, hpath, h⟩ := bind_eq_ok.1 h
  obtain ⟨_, -, h⟩ := bind_eq_ok.1 h
  cases h
  exact ⟨scheme, authority, path, hostText, hsplit, hauthority, hhost, rfl, rfl, hpath⟩

/-- The segments of a canonical destination, and those of an allowance, are safe exactly when the
last one is not written `..git` or `...git`. -/
theorem segments_safe_iff (d : Destination) (text : Text) :
    (∀ t : Canonical, Canonical.fromDestination d = .ok t →
      t.segments ≠ [] ∧ ((∀ s ∈ t.segments, SafeSegment s) ↔
        ¬ dotted (written d.scheme d.path.toList))) ∧
    ∀ (a : Allowance) (scheme : Scheme) (authority path : Text),
      Allowance.parse text = .ok a → splitAllowance text = .ok (scheme, authority, path) →
      ((∀ s ∈ a.segments, SafeSegment s) ↔ ¬ dotted (written scheme path)) := by
  constructor
  · intro t h
    obtain ⟨-, -, hne, hpath⟩ := fromDestination_eq_ok h
    exact ⟨hne, safe_canonicalPath hpath⟩
  · intro a scheme authority path h hsplit
    obtain ⟨scheme', authority', path', host, hsplit', -, -, -, -, hpath⟩ := parse_eq_ok h
    rw [hsplit] at hsplit'
    cases hsplit'
    exact safe_canonicalPath hpath

/-- A repository named `...git` has the canonical name `..`. -/
theorem parent_segment_canonical :
    ∃ t, Canonical.fromDestination ⟨.https, "host", 443, "/group/...git", none, none⟩ = .ok t ∧
      ['.', '.'] ∈ t.segments ∧ ¬ SafeSegment ['.', '.'] := by
  refine ⟨⟨.https, "host".toList, 443, .absolute, ["group".toList, ['.', '.']]⟩, by decide +kernel,
    by decide, fun h => h.dots rfl⟩

theorem segments_safe_iff_repository :
    Canonical.fromDestination ⟨.https, "host", 443, "/group/repo.git", none, none⟩ =
        .ok ⟨.https, "host".toList, 443, .absolute, ["group".toList, "repo".toList]⟩ ∧
      (∀ s ∈ ["group".toList, "repo".toList], SafeSegment s) ∧
      Allowance.parse "host:group/".toList =
        .ok ⟨.ssh, none, "host".toList, 22, some .home, ["group".toList], true⟩ ∧
      ∀ s ∈ ["group".toList], SafeSegment s := by
  have hd : Canonical.fromDestination ⟨.https, "host", 443, "/group/repo.git", none, none⟩ =
      .ok ⟨.https, "host".toList, 443, .absolute, ["group".toList, "repo".toList]⟩ := by
    decide +kernel
  have ha : Allowance.parse "host:group/".toList =
      .ok ⟨.ssh, none, "host".toList, 22, some .home, ["group".toList], true⟩ := by decide +kernel
  have hboth := segments_safe_iff ⟨.https, "host", 443, "/group/repo.git", none, none⟩
    "host:group/".toList
  refine ⟨hd, (hboth.1 _ hd).2.2 ?_, ha,
    (hboth.2 _ .ssh "host".toList "group/".toList ha (by decide +kernel)).2 ?_⟩
  · unfold dotted
    decide +kernel
  · unfold dotted
    decide +kernel

/-! ### Prefixes -/

/-- The segments of a destination go on behind those of a prefix. -/
def Extends (segments start : List Text) : Prop :=
  start <+: segments ∧ start.length < segments.length

/-- What `written` keeps of the last segment. -/
theorem dropLast_withoutSuffix {out : List Text} (h : withoutSuffix segments = .ok out) :
    out.dropLast = segments.dropLast ∧ out.length = segments.length := by
  rcases withoutSuffix_eq_ok h with ⟨rfl, -⟩ | ⟨init, stem, -, rfl, rfl⟩
  · exact ⟨rfl, rfl⟩
  · simp

/-- The beginning of a list before its last element, from the list without it. -/
theorem take_of_dropLast {out : List Text} {n : ℕ} (h : out.dropLast = segments.dropLast)
    (hlength : out.length = segments.length) (hn : n < segments.length) :
    out.take n = segments.take n := by
  have hle : n ≤ segments.length - 1 := by omega
  have hdrop : ∀ l : List Text, l.length = segments.length → l.take n = l.dropLast.take n := by
    intro l hl
    rw [List.dropLast_eq_take, List.take_take, hl, min_eq_left hle]
  rw [hdrop out hlength, hdrop segments rfl, h]

theorem matches_of_isPrefix {a : Allowance} {t : Canonical} {base : Base}
    (hbase : a.base = some base)
    (hpre : a.isPrefix = true) : a.matches t = true ↔
      a.scheme = t.scheme ∧ a.host = t.host ∧ a.port = t.port ∧ base = t.base ∧
        Extends t.segments a.segments := by
  simp only [Allowance.matches, hbase, hpre, if_true, Bool.and_eq_true, beq_iff_eq,
    decide_eq_true_eq, Extends, and_assoc]
  refine and_congr_right fun _ => and_congr_right fun _ => and_congr_right fun _ =>
    and_congr_right fun _ => ?_
  rw [List.prefix_iff_eq_take, and_comm]
  exact and_congr_left fun _ => eq_comm

/-- The destination's own suffix does not count: a prefix ends before the last segment. -/
theorem extends_withoutSuffix {out start : List Text}
    (h : withoutSuffix segments = .ok out) : Extends out start ↔ Extends segments start := by
  obtain ⟨hdrop, hlength⟩ := dropLast_withoutSuffix h
  unfold Extends
  rw [hlength]
  refine and_congr_left fun hlt => ?_
  rw [List.prefix_iff_eq_take, List.prefix_iff_eq_take, take_of_dropLast hdrop hlength hlt]

/-! ### A destination below a prefix -/

theorem rooted_snoc (h : rooted scheme host raw = .ok (base, rest)) :
    rooted scheme host (raw ++ ['x']) = .ok (base, rest ++ ['x']) := by
  have hhead : ∀ {text : Text} {c : Char}, 'x' ≠ c → text.head? ≠ some c →
      (text ++ ['x']).head? ≠ some c := by
    intro text c hc h
    cases text with
    | nil => simpa using hc
    | cons d text => exact h
  rw [rooted_iff] at h ⊢
  cases h with
  | https => exact .https _
  | home => exact .home _
  | slashHome => exact .slashHome _
  | absolute htilde => exact .absolute (hhead (by decide) htilde)
  | relative htilde hslash =>
    exact .relative (hhead (by decide) htilde) (hhead (by decide) hslash)

/-- A trailing slash is no part of an escape. -/
theorem snoc_slash_normalized {before : Text} (h : percentNormalized (before ++ ['/']) = .ok out) :
    ∃ before', out = before' ++ ['/'] ∧ percentNormalized before = .ok before' := by
  rcases normalized_last (c := '/') (by decide) (by decide) h with
    ⟨hnil, -⟩ | ⟨r, o, hr, ho, hro⟩ | ⟨-, -, hnot, -⟩
  · simp at hnil
  · exact ⟨o, ho, (List.append_cancel_right hr) ▸ hro⟩
  · exact absurd (List.suffix_append _ _) hnot

/-- The slash belongs to the path behind the base. -/
theorem slash_of_rooted {before : Text}
    (h : rooted scheme host (before ++ ['/']) = .ok (base, rest))
    (hne : rest ≠ []) : ∃ body, rest = body ++ ['/'] := by
  have hsuffix := unrooted_suffix scheme (before ++ ['/'])
  rw [← rooted_eq_ok h] at hsuffix
  rcases List.suffix_concat_iff.1 hsuffix with hnil | ⟨body, rfl, -⟩
  · exact absurd hnil hne
  · exact ⟨body, rfl⟩

theorem trimmed_slash (body : Text) : trimmed (body ++ ['/']) = body := by
  rw [trimmed, stripEnd_eq_some.2 rfl]
  rfl

/-- A segment behind a written prefix. -/
theorem canonicalPath_snoc {base : Option Base}
    (h : canonicalPath raw scheme host true = .ok (base, segments))
    (hlast : raw.getLast? = some '/') (hne : written scheme raw ≠ [])
    (hlength : byteLength (raw ++ ['x']) ≤ maxPathBytes) :
    written scheme (raw ++ ['x']) = written scheme raw ++ [['x']] ∧
      canonicalPath (raw ++ ['x']) scheme host false =
        .ok (base, written scheme raw ++ [['x']]) := by
  obtain ⟨hout, ⟨hnone, -⟩ | ⟨-, hall, -, b, rfl, rest, hrooted⟩⟩ := canonicalPath_eq_ok h
  · exact absurd hnone hne
  have hout' := percentNormalized_append hout (show percentNormalized ['x'] = .ok ['x'] from rfl)
  have hupper : upperEscapes (raw ++ ['x']) = upperEscapes raw ++ ['x'] :=
    (percentNormalized_eq_ok hout').symm
  have hrest := rooted_eq_ok hrooted
  have hrooted' := rooted_snoc hrooted
  have hrest' : unrooted scheme (upperEscapes raw ++ ['x']) = rest ++ ['x'] :=
    (rooted_eq_ok hrooted').symm
  -- the rest ends with the slash of the path
  obtain ⟨before, rfl⟩ : ∃ before, raw = before ++ ['/'] := by
    obtain ⟨before, hb⟩ := List.getLast?_eq_some_iff.1 hlast
    exact ⟨before, hb⟩
  obtain ⟨before', hbefore', -⟩ := snoc_slash_normalized hout
  have hbody : trimmed rest ≠ [] := by
    intro hnil
    apply hne
    unfold written
    rw [← hrest, hnil]
    rfl
  obtain ⟨body, rfl⟩ : ∃ body, rest = body ++ ['/'] := by
    rw [hbefore'] at hrooted
    refine slash_of_rooted hrooted fun hnil => hbody ?_
    rw [hnil]
    rfl
  rw [trimmed_slash] at hbody
  have hwritten : written scheme (before ++ ['/']) = body.splitOn '/' := by
    unfold written
    rw [← hrest, trimmed_slash]
    exact if_neg (by simpa using hbody)
  have htrim : trimmed (body ++ ['/'] ++ ['x']) = body ++ '/' :: ['x'] := by
    rw [trimmed, stripEnd_eq_none.2 (fun hsuffix => by
      have := hsuffix.getLast (by simp)
      simp at this)]
    simp
  have hsplit : (body ++ '/' :: ['x']).splitOn '/' = body.splitOn '/' ++ [['x']] := by
    rw [List.splitOn_append_cons_self]
    rfl
  have hempty : ¬ (body ++ '/' :: ['x']).isEmpty = true := by simp
  constructor
  · rw [hwritten]
    unfold written
    rw [hupper, hrest', htrim]
    exact (if_neg hempty).trans hsplit
  · refine bind_eq_ok.2 ⟨(), refuseIf_eq_ok.2 (by simpa using hlength), bind_eq_ok.2 ⟨_, hout',
      bind_eq_ok.2 ⟨_, hrooted', ?_⟩⟩⟩
    dsimp only
    rw [htrim, if_neg hempty, segmentsOf, hsplit, hwritten]
    refine bind_eq_ok.2 ⟨_, bind_eq_ok.2 ⟨(), refuseIf_eq_ok.2 ?_, ?_⟩, rfl⟩
    · rw [List.any_eq_false]
      intro s hs
      rcases List.mem_append.1 hs with hs | hs
      · simpa [and_assoc] using hall s (hwritten ▸ hs)
      · rw [List.mem_singleton.1 hs]
        decide
    · rw [withoutSuffix, List.getLast?_append]
      rfl

theorem parsePort_eq_ok {port : ℕ} (h : parsePort text = .ok port) :
    0 < port ∧ port ≤ 65535 := by
  obtain ⟨_, -, h⟩ := bind_eq_ok.1 h
  obtain ⟨_, hrange, h⟩ := bind_eq_ok.1 h
  cases h
  have hrange : Nat.ofDigitChars 10 text 0 ≤ 65535 ∧ ¬ Nat.ofDigitChars 10 text 0 = 0 := by
    simpa [refuseIf_eq_ok] using hrange
  exact ⟨Nat.pos_of_ne_zero hrange.2, hrange.1⟩

theorem portOr_eq_ok {default port : ℕ} {tail : Text} (hdefault : 0 < default ∧ default ≤ 65535)
    (h : portOr default tail = .ok port) : 0 < port ∧ port ≤ 65535 := by
  unfold portOr at h
  split_ifs at h
  · cases h
    exact hdefault
  · obtain ⟨_, -, h⟩ := bind_eq_ok.1 h
    exact parsePort_eq_ok h

theorem splitAuthority_port {authority : Text} {user : Option Text} {host : Text} {port : ℕ}
    (h : splitAuthority authority scheme = .ok (user, host, port)) : 0 < port ∧ port ≤ 65535 := by
  have hdefault : 0 < (if scheme = .ssh then 22 else 443) ∧
      (if scheme = .ssh then 22 else 443) ≤ 65535 := by split_ifs <;> decide
  obtain ⟨⟨user', hostport⟩, -, h⟩ := bind_eq_ok.1 h
  obtain ⟨⟨host', port'⟩, hport, h⟩ := bind_eq_ok.1 h
  cases h
  unfold splitPort at hport
  split at hport
  · split at hport
    · cases hport
    · obtain ⟨_, hor, hport⟩ := bind_eq_ok.1 hport
      cases hport
      exact portOr_eq_ok hdefault hor
  · split at hport
    · cases hport
      exact hdefault
    · obtain ⟨_, -, hport⟩ := bind_eq_ok.1 hport
      obtain ⟨_, hparse, hport⟩ := bind_eq_ok.1 hport
      cases hport
      exact parsePort_eq_ok hparse

theorem byteLength_append (text text' : Text) :
    byteLength (text ++ text') = byteLength text + byteLength text' := by
  simp [byteLength]

theorem splitOnce_eq_some {separator before after : Text}
    (h : splitOnce separator text = some (before, after)) :
    text = before ++ separator ++ after := by
  induction text generalizing before after with
  | nil => cases h
  | cons c text ih =>
    rw [splitOnce] at h
    cases hstrip : strip separator (c :: text) with
    | some rest =>
      rw [hstrip] at h
      cases h
      exact strip_eq_some.1 hstrip
    | none =>
      rw [hstrip] at h
      obtain ⟨⟨before', after'⟩, hsides, heq⟩ := Option.map_eq_some_iff.1 h
      cases heq
      rw [ih hsides]
      rfl

theorem span_append (text : Text) (p : Char → Bool) :
    text = (text.span p).1 ++ (text.span p).2 := by
  rw [List.span_eq_takeWhile_dropWhile, List.takeWhile_append_dropWhile]

theorem scpSplit_length {authority path : Text} (h : scpSplit text = .ok (authority, path)) :
    byteLength path < byteLength text := by
  obtain ⟨_, -, h⟩ := bind_eq_ok.1 h
  have hskip : ∃ skipped rest, (if text.contains ']' then text.span (· != ']') else ([], text)) =
      (skipped, rest) ∧ text = skipped ++ rest := by
    split_ifs
    · exact ⟨_, _, rfl, span_append text _⟩
    · exact ⟨[], text, rfl, rfl⟩
  obtain ⟨skipped, rest, heq, rfl⟩ := hskip
  rw [heq] at h
  dsimp only at h
  have hrest := span_append rest fun c => c != ':'
  split at h
  · cases h
  next before c tail hspan =>
    obtain ⟨_, -, h⟩ := bind_eq_ok.1 h
    cases h
    rw [hspan] at hrest
    have hc : 0 < c.utf8Size := c.utf8Size_pos
    rw [hrest]
    simp only [byteLength, List.map_append, List.map_cons, List.sum_append, List.sum_cons]
    omega

/-- The path of an allowance is shorter than its text. -/
theorem splitAllowance_length {authority path : Text}
    (h : splitAllowance text = .ok (scheme, authority, path)) :
    byteLength path < byteLength text ∧ byteLength text ≤ maxPathBytes := by
  obtain ⟨_, hsize, h⟩ := bind_eq_ok.1 h
  have hmax : byteLength text ≤ maxPathBytes := by
    have hsize := refuseIf_eq_ok.1 hsize
    simp only [Bool.or_eq_false_iff, decide_eq_false_iff_not, not_lt] at hsize
    exact hsize.1.1.2
  refine ⟨?_, hmax⟩
  cases hsides : splitOnce [':', '/', '/'] text with
  | some sides =>
    obtain ⟨before, rest⟩ := sides
    rw [hsides] at h
    obtain ⟨scheme', -, h⟩ := bind_eq_ok.1 h
    obtain ⟨_, -, h⟩ := bind_eq_ok.1 h
    cases h
    have hsep : byteLength [':', '/', '/'] = 3 := by decide
    have hrest := congrArg byteLength (span_append rest fun c => c != '/')
    have htext := congrArg byteLength (splitOnce_eq_some hsides)
    rw [byteLength_append] at hrest
    rw [byteLength_append, byteLength_append, hsep] at htext
    show byteLength (rest.span fun c => c != '/').2 < byteLength text
    omega
  | none =>
    rw [hsides] at h
    obtain ⟨⟨authority', path'⟩, hscp, h⟩ := bind_eq_ok.1 h
    cases h
    exact scpSplit_length hscp

/-! ### What a prefix grants -/

/-- The law of a prefix: it admits what agrees with it up to the path and goes on behind it. -/
def PrefixLaw (a : Allowance) (start : List Text) : Prop :=
  ∀ (d : Destination) (t : Canonical), Canonical.fromDestination d = .ok t →
    (a.matches t = true ↔ a.scheme = t.scheme ∧ a.host = t.host ∧ a.port = t.port ∧
      a.base = some t.base ∧ Extends (written d.scheme d.path.toList) start)

/-- A destination whose path is a written prefix with one more segment. -/
theorem exists_below {authority path : Text} {a : Allowance} (h : Allowance.parse text = .ok a)
    (hsplit : splitAllowance text = .ok (scheme, authority, path))
    (hlast : path.getLast? = some '/') (hne : written scheme path ≠ []) :
    ∃ d t, Canonical.fromDestination d = .ok t ∧ t.scheme = a.scheme ∧ t.host = a.host ∧
      t.port = a.port ∧ a.base = some t.base ∧ t.segments = written scheme path ++ [['x']] ∧
      written d.scheme d.path.toList = written scheme path ++ [['x']] := by
  obtain ⟨scheme', authority', path', host, hsplit', hauthority, hhost, hscheme, -, hpath⟩ :=
    parse_eq_ok h
  rw [hsplit] at hsplit'
  cases hsplit'
  obtain ⟨hpos, hmax⟩ := splitAuthority_port hauthority
  obtain ⟨hlt, hle⟩ := splitAllowance_length hsplit
  have hlength : byteLength (path ++ ['x']) ≤ maxPathBytes := by
    have hx : byteLength ['x'] = 1 := by decide
    rw [byteLength_append, hx]
    omega
  obtain ⟨hwritten, hcanonical⟩ := canonicalPath_snoc hpath hlast hne hlength
  obtain ⟨-, ⟨hnone, -⟩ | ⟨-, -, -, b, hb, -⟩⟩ := canonicalPath_eq_ok hpath
  · exact absurd hnone hne
  rw [hb] at hcanonical
  refine ⟨⟨scheme, String.ofList host, a.port, String.ofList (path ++ ['x']), none, none⟩,
    ⟨scheme, a.host, a.port, b, written scheme path ++ [['x']]⟩, ?_, hscheme.symm, rfl,
      rfl, hb, rfl,
    by simpa using hwritten⟩
  refine bind_eq_ok.2 ⟨(), refuseIf_eq_ok.2 ?_, bind_eq_ok.2 ⟨a.host, by simpa using hhost,
    bind_eq_ok.2 ⟨_, by simpa using hcanonical, bind_eq_ok.2 ⟨b, rfl, bind_eq_ok.2
      ⟨(), refuseIf_eq_ok.2 (by simp), ?_⟩⟩⟩⟩⟩
  · simp only [Bool.or_eq_false_iff, decide_eq_false_iff_not, not_le, not_lt]
    exact ⟨by exact_mod_cast hpos, by exact_mod_cast hmax⟩
  · rfl

/-- What the last segment of a canonical path may lose. -/
theorem withoutSuffix_last {out : List Text} (h : withoutSuffix segments = .ok out) :
    out.dropLast = segments.dropLast ∧
      (out.getLast? = segments.getLast? ∨
        ∃ stem, out.getLast? = some stem ∧ segments.getLast? = some (stem ++ dotGit)) := by
  refine ⟨(dropLast_withoutSuffix h).1, ?_⟩
  rcases withoutSuffix_eq_ok h with ⟨rfl, -⟩ | ⟨init, stem, -, rfl, rfl⟩
  · exact .inl rfl
  · exact .inr ⟨stem, by simp, by simp⟩

/-- A prefix grants what it is written for exactly when its last segment has no suffix `.git`; a
destination, and an allowance of any kind, loses such a suffix at the last segment only. -/
theorem prefix_law_iff (text : Text) (d : Destination) :
    (∀ (authority path : Text) (scheme : Scheme) (a : Allowance),
      Allowance.parse text = .ok a → splitAllowance text = .ok (scheme, authority, path) →
      path.getLast? = some '/' → a.base.isSome = true →
      ((PrefixLaw a (written scheme path) ∧ a.segments = written scheme path) ↔
        ∀ last, (written scheme path).getLast? = some last → ¬ dotGit <:+ last)) ∧
    (∀ t : Canonical, Canonical.fromDestination d = .ok t →
      t.segments.dropLast = (written d.scheme d.path.toList).dropLast ∧
        (t.segments.getLast? = (written d.scheme d.path.toList).getLast? ∨
          ∃ stem, t.segments.getLast? = some stem ∧
            (written d.scheme d.path.toList).getLast? = some (stem ++ dotGit))) ∧
    ∀ (authority path : Text) (scheme : Scheme) (a : Allowance),
      Allowance.parse text = .ok a → splitAllowance text = .ok (scheme, authority, path) →
      a.segments.dropLast = (written scheme path).dropLast ∧
        (a.segments.getLast? = (written scheme path).getLast? ∨
          ∃ stem, a.segments.getLast? = some stem ∧
            (written scheme path).getLast? = some (stem ++ dotGit)) := by
  refine ⟨?_, ?_, ?_⟩
  · intro authority path scheme a h hsplit hlast hbase
    obtain ⟨scheme', authority', path', host, hsplit', -, -, -, hpre, hpath⟩ := parse_eq_ok h
    rw [hsplit] at hsplit'
    cases hsplit'
    have hpre : a.isPrefix = true := by rw [hpre, hlast]; rfl
    obtain ⟨b, hb⟩ := Option.isSome_iff_exists.1 hbase
    obtain ⟨-, hsegments⟩ := canonicalPath_eq_ok hpath
    constructor
    · -- a prefix that lost a suffix does not admit what is below it as written
      rintro ⟨hlaw, -⟩ last hlast' hgit
      obtain ⟨hnone, -⟩ | ⟨hne, -, hsuffix, -⟩ := hsegments
      · rw [hnone] at hlast'
        cases hlast'
      obtain ⟨d, t, hd, hscheme, hhost, hport, hbelow, hbelow', hwritten⟩ :=
        exists_below h hsplit hlast hne
      have hmatch := (hlaw d t hd).2 ⟨hscheme.symm, hhost.symm, hport.symm, hbelow, by
        rw [hwritten]
        exact ⟨List.prefix_append _ _, by simp⟩⟩
      have hext := ((matches_of_isPrefix hb hpre).1 hmatch).2.2.2.2.1
      rw [hbelow'] at hext
      rcases withoutSuffix_eq_ok hsuffix with ⟨-, hno⟩ | ⟨init, stem, -, hw, ha⟩
      · exact hno last hlast' hgit
      · rw [hw, ha, List.append_assoc, List.prefix_append_right_inj] at hext
        have hstem := (List.cons_prefix_cons.1 hext).1
        have := congrArg List.length hstem
        simp [dotGit] at this
    · intro hno
      have heq : a.segments = written scheme path := by
        obtain ⟨hnone, hnil⟩ | ⟨-, -, hsuffix, -⟩ := hsegments
        · rw [hnone, hnil]
        obtain ⟨heq, -⟩ | ⟨init, stem, -, hw, -⟩ := withoutSuffix_eq_ok hsuffix
        · exact heq
        · exact absurd (List.suffix_append stem dotGit) (hno _ (by rw [hw]; simp))
      refine ⟨fun d t hd => ?_, heq⟩
      obtain ⟨-, -, htne, htpath⟩ := fromDestination_eq_ok hd
      obtain ⟨-, ⟨-, hnil⟩ | ⟨-, -, htsuffix, -⟩⟩ := canonicalPath_eq_ok htpath
      · exact absurd hnil htne
      rw [matches_of_isPrefix hb hpre, extends_withoutSuffix htsuffix, heq, hb, Option.some.injEq]
  · intro t hd
    obtain ⟨-, -, htne, htpath⟩ := fromDestination_eq_ok hd
    obtain ⟨-, ⟨-, hnil⟩ | ⟨-, -, htsuffix, -⟩⟩ := canonicalPath_eq_ok htpath
    · exact absurd hnil htne
    exact withoutSuffix_last htsuffix
  · intro authority path scheme a h hsplit
    obtain ⟨scheme', authority', path', host, hsplit', -, -, -, -, hpath⟩ := parse_eq_ok h
    rw [hsplit] at hsplit'
    cases hsplit'
    obtain ⟨-, ⟨hnone, hnil⟩ | ⟨-, -, hsuffix, -⟩⟩ := canonicalPath_eq_ok hpath
    · rw [hnone, hnil]
      exact ⟨rfl, .inl rfl⟩
    · exact withoutSuffix_last hsuffix

/-- The prefix `team.git/` admits what is below `team`, and not what is below `team.git`. -/
theorem prefix_loses_suffix :
    ∃ a t t', Allowance.parse "https://host/team.git/".toList = .ok a ∧
      Canonical.fromDestination ⟨.https, "host", 443, "/team/repo", none, none⟩ = .ok t ∧
      Canonical.fromDestination ⟨.https, "host", 443, "/team.git/repo", none, none⟩ = .ok t' ∧
      a.matches t = true ∧ a.matches t' = false ∧ a.base = some t'.base ∧
      ¬ Extends (written .https "/team/repo".toList) (written .https "/team.git/".toList) ∧
      Extends (written .https "/team.git/repo".toList) (written .https "/team.git/".toList) := by
  refine ⟨⟨.https, none, "host".toList, 443, some .absolute, ["team".toList], true⟩,
    ⟨.https, "host".toList, 443, .absolute, ["team".toList, "repo".toList]⟩,
    ⟨.https, "host".toList, 443, .absolute, ["team.git".toList, "repo".toList]⟩, by decide +kernel,
    by decide +kernel, by decide +kernel, by decide +kernel, by decide +kernel, rfl, ?_, ?_⟩
  · unfold Extends
    decide +kernel
  · unfold Extends
    decide +kernel

/-- A prefix without the suffix. -/
theorem prefix_law_iff_team :
    Allowance.parse "https://host/team/".toList =
        .ok ⟨.https, none, "host".toList, 443, some .absolute, ["team".toList], true⟩ ∧
      PrefixLaw ⟨.https, none, "host".toList, 443, some .absolute, ["team".toList], true⟩
        ["team".toList] := by
  have ha : Allowance.parse "https://host/team/".toList =
      .ok ⟨.https, none, "host".toList, 443, some .absolute, ["team".toList], true⟩ := by
    decide +kernel
  have hw : written .https "/team/".toList = ["team".toList] := by decide +kernel
  refine ⟨ha, ?_⟩
  have hlaw := (((prefix_law_iff "https://host/team/".toList
    ⟨.https, "host", 443, "/team/", none, none⟩).1 "host".toList "/team/".toList .https _ ha
    (by decide +kernel) (by decide +kernel) rfl).2 (by
      rw [hw]
      rintro last ⟨⟩
      decide +kernel)).1
  rwa [hw] at hlaw

end GwzTransport.Remote
