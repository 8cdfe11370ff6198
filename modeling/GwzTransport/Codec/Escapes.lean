import GwzTransport.Codec.Text

/-!
# The percent-decoding scan against the whole text

`has_decoded_control` never holds the decoded text: it keeps the bytes of one unfinished character
and asks the validator after every byte.  The abstract side is `percentDecoded`, the decoded bytes
as a list, and the validator's verdict on all of them at once.

* `utf8Head_append`: bytes behind it do not change a verdict that is final;
* `DecodedScan.run_eq`: the scan computes the verdict on the whole text, from any of its states.
-/

namespace GwzTransport.Codec

/-- The bytes of a text with its escapes replaced: a `%` with two hex digits behind it stands for
one byte, every other byte for itself. -/
def percentDecoded : List UInt8 → List UInt8
  | b :: h :: l :: rest =>
    match hex h, hex l with
    | some x, some y =>
      if b == 0x25 then (x * 16 + y) :: percentDecoded rest
      else b :: percentDecoded (h :: l :: rest)
    | _, _ => b :: percentDecoded (h :: l :: rest)
  | bytes => bytes
termination_by bytes => bytes.length

/-- The scan over decoded bytes. -/
def DecodedScan.run (s : DecodedScan) : List UInt8 → Bool
  | [] => s.unicodeControl && !s.invalid && s.pending.isEmpty
  | b :: rest =>
    match s.byte b with
    | none => true
    | some s' => s'.run rest

/-- The loop of the source decodes as it goes. -/
theorem decodedControlFrom_eq_run (s : DecodedScan) (bytes : List UInt8) :
    decodedControlFrom s bytes = s.run (percentDecoded bytes) := by
  fun_induction percentDecoded bytes generalizing s with
  | case1 b h l rest x y hx hy hb ih =>
    rw [decodedControlFrom, if_pos hb, DecodedScan.run]
    simp only [hx, hy]
    cases s.byte (x * 16 + y) with
    | none => rfl
    | some s' => exact ih s'
  | case2 b h l rest x y hx hy hb ih =>
    rw [decodedControlFrom, if_neg hb, DecodedScan.run]
    cases s.byte b with
    | none => rfl
    | some s' => exact ih s'
  | case3 b h l rest hhex ih =>
    rw [decodedControlFrom, DecodedScan.run]
    have hnext : ∀ s', decodedControlFrom s' (h :: l :: rest) = _ := ih
    simp only [hnext]
    cases hh : hex h <;> cases hl : hex l <;>
      first | exact (hhex _ _ hh hl).elim | (cases s.byte b <;> simp only [ite_self])
  | case4 bytes hshort =>
    -- too short for an escape
    have hnil : ∀ s, decodedControlFrom s [] = s.run [] := by
      intro s
      rw [decodedControlFrom, DecodedScan.run]
    have hone : ∀ s b, decodedControlFrom s [b] = s.run [b] := by
      intro s b
      rw [decodedControlFrom, DecodedScan.run]
      · simp only [hnil]
        cases s.byte b <;> simp
      · simp
    rcases bytes with _ | ⟨b, _ | ⟨h, _ | ⟨l, rest⟩⟩⟩
    · exact hnil s
    · exact hone s b
    · rw [decodedControlFrom, DecodedScan.run]
      · simp only [hone]
        cases s.byte b <;> simp
      · simp
    · exact absurd rfl (hshort b h l rest)

/-! ### The validator on longer inputs -/

section Utf8

variable {x y r : List UInt8} {c : Char} {b : UInt8}

/-- Bytes behind them do not change the verdict on bytes that are or start no character: they stay
behind a whole character, and make none of bytes that start none. -/
theorem utf8Head_append (x y : List UInt8) : match utf8Head x with
    | .char c r => utf8Head (x ++ y) = .char c (r ++ y) ∧ r.length < x.length
    | .invalid => utf8Head (x ++ y) = .invalid
    | .incomplete => x.length < 4 := by
  rcases x with _ | ⟨b0, x⟩
  · simp [utf8Head]
  rw [List.cons_append]
  unfold utf8Head
  dsimp only
  -- one, two, three or four bytes, as the lead byte says
  split_ifs
  · simp
  · rcases x with _ | ⟨b1, x⟩ <;> dsimp only [List.cons_append] <;> (try split_ifs) <;> simp
  · rcases x with _ | ⟨b1, _ | ⟨b2, x⟩⟩ <;> dsimp only [List.cons_append] <;>
      (try split_ifs) <;> simp
    omega
  · rcases x with _ | ⟨b1, _ | ⟨b2, _ | ⟨b3, x⟩⟩⟩ <;> dsimp only [List.cons_append] <;>
      (try split_ifs) <;> simp
    omega
  · rfl

theorem utf8Head_char (h : utf8Head x = .char c r) (y : List UInt8) :
    utf8Head (x ++ y) = .char c (r ++ y) ∧ r.length < x.length := by
  simpa only [h] using utf8Head_append x y

theorem utf8Head_invalid (h : utf8Head x = .invalid) (y : List UInt8) :
    utf8Head (x ++ y) = .invalid := by
  simpa only [h] using utf8Head_append x y

/-- A beginning of a character has at most three bytes, and one more byte completes it at most. -/
theorem utf8Head_snoc (h : utf8Head x = .incomplete) (b : UInt8) :
    x.length < 4 ∧ ∀ c r, utf8Head (x ++ [b]) = .char c r → r = [] := by
  rcases x with _ | ⟨b0, x⟩
  · refine ⟨by simp, fun c r h => ?_⟩
    have := (utf8Head_char h []).2
    simpa using this
  rw [List.cons_append]
  unfold utf8Head at h ⊢
  dsimp only at h ⊢
  split_ifs at h ⊢
  · rcases x with _ | ⟨b1, x⟩ <;> dsimp only [List.cons_append, List.nil_append] at h ⊢ <;>
      (try split_ifs at h ⊢) <;> simp_all
  · rcases x with _ | ⟨b1, _ | ⟨b2, x⟩⟩ <;>
      dsimp only [List.cons_append, List.nil_append] at h ⊢ <;>
      (try split_ifs at h ⊢) <;> simp_all
  · rcases x with _ | ⟨b1, _ | ⟨b2, _ | ⟨b3, x⟩⟩⟩ <;>
      dsimp only [List.cons_append, List.nil_append] at h ⊢ <;>
      (try split_ifs at h ⊢) <;> simp_all

theorem length_of_utf8Head (h : utf8Head x = .char c r) : r.length < x.length :=
  (utf8Head_char h []).2

/-- Fuel for every byte is enough. -/
theorem fromUtf8Fuel_eq {n : ℕ} (h : x.length ≤ n) : fromUtf8Fuel n x = fromUtf8 x := by
  unfold fromUtf8
  induction n using Nat.strong_induction_on generalizing x with
  | _ n ih =>
    match n, x with
    | _, [] => rw [fromUtf8Fuel, fromUtf8Fuel]
    | 0, b :: bs => cases h
    | n + 1, b :: bs =>
      rw [List.length_cons, fromUtf8Fuel, fromUtf8Fuel]
      cases hhead : utf8Head (b :: bs) with
      | invalid => rfl
      | incomplete => rfl
      | char c r =>
        have hlt := length_of_utf8Head hhead
        rw [List.length_cons] at h hlt
        simp only
        rw [ih n (by omega) (by omega)]
        rcases Nat.lt_or_ge bs.length (n + 1) with hbs | hbs
        · rw [ih bs.length hbs (by omega)]
        · obtain rfl : bs.length = n := by omega
          rw [ih bs.length (by omega) (by omega)]

theorem fromUtf8_cons (b : UInt8) (x : List UInt8) : fromUtf8 (b :: x) =
    match utf8Head (b :: x) with
    | .char c r => (fromUtf8 r).map (c :: ·)
    | .invalid => .error true
    | .incomplete => .error false := by
  rw [fromUtf8, List.length_cons, fromUtf8Fuel]
  cases hhead : utf8Head (b :: x) with
  | invalid => rfl
  | incomplete => rfl
  | char c r =>
    have hlt := length_of_utf8Head hhead
    rw [List.length_cons] at hlt
    simp only
    rw [fromUtf8Fuel_eq (by omega)]

theorem fromUtf8_append (h : fromUtf8 x ≠ .error false) (y : List UInt8) :
    fromUtf8 (x ++ y) = (fromUtf8 x).bind fun t => (fromUtf8 y).map (t ++ ·) := by
  induction hn : x.length using Nat.strong_induction_on generalizing x with
  | _ n ih =>
    cases x with
    | nil =>
      rw [List.nil_append]
      cases fromUtf8 y <;> rfl
    | cons b x =>
      rw [fromUtf8_cons] at h
      rw [List.cons_append, fromUtf8_cons, fromUtf8_cons b x, ← List.cons_append]
      cases hhead : utf8Head (b :: x) with
      | invalid =>
        rw [utf8Head_invalid hhead y]
        rfl
      | incomplete => simp [hhead] at h
      | char c r =>
        rw [(utf8Head_char hhead y).1]
        simp only [hhead] at h ⊢
        rw [ih r.length (hn ▸ length_of_utf8Head hhead) (fun hr => h (by rw [hr]; rfl)) rfl]
        cases fromUtf8 r <;> cases fromUtf8 y <;> rfl

/-- A beginning of a character with one more byte: a whole character, none, or still a beginning,
and then of at most three bytes. -/
theorem incomplete_of_error (h : utf8Head x = .incomplete)
    (he : fromUtf8 (x ++ [b]) = .error false) :
    utf8Head (x ++ [b]) = .incomplete ∧ (x ++ [b]).length < 4 := by
  obtain ⟨a, xs, hx⟩ : ∃ a xs, x ++ [b] = a :: xs := by
    cases x with
    | nil => exact ⟨_, _, rfl⟩
    | cons a xs => exact ⟨_, _, rfl⟩
  have hsnoc := utf8Head_snoc h b
  rw [hx] at he hsnoc ⊢
  rw [fromUtf8_cons] at he
  cases hhead : utf8Head (a :: xs) with
  | incomplete => exact ⟨rfl, (utf8Head_snoc hhead b).1⟩
  | invalid => simp [hhead] at he
  | char c r =>
    rw [hhead, hsnoc.2 c r hhead] at he
    cases he

end Utf8

/-! ### The scan -/

/-- What the scan answers for the rest of the bytes. -/
theorem DecodedScan.run_eq (s : DecodedScan)
    (hs : s.invalid = false → utf8Head s.pending = .incomplete) (d : List UInt8) :
    s.run d = (d.any isAsciiControl || !s.invalid && match fromUtf8 (s.pending ++ d) with
      | .ok text => s.unicodeControl || text.any isControl
      | .error _ => false) := by
  induction d generalizing s with
  | nil =>
    rw [DecodedScan.run, List.append_nil, List.any_nil, Bool.false_or]
    cases hinv : s.invalid with
    | true => simp
    | false =>
      cases hp : s.pending with
      | nil => simp [fromUtf8, fromUtf8Fuel]
      | cons b p =>
        rw [fromUtf8_cons, ← hp, hs hinv]
        simp [hp]
  | cons b d ih =>
    rw [DecodedScan.run, List.any_cons]
    unfold DecodedScan.byte
    cases hb : isAsciiControl b with
    | true => rfl
    | false =>
      rw [if_neg Bool.false_ne_true, Bool.false_or]
      cases hinv : s.invalid with
      | true =>
        rw [if_pos rfl]
        simp only
        rw [ih s hs, hinv]
        rfl
      | false =>
        rw [if_neg Bool.false_ne_true, List.append_cons s.pending b d]
        have hhead := hs hinv
        simp only
        cases hutf : fromUtf8 (s.pending ++ [b]) with
        | ok text =>
          simp only
          rw [ih _ fun _ => rfl, fromUtf8_append (x := s.pending ++ [b]) (by simp [hutf]), hutf]
          cases hd : fromUtf8 d with
          | ok t => simp [hd, Except.bind, Except.map, Bool.or_assoc]
          | error e => simp [hd, Except.bind, Except.map]
        | error definite =>
          cases definite with
          | true =>
            simp only [Bool.true_or, if_true]
            rw [ih _ (fun h => by cases h), fromUtf8_append (by simp [hutf]), hutf]
            simp [Except.bind]
          | false =>
            obtain ⟨hstill, hlen⟩ := incomplete_of_error hhead hutf
            have hne : ((s.pending ++ [b]).length == 4) = false := by
              rw [beq_eq_false_iff_ne]
              omega
            simp only [hne, Bool.or_false, Bool.false_eq_true, if_false]
            rw [ih _ fun _ => hstill]

/-- **The scan finds exactly the control characters of the decoded text.** -/
theorem hasDecodedControl_iff (value : String) : hasDecodedControl value = true ↔
    (∃ b ∈ percentDecoded (bytesOf value), isAsciiControl b = true) ∨
      ∃ text, fromUtf8 (percentDecoded (bytesOf value)) = .ok text ∧
        ∃ c ∈ text, isControl c = true := by
  rw [hasDecodedControl, decodedControlFrom_eq_run, DecodedScan.run_eq _ fun _ => rfl]
  simp only [List.nil_append, Bool.or_eq_true, Bool.not_false, Bool.true_and, List.any_eq_true]
  refine or_congr_right ?_
  cases fromUtf8 (percentDecoded (bytesOf value)) with
  | ok text => simp [List.any_eq_true]
  | error e => simp

end GwzTransport.Codec
