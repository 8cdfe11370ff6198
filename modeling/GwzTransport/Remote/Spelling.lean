import GwzTransport.Remote.Hosts
import GwzTransport.Remote.Path

/-!
# Spellings of one destination

Two ways to write a destination that name the same repository have the same canonical form, so the
client admits both or neither.

* `scan`: `percent_normalized` as it walks over bytes, where a slice may fail; it never does
  (`scan_eq`);
* `HostSpelling`, `PathSpelling`: the changes of a spelling, one at a time;
* `Spelling`: the same for a whole destination.
-/

namespace GwzTransport.Remote

open Protocol Checks Strings

/-! ### Hosts -/

/-- An address that the standard library reads back as it writes it. -/
def RoundTrips (groups : List ℕ) : Prop := parseIpv6 (ipv6Text groups) = some groups

variable {scheme : Scheme} {host raw out rest : Text} {segments : List Text}

/-- A canonical host is canonical. -/
theorem canonicalHost_idempotent
    (hround : ∀ groups, parseIpv6 (addressOf host) = some groups → RoundTrips groups)
    (h : canonicalHost host = .ok out) : canonicalHost out = .ok out := by
  rcases canonicalHost_cases h with ⟨-, h⟩ | ⟨groups, hgroups, rfl⟩
  · obtain ⟨hname, hundotted⟩ := isName_canonical h
    rw [canonicalHost_name hname, hundotted, ← h]
    refine canonicalName_congr ?_
    rw [(canonicalName_eq_ok h).1, List.map_map]
    exact congrArg (List.map · _) (funext toLower_toLower)
  · have hchars : ∀ c ∈ ipv6Text groups, c ≠ '[' ∧ c ≠ '%' :=
      forall_mem_ipv6Text (fun k hk => by interval_cases k <;> decide) (by decide)
      (by decide) groups
    have hstrip : strip ['['] (ipv6Text groups) = none := by
      by_contra hne
      obtain ⟨rest, hrest⟩ := Option.ne_none_iff_exists'.1 hne
      rw [strip_eq_some] at hrest
      exact (hchars '[' (hrest ▸ List.mem_append_left _ (by decide))).1 rfl
    have hcolon : (ipv6Text groups).contains ':' = true :=
      List.contains_iff_mem.2 (colon_mem_ipv6Text (length_of_parseIpv6 hgroups))
    have hpercent : (ipv6Text groups).contains '%' = false := by
      rw [← Bool.not_eq_true, List.contains_iff_mem]
      exact fun hc => (hchars _ hc).2 rfl
    unfold canonicalHost
    rw [hstrip]
    simp only [Option.bind_none, hcolon, if_true]
    exact bind_eq_ok.2 ⟨(), refuseIf_eq_ok.2 hpercent,
      bind_eq_ok.2 ⟨groups, required_eq_ok.2 (hround _ hgroups), rfl⟩⟩

/-- The spellings of a host name. -/
inductive HostSpelling (host : Text) : Text → Prop
  | letterCase {host'} : host'.map Char.toLower = host.map Char.toLower → HostSpelling host host'
  | trailingDot : ¬ ['.'] <:+ host → HostSpelling host (host ++ ['.'])

/-- Host names that differ in the case of letters. -/
theorem isName_lower (host : Text) : IsName (host.map Char.toLower) ↔ IsName host := by
  have hopen := toLower_eq_iff (x := '[') (by decide)
  have hclose := toLower_eq_iff (x := ']') (by decide)
  have hcolon := toLower_eq_iff (x := ':') (by decide)
  unfold IsName
  rw [strip_map hopen]
  refine and_congr ?_ (not_congr ?_)
  · cases strip ['['] host with
    | none => exact Iff.rfl
    | some rest =>
      show stripEnd [']'] (rest.map Char.toLower) = none ↔ stripEnd [']'] rest = none
      rw [stripEnd_map hclose, Option.map_eq_none_iff]
  · simp [List.mem_map, hcolon]

theorem undotted_lower (host : Text) :
    undotted (host.map Char.toLower) = (undotted host).map Char.toLower := by
  unfold undotted
  rw [stripEnd_map (toLower_eq_iff (x := '.') (by decide))]
  cases stripEnd ['.'] host <;> rfl

theorem canonicalHost_spelling {host' : Text} (hname : IsName host)
    (h : HostSpelling host host') : canonicalHost host' = canonicalHost host := by
  cases h with
  | letterCase h =>
    have hname' : IsName host' := by rwa [← isName_lower, h, isName_lower]
    rw [canonicalHost_name hname, canonicalHost_name hname']
    exact canonicalName_congr (by rw [← undotted_lower, h, undotted_lower])
  | trailingDot hdot =>
    have hname' : IsName (host ++ ['.']) := by
      refine ⟨?_, fun hc => ?_⟩
      · refine Option.bind_eq_none_iff.2 fun rest hrest => stripEnd_eq_none.2 ?_
        rintro ⟨inner, rfl⟩
        have hlast := congrArg List.getLast? (strip_eq_some.1 hrest)
        rw [← List.append_assoc, List.getLast?_concat, List.getLast?_concat] at hlast
        exact absurd hlast (by decide)
      · rcases List.mem_append.1 hc with hc | hc
        · exact hname.2 hc
        · exact absurd hc (by decide)
    rw [canonicalHost_name hname, canonicalHost_name hname', undotted, undotted,
      stripEnd_eq_some.2 rfl, stripEnd_eq_none.2 hdot]
    rfl

/-! ### Percent escapes -/

/-- A normalized path is normalized. -/
theorem percentNormalized_idempotent (h : percentNormalized raw = .ok out) :
    percentNormalized out = .ok out := by
  refine percentNormalized_induction (P := fun _ out => percentNormalized out = .ok out) rfl ?_ ?_ h
  · exact fun c _ _ hc hok ih => percentNormalized_cons_ok hc hok ih
  · intro a b _ out ha hb hok ih
    have h := percentNormalized_escape_ok ((isHexDigit_toUpper a).trans ha)
      ((isHexDigit_toUpper b).trans hb) ((refusedEscape_upper _ _).trans hok) ih
    rwa [(upper_hexDigit ha).2.2, (upper_hexDigit hb).2.2] at h

theorem normalized_suffix (tail : Text) (h : percentNormalized raw = .ok out)
    (htail : (tail.all fun c => !isHexDigit c && c != '%') = true) (hout : tail <:+ out) :
    tail <:+ raw := by
  induction tail using List.reverseRecOn generalizing raw out with
  | nil => exact List.nil_suffix
  | append_singleton tail c ih =>
    obtain ⟨before, rfl⟩ := hout
    rw [List.all_append, Bool.and_eq_true] at htail
    have hc : isHexDigit c = false ∧ c ≠ '%' := by simpa using htail.2
    rw [← List.append_assoc] at h
    rcases normalized_last hc.1 hc.2 h with ⟨-, hout⟩ | ⟨r, o, rfl, hout, hr⟩ | ⟨-, -, -, hout⟩
    · simp at hout
    · obtain rfl := List.append_cancel_right hout
      obtain ⟨before', rfl⟩ := ih hr htail.1 (List.suffix_append _ _)
      exact ⟨before', by simp⟩
    · exact absurd (List.suffix_append _ _) hout

theorem head?_normalized (h : percentNormalized raw = .ok out) :
    out.head? = raw.head? :=
  percentNormalized_induction (P := fun raw out => out.head? = raw.head?) rfl
    (fun _ _ _ _ _ _ => rfl) (fun _ _ _ _ _ _ _ _ => rfl) h

/-- Paths that differ in the case of the hex digits of their escapes. -/
inductive SameEscapes : Text → Text → Prop
  | nil : SameEscapes [] []
  | char {c raw raw'} : c ≠ '%' → SameEscapes raw raw' → SameEscapes (c :: raw) (c :: raw')
  | escape {a b a' b' raw raw'} : a'.toUpper = a.toUpper → b'.toUpper = b.toUpper →
      SameEscapes raw raw' → SameEscapes ('%' :: a :: b :: raw) ('%' :: a' :: b' :: raw')

theorem SameEscapes.normalized {raw' : Text} (h : SameEscapes raw raw')
    (hout : percentNormalized raw = .ok out) : percentNormalized raw' = .ok out := by
  have hhex : ∀ {c c' : Char}, c'.toUpper = c.toUpper → isHexDigit c = true →
      isHexDigit c' = true := by
    intro c c' hcase hc
    rw [← isHexDigit_toUpper, hcase, isHexDigit_toUpper, hc]
  induction h generalizing out with
  | nil => exact hout
  | char hc _ ih =>
    obtain ⟨hok, rest, hrest, rfl⟩ := percentNormalized_cons hc hout
    exact percentNormalized_cons_ok hc hok (ih hrest)
  | escape ha hb _ ih =>
    obtain ⟨_, _, _, rest, heq, hhexA, hhexB, hok, hrest, rfl⟩ := percentNormalized_escape hout
    cases heq
    rw [← ha, ← hb]
    refine percentNormalized_escape_ok (hhex ha hhexA) (hhex hb hhexB) ?_ (ih hrest)
    rw [← refusedEscape_upper, ha, hb, refusedEscape_upper]
    exact hok

/-! ### Bytes -/

/-- The bytes of a text. -/
def utf8 (text : Text) : List UInt8 := text.flatMap String.utf8EncodeChar

/-- The text from a byte on, if a character begins there. -/
def fromByte : Text → ℕ → Option Text
  | text, 0 => some text
  | [], _ + 1 => none
  | c :: text, n + 1 => if c.utf8Size ≤ n + 1 then fromByte text (n + 1 - c.utf8Size) else none

/-- The two bytes behind a `%` as the digits of an escape.  A slice that cuts a character, or holds
one character of two bytes, has no digits. -/
def escape : Text → Option (Char × Char)
  | a :: b :: _ =>
    if a.utf8Size = 1 ∧ b.utf8Size = 1 ∧ isHexDigit a = true ∧ isHexDigit b = true ∧
      refusedEscape a b = false then some (a, b) else none
  | _ => none

/-- The loop of `percent_normalized` at a byte, with a bound on the rounds.  Without a result a
slice cuts a character. -/
def scan (raw : Text) : ℕ → ℕ → Text → Option (Except CanonError Text)
  | 0, _, _ => none
  | rounds + 1, pos, out =>
    match (utf8 raw)[pos]? with
    | none => some (.ok out)
    | some byte =>
      if byte = 0x25 then
        match (fromByte raw (pos + 1)).bind escape with
        | some (a, b) => scan raw rounds (pos + 3) (out ++ ['%', a.toUpper, b.toUpper])
        | none => some (.error .path)
      else if byte = 0x5c ∨ byte < 0x20 ∨ byte = 0x7f then some (.error .path)
      else
        match fromByte raw pos with
        | none => none
        | some [] => some (.error .path)
        | some (c :: _) => scan raw rounds (pos + c.utf8Size) (out ++ [c])

theorem byteLength_cons (c : Char) (text : Text) :
    byteLength (c :: text) = c.utf8Size + byteLength text := by
  simp [byteLength]

theorem fromByte_append (before text : Text) :
    fromByte (before ++ text) (byteLength before) = some text := by
  induction before with
  | nil => cases text <;> rfl
  | cons c before ih =>
    have hpos := c.utf8Size_pos
    have hsum := byteLength_cons c before
    obtain ⟨n, hn⟩ : ∃ n, byteLength (c :: before) = n + 1 := ⟨_, (Nat.succ_pred (by omega)).symm⟩
    rw [List.cons_append, hn, fromByte, if_pos (by omega),
      show n + 1 - c.utf8Size = byteLength before by omega]
    exact ih

theorem length_utf8 (text : Text) : (utf8 text).length = byteLength text := by
  induction text with
  | nil => rfl
  | cons c text ih =>
    rw [byteLength_cons, ← ih]
    simp [utf8]

/-- The first byte of a character is the character, or no ASCII. -/
theorem utf8EncodeChar_head (c : Char) : ∃ byte rest, String.utf8EncodeChar c = byte :: rest ∧
    (byte.toNat = c.toNat ∨ 0x80 ≤ byte.toNat ∧ 0x80 ≤ c.toNat) := by
  have hval : c.val.toNat = c.toNat := rfl
  unfold String.utf8EncodeChar
  dsimp only
  rw [hval]
  split_ifs with h₁ h₂ h₃
  · exact ⟨_, _, rfl, .inl (by simp; omega)⟩
  · exact ⟨_, _, rfl, .inr (by simp; omega)⟩
  · exact ⟨_, _, rfl, .inr (by simp; omega)⟩
  · exact ⟨_, _, rfl, .inr (by simp; omega)⟩

/-- The byte where a character begins. -/
theorem utf8_getElem? (before rest : Text) (c : Char) :
    ∃ byte, (utf8 (before ++ c :: rest))[byteLength before]? = some byte ∧
      (byte = 0x25 ↔ c = '%') ∧
      ((byte = 0x5c ∨ byte < 0x20 ∨ byte = 0x7f) ↔ refusedChar c = true) := by
  obtain ⟨byte, bytes, hbytes, hbyte⟩ := utf8EncodeChar_head c
  have hchar : ∀ d : Char, c = d ↔ c.toNat = d.toNat := fun d =>
    ⟨fun h => h ▸ rfl, fun h => Char.toNat_inj.1 h⟩
  refine ⟨byte, ?_, ?_, ?_⟩
  · rw [utf8, List.flatMap_append, ← utf8, List.getElem?_append_right (length_utf8 _).le,
      length_utf8, Nat.sub_self, List.flatMap_cons, hbytes]
    rfl
  · rw [hchar, ← UInt8.toNat_inj]
    show byte.toNat = 37 ↔ c.toNat = 37
    omega
  · have hrefused : refusedChar c = true ↔ c.toNat = 92 ∨ c.toNat < 32 ∨ c.toNat = 127 := by
      simp [refusedChar, hchar, or_assoc]
    rw [hrefused, ← UInt8.toNat_inj, ← UInt8.toNat_inj, UInt8.lt_iff_toNat_lt]
    show byte.toNat = 92 ∨ byte.toNat < 32 ∨ byte.toNat = 127 ↔ _
    omega

theorem utf8Size_hexDigit {c : Char} (h : isHexDigit c = true) : c.utf8Size = 1 := by
  have hall : hexDigits.all (fun c => c.utf8Size == 1) = true := by decide +kernel
  exact eq_of_beq (List.all_eq_true.1 hall c (mem_hexDigits h))

theorem escape_eq_some {text : Text} {a b : Char} : escape text = some (a, b) ↔
    ∃ rest, text = a :: b :: rest ∧ isHexDigit a = true ∧ isHexDigit b = true ∧
      refusedEscape a b = false := by
  constructor
  · intro h
    unfold escape at h
    split at h
    · split_ifs at h with hok
      cases h
      exact ⟨_, rfl, hok.2.2⟩
    · cases h
  · rintro ⟨rest, rfl, hok⟩
    exact if_pos ⟨utf8Size_hexDigit hok.1, utf8Size_hexDigit hok.2.1, hok⟩

theorem percentNormalized_unescaped {text : Text} (h : escape text = none) :
    percentNormalized ('%' :: text) = .error .path := by
  match text, h with
  | [], _ => rfl
  | [a], _ => rfl
  | a :: b :: text, h =>
    rw [percentNormalized_escaped, if_neg]
    intro hok
    have hok : (isHexDigit a = true ∧ isHexDigit b = true) ∧ refusedEscape a b = false := by
      simpa using hok
    rw [escape_eq_some.2 ⟨text, rfl, hok.1.1, hok.1.2, hok.2⟩] at h
    cases h

theorem scan_from {before : Text} {rounds : ℕ} (hraw : raw = before ++ rest)
    (hrounds : rest.length < rounds) :
    scan raw rounds (byteLength before) out = some ((percentNormalized rest).map (out ++ ·)) := by
  induction rounds generalizing before rest out with
  | zero => omega
  | succ rounds ih =>
    cases rest with
    | nil =>
      have hend : (utf8 raw)[byteLength before]? = none := by
        rw [hraw, List.append_nil, ← length_utf8]
        exact List.getElem?_eq_none le_rfl
      rw [scan, hend]
      simp [percentNormalized, Except.map]
    | cons c rest =>
      obtain ⟨byte, hbyte, hpercent, hrefused⟩ := utf8_getElem? before rest c
      rw [← hraw] at hbyte
      rw [scan, hbyte]
      dsimp only
      by_cases hc : c = '%'
      · subst hc
        have hfrom : fromByte raw (byteLength before + 1) = some rest := by
          have h := fromByte_append (before ++ ['%']) rest
          rwa [byteLength_append, List.append_assoc, List.singleton_append, ← hraw] at h
        rw [if_pos (hpercent.2 rfl), hfrom, Option.bind_some]
        cases hescape : escape rest with
        | none =>
          rw [percentNormalized_unescaped hescape]
          rfl
        | some digits =>
          obtain ⟨rest, rfl, ha, hb, hok⟩ := escape_eq_some.1 hescape
          have hsum : byteLength before + 3 = byteLength (before ++ ['%', digits.1, digits.2]) := by
            rw [byteLength_append, byteLength_cons, byteLength_cons, byteLength_cons,
              utf8Size_hexDigit ha, utf8Size_hexDigit hb]
            rfl
          simp only [List.length_cons] at hrounds
          dsimp only
          rw [hsum, ih (by simpa using hraw) (by omega), percentNormalized_escaped, ha, hb, hok]
          cases percentNormalized rest with
          | error e => rfl
          | ok rest => simp [Except.map]
      · rw [if_neg (mt hpercent.1 hc), percentNormalized_char hc]
        by_cases hbad : refusedChar c = true
        · rw [if_pos (hrefused.2 hbad), if_pos hbad]
          rfl
        · have hsum : byteLength before + c.utf8Size = byteLength (before ++ [c]) := by
            rw [byteLength_append, byteLength_cons]
            rfl
          simp only [List.length_cons] at hrounds
          rw [if_neg (mt hrefused.1 hbad), if_neg hbad, hraw, fromByte_append, ← hraw]
          dsimp only
          rw [hsum, ih (by simpa using hraw) (by omega)]
          cases percentNormalized rest with
          | error e => rfl
          | ok rest => simp [Except.map]

/-- No slice cuts a character. -/
theorem scan_eq (raw : Text) :
    scan raw (byteLength raw + 1) 0 [] = some (percentNormalized raw) := by
  have hlength : raw.length ≤ byteLength raw := by
    induction raw with
    | nil => exact le_rfl
    | cons c raw ih =>
      have hpos := c.utf8Size_pos
      rw [byteLength_cons, List.length_cons]
      omega
  have h := @scan_from raw [] raw [] _ (List.nil_append raw).symm (Nat.lt_succ_of_le hlength)
  rw [show byteLength [] = 0 from rfl] at h
  rw [h]
  cases percentNormalized raw <;> rfl

/-! ### Paths -/

/-- A base is found at the front of a path. -/
theorem rooted_append {base : Base} (hne : rest ≠ []) (tail : Text) :
    Rooted host scheme (out ++ tail) base (rest ++ tail) ↔ Rooted host scheme out base rest := by
  have hhead : (rest ++ tail).head? = rest.head? := List.head?_append_of_ne_nil _ hne
  constructor
  · intro h
    generalize hout : out ++ tail = whole at h
    generalize hrest : rest ++ tail = part at h
    cases h with
    | https =>
      rw [← hrest, ← List.cons_append] at hout
      rw [List.append_cancel_right hout]
      exact .https rest
    | home =>
      rw [← hrest, ← List.cons_append, ← List.cons_append] at hout
      rw [List.append_cancel_right hout]
      exact .home rest
    | slashHome =>
      rw [← hrest, ← List.cons_append, ← List.cons_append, ← List.cons_append] at hout
      rw [List.append_cancel_right hout]
      exact .slashHome rest
    | absolute htilde =>
      rw [← hrest, hhead] at htilde
      rw [← hrest, ← List.cons_append] at hout
      rw [List.append_cancel_right hout]
      exact .absolute htilde
    | relative htilde hslash =>
      rw [← hrest, hhead] at htilde hslash
      rw [List.append_cancel_right (hout.trans hrest.symm)]
      exact .relative htilde hslash
  · intro h
    cases h with
    | https => exact .https _
    | home => exact .home _
    | slashHome => exact .slashHome _
    | absolute hrest => exact .absolute (hhead ▸ hrest)
    | relative htilde hslash => exact .relative (hhead ▸ htilde) (hhead ▸ hslash)

theorem ne_nil_of_segmentsOf (h : segmentsOf rest = .ok segments) : rest ≠ [] := by
  rintro rfl
  cases h

/-- The steps to the canonical path of a destination. -/
theorem canonicalPath_iff {base : Option Base}
     : canonicalPath raw scheme host false = .ok (base, segments) ↔
      byteLength raw ≤ maxPathBytes ∧ ∃ out b rest, percentNormalized raw = .ok out ∧
        Rooted host scheme out b rest ∧ base = some b ∧
        segmentsOf (trimmed rest) = .ok segments := by
  constructor
  · intro h
    obtain ⟨_, hlength, h⟩ := bind_eq_ok.1 h
    obtain ⟨out, hout, h⟩ := bind_eq_ok.1 h
    obtain ⟨⟨b, rest⟩, hrooted, h⟩ := bind_eq_ok.1 h
    refine ⟨by simpa [refuseIf_eq_ok] using hlength, out, b, rest, hout, rooted_iff.1 hrooted, ?_⟩
    dsimp only at h
    by_cases hempty : (trimmed rest).isEmpty = true
    · rw [if_pos hempty] at h
      obtain ⟨_, hrefused, -⟩ := bind_eq_ok.1 h
      cases hrefused
    · rw [if_neg hempty] at h
      obtain ⟨segments', hsegments, h⟩ := bind_eq_ok.1 h
      cases h
      exact ⟨rfl, hsegments⟩
  · rintro ⟨hlength, out, b, rest, hout, hrooted, rfl, hsegments⟩
    refine bind_eq_ok.2 ⟨(), refuseIf_eq_ok.2 (by simpa using hlength),
      bind_eq_ok.2 ⟨out, hout, bind_eq_ok.2 ⟨(b, rest), rooted_iff.2 hrooted, ?_⟩⟩⟩
    dsimp only
    rw [if_neg (by simpa using ne_nil_of_segmentsOf hsegments)]
    exact bind_eq_ok.2 ⟨segments, hsegments, rfl⟩

theorem trimmed_of_not_suffix (h : ¬ ['/'] <:+ rest) : trimmed rest = rest := by
  rw [trimmed, stripEnd_eq_none.2 h]
  rfl

/-- The end of a path behind its base is the end that was sent. -/
theorem sent_suffix (tail : Text) {b : Base}
    (hout : percentNormalized raw = .ok out) (hrooted : Rooted host scheme out b rest)
    (htail : (tail.all fun c => !isHexDigit c && c != '%') = true) (h : tail <:+ rest) :
    tail <:+ raw := by
  refine normalized_suffix tail hout htail (h.trans ?_)
  rw [rooted_eq_ok (rooted_iff.2 hrooted)]
  exact unrooted_suffix _ _

theorem slash_not_suffix (text : Text) : ¬ ['/'] <:+ text ++ dotGit := by
  rintro ⟨before, h⟩
  have hlast := congrArg List.getLast? h
  simp [dotGit] at hlast

/-- One trailing slash. -/
theorem canonicalPath_slash {base : Option Base} (hslash : ¬ ['/'] <:+ raw)
    (hlength : byteLength (raw ++ ['/']) ≤ maxPathBytes) :
    canonicalPath (raw ++ ['/']) scheme host false = .ok (base, segments) ↔
      canonicalPath raw scheme host false = .ok (base, segments) := by
  have htrimmed : ∀ {rest : Text}, ¬ ['/'] <:+ rest → trimmed (rest ++ ['/']) = trimmed rest := by
    intro rest hrest
    rw [trimmed_slash, trimmed_of_not_suffix hrest]
  rw [canonicalPath_iff, canonicalPath_iff]
  constructor
  · rintro ⟨-, out, b, rest, hout, hrooted, rfl, hrest⟩
    obtain ⟨o, rfl, ho⟩ := snoc_slash_normalized hout
    obtain ⟨rest, rfl⟩ := slash_of_rooted (rooted_iff.2 hrooted) fun hnil =>
      ne_nil_of_segmentsOf hrest (by rw [hnil]; rfl)
    have hne := ne_nil_of_segmentsOf hrest
    rw [trimmed_slash] at hne
    have hrooted := (rooted_append hne _).1 hrooted
    rw [htrimmed (mt (sent_suffix ['/'] ho hrooted rfl) hslash)] at hrest
    rw [byteLength_append] at hlength
    exact ⟨by omega, o, b, rest, ho, hrooted, rfl, hrest⟩
  · rintro ⟨-, out, b, rest, hout, hrooted, rfl, hrest⟩
    have hrest' := mt (sent_suffix ['/'] hout hrooted rfl) hslash
    have hne := ne_nil_of_segmentsOf hrest
    rw [trimmed_of_not_suffix hrest'] at hne
    exact ⟨hlength, out ++ ['/'], b, rest ++ ['/'], percentNormalized_append hout rfl,
      (rooted_append hne _).2 hrooted, rfl, by rwa [htrimmed hrest']⟩

/-- The suffix `.git` behind the last segment. -/
theorem canonicalPath_suffix {base : Option Base}
    (hslash : ¬ ['/'] <:+ raw) (hgit : ¬ dotGit <:+ raw)
    (hlength : byteLength (raw ++ dotGit) ≤ maxPathBytes)
    (h : canonicalPath raw scheme host false = .ok (base, segments)) :
    canonicalPath (raw ++ dotGit) scheme host false = .ok (base, segments) := by
  obtain ⟨-, out, b, rest, hout, hrooted, rfl, hrest⟩ := canonicalPath_iff.1 h
  have hslash' := mt (sent_suffix ['/'] hout hrooted rfl) hslash
  have hgit' := mt (sent_suffix dotGit hout hrooted rfl) hgit
  rw [trimmed_of_not_suffix hslash'] at hrest
  refine canonicalPath_iff.2 ⟨hlength, out ++ dotGit, b, rest ++ dotGit,
    percentNormalized_append hout rfl,
    (rooted_append (ne_nil_of_segmentsOf hrest) _).2 hrooted, rfl, ?_⟩
  obtain ⟨init, last, -, hlast, hsplit, hsplit'⟩ := exists_last_piece '/' rest
  obtain ⟨_, hall, hsuffix⟩ := bind_eq_ok.1 hrest
  have hall := List.any_eq_false.1 (refuseIf_eq_ok.1 hall)
  rw [hsplit] at hall hsuffix
  have hlastNe : last ≠ [] := by
    rintro rfl
    exact hall [] (by simp) rfl
  have hsegments : segments = init ++ [last] := by
    rcases withoutSuffix_eq_ok hsuffix with ⟨rfl, -⟩ | ⟨init', stem, -, heq, -⟩
    · rfl
    · have hpiece := (List.append_inj' heq rfl).2
      rw [List.singleton_inj.1 hpiece] at hlast
      exact absurd ((List.suffix_append _ _).trans hlast) hgit'
  rw [trimmed_of_not_suffix (slash_not_suffix rest)]
  refine bind_eq_ok.2 ⟨(), refuseIf_eq_ok.2 ?_, ?_⟩
  · rw [hsplit' dotGit (by decide), List.any_eq_false]
    intro s hs
    rcases List.mem_append.1 hs with hs | hs
    · exact hall s (List.mem_append_left _ hs)
    · rw [List.mem_singleton.1 hs]
      have hlong : ∀ t : Text, t.length < 4 → last ++ dotGit ≠ t := by
        rintro t ht rfl
        simp [dotGit] at ht
      simp only [Bool.or_eq_true, List.isEmpty_iff, beq_iff_eq, not_or]
      exact ⟨⟨hlong [] (by decide), hlong ['.'] (by decide)⟩, hlong ['.', '.'] (by decide)⟩
  · rw [hsplit' dotGit (by decide), hsegments, withoutSuffix, List.getLast?_concat,
      Option.bind_some, stripEnd_eq_some.2 rfl]
    obtain ⟨c, last, rfl⟩ := List.exists_cons_of_ne_nil hlastNe
    simp

/-- The spellings of a path on a host in canonical form. -/
inductive PathSpelling (scheme : Scheme) (host : Text) : Text → Text → Prop
  | hexCase {raw raw' : Text} : SameEscapes raw raw' → PathSpelling scheme host raw raw'
  | trailingSlash {raw : Text} : ¬ ['/'] <:+ raw → PathSpelling scheme host raw (raw ++ ['/'])
  | suffix {raw : Text} : ¬ ['/'] <:+ raw → ¬ dotGit <:+ raw →
      PathSpelling scheme host raw (raw ++ dotGit)
  | suffixSlash {raw : Text} : ¬ ['/'] <:+ raw → ¬ dotGit <:+ raw →
      PathSpelling scheme host (raw ++ ['/']) (raw ++ dotGit ++ ['/'])
  | home {raw : Text} : scheme = .ssh →
      PathSpelling scheme host ('~' :: '/' :: raw) ('/' :: '~' :: '/' :: raw)
  | root {raw : Text} : scheme = .ssh → raw.head? ≠ some '~' → raw.head? ≠ some '/' →
      knownHosts.contains host = true → PathSpelling scheme host raw ('/' :: raw)

theorem canonicalPath_spelling {raw' : Text} {base : Option Base}
    (hspelling : PathSpelling scheme host raw raw')
    (hlength : byteLength raw' ≤ maxPathBytes)
    (h : canonicalPath raw scheme host false = .ok (base, segments)) :
    canonicalPath raw' scheme host false = .ok (base, segments) := by
  cases hspelling with
  | hexCase hsame =>
    obtain ⟨-, out, b, rest, hout, hrooted⟩ := canonicalPath_iff.1 h
    exact canonicalPath_iff.2 ⟨hlength, out, b, rest, hsame.normalized hout, hrooted⟩
  | trailingSlash hslash => exact (canonicalPath_slash hslash hlength).2 h
  | suffix hslash hgit => exact canonicalPath_suffix hslash hgit hlength h
  | @suffixSlash raw hslash hgit =>
    have hshort : byteLength (raw ++ ['/']) ≤ maxPathBytes := (canonicalPath_iff.1 h).1
    have hstem : byteLength (raw ++ dotGit) ≤ maxPathBytes := by
      rw [byteLength_append] at hlength
      omega
    exact (canonicalPath_slash (slash_not_suffix raw) hlength).2
      (canonicalPath_suffix hslash hgit hstem ((canonicalPath_slash hslash hshort).1 h))
  | @home raw hscheme =>
    subst hscheme
    obtain ⟨-, out, b, rest, hout, hrooted, hrest⟩ := canonicalPath_iff.1 h
    obtain ⟨-, o, ho, rfl⟩ := percentNormalized_cons (by decide) hout
    obtain ⟨-, o, -, rfl⟩ := percentNormalized_cons (by decide) ho
    have hout' := percentNormalized_cons_ok (c := '/') (by decide) (by decide) hout
    refine canonicalPath_iff.2 ⟨hlength, _, b, rest, hout', ?_, hrest⟩
    cases hrooted with
    | home => exact .slashHome _
    | relative htilde => exact absurd rfl htilde
  | root hscheme htilde hslash hknown =>
    subst hscheme
    obtain ⟨-, out, b, rest, hout, hrooted, hrest⟩ := canonicalPath_iff.1 h
    rw [← head?_normalized hout] at htilde hslash
    have hout' := percentNormalized_cons_ok (c := '/') (by decide) (by decide) hout
    refine canonicalPath_iff.2 ⟨hlength, _, b, rest, hout', ?_, hrest⟩
    cases hrooted with
    | home => exact absurd rfl htilde
    | slashHome => exact absurd rfl hslash
    | absolute => exact absurd rfl hslash
    | relative =>
      rw [if_pos hknown]
      exact .absolute htilde

/-! ### Destinations -/

/-- The spellings of a destination. -/
inductive Spelling (d : Destination) : Destination → Prop
  | host {host'} : IsName d.host.toList → HostSpelling d.host.toList host'.toList →
      Spelling d { d with host := host' }
  | path {path' host} : canonicalHost d.host.toList = .ok host →
      PathSpelling d.scheme host d.path.toList path'.toList → Spelling d { d with path := path' }

theorem fromDestination_spelling {d d' : Destination} {t : Canonical} (hspelling : Spelling d d')
    (hlength : byteLength d'.path.toList ≤ maxPathBytes)
    (h : Canonical.fromDestination d = .ok t) : Canonical.fromDestination d' = .ok t := by
  cases hspelling with
  | host hname hhost =>
    unfold Canonical.fromDestination at h ⊢
    dsimp only
    rwa [canonicalHost_spelling hname hhost]
  | path hhost hpath =>
    obtain ⟨_, hport, h⟩ := bind_eq_ok.1 h
    obtain ⟨host', hhost', h⟩ := bind_eq_ok.1 h
    obtain rfl : host' = _ := Except.ok.inj (hhost'.symm.trans hhost)
    obtain ⟨⟨base, segments⟩, hsegments, h⟩ := bind_eq_ok.1 h
    exact bind_eq_ok.2 ⟨(), hport, bind_eq_ok.2 ⟨_, hhost, bind_eq_ok.2
      ⟨_, canonicalPath_spelling hpath hlength hsegments, h⟩⟩⟩

/-- What the client answers for a destination, if it has a canonical form. -/
def admission (d : Destination) (serviceClass : ServiceClass) (service : GitService)
    (fetch push : List Allowance) : Option (Except Refusal Allowance) :=
  (Canonical.fromDestination d).toOption.map fun t => admitService serviceClass service t fetch push

/-- **Spelling does not change admission.**  The normal forms of hosts and of percent escapes are
their own, the walk over the bytes of a path cuts no character, and a destination in another
spelling has the same canonical form, so that it gets the same answer. -/
theorem spelling_keeps_admission :
    (∀ host out : Text,
      (∀ groups, parseIpv6 (addressOf host) = some groups → RoundTrips groups) →
      canonicalHost host = .ok out → canonicalHost out = .ok out) ∧
    (∀ raw out : Text, percentNormalized raw = .ok out → percentNormalized out = .ok out) ∧
    (∀ raw : Text, scan raw (byteLength raw + 1) 0 [] = some (percentNormalized raw)) ∧
    ∀ (d d' : Destination) (t : Canonical), Canonical.fromDestination d = .ok t → Spelling d d' →
      byteLength d'.path.toList ≤ maxPathBytes →
      Canonical.fromDestination d' = .ok t ∧ admission d' = admission d := by
  refine ⟨fun _ _ hround h => canonicalHost_idempotent hround h,
    fun _ _ h => percentNormalized_idempotent h, scan_eq, fun d d' t h hspelling hlength => ?_⟩
  have h' := fromDestination_spelling hspelling hlength h
  refine ⟨h', ?_⟩
  funext serviceClass service fetch push
  rw [admission, admission, h', h]

/-- An address in brackets, and a repository on a known host in two spellings. -/
theorem spelling_keeps_admission_known :
    canonicalHost "::1".toList = .ok "::1".toList ∧
      ∃ t, Canonical.fromDestination ⟨.ssh, "GitHub.com", 22, "team/repo", none, none⟩ = .ok t ∧
        Canonical.fromDestination ⟨.ssh, "GitHub.com", 22, "/team/repo", none, none⟩ = .ok t := by
  obtain ⟨hhost, -, -, hspelling⟩ := spelling_keeps_admission
  have hround : ∀ groups, parseIpv6 (addressOf "[::1]".toList) = some groups →
      RoundTrips groups := by
    intro groups h
    rw [show parseIpv6 (addressOf "[::1]".toList) = some [0, 0, 0, 0, 0, 0, 0, 1] by decide +kernel]
      at h
    cases h
    show parseIpv6 _ = _
    decide +kernel
  have ht : Canonical.fromDestination ⟨.ssh, "GitHub.com", 22, "team/repo", none, none⟩ =
      .ok ⟨.ssh, "github.com".toList, 22, .absolute, ["team".toList, "repo".toList]⟩ := by
    decide +kernel
  have hpath : PathSpelling .ssh "github.com".toList "team/repo".toList "/team/repo".toList :=
    .root rfl (by decide +kernel) (by decide +kernel) (by decide +kernel)
  exact ⟨hhost _ _ hround (by decide +kernel), _, ht,
    (hspelling _ _ _ ht (.path (by decide +kernel) hpath) (by decide +kernel)).1⟩

/-- Behind a trailing slash `.git` is a segment of its own, and is refused. -/
theorem suffix_behind_slash :
    (Canonical.fromDestination ⟨.ssh, "host", 22, "/a/", none, none⟩).toOption.map
        (·.segments) = some [['a']] ∧
      Canonical.fromDestination ⟨.ssh, "host", 22, "/a/" ++ ".git", none, none⟩ =
        .error .path := by
  decide +kernel

end GwzTransport.Remote
