import GwzTransport.Binding
import GwzTransport.Codec.Validate
import GwzTransport.Remote.Spelling

/-!
# The texts of refused opens

`served.rs` records a note for the command when it refuses an `Open`: the destination has no
canonical form, or the class and the allowances do not admit it.  The note is printed, so it should
hold nothing that a terminal acts on.

The host is escaped, or was reduced to letters, digits and hyphens; a path is only kept from ASCII
control characters.  The characters that a path brings into the note are those that it was sent
with.
-/

namespace GwzTransport.Remote

open Protocol Checks Strings

/-! ### The texts -/

/-- What the core asked for, in words. -/
def asked : GitService → Text × Text
  | .uploadPackAdvertisement | .uploadPackExchange => ("fetch from".toList, "upload-pack".toList)
  | .receivePackAdvertisement | .receivePackExchange => ("push to".toList, "receive-pack".toList)

def CanonError.debug : CanonError → Text
  | .scheme => "Scheme".toList
  | .host => "Host".toList
  | .nonAsciiHost => "NonAsciiHost".toList
  | .port => "Port".toList
  | .path => "Path".toList
  | .home => "Home".toList
  | .badSyntax => "Syntax".toList

def decimal (n : ℤ) : Text := (if n < 0 then ['-'] else []) ++ Nat.toDigits 10 n.natAbs

def isAsciiGraphic (c : Char) : Bool := decide (0x21 ≤ c.toNat) && decide (c.toNat ≤ 0x7e)

/-- A text for a terminal, with everything but ASCII graphic characters escaped. -/
def printable (text : Text) : Text :=
  (text.take 253).flatMap fun c =>
    if isAsciiGraphic c then [c]
    else ['\\', 'u', '{'] ++ Nat.toDigits 16 c.toNat ++ ['}']

def bracketed (host : Text) : Text := if host.contains ':' then '[' :: host ++ [']'] else host

/-- A canonical destination as it is displayed. -/
def Canonical.display (t : Canonical) : Text :=
  [match t.scheme with
      | .ssh => "ssh".toList
      | .https => "https".toList,
    "://".toList, bracketed t.host, [':'], decimal t.port, ['/'],
    if t.base = .home then ['~', '/'] else [], ['/'].intercalate t.segments].flatten

/-- The note of a destination without a canonical form. -/
def tupleRefusalText (destination : Destination) (service : GitService) (error : CanonError) :
    Text :=
  let (verb, word) := asked service
  match error with
  | .nonAsciiHost =>
    ["the core asked to ".toList, verb, " host \"".toList, printable destination.host.toList,
      "\" (".toList, word, ", port ".toList, decimal destination.port,
      "), which this command cannot admit: the host is not ASCII, and this release maps ".toList,
      "no IDNA (UTS-46) host names".toList].flatten
  | error =>
    ["the core asked to ".toList, verb, " a destination that is not in canonical form (".toList,
      error.debug, "), which this command cannot admit".toList].flatten

/-- The note of a destination that the class and the allowances do not admit. -/
def classRefusalText (tuple : Canonical) (service : GitService) : Text :=
  let (verb, word) := asked service
  ["the core asked to ".toList, verb, [' '], tuple.display, " (".toList, word, ", port ".toList,
    decimal tuple.port, "), which this command does not allow".toList].flatten

/-- Advertisements are for HTTPS. -/
def checkShape (scheme : Scheme) (service : GitService) : Bool :=
  !(scheme == .ssh && (service == .uploadPackAdvertisement || service == .receivePackAdvertisement))

/-- The note that the client records for an `Open`, if it refuses it. -/
def refusalNote (serviceClass : ServiceClass) (fetch push : List Allowance) (body : Open) :
    Option Text :=
  if !checkShape body.destination.scheme body.service then none
  else match Canonical.fromDestination body.destination with
  | .error error => some (tupleRefusalText body.destination body.service error)
  | .ok tuple =>
    match admitService serviceClass body.service tuple fetch push with
    | .error _ => some (classRefusalText tuple body.service)
    | .ok _ => none

/-! ### Characters that a terminal acts on -/

/-- The characters with the Unicode property `Bidi_Control`. -/
def isBidiControl (c : Char) : Bool :=
  let n := c.toNat
  n == 0x061c || n == 0x200e || n == 0x200f || (decide (0x202a ≤ n) && decide (n ≤ 0x202e)) ||
    (decide (0x2066 ≤ n) && decide (n ≤ 0x2069))

/-- A character that may be printed. -/
def isQuiet (c : Char) : Bool := !Codec.isControl c && !isBidiControl c

def Quiet (text : Text) : Prop := ∀ c ∈ text, isQuiet c = true

theorem quiet_of_all {text : Text} (h : text.all isQuiet = true) : Quiet text :=
  List.all_eq_true.1 h

theorem quiet_append {text text' : Text} : Quiet (text ++ text') ↔ Quiet text ∧ Quiet text' :=
  List.forall_mem_append

theorem quiet_flatten {parts : List Text} : Quiet parts.flatten ↔ ∀ s ∈ parts, Quiet s := by
  induction parts with
  | nil => simp [Quiet]
  | cons s parts ih => rw [List.flatten_cons, quiet_append, ih, List.forall_mem_cons]

/-- The text of one part between texts that are quiet. -/
theorem quiet_flatten_iff (before after : List Text) {s : Text} (hbefore : ∀ s ∈ before, Quiet s)
    (hafter : ∀ s ∈ after, Quiet s) : Quiet (before ++ s :: after).flatten ↔ Quiet s := by
  rw [quiet_flatten, List.forall_mem_append, List.forall_mem_cons]
  exact ⟨fun h => h.2.1, fun h => ⟨hbefore, h, hafter⟩⟩

theorem isQuiet_of_ascii {c : Char} (hlo : 0x20 ≤ c.toNat) (hhi : c.toNat < 0x7f) :
    isQuiet c = true := by
  simp only [isQuiet, Codec.isControl, isBidiControl, Bool.and_eq_true, Bool.not_eq_true',
    Bool.or_eq_false_iff, Bool.and_eq_false_iff, decide_eq_false_iff_not, beq_eq_false_iff_ne]
  omega

theorem isQuiet_digitChar {k : ℕ} (h : k < 16) : isQuiet (Nat.digitChar k) = true := by
  interval_cases k <;> rfl

theorem quiet_toDigits {radix : ℕ} (hpos : 0 < radix) (hle : radix ≤ 16) (n : ℕ) :
    Quiet (Nat.toDigits radix n) :=
  forall_mem_toDigits (fun _ => isQuiet_digitChar) hpos hle n

theorem quiet_decimal (n : ℤ) : Quiet (decimal n) := by
  refine quiet_append.2 ⟨?_, quiet_toDigits (by decide) (by decide) _⟩
  split_ifs <;> exact quiet_of_all rfl

/-! ### Hosts -/

theorem quiet_printable (text : Text) : Quiet (printable text) := by
  intro c hc
  obtain ⟨x, -, hc⟩ := List.mem_flatMap.1 hc
  split_ifs at hc with hx
  · rw [List.mem_singleton.1 hc]
    simp only [isAsciiGraphic, Bool.and_eq_true, decide_eq_true_eq] at hx
    exact isQuiet_of_ascii (by omega) (by omega)
  · exact quiet_append.2 ⟨quiet_append.2 ⟨quiet_of_all rfl,
      quiet_toDigits (by decide) (by decide) _⟩, quiet_of_all rfl⟩ c hc

theorem isQuiet_of_label {c : Char} (h : (c.isLower || c.isDigit || c == '-') = true) :
    isQuiet c = true := by
  have hrange : 0x20 ≤ c.toNat ∧ c.toNat < 0x7f := by
    simp only [Bool.or_eq_true, beq_iff_eq] at h
    rcases h with (h | h) | rfl
    · have h : (decide (97 ≤ c.val) && decide (c.val ≤ 122)) = true := h
      have : 97 ≤ c.toNat ∧ c.toNat ≤ 122 := by
        simpa [UInt32.le_iff_toNat_le] using h
      omega
    · have : 48 ≤ c.toNat ∧ c.toNat ≤ 57 := by
        simpa [Char.isDigit, UInt32.le_iff_toNat_le] using h
      omega
    · decide
  exact isQuiet_of_ascii hrange.1 hrange.2

theorem quiet_canonicalHost {host out : Text} (h : canonicalHost host = .ok out) : Quiet out := by
  rcases canonicalHost_cases h with ⟨-, h⟩ | ⟨groups, -, rfl⟩
  · intro c hc
    rcases mem_canonicalName h c hc with rfl | hc
    · rfl
    · exact isQuiet_of_label hc
  · exact forall_mem_ipv6Text (p := fun c => isQuiet c = true) (fun _ => isQuiet_digitChar) rfl rfl
      groups

theorem quiet_bracketed {host : Text} (h : Quiet host) : Quiet (bracketed host) := by
  unfold bracketed
  split_ifs
  · exact quiet_append.2 ⟨List.forall_mem_cons.2 ⟨rfl, h⟩, quiet_of_all rfl⟩
  · exact h

/-! ### Paths -/

/-- A character behind ASCII that a terminal acts on. -/
def isLoud (c : Char) : Bool :=
  (decide (0x80 ≤ c.toNat) && decide (c.toNat ≤ 0x9f)) || isBidiControl c

theorem isQuiet_iff {c : Char} (hc : refusedChar c = false) :
    isQuiet c = true ↔ isLoud c = false := by
  simp only [refusedChar, Bool.or_eq_false_iff, decide_eq_false_iff_not, beq_eq_false_iff_ne] at hc
  simp only [isQuiet, isLoud, Codec.isControl, Bool.and_eq_true, Bool.not_eq_true',
    Bool.or_eq_false_iff, Bool.and_eq_false_iff, decide_eq_false_iff_not]
  refine and_congr_left fun _ => ?_
  omega

/-- A normalized path holds the characters that the path was sent with, and upper case escapes. -/
theorem quiet_normalized {raw out : Text} (h : percentNormalized raw = .ok out) :
    Quiet out ↔ ∀ c ∈ raw, isLoud c = false := by
  have hhex : ∀ c, isHexDigit c = true → isQuiet c.toUpper = true ∧ isLoud c = false := by
    have hall : hexDigits.all (fun c => isQuiet c.toUpper && !isLoud c) = true := by decide +kernel
    exact fun c hc => by simpa using List.all_eq_true.1 hall c (mem_hexDigits hc)
  refine percentNormalized_induction
    (P := fun raw out => Quiet out ↔ ∀ c ∈ raw, isLoud c = false) ?_ ?_ ?_ h
  · simp [Quiet]
  · intro c raw out _ hc ih
    rw [Quiet, List.forall_mem_cons, List.forall_mem_cons, isQuiet_iff hc]
    exact and_congr_right fun _ => ih
  · intro a b raw out ha hb _ ih
    simp only [Quiet, List.forall_mem_cons, hhex a ha, hhex b hb, true_and]
    exact and_congr (by decide) ih

/-- Only slashes and the sign of the home stand before the base. -/
theorem quiet_rooted {host out rest : Text} {scheme : Scheme} {b : Base}
    (h : Rooted host scheme out b rest) : Quiet out ↔ Quiet rest := by
  have hslash : isQuiet '/' = true := rfl
  have htilde : isQuiet '~' = true := rfl
  cases h <;> simp [Quiet, hslash, htilde]

theorem quiet_trimmed (rest : Text) : Quiet (trimmed rest) ↔ Quiet rest := by
  unfold trimmed
  cases h : stripEnd ['/'] rest with
  | none => rfl
  | some init =>
    rw [stripEnd_eq_some.1 h, quiet_append]
    exact (and_iff_left (quiet_of_all rfl)).symm

theorem quiet_segmentsOf {rest : Text} {segments : List Text}
    (h : segmentsOf rest = .ok segments) : (∀ s ∈ segments, Quiet s) ↔ Quiet rest := by
  obtain ⟨_, -, h⟩ := bind_eq_ok.1 h
  have hrest : Quiet rest ↔ ∀ s ∈ rest.splitOn '/', Quiet s := by
    have hjoined : ['/'].intercalate (rest.splitOn '/') = rest := List.intercalate_splitOn '/'
    nth_rewrite 1 [← hjoined]
    exact forall_mem_intercalate (quiet_of_all rfl)
  rw [hrest]
  rcases withoutSuffix_eq_ok h with ⟨rfl, -⟩ | ⟨init, stem, -, heq, rfl⟩
  · rfl
  · have hsuffix : Quiet dotGit := quiet_of_all rfl
    rw [heq, List.forall_mem_append, List.forall_mem_append, List.forall_mem_singleton,
      List.forall_mem_singleton, quiet_append, and_iff_left hsuffix]

/-- The segments hold the characters of the path that a terminal acts on. -/
theorem quiet_segments {raw host : Text} {scheme : Scheme} {base : Option Base}
    {segments : List Text} (h : canonicalPath raw scheme host false = .ok (base, segments)) :
    (∀ s ∈ segments, Quiet s) ↔ ∀ c ∈ raw, isLoud c = false := by
  obtain ⟨-, out, b, rest, hout, hrooted, -, hsegments⟩ := canonicalPath_iff.1 h
  rw [quiet_segmentsOf hsegments, quiet_trimmed, ← quiet_rooted hrooted, quiet_normalized hout]

/-! ### Notes -/

theorem quiet_asked (service : GitService) :
    Quiet (asked service).1 ∧ Quiet (asked service).2 := by
  cases service <;> exact ⟨quiet_of_all rfl, quiet_of_all rfl⟩

theorem quiet_display {d : Destination} {t : Canonical} (h : Canonical.fromDestination d = .ok t) :
    Quiet t.display ↔ ∀ c ∈ d.path.toList, isLoud c = false := by
  obtain ⟨-, hhost, -, hpath⟩ := fromDestination_eq_ok h
  have hscheme : Quiet (match t.scheme with
      | .ssh => "ssh".toList
      | .https => "https".toList) := by
    cases t.scheme <;> exact quiet_of_all rfl
  have hbase : Quiet (if t.base = .home then ['~', '/'] else []) := by
    split_ifs <;> exact quiet_of_all rfl
  rw [← quiet_segments hpath]
  refine (quiet_flatten_iff [_, _, _, _, _, _, _] [] ?_ (by simp)).trans
    (forall_mem_intercalate (quiet_of_all rfl))
  simp only [List.forall_mem_cons, List.not_mem_nil, false_imp_iff, implies_true, and_true]
  exact ⟨hscheme, quiet_of_all rfl, quiet_bracketed (quiet_canonicalHost hhost), quiet_of_all rfl,
    quiet_decimal _, quiet_of_all rfl, hbase⟩

theorem quiet_tupleRefusalText (d : Destination) (service : GitService) (error : CanonError) :
    Quiet (tupleRefusalText d service error) := by
  obtain ⟨hverb, hword⟩ := quiet_asked service
  have hdebug : Quiet error.debug := by
    cases error <;> exact quiet_of_all rfl
  unfold tupleRefusalText
  dsimp only
  split
  · refine quiet_flatten.2 ?_
    simp only [List.forall_mem_cons, List.not_mem_nil, false_imp_iff, implies_true, and_true]
    exact ⟨quiet_of_all rfl, hverb, quiet_of_all rfl, quiet_printable _, quiet_of_all rfl, hword,
      quiet_of_all rfl, quiet_decimal _, quiet_of_all rfl, quiet_of_all rfl⟩
  · refine quiet_flatten.2 ?_
    simp only [List.forall_mem_cons, List.not_mem_nil, false_imp_iff, implies_true, and_true]
    exact ⟨quiet_of_all rfl, hverb, quiet_of_all rfl, hdebug, quiet_of_all rfl⟩

theorem quiet_classRefusalText (t : Canonical) (service : GitService) :
    Quiet (classRefusalText t service) ↔ Quiet t.display := by
  obtain ⟨hverb, hword⟩ := quiet_asked service
  refine quiet_flatten_iff [_, _, _] _ ?_ ?_
  · simp only [List.forall_mem_cons, List.not_mem_nil, false_imp_iff, implies_true, and_true]
    exact ⟨quiet_of_all rfl, hverb, quiet_of_all rfl⟩
  · simp only [List.forall_mem_cons, List.not_mem_nil, false_imp_iff, implies_true, and_true]
    exact ⟨quiet_of_all rfl, hword, quiet_of_all rfl, quiet_decimal _, quiet_of_all rfl⟩

/-- **Notes are as safe to print as paths.**  The note of a refused `Open` holds no control
character and no bidirectional formatting character exactly when its destination has no canonical
form, or its path holds none outside ASCII. -/
theorem refusalNote_quiet_iff {body : Open} {serviceClass : ServiceClass}
    {fetch push : List Allowance} {note : Text}
    (hnote : refusalNote serviceClass fetch push body = some note) :
    (∀ c ∈ note, Codec.isControl c = false ∧ isBidiControl c = false) ↔
      (∃ error, Canonical.fromDestination body.destination = .error error) ∨
        ∀ c ∈ body.destination.path.toList, isLoud c = false := by
  have hquiet : (∀ c ∈ note, Codec.isControl c = false ∧ isBidiControl c = false) ↔ Quiet note := by
    simp [Quiet, isQuiet]
  rw [hquiet]
  unfold refusalNote at hnote
  split_ifs at hnote
  cases htuple : Canonical.fromDestination body.destination with
  | error error =>
    rw [htuple] at hnote
    cases hnote
    exact iff_of_true (quiet_tupleRefusalText _ _ _) (.inl ⟨error, rfl⟩)
  | ok tuple =>
    rw [htuple] at hnote
    dsimp only at hnote
    split at hnote
    · cases hnote
      rw [quiet_classRefusalText, quiet_display htuple]
      simp
    · cases hnote

/-- The `Open` of a path. -/
def openOf (path : String) : Open where
  endpointId := "e"
  operationId := "o"
  destination := ⟨.ssh, "host", 22, path, some "git", none⟩
  service := .uploadPackExchange
  identity := ⟨.ambient, none, none⟩
  policy := .sshAmbient
  deadlines := ⟨1, 1, 1, 1, 1⟩
  receiveLimits := Binding.defaultLimits

def openEnvelope (body : Open) : Envelope where
  version := 2
  sessionId := "s"
  streamId := 1
  kind := .open_
  open_ := some body

theorem refusalNote_quiet_iff_repository :
    ∃ note, refusalNote .fetch [] [] (openOf "/team/repo.git") = some note ∧
      ∀ c ∈ note, Codec.isControl c = false ∧ isBidiControl c = false := by
  obtain ⟨note, hnote⟩ := Option.isSome_iff_exists.1
    (show (refusalNote .fetch [] [] (openOf "/team/repo.git")).isSome = true by decide +kernel)
  have hpath : ((openOf "/team/repo.git").destination.path.toList.all fun c => !isLoud c) = true :=
    rfl
  refine ⟨note, hnote, (refusalNote_quiet_iff hnote).2 (.inr fun c hc => ?_)⟩
  simpa using List.all_eq_true.1 hpath c hc

/-- A path with the control sequence introducer of a terminal, and one with a bidirectional
override. -/
theorem refusalNote_loud :
    (Codec.envelope (openEnvelope (openOf "/a\x9bb")) = .ok () ∧
      ∃ note, refusalNote .fetch [] [] (openOf "/a\x9bb") = some note ∧
        ∃ c ∈ note, Codec.isControl c = true) ∧
    Codec.envelope (openEnvelope (openOf "/a\u202eb")) = .ok () ∧
      ∃ note, refusalNote .fetch [] [] (openOf "/a\u202eb") = some note ∧
        ∃ c ∈ note, isBidiControl c = true := by
  have hsome : ∀ {p : Char → Bool} {note : Option Text}, note.any (fun text => text.any p) = true →
      ∃ text, note = some text ∧ ∃ c ∈ text, p c = true := by
    intro p note h
    obtain ⟨text, hnote, htext⟩ := (Option.any_eq_true _ _).1 h
    exact ⟨text, hnote, List.any_eq_true.1 htext⟩
  exact ⟨⟨by decide +kernel, hsome (by decide +kernel)⟩, by decide +kernel,
    hsome (by decide +kernel)⟩

end GwzTransport.Remote
