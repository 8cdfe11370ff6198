import Mathlib.Tactic
import GwzTransport.Lib.Strings

/-!
# Addresses of the standard library

`Ipv4Addr` and `Ipv6Addr` as their `from_str` reads them and their `to_string` writes them.  A
reader takes a value from the front of a text and leaves the rest; an address is read when nothing
is left.
-/

namespace GwzTransport.Remote

/-- A reader of a value at the front of a text. -/
abbrev Reader (α : Type) := List Char → Option (α × List Char)

def digitValue (radix : ℕ) (c : Char) : Option ℕ :=
  let value := if c.isDigit then c.toNat - 48
    else if 'a' ≤ c ∧ c ≤ 'f' then c.toNat - 87
    else if 'A' ≤ c ∧ c ≤ 'F' then c.toNat - 55
    else radix
  if value < radix then some value else none

/-- A number of at most `width` digits that is at most `greatest`; more digits are an error, and
so is a leading zero unless it is allowed. -/
def readNumber (radix width greatest : ℕ) (zeros : Bool) : Reader ℕ := fun text =>
  let digits := (text.takeWhile fun c => (digitValue radix c).isSome)
  let value := digits.foldl (fun n c => n * radix + (digitValue radix c).getD 0) 0
  if digits.isEmpty || decide (digits.length > width) || decide (value > greatest) ||
      (!zeros && digits.head? == some '0' && decide (digits.length > 1)) then none
  else some (value, text.drop digits.length)

/-- A value behind a separator that the first value does not have. -/
def readSeparated {α : Type} (separator : Char) (first : Bool) (read : Reader α) : Reader α :=
  fun text =>
    if first then read text
    else match text with
    | c :: text => if c = separator then read text else none
    | [] => none

def readIpv4 : Reader (List ℕ) := fun text => do
  let (a, text) ← readSeparated '.' true (readNumber 10 3 255 false) text
  let (b, text) ← readSeparated '.' false (readNumber 10 3 255 false) text
  let (c, text) ← readSeparated '.' false (readNumber 10 3 255 false) text
  let (d, text) ← readSeparated '.' false (readNumber 10 3 255 false) text
  return ([a, b, c, d], text)

/-- Up to `limit` groups of an IPv6 address from the `i`-th on; the last two may be written as an
IPv4 address. -/
def readGroups (i : ℕ) : (limit : ℕ) → List Char → List ℕ × Bool × List Char
  | 0, text => ([], false, text)
  | limit + 1, text =>
    let embedded := if limit = 0 then none else readSeparated ':' (i == 0) readIpv4 text
    match embedded with
    | some ([a, b, c, d], rest) => ([a * 256 + b, c * 256 + d], true, rest)
    | _ =>
      match readSeparated ':' (i == 0) (readNumber 16 4 65535 true) text with
      | none => ([], false, text)
      | some (group, rest) =>
        let (groups, ipv4, rest) := readGroups (i + 1) limit rest
        (group :: groups, ipv4, rest)

def readIpv6 : Reader (List ℕ) := fun text =>
  let (head, ipv4, rest) := readGroups 0 8 text
  if head.length = 8 then some (head, rest)
  else if ipv4 then none
  else match rest with
  | ':' :: ':' :: rest =>
    let (tail, _, rest) := readGroups 0 (7 - head.length) rest
    some (head ++ List.replicate (8 - head.length - tail.length) 0 ++ tail, rest)
  | _ => none

/-- A value that is the whole text. -/
def whole {α : Type} (read : Reader α) (text : List Char) : Option α :=
  (read text).bind fun (value, rest) => if rest.isEmpty then some value else none

def parseIpv4 (text : List Char) : Option (List ℕ) :=
  if text.length > 15 then none else whole readIpv4 text

def parseIpv6 (text : List Char) : Option (List ℕ) := whole readIpv6 text

def ipv4Text (octets : List ℕ) : List Char :=
  ['.'].intercalate (octets.map (Nat.toDigits 10))

def groupsText (groups : List ℕ) : List Char :=
  [':'].intercalate (groups.map (Nat.toDigits 16))

/-- The first longest run of zero groups: its start and its length. -/
def longestZeros (groups : List ℕ) : ℕ × ℕ :=
  let step := fun (state : (ℕ × ℕ) × (ℕ × ℕ)) (entry : ℕ × ℕ) =>
    let (longest, current) := state
    if entry.1 = 0 then
      let current := (if current.2 = 0 then entry.2 else current.1, current.2 + 1)
      (if longest.2 < current.2 then current else longest, current)
    else (longest, (0, 0))
  (groups.zipIdx.foldl step ((0, 0), (0, 0))).1

/-- An IPv6 address as it is displayed: an IPv4-mapped one with its octets, otherwise with the first
longest run of two or more zero groups left out. -/
def ipv6Text (groups : List ℕ) : List Char :=
  match groups with
  | [0, 0, 0, 0, 0, 0xffff, a, b] =>
    "::ffff:".toList ++ ipv4Text [a / 256, a % 256, b / 256, b % 256]
  | groups =>
    let (start, length) := longestZeros groups
    if length > 1 then
      groupsText (groups.take start) ++ [':', ':'] ++ groupsText (groups.drop (start + length))
    else groupsText groups

/-! ### What is written -/

section Written

variable {p : Char → Prop} (hdigit : ∀ k < 16, p (Nat.digitChar k))

include hdigit

theorem forall_mem_toDigits {radix : ℕ} (hpos : 0 < radix) (hle : radix ≤ 16) (n : ℕ) :
    ∀ c ∈ Nat.toDigits radix n, p c := by
  have hcore : ∀ fuel n digits, (∀ c ∈ digits, p c) →
      ∀ c ∈ Nat.toDigitsCore radix fuel n digits, p c := by
    intro fuel
    induction fuel with
    | zero => exact fun _ _ h => h
    | succ fuel ih =>
      intro n digits h
      have hcons : ∀ c ∈ Nat.digitChar (n % radix) :: digits, p c := by
        intro c hc
        rcases List.mem_cons.1 hc with rfl | hc
        · exact hdigit _ ((Nat.mod_lt n hpos).trans_le hle)
        · exact h c hc
      rw [Nat.toDigitsCore]
      split_ifs
      · exact hcons
      · exact ih _ _ hcons
  exact hcore _ n [] fun _ hc => (by cases hc)

theorem forall_mem_ipv6Text (hcolon : p ':') (hdot : p '.') (groups : List ℕ) :
    ∀ c ∈ ipv6Text groups, p c := by
  have hparts : ∀ radix, 0 < radix → radix ≤ 16 → ∀ numbers : List ℕ,
      ∀ s ∈ numbers.map (Nat.toDigits radix), ∀ c ∈ s, p c := by
    intro radix hpos hle numbers s hs
    obtain ⟨n, -, rfl⟩ := List.mem_map.1 hs
    exact forall_mem_toDigits hdigit hpos hle n
  have hgroups : ∀ groups, ∀ c ∈ groupsText groups, p c := fun groups =>
    (Strings.forall_mem_intercalate (by simpa using hcolon)).2 (hparts 16 (by decide) le_rfl groups)
  have hf : p 'f' := hdigit 15 (by decide)
  unfold ipv6Text
  split
  · refine List.forall_mem_append.2 ⟨?_, (Strings.forall_mem_intercalate (by simpa using hdot)).2
      (hparts 10 (by decide) (by decide) _)⟩
    show ∀ c ∈ [':', ':', 'f', 'f', 'f', 'f', ':'], p c
    simp [hcolon, hf]
  · dsimp only
    split_ifs
    · refine List.forall_mem_append.2 ⟨List.forall_mem_append.2 ⟨hgroups _, ?_⟩, hgroups _⟩
      simp [hcolon]
    · exact hgroups _

end Written

theorem readGroups_length (i limit : ℕ) (text : List Char) :
    (readGroups i limit text).1.length ≤ limit := by
  induction limit generalizing i text with
  | zero => simp [readGroups]
  | succ limit ih =>
    unfold readGroups
    dsimp only
    split
    · next h =>
      split_ifs at h with hzero
      simp only [List.length_cons, List.length_nil]
      omega
    · split
      · simp
      · next group rest _ => simpa using ih (i + 1) rest

/-- An address has eight groups. -/
theorem length_of_parseIpv6 {text : List Char} {groups : List ℕ}
    (h : parseIpv6 text = some groups) : groups.length = 8 := by
  obtain ⟨⟨value, rest⟩, hread, h⟩ := Option.bind_eq_some_iff.1 h
  dsimp only at h
  split_ifs at h
  cases h
  unfold readIpv6 at hread
  dsimp only at hread
  split_ifs at hread with hall
  · cases hread
    exact hall
  · split at hread
    · next tail _ =>
      have hhead := readGroups_length 0 8 text
      have htail := readGroups_length 0 (7 - (readGroups 0 8 text).1.length) tail
      cases hread
      simp only [List.length_append, List.length_replicate]
      omega
    · cases hread

theorem colon_mem_ipv6Text {groups : List ℕ} (h : groups.length = 8) : ':' ∈ ipv6Text groups := by
  unfold ipv6Text
  split
  · exact List.mem_append_left _ (by decide)
  · dsimp only
    split_ifs
    · simp
    · obtain ⟨a, b, rest, rfl⟩ : ∃ a b rest, groups = a :: b :: rest := by
        match groups, h with
        | a :: b :: rest, _ => exact ⟨a, b, rest, rfl⟩
      rw [groupsText, List.map_cons, List.map_cons, List.intercalate_cons_cons]
      simp

end GwzTransport.Remote
