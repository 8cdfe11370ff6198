import GwzTransport.Codec.Text
import GwzTransport.Lib.Checks
import GwzTransport.Lib.Strings
import GwzTransport.Remote.Address

/-!
# The client's admission of a destination

`remote/admission.rs`: the canonical form of a destination that the core names, the allowances that
it is matched against, and the rule of service classes.  Everything here is a function of its
inputs.

Texts are lists of characters.  The source walks over bytes, but it only ever looks at ASCII bytes
and always stands at a character's first byte.
-/

namespace GwzTransport.Remote

open Protocol Checks Strings

abbrev Text := List Char

/-- What a request may do over the carrier, by the client's own request type. -/
inductive ServiceClass
  | fetch
  | push
  | plan
  | noTransport
  deriving DecidableEq

/-- Why a destination or an allowance is not in canonical form. -/
inductive CanonError
  | scheme
  | host
  | nonAsciiHost
  | port
  | path
  | home
  | badSyntax
  deriving DecidableEq

inductive Base
  | absolute
  | home
  deriving DecidableEq

/-- A destination's scheme, host, port and path, whatever its spelling. -/
structure Canonical where
  scheme : Scheme
  host : Text
  port : ℕ
  base : Base
  segments : List Text
  deriving DecidableEq

/-- One entry of an allowed set: a repository, a prefix, or, without a base, a whole host. -/
structure Allowance where
  scheme : Scheme
  user : Option Text
  host : Text
  port : ℕ
  base : Option Base
  segments : List Text
  isPrefix : Bool
  deriving DecidableEq

def knownHosts : List Text :=
  ["github.com".toList, "gitlab.com".toList, "bitbucket.org".toList]

def maxPathBytes : ℕ := 16 * 1024

/-- The length of a text in bytes. -/
def byteLength (text : Text) : ℕ := (text.map Char.utf8Size).sum

/-! ### Paths -/

def isHexDigit (c : Char) : Bool := (digitValue 16 c).isSome

/-- The escapes of NUL, `.`, `/` and a backslash. -/
def refusedEscape (a b : Char) : Bool :=
  let value := (digitValue 16 a).getD 0 * 16 + (digitValue 16 b).getD 0
  value == 0x00 || value == 0x2e || value == 0x2f || value == 0x5c

/-- A character that a path may not hold as it is. -/
def refusedChar (c : Char) : Bool := c == '\\' || decide (c.toNat < 0x20) || c.toNat == 0x7f

/-- A path with the hex digits of its escapes in upper case. -/
def percentNormalized : Text → Except CanonError Text
  | [] => .ok []
  | '%' :: a :: b :: raw => do
    refuseIf (!isHexDigit a || !isHexDigit b || refusedEscape a b) .path
    let out ← percentNormalized raw
    return '%' :: a.toUpper :: b.toUpper :: out
  | '%' :: _ => .error .path
  | c :: raw => do
    refuseIf (refusedChar c) .path
    let out ← percentNormalized raw
    return c :: out

/-- The base of a path, and the path from there. -/
def rooted (scheme : Scheme) (host raw : Text) : Except CanonError (Base × Text) :=
  match scheme with
  | .https => do
    let rest ← required .path (strip ['/'] raw)
    return (.absolute, rest)
  | .ssh =>
    match (strip ['~', '/'] raw).or (strip ['/', '~', '/'] raw) with
    | some rest => .ok (.home, rest)
    | none =>
      if (strip ['~'] raw).isSome || (strip ['/', '~'] raw).isSome then .error .home
      else match strip ['/'] raw with
      | some rest => .ok (.absolute, rest)
      | none => .ok (if knownHosts.contains host then .absolute else .home, raw)

/-- A path without one trailing slash. -/
def trimmed (rest : Text) : Text := (stripEnd ['/'] rest).getD rest

def dotGit : Text := ['.', 'g', 'i', 't']

/-- The segments with the suffix `.git` of the last one removed. -/
def withoutSuffix (segments : List Text) : Except CanonError (List Text) :=
  match segments.getLast?.bind (stripEnd dotGit) with
  | none => .ok segments
  | some [] => .error .path
  | some stem => .ok (segments.dropLast ++ [stem])

/-- The segments of a path behind its base. -/
def segmentsOf (rest : Text) : Except CanonError (List Text) := do
  let segments := rest.splitOn '/'
  refuseIf (segments.any fun s => s.isEmpty || s == ['.'] || s == ['.', '.']) .path
  withoutSuffix segments

/-- The base and the segments of a path; an allowance may name a whole host or a whole home. -/
def canonicalPath (raw : Text) (scheme : Scheme) (host : Text) (allowance : Bool) :
    Except CanonError (Option Base × List Text) := do
  refuseIf (decide (byteLength raw > maxPathBytes)) .path
  let raw ← percentNormalized raw
  let (base, rest) ← rooted scheme host raw
  let rest := trimmed rest
  if rest.isEmpty then
    refuseIf (!allowance || !(raw == ['/'] || raw == ['~', '/'] || raw == ['/', '~', '/'])) .path
    return (if raw = ['/'] then none else some base, [])
  else
    let segments ← segmentsOf rest
    return (some base, segments)

/-! ### Hosts -/

def v6 (text : Text) : Except CanonError Text := do
  refuseIf (text.contains '%') .host
  let groups ← required .host (parseIpv6 text)
  return ipv6Text groups

/-- Whether a label of a host name is not letters, digits and inner hyphens. -/
def badLabel (label : Text) : Bool :=
  label.isEmpty || decide (label.length > 63) || label.head? == some '-' ||
    label.getLast? == some '-' || !label.all fun c => c.isLower || c.isDigit || c == '-'

/-- A host name without one trailing dot. -/
def undotted (host : Text) : Text := (stripEnd ['.'] host).getD host

/-- A host name without its trailing dot, in lower case. -/
def canonicalName (host : Text) : Except CanonError Text := do
  refuseIf (!host.all fun c => decide (c.toNat < 0x80)) .nonAsciiHost
  refuseIf (host.isEmpty || decide (host.length > 253)) .host
  let lower := host.map Char.toLower
  let labels := lower.splitOn '.'
  refuseIf (labels.any badLabel) .host
  -- a name whose last label is all digits can only be an address
  if labels.getLast?.any fun label => label.all Char.isDigit then
    let quad ← required .host (parseIpv4 lower)
    refuseIf (ipv4Text quad != lower) .host
  return lower

/-- The canonical form of a host name, or of an address. -/
def canonicalHost (host : Text) : Except CanonError Text :=
  match (strip ['['] host).bind (stripEnd [']']) with
  | some inner => v6 inner
  | none =>
    if host.contains ':' then v6 host
    else canonicalName (undotted host)

def Canonical.fromDestination (destination : Destination) : Except CanonError Canonical := do
  refuseIf (decide (destination.port ≤ 0) || decide (destination.port > 65535)) .port
  let host ← canonicalHost destination.host.toList
  let (base, segments) ← canonicalPath destination.path.toList destination.scheme host false
  let base ← required .path base
  refuseIf segments.isEmpty .path
  return { scheme := destination.scheme, host, port := destination.port.toNat, base, segments }

/-! ### Allowances -/

/-- The sides of the colon of `[user@]host:path`: the first one, outside an address in brackets. -/
def scpSplit (text : Text) : Except CanonError (Text × Text) := do
  refuseIf (text.contains ']' && !(['['].isPrefixOf text) && (splitOnce ['@', '['] text).isNone)
    .badSyntax
  let (skipped, rest) := if text.contains ']' then text.span (· != ']') else ([], text)
  match rest.span (· != ':') with
  | (_, []) => .error .badSyntax
  | (before, _ :: path) =>
    refuseIf ((skipped ++ before).contains '/') .badSyntax
    return (skipped ++ before, path)

def parsePort (text : Text) : Except CanonError ℕ := do
  refuseIf (text.isEmpty || !text.all Char.isDigit || decide (text.length > 5)) .port
  let port := Nat.ofDigitChars 10 text 0
  refuseIf (decide (port > 65535) || port == 0) .port
  return port

/-- The user of an authority, and what stands behind it. -/
def splitUser (authority : Text) : Except CanonError (Option Text × Text) :=
  match rsplitOnce '@' authority with
  | none => .ok (none, authority)
  | some (user, rest) => do
    refuseIf (user.isEmpty || user.contains '/' || user.contains '\\' || user.contains '@' ||
      user.any Codec.isControl) .badSyntax
    return (some user, rest)

/-- The port behind a host, or the default. -/
def portOr (default : ℕ) (tail : Text) : Except CanonError ℕ :=
  if tail.isEmpty then .ok default
  else do
    let digits ← required .host (strip [':'] tail)
    parsePort digits

/-- A host with its port; a host in brackets keeps them. -/
def splitPort (hostport : Text) (default : ℕ) : Except CanonError (Text × ℕ) :=
  match strip ['['] hostport with
  | some rest =>
    match rest.span (· != ']') with
    | (_, []) => .error .host
    | (inner, _ :: tail) => do
      let port ← portOr default tail
      return ('[' :: inner ++ [']'], port)
  | none =>
    match rsplitOnce ':' hostport with
    | none => .ok (hostport, default)
    | some (host, digits) => do
      refuseIf (host.contains ':') .host
      let port ← parsePort digits
      return (host, port)

def splitAuthority (authority : Text) (scheme : Scheme) :
    Except CanonError (Option Text × Text × ℕ) := do
  let (user, hostport) ← splitUser authority
  let (host, port) ← splitPort hostport (if scheme = .ssh then 22 else 443)
  return (user, host, port)

def schemeOf (text : Text) : Except CanonError Scheme :=
  let lower := text.map Char.toLower
  if lower = "ssh".toList ∨ lower = "git+ssh".toList ∨ lower = "ssh+git".toList then .ok .ssh
  else if lower = "https".toList then .ok .https
  else .error .scheme

/-- The scheme, the authority and the path that an allowance is written with. -/
def splitAllowance (text : Text) : Except CanonError (Scheme × Text × Text) := do
  refuseIf (text.isEmpty || decide (byteLength text > maxPathBytes) || text.contains '?' ||
    text.contains '#') .badSyntax
  match splitOnce [':', '/', '/'] text with
  | some (scheme, rest) =>
    let scheme ← schemeOf scheme
    let (authority, path) := rest.span (· != '/')
    refuseIf path.isEmpty .badSyntax
    return (scheme, authority, path)
  | none =>
    let (authority, path) ← scpSplit text
    return (.ssh, authority, path)

/-- `scheme://[user@]host[:port]/path`, ending in a slash for a prefix, or `[user@]host:path`. -/
def Allowance.parse (text : Text) : Except CanonError Allowance := do
  let (scheme, authority, path) ← splitAllowance text
  let (user, host, port) ← splitAuthority authority scheme
  let host ← canonicalHost host
  let isPrefix := path.getLast? == some '/'
  let (base, segments) ← canonicalPath path scheme host true
  refuseIf (base.isSome && segments.isEmpty && !isPrefix) .path
  return { scheme, user, host, port, base, segments, isPrefix }

/-- Whether a tuple is inside the allowance. -/
def Allowance.matches (a : Allowance) (tuple : Canonical) : Bool :=
  a.scheme == tuple.scheme && a.host == tuple.host && a.port == tuple.port &&
    match a.base with
    | none => true
    | some base => base == tuple.base &&
      if a.isPrefix then
        decide (tuple.segments.length > a.segments.length) &&
          tuple.segments.take a.segments.length == a.segments
      else tuple.segments == a.segments

/-- The first allowance that admits a tuple. -/
def admitting (entries : List Allowance) (tuple : Canonical) : Option Allowance :=
  entries.find? fun entry => entry.matches tuple

/-! ### Services -/

inductive Refusal
  | plan
  | noTransport
  | classForbids
  | notAllowed
  | pushNotAllowed
  deriving DecidableEq

def receivePack : GitService → Bool
  | .receivePackAdvertisement | .receivePackExchange => true
  | _ => false

/-- The allowance that admits a service for a tuple under a request's class. -/
def admitService (serviceClass : ServiceClass) (service : GitService) (tuple : Canonical)
    (fetch push : List Allowance) : Except Refusal Allowance :=
  match serviceClass with
  | .plan => .error .plan
  | .noTransport => .error .noTransport
  | .fetch =>
    if receivePack service then .error .classForbids
    else required .notAllowed (admitting fetch tuple)
  | .push =>
    if receivePack service then required .pushNotAllowed (admitting push tuple)
    else required .notAllowed (admitting fetch tuple)

end GwzTransport.Remote
