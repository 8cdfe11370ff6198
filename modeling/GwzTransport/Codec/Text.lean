import GwzTransport.Protocol.Types

/-!
# Text checks of the codec

Character classes as the source's standard library defines them, and the percent-decoding scan
of `codec/https_shape.rs`.  The scan keeps at most four bytes of an unfinished character and asks
the UTF-8 validator after every byte, so the validator is modelled with its three answers: valid
text, an error at a known place, and input that only ends too early.
-/

namespace GwzTransport.Codec

/-- A Unicode control character (general category `Cc`). -/
def isControl (c : Char) : Bool :=
  c.toNat ≤ 0x1f || (0x7f ≤ c.toNat && c.toNat ≤ 0x9f)

/-- A character with the Unicode property `White_Space`. -/
def isWhitespace (c : Char) : Bool :=
  let n := c.toNat
  (0x09 ≤ n && n ≤ 0x0d) || n == 0x20 || n == 0x85 || n == 0xa0 || n == 0x1680 ||
    (0x2000 ≤ n && n ≤ 0x200a) || n == 0x2028 || n == 0x2029 || n == 0x202f || n == 0x205f ||
    n == 0x3000

def isAsciiControl (b : UInt8) : Bool := b.toNat ≤ 0x1f || b.toNat == 0x7f

def isAsciiWhitespace (b : UInt8) : Bool :=
  b.toNat == 0x20 || b.toNat == 0x09 || b.toNat == 0x0a || b.toNat == 0x0c || b.toNat == 0x0d

def isAsciiDigit (b : UInt8) : Bool := 0x30 ≤ b.toNat && b.toNat ≤ 0x39

def isAsciiAlphanumeric (b : UInt8) : Bool :=
  isAsciiDigit b || (0x41 ≤ b.toNat && b.toNat ≤ 0x5a) || (0x61 ≤ b.toNat && b.toNat ≤ 0x7a)

def isAsciiHexdigit (b : UInt8) : Bool :=
  isAsciiDigit b || (0x41 ≤ b.toNat && b.toNat ≤ 0x46) || (0x61 ≤ b.toNat && b.toNat ≤ 0x66)

/-- The UTF-8 bytes of a text. -/
def bytesOf (s : String) : List UInt8 := s.toUTF8.toList

/-! ### The UTF-8 validator -/

/-- The validator's verdict on the first character of its input. -/
inductive Utf8Head
  /-- A whole character and the bytes after it. -/
  | char (c : Char) (rest : List UInt8)
  /-- The bytes can never start a character. -/
  | invalid
  /-- The bytes are a proper beginning of a character. -/
  | incomplete

def isContinuation (b : UInt8) : Bool := 0x80 ≤ b.toNat && b.toNat ≤ 0xbf

/-- Whether `b1` may follow the lead byte `b0` of a character of three or four bytes: the first
continuation byte excludes overlong forms, surrogates and values above `U+10FFFF`. -/
def secondAllowed (b0 b1 : UInt8) : Bool :=
  let n := b1.toNat
  match b0.toNat with
  | 0xe0 => 0xa0 ≤ n && n ≤ 0xbf
  | 0xed => 0x80 ≤ n && n ≤ 0x9f
  | 0xf0 => 0x90 ≤ n && n ≤ 0xbf
  | 0xf4 => 0x80 ≤ n && n ≤ 0x8f
  | _ => isContinuation b1

def utf8Head : List UInt8 → Utf8Head
  | [] => .incomplete
  | b0 :: rest =>
    let lead := b0.toNat
    if lead < 0x80 then .char (Char.ofNat lead) rest
    else if 0xc2 ≤ lead && lead ≤ 0xdf then
      match rest with
      | [] => .incomplete
      | b1 :: rest =>
        if isContinuation b1 then
          .char (Char.ofNat ((lead - 0xc0) * 64 + (b1.toNat - 0x80))) rest
        else .invalid
    else if 0xe0 ≤ lead && lead ≤ 0xef then
      match rest with
      | [] => .incomplete
      | b1 :: rest =>
        if !secondAllowed b0 b1 then .invalid else
        match rest with
        | [] => .incomplete
        | b2 :: rest =>
          if isContinuation b2 then
            .char (Char.ofNat ((lead - 0xe0) * 4096 + (b1.toNat - 0x80) * 64 + (b2.toNat - 0x80)))
              rest
          else .invalid
    else if 0xf0 ≤ lead && lead ≤ 0xf4 then
      match rest with
      | [] => .incomplete
      | b1 :: rest =>
        if !secondAllowed b0 b1 then .invalid else
        match rest with
        | [] => .incomplete
        | b2 :: rest =>
          if !isContinuation b2 then .invalid else
          match rest with
          | [] => .incomplete
          | b3 :: rest =>
            if isContinuation b3 then
              .char (Char.ofNat ((lead - 0xf0) * 262144 + (b1.toNat - 0x80) * 4096 +
                (b2.toNat - 0x80) * 64 + (b3.toNat - 0x80))) rest
            else .invalid
    else .invalid

/-- `str::from_utf8`: the text, or whether the first error is definite (`true`) or the input
merely ends inside a character (`false`).  The fuel is the input's length. -/
def fromUtf8Fuel : ℕ → List UInt8 → Except Bool (List Char)
  | _, [] => .ok []
  | 0, _ :: _ => .error false
  | fuel + 1, b :: bs =>
    match utf8Head (b :: bs) with
    | .char c rest => (fromUtf8Fuel fuel rest).map (c :: ·)
    | .invalid => .error true
    | .incomplete => .error false

def fromUtf8 (bytes : List UInt8) : Except Bool (List Char) := fromUtf8Fuel bytes.length bytes

/-! ### Percent escapes -/

def hex (byte : UInt8) : Option UInt8 :=
  if isAsciiDigit byte then some (byte - 0x30)
  else if 0x61 ≤ byte.toNat && byte.toNat ≤ 0x66 then some (byte - 0x61 + 10)
  else if 0x41 ≤ byte.toNat && byte.toNat ≤ 0x46 then some (byte - 0x41 + 10)
  else none

/-- The scan's state: the bytes of an unfinished character, whether the text was found not to be
UTF-8, and whether a Unicode control character was completed. -/
structure DecodedScan where
  pending : List UInt8 := []
  invalid : Bool := false
  unicodeControl : Bool := false

/-- One decoded byte; `none` is an ASCII control byte, where the scan ends at once. -/
def DecodedScan.byte (s : DecodedScan) (b : UInt8) : Option DecodedScan :=
  if isAsciiControl b then none
  else if s.invalid then some s
  else
    let utf8 := s.pending ++ [b]
    match fromUtf8 utf8 with
    | .ok text => some { s with
        unicodeControl := s.unicodeControl || text.any isControl, pending := [] }
    | .error definite =>
      if definite || utf8.length == 4 then some { s with invalid := true, pending := utf8 }
      else some { s with pending := utf8 }

/-- The loop over the bytes; a `%` needs two more bytes after it to be an escape. -/
def decodedControlFrom (s : DecodedScan) : List UInt8 → Bool
  | [] => s.unicodeControl && !s.invalid && s.pending.isEmpty
  | b :: rest =>
    if b == 0x25 then
      match rest with
      | h :: l :: rest' =>
        match hex h, hex l with
        | some x, some y =>
          match s.byte (x * 16 + y) with
          | none => true
          | some s' => decodedControlFrom s' rest'
        | _, _ =>
          match s.byte b with
          | none => true
          | some s' => decodedControlFrom s' (h :: l :: rest')
      | short =>
        match s.byte b with
        | none => true
        | some s' => decodedControlFrom s' short
    else
      match s.byte b with
      | none => true
      | some s' => decodedControlFrom s' rest
termination_by bytes => bytes.length

def hasDecodedControl (value : String) : Bool := decodedControlFrom {} (bytesOf value)

end GwzTransport.Codec
