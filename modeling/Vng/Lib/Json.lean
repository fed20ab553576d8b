import Mathlib.Algebra.Field.Rat
import Mathlib.Tactic.Common
import Vng.Lib.Decimal

/-!
# JSON

A parser of JSON texts, over bytes, and what a text must hold for the strings that are parsed from
it: two quotes for each string, and a backslash for each quote or backslash in one.
-/

/-! ## UTF-8 -/

namespace Utf8

/-- A code point in UTF-8. -/
def encode (n : ℕ) : List (BitVec 8) :=
  if n < 0x80 then [BitVec.ofNat 8 n]
  else if n < 0x800 then [BitVec.ofNat 8 (0xC0 + n / 0x40), BitVec.ofNat 8 (0x80 + n % 0x40)]
  else if n < 0x10000 then
    [BitVec.ofNat 8 (0xE0 + n / 0x1000), BitVec.ofNat 8 (0x80 + n / 0x40 % 0x40),
      BitVec.ofNat 8 (0x80 + n % 0x40)]
  else
    [BitVec.ofNat 8 (0xF0 + n / 0x40000 % 8), BitVec.ofNat 8 (0x80 + n / 0x1000 % 0x40),
      BitVec.ofNat 8 (0x80 + n / 0x40 % 0x40), BitVec.ofNat 8 (0x80 + n % 0x40)]

def isTail (b : BitVec 8) : Bool := 0x80 ≤ b.toNat && b.toNat ≤ 0xBF

/-- The bytes are the encoding of characters: no stray tails, no overlong forms, no surrogates. -/
def valid : List (BitVec 8) → Bool
  | [] => true
  | a :: bytes =>
    if a.toNat < 0x80 then valid bytes
    else match bytes with
      | [] => false
      | b :: bytes =>
        if a.toNat < 0xE0 then 0xC2 ≤ a.toNat && isTail b && valid bytes
        else match bytes with
          | [] => false
          | c :: bytes =>
            if a.toNat < 0xF0 then
              let n := (a.toNat - 0xE0) * 0x1000 + (b.toNat - 0x80) * 0x40 + (c.toNat - 0x80)
              isTail b && isTail c && (0x800 ≤ n) && (n < 0xD800 || 0xE000 ≤ n) && valid bytes
            else match bytes with
              | [] => false
              | d :: bytes =>
                let n := (a.toNat - 0xF0) * 0x40000 + (b.toNat - 0x80) * 0x1000 +
                  (c.toNat - 0x80) * 0x40 + (d.toNat - 0x80)
                isTail b && isTail c && isTail d && (0x10000 ≤ n) && (n ≤ 0x10FFFF) && valid bytes

end Utf8

namespace Json

abbrev Text := List (BitVec 8)

/-- A parser takes a text, and gives what it has read and the rest. -/
abbrev Parser (α : Type) := Text → Option (α × Text)

/-- The values of JSON. -/
inductive Value
  | null
  | bool (value : Bool)
  | number (value : ℚ)
  | string (content : Text)
  | array (elements : List Value)
  | object (members : List (Text × Value))

abbrev quote : BitVec 8 := 0x22
abbrev comma : BitVec 8 := 0x2C
abbrev backslash : BitVec 8 := 0x5C

/-- The blanks between tokens. -/
def isSpace (b : BitVec 8) : Bool := b = 0x20 || b = 0x09 || b = 0x0A || b = 0x0D

def skipSpace (text : Text) : Text := text.dropWhile isSpace

/-! ## Strings -/

def hexValue (b : BitVec 8) : Option ℕ :=
  if 0x30 ≤ b.toNat ∧ b.toNat ≤ 0x39 then some (b.toNat - 0x30)
  else if 0x41 ≤ b.toNat ∧ b.toNat ≤ 0x46 then some (b.toNat - 0x37)
  else if 0x61 ≤ b.toNat ∧ b.toNat ≤ 0x66 then some (b.toNat - 0x57)
  else none

/-- Four hexadecimal digits. -/
def parseHex : Parser ℕ
  | a :: b :: c :: d :: text => do
    let a ← hexValue a
    let b ← hexValue b
    let c ← hexValue c
    let d ← hexValue d
    return (0x1000 * a + 0x100 * b + 0x10 * c + d, text)
  | _ => none

/-- The character behind `\u`: it may take a second `\u` for the lower half of a pair. -/
def parseUnicode (text : Text) : Option (ℕ × Text) := do
  let (n, text) ← parseHex text
  if n < 0xD800 ∨ 0xE000 ≤ n then return (n, text)
  else if 0xDC00 ≤ n then none
  else match text with
    | a :: b :: text =>
      if a = backslash ∧ b = 0x75 then do
        let (m, text) ← parseHex text
        if 0xDC00 ≤ m ∧ m < 0xE000 then
          return (0x10000 + (n - 0xD800) * 0x400 + (m - 0xDC00), text)
        else none
      else none
    | _ => none

/-- The escapes with one letter. -/
def unescape (b : BitVec 8) : Option (BitVec 8) :=
  if b = quote ∨ b = backslash ∨ b = 0x2F then some b
  else if b = 0x62 then some 0x08
  else if b = 0x66 then some 0x0C
  else if b = 0x6E then some 0x0A
  else if b = 0x72 then some 0x0D
  else if b = 0x74 then some 0x09
  else none

/-- What a backslash stands for, with what is behind it. -/
def parseEscape : Parser Text
  | [] => none
  | b :: text =>
    if b = 0x75 then do
      let (n, text) ← parseUnicode text
      return (Utf8.encode n, text)
    else do
      let c ← unescape b
      return ([c], text)

/-- The content of a string up to its closing quote. -/
def parseChars : (fuel : ℕ) → Parser Text
  | 0, _ => none
  | _ + 1, [] => none
  | fuel + 1, b :: text =>
    if b = quote then some ([], text)
    else if b.toNat < 0x20 then none
    else if b = backslash then do
      let (bytes, text) ← parseEscape text
      let (content, text) ← parseChars fuel text
      return (bytes ++ content, text)
    else do
      let (content, text) ← parseChars fuel text
      return (b :: content, text)

/-- A string behind its opening quote. -/
def parseString (text : Text) : Option (Text × Text) := do
  let (content, rest) ← parseChars text.length text
  if Utf8.valid content then return (content, rest) else none

/-! ## Numbers -/

/-- One digit at least. -/
def parseDigits (text : Text) : Option (Text × Text) :=
  if text.takeWhile Decimal.isDigit = [] then none
  else some (text.takeWhile Decimal.isDigit, text.dropWhile Decimal.isDigit)

/-- A point with digits behind it, or nothing. -/
def parseFraction : Parser Text
  | [] => some ([], [])
  | b :: text => if b = 0x2E then parseDigits text else some ([], b :: text)

/-- An exponent with its sign, or nothing. -/
def parseExponent : Parser ℤ
  | [] => some (0, [])
  | b :: text =>
    if b = 0x65 ∨ b = 0x45 then
      match text with
      | [] => none
      | sign :: text =>
        if sign = 0x2D then (parseDigits text).map fun r => (-(Decimal.ofDigits r.1 : ℤ), r.2)
        else if sign = 0x2B then (parseDigits text).map fun r => (↑(Decimal.ofDigits r.1), r.2)
        else (parseDigits (sign :: text)).map fun r => (↑(Decimal.ofDigits r.1), r.2)
    else some (0, b :: text)

/-- A number without its sign. -/
def parseUnsigned (text : Text) : Option (ℚ × Text) := do
  let (digits, text) ← parseDigits text
  if digits.head? = some 0x30 ∧ 1 < digits.length then none
  else do
    let (fraction, text) ← parseFraction text
    let (exponent, text) ← parseExponent text
    return ((Decimal.ofDigits (digits ++ fraction) : ℚ) * 10 ^ (exponent - fraction.length), text)

/-- A number with its sign. -/
def parseNumber : Parser ℚ
  | [] => none
  | b :: text =>
    if b = 0x2D then (parseUnsigned text).map fun r => (-r.1, r.2)
    else parseUnsigned (b :: text)

/-! ## Values -/

/-- `true`, `false` and `null`. -/
def parseKeyword (text : Text) : Option (Value × Text) :=
  if [0x74, 0x72, 0x75, 0x65] <+: text then some (.bool true, text.drop 4)
  else if [0x66, 0x61, 0x6C, 0x73, 0x65] <+: text then some (.bool false, text.drop 5)
  else if [0x6E, 0x75, 0x6C, 0x6C] <+: text then some (.null, text.drop 4)
  else none

variable {α : Type}

/-- Items between commas, up to the closing byte. -/
def parseItems (item : Parser α) (close : BitVec 8) : (fuel : ℕ) → Parser (List α)
  | 0, _ => none
  | fuel + 1, text => do
    let (a, text) ← item text
    match skipSpace text with
    | [] => none
    | b :: text =>
      if b = close then return ([a], text)
      else if b = comma then do
        let (items, text) ← parseItems item close fuel text
        return (a :: items, text)
      else none

/-- The inside of an array or of an object, behind its opening byte. -/
def parseBlock (item : Parser α) (close : BitVec 8) (text : Text) : Option (List α × Text) :=
  match skipSpace text with
  | [] => none
  | b :: rest => if b = close then some ([], rest) else parseItems item close text.length text

/-- The rest of a name, a colon and a value. -/
def parseNamed (value : Parser α) (text : Text) : Option ((Text × α) × Text) := do
  let (name, text) ← parseString text
  match skipSpace text with
  | [] => none
  | b :: text =>
    if b = 0x3A then do
      let (a, text) ← value text
      return ((name, a), text)
    else none

/-- A name in quotes, a colon and a value. -/
def parseMember (value : Parser α) (text : Text) : Option ((Text × α) × Text) :=
  match skipSpace text with
  | [] => none
  | b :: text => if b = quote then parseNamed value text else none

/-- Any value; the fuel bounds how deep it is nested. -/
def parseValue : (fuel : ℕ) → Parser Value
  | 0, _ => none
  | fuel + 1, text =>
    match skipSpace text with
    | [] => none
    | b :: text =>
      if b = 0x7B then
        (parseBlock (parseMember (parseValue fuel)) 0x7D text).map fun r => (.object r.1, r.2)
      else if b = 0x5B then
        (parseBlock (parseValue fuel) 0x5D text).map fun r => (.array r.1, r.2)
      else if b = quote then (parseString text).map fun r => (.string r.1, r.2)
      else match parseKeyword (b :: text) with
        | some result => some result
        | none => (parseNumber (b :: text)).map fun r => (.number r.1, r.2)

/-- The value of a text: values do not nest deeper than it is long. -/
def parse (text : Text) : Option Value := do
  let (value, rest) ← parseValue (text.length + 1) text
  if skipSpace rest = [] then return value else none

end Json
