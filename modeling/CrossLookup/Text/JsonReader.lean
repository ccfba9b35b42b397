import CrossLookup.Text.Json
import CrossLookup.Text.LeadingNumber

/-!
# Reading JSON texts

Integers are kept when they fit a machine word, signed ones when they have a
sign; all other numbers are only recognised. The grammar is strict: no comments,
no trailing commas, nothing after the value but blanks.
-/

namespace CrossLookup

namespace JsonValue

/-- Skip the blanks between tokens. -/
def skipBlanks (text : List Char) : List Char :=
  text.dropWhile fun c => c == ' ' || c == '\t' || c == '\n' || c == '\r'

/-- The text after a given beginning. -/
def after? : List Char → List Char → Option (List Char)
  | [], text => some text
  | c :: rest, d :: text => if c = d then after? rest text else none
  | _ :: _, [] => none

/-- The value of a hexadecimal digit. -/
def hexDigit? (c : Char) : Option Nat :=
  if c.isDigit then some (c.toNat - '0'.toNat)
  else if 'a' ≤ c ∧ c ≤ 'f' then some (c.toNat - 'a'.toNat + 10)
  else if 'A' ≤ c ∧ c ≤ 'F' then some (c.toNat - 'A'.toNat + 10)
  else none

/-- The value of four hexadecimal digits. -/
def hexUnit? (a b c d : Char) : Option Nat := do
  let a ← hexDigit? a
  let b ← hexDigit? b
  let c ← hexDigit? c
  let d ← hexDigit? d
  return ((a * 16 + b) * 16 + c) * 16 + d

/-- The character that a one-letter escape stands for. -/
def escaped? : Char → Option Char
  | '"' => some '"'
  | '\\' => some '\\'
  | '/' => some '/'
  | 'b' => some '\x08'
  | 'f' => some '\x0c'
  | 'n' => some '\n'
  | 'r' => some '\r'
  | 't' => some '\t'
  | _ => none

/-- Whether a code unit is the first of a surrogate pair. -/
def isHighSurrogate (n : Nat) : Bool :=
  0xD800 ≤ n && n ≤ 0xDBFF

/-- Whether a code unit is the second of a surrogate pair. -/
def isLowSurrogate (n : Nat) : Bool :=
  0xDC00 ≤ n && n ≤ 0xDFFF

/-- The character of a surrogate pair. -/
def joinSurrogates (high low : Nat) : Char :=
  .ofNat (0x10000 + (high - 0xD800) * 0x400 + (low - 0xDC00))

/-- The character that an escape stands for, and the text after it. -/
def readEscape? : List Char → Option (Char × List Char)
  | 'u' :: a :: b :: c :: d :: rest => do
      let unit ← hexUnit? a b c d
      if isHighSurrogate unit then
        match rest with
        | '\\' :: 'u' :: e :: f :: g :: h :: rest => do
            let low ← hexUnit? e f g h
            if isLowSurrogate low then some (joinSurrogates unit low, rest) else none
        | _ => none
      else if isLowSurrogate unit then
        none
      else
        some (.ofNat unit, rest)
  | c :: rest => (escaped? c).map fun e => (e, rest)
  | [] => none

/-- The characters up to the closing quote, and the text after it. -/
def readString? : Nat → List Char → Option (List Char × List Char)
  | 0, _ => none
  | _ + 1, [] => none
  | _ + 1, '"' :: rest => some ([], rest)
  | fuel + 1, '\\' :: rest => do
      let (c, rest) ← readEscape? rest
      let (cs, rest) ← readString? fuel rest
      return (c :: cs, rest)
  | fuel + 1, c :: rest =>
      if c.toNat < 0x20 then none else do
        let (cs, rest) ← readString? fuel rest
        return (c :: cs, rest)

/-- At least one digit, and the text after them. -/
def readDigits? (text : List Char) : Option (List Char × List Char) :=
  let digits := text.takeWhile Char.isDigit
  if digits = [] then none else some (digits, text.dropWhile Char.isDigit)

/-- Digits without a superfluous zero in front. -/
def readWhole? : List Char → Option (List Char × List Char)
  | '0' :: rest => some (['0'], rest)
  | text => readDigits? text

/-- Skip a fraction, telling whether there is one. -/
def readFraction? : List Char → Option (Bool × List Char)
  | '.' :: rest => (readDigits? rest).map fun r => (true, r.2)
  | text => some (false, text)

/-- Skip an exponent, telling whether there is one. -/
def readExponent? : List Char → Option (Bool × List Char)
  | c :: rest =>
      if c = 'e' ∨ c = 'E' then
        (readDigits? (LeadingNumber.splitSign rest).2).map fun r => (true, r.2)
      else
        some (false, c :: rest)
  | [] => some (false, [])

/-- The value of an integer token. -/
def ofInteger (negative : Bool) (magnitude : Nat) : JsonValue :=
  if negative then
    if magnitude ≤ 0x8000000000000000 then integer (-magnitude) else inexact
  else
    if magnitude < UInt64.size then integer magnitude else inexact

/-- A number, and the text after it. -/
def readNumber? (text : List Char) : Option (JsonValue × List Char) := do
  let (negative, text) := match text with
    | '-' :: rest => (true, rest)
    | text => (false, text)
  let (whole, text) ← readWhole? text
  let (fraction, text) ← readFraction? text
  let (exponent, text) ← readExponent? text
  if fraction || exponent then
    return (inexact, text)
  else
    return (ofInteger negative (decimalValue whole), text)

mutual

/-- A value after blanks, and the text after it. -/
def readValue? : Nat → List Char → Option (JsonValue × List Char)
  | 0, _ => none
  | fuel + 1, text =>
      match skipBlanks text with
      | '\x7b' :: rest =>
          match skipBlanks rest with
          | '\x7d' :: rest => some (object [], rest)
          | rest => (readFields? fuel rest).map fun r => (object r.1.reverse, r.2)
      | '[' :: rest =>
          match skipBlanks rest with
          | ']' :: rest => some (array [], rest)
          | rest => (readItems? fuel rest).map fun r => (array r.1, r.2)
      | '"' :: rest =>
          (readString? (rest.length + 1) rest).map fun r => (string (String.ofList r.1), r.2)
      | 'n' :: rest => (after? ['u', 'l', 'l'] rest).map fun r => (null, r)
      | 't' :: rest => (after? ['r', 'u', 'e'] rest).map fun r => (bool true, r)
      | 'f' :: rest => (after? ['a', 'l', 's', 'e'] rest).map fun r => (bool false, r)
      | text => readNumber? text

/-- The items of an array up to its closing bracket. -/
def readItems? : Nat → List Char → Option (List JsonValue × List Char)
  | 0, _ => none
  | fuel + 1, text => do
      let (item, text) ← readValue? fuel text
      match skipBlanks text with
      | ',' :: rest => do
          let (items, rest) ← readItems? fuel rest
          return (item :: items, rest)
      | ']' :: rest => return ([item], rest)
      | _ => none

/-- The fields of an object up to its closing brace. -/
def readFields? : Nat → List Char → Option (List (String × JsonValue) × List Char)
  | 0, _ => none
  | fuel + 1, text => do
      let text ← after? ['"'] (skipBlanks text)
      let (key, text) ← readString? (text.length + 1) text
      let text ← after? [':'] (skipBlanks text)
      let (value, text) ← readValue? fuel text
      let field := (String.ofList key, value)
      match skipBlanks text with
      | ',' :: rest => do
          let (fields, rest) ← readFields? fuel rest
          return (field :: fields, rest)
      | '\x7d' :: rest => return ([field], rest)
      | _ => none

end

/-- The value of a text that holds one value and blanks. -/
def ofText? (text : String) : Option JsonValue := do
  let chars := text.toList
  let (value, rest) ← readValue? (2 * chars.length + 2) chars
  if skipBlanks rest = [] then some value else none

/-- The value of a text, or that it is none. -/
def ofText (text : String) : Except String JsonValue :=
  match ofText? text with
  | some value => .ok value
  | none => .error "malformed JSON"

end JsonValue

end CrossLookup
