/-!
# Numbers at the front of a text

The longest decimal number with which a text begins, after blanks and one
optional sign, and the machine words that it stands for. A negative number
stands for its complement; only ASCII digits and blanks count.
-/

namespace CrossLookup

/-- A signed decimal number and the text after it. -/
structure LeadingNumber where
  negative : Bool
  magnitude : Nat
  rest : List Char
deriving DecidableEq

/-- The blanks that may stand before a number. -/
def isBlank (c : Char) : Bool :=
  c == ' ' || ('\t' ≤ c && c ≤ '\x0d')

/-- The value of digits in decimal. -/
def decimalValue (digits : List Char) : Nat :=
  digits.foldl (fun n c => 10 * n + (c.toNat - '0'.toNat)) 0

namespace LeadingNumber

/-- Split off a sign, which is positive when absent. -/
def splitSign : List Char → Bool × List Char
  | '-' :: rest => (true, rest)
  | '+' :: rest => (false, rest)
  | rest => (false, rest)

/-- The number with which a text begins, if it begins with one. -/
def ofChars? (text : List Char) : Option LeadingNumber :=
  let (negative, text) := splitSign (text.dropWhile isBlank)
  let digits := text.takeWhile Char.isDigit
  if digits = [] then
    none
  else
    some ⟨negative, decimalValue digits, text.dropWhile Char.isDigit⟩

/-- The word that a number stands for, unless it is too large. -/
def word? (n : LeadingNumber) : Option UInt64 :=
  if n.magnitude < UInt64.size then
    some (if n.negative then 0 - .ofNat n.magnitude else .ofNat n.magnitude)
  else
    none

/-- The word that a number stands for, the greatest one when it is too large. -/
def saturatedWord (n : LeadingNumber) : UInt64 :=
  n.word?.getD 0xFFFFFFFFFFFFFFFF

/-- The signed value, brought into the range of 64 bits. -/
def clamped (n : LeadingNumber) : Int :=
  if n.negative then
    max (-(n.magnitude : Int)) (-0x8000000000000000)
  else
    min n.magnitude 0x7FFFFFFFFFFFFFFF

end LeadingNumber

end CrossLookup
