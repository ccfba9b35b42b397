/-!
# JSON values

What a parser makes of a JSON text, as far as a configuration looks at it.
-/

namespace CrossLookup

/-- A JSON value. -/
inductive JsonValue
  | null
  | bool (b : Bool)
  /-- An integer that fits 64 bits. -/
  | integer (n : Int)
  /-- A number with a fraction or an exponent, or too large for 64 bits. -/
  | inexact
  | string (s : String)
  | array (items : List JsonValue)
  /-- The fields with their keys; of several with one key the first counts. -/
  | object (fields : List (String × JsonValue))

end CrossLookup
