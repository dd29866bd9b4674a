import Mathlib.Algebra.Order.Field.Rat
import Exchange.Lib.Assoc

/-!
# Order payloads

The text format of an order: `key=value` pairs between semicolons, of which the first with a given
key counts. Numbers are read by `strtod`, here with the exact value of the literal instead of the
nearest double.
-/

namespace Exchange.Payload

def emplaceToken (token : List Char) (values : AList fun _ : String => String) : AList fun _ : String => String :=
  if '=' ∈ token then
    let key := String.ofList (token.takeWhile (· ≠ '='))
    let value := String.ofList ((token.dropWhile (· ≠ '=')).drop 1)
    if key ∈ values then values else values.insert key value
  else values

/-- The loop of `parse_key_values`; `token` holds the characters since the last semicolon, last
first. -/
def parseLoop : List Char → List Char → (AList fun _ : String => String) → AList fun _ : String => String
  | [], token, values => emplaceToken token.reverse values
  | ch :: rest, token, values =>
    if ch = ';' then parseLoop rest [] (emplaceToken token.reverse values) else parseLoop rest (ch :: token) values

def parseKeyValues (payload : String) : AList fun _ : String => String := parseLoop payload.toList [] ∅

def digitValue (base : ℕ) (ch : Char) : Option ℕ :=
  let value :=
    if '0' ≤ ch ∧ ch ≤ '9' then ch.toNat - '0'.toNat
    else if 'a' ≤ ch ∧ ch ≤ 'f' then ch.toNat - 'a'.toNat + 10
    else if 'A' ≤ ch ∧ ch ≤ 'F' then ch.toNat - 'A'.toNat + 10
    else base
  if value < base then some value else none

/-- The digits at the front of a text: their value on top of `value`, how many there are on top of
`count`, and what follows them. -/
def readDigits (base : ℕ) : List Char → ℕ → ℕ → ℕ × ℕ × List Char
  | [], value, count => (value, count, [])
  | ch :: rest, value, count =>
    match digitValue base ch with
    | none => (value, count, ch :: rest)
    | some digit => readDigits base rest (value * base + digit) (count + 1)

def readExponent : List Char → Option ℤ
  | '-' :: text =>
    match readDigits 10 text 0 0 with
    | (value, count, []) => if count = 0 then none else some (-value)
    | _ => none
  | text =>
    let digits := match text with
      | '+' :: digits => digits
      | digits => digits
    match readDigits 10 digits 0 0 with
    | (value, count, []) => if count = 0 then none else some value
    | _ => none

def pow (base : ℚ) : ℤ → ℚ
  | .ofNat n => base ^ n
  | .negSucc n => (base ^ (n + 1))⁻¹

/-- An unsigned literal that is all of the text: digits in `base` with an optional point, then an
optional exponent of `scale` behind one of the `markers`. -/
def readLiteral (base scale : ℕ) (markers : List Char) (text : List Char) : Option ℚ := do
  let (whole, wholeCount, rest) := readDigits base text 0 0
  let (mantissa, count, rest) := match rest with
    | '.' :: rest => readDigits base rest whole wholeCount
    | rest => (whole, wholeCount, rest)
  let value := (mantissa : ℚ) * pow base (-((count - wholeCount : ℕ) : ℤ))
  if count = 0 then none
  else
    match rest with
    | [] => some value
    | marker :: rest =>
      if marker ∈ markers then (readExponent rest).map fun exponent => value * pow scale exponent else none

def readUnsigned : List Char → Option ℚ
  | '0' :: 'x' :: text | '0' :: 'X' :: text => readLiteral 16 2 ['p', 'P'] text
  | text => readLiteral 10 10 ['e', 'E'] text

def maxDouble : ℚ := (2 ^ 53 - 1) * 2 ^ 971

/-- The smallest normal double; the doubles below it are the multiples of `1 / 2 ^ 1074`. -/
def minNormal : ℚ := 1 / 2 ^ 1022

/-- `strtod` on a text that it must read to the end: white space, a sign and a literal. `inf` and `nan` are
not finite; a literal above the largest double, and one below the normal doubles that is none itself, are range
errors. -/
def strtod (text : String) : Option ℚ := do
  let text := text.toList.dropWhile (· ∈ [' ', '\t', '\n', '\x0b', '\x0c', '\r'])
  let value ← match text with
    | '-' :: text => (readUnsigned text).map (-·)
    | '+' :: text => readUnsigned text
    | text => readUnsigned text
  if |value| > maxDouble ∨ |value| < minNormal ∧ (value * 2 ^ 1074).den ≠ 1 then none else some value

def parseDecimal (value : String) : Option ℚ := if value = "" then none else strtod value

end Exchange.Payload
