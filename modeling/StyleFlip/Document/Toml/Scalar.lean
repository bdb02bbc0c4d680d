import StyleFlip.Document.Json
import StyleFlip.Document.Toml.Moment

/-!
TOML values that are written without quotes and brackets: booleans, integers, other numbers, dates and times.
Underscores may stand between digits. A date and a time of day may be joined by a space, so a date looks at the text
after it.
-/
namespace StyleFlip.Document.Toml

/-- Characters of an unquoted value. -/
def isScalarChar (c : Char) : Bool := c.isAlphanum || c == '_' || c == '+' || c == '-' || c == '.' || c == ':'

/-- The digits of a number with single underscores between them. -/
def digitsOf? (isDigit : Char → Bool) : Text → Option Text
  | [] => none
  | [c] => if isDigit c then some [c] else none
  | c :: '_' :: rest => if isDigit c then (digitsOf? isDigit rest).map (c :: ·) else none
  | c :: rest => if isDigit c then (digitsOf? isDigit rest).map (c :: ·) else none

/-- The number that digits write in the given base. -/
def digitsIn (base : Nat) (digits : Text) : Nat :=
  digits.foldl (fun value c => value * base + (Json.hexDigit? c).getD 0) 0

def isDigitIn (base : Nat) (c : Char) : Bool := (Json.hexDigit? c).any (· < base)

/-- A decimal integer without its sign: no other digit may follow a leading zero. -/
def decimal? (text : Text) : Option Text :=
  match digitsOf? Char.isDigit text with
  | some ('0' :: _ :: _) => none
  | found => found

/-- The sign of a number, if it has one, and the rest. -/
def signOf : Text → Option Bool × Text
  | '-' :: rest => (some true, rest)
  | '+' :: rest => (some false, rest)
  | text => (none, text)

/-- An integer in any of the four bases. -/
def integer? (text : Text) : Option Document :=
  match signOf text with
  | (none, '0' :: 'x' :: digits) => (digitsOf? (isDigitIn 16) digits).map fun found => .integer (digitsIn 16 found)
  | (none, '0' :: 'o' :: digits) => (digitsOf? (isDigitIn 8) digits).map fun found => .integer (digitsIn 8 found)
  | (none, '0' :: 'b' :: digits) => (digitsOf? (isDigitIn 2) digits).map fun found => .integer (digitsIn 2 found)
  | (sign, digits) =>
    (decimal? digits).map fun found =>
      .integer (if sign == some true then -(Text.digitsValue found : Int) else Text.digitsValue found)

/-- The parts of a text before and from the first character that satisfies `stops`. -/
def splitWhere (stops : Char → Bool) (text : Text) : Text × Text :=
  (text.takeWhile fun c => !stops c, text.dropWhile fun c => !stops c)

/-- A number with a fraction or an exponent, an infinity or no number. -/
def decimalNumber? (text : Text) : Option Document :=
  let (_, unsigned) := signOf text
  if unsigned = "inf".toList ∨ unsigned = "nan".toList then some (.decimal true)
  else
    let (mantissa, power) := splitWhere (fun c => c == 'e' || c == 'E') unsigned
    let (whole, point) := splitWhere (· == '.') mantissa
    let exponent : Option Int := match power with
      | [] => some 0
      | _ :: written =>
        let (sign, digits) := signOf written
        (digitsOf? Char.isDigit digits).map fun found =>
          if sign == some true then -(Text.digitsValue found : Int) else Text.digitsValue found
    let places : Option Text := match point with
      | [] => some []
      | _ :: written => digitsOf? Char.isDigit written
    if point.isEmpty && power.isEmpty then none
    else match decimal? whole, places, exponent with
      | some whole, some places, some exponent =>
        some (.decimal (isFinite (Text.digitsValue (whole ++ places)) (exponent - places.length)))
      | _, _, _ => none

def scalar? (text : Text) : Option Document :=
  if text = "true".toList then some (.bool true)
  else if text = "false".toList then some (.bool false)
  else match integer? text, decimalNumber? text with
    | some found, _ => some found
    | none, some found => some found
    | none, none => (moment? text).map .moment

/-- An unquoted value at the start of a text and what follows it. -/
def readScalar? (text : Text) : Option (Document × Text) :=
  let word := text.takeWhile isScalarChar
  let rest := text.dropWhile isScalarChar
  match afterDate? word, rest with
  | some [], ' ' :: d :: following =>
    if d.isDigit then
      let clock := (d :: following).takeWhile isScalarChar
      (scalar? (word ++ ' ' :: clock)).map fun found => (found, (d :: following).dropWhile isScalarChar)
    else (scalar? word).map fun found => (found, rest)
  | _, _ => (scalar? word).map fun found => (found, rest)

end StyleFlip.Document.Toml
