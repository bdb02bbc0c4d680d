import StyleFlip.Document.Basic
import StyleFlip.Document.Double

/-!
Reading JSON. The grammar is the strict one: no comments, no trailing commas, no text after the value, and no control
characters inside strings. Escapes of surrogate halves are accepted here and give a string without content unless they
pair up.
-/
namespace StyleFlip.Document.Json

/-- The four blanks of JSON. -/
def isBlank (c : Char) : Bool := c == ' ' || c == '\n' || c == '\t' || c == '\r'

/-- The text without blanks at its start. -/
def skip (text : Text) : Text := text.dropWhile isBlank

/-- A character of a string, or half of a pair of escapes. -/
inductive Part where
  | char (c : Char)
  | half (code : Nat)
deriving DecidableEq, Repr

def hexDigit? (c : Char) : Option Nat :=
  if c.isDigit then some (c.toNat - '0'.toNat)
  else if 'a' ≤ c ∧ c ≤ 'f' then some (c.toNat - 'a'.toNat + 10)
  else if 'A' ≤ c ∧ c ≤ 'F' then some (c.toNat - 'A'.toNat + 10)
  else none

def hex? (digits : Text) : Option Nat :=
  digits.foldlM (fun value c => (hexDigit? c).map (value * 16 + ·)) 0

/-- The part that four hexadecimal digits stand for. -/
def Part.ofCode (code : Nat) : Part :=
  if 0xd800 ≤ code ∧ code ≤ 0xdfff then .half code else .char (Char.ofNat code)

/-- The character that an escape of one letter stands for. -/
def escape? : Char → Option Char
  | '\x22' => some '\x22'
  | '\\' => some '\\'
  | '/' => some '/'
  | 'b' => some '\x08'
  | 'f' => some '\x0c'
  | 'n' => some '\n'
  | 'r' => some '\r'
  | 't' => some '\t'
  | _ => none

/-- The parts of a string after its opening quote, and what follows its closing quote. -/
def readParts : Text → Option (List Part × Text)
  | [] => none
  | '\x22' :: rest => some ([], rest)
  | '\\' :: 'u' :: a :: b :: c :: d :: rest =>
    match hex? [a, b, c, d], readParts rest with
    | some code, some (parts, following) => some (Part.ofCode code :: parts, following)
    | _, _ => none
  | '\\' :: e :: rest =>
    match escape? e, readParts rest with
    | some c, some (parts, following) => some (.char c :: parts, following)
    | _, _ => none
  | c :: rest => if c.toNat < 0x20 then none else (readParts rest).map fun (parts, following) => (.char c :: parts, following)

/-- The content of a string: a leading half has to be followed by a trailing one. -/
def joinParts : List Part → Option Text
  | [] => some []
  | .char c :: rest => (joinParts rest).map (c :: ·)
  | .half high :: .half low :: rest =>
    if high < 0xdc00 ∧ 0xdc00 ≤ low then
      (joinParts rest).map (Char.ofNat (0x10000 + (high - 0xd800) * 0x400 + (low - 0xdc00)) :: ·)
    else none
  | .half _ :: _ => none

/-- A string after its opening quote: its content and what follows it. -/
def readString (text : Text) : Option (Option Text × Text) :=
  (readParts text).map fun (parts, following) => (joinParts parts, following)

/-- The digits of a fraction, if a point starts one, and what follows; a point without digits is refused. -/
def readFraction : Text → Option (Option Text × Text)
  | '.' :: rest =>
    match rest.takeWhile Char.isDigit with
    | [] => none
    | digits => some (some digits, rest.dropWhile Char.isDigit)
  | text => some (none, text)

def readSign : Text → Bool × Text
  | '-' :: rest => (true, rest)
  | '+' :: rest => (false, rest)
  | text => (false, text)

/-- The exponent, if a letter starts one, and what follows; a letter without digits is refused. -/
def readExponent : Text → Option (Option Int × Text)
  | c :: rest =>
    if c = 'e' ∨ c = 'E' then
      let (negative, rest) := readSign rest
      match rest.takeWhile Char.isDigit with
      | [] => none
      | digits =>
        let size : Int := Text.digitsValue digits
        some (some (if negative then -size else size), rest.dropWhile Char.isDigit)
    else some (none, c :: rest)
  | [] => some (none, [])

/-- A number without fraction and exponent. It is an integer if 64 bits hold it, and not if it is a zero with a sign. -/
def wholeNumber (negative : Bool) (digits : Text) : Document :=
  let size := Text.digitsValue digits
  if negative then
    if 0 < size ∧ size ≤ Nat.pow 2 63 then .integer (-(size : Int)) else .decimal (Held.ofWhole digits).isFinite
  else if size < Nat.pow 2 64 then .integer size
  else .decimal (Held.ofWhole digits).isFinite

/-- A number without its sign and what follows it. No digit may stand after a leading zero. -/
def readNumber (negative : Bool) (text : Text) : Option (Document × Text) :=
  let digits := text.takeWhile Char.isDigit
  let rest := text.dropWhile Char.isDigit
  if digits.isEmpty || (digits.head? == some '0' && 1 < digits.length) then none
  else
    match readFraction rest with
    | none => none
    | some (fraction, rest) =>
      match readExponent rest with
      | none => none
      | some (exponent, rest) =>
        match fraction, exponent with
        | none, none => some (wholeNumber negative digits, rest)
        | _, _ =>
          let held := ((Held.ofWhole digits).withPlaces (fraction.getD [])).scaled (exponent.getD 0)
          some (.decimal held.isFinite, rest)

mutual
/-- A value and what follows it. Each step spends one unit of fuel. -/
def readValue : Nat → Text → Option (Document × Text)
  | 0, _ => none
  | fuel + 1, text =>
    match skip text with
    | '{' :: rest =>
      match skip rest with
      | '}' :: rest => some (.table [], rest)
      | rest => (readMembers fuel rest).map fun (members, following) => (.table members, following)
    | '[' :: rest =>
      match skip rest with
      | ']' :: rest => some (.array [], rest)
      | rest => (readItems fuel rest).map fun (items, following) => (.array items, following)
    | '\x22' :: rest => (readString rest).map fun (content, following) => (.string content, following)
    | '-' :: rest => readNumber true rest
    | text =>
      match Text.after? "null".toList text, Text.after? "true".toList text, Text.after? "false".toList text with
      | some rest, _, _ => some (.null, rest)
      | _, some rest, _ => some (.bool true, rest)
      | _, _, some rest => some (.bool false, rest)
      | none, none, none => readNumber false text

/-- The items of an array up to its closing bracket, at least one, and what follows. -/
def readItems : Nat → Text → Option (List Document × Text)
  | 0, _ => none
  | fuel + 1, text =>
    match readValue fuel text with
    | none => none
    | some (item, rest) =>
      match skip rest with
      | ']' :: rest => some ([item], rest)
      | ',' :: rest => (readItems fuel rest).map fun (items, following) => (item :: items, following)
      | _ => none

/-- The members of a table up to its closing brace, at least one, and what follows. -/
def readMembers : Nat → Text → Option (List (Option Text × Document) × Text)
  | 0, _ => none
  | fuel + 1, text =>
    match skip text with
    | '\x22' :: rest =>
      match readString rest with
      | none => none
      | some (key, rest) =>
        match skip rest with
        | ':' :: rest =>
          match readValue fuel rest with
          | none => none
          | some (value, rest) =>
            match skip rest with
            | '}' :: rest => some ([(key, value)], rest)
            | ',' :: rest =>
              (readMembers fuel rest).map fun (members, following) => ((key, value) :: members, following)
            | _ => none
        | _ => none
    | _ => none
end

/-- The document that a JSON text holds. No step spends more than two units of fuel on a character. -/
def parse? (text : Text) : Option Document :=
  match readValue (2 * text.length + 2) text with
  | some (document, rest) => if (skip rest).isEmpty then some document else none
  | none => none

end StyleFlip.Document.Json
