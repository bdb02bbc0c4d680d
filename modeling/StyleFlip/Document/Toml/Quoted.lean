import StyleFlip.Document.Json

/-!
The four kinds of TOML string. Basic strings know escapes and literal strings do not; each kind also comes with three
quotes, spans lines, and then loses a line break right after its opening. Control characters other than tabs are
refused everywhere.
-/
namespace StyleFlip.Document.Toml

/-- Control characters that neither a string nor a comment may hold; line breaks are treated apart. -/
def isControl (c : Char) : Bool := (c.toNat < 0x20 && c != '\t') || c.toNat == 0x7f

/-- The character that an escape of one letter stands for. -/
def escape? : Char → Option Char
  | 'b' => some '\x08'
  | 't' => some '\t'
  | 'n' => some '\n'
  | 'f' => some '\x0c'
  | 'r' => some '\r'
  | 'e' => some '\x1b'
  | '\x22' => some '\x22'
  | '\\' => some '\\'
  | _ => none

/-- How many hexadecimal digits the letter of a numeric escape asks for. -/
def escapeWidth : Char → Nat
  | 'x' => 2
  | 'u' => 4
  | 'U' => 8
  | _ => 0

/-- The character with the given code, which must not be half of a pair. -/
def charOf? (code : Nat) : Option Char := if code.isValidChar then some (Char.ofNat code) else none

/-- Where the reading of a basic string stands. -/
inductive Mode where
  | plain
  /-- After a backslash. -/
  | escaped
  /-- Inside a numeric escape, with the digits still to come and the code so far. -/
  | code (missing value : Nat)
  /-- After a backslash and blanks, before the line break that they need. -/
  | joining
  /-- After a backslash at the end of a line. -/
  | joined
deriving DecidableEq, Repr

def consChar (c : Char) (found : Option (Text × Text)) : Option (Text × Text) :=
  found.map fun (content, following) => (c :: content, following)

/-- The content of a basic string on one line after its opening quote, and what follows its closing quote. -/
def readBasic : Mode → Text → Option (Text × Text)
  | _, [] => none
  | .plain, c :: rest =>
    if c = '\x22' then some ([], rest)
    else if c = '\\' then readBasic .escaped rest
    else if isControl c then none
    else consChar c (readBasic .plain rest)
  | .escaped, c :: rest =>
    match escape? c, escapeWidth c with
    | some e, _ => consChar e (readBasic .plain rest)
    | none, 0 => none
    | none, width => readBasic (.code width 0) rest
  | .code missing value, c :: rest =>
    match Json.hexDigit? c with
    | none => none
    | some digit =>
      if 1 < missing then readBasic (.code (missing - 1) (value * 16 + digit)) rest
      else match charOf? (value * 16 + digit) with
        | none => none
        | some e => consChar e (readBasic .plain rest)
  | .joining, _ :: _ => none
  | .joined, _ :: _ => none

/-- The content of a literal string on one line after its opening quote, and what follows its closing quote. -/
def readLiteral : Text → Option (Text × Text)
  | [] => none
  | c :: rest =>
    if c = '\x27' then some ([], rest)
    else if isControl c then none
    else consChar c (readLiteral rest)

/-- Up to two quotes that may stand before the closing ones belong to the content. -/
def closing? (quote : Char) (text : Text) : Option (Text × Text) :=
  let run := (text.takeWhile (· == quote)).length
  if run < 3 then none
  else
    let kept := min run 5 - 3
    some (List.replicate kept quote, text.drop (kept + 3))

/-- The content of a basic string over several lines, and what follows its closing quotes. -/
def readLongBasic : Mode → Text → Option (Text × Text)
  | _, [] => none
  | .plain, '\r' :: '\n' :: rest => consChar '\r' (consChar '\n' (readLongBasic .plain rest))
  | .joining, '\r' :: '\n' :: rest => readLongBasic .joined rest
  | .escaped, '\r' :: '\n' :: rest => readLongBasic .joined rest
  | .joined, '\r' :: '\n' :: rest => readLongBasic .joined rest
  | .plain, c :: rest =>
    match closing? '\x22' (c :: rest) with
    | some found => some found
    | none =>
      if c = '\\' then readLongBasic .escaped rest
      else if c = '\n' then consChar c (readLongBasic .plain rest)
      else if isControl c then none
      else consChar c (readLongBasic .plain rest)
  | .escaped, c :: rest =>
    if c = '\n' then readLongBasic .joined rest
    else if c = ' ' ∨ c = '\t' then readLongBasic .joining rest
    else match escape? c, escapeWidth c with
      | some e, _ => consChar e (readLongBasic .plain rest)
      | none, 0 => none
      | none, width => readLongBasic (.code width 0) rest
  | .code missing value, c :: rest =>
    match Json.hexDigit? c with
    | none => none
    | some digit =>
      if 1 < missing then readLongBasic (.code (missing - 1) (value * 16 + digit)) rest
      else match charOf? (value * 16 + digit) with
        | none => none
        | some e => consChar e (readLongBasic .plain rest)
  | .joining, c :: rest =>
    if c = '\n' then readLongBasic .joined rest
    else if c = ' ' ∨ c = '\t' then readLongBasic .joining rest
    else none
  | .joined, c :: rest =>
    if c = '\n' ∨ c = ' ' ∨ c = '\t' then readLongBasic .joined rest
    else match closing? '\x22' (c :: rest) with
      | some found => some found
      | none =>
        if c = '\\' then readLongBasic .escaped rest
        else if isControl c then none
        else consChar c (readLongBasic .plain rest)

/-- The content of a literal string over several lines, and what follows its closing quotes. -/
def readLongLiteral : Text → Option (Text × Text)
  | [] => none
  | '\r' :: '\n' :: rest => consChar '\r' (consChar '\n' (readLongLiteral rest))
  | c :: rest =>
    match closing? '\x27' (c :: rest) with
    | some found => some found
    | none => if isControl c && c != '\n' then none else consChar c (readLongLiteral rest)

def dropBreak : Text → Text
  | '\n' :: rest => rest
  | '\r' :: '\n' :: rest => rest
  | text => text

def readString? : Text → Option (Text × Text)
  | '\x22' :: '\x22' :: '\x22' :: rest => readLongBasic .plain (dropBreak rest)
  | '\x22' :: rest => readBasic .plain rest
  | '\x27' :: '\x27' :: '\x27' :: rest => readLongLiteral (dropBreak rest)
  | '\x27' :: rest => readLiteral rest
  | _ => none

end StyleFlip.Document.Toml
