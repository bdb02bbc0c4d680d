import StyleFlip.Document.Toml.Entries
import StyleFlip.Document.Toml.Quoted
import StyleFlip.Document.Toml.Scalar

/-!
Reading TOML. A text is a row of lines, each a header, a key with a value, or nothing, and each with a comment at its
end if it likes. Arrays and inline tables may span lines and may end with a comma. Neither they nor the tables on the
way of a key stand deeper inside each other than a fixed limit.
-/
namespace StyleFlip.Document.Toml

def isSpace (c : Char) : Bool := c == ' ' || c == '\t'

/-- The text without spaces and tabs at its start. -/
def skipSpace (text : Text) : Text := text.dropWhile isSpace

/-- The text after blanks, line breaks and comments, from inside a comment or from outside. -/
def skipLines : Bool → Text → Option Text
  | _, [] => some []
  | _, '\r' :: '\n' :: rest => skipLines false rest
  | true, c :: rest => if c = '\n' then skipLines false rest else if isControl c then none else skipLines true rest
  | false, c :: rest =>
    if c = '\n' || isSpace c then skipLines false rest
    else if c = '#' then skipLines true rest
    else some (c :: rest)

/-- The text after the end of a line, which may have a comment before it. -/
def endLine : Bool → Text → Option Text
  | _, [] => some []
  | _, '\r' :: '\n' :: rest => some rest
  | true, c :: rest => if c = '\n' then some rest else if isControl c then none else endLine true rest
  | false, c :: rest =>
    if c = '\n' then some rest
    else if isSpace c then endLine false rest
    else if c = '#' then endLine true rest
    else none

/-- Characters of a key without quotes. -/
def isBareChar (c : Char) : Bool := c.isAlphanum || c == '_' || c == '-'

def readKeyPart (text : Text) : Option (Text × Text) :=
  match text with
  | '\x22' :: rest => readBasic .plain rest
  | '\x27' :: rest => readLiteral rest
  | _ =>
    match text.takeWhile isBareChar with
    | [] => none
    | part => some (part, text.dropWhile isBareChar)

/-- How deep arrays and inline tables may nest, and the least number of tables that is too many on the way of a key. -/
def nestingLimit : Nat := 80

/-- The parts of a key before its last one, the last one, and what follows. Each part spends one unit of fuel. -/
def readKeyParts : Nat → Text → Option (List Text × Text × Text)
  | 0, _ => none
  | fuel + 1, text =>
    match readKeyPart (skipSpace text) with
    | none => none
    | some (part, rest) =>
      match skipSpace rest with
      | '.' :: rest => (readKeyParts fuel rest).map fun (path, last, following) => (part :: path, last, following)
      | rest => some ([], part, rest)

/-- A key of admissible length: the parts before its last one, the last one, and what follows. -/
def readKey (fuel : Nat) (text : Text) : Option (List Text × Text × Text) :=
  match readKeyParts fuel text with
  | some (path, last, following) => if path.length < nestingLimit then some (path, last, following) else none
  | none => none

mutual
/-- A value and what follows it. `room` is how many more arrays and inline tables may stand inside each other, and each
step spends one unit of fuel. -/
def readValue : Nat → Nat → Text → Option (Document × Text)
  | 0, _, _ => none
  | fuel + 1, room, text =>
    match text with
    | '[' :: rest =>
      match room with
      | 0 => none
      | room + 1 => (readItems fuel room rest).map fun (items, following) => (.array items, following)
    | '{' :: rest =>
      match room with
      | 0 => none
      | room + 1 =>
        (readInline fuel room [] rest).map fun (members, following) => (.table (membersOf members), following)
    | '\x22' :: _ => (readString? text).map fun (content, following) => (.string (some content), following)
    | '\x27' :: _ => (readString? text).map fun (content, following) => (.string (some content), following)
    | _ => readScalar? text

/-- The items of an array up to its closing bracket, and what follows. -/
def readItems : Nat → Nat → Text → Option (List Document × Text)
  | 0, _, _ => none
  | fuel + 1, room, text =>
    match skipLines false text with
    | none => none
    | some (']' :: rest) => some ([], rest)
    | some text =>
      match readValue fuel room text with
      | none => none
      | some (item, rest) =>
        match skipLines false rest with
        | some (']' :: rest) => some ([item], rest)
        | some (',' :: rest) => (readItems fuel room rest).map fun (items, following) => (item :: items, following)
        | _ => none

/-- The members of an inline table up to its closing brace, added to those before, and what follows. Lines may break
anywhere but inside a key. -/
def readInline : Nat → Nat → Members → Text → Option (Members × Text)
  | 0, _, _, _ => none
  | fuel + 1, room, members, text =>
    match skipLines false text with
    | none => none
    | some ('}' :: rest) => some (members, rest)
    | some text =>
      match readKey fuel text with
      | none => none
      | some (path, key, rest) =>
        match skipLines false rest with
        | some ('=' :: rest) =>
          match (skipLines false rest).bind (readValue fuel room) with
          | none => none
          | some (value, rest) =>
            match defineDotted true key value path members, skipLines false rest with
            | some members, some ('}' :: rest) => some (members, rest)
            | some members, some (',' :: rest) => readInline fuel room members rest
            | _, _ => none
        | _ => none
end

/-- The path and the last part of a key, its value on the same line, and what follows. -/
def readPair (fuel : Nat) (text : Text) : Option (List Text × Text × Document × Text) :=
  match readKey fuel text with
  | some (path, key, '=' :: rest) =>
    (readValue fuel nestingLimit (skipSpace rest)).map fun (value, following) => (path, key, value, following)
  | _ => none

/-- A header between its brackets: the path, the last key, and the text after it. -/
def readHeader (fuel : Nat) (close : Text) (text : Text) : Option (List Text × Text × Text) :=
  match readKey fuel text with
  | none => none
  | some (path, key, rest) => (Text.after? close rest).map fun following => (path, key, following)

/-- The members of the whole text from a place at the start of a line. `current` is the path of the table that the last
header named. Each line spends one unit of fuel. -/
def readLines : Nat → List Text → Members → Text → Option Members
  | 0, _, _, _ => none
  | fuel + 1, current, members, text =>
    match skipLines false text with
    | none => none
    | some [] => some members
    | some ('[' :: '[' :: rest) =>
      match readHeader fuel [']', ']'] rest with
      | none => none
      | some (path, key, rest) =>
        match addTable path key members, endLine false rest with
        | some members, some rest => readLines fuel (path ++ [key]) members rest
        | _, _ => none
    | some ('[' :: rest) =>
      match readHeader fuel [']'] rest with
      | none => none
      | some (path, key, rest) =>
        match defineTable path key members, endLine false rest with
        | some members, some rest => readLines fuel (path ++ [key]) members rest
        | _, _ => none
    | some text =>
      match readPair fuel text with
      | none => none
      | some (path, key, value, rest) =>
        match along (defineDotted true key value path) current members, endLine false rest with
        | some members, some rest => readLines fuel current members rest
        | _, _ => none

/-- The document that a TOML text holds, always a table. A byte order mark at the start is skipped. No step spends more
than four units of fuel on a character. -/
def parse? (text : Text) : Option Document :=
  let text := match text with
    | c :: rest => if c.toNat = 0xfeff then rest else c :: rest
    | [] => []
  (readLines (4 * text.length + 4) [] [] text).map fun members => .table (membersOf members)

end StyleFlip.Document.Toml
