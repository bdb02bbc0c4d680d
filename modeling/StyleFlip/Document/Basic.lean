import StyleFlip.Text.Basic

/-!
Documents: the values that a JSON or a TOML text can hold. Tables keep their members in the order and number in which
they were written, so that a reader decides what a repeated key means. Some faults of a text matter only to a reader
that looks at the value, and are kept in it: a string whose escapes do not pair up has no content, a number that no
double can hold is not finite, and integers have any size.
-/
namespace StyleFlip

/-- A value of a JSON or TOML text. -/
inductive Document where
  | null
  | bool (value : Bool)
  | integer (value : Int)
  /-- A number that is not an integer. -/
  | decimal (finite : Bool)
  /-- A date, a time or both, in its standard notation. -/
  | moment (text : Text)
  | string (content : Option Text)
  | array (items : List Document)
  | table (members : List (Option Text × Document))
deriving Repr, Inhabited

namespace Document

/-- The key under which a moment that is read as a table has its text. -/
def momentKey : Text := "$__toml_private_datetime".toList

/-- The members of a table. A moment reads as a table whose only member is its text. -/
def members? : Document → Option (List (Option Text × Document))
  | .table members => some members
  | .moment text => some [(some momentKey, .string (some text))]
  | _ => none

mutual
/-- How many arrays and tables stand inside each other. -/
def depth : Document → Nat
  | .array items => itemsDepth items + 1
  | .table members => membersDepth members + 1
  | _ => 0

/-- The greatest depth among the items of an array. -/
def itemsDepth : List Document → Nat
  | [] => 0
  | item :: rest => max item.depth (itemsDepth rest)

/-- The greatest depth among the members of a table. -/
def membersDepth : List (Option Text × Document) → Nat
  | [] => 0
  | (_, value) :: rest => max value.depth (membersDepth rest)
end

mutual
/-- Whether every value that is neither an array nor a table passes `test`, and every key has content. -/
def everyLeaf (test : Document → Bool) : Document → Bool
  | .array items => everyItem test items
  | .table members => everyMember test members
  | leaf => test leaf

def everyItem (test : Document → Bool) : List Document → Bool
  | [] => true
  | item :: rest => item.everyLeaf test && everyItem test rest

def everyMember (test : Document → Bool) : List (Option Text × Document) → Bool
  | [] => true
  | (key, value) :: rest => key.isSome && value.everyLeaf test && everyMember test rest
end

/-- Whether a value can be held with integers of the given number of bits, signed or not: strings have content and
numbers are finite. -/
def fitsBits (bits : Nat) : Document → Bool
  | .integer value => -Int.pow 2 (bits - 1) ≤ value && value < Int.pow 2 bits
  | .decimal finite => finite
  | .string content => content.isSome
  | _ => true

end Document
end StyleFlip
