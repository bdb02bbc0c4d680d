import StyleFlip.Text.Quoted

/-!
Patterns that choose the properties of the standard flip rules. A pattern is written as alternatives between `|`; each is a
piece of the property's name that is looked for anywhere, after `^` at the start and before `$` at the end. Characters
that could mean more than themselves are refused.
-/
namespace StyleFlip

structure Alternative where
  /-- The piece stands at the start. -/
  atStart : Bool
  piece : Text
  /-- The piece stands at the end. -/
  atEnd : Bool
deriving DecidableEq, Repr

/-- A pattern: a name has to fit one of the alternatives. -/
abbrev Pattern := List Alternative

def Alternative.fits (alternative : Alternative) (name : Text) : Bool :=
  match alternative.atStart, alternative.atEnd with
  | true, true => name == alternative.piece
  | true, false => alternative.piece.isPrefixOf name
  | false, true => alternative.piece.isSuffixOf name
  | false, false => Text.holds alternative.piece name

namespace Pattern

def fits (pattern : Pattern) (name : Text) : Bool := pattern.any (·.fits name)

/-- The pattern that fits exactly the given names. -/
def names (names : List Text) : Pattern := names.map fun name => ⟨true, name, true⟩

theorem fits_names_iff {listed : List Text} {name : Text} : (names listed).fits name = true ↔ name ∈ listed := by
  simp only [fits, names, List.any_map, List.any_eq_true, Function.comp_apply, Alternative.fits, beq_iff_eq, exists_eq_right']

/-- Characters that could mean more than themselves. -/
def isSpecial (c : Char) : Bool := "\\.+*?()[]\x7b\x7d^$".toList.contains c

def alternativeOf? (text : Text) : Option Alternative :=
  let (atStart, rest) := match text with
    | '^' :: rest => (true, rest)
    | _ => (false, text)
  let atEnd := rest.getLast? == some '$'
  let piece := if atEnd then rest.dropLast else rest
  if piece.any isSpecial then none else some ⟨atStart, piece, atEnd⟩

def ofText? (text : Text) : Option Pattern := (Text.splitAt '|' text).mapM alternativeOf?

end Pattern

/-- A text of a plugin that is no pattern. -/
structure PatternError where
  plugin : Text
  pattern : Text
deriving DecidableEq, Repr

def PatternError.message (error : PatternError) : String :=
  "invalid pattern " ++ String.ofList (Text.quoted error.pattern) ++ " in plugin \"" ++ String.ofList error.plugin ++ "\""

end StyleFlip
