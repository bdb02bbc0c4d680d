import StyleFlip.Text.Basic

/-!
Directive comments. After blanks and an optional `!` the text of such a comment starts with `rtl:`; it holds one or
more forms, each of which starts with `rtl:` after blanks. A form `rtl:NAME:ARGUMENT` opens and closes a directive at
once, `rtl:begin:NAME:ARGUMENT` opens it and `rtl:end:NAME` closes it.
-/
namespace StyleFlip.Directive

/-- What every form starts with. -/
def lead : Text := "rtl:".toList

/-- One form of a directive comment. -/
structure Form where
  name : Text
  argument : Text
  /-- The form opens the directive. -/
  opens : Bool
  /-- The form closes the directive. -/
  closes : Bool
deriving DecidableEq, Repr

/-- A directive comment: whether it is to be kept, and its forms. -/
structure Comment where
  preserve : Bool
  forms : List Form
deriving DecidableEq, Repr

/-- What follows the start of another form: one or more blanks and `rtl:`. -/
def afterSeparator? : Text → Option Text
  | [] => none
  | c :: rest => if Text.isBlank c then Text.after? lead (Text.trimStart rest) else none

theorem length_of_afterSeparator? {text rest : Text} (found : afterSeparator? text = some rest) :
    rest.length < text.length := by
  unfold afterSeparator? at found
  split at found
  · cases found
  · rename_i c tail
    split at found
    · have whole := congrArg List.length (Text.after?_eq_some found)
      have shorter : (Text.trimStart tail).length ≤ tail.length := (List.dropWhile_sublist _).length_le
      simp only [List.length_append, List.length_cons] at whole ⊢
      omega
    · cases found

/-- The parts of a text between the starts of forms. -/
def splitForms : Text → List Text
  | [] => [[]]
  | c :: rest =>
    match _found : afterSeparator? (c :: rest) with
    | some following => [] :: splitForms following
    | none =>
      match splitForms rest with
      | [] => [[c]]
      | part :: parts => (c :: part) :: parts
termination_by text => text.length
decreasing_by
  · exact length_of_afterSeparator? _found
  · simp

/-- The form with the given shape after its keyword; one without a name is none. -/
def formOf? (opens closes : Bool) (text : Text) : Option Form :=
  let (name, argument) := match Text.cut? [':'] text with
    | some (name, argument) => (name, Text.trimEnd argument)
    | none => (text, [])
  let name := Text.trim name
  if name.isEmpty then none else some { name, argument, opens, closes }

/-- The form that a part of a comment holds after its `rtl:`. -/
def Form.parse? (text : Text) : Option Form :=
  match Text.after? "begin:".toList text, Text.after? "end:".toList text with
  | some rest, _ => formOf? true false rest
  | none, some rest => formOf? false true rest
  | none, none => formOf? true true text

/-- The text without an exclamation mark at its start. -/
def dropBang : Text → Text
  | '!' :: rest => rest
  | text => text

theorem length_dropBang_le (text : Text) : (dropBang text).length ≤ text.length := by
  unfold dropBang
  split <;> simp

/-- The text of a comment from its first form on, if it is a directive comment. -/
def start (text : Text) : Text := Text.trimStart (dropBang (Text.trimStart text))

/-- The directive comment with the given text, if it is one. -/
def Comment.parse? (text : Text) : Option Comment :=
  (Text.after? lead (start text)).map fun body =>
    { preserve := (Text.trimStart text).head? == some '!', forms := (splitForms body).filterMap Form.parse? }

/-- Whether the text of a comment starts with the form that closes blocks of ignored nodes. -/
def closesIgnore (text : Text) : Bool := (Text.after? "rtl:end:ignore".toList (start text)).isSome

end StyleFlip.Directive
