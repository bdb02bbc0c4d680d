import StyleFlip.Text.Comment

/-!
Declarations: a property, a value and an importance marker, each as written. The value is kept twice only if it
matters: `value` is free of comments and of blanks at its ends, and `raw` is the value as written whenever the
two differ.
-/
namespace StyleFlip

/-- A declaration such as `margin: 0 auto !important`. -/
structure Declaration where
  property : Text
  /-- Everything between the property and the value, the colon included. -/
  between : Text
  value : Text
  raw : Option Text
  /-- The importance marker with the blanks before it. -/
  important : Option Text
deriving DecidableEq, Repr, Inhabited

namespace Declaration

def written (decl : Declaration) : Text := decl.raw.getD decl.value

/-- The declaration with a value that is taken to be free of comments. -/
def withValue (decl : Declaration) (value : Text) : Declaration := { decl with value := value, raw := none }

/-- The declaration with a value that may hold comments. -/
def withWritten (decl : Declaration) (raw : Text) : Declaration :=
  let plain := Text.withoutComments raw
  if plain = raw then { decl with value := raw, raw := none }
  else { decl with value := plain, raw := some raw }

/-- A declaration with a colon and one space before its value. -/
def ofValue (property raw : Text) : Declaration :=
  withWritten
    { property := property, between := [':', ' '], value := [], raw := none, important := none } raw

/-- The text in which value directives are looked for: what stands after the colon, the value as written and the
importance marker, so that a directive counts wherever it stands. -/
def markText (decl : Declaration) : Text :=
  let lead := match Text.cut? [':'] decl.between with
    | some (_, following) => Text.trim following
    | none => []
  lead ++ decl.written ++ decl.important.getD []

/-- What is written for the declaration itself. -/
def text (decl : Declaration) : Text :=
  decl.property ++ decl.between ++ decl.written ++ decl.important.getD []

@[simp] theorem written_withWritten (decl : Declaration) (raw : Text) : (decl.withWritten raw).written = raw := by
  unfold withWritten written
  by_cases same : Text.withoutComments raw = raw <;> simp [same]

@[simp] theorem property_withWritten (decl : Declaration) (raw : Text) : (decl.withWritten raw).property = decl.property := by
  simp only [withWritten]
  split <;> rfl

@[simp] theorem between_withWritten (decl : Declaration) (raw : Text) : (decl.withWritten raw).between = decl.between := by
  simp only [withWritten]
  split <;> rfl

@[simp] theorem important_withWritten (decl : Declaration) (raw : Text) :
    (decl.withWritten raw).important = decl.important := by
  simp only [withWritten]
  split <;> rfl

end Declaration
end StyleFlip
