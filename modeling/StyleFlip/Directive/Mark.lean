import StyleFlip.Directive.Form
import StyleFlip.Text.Comment
import StyleFlip.Text.Fold

/-!
Directives inside the value of a declaration. A mark is a comment whose text starts, after an optional `!` and blanks,
with `rtl:` in any case; it ends at the nearest `*/`. A named directive looks for marks with its name, with an argument
after a colon or with nothing else; the directive without a name takes any mark and all that follows `rtl:` as its
argument.
-/
namespace StyleFlip.Directive

/-- What follows the `rtl:` of a mark at the start of a text. -/
def afterLead? (text : Text) : Option Text :=
  match Text.after? Text.commentOpen text with
  | none => none
  | some rest => Text.afterFolded? lead (Text.trimStart (dropBang rest))

/-- The argument of a mark for the directive `name` at the start of a text, if it has one, and what follows the mark. -/
def markAt? (name text : Text) : Option (Option Text × Text) :=
  match afterLead? text with
  | none => none
  | some body =>
    if name.isEmpty then
      (Text.cut? Text.commentClose body).map fun (argument, following) => (some argument, following)
    else
      match Text.afterFolded? name body with
      | none => none
      | some (':' :: rest) =>
        (Text.cut? Text.commentClose rest).map fun (argument, following) => (some argument, following)
      | some rest => (Text.after? Text.commentClose (Text.trimStart rest)).map fun following => (none, following)

/-- A mark found in a text. -/
structure Mark where
  before : Text
  /-- The mark as written. -/
  token : Text
  argument : Option Text
  following : Text
deriving DecidableEq, Repr

/-- The first mark for the directive `name` in a text. -/
def findMark? (name : Text) : Text → Option Mark
  | [] => none
  | c :: rest =>
    match markAt? name (c :: rest) with
    | some (argument, following) =>
      some { before := [], token := (c :: rest).take (rest.length + 1 - following.length), argument, following }
    | none => (findMark? name rest).map fun mark => { mark with before := c :: mark.before }

/-- What follows a mark of any directive at the start of a text, the blanks before it included. -/
def afterMark? (text : Text) : Option Text :=
  match afterLead? (Text.trimStart text) with
  | none => none
  | some body => (Text.cut? Text.commentClose body).map Prod.snd

theorem length_of_afterFolded? {head text rest : Text} (found : Text.afterFolded? head text = some rest) :
    rest.length + head.length = text.length := by
  fun_induction Text.afterFolded? head text with
  | case1 => cases found; rfl
  | case2 => cases found
  | case3 h head c text same ih => simp only [List.length_cons]; have := ih found; omega
  | case4 => cases found

theorem length_of_afterLead? {text rest : Text} (found : afterLead? text = some rest) : rest.length < text.length := by
  unfold afterLead? at found
  split at found
  · cases found
  · rename_i inner opened
    have whole := congrArg List.length (Text.after?_eq_some opened)
    have spent := length_of_afterFolded? found
    have shorter : (Text.trimStart (dropBang inner)).length ≤ (dropBang inner).length :=
      (List.dropWhile_sublist _).length_le
    have step := length_dropBang_le inner
    simp only [Text.commentOpen, List.length_append, List.length_cons] at whole
    omega

theorem length_of_afterMark? {text rest : Text} (found : afterMark? text = some rest) : rest.length < text.length := by
  unfold afterMark? at found
  split at found
  · cases found
  · rename_i body opened
    obtain ⟨⟨inside, following⟩, closed, rfl⟩ := Option.map_eq_some_iff.mp found
    have lengths := Text.length_of_cut? closed
    have inner := length_of_afterLead? opened
    have shorter : (Text.trimStart text).length ≤ text.length := (List.dropWhile_sublist _).length_le
    simp only at *
    omega

/-- The text without its marks and the blanks before them. -/
def withoutMarks : Text → Text
  | [] => []
  | c :: rest =>
    match _found : afterMark? (c :: rest) with
    | some following => withoutMarks following
    | none => c :: withoutMarks rest
termination_by text => text.length
decreasing_by
  · exact length_of_afterMark? _found
  · simp

/-- Whether a text holds a mark. -/
def hasMark (text : Text) : Bool := (findMark? [] text).isSome

end StyleFlip.Directive
