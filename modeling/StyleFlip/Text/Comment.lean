import StyleFlip.Text.Basic

/-!
Comments inside a text. A comment runs from `/*` to the nearest `*/`. The text outside comments treats an unclosed
comment as reaching to the end; the pieces of a text know closed comments only, so that they join to the whole text
again. While a value is worked on its comments are set aside: numbered placeholders from the private use area stand
for them and are exchanged for the comments afterwards.
-/
namespace StyleFlip.Text

def commentOpen : Text := ['/', '*']

def commentClose : Text := ['*', '/']

/-- The text outside comments, from inside a comment or from outside. -/
def outsideFrom : Bool → Text → Text
  | false, '/' :: '*' :: rest => outsideFrom true rest
  | false, c :: rest => c :: outsideFrom false rest
  | true, '*' :: '/' :: rest => outsideFrom false rest
  | true, _ :: rest => outsideFrom true rest
  | _, [] => []

/-- Inside a comment the text goes on behind its end. -/
theorem outsideFrom_true_eq (text : Text) :
    outsideFrom true text = (cut? commentClose text).elim [] fun found => outsideFrom false found.2 := by
  induction text with
  | nil => rfl
  | cons c rest ih =>
    cases start : after? commentClose (c :: rest) with
    | some following =>
      obtain ⟨rfl, rfl⟩ := List.cons_eq_cons.mp (after?_eq_some start)
      rw [cut?, start]
      rfl
    | none =>
      rw [outsideFrom, ih, cut?, start]
      · cases cut? commentClose rest <;> rfl
      · rintro following rfl rfl
        cases start

/-- Outside comments everything up to the next one stays. -/
theorem outsideFrom_false_eq (text : Text) :
    outsideFrom false text = (cut? commentOpen text).elim text fun found => found.1 ++ outsideFrom true found.2 := by
  induction text with
  | nil => rfl
  | cons c rest ih =>
    cases start : after? commentOpen (c :: rest) with
    | some following =>
      obtain ⟨rfl, rfl⟩ := List.cons_eq_cons.mp (after?_eq_some start)
      rw [cut?, start]
      rfl
    | none =>
      rw [outsideFrom, ih, cut?, start]
      · cases cut? commentOpen rest <;> rfl
      · rintro following rfl rfl
        cases start

/-- The text outside comments without blanks at its ends. -/
def withoutComments (text : Text) : Text := trim (outsideFrom false text)

/-- A character outside comments or a closed comment. -/
inductive Piece where
  | char (c : Char)
  | comment (body : Text)
deriving DecidableEq, Repr

def Piece.text : Piece → Text
  | .char c => [c]
  | .comment body => commentOpen ++ body ++ commentClose

/-- The closed comments of a text and the characters outside them, in order. -/
def pieces : Text → List Piece
  | [] => []
  | '/' :: '*' :: rest =>
    match _found : cut? commentClose rest with
    | some (body, following) => .comment body :: pieces following
    | none => .char '/' :: pieces ('*' :: rest)
  | c :: rest => .char c :: pieces rest
termination_by text => text.length
decreasing_by
  · have lengths := length_of_cut? _found
    simp only [commentClose, List.length_cons, List.length_nil] at lengths ⊢
    omega
  · exact Nat.lt_succ_self _
  · exact Nat.lt_succ_self _

/-- The pieces of a text join to it again. -/
theorem flatMap_text_pieces (text : Text) : (pieces text).flatMap Piece.text = text := by
  fun_induction pieces text with
  | case1 => rfl
  | case2 rest body following found ih =>
    have joined := cut?_eq_some found
    simp [Piece.text, ih, joined, commentOpen, commentClose]
  | case3 rest _ ih => simp [Piece.text, ih]
  | case4 c rest _ ih => simp [Piece.text, ih]

def placeholderOpen : Char := Char.ofNat 0xe000

def placeholderClose : Char := Char.ofNat 0xe001

def placeholder (index : Nat) : Text := placeholderOpen :: (Nat.toDigits 10 index ++ [placeholderClose])

/-- The pieces with placeholders numbered from `next` in place of the comments, and the comments. -/
def setAsideFrom (next : Nat) : List Piece → Text × List Text
  | [] => ([], [])
  | .char c :: rest =>
    let (text, comments) := setAsideFrom next rest
    (c :: text, comments)
  | .comment body :: rest =>
    let (text, comments) := setAsideFrom (next + 1) rest
    (placeholder next ++ text, (Piece.comment body).text :: comments)

/-- A text with placeholders in place of its comments, and the comments in order. -/
def setAside (text : Text) : Text × List Text := setAsideFrom 0 (pieces text)

/-- The digits of the placeholder whose opening character has just been read, and what follows it. -/
def placeholderDigits? (text : Text) : Option (Text × Text) :=
  match text.takeWhile Char.isDigit, text.dropWhile Char.isDigit with
  | [], _ => none
  | d :: digits, c :: following => if c = placeholderClose then some (d :: digits, following) else none
  | _, [] => none

theorem length_of_placeholderDigits? {text digits following : Text}
    (found : placeholderDigits? text = some (digits, following)) : following.length < text.length := by
  have whole : (text.takeWhile Char.isDigit).length + (text.dropWhile Char.isDigit).length = text.length := by
    rw [← List.length_append, List.takeWhile_append_dropWhile]
  unfold placeholderDigits? at found
  split at found
  · cases found
  · rename_i taken dropped
    split at found
    · cases found
      simp only [taken, dropped, List.length_cons] at whole
      omega
    · cases found
  · cases found

/-- The text with every placeholder of a known number exchanged for its comment. -/
def restore (comments : List Text) : Text → Text
  | [] => []
  | c :: rest =>
    if c = placeholderOpen then
      match _found : placeholderDigits? rest with
      | some (digits, following) =>
        comments[digitsValue digits]?.getD (c :: (digits ++ [placeholderClose])) ++ restore comments following
      | none => c :: restore comments rest
    else c :: restore comments rest
termination_by text => text.length
decreasing_by
  · have shorter := length_of_placeholderDigits? _found
    rw [List.length_cons]
    omega
  · exact Nat.lt_succ_self _
  · exact Nat.lt_succ_self _

end StyleFlip.Text
