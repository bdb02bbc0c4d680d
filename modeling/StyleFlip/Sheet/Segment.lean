import StyleFlip.Text.Comment

/-!
A stylesheet as a row of segments: comments, headers that open a block, statements and closing braces, each with the
spacing before it. Cutting a text into segments looks only at quotes, comments, parentheses and the three characters
that end a header, so it needs no knowledge of nesting. The cut stops at the first comment or string that never ends.
Places are counted in bytes of UTF-8.
-/
namespace StyleFlip

/-- Why a text is no stylesheet, and at which byte. -/
inductive ParseError where
  | openComment (offset : Nat)
  | openString (offset : Nat)
  | openBlock (offset : Nat)
  | strayClose (offset : Nat)
  | noColon (offset : Nat)
deriving DecidableEq, Repr

def ParseError.message : ParseError → String
  | .openComment offset => "unterminated comment at byte " ++ toString offset
  | .openString offset => "unterminated string at byte " ++ toString offset
  | .openBlock offset => "unclosed block at byte " ++ toString offset
  | .strayClose offset => "unexpected \x60\x7d\x60 at byte " ++ toString offset
  | .noColon offset => "missing \x60:\x60 in declaration at byte " ++ toString offset

/-- What a segment is. -/
inductive Shape where
  | comment (text : Text)
  /-- A header that ends with an opening brace. -/
  | opening (header : Text)
  /-- A header that ends with a semicolon, or before a closing brace or the end of the text. -/
  | statement (header : Text) (semicolon : Bool)
  | closing
deriving DecidableEq, Repr

/-- The text of a segment without the spacing before it. -/
def Shape.text : Shape → Text
  | .comment text => Text.commentOpen ++ text ++ Text.commentClose
  | .opening header => header ++ ['{']
  | .statement header semicolon => header ++ if semicolon then [';'] else []
  | .closing => ['}']

/-- A segment: the spacing before it, the byte at which it starts, and what it is. -/
structure Segment where
  before : Text
  start : Nat
  shape : Shape
deriving DecidableEq, Repr

/-- How a row of segments ends: with spacing at the end of the text, or with an error. -/
inductive Ending where
  | spacing (text : Text)
  | fault (error : ParseError)
deriving DecidableEq, Repr

namespace Segment

/-- Spacing between segments: blanks and stray semicolons. -/
def isSpacing (c : Char) : Bool := Text.isBlank c || c == ';'

/-- The three characters that end a header. -/
def endsHeader (c : Char) : Bool := c == '{' || c == ';' || c == '}'

def isQuote (c : Char) : Bool := c == '\x22' || c == '\x27'

/-- Where the reading of a header stands. Strings and comments remember the byte at which they were opened. -/
inductive Mode where
  | plain
  | quoted (quote : Char) (opened : Nat)
  /-- After a backslash inside a string. -/
  | escaped (quote : Char) (opened : Nat)
  | commented (opened : Nat)
deriving DecidableEq, Repr

/-- The depth of parentheses after a character; a closing one that closes nothing counts for nothing. -/
def depthAfter (depth : Nat) (c : Char) : Nat :=
  if c = '(' then depth + 1 else if c = ')' then depth - 1 else depth

/-- A found header with more text in front of it. -/
def keep (head : Text) (found : Text × Text) : Text × Text := (head ++ found.1, found.2)

/-- The header at the start of a text and what follows it. Strings, comments and parentheses hide the characters that
would end it. -/
def readHeader : Mode → Nat → Nat → Text → Except ParseError (Text × Text)
  | .plain, _, _, [] => .ok ([], [])
  | .quoted _ opened, _, _, [] => .error (.openString opened)
  | .escaped _ opened, _, _, [] => .error (.openString opened)
  | .commented opened, _, _, [] => .error (.openComment opened)
  | .plain, depth, offset, '/' :: '*' :: rest =>
    (readHeader (.commented offset) depth (offset + 2) rest).map (keep ['/', '*'])
  | .commented _, depth, offset, '*' :: '/' :: rest =>
    (readHeader .plain depth (offset + 2) rest).map (keep ['*', '/'])
  | .commented opened, depth, offset, c :: rest =>
    (readHeader (.commented opened) depth (offset + c.utf8Size) rest).map (keep [c])
  | .escaped quote opened, depth, offset, c :: rest =>
    (readHeader (.quoted quote opened) depth (offset + c.utf8Size) rest).map (keep [c])
  | .quoted quote opened, depth, offset, c :: rest =>
    let mode := if c = '\\' then .escaped quote opened else if c = quote then .plain else .quoted quote opened
    (readHeader mode depth (offset + c.utf8Size) rest).map (keep [c])
  | .plain, depth, offset, c :: rest =>
    if depth = 0 && endsHeader c then .ok ([], c :: rest)
    else
      let mode := if isQuote c then .quoted c offset else .plain
      (readHeader mode (depthAfter depth c) (offset + c.utf8Size) rest).map (keep [c])

theorem map_keep_eq_ok {head header following : Text} {result : Except ParseError (Text × Text)}
    (mapped : result.map (keep head) = .ok (header, following)) :
    ∃ rest, result = .ok (rest, following) ∧ header = head ++ rest := by
  cases result with
  | error => cases mapped
  | ok found => cases mapped; exact ⟨found.1, rfl, rfl⟩

/-- A header and what follows it are the whole text. -/
theorem readHeader_eq_ok {mode : Mode} {depth offset : Nat} {text header following : Text}
    (read : readHeader mode depth offset text = .ok (header, following)) : text = header ++ following := by
  fun_induction readHeader mode depth offset text generalizing header with
  | case1 => cases read; rfl
  | case2 => cases read
  | case3 => cases read
  | case4 => cases read
  | case10 => cases read; rfl
  | case5 | case6 | case7 | case8 | case9 | case11 =>
    rename_i ih
    obtain ⟨rest, inner, rfl⟩ := map_keep_eq_ok read
    simp [ih inner]

/-- A header that starts with a character which does not end it holds that character. -/
theorem readHeader_cons_length {depth offset : Nat} {c : Char} {rest header following : Text}
    (starts : endsHeader c = false) (read : readHeader .plain depth offset (c :: rest) = .ok (header, following)) :
    following.length < (c :: rest).length := by
  have whole := readHeader_eq_ok read
  cases header with
  | cons first more =>
    rw [whole, List.length_append, List.length_cons]
    omega
  | nil =>
    exfalso
    generalize equal : c :: rest = text at read
    unfold readHeader at read
    split at read
    case h_5 =>
      obtain ⟨_, _, impossible⟩ := map_keep_eq_ok read
      cases impossible
    case h_10 =>
      cases equal
      simp only [starts, Bool.and_false, Bool.false_eq_true, if_false] at read
      obtain ⟨_, _, impossible⟩ := map_keep_eq_ok read
      cases impossible
    all_goals contradiction

/-- One step of the cut: the end of the row, or a segment and the text after it. -/
inductive Step where
  | stop (ending : Ending)
  | segment (segment : Segment) (following : Text)

/-- The segment that starts with text other than spacing. -/
def stepAt (before : Text) (start : Nat) : Text → Step
  | [] => .stop (.spacing before)
  | '}' :: following => .segment ⟨before, start, .closing⟩ following
  | '/' :: '*' :: inner =>
    match Text.cut? Text.commentClose inner with
    | none => .stop (.fault (.openComment start))
    | some (body, following) => .segment ⟨before, start, .comment body⟩ following
  | c :: rest =>
    match readHeader .plain 0 start (c :: rest) with
    | .error error => .stop (.fault error)
    | .ok (header, '{' :: following) => .segment ⟨before, start, .opening header⟩ following
    | .ok (header, ';' :: following) => .segment ⟨before, start, .statement header true⟩ following
    | .ok (header, following) => .segment ⟨before, start, .statement header false⟩ following

/-- The first segment of a text whose first byte is at `offset`. -/
def step (offset : Nat) (text : Text) : Step :=
  let before := text.takeWhile isSpacing
  stepAt before (offset + Text.byteCount before) (text.dropWhile isSpacing)

/-- A segment and the text after it are the whole text. -/
theorem stepAt_eq_segment {before text following : Text} {start : Nat} {segment : Segment}
    (taken : stepAt before start text = .segment segment following) :
    segment.before = before ∧ segment.start = start ∧ text = segment.shape.text ++ following := by
  unfold stepAt at taken
  split at taken
  · cases taken
  · cases taken
    exact ⟨rfl, rfl, rfl⟩
  · split at taken
    · cases taken
    · rename_i found
      cases taken
      exact ⟨rfl, rfl, by simp [Shape.text, Text.commentOpen, Text.cut?_eq_some found]⟩
  · split at taken
    · cases taken
    all_goals
      rename_i read
      cases taken
      exact ⟨rfl, rfl, by simp [Shape.text, readHeader_eq_ok read]⟩

/-- Every segment has some text of its own. -/
theorem shape_text_ne_nil {before text following : Text} {start : Nat} {segment : Segment}
    (taken : stepAt before start text = .segment segment following) : segment.shape.text ≠ [] := by
  unfold stepAt at taken
  split at taken
  · cases taken
  · cases taken
    simp [Shape.text]
  · split at taken
    · cases taken
    · cases taken
      simp [Shape.text, Text.commentOpen]
  · rename_i c rest notClosing _
    split at taken
    · cases taken
    · cases taken
      simp [Shape.text]
    · cases taken
      simp [Shape.text]
    · rename_i header following notOpening notEnding read
      cases taken
      rintro empty
      obtain rfl : header = [] := by simpa [Shape.text] using empty
      obtain rfl : c :: rest = following := by simpa using readHeader_eq_ok read
      have plain : endsHeader c = false := by
        simp only [endsHeader, Bool.or_eq_false_iff, beq_eq_false_iff_ne]
        exact ⟨⟨fun equal => notOpening rest (by rw [equal]), fun equal => notEnding rest (by rw [equal])⟩, notClosing⟩
      exact Nat.lt_irrefl _ (readHeader_cons_length plain read)

/-- A text is the spacing before its first segment, the segment and what follows. -/
theorem step_eq_segment {text following : Text} {offset : Nat} {segment : Segment}
    (taken : step offset text = .segment segment following) :
    text = segment.before ++ segment.shape.text ++ following := by
  obtain ⟨before, _, rest⟩ := stepAt_eq_segment taken
  rw [before, List.append_assoc, ← rest, List.takeWhile_append_dropWhile]

theorem length_of_step {text following : Text} {offset : Nat} {segment : Segment}
    (taken : step offset text = .segment segment following) : following.length < text.length := by
  have whole := congrArg List.length (step_eq_segment taken)
  have own := List.length_pos_iff.mpr (shape_text_ne_nil taken)
  simp only [List.length_append] at whole
  omega

/-- The segments of a text whose first byte is at `offset`, and how the row ends. -/
def cutFrom (offset : Nat) (text : Text) : List Segment × Ending :=
  match _taken : step offset text with
  | .stop ending => ([], ending)
  | .segment segment following =>
    let (others, ending) := cutFrom (segment.start + Text.byteCount segment.shape.text) following
    (segment :: others, ending)
termination_by text.length
decreasing_by exact length_of_step _taken

/-- The segments of a text, and how the row ends. -/
def cut (text : Text) : List Segment × Ending := cutFrom 0 text

end Segment
end StyleFlip
