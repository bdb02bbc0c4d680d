import StyleFlip.Sheet.Basic
import StyleFlip.Sheet.Segment

/-!
Reading a stylesheet. The segments of the text are nested by their braces: a header opens a block, a closing brace
ends the innermost one. Headers that start with `@` are at-rules, other headers with a block are rules, and the rest
are declarations. Every fragment of the text is kept, so that writing the sheet gives the text back.
-/
namespace StyleFlip.Sheet

/-- The last exclamation mark outside comments, as the texts before and after it. Reading starts inside a comment or
outside; an unclosed comment reaches to the end. -/
def cutLastBang? : Bool → Text → Option (Text × Text)
  | _, [] => none
  | false, '/' :: '*' :: rest => (cutLastBang? true rest).map (Segment.keep ['/', '*'])
  | true, '*' :: '/' :: rest => (cutLastBang? false rest).map (Segment.keep ['*', '/'])
  | inside, c :: rest =>
    match cutLastBang? inside rest with
    | some found => some (Segment.keep [c] found)
    | none => if !inside && c == '!' then some ([], rest) else none

/-- Whether a marker after an exclamation mark starts with the word `important` in any ASCII case. -/
def marksImportant (marker : Text) : Bool :=
  (Text.trimStart marker).take 9 |>.map Char.toLower |> (· == "important".toList)

/-- The value of a declaration and its importance marker, which keeps the blanks before it. -/
def valueAndMarker (body : Text) : Text × Option Text :=
  match cutLastBang? false body with
  | none => (body, none)
  | some (before, marker) =>
    if marksImportant marker then (Text.trimEnd before, some (Text.blankTail before ++ '!' :: marker)) else (body, none)

/-- The declaration that a header holds, with the blanks after its value; a header without a colon is none. -/
def declarationOf? (header : Text) : Option (Declaration × Text) :=
  match Text.cut? [':'] header with
  | none => none
  | some (name, following) =>
    let body := Text.trimStart following
    let (value, important) := valueAndMarker (Text.trimEnd body)
    let blank : Declaration :=
      { property := Text.trimEnd name
        between := Text.blankTail name ++ ':' :: Text.blankHead following
        value := [], raw := none, important := important }
    some (blank.withWritten value, Text.blankTail body)

/-- Whether a character ends the name of an at-rule. -/
def endsName (c : Char) : Bool := Text.isBlank c || c == '(' || Segment.isQuote c

/-- The at-rule in a header after its `@`, with its spacing. -/
def atRuleOf (before body : Text) (hasBlock semicolon : Bool) : Content × Spacing :=
  let rest := body.dropWhile fun c => !endsName c
  let params := Text.trimStart rest
  (.atRule (body.takeWhile fun c => !endsName c) (Text.trimEnd params) hasBlock,
    { before := before, between := Text.blankTail params, afterName := Text.blankHead rest, semicolon := semicolon })

/-- The rule or at-rule that a header opens, with its spacing. -/
def blockOf (before : Text) : Text → Content × Spacing
  | '@' :: body => atRuleOf before body true false
  | header => (.rule (Text.trimEnd header), { before := before, between := Text.blankTail header })

/-- The at-rule or declaration that a header without a block is, with its spacing. -/
def statementOf? (before header : Text) (semicolon : Bool) : Option (Content × Spacing) :=
  match header with
  | '@' :: body => some (atRuleOf before body false semicolon)
  | _ =>
    (declarationOf? header).map fun (decl, after) =>
      (.declaration decl, { before := before, after := after, semicolon := semicolon })

/-- A block that is still open: what opened it and where, and the finished items before it, latest first. -/
structure Frame where
  content : Content
  spacing : Spacing
  opened : Nat
  earlier : List Item

/-- The items of a row of segments. `frames` are the open blocks, innermost first, and `done` the finished items of
the innermost one, latest first. -/
def assemble (frames : List Frame) (done : List Item) :
    List Segment → Ending → Except ParseError (List Item × Text)
  | [], .fault error => .error error
  | [], .spacing trailing =>
    match frames with
    | [] => .ok (done.reverse, trailing)
    | frame :: _ => .error (.openBlock frame.opened)
  | segment :: rest, ending =>
    match segment.shape with
    | .comment text => assemble frames (.node (.comment text) { before := segment.before } [] :: done) rest ending
    | .closing =>
      match frames with
      | [] => .error (.strayClose segment.start)
      | frame :: outer =>
        let closed := .node frame.content { frame.spacing with after := segment.before } done.reverse
        assemble outer (closed :: frame.earlier) rest ending
    | .opening header =>
      let (content, spacing) := blockOf segment.before header
      assemble (⟨content, spacing, segment.start + Text.byteCount header, done⟩ :: frames) [] rest ending
    | .statement header semicolon =>
      match statementOf? segment.before header semicolon with
      | none => .error (.noColon segment.start)
      | some (content, spacing) => assemble frames (.node content spacing [] :: done) rest ending

/-- The top-level items of a text and the spacing at its end. -/
def parseItems (text : Text) : Except ParseError (List Item × Text) :=
  let (segments, ending) := Segment.cut text
  assemble [] [] segments ending

/-- The stylesheet that a text holds, its nodes numbered in document order. -/
def parse (text : Text) : Except ParseError Sheet := (parseItems text).map fun (items, trailing) => ofItems items trailing

end StyleFlip.Sheet
