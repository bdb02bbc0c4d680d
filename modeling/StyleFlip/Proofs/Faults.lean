import StyleFlip.Proofs.Slices
import StyleFlip.Proofs.Sources

/-!
What parse errors say. An error names a byte of the text at which a character starts, and what it says is true there: a comment or
a string that starts there never ends, a block opens there, a closing brace stands there although the text before it is a whole
stylesheet, or a statement starts there that is no at-rule and has no colon.
-/
namespace StyleFlip

/-! ## Strings and comments that never end -/

namespace Segment
open Text

/-- A string starts at the start of the text, and the bytes behind its quote, with the byte behind each backslash skipped, never
come to the quote again. -/
def NeverEndingString (text : Text) : Prop :=
  ∃ quote inner, text = quote :: inner ∧ isQuote quote = true ∧ stringEnd? quote.toUInt8 false (bytes inner) = none

/-- A comment starts at the start of the text and is not closed behind that. -/
def NeverEndingComment (text : Text) : Prop := ∃ inner, text = commentOpen ++ inner ∧ ¬ commentClose <:+: inner

theorem not_isInfix_of_cut? {inner : Text} (none : cut? commentClose inner = none) : ¬ commentClose <:+: inner := by
  rw [← holds_iff, holds, none]
  exact Bool.false_ne_true

/-- An error that comes from the cut of a text itself, at a place behind `offset` bytes. -/
inductive Unended (offset : Nat) (text : Text) : ParseError → Prop where
  | string {front rest : Text} (split : text = front ++ rest) (endless : NeverEndingString rest) :
      Unended offset text (.openString (offset + byteCount front))
  | comment {front rest : Text} (split : text = front ++ rest) (endless : NeverEndingComment rest) :
      Unended offset text (.openComment (offset + byteCount front))

theorem Unended.append {offset : Nat} {text : Text} {error : ParseError} (front : Text)
    (unended : Unended (offset + byteCount front) text error) : Unended offset (front ++ text) error := by
  cases unended with
  | @string inner rest split endless =>
    rw [Nat.add_assoc, ← byteCount_append]
    exact .string (by rw [split, List.append_assoc]) endless
  | @comment inner rest split endless =>
    rw [Nat.add_assoc, ← byteCount_append]
    exact .comment (by rw [split, List.append_assoc]) endless

/-- Reading a header fails only at a string or comment that never ends. -/
theorem unended_of_readHeader {depth offset : Nat} {text : Text} {error : ParseError}
    (failed : readHeader .plain depth offset text = .error error) : Unended offset text error := by
  rw [readHeader_eq_readLexemes] at failed
  fun_induction lexemes text generalizing depth offset with
  | case1 => cases failed
  | case2 text lexeme following found ih =>
    have whole := firstLexeme?_eq_some found
    have later : ∀ depth, (readLexemes depth (offset + byteCount lexeme.text) (lexemes following)).map (keep lexeme.text) =
        .error error → Unended offset text error := by
      intro depth mapped
      cases read : readLexemes depth (offset + byteCount lexeme.text) (lexemes following) with
      | ok => rw [read] at mapped; cases mapped
      | error other =>
        rw [read] at mapped
        cases mapped
        rw [whole]
        exact (ih read).append _
    unfold firstLexeme? at found
    split at found
    · cases found
    · split at found
      · cases found
        rw [readLexemes] at failed
        exact later depth failed
      · rename_i none
        cases found
        cases failed
        exact @Unended.comment offset _ [] _ rfl ⟨_, rfl, not_isInfix_of_cut? none⟩
    · rename_i c rest _
      split at found
      · rename_i quoted
        split at found
        · cases found
          rw [readLexemes] at failed
          exact later depth failed
        · rename_i none
          cases found
          cases failed
          refine @Unended.string offset _ [] _ rfl ⟨c, rest, rfl, quoted, ?_⟩
          rw [stringEnd?_bytes (ascii_of_isQuote quoted), none, Option.map_none]
      · cases found
        rw [readLexemes] at failed
        split at failed
        · cases failed
        · exact later (depthAfter depth c) failed

theorem unended_of_stepAt {before text : Text} {start : Nat} {error : ParseError}
    (stopped : stepAt before start text = .stop (.fault error)) : Unended start text error := by
  unfold stepAt at stopped
  split at stopped
  · cases stopped
  · cases stopped
  · rename_i inner
    split at stopped
    · rename_i none
      cases stopped
      exact @Unended.comment start _ [] _ rfl ⟨inner, rfl, not_isInfix_of_cut? none⟩
    · cases stopped
  · split at stopped
    · rename_i read
      cases stopped
      exact unended_of_readHeader read
    all_goals cases stopped

/-! ## Texts that end early -/

/-- A statement without a semicolon is read again if nothing follows it. -/
theorem step_alone {offset : Nat} {text following header : Text} {segment : Segment}
    (taken : step offset text = .segment segment following) (bare : segment.shape = .statement header false) :
    step offset (segment.before ++ header) = .segment segment [] := by
  obtain ⟨before, start, rest⟩ := stepAt_eq_segment taken
  have some := shape_text_ne_nil taken
  simp only [bare, Shape.text, Bool.false_eq_true, if_false, List.append_nil] at rest some
  have plain := List.head?_dropWhile_not isSpacing text
  obtain ⟨c, inner, rfl⟩ := List.exists_cons_of_ne_nil some
  rw [rest] at plain
  have starts : ∀ d ∈ (c :: inner).head?, isSpacing d = false := by
    rintro d ⟨⟩
    simpa using plain
  have whole : segment = ⟨segment.before, offset + byteCount segment.before, .statement (c :: inner) false⟩ := by
    rw [before, ← start, ← bare, ← before]
  obtain ⟨behind, _, read⟩ := readHeader_of_stepAt taken (by rw [bare]; rfl)
  have again := (lexemes_of_readHeader read).2.2 (offset + byteCount segment.before)
  have closing : c ≠ '}' := by
    rintro rfl
    rw [step, rest] at taken
    injection taken with same
    rw [← same] at bare
    cases bare
  have alone : ∀ more, c = '/' → inner = '*' :: more → False := by
    rintro more rfl rfl
    rw [step, rest, List.cons_append, List.cons_append, stepAt] at taken
    split at taken <;> cases taken
    cases bare
  rw [step_of_spacing offset (blank_of_segment taken) starts, stepAt_of_readHeader closing alone again]
  conv => rhs; rw [whole]
  rfl

/-- The first segment of a text is read again if the text ends before a later closing brace. -/
theorem step_until {offset : Nat} {text front rest : Text} {segment : Segment}
    (taken : step offset text = .segment segment (front ++ '}' :: rest)) :
    step offset (segment.before ++ segment.shape.text ++ front) = .segment segment front := by
  by_cases last : front = [] ∧ segment.shape.isBare = true
  · obtain ⟨rfl, bare⟩ := last
    obtain ⟨header, shape⟩ : ∃ header, segment.shape = .statement header false := by
      cases shape : segment.shape with
      | statement header semicolon =>
        rw [shape] at bare
        cases semicolon with
        | false => exact ⟨header, rfl⟩
        | true => cases bare
      | comment | opening | closing =>
        rw [shape] at bare
        cases bare
    have alone := step_alone taken shape
    rwa [shape, Shape.text, if_neg Bool.false_ne_true, List.append_nil, List.append_nil]
  · obtain ⟨before, start, _⟩ := stepAt_eq_segment taken
    have same : segment.shape.isBare = true → front.head? = (front ++ '}' :: rest).head? := by
      intro bare
      have more : front ≠ [] := fun none => last ⟨none, bare⟩
      rw [List.head?_append_of_ne_nil _ more]
    rw [lasting_of_step taken offset front same, before, ← start, ← before]

end Segment

/-! ## Errors of nesting -/

namespace Sheet
open Segment Text

/-- Why assembling fails: the row of segments ends with an error; a block is left open that was open already or that a segment
opens; a segment closes a block where none is open; or a statement has no colon. -/
inductive Cause (opened : List Nat) (segments : List Segment) (ending : Ending) : ParseError → Prop where
  | fault {error : ParseError} (ended : ending = .fault error) : Cause opened segments ending error
  | around {place : Nat} (member : place ∈ opened) : Cause opened segments ending (.openBlock place)
  | block {segment : Segment} {header : Text} (member : segment ∈ segments) (shape : segment.shape = .opening header) :
      Cause opened segments ending (.openBlock (segment.start + byteCount header))
  | close {segment : Segment} (member : segment ∈ segments) (shape : segment.shape = .closing) :
      Cause opened segments ending (.strayClose segment.start)
  | colon {segment : Segment} {header : Text} {semicolon : Bool} (member : segment ∈ segments)
      (shape : segment.shape = .statement header semicolon) (none : statementOf? segment.before header semicolon = none) :
      Cause opened segments ending (.noColon segment.start)

/-- What fails behind a segment fails for the same cause; only blocks that were open behind it need to be accounted for. -/
theorem Cause.behind {opened wider : List Nat} {segment : Segment} {segments : List Segment} {ending : Ending} {error : ParseError}
    (cause : Cause opened segments ending error)
    (blocks : ∀ place ∈ opened, Cause wider (segment :: segments) ending (.openBlock place)) :
    Cause wider (segment :: segments) ending error := by
  cases cause with
  | fault ended => exact .fault ended
  | around member => exact blocks _ member
  | block member shape => exact .block (List.mem_cons_of_mem _ member) shape
  | close member shape => exact .close (List.mem_cons_of_mem _ member) shape
  | colon member shape none => exact .colon (List.mem_cons_of_mem _ member) shape none

theorem cause_of_assemble {frames : List Frame} {done : List Item} {segments : List Segment} {ending : Ending}
    {error : ParseError} (failed : assemble frames done segments ending = .error error) :
    Cause (frames.map Frame.opened) segments ending error := by
  induction segments generalizing frames done with
  | nil =>
    cases ending with
    | fault =>
      cases failed
      exact .fault rfl
    | spacing =>
      cases frames with
      | nil => cases failed
      | cons frame outer =>
        cases failed
        exact .around List.mem_cons_self
  | cons segment rest ih =>
    cases shape : segment.shape with
    | comment body =>
      simp only [assemble, shape] at failed
      exact (ih failed).behind fun place member => .around member
    | closing =>
      simp only [assemble, shape] at failed
      cases frames with
      | nil =>
        cases failed
        exact .close List.mem_cons_self shape
      | cons frame outer => exact (ih failed).behind fun place member => .around (List.mem_cons_of_mem _ member)
    | opening header =>
      simp only [assemble, shape] at failed
      refine (ih failed).behind fun place member => ?_
      rcases List.mem_cons.mp member with rfl | earlier
      · exact .block List.mem_cons_self shape
      · exact .around earlier
    | statement header semicolon =>
      simp only [assemble, shape] at failed
      split at failed
      · rename_i none
        cases failed
        exact .colon List.mem_cons_self shape none
      · exact (ih failed).behind fun place member => .around member

/-- At a place of a text that is read behind open blocks and finished items stands a closing brace, and the text before it is read
without an error. -/
def BraceBehind (frames : List Frame) (done : List Item) (offset place : Nat) (text : Text) : Prop :=
  ∃ front rest, text = front ++ '}' :: rest ∧ place = offset + byteCount front ∧
    ∃ result, assembleFrom frames done offset front = .ok result

/-- A segment in front of the text changes nothing, since it is read again when the text ends at the brace. -/
theorem BraceBehind.cons {frames inner : List Frame} {done items : List Item} {offset place : Nat} {text following : Text}
    {segment : Segment} (taken : step offset text = .segment segment following)
    (later : BraceBehind inner items (segment.start + byteCount segment.shape.text) place following)
    (again : ∀ {text next}, step offset text = .segment segment next → assembleFrom frames done offset text =
      assembleFrom inner items (segment.start + byteCount segment.shape.text) next) :
    BraceBehind frames done offset place text := by
  obtain ⟨front, rest, rfl, rfl, result, read⟩ := later
  obtain ⟨before, start, _⟩ := stepAt_eq_segment taken
  refine ⟨segment.before ++ segment.shape.text ++ front, rest, ?_, ?_, result, ?_⟩
  · rw [step_eq_segment taken, List.append_assoc _ front]
  · rw [start, ← before, byteCount_append, byteCount_append]
    omega
  · rw [again (step_until taken), read]

/-- A closing brace that closes nothing stands where the text could end. -/
theorem braceBehind_of_strayClose {frames : List Frame} {done : List Item} {offset place : Nat} {text : Text}
    (failed : assembleFrom frames done offset text = .error (.strayClose place)) : BraceBehind frames done offset place text := by
  induction length : text.length using Nat.strong_induction_on generalizing frames done offset text with
  | h n ih =>
    subst length
    cases taken : step offset text with
    | stop ending =>
      rw [assembleFrom, cutFrom_of_stop taken] at failed
      cases ending with
      | fault error =>
        cases failed
        cases unended_of_stepAt taken
      | spacing => cases frames <;> cases failed
    | segment segment following =>
      have shorter := length_of_step taken
      obtain ⟨before, start, shape⟩ := segment
      cases shape with
      | comment body =>
        rw [assembleFrom_of_comment taken] at failed
        exact (ih _ shorter failed rfl).cons taken assembleFrom_of_comment
      | opening header =>
        rw [assembleFrom_of_opening taken] at failed
        exact (ih _ shorter failed rfl).cons taken assembleFrom_of_opening
      | statement header semicolon =>
        cases read : statementOf? before header semicolon with
        | none =>
          rw [assembleFrom, cutFrom_of_segment taken] at failed
          simp only [assemble, read] at failed
          cases failed
        | some found =>
          rw [assembleFrom_of_statement taken read] at failed
          exact (ih _ shorter failed rfl).cons taken fun again => assembleFrom_of_statement again read
      | closing =>
        cases frames with
        | cons frame outer =>
          rw [assembleFrom_of_closing taken] at failed
          exact (ih _ shorter failed rfl).cons taken assembleFrom_of_closing
        | nil =>
          -- The text before the brace is spacing.
          obtain ⟨own, here, _⟩ := stepAt_eq_segment taken
          have spacing := cutFrom_of_stop (step_spacing offset (blank_of_segment taken))
          rw [assembleFrom, cutFrom_of_segment taken] at failed
          cases failed
          refine ⟨before, following, ?_, by rw [here, ← own], (done.reverse, before), ?_⟩
          · rw [step_eq_segment taken, List.append_assoc]
            rfl
          · rw [assembleFrom, spacing]
            rfl

end Sheet

/-! ## Located errors -/

def ParseError.place : ParseError → Nat
  | .openComment place | .openString place | .openBlock place | .strayClose place | .noColon place => place

namespace Sheet
open Segment Text

/-- What an error says of a text, where `rest` is the text from the byte on that the error names. -/
def Justified (text rest : Text) : ParseError → Prop
  | .openComment _ => NeverEndingComment rest
  | .openString _ => NeverEndingString rest
  | .openBlock _ => rest.head? = some '{'
  | .strayClose place => rest.head? = some '}' ∧ ∃ before sheet, until? text place = some before ∧ parse before = .ok sheet
  | .noColon place => ∃ header following, rest = header ++ following ∧
      readHeader .plain 0 place rest = .ok (header, following) ∧
      (following = [] ∨ following.head? = some ';' ∨ following.head? = some '}') ∧ header.head? ≠ some '@' ∧ ':' ∉ header

/-- An error names a byte inside the text where a character starts, and what it says there is true. -/
def Located (text : Text) (error : ParseError) : Prop :=
  ∃ rest, from? text error.place = some rest ∧ rest ≠ [] ∧ Justified text rest error

theorem located_of_unended {text : Text} {error : ParseError} (unended : Unended 0 text error) : Located text error := by
  cases unended with
  | @string front rest split endless =>
    refine ⟨rest, from?_eq_some_iff.mpr ⟨front, split, (Nat.zero_add _).symm⟩, ?_, endless⟩
    obtain ⟨quote, inner, rfl, _⟩ := endless
    simp
  | @comment front rest split endless =>
    refine ⟨rest, from?_eq_some_iff.mpr ⟨front, split, (Nat.zero_add _).symm⟩, ?_, endless⟩
    obtain ⟨inner, rfl, _⟩ := endless
    simp [commentOpen]

/-- The block that a segment opens is found where its header ends. -/
theorem located_of_opening {text header : Text} {segment : Segment} (member : segment ∈ (Segment.cut text).1)
    (shape : segment.shape = .opening header) : Located text (.openBlock (segment.start + byteCount header)) := by
  obtain ⟨following, earlier, rest, before, rfl, taken⟩ := takenIn_of_mem_cutFrom member
  obtain ⟨_, start, rfl⟩ := stepAt_eq_segment taken
  refine ⟨'{' :: following, from?_eq_some_iff.mpr ⟨earlier ++ header, ?_, ?_⟩, by simp, rfl⟩
  · rw [shape, Shape.text, List.append_assoc, List.append_assoc]
    rfl
  · rw [byteCount_append, ParseError.place, start, Nat.zero_add]

/-- A statement that is no at-rule and no declaration has no colon. -/
theorem noColon_of_statementOf? {before header : Text} {semicolon : Bool} (none : statementOf? before header semicolon = none) :
    header.head? ≠ some '@' ∧ ':' ∉ header := by
  unfold statementOf? at none
  split at none
  · cases none
  · rename_i plain
    have uncut : cut? [':'] header = Option.none := by
      rw [Option.map_eq_none_iff, declarationOf?] at none
      split at none
      · assumption
      · cases none
    refine ⟨head?_ne_of_plain plain, fun colon => ?_⟩
    rw [cut?_singleton, if_pos colon] at uncut
    cases uncut

theorem located_of_noColon {text header : Text} {semicolon : Bool} {segment : Segment} (member : segment ∈ (Segment.cut text).1)
    (shape : segment.shape = .statement header semicolon) (none : statementOf? segment.before header semicolon = none) :
    Located text (.noColon segment.start) := by
  obtain ⟨following, earlier, rest, before, rfl, taken⟩ := takenIn_of_mem_cutFrom member
  obtain ⟨_, start, whole⟩ := stepAt_eq_segment taken
  obtain ⟨behind, split, read⟩ := readHeader_of_stepAt taken (by rw [shape]; rfl)
  have filled : rest ≠ [] := by
    rw [whole]
    exact List.append_ne_nil_of_left_ne_nil (shape_text_ne_nil taken) _
  have ends : behind = [] ∨ behind.head? = some ';' ∨ behind.head? = some '}' := by
    rw [split, shape, Shape.text, List.append_assoc, List.append_cancel_left_eq] at whole
    cases semicolon with
    | true =>
      rw [whole]
      exact .inr (.inl rfl)
    | false =>
      rcases following_of_bare taken shape with rfl | ⟨more, rfl⟩
      · exact .inl whole
      · rw [whole]
        exact .inr (.inr rfl)
  refine ⟨rest, from?_eq_some_iff.mpr ⟨earlier, rfl, ?_⟩, filled, header, behind, split, ?_, ends, noColon_of_statementOf? none⟩
  · rw [ParseError.place, start, Nat.zero_add]
  · rwa [start]

theorem located_of_strayClose {text : Text} {place : Nat} (failed : parseItems text = .error (.strayClose place)) :
    Located text (.strayClose place) := by
  obtain ⟨before, rest, rfl, rfl, result, read⟩ := braceBehind_of_strayClose failed
  rw [Nat.zero_add]
  refine ⟨'}' :: rest, from?_append _ _, by simp, rfl, before, ofItems result.1 result.2, until?_append _ _, ?_⟩
  have items : parseItems before = .ok result := read
  rw [parse, items]
  rfl

/-- Reading a text comes to an end with a sheet or with an error, and it can be done by slices of its bytes, of which none is out of
range or splits a character. An error names a byte inside the text where a character starts. There a comment opens that is not
closed behind that, a quote opens a string whose bytes do not come to it again, a block opens, a closing brace stands behind a text
that is itself a stylesheet, or a statement starts that is no at-rule and has no colon before its semicolon, the end of its block
or the end of the text. -/
theorem parse_located (text : Text) :
    parseSlices? text = some (parse text) ∧
      ((∃ sheet, parse text = .ok sheet) ∨ ∃ error, parse text = .error error ∧ Located text error) := by
  refine ⟨parseSlices?_eq text, ?_⟩
  cases read : parseItems text with
  | ok found => exact .inl ⟨_, by rw [parse, read]; rfl⟩
  | error error =>
    refine .inr ⟨error, by rw [parse, read]; rfl, ?_⟩
    cases cause_of_assemble read with
    | fault ended =>
      obtain ⟨earlier, rest, before, split, stopped⟩ := takenIn_of_fault ended
      rw [split]
      exact located_of_unended ((unended_of_stepAt stopped).append earlier)
    | around member => cases member
    | block member shape => exact located_of_opening member shape
    | close member shape => exact located_of_strayClose read
    | colon member shape none => exact located_of_noColon member shape none

end Sheet
end StyleFlip
