import StyleFlip.Proofs.Blanks
import StyleFlip.Proofs.Sources

/-!
Strings and comments in the fields of nodes. Reading a header steps over its strings and comments, but the header is then cut into
fields by searches that know less: the end of the name of an at-rule is looked for in comments too, the colon of a declaration in
strings and comments, and the exclamation mark of its importance marker in strings. So a string or comment may come to lie across
two fields. This happens only at these three cuts: all strings and comments of a header lie inside its fields if and only if none
of them has one of the cuts inside it (`lexicallyClosed_iff_of_parse`).
-/
namespace StyleFlip

/-- A stretch of a text: the place of its first character and the place behind its last one. -/
structure Span where
  start : Nat
  stop : Nat
deriving DecidableEq, Repr

namespace Span

def Within (inner outer : Span) : Prop := outer.start ≤ inner.start ∧ inner.stop ≤ outer.stop

/-- A stretch goes on across a place. -/
def Straddles (span : Span) (place : Nat) : Prop := span.start < place ∧ place < span.stop

instance (inner outer : Span) : Decidable (inner.Within outer) := inferInstanceAs (Decidable (_ ∧ _))

instance (span : Span) (place : Nat) : Decidable (span.Straddles place) := inferInstanceAs (Decidable (_ ∧ _))

end Span

/-! ## Strings and comments -/

namespace Segment
open Text

/-- The characters with which strings and comments start and end. -/
def delimits (c : Char) : Bool := isQuote c || c == '/'

theorem delimits_of_isBlank {c : Char} (blank : isBlank c = true) : delimits c = false := by
  rw [Bool.eq_false_iff]
  intro delimiter
  rcases Bool.or_eq_true_iff.mp delimiter with quote | slash
  · rcases isQuote_iff.mp quote with rfl | rfl <;> cases blank
  · obtain rfl := beq_iff_eq.mp slash
    cases blank

theorem delimits_of_isQuote {c : Char} (quote : isQuote c = true) : delimits c = true :=
  Bool.or_eq_true_iff.mpr (.inl quote)

/-- A lexeme starts and ends with such characters. -/
structure Lexeme.Framed (lexeme : Lexeme) : Prop where
  first : ∃ c, lexeme.text.head? = some c ∧ delimits c = true
  last : ∃ c, lexeme.text.getLast? = some c ∧ delimits c = true

theorem framed_of_firstLexeme? {text following : Text} {lexeme : Lexeme} (found : firstLexeme? text = some (lexeme, following))
    (hides : lexeme.hides = true) : lexeme.Framed := by
  unfold firstLexeme? at found
  split at found
  · cases found
  · split at found <;> cases found
    · refine ⟨⟨'/', rfl, rfl⟩, '/', ?_, rfl⟩
      rw [Lexeme.text, List.getLast?_append]
      rfl
    · cases hides
  · split at found
    · rename_i quoted
      split at found <;> cases found
      · rename_i cut
        refine ⟨⟨_, rfl, delimits_of_isQuote quoted⟩, _, ?_, delimits_of_isQuote quoted⟩
        rw [Lexeme.text, ← List.singleton_append, List.getLast?_append, getLast?_of_cutString? cut]
        rfl
      · cases hides
    · cases found
      cases hides

/-- Every string and every comment starts and ends with such characters. -/
theorem framed_of_mem_lexemes {text : Text} {lexeme : Lexeme} (member : lexeme ∈ lexemes text) (hides : lexeme.hides = true) :
    lexeme.Framed := by
  fun_induction lexemes text with
  | case1 => cases member
  | case2 text first following found ih =>
    rcases List.mem_cons.mp member with rfl | later
    · exact framed_of_firstLexeme? found hides
    · exact ih later

/-- The stretches of the strings and comments in a row of lexemes of which the first stands at `start`. -/
def hiddenSpans : Nat → List Lexeme → List Span
  | _, [] => []
  | start, lexeme :: rest =>
    let stop := start + lexeme.text.length
    if lexeme.hides then ⟨start, stop⟩ :: hiddenSpans stop rest else hiddenSpans stop rest

/-- At a place of a text stands a character with which a string or comment may start or end. -/
def DelimitedAt (text : Text) (place : Nat) : Prop := ∃ c, text[place]? = some c ∧ delimits c = true

/-- A stretch of a text that starts and ends with such characters. -/
structure Delimited (text : Text) (span : Span) : Prop where
  first : DelimitedAt text span.start
  last : DelimitedAt text (span.stop - 1)
  order : span.start < span.stop
  inside : span.stop ≤ text.length

theorem not_delimitedAt {front gap back : Text} {place : Nat} (plain : ∀ c ∈ gap, delimits c = false)
    (low : front.length ≤ place) (high : place < front.length + gap.length) : ¬ DelimitedAt (front ++ gap ++ back) place := by
  rintro ⟨c, found, delimiter⟩
  rw [List.append_assoc, List.getElem?_append_right low, List.getElem?_append_left (by omega)] at found
  rw [plain c (List.mem_of_getElem? found)] at delimiter
  cases delimiter

/-- A lexeme that starts and ends with such characters is such a stretch. -/
theorem Lexeme.Framed.delimited {lexeme : Lexeme} (framed : lexeme.Framed) (front back : Text) :
    Delimited (front ++ (lexeme.text ++ back)) ⟨front.length, front.length + lexeme.text.length⟩ := by
  obtain ⟨⟨c, first, opens⟩, d, last, closes⟩ := framed
  have own := List.length_pos_iff.mpr lexeme.text_ne_nil
  refine ⟨⟨c, ?_, opens⟩, ⟨d, ?_, closes⟩, by simp only; omega, by simp only [List.length_append]; omega⟩
  · rw [List.getElem?_append_right (Nat.le_refl _), Nat.sub_self, List.getElem?_append_left own, ← List.head?_eq_getElem?, first]
  · have place : front.length + lexeme.text.length - 1 - front.length = lexeme.text.length - 1 := by omega
    rw [List.getElem?_append_right (by simp only; omega), place, List.getElem?_append_left (by omega),
      ← List.getLast?_eq_getElem?, last]

theorem delimited_of_mem_hiddenSpans {row : List Lexeme} {span : Span} (front : Text)
    (framed : ∀ lexeme ∈ row, lexeme.hides = true → lexeme.Framed) (member : span ∈ hiddenSpans front.length row) :
    Delimited (front ++ row.flatMap Lexeme.text) span := by
  induction row generalizing front with
  | nil => cases member
  | cons lexeme rest ih =>
    obtain ⟨here, others⟩ := List.forall_mem_cons.mp framed
    have later : span ∈ hiddenSpans (front.length + lexeme.text.length) rest →
        Delimited (front ++ (lexeme :: rest).flatMap Lexeme.text) span := by
      intro inner
      rw [List.flatMap_cons, ← List.append_assoc]
      exact ih (front ++ lexeme.text) others (by rwa [List.length_append])
    rw [hiddenSpans] at member
    by_cases hides : lexeme.hides = true
    · rw [if_pos hides] at member
      rcases List.mem_cons.mp member with rfl | inner
      · exact (here hides).delimited front _
      · exact later inner
    · rw [if_neg hides] at member
      exact later member

/-- The stretches of the strings and comments of a text. -/
def hidden (text : Text) : List Span := hiddenSpans 0 (lexemes text)

theorem delimited_of_mem_hidden {text : Text} {span : Span} (member : span ∈ hidden text) : Delimited text span := by
  have whole := delimited_of_mem_hiddenSpans [] (fun lexeme => @framed_of_mem_lexemes text lexeme) member
  rwa [List.nil_append, flatMap_text_lexemes] at whole

end Segment

/-! ## Fields -/

/-- A part of the header of a node: a field, or what stands between fields. -/
inductive Part where
  | field (text : Text)
  | filler (text : Text)
deriving DecidableEq, Repr

def Part.text : Part → Text
  | .field text | .filler text => text

/-- The parts of the header of a node, in order. The root and comments have no header. -/
def Content.parts (content : Content) (spacing : Spacing) : List Part :=
  match content with
  | .root | .comment _ => []
  | .rule selector => [.field selector, .filler spacing.between]
  | .atRule name params _ =>
    [.filler ['@'], .field name, .filler spacing.afterName, .field params, .filler spacing.between]
  | .declaration decl =>
    [.field decl.property, .field decl.between, .field decl.written, .field (decl.important.getD []), .filler spacing.after]

/-- The places where the header of a node was cut by a search: the end of the name of an at-rule, the colon of a declaration and
the exclamation mark of its importance marker. -/
def Content.cuts : Content → List Nat
  | .atRule name _ _ => [1 + name.length]
  | .declaration decl =>
    (decl.property.length + (decl.between.takeWhile (· != ':')).length) ::
      match decl.important with
      | none => []
      | some marker =>
        [decl.property.length + decl.between.length + decl.written.length + (marker.takeWhile (· != '!')).length]
  | _ => []

/-- The stretches of the fields among parts of which the first stands at `start`. -/
def fieldSpans : Nat → List Part → List Span
  | _, [] => []
  | start, .field text :: rest => ⟨start, start + text.length⟩ :: fieldSpans (start + text.length) rest
  | start, .filler text :: rest => fieldSpans (start + text.length) rest

/-- Every string and every comment of a header lies inside one of its fields. -/
def LexicallyClosed (header : Text) (parts : List Part) : Prop :=
  ∀ span ∈ Segment.hidden header, ∃ field ∈ fieldSpans 0 parts, span.Within field

/-- No string and no comment of a header goes on across one of the places. -/
def Unstraddled (header : Text) (places : List Nat) : Prop :=
  ∀ span ∈ Segment.hidden header, ∀ place ∈ places, ¬ span.Straddles place

instance (header : Text) (parts : List Part) : Decidable (LexicallyClosed header parts) :=
  inferInstanceAs (Decidable (∀ span ∈ Segment.hidden header, ∃ field ∈ fieldSpans 0 parts, span.Within field))

instance (header : Text) (places : List Nat) : Decidable (Unstraddled header places) :=
  inferInstanceAs (Decidable (∀ span ∈ Segment.hidden header, ∀ place ∈ places, ¬ span.Straddles place))

theorem lexicallyClosed_iff_unstraddled {header : Text} {parts : List Part} {places : List Nat}
    (same : ∀ span, Segment.Delimited header span →
      ((∃ field ∈ fieldSpans 0 parts, span.Within field) ↔ ∀ place ∈ places, ¬ span.Straddles place)) :
    LexicallyClosed header parts ↔ Unstraddled header places :=
  forall₂_congr fun span member => same span (Segment.delimited_of_mem_hidden member)

namespace Sheet
open Segment Text

theorem plain_of_blanks {gap : Text} (blanks : ∀ c ∈ gap, isBlank c = true) : ∀ c ∈ gap, delimits c = false :=
  fun c member => delimits_of_isBlank (blanks c member)

/-- Behind its selector the header of a rule has blanks only, so nothing can lie across fields. -/
theorem lexicallyClosed_rule {selector between : Text} (blanks : ∀ c ∈ between, isBlank c = true) :
    LexicallyClosed (selector ++ between) [.field selector, .filler between] := by
  intro span member
  have delimited := delimited_of_mem_hidden member
  refine ⟨⟨0, 0 + selector.length⟩, List.mem_cons_self, Nat.zero_le _, ?_⟩
  have inside := delimited.inside
  rw [List.length_append] at inside
  by_contra beyond
  simp only at beyond
  have last := delimited.last
  rw [← List.append_nil (selector ++ between)] at last
  exact not_delimitedAt (plain_of_blanks blanks) (by omega) (by omega) last

theorem lexicallyClosed_atRule_iff {name afterName params between : Text} (apart : ∀ c ∈ afterName, isBlank c = true)
    (blanks : ∀ c ∈ between, isBlank c = true) :
    LexicallyClosed ('@' :: (name ++ afterName ++ params ++ between))
        [.filler ['@'], .field name, .filler afterName, .field params, .filler between] ↔
      Unstraddled ('@' :: (name ++ afterName ++ params ++ between)) [1 + name.length] := by
  refine lexicallyClosed_iff_unstraddled fun span delimited => ?_
  obtain ⟨first, last, order, inside⟩ := delimited
  simp only [List.length_cons, List.length_append] at inside
  have sign : span.start ≠ 0 := by
    intro zero
    rw [zero] at first
    exact @not_delimitedAt [] ['@'] _ 0 (List.forall_mem_singleton.mpr rfl) (Nat.le_refl _) Nat.zero_lt_one first
  have outside : ∀ place, DelimitedAt ('@' :: (name ++ afterName ++ params ++ between)) place →
      place < 1 + name.length ∨ 1 + name.length + afterName.length ≤ place := by
    intro place found
    by_contra within
    refine @not_delimitedAt ('@' :: name) afterName (params ++ between) place (plain_of_blanks apart) ?_ ?_ (by simpa using found)
    · simp only [List.length_cons]
      omega
    · simp only [List.length_cons]
      omega
  have before : span.stop ≤ 1 + name.length + afterName.length + params.length := by
    by_contra beyond
    refine @not_delimitedAt ('@' :: (name ++ afterName ++ params)) between [] _ (plain_of_blanks blanks) ?_ ?_
      (by simpa using last)
    · simp only [List.length_cons, List.length_append]
      omega
    · simp only [List.length_cons, List.length_append]
      omega
  have start := outside _ first
  have stop := outside _ last
  simp only [fieldSpans, List.mem_cons, List.not_mem_nil, or_false, exists_eq_or_imp, exists_eq_left, forall_eq, Span.Within,
    Span.Straddles, List.length_singleton]
  omega

/-- How a declaration lies in its header: around its colon and before its exclamation mark no string or comment can start or end,
and neither can one behind it. -/
structure Outlined (decl : Declaration) (after : Text) : Prop where
  colon : ':' ∈ decl.between
  between : ∀ c ∈ decl.between, delimits c = false
  bang : ∀ marker, decl.important = some marker → '!' ∈ marker
  gap : ∀ marker, decl.important = some marker → ∀ c ∈ marker.takeWhile (· != '!'), delimits c = false
  after : ∀ c ∈ after, delimits c = false

theorem outlined_declarationOf? {header after : Text} {decl : Declaration} (found : declarationOf? header = some (decl, after)) :
    Outlined decl after := by
  unfold declarationOf? at found
  split at found
  · cases found
  · rename_i name following cut
    simp only [Option.some.injEq, Prod.mk.injEq] at found
    obtain ⟨rfl, rfl⟩ := found
    have marked : ∀ marker, (valueAndMarker (trimEnd (trimStart following))).2 = some marker →
        ∃ gap rest, (∀ c ∈ gap, isBlank c = true) ∧ marker = gap ++ '!' :: rest := by
      intro marker found
      unfold valueAndMarker at found
      split at found
      · cases found
      · split at found <;> cases found
        exact ⟨_, _, blanks_blankTail _, rfl⟩
    constructor
    · simp
    · intro c member
      simp only [Declaration.between_withWritten, List.mem_append, List.mem_cons] at member
      rcases member with gap | rfl | lead
      · exact plain_of_blanks (blanks_blankTail _) c gap
      · rfl
      · exact plain_of_blanks (blanks_blankHead _) c lead
    · intro marker found
      obtain ⟨gap, rest, _, rfl⟩ := marked marker (by simpa using found)
      simp
    · intro marker found
      obtain ⟨gap, rest, blanks, rfl⟩ := marked marker (by simpa using found)
      rw [takeWhile_of_blanks (by decide) blanks, List.takeWhile_cons_of_neg (by simp), List.append_nil]
      exact plain_of_blanks blanks
    · exact plain_of_blanks (blanks_blankTail _)

/-- What a search for a character passes is shorter than a text that holds the character. -/
theorem length_takeWhile_lt {c : Char} {text : Text} (member : c ∈ text) : (text.takeWhile (· != c)).length < text.length := by
  induction text with
  | nil => cases member
  | cons d rest ih =>
    by_cases same : d = c
    · simp [same]
    · have later := ih ((List.mem_cons.mp member).resolve_left (Ne.symm same))
      simp [same, later]

theorem lexicallyClosed_declaration_iff {decl : Declaration} {spacing : Spacing} (outlined : Outlined decl spacing.after) :
    LexicallyClosed (decl.text ++ spacing.after) ((Content.declaration decl).parts spacing) ↔
      Unstraddled (decl.text ++ spacing.after) (Content.declaration decl).cuts := by
  refine lexicallyClosed_iff_unstraddled fun span delimited => ?_
  obtain ⟨first, last, order, inside⟩ := delimited
  simp only [Declaration.text, List.length_append] at first last inside
  have colon := length_takeWhile_lt outlined.colon
  -- No string or comment starts or ends around the colon.
  have outside : ∀ place, DelimitedAt (decl.property ++ decl.between ++ decl.written ++ decl.important.getD [] ++ spacing.after)
      place → place < decl.property.length ∨ decl.property.length + decl.between.length ≤ place := by
    intro place found
    by_contra within
    exact @not_delimitedAt decl.property decl.between (decl.written ++ (decl.important.getD [] ++ spacing.after)) place
      outlined.between (by omega) (by omega) (by simpa using found)
  have before : span.stop ≤ decl.property.length + decl.between.length + decl.written.length +
      (decl.important.getD []).length := by
    by_contra beyond
    rw [← List.append_nil (_ ++ spacing.after)] at last
    exact not_delimitedAt outlined.after (by simp only [List.length_append]; omega) (by simp only [List.length_append]; omega) last
  have start := outside _ first
  have stop := outside _ last
  simp only [Content.parts, Content.cuts, fieldSpans, List.mem_cons, List.not_mem_nil, or_false, exists_eq_or_imp,
    exists_eq_left, Span.Within]
  cases important : decl.important with
  | none =>
    rw [important] at before
    simp only [Option.getD_none, List.length_nil, forall_eq_or_imp, List.not_mem_nil, false_implies, implies_true, and_true,
      Span.Straddles] at before ⊢
    omega
  | some marker =>
    have bang := length_takeWhile_lt (outlined.bang marker important)
    have gap : ∀ place, DelimitedAt (decl.property ++ decl.between ++ decl.written ++ decl.important.getD [] ++ spacing.after)
        place → place < decl.property.length + decl.between.length + decl.written.length ∨
          decl.property.length + decl.between.length + decl.written.length + (marker.takeWhile (· != '!')).length ≤ place := by
      intro place found
      by_contra within
      refine @not_delimitedAt (decl.property ++ decl.between ++ decl.written) (marker.takeWhile (· != '!'))
        (marker.dropWhile (· != '!') ++ spacing.after) place (outlined.gap marker important) ?_ ?_ ?_
      · simp only [List.length_append]
        omega
      · simp only [List.length_append]
        omega
      · rwa [← List.append_assoc, List.append_assoc _ (marker.takeWhile _), List.takeWhile_append_dropWhile,
          ← Option.getD_some (a := marker), ← important]
    have startGap := gap _ first
    have stopGap := gap _ last
    rw [important] at before
    simp only [Option.getD_some, forall_eq_or_imp, List.mem_singleton, forall_eq, Span.Straddles] at before ⊢
    omega

theorem lexicallyClosed_iff_of_atRuleOf {before body : Text} {hasBlock semicolon : Bool} {content : Content} {spacing : Spacing}
    (found : atRuleOf before body hasBlock semicolon = (content, spacing)) :
    (content.parts spacing).flatMap Part.text = '@' :: body ∧
      (LexicallyClosed ('@' :: body) (content.parts spacing) ↔ Unstraddled ('@' :: body) content.cuts) := by
  let rest := body.dropWhile fun c => !endsName c
  have whole : (body.takeWhile fun c => !endsName c) ++ blankHead rest ++ trimEnd (trimStart rest) ++ blankTail (trimStart rest) =
      body := by
    rw [List.append_assoc, trimEnd_append_blankTail, List.append_assoc, blankHead_append_trimStart,
      List.takeWhile_append_dropWhile]
  have closed := @lexicallyClosed_atRule_iff (body.takeWhile fun c => !endsName c) (blankHead rest) (trimEnd (trimStart rest))
    (blankTail (trimStart rest)) (blanks_blankHead _) (blanks_blankTail _)
  rw [whole] at closed
  cases found
  refine ⟨?_, closed⟩
  conv => rhs; rw [← whole]
  simp [Content.parts, Part.text, rest]

/-- The parts of the node that a segment starts are its header. They hold its strings and comments whole if and only if none of
these goes on across a cut. -/
theorem lexicallyClosed_iff_of_starts {segment : Segment} {header : Text} {started : Content × Spacing}
    (starts : segment.starts? = some started) (own : segment.shape.header? = some header) :
    (started.1.parts started.2).flatMap Part.text = header ∧
      (LexicallyClosed header (started.1.parts started.2) ↔ Unstraddled header started.1.cuts) := by
  obtain ⟨content, spacing⟩ := started
  cases shape : segment.shape with
  | comment | closing =>
    rw [shape] at own
    cases own
  | opening text =>
    simp only [Segment.starts?, shape, Option.some.injEq] at starts
    rw [shape] at own
    cases own
    unfold blockOf at starts
    split at starts
    · exact lexicallyClosed_iff_of_atRuleOf starts
    · rename_i plain
      cases starts
      have closed := @lexicallyClosed_rule (trimEnd header) (blankTail header) (blanks_blankTail _)
      have whole := trimEnd_append_blankTail header
      rw [whole] at closed
      refine ⟨by simp [Content.parts, Part.text, whole], iff_of_true closed ?_⟩
      intro span member place cut
      cases cut
  | statement text semicolon =>
    simp only [Segment.starts?, shape] at starts
    rw [shape] at own
    cases own
    unfold statementOf? at starts
    split at starts
    · exact lexicallyClosed_iff_of_atRuleOf (Option.some.inj starts)
    · obtain ⟨⟨decl, after⟩, read, equal⟩ := Option.map_eq_some_iff.mp starts
      cases equal
      have whole := text_declarationOf? read
      have closed := @lexicallyClosed_declaration_iff decl { before := segment.before, after := after, semicolon := semicolon }
        (outlined_declarationOf? read)
      simp only [whole] at closed
      refine ⟨?_, closed⟩
      simp only [Declaration.text, List.append_assoc] at whole
      simp [Content.parts, Part.text, whole]

end Sheet

def Node.parts (node : Node) : List Part := node.content.parts node.spacing

theorem Node.parts_started (node : Node) : node.started.1.parts node.started.2 = node.parts ∧ node.started.1 = node.content := by
  obtain ⟨content, spacing, parent, children⟩ := node
  cases content <;> exact ⟨rfl, rfl⟩

/-- A header stands in the text at the byte where its segment starts and was read there, and its lexemes are lexemes of the text
from there on. -/
def Segment.Headed (text : Text) (segment : Segment) (header : Text) : Prop :=
  ∃ earlier following, text = earlier ++ (header ++ following) ∧ Text.byteCount earlier = segment.start ∧
    readHeader .plain 0 segment.start (header ++ following) = .ok (header, following) ∧
    lexemes (header ++ following) = lexemes header ++ lexemes following

theorem Segment.headed_of_mem_cut {text header : Text} {segment : Segment} (member : segment ∈ (cut text).1)
    (own : segment.shape.header? = some header) : segment.Headed text header := by
  obtain ⟨following, earlier, rest, before, rfl, taken⟩ := takenIn_of_mem_cutFrom member
  obtain ⟨_, start, _⟩ := stepAt_eq_segment taken
  obtain ⟨behind, rfl, read⟩ := readHeader_of_stepAt taken own
  rw [← start] at read
  exact ⟨earlier, behind, rfl, by rw [start, Nat.zero_add], read, (lexemes_of_readHeader read).1⟩

namespace Sheet
open Segment

/-- Every node of a sheet that was read comes from a segment of the text, and all but comments from one with a header, of which
their fields and the fillers around them are the parts. The strings and comments that were stepped over when the header was read
lie each inside one field, if and only if none of them goes on across the end of the name of an at-rule, the colon of a declaration
or the exclamation mark of its importance marker. -/
theorem lexicallyClosed_iff_of_parse {text : Text} {sheet : Sheet} (parsed : parse text = .ok sheet) {n : Nat}
    (inside : n + 1 < sheet.size) :
    ∃ segment, (sources text)[n]? = some segment ∧ segment.starts? = some (sheet.node (n + 1)).started ∧
      (sheet.kind (n + 1) ≠ .comment → ∃ header, segment.shape.header? = some header ∧ segment.Headed text header ∧
        (sheet.node (n + 1)).parts.flatMap Part.text = header ∧
        (LexicallyClosed header (sheet.node (n + 1)).parts ↔ Unstraddled header (sheet.content (n + 1)).cuts)) := by
  obtain ⟨segment, source, starts⟩ := exists_source_of_parse parsed inside
  refine ⟨segment, source, starts, fun statement => ?_⟩
  obtain ⟨parts, content⟩ := (sheet.node (n + 1)).parts_started
  have headed : ∃ header, segment.shape.header? = some header := by
    cases shape : segment.shape with
    | opening header | statement header => exact ⟨header, rfl⟩
    | comment body =>
      simp only [Segment.starts?, shape, Option.some.injEq] at starts
      rw [kind, Sheet.content, ← content, ← starts] at statement
      exact absurd rfl statement
    | closing => simp [Segment.starts?, shape] at starts
  obtain ⟨header, own⟩ := headed
  have closed := lexicallyClosed_iff_of_starts starts own
  rw [parts, content] at closed
  exact ⟨header, own, headed_of_mem_cut (List.mem_of_mem_filter (List.mem_of_getElem? source)) own, closed⟩

/-- A colon, an exclamation mark and a closing brace stand in strings and comments, and all of these stay inside their fields. -/
theorem lexicallyClosed_iff_of_parse_quoted :
    hidden "c:\"x:!\x7d\" /*!*/ d !important/*e*/ ".toList = [⟨2, 8⟩, ⟨9, 14⟩, ⟨27, 32⟩] ∧
    ∃ sheet, parse "@media (a)\x7bb /*:*/\x7bc:\"x:!\x7d\" /*!*/ d !important/*e*/ \x7d\x7d".toList = .ok sheet ∧ 3 < sheet.size ∧
      (sheet.node 3).parts =
        [.field "c".toList, .field ":".toList, .field "\"x:!\x7d\" /*!*/ d".toList, .field " !important/*e*/".toList,
          .filler " ".toList] ∧
      LexicallyClosed "c:\"x:!\x7d\" /*!*/ d !important/*e*/ ".toList (sheet.node 3).parts := by
  have spans : hidden "c:\"x:!\x7d\" /*!*/ d !important/*e*/ ".toList = [⟨2, 8⟩, ⟨9, 14⟩, ⟨27, 32⟩] := by decide +kernel
  obtain ⟨sheet, parsed, test⟩ := exists_of_readable
    (by decide +kernel :
      (parse "@media (a)\x7bb /*:*/\x7bc:\"x:!\x7d\" /*!*/ d !important/*e*/ \x7d\x7d".toList).toOption.any (fun sheet =>
        decide (3 < sheet.size) && sheet.kind 3 != .comment && (sheet.content 3).cuts == [1, 17] && (sheet.node 3).parts ==
        [.field "c".toList, .field ":".toList, .field "\"x:!\x7d\" /*!*/ d".toList, .field " !important/*e*/".toList,
          .filler " ".toList]) = true)
  simp only [Bool.and_eq_true, decide_eq_true_eq, bne_iff_ne, beq_iff_eq] at test
  obtain ⟨⟨⟨inside, statement⟩, cuts⟩, parts⟩ := test
  obtain ⟨_, _, _, whole⟩ := lexicallyClosed_iff_of_parse parsed inside
  obtain ⟨header, _, _, joined, closed⟩ := whole statement
  obtain rfl : "c:\"x:!\x7d\" /*!*/ d !important/*e*/ ".toList = header := by
    rw [← joined, parts]
    decide +kernel
  refine ⟨spans, sheet, parsed, inside, parts, closed.mpr ?_⟩
  rw [Unstraddled, spans, cuts]
  decide

/-- The string of a value that ends with an exclamation mark and the word `important` is cut in two, and so are a comment before
the colon of a declaration and one behind the name of an at-rule. -/
theorem lexicallyClosed_fails :
    (∃ sheet, parse "a\x7bcontent:\"x !important\"\x7d".toList = .ok sheet ∧ (sheet.node 2).parts =
        [.field "content".toList, .field ":".toList, .field "\"x".toList, .field " !important\"".toList, .filler []] ∧
      ¬ LexicallyClosed "content:\"x !important\"".toList (sheet.node 2).parts) ∧
    (∃ sheet, parse "a\x7bb/*:*/:c\x7d".toList = .ok sheet ∧ (sheet.node 2).parts =
        [.field "b/*".toList, .field ":".toList, .field "*/:c".toList, .field [], .filler []] ∧
      ¬ LexicallyClosed "b/*:*/:c".toList (sheet.node 2).parts) ∧
    ∃ sheet, parse "@media/* x */ print\x7b\x7d".toList = .ok sheet ∧ (sheet.node 1).parts =
        [.filler "@".toList, .field "media/*".toList, .filler " ".toList, .field "x */ print".toList, .filler []] ∧
      ¬ LexicallyClosed "@media/* x */ print".toList (sheet.node 1).parts := by
  -- For each text the parts are computed, and then that they do not hold its string or comment whole.
  have fails : ∀ (text header : Text) (n : Nat) (parts : List Part),
      (parse text).toOption.any (fun sheet => (sheet.node n).parts == parts) = true → ¬ LexicallyClosed header parts →
      ∃ sheet, parse text = .ok sheet ∧ (sheet.node n).parts = parts ∧ ¬ LexicallyClosed header (sheet.node n).parts := by
    intro text header n parts readable across
    obtain ⟨sheet, parsed, test⟩ := exists_of_readable readable
    have same := beq_iff_eq.mp test
    exact ⟨sheet, parsed, same, by rwa [same]⟩
  refine ⟨fails _ _ _ _ ?_ ?_, fails _ _ _ _ ?_ ?_, fails _ _ _ _ ?_ ?_⟩ <;> decide +kernel

end Sheet
end StyleFlip
