import StyleFlip.Proofs.Rows
import StyleFlip.Proofs.Slices

/-!
The words of a row as spans, the bytes of the text at which they start and end. A scan of the text with one place to remember
finds them (`spans?_eq`), and exchanging them is cutting the text at their ends and putting other texts between the gaps
(`replaceSpans?_eq`); neither ever cuts inside a character. The spans hold all of the text but blanks outside parentheses and
tokens that stand for comments (`spans_tile`).
-/
namespace StyleFlip.Standard
open Text

/-! ## Where words stand -/

/-- The words of a row that stands behind a text, each with all that stands before it. -/
def placedFrom (before : Text) : List (Text × Text) → List (Text × Text)
  | [] => []
  | (gap, word) :: rest => (before ++ gap, word) :: placedFrom (before ++ gap ++ word) rest

/-- The bytes at which a word starts and ends, from what stands before it and the word. -/
def spanOf (placed : Text × Text) : Nat × Nat := (byteCount placed.1, byteCount placed.1 + byteCount placed.2)

/-- The spans of the words of a row that stands behind a text. -/
def spansFrom (before : Text) (words : List (Text × Text)) : List (Nat × Nat) := (placedFrom before words).map spanOf

def Row.spans (row : Row) : List (Nat × Nat) := spansFrom [] row.words

theorem spansFrom_cons (before gap word : Text) (rest : List (Text × Text)) :
    spansFrom before ((gap, word) :: rest) =
      (byteCount (before ++ gap), byteCount (before ++ gap) + byteCount word) :: spansFrom (before ++ gap ++ word) rest := rfl

theorem length_spansFrom (before : Text) (words : List (Text × Text)) : (spansFrom before words).length = words.length := by
  induction words generalizing before with
  | nil => rfl
  | cons first rest ih => rw [spansFrom_cons, List.length_cons, List.length_cons, ih]

theorem slice?_gap (before gap rest : Text) :
    slice? (before ++ (gap ++ rest)) (byteCount before) (byteCount (before ++ gap)) = some gap := by
  rw [byteCount_append, slice?_append]

/-- The first gap and the first word of a row are slices of the text in which it stands, and the others stand behind them. -/
theorem slices_of_cons {text before gap word : Text} {rest : List (Text × Text)} {trailing : Text}
    (whole : text = before ++ Row.text ⟨(gap, word) :: rest, trailing⟩) :
    slice? text (byteCount before) (byteCount (before ++ gap)) = some gap ∧
      slice? text (byteCount (before ++ gap)) (byteCount (before ++ gap) + byteCount word) = some word ∧
      text = before ++ gap ++ word ++ Row.text ⟨rest, trailing⟩ := by
  rw [Row.text_cons] at whole
  have first := slice?_gap before gap (word ++ Row.text ⟨rest, trailing⟩)
  rw [← whole] at first
  rw [← List.append_assoc] at whole
  have second := slice?_append (before ++ gap) word (Row.text ⟨rest, trailing⟩)
  rw [← whole] at second
  rw [← List.append_assoc] at whole
  exact ⟨first, second, whole⟩

/-- Words that stand for comments are left out, and all others stand where they stood. -/
theorem placedFrom_absorb (before carried : Text) (words : List (Text × Text)) (trailing : Text) :
    placedFrom before (absorb carried words trailing).words =
      (placedFrom (before ++ carried) words).filter fun placed => !standsForComment placed.2 := by
  induction words generalizing before carried with
  | nil => rfl
  | cons first rest ih =>
    obtain ⟨gap, word⟩ := first
    rw [absorb, placedFrom]
    cases stands : standsForComment word with
    | true =>
      rw [if_pos rfl, ih, List.filter_cons_of_neg (by simp [stands])]
      simp only [List.append_assoc]
    | false =>
      rw [if_neg Bool.false_ne_true, List.filter_cons_of_pos (by simp [stands]), placedFrom, ih]
      simp only [List.append_assoc, List.append_nil]

/-- The spans of the words of a text are those of the stretches between blanks that do not stand for comments. -/
theorem spans_ofText (text : Text) :
    (Row.ofText text).spans =
      ((placedFrom [] (rowFrom 0 text).words).filter fun placed => !standsForComment placed.2).map spanOf := by
  rw [Row.spans, Row.ofText, spansFrom, placedFrom_absorb]
  rfl

theorem text_eq_rowFrom (text : Text) : text = [] ++ Row.text ⟨(rowFrom 0 text).words, (rowFrom 0 text).trailing⟩ :=
  (text_rowFrom 0 text).symm

/-! ## Scanning for spans -/

/-- The stretches between blanks outside parentheses, read character by character: `begun` is the byte at which the stretch that is
being read began. -/
def stretchesFrom (depth place : Nat) (begun : Option Nat) : Text → List (Nat × Nat)
  | [] => (begun.map (·, place)).toList
  | c :: rest =>
    let inner := depthAfter depth c
    if separates inner c then (begun.map (·, place)).toList ++ stretchesFrom inner (place + c.utf8Size) none rest
    else stretchesFrom inner (place + c.utf8Size) (some (begun.getD place)) rest

/-- The spans whose slices do not stand for comments. -/
def keptSpans? (text : Text) : List (Nat × Nat) → Option (List (Nat × Nat))
  | [] => some []
  | span :: rest => do
    let token ← slice? text span.1 span.2
    let kept ← keptSpans? text rest
    some (if standsForComment token then kept else span :: kept)

/-- The spans of the words of a text, if no slice splits a character. -/
def spans? (text : Text) : Option (List (Nat × Nat)) := keptSpans? text (stretchesFrom 0 0 none text)

/-- The spans behind a place up to which a stretch may have been read; `goesOn` says whether the stretch goes on there. -/
def goneOn (begun : Option Nat) (goesOn : Bool) (place : Nat) (spans : List (Nat × Nat)) : List (Nat × Nat) :=
  match begun, goesOn with
  | none, _ => spans
  | some start, true => spans.modifyHead fun span => (start, span.2)
  | some start, false => (start, place) :: spans

theorem spansFrom_consGap (before : Text) (c : Char) (row : Row) :
    spansFrom before (row.consGap c).words = spansFrom (before ++ [c]) row.words := by
  obtain ⟨words, trailing⟩ := row
  cases words with
  | nil => rfl
  | cons first rest =>
    obtain ⟨gap, word⟩ := first
    have onward : before ++ [c] ++ gap = before ++ c :: gap := by simp
    change spansFrom before ((c :: gap, word) :: rest) = spansFrom (before ++ [c]) ((gap, word) :: rest)
    rw [spansFrom_cons, spansFrom_cons, onward]

/-- The stretches of a text are the words of its row. -/
theorem stretchesFrom_eq (depth : Nat) (before : Text) (begun : Option Nat) (text : Text) :
    stretchesFrom depth (byteCount before) begun text =
      goneOn begun (startsWord depth text) (byteCount before) (spansFrom before (rowFrom depth text).words) := by
  induction text generalizing depth before begun with
  | nil => cases begun <;> rfl
  | cons c text ih =>
    have size : byteCount before + c.utf8Size = byteCount (before ++ [c]) := by rw [byteCount_append]; rfl
    rw [stretchesFrom, rowFrom_cons, size]
    cases starts : startsWord depth (c :: text) with
    | false =>
      -- A blank outside parentheses ends the stretch, if one was begun.
      have separated : separates (depthAfter depth c) c = true := by simpa [startsWord] using starts
      rw [if_pos separated, if_neg Bool.false_ne_true, ih, spansFrom_consGap]
      cases begun <;> rfl
    | true =>
      have solid : ¬ separates (depthAfter depth c) c = true := by simpa [startsWord] using starts
      rw [if_neg solid, if_pos rfl, ih]
      cases inner : startsWord (depthAfter depth c) text with
      | false =>
        rw [Bool.not_false, words_consWord_true, spansFrom_cons, List.append_nil, ← size]
        cases begun <;> simp [goneOn, byteCount]
      | true =>
        obtain ⟨word, rest, words⟩ := exists_words_of_startsWord inner
        have onward : before ++ [c] ++ word = before ++ c :: word := by simp
        simp only [Bool.not_true, Row.consWord, words]
        rw [spansFrom_cons, spansFrom_cons, List.append_nil, List.append_nil, onward, ← byteCount_append, ← byteCount_append, onward]
        cases begun <;> rfl

/-- Keeping the spans that do not stand for comments cuts the text between characters. -/
theorem keptSpans?_eq (text before : Text) {words : List (Text × Text)} {trailing : Text}
    (whole : text = before ++ Row.text ⟨words, trailing⟩) :
    keptSpans? text (spansFrom before words) =
      some (((placedFrom before words).filter fun placed => !standsForComment placed.2).map spanOf) := by
  induction words generalizing before with
  | nil => rfl
  | cons first rest ih =>
    obtain ⟨gap, word⟩ := first
    obtain ⟨_, token, onward⟩ := slices_of_cons whole
    rw [spansFrom_cons, keptSpans?, token, ih _ onward, placedFrom]
    cases stands : standsForComment word with
    | true => simp [stands]
    | false => simp [stands, spanOf]

/-- The scan finds the spans of the words of a text. -/
theorem spans?_eq (text : Text) : spans? text = some (Row.ofText text).spans := by
  have stretches : stretchesFrom 0 0 none text = spansFrom [] (rowFrom 0 text).words := stretchesFrom_eq 0 [] none text
  rw [spans?, stretches, keptSpans?_eq text [] (text_eq_rowFrom text), spans_ofText]

/-! ## Exchanging words -/

/-- The gaps of a text from a byte on, with texts in the place of the spans between them. -/
def weave? (text : Text) (cursor : Nat) : List (Nat × Nat) → List Text → Option Text
  | span :: spans, value :: values => do
    let gap ← slice? text cursor span.1
    let rest ← weave? text span.2 spans values
    some (gap ++ value ++ rest)
  | _, _ => from? text cursor

/-- The text with other texts in the place of its spans. If they are not as many, they stand with single spaces between them where
the first to the last span stood. -/
def replaceSpans? (text : Text) (spans : List (Nat × Nat)) (values : List Text) : Option Text :=
  match spans.head?, spans.getLast? with
  | some first, some last =>
    if values.length = spans.length then weave? text 0 spans values
    else do
      let before ← until? text first.1
      let behind ← from? text last.2
      some (before ++ join [' '] values ++ behind)
  | _, _ => some text

/-- The bytes between spans, from a byte on to the end of the text. -/
def gapsFrom (cursor stop : Nat) : List (Nat × Nat) → List (Nat × Nat)
  | [] => [(cursor, stop)]
  | span :: spans => (cursor, span.1) :: gapsFrom span.2 stop spans

/-- Gaps and the texts between them by turns. -/
def interleave : List Text → List Text → Text
  | gap :: gaps, value :: values => gap ++ value ++ interleave gaps values
  | gaps, _ => gaps.flatten

theorem weave?_eq {text before : Text} {words : List (Text × Text)} {trailing : Text} {values : List Text}
    (whole : text = before ++ Row.text ⟨words, trailing⟩) (fits : values.length = words.length) :
    weave? text (byteCount before) (spansFrom before words) values =
      some (Row.text ⟨(words.map Prod.fst).zip values, trailing⟩) := by
  induction words generalizing before values with
  | nil =>
    obtain rfl := List.eq_nil_of_length_eq_zero fits
    rw [whole]
    exact from?_append before trailing
  | cons first rest ih =>
    obtain ⟨gap, word⟩ := first
    cases values with
    | nil => cases fits
    | cons value values =>
      obtain ⟨cut, _, behind⟩ := slices_of_cons whole
      have onward := ih behind (Nat.succ.inj fits)
      rw [byteCount_append] at onward
      rw [spansFrom_cons, weave?, cut, onward, List.map_cons, List.zip_cons_cons, Row.text_cons, ← List.append_assoc]
      rfl

/-- The slices between the spans are the gaps of the row. -/
theorem mapM_slice?_gapsFrom {text before : Text} {words : List (Text × Text)} {trailing : Text}
    (whole : text = before ++ Row.text ⟨words, trailing⟩) :
    (gapsFrom (byteCount before) (byteCount text) (spansFrom before words)).mapM (fun gap => slice? text gap.1 gap.2) =
      some (words.map Prod.fst ++ [trailing]) := by
  induction words generalizing before with
  | nil =>
    have cut := slice?_gap before trailing []
    rw [List.append_nil] at cut
    have own : text = before ++ trailing := whole
    change List.mapM _ [(byteCount before, byteCount text)] = _
    simp [own, cut]
  | cons first rest ih =>
    obtain ⟨gap, word⟩ := first
    obtain ⟨cut, _, behind⟩ := slices_of_cons whole
    have onward := ih behind
    rw [byteCount_append] at onward
    rw [spansFrom_cons, gapsFrom, List.mapM_cons, cut, onward]
    rfl

/-- The slices at the spans are the words of the row. -/
theorem mapM_slice?_spansFrom {text before : Text} {words : List (Text × Text)} {trailing : Text}
    (whole : text = before ++ Row.text ⟨words, trailing⟩) :
    (spansFrom before words).mapM (fun span => slice? text span.1 span.2) = some (words.map Prod.snd) := by
  induction words generalizing before with
  | nil => rfl
  | cons first rest ih =>
    obtain ⟨gap, word⟩ := first
    obtain ⟨_, cut, behind⟩ := slices_of_cons whole
    rw [spansFrom_cons, List.mapM_cons, cut, ih behind]
    rfl

theorem text_zip_eq_interleave {gaps values : List Text} (fits : values.length = gaps.length) (trailing : Text) :
    Row.text ⟨gaps.zip values, trailing⟩ = interleave (gaps ++ [trailing]) values := by
  induction gaps generalizing values with
  | nil =>
    obtain rfl := List.eq_nil_of_length_eq_zero fits
    simp [interleave, Row.text]
  | cons gap gaps ih =>
    cases values with
    | nil => cases fits
    | cons value values =>
      rw [List.zip_cons_cons, Row.text_cons, ih (Nat.succ.inj fits), List.cons_append, interleave, List.append_assoc]

theorem exists_last_spansFrom {text before : Text} {words : List (Text × Text)} {trailing : Text}
    (whole : text = before ++ Row.text ⟨words, trailing⟩) (nonempty : words ≠ []) :
    ∃ last, (spansFrom before words).getLast? = some last ∧ from? text last.2 = some trailing := by
  induction words generalizing before with
  | nil => exact absurd rfl nonempty
  | cons first rest ih =>
    obtain ⟨gap, word⟩ := first
    obtain ⟨_, _, behind⟩ := slices_of_cons whole
    rw [spansFrom_cons]
    cases rest with
    | nil =>
      refine ⟨_, rfl, ?_⟩
      rw [behind, ← byteCount_append]
      exact from?_append (before ++ gap ++ word) trailing
    | cons second rest =>
      obtain ⟨last, found, cut⟩ := ih behind (List.cons_ne_nil _ _)
      exact ⟨last, by rw [List.getLast?_cons, found, Option.getD_some], cut⟩

/-- Exchanging words by their spans comes to the same as exchanging them in the row. -/
theorem replaceSpans?_eq (row : Row) (values : List Text) :
    replaceSpans? row.text row.spans values = some (row.replaceWords values) := by
  obtain ⟨words, trailing⟩ := row
  cases words with
  | nil => rfl
  | cons first rest =>
    obtain ⟨gap, word⟩ := first
    have whole : Row.text ⟨(gap, word) :: rest, trailing⟩ = [] ++ Row.text ⟨(gap, word) :: rest, trailing⟩ := rfl
    obtain ⟨last, found, cut⟩ := exists_last_spansFrom whole (List.cons_ne_nil _ _)
    have size := length_spansFrom [] ((gap, word) :: rest)
    rw [replaceSpans?, Row.spans, found, size]
    by_cases fits : values.length = rest.length + 1
    · rw [Row.replaceWords_eq fits]
      exact (if_pos fits).trans (weave?_eq whole fits)
    · have before : until? (Row.text ⟨(gap, word) :: rest, trailing⟩) (byteCount gap) = some gap := by
        rw [Row.text_cons]
        exact until?_append _ _
      have joined : Row.replaceWords ⟨(gap, word) :: rest, trailing⟩ values = gap ++ join [' '] values ++ trailing := if_neg fits
      rw [joined]
      refine (if_neg fits).trans ?_
      change (until? _ (byteCount gap)).bind _ = _
      rw [before, cut]
      rfl

/-! ## Tokens -/

/-- A character is a blank outside parentheses, which are counted in all that stands before it. -/
def Parts (before : Text) (c : Char) : Prop := isBlank c = true ∧ depthFrom 0 before = 0

/-- A stretch of a text that holds no blank outside parentheses and stands between such blanks or the ends of the text. -/
structure IsToken (before token behind : Text) : Prop where
  nonempty : token ≠ []
  solid : ∀ front c rest, token = front ++ c :: rest → ¬ Parts (before ++ front) c
  starts : before = [] ∨ ∃ front c, before = front ++ [c] ∧ Parts front c
  ends : behind = [] ∨ ∃ c rest, behind = c :: rest ∧ Parts (before ++ token) c

/-- A character of two texts stands in the one or the other. -/
theorem char_of_append {left right before behind : Text} {c : Char} (whole : left ++ right = before ++ c :: behind) :
    (∃ rest, left = before ++ c :: rest) ∨ ∃ inner, before = left ++ inner ∧ right = inner ++ c :: behind := by
  rcases List.append_eq_append_iff.mp whole with ⟨inner, split, rest⟩ | ⟨inner, split, rest⟩
  · exact .inr ⟨inner, split, rest⟩
  · cases inner with
    | nil => exact .inr ⟨[], by simpa using split.symm, by simpa using rest.symm⟩
    | cons d inner =>
      obtain ⟨rfl, _⟩ := List.cons.inj rest
      exact .inl ⟨inner, split⟩

theorem parts_of_blanks {front gap before rest : Text} {c : Char} (closed : depthFrom 0 front = 0)
    (blanks : ∀ c ∈ gap, isBlank c = true) (split : gap = before ++ c :: rest) : Parts (front ++ before) c := by
  subst split
  refine ⟨blanks c (by simp), ?_⟩
  rw [depthFrom_append, closed, depthFrom_of_blanks fun d member => blanks d (List.mem_append_left _ member)]

theorem IsWord.solid {before word front rest : Text} {c : Char} (isWord : IsWord 0 word) (closed : depthFrom 0 before = 0)
    (split : word = front ++ c :: rest) : ¬ Parts (before ++ front) c := by
  rintro ⟨blank, level⟩
  rw [depthFrom_append, closed] at level
  have pieces := isWord.2
  rw [split, @piecesOutside_append isBlank (fun c blank => depthAfter_of_isBlank blank 0) c blank 0 front level] at pieces
  have more := congrArg List.length pieces
  have := List.length_pos_of_ne_nil (piecesOutside_ne_nil isBlank 0 front)
  have := List.length_pos_of_ne_nil (piecesOutside_ne_nil isBlank 0 rest)
  rw [List.length_append, List.length_singleton] at more
  omega

/-- The words of a row that is laid out are tokens of its text. -/
theorem isToken_of_mem_placedFrom {front : Text} {words : List (Text × Text)} {trailing : Text} (laid : Laid 0 words trailing)
    (closed : depthFrom 0 front = 0) (parted : front = [] ∨ gapBehind words trailing ≠ []) {placed : Text × Text}
    (member : placed ∈ placedFrom front words) :
    ∃ behind, front ++ Row.text ⟨words, trailing⟩ = placed.1 ++ (placed.2 ++ behind) ∧ IsToken placed.1 placed.2 behind := by
  induction words generalizing front with
  | nil => cases member
  | cons first rest ih =>
    obtain ⟨gap, word⟩ := first
    obtain ⟨blanks, isWord, ends, others⟩ := laid
    have level : depthFrom 0 (front ++ gap) = 0 := by rw [depthFrom_append, closed, depthFrom_of_blanks blanks]
    rw [Row.text_cons, ← List.append_assoc]
    rcases List.mem_cons.mp member with rfl | later
    · refine ⟨_, rfl, isWord.1, fun _ _ _ split => isWord.solid level split, ?_, ?_⟩
      · rcases List.eq_nil_or_concat gap with rfl | ⟨init, c, rfl⟩
        · exact .inl (by simpa [gapBehind] using parted)
        · exact .inr ⟨front ++ init, c, by simp, parts_of_blanks closed blanks List.concat_eq_append⟩
      · rcases ends with ⟨shut, apart⟩ | ⟨rfl, rfl⟩
        · obtain ⟨c, text, same, blank⟩ := others.exists_blank apart
          exact .inr ⟨c, text, same, blank, by rw [depthFrom_append, level, shut]⟩
        · exact .inl rfl
    · rcases ends with ⟨shut, apart⟩ | ⟨rfl, rfl⟩
      · rw [← List.append_assoc]
        exact ih others (by rw [depthFrom_append, level, shut]) (.inr apart) later
      · cases later

/-- A character of a text is a blank outside parentheses or stands in a word. -/
theorem parts_or_mem_placedFrom {before behind : Text} {c : Char} {words : List (Text × Text)} {trailing : Text}
    (laid : Laid 0 words trailing) (front : Text) (closed : depthFrom 0 front = 0)
    (whole : Row.text ⟨words, trailing⟩ = before ++ c :: behind) :
    Parts (front ++ before) c ∨
      ∃ placed ∈ placedFrom front words, ∃ inner rest, placed.2 = inner ++ c :: rest ∧ front ++ before = placed.1 ++ inner := by
  induction words generalizing front before with
  | nil => exact .inl (parts_of_blanks closed laid whole)
  | cons first rest ih =>
    obtain ⟨gap, word⟩ := first
    obtain ⟨blanks, isWord, ends, others⟩ := laid
    have level : depthFrom 0 (front ++ gap) = 0 := by rw [depthFrom_append, closed, depthFrom_of_blanks blanks]
    rw [Row.text_cons] at whole
    rcases char_of_append whole with ⟨_, inGap⟩ | ⟨inner, rfl, onward⟩
    · exact .inl (parts_of_blanks closed blanks inGap)
    · rcases char_of_append onward with ⟨following, inWord⟩ | ⟨later, rfl, behindWord⟩
      · exact .inr ⟨_, List.mem_cons_self, inner, following, inWord, (List.append_assoc _ _ _).symm⟩
      · rcases ends with ⟨shut, _⟩ | ⟨rfl, rfl⟩
        · have found := ih others (front ++ gap ++ word) (by rw [depthFrom_append, level, shut]) behindWord
          simp only [List.append_assoc] at found
          rcases found with parts | ⟨placed, member, place⟩
          · exact .inl parts
          · exact .inr ⟨placed, List.mem_cons_of_mem _ (by simpa only [List.append_assoc] using member), place⟩
        · simp [Row.text] at behindWord

/-! ## Spans -/

/-- Whether a byte stands in one of the spans. -/
def Covered (spans : List (Nat × Nat)) (place : Nat) : Prop := ∃ span ∈ spans, span.1 ≤ place ∧ place < span.2

/-- How the spans of its words lie in a text. -/
structure Spans (text : Text) (spans : List (Nat × Nat)) : Prop where
  /-- They follow each other, and something stands between any two of them. -/
  apart : spans.Pairwise fun earlier later => earlier.2 < later.1
  nonempty : ∀ span ∈ spans, span.1 < span.2
  /-- A character starts where a span starts and where it ends, or the text ends there. -/
  cut : ∀ span ∈ spans, (from? text span.1).isSome ∧ (from? text span.2).isSome
  /-- No character of a span is a blank outside parentheses. -/
  inside : ∀ before c behind, text = before ++ c :: behind → Covered spans (byteCount before) → ¬ Parts before c
  /-- All other characters are blanks outside parentheses or stand in tokens that start and end with the marks of a placeholder. -/
  outside : ∀ before c behind, text = before ++ c :: behind → ¬ Covered spans (byteCount before) →
    Parts before c ∨
      ∃ front token rest, text = front ++ (token ++ rest) ∧ IsToken front token rest ∧
        token.head? = some placeholderOpen ∧ token.getLast? = some placeholderClose ∧
        byteCount front ≤ byteCount before ∧ byteCount before < byteCount front + byteCount token

theorem lt_of_mem_spansFrom {before : Text} {words : List (Text × Text)} (parted : ∀ pair ∈ words, pair.1 ≠ [])
    {span : Nat × Nat} (member : span ∈ spansFrom before words) : byteCount before < span.1 := by
  induction words generalizing before with
  | nil => cases member
  | cons first rest ih =>
    obtain ⟨gap, word⟩ := first
    obtain ⟨own, others⟩ := List.forall_mem_cons.mp parted
    have size := byteCount_pos own
    rw [spansFrom_cons, byteCount_append] at member
    rcases List.mem_cons.mp member with rfl | later
    · exact Nat.lt_add_of_pos_right size
    · have := ih others later
      rw [byteCount_append, byteCount_append] at this
      omega

theorem pairwise_spansFrom {before : Text} {words : List (Text × Text)} (parted : ∀ pair ∈ words.tail, pair.1 ≠ []) :
    (spansFrom before words).Pairwise fun earlier later => earlier.2 < later.1 := by
  induction words generalizing before with
  | nil => exact List.Pairwise.nil
  | cons first rest ih =>
    obtain ⟨gap, word⟩ := first
    rw [spansFrom_cons, List.pairwise_cons]
    refine ⟨fun span member => ?_, ih fun pair member => parted pair (List.mem_of_mem_tail member)⟩
    have := lt_of_mem_spansFrom parted member
    rwa [byteCount_append] at this

/-- A place in a token by bytes is one by characters. -/
theorem exists_inner_of_bytes {front token rest before behind : Text} {c : Char}
    (whole : front ++ (token ++ rest) = before ++ c :: behind) (start : byteCount front ≤ byteCount before)
    (stop : byteCount before < byteCount front + byteCount token) :
    ∃ inner following, before = front ++ inner ∧ token = inner ++ c :: following := by
  rcases char_of_append whole with ⟨following, rfl⟩ | ⟨inner, rfl, onward⟩
  · rw [byteCount_append, byteCount] at start
    have := c.utf8Size_pos
    omega
  · rcases char_of_append onward with ⟨following, inToken⟩ | ⟨more, rfl, _⟩
    · exact ⟨inner, following, rfl, inToken⟩
    · rw [byteCount_append, byteCount_append] at stop
      omega

theorem exists_token {text : Text} {placed : Text × Text} (member : placed ∈ placedFrom [] (rowFrom 0 text).words) :
    ∃ behind, text = placed.1 ++ (placed.2 ++ behind) ∧ IsToken placed.1 placed.2 behind := by
  obtain ⟨behind, split, isToken⟩ := isToken_of_mem_placedFrom (laid_rowFrom 0 text) rfl (.inl rfl) member
  exact ⟨behind, (text_eq_rowFrom text).trans split, isToken⟩

theorem exists_token_of_mem_spans {text : Text} {span : Nat × Nat} (member : span ∈ (Row.ofText text).spans) :
    ∃ before token behind, text = before ++ (token ++ behind) ∧ IsToken before token behind ∧
      span = (byteCount before, byteCount before + byteCount token) := by
  rw [spans_ofText] at member
  obtain ⟨placed, found, rfl⟩ := List.mem_map.mp member
  obtain ⟨behind, split, isToken⟩ := exists_token (List.mem_of_mem_filter found)
  exact ⟨placed.1, placed.2, behind, split, isToken, rfl⟩

/-- The spans of the words of a text lie in it as they should. -/
theorem spans_tile (text : Text) : Spans text (Row.ofText text).spans := by
  constructor
  · rw [spans_ofText]
    exact (pairwise_spansFrom (laid_rowFrom 0 text).gaps.2.1).sublist (List.filter_sublist.map spanOf)
  · intro span member
    obtain ⟨before, token, behind, _, isToken, rfl⟩ := exists_token_of_mem_spans member
    exact Nat.lt_add_of_pos_right (byteCount_pos isToken.nonempty)
  · intro span member
    obtain ⟨before, token, behind, split, _, rfl⟩ := exists_token_of_mem_spans member
    have start := from?_append before (token ++ behind)
    have stop := from?_append (before ++ token) behind
    rw [← split] at start
    rw [List.append_assoc, ← split, byteCount_append] at stop
    exact ⟨Option.isSome_of_eq_some start, Option.isSome_of_eq_some stop⟩
  · rintro before c behind split ⟨span, member, low, high⟩
    obtain ⟨front, token, rest, found, isToken, rfl⟩ := exists_token_of_mem_spans member
    obtain ⟨inner, following, rfl, inToken⟩ := exists_inner_of_bytes (found.symm.trans split) low high
    exact isToken.solid inner c following inToken
  · intro before c behind split uncovered
    rcases parts_or_mem_placedFrom (laid_rowFrom 0 text) [] rfl ((text_eq_rowFrom text).symm.trans split) with parts | found
    · exact .inl parts
    · obtain ⟨placed, member, inner, rest, inWord, place⟩ := found
      obtain ⟨following, around, isToken⟩ := exists_token member
      have size : byteCount before = byteCount placed.1 + byteCount inner := by
        rw [← byteCount_append, ← place]
        rfl
      have width : byteCount placed.2 = byteCount inner + (c.utf8Size + byteCount rest) := by
        rw [inWord, byteCount_append, byteCount]
      have low : byteCount placed.1 ≤ byteCount before := by omega
      have high : byteCount before < byteCount placed.1 + byteCount placed.2 := by
        have := c.utf8Size_pos
        omega
      cases stands : standsForComment placed.2 with
      | false =>
        refine absurd ⟨spanOf placed, ?_, low, high⟩ uncovered
        rw [spans_ofText]
        exact List.mem_map_of_mem (List.mem_filter.mpr ⟨member, by simp [stands]⟩)
      | true =>
        rw [standsForComment, Bool.and_eq_true, beq_iff_eq, beq_iff_eq] at stands
        exact .inr ⟨placed.1, placed.2, following, around, isToken, stands.1, stands.2, low, high⟩

/-- A scan of the bytes of a text finds the spans of its words, which lie in the text as they should, and other words take their
places by cutting the text at the spans; no cut goes through a character. The words that stand there already give the text back,
and as many others come to stand between its gaps by turns. -/
theorem spans_of_text (text : Text) :
    spans? text = some (Row.ofText text).spans ∧
      Spans text (Row.ofText text).spans ∧
      (∀ values, replaceSpans? text (Row.ofText text).spans values = some ((Row.ofText text).replaceWords values)) ∧
      (Row.ofText text).spans.mapM (fun span => slice? text span.1 span.2) = some (Row.ofText text).texts ∧
      (Row.ofText text).replaceWords (Row.ofText text).texts = text ∧
      ∃ gaps, (gapsFrom 0 (byteCount text) (Row.ofText text).spans).mapM (fun gap => slice? text gap.1 gap.2) = some gaps ∧
        ∀ values : List Text, values.length = (Row.ofText text).spans.length →
          (Row.ofText text).replaceWords values = interleave gaps values := by
  have whole : text = [] ++ Row.text ⟨(Row.ofText text).words, (Row.ofText text).trailing⟩ := (Row.text_ofText text).symm
  have count : (Row.ofText text).spans.length = (Row.ofText text).words.length := length_spansFrom _ _
  refine ⟨spans?_eq text, spans_tile text, fun values => ?_, mapM_slice?_spansFrom whole, ?_, _, mapM_slice?_gapsFrom whole, ?_⟩
  · have replaced := replaceSpans?_eq (Row.ofText text) values
    rwa [Row.text_ofText] at replaced
  · have same : ((Row.ofText text).words.map Prod.fst).zip (Row.ofText text).texts = (Row.ofText text).words := by
      rw [Row.texts, List.zip_map', List.map_id']
    rw [Row.replaceWords_eq (by rw [Row.texts, List.length_map]), same]
    exact Row.text_ofText text
  · intro values fits
    rw [count] at fits
    rw [Row.replaceWords_eq fits, text_zip_eq_interleave (by rw [fits, List.length_map])]

example : spans? "\u3000é calc( 1 + 2 ) a) b".toList = some [(3, 5), (6, 19), (20, 22), (23, 24)] := by decide

end StyleFlip.Standard
