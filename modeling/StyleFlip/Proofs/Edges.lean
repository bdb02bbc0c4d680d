import StyleFlip.Proofs.Corners

/-!
Four values for the edges of a box. A row can be read back from its text as soon as its words are laid out with blanks
between them (`Laid.rowFrom_text`). So other words that close their parentheses may take the places of the words of a value,
and the row of the new text has the same gaps with the new words in them (`ofText_replaceWords`). To mirror the edges the
second and the fourth value change places, which is all that happens, and doing it twice undoes it (`flipEdges_exchanges`).
-/
namespace StyleFlip

namespace Standard

/-! ## Reading a row back -/

/-- A word that goes on behind its first character. -/
theorem IsWord.tail {depth : Nat} {c : Char} {word : Text} (isWord : IsWord depth (c :: word)) (more : word ≠ []) :
    IsWord (depthAfter depth c) word := by
  have single := isWord.2
  rw [piecesOutside] at single
  split at single
  · cases single
  · obtain ⟨piece, pieces, same⟩ := List.exists_cons_of_ne_nil (piecesOutside_ne_nil Text.isBlank (depthAfter depth c) word)
    rw [same] at single
    obtain ⟨first, rfl⟩ := List.cons_eq_cons.mp single
    obtain rfl := (List.cons_eq_cons.mp first).2
    exact ⟨more, same⟩

theorem IsWord.startsWord_append {depth : Nat} {word : Text} (isWord : IsWord depth word) (rest : Text) :
    startsWord depth (word ++ rest) = true := by
  obtain ⟨c, more, rfl⟩ := List.exists_cons_of_ne_nil isWord.1
  have single := isWord.2
  rw [piecesOutside, ← separates_eq] at single
  split at single
  · cases single
  · rename_i whole
    simpa [startsWord] using whole

theorem rowFrom_blanks_append {gap : Text} (blanks : ∀ c ∈ gap, Text.isBlank c = true) (text : Text) :
    rowFrom 0 (gap ++ text) = gap.foldr Row.consGap (rowFrom 0 text) := by
  induction gap with
  | nil => rfl
  | cons c gap ih =>
    obtain ⟨blank, others⟩ := List.forall_mem_cons.mp blanks
    have separated : startsWord 0 (c :: (gap ++ text)) = false := by simp [startsWord, separates_eq, blank]
    rw [List.cons_append, rowFrom_cons, separated, depthAfter_of_isBlank blank, ih others]
    rfl

/-- A word in front of a text in which no word goes on. -/
theorem IsWord.rowFrom_append {depth : Nat} {word : Text} (isWord : IsWord depth word) {rest : Text}
    (ends : startsWord (depthFrom depth word) rest = false) :
    rowFrom depth (word ++ rest) =
      ⟨([], word) :: (rowFrom (depthFrom depth word) rest).words, (rowFrom (depthFrom depth word) rest).trailing⟩ := by
  induction word generalizing depth with
  | nil => exact absurd rfl isWord.1
  | cons c word ih =>
    rw [List.cons_append, rowFrom_cons, ← List.cons_append, isWord.startsWord_append rest, if_pos rfl]
    cases word with
    | nil =>
      rw [List.nil_append, show startsWord (depthAfter depth c) rest = false from ends]
      rfl
    | cons d more =>
      have onward := isWord.tail (List.cons_ne_nil _ _)
      rw [onward.startsWord_append rest, ih onward ends]
      rfl

theorem consGaps_words (gap word : Text) (rest : List (Text × Text)) (trailing : Text) :
    gap.foldr Row.consGap ⟨([], word) :: rest, trailing⟩ = ⟨(gap, word) :: rest, trailing⟩ := by
  induction gap with
  | nil => rfl
  | cons c gap ih =>
    rw [List.foldr_cons, ih]
    rfl

theorem consGaps_trailing (gap : Text) : gap.foldr Row.consGap ⟨[], []⟩ = ⟨[], gap⟩ := by
  induction gap with
  | nil => rfl
  | cons c gap ih =>
    rw [List.foldr_cons, ih]
    rfl

/-- A row that is laid out with blanks between its words is read back from its text. -/
theorem Laid.rowFrom_text {words : List (Text × Text)} {trailing : Text} (laid : Laid 0 words trailing) :
    rowFrom 0 (Row.text ⟨words, trailing⟩) = ⟨words, trailing⟩ := by
  induction words with
  | nil =>
    have whole := rowFrom_blanks_append laid []
    rw [List.append_nil] at whole
    exact whole.trans (consGaps_trailing trailing)
  | cons first rest ih =>
    obtain ⟨gap, word⟩ := first
    obtain ⟨blanks, isWord, ends, others⟩ := laid
    have tail := ih others
    rw [Row.text_cons, rowFrom_blanks_append blanks]
    rcases ends with ⟨closed, parted⟩ | ⟨rfl, rfl⟩
    · obtain ⟨c, text, same, blank⟩ := others.exists_blank parted
      have stops : startsWord (depthFrom 0 word) (Row.text ⟨rest, trailing⟩) = false := by
        rw [closed, same]
        simp [startsWord, separates_eq, blank]
      rw [isWord.rowFrom_append stops, closed, tail, consGaps_words]
    · rw [isWord.rowFrom_append rfl, consGaps_words]
      rfl

/-! ## Other words in a row -/

def Row.gaps (row : Row) : List Text := row.words.map Prod.fst ++ [row.trailing]

/-- The row with other words in its places. -/
def Row.withTexts (row : Row) (words : List Text) : Row := { row with words := (row.words.map Prod.fst).zip words }

theorem Row.texts_withTexts {row : Row} {words : List Text} (fits : words.length = row.words.length) :
    (row.withTexts words).texts = words :=
  List.map_snd_zip (by simp [fits])

theorem Row.gaps_withTexts {row : Row} {words : List Text} (fits : words.length = row.words.length) :
    (row.withTexts words).gaps = row.gaps := by
  rw [gaps, withTexts, List.map_fst_zip (by simp [fits])]
  rfl

theorem Row.withTexts_withTexts {row : Row} {words : List Text} (fits : words.length = row.words.length)
    (others : List Text) : (row.withTexts words).withTexts others = row.withTexts others := by
  simp only [withTexts]
  rw [List.map_fst_zip (by simp [fits])]

theorem Row.withTexts_texts (row : Row) : row.withTexts row.texts = row :=
  congrArg (fun words => Row.mk words row.trailing) (List.zip_of_prod rfl rfl).symm

/-- Other words in the places of those that stand for no comment. -/
def refill : List (Text × Text) → List Text → List (Text × Text)
  | (gap, old) :: rest, word :: words =>
    if standsForComment old then (gap, old) :: refill rest (word :: words) else (gap, word) :: refill rest words
  | row, _ => row

theorem refill_nil (row : List (Text × Text)) : refill row [] = row := by
  cases row <;> rfl

theorem texts_absorb (carried : Text) (words : List (Text × Text)) (trailing : Text) :
    (absorb carried words trailing).texts = (words.map Prod.snd).filter fun word => !standsForComment word := by
  induction words generalizing carried with
  | nil => rfl
  | cons first rest ih =>
    obtain ⟨gap, word⟩ := first
    rw [absorb]
    split
    · rename_i stands
      simp [ih, stands]
    · rename_i plain
      have others := ih []
      rw [Row.texts] at others
      simp [Row.texts, plain, others]

/-- The words of a text are its values but for those that stand for comments. -/
theorem texts_ofText (text : Text) :
    (Row.ofText text).texts = (values text).filter fun word => !standsForComment word := by
  rw [Row.ofText, texts_absorb, values_eq_texts]
  rfl

/-- Words in the places of words, none of which stands for a comment: what is moved into the gaps stays the same. -/
theorem absorb_refill (carried : Text) {row : List (Text × Text)} {words : List Text} (trailing : Text)
    (fits : words.length = (absorb carried row trailing).words.length)
    (plain : ∀ word ∈ words, standsForComment word = false) :
    absorb carried (refill row words) trailing = (absorb carried row trailing).withTexts words := by
  induction row generalizing carried words with
  | nil => rfl
  | cons first rest ih =>
    obtain ⟨gap, old⟩ := first
    cases words with
    | nil =>
      have none := List.length_eq_zero_iff.mp fits.symm
      rw [refill_nil, Row.withTexts, List.zip_nil_right, ← none]
    | cons word words =>
      rw [absorb] at fits ⊢
      rw [refill]
      split
      · rename_i stands
        rw [if_pos stands] at fits
        rw [absorb, if_pos stands, ih _ fits plain]
      · rename_i other
        rw [if_neg other] at fits
        obtain ⟨own, later⟩ := List.forall_mem_cons.mp plain
        have tail := ih [] (Nat.succ.inj fits) later
        simp only [absorb, own, Bool.false_eq_true, if_false, tail]
        rfl

theorem gapBehind_refill (row : List (Text × Text)) (words : List Text) (trailing : Text) :
    gapBehind (refill row words) trailing = gapBehind row trailing := by
  cases row with
  | nil => rfl
  | cons first rest =>
    cases words with
    | nil => rfl
    | cons word words =>
      rw [refill]
      split <;> rfl

theorem Laid.refill {row : List (Text × Text)} {trailing : Text} (laid : Laid 0 row trailing) {words : List Text}
    (proper : ∀ word ∈ words, IsWord 0 word ∧ depthFrom 0 word = 0) : Laid 0 (refill row words) trailing := by
  induction row generalizing words with
  | nil => exact laid
  | cons first rest ih =>
    obtain ⟨gap, old⟩ := first
    obtain ⟨blanks, isWord, ends, others⟩ := laid
    cases words with
    | nil => exact ⟨blanks, isWord, ends, others⟩
    | cons word words =>
      obtain ⟨own, later⟩ := List.forall_mem_cons.mp proper
      rw [Standard.refill]
      split
      · refine ⟨blanks, isWord, ?_, ih others proper⟩
        rw [gapBehind_refill]
        exact ends.imp_right fun none => ⟨by rw [none.1]; rfl, none.2⟩
      · refine ⟨blanks, own.1, ?_, ih others later⟩
        rw [gapBehind_refill]
        exact ends.imp (fun parted => ⟨own.2, parted.2⟩) fun none => ⟨by rw [none.1]; rfl, none.2⟩

/-- Only the last word of a row may leave parentheses open. -/
theorem Laid.closed_of_mem_dropLast {words : List (Text × Text)} {trailing : Text} (laid : Laid 0 words trailing) :
    ∀ word ∈ (words.map Prod.snd).dropLast, depthFrom 0 word = 0 := by
  induction words with
  | nil => exact List.forall_mem_nil _
  | cons first rest ih =>
    obtain ⟨gap, word⟩ := first
    obtain ⟨_, _, ends, others⟩ := laid
    refine forall_mem_dropLast_cons (fun more => ?_) (ih others)
    exact ends.elim And.left fun none => absurd (by rw [none.1]; rfl) more

/-- Words of a text that close their parentheses, in other places of it. -/
structure Movable (text : Text) (words : List Text) : Prop where
  fits : words.length = (Row.ofText text).words.length
  known : words ⊆ (Row.ofText text).texts
  closed : ∀ word ∈ words, depthFrom 0 word = 0

section
variable {text : Text} {words : List Text} (movable : Movable text words)
include movable

theorem Movable.plain : ∀ word ∈ words, standsForComment word = false := by
  intro word member
  have listed := movable.known member
  rw [texts_ofText, List.mem_filter] at listed
  simpa using listed.2

/-- A text with its words in other places, as a row. -/
theorem Movable.rowFrom_replaceWords :
    rowFrom 0 ((Row.ofText text).replaceWords words) = ⟨refill (rowFrom 0 text).words words, (rowFrom 0 text).trailing⟩ := by
  have laid := laid_rowFrom 0 text
  have refilled : Laid 0 (refill (rowFrom 0 text).words words) (rowFrom 0 text).trailing := by
    refine laid.refill fun word member => ⟨?_, movable.closed word member⟩
    have listed := movable.known member
    rw [texts_ofText, List.mem_filter, values_eq_texts] at listed
    obtain ⟨pair, inside, rfl⟩ := List.mem_map.mp listed.1
    exact laid.isWord pair inside
  have same : (Row.ofText text).replaceWords words =
      Row.text ⟨refill (rowFrom 0 text).words words, (rowFrom 0 text).trailing⟩ := by
    have absorbed := absorb_refill [] (rowFrom 0 text).trailing movable.fits movable.plain
    rw [Row.replaceWords_eq movable.fits]
    exact (congrArg Row.text absorbed.symm).trans (text_absorb [] _ _)
  rw [same, refilled.rowFrom_text]

/-- The row of a text with its words in other places is the row of the text with these words. -/
theorem Movable.ofText_replaceWords :
    Row.ofText ((Row.ofText text).replaceWords words) = (Row.ofText text).withTexts words := by
  rw [Row.ofText, movable.rowFrom_replaceWords]
  exact absorb_refill [] _ movable.fits movable.plain

end

/-! ## Edges -/

theorem flipEdges_of_four {value top right bottom left : Text}
    (four : (Row.ofText value).texts = [top, right, bottom, left]) :
    flipEdges value = (Row.ofText value).replaceWords [top, left, bottom, right] := by
  simp only [flipEdges, four]

theorem flipEdges_of_length_ne {value : Text} (other : (Row.ofText value).texts.length ≠ 4) : flipEdges value = value := by
  unfold flipEdges
  dsimp only
  split
  · rename_i four
    exact absurd (congrArg List.length four) other
  · rfl

/-- The values before the last one close their parentheses. -/
theorem movable_of_four {value top right bottom left : Text}
    (four : (Row.ofText value).texts = [top, right, bottom, left]) (closed : depthFrom 0 left = 0) :
    Movable value [top, left, bottom, right] := by
  have listed : (Row.ofText value).texts.length = (Row.ofText value).words.length := List.length_map _
  have early : ∀ word ∈ [top, right, bottom], depthFrom 0 word = 0 := by
    have inner := (laid_rowFrom 0 value).closed_of_mem_dropLast
    have kept : [top, right, bottom, left].Sublist ((rowFrom 0 value).words.map Prod.snd) := by
      rw [← four, texts_ofText, values_eq_texts]
      exact List.filter_sublist
    have shorter := kept.reverse.tail
    rw [List.tail_reverse, List.tail_reverse, List.reverse_sublist] at shorter
    exact fun word member => inner word (shorter.subset member)
  refine ⟨by rw [← listed, four]; rfl, by simp [four], ?_⟩
  simp only [List.forall_mem_cons] at early ⊢
  exact ⟨early.1, closed, early.2.2.1, early.2.1, List.forall_mem_nil _⟩

theorem byteCount_withTexts {row : Row} {top right bottom left : Text} (four : row.texts = [top, right, bottom, left]) :
    Text.byteCount (row.withTexts [top, left, bottom, right]).text = Text.byteCount row.text := by
  obtain ⟨words, trailing⟩ := row
  obtain ⟨⟨_, _⟩, words, rfl, rfl, three⟩ := List.map_eq_cons_iff.mp four
  obtain ⟨⟨_, _⟩, words, rfl, rfl, two⟩ := List.map_eq_cons_iff.mp three
  obtain ⟨⟨_, _⟩, words, rfl, rfl, one⟩ := List.map_eq_cons_iff.mp two
  obtain ⟨⟨_, _⟩, words, rfl, rfl, none⟩ := List.map_eq_cons_iff.mp one
  obtain rfl := List.map_eq_nil_iff.mp none
  simp only [Row.withTexts, Row.text, List.map_cons, List.map_nil, List.zip_cons_cons, List.zip_nil_right,
    List.flatMap_cons, List.flatMap_nil, Text.byteCount_append]
  omega

/-- A value is a row of words, the pieces between blanks outside parentheses that stand for no comment. If these are not
four, flipping the edges keeps the value. If they are four, the second and the fourth change places and everything around
the words stays, so the value keeps its size in bytes. If moreover the fourth word closes its parentheses, the four are
found again in the result, and flipping once more gives the value back. -/
theorem flipEdges_exchanges (value : Text) :
    let row := Row.ofText value
    row.text = value ∧ row.texts = ((values value).filter fun word => !standsForComment word) ∧
      (row.texts.length ≠ 4 → flipEdges value = value) ∧
      ∀ top right bottom left, row.texts = [top, right, bottom, left] →
        ∃ turned : Row, flipEdges value = turned.text ∧ turned.gaps = row.gaps ∧
          turned.texts = [top, left, bottom, right] ∧ Text.byteCount (flipEdges value) = Text.byteCount value ∧
          (depthFrom 0 left = 0 → Row.ofText (flipEdges value) = turned ∧ flipEdges (flipEdges value) = value) := by
  intro row
  refine ⟨Row.text_ofText value, texts_ofText value, flipEdges_of_length_ne, fun top right bottom left four => ?_⟩
  have fits : [top, left, bottom, right].length = row.words.length := by
    rw [← show row.texts.length = row.words.length from List.length_map _, four]
    rfl
  have written : flipEdges value = (row.withTexts [top, left, bottom, right]).text :=
    (flipEdges_of_four four).trans (Row.replaceWords_eq fits)
  refine ⟨row.withTexts [top, left, bottom, right], written, Row.gaps_withTexts fits, Row.texts_withTexts fits, ?_, ?_⟩
  · rw [written, byteCount_withTexts four, Row.text_ofText]
  · intro closed
    have again : Row.ofText (flipEdges value) = row.withTexts [top, left, bottom, right] := by
      rw [flipEdges_of_four four]
      exact (movable_of_four four closed).ofText_replaceWords
    have turned : (Row.ofText (flipEdges value)).texts = [top, left, bottom, right] := by
      rw [again, Row.texts_withTexts fits]
    refine ⟨again, ?_⟩
    calc flipEdges (flipEdges value)
        = ((row.withTexts [top, left, bottom, right]).withTexts row.texts).text := by
          rw [flipEdges_of_four turned, again, four]
          refine Row.replaceWords_eq ?_
          rw [← show (row.withTexts [top, left, bottom, right]).texts.length = _ from List.length_map _,
            Row.texts_withTexts fits]
          rfl
      _ = value := by rw [Row.withTexts_withTexts fits, Row.withTexts_texts, Row.text_ofText]

/-- A sum as the second value, and the placeholder of a comment between the values. -/
theorem flipEdges_exchanges_sum :
    let value := " 1px calc(2px + 3px)  \ue0000\ue001 4px\t5px ".toList
    (Row.ofText value).texts = ["1px".toList, "calc(2px + 3px)".toList, "4px".toList, "5px".toList] ∧
      depthFrom 0 "5px".toList = 0 ∧ flipEdges value = " 1px 5px  \ue0000\ue001 4px\tcalc(2px + 3px) ".toList ∧
      flipEdges (flipEdges value) = value := by
  intro value
  have four : (Row.ofText value).texts = ["1px".toList, "calc(2px + 3px)".toList, "4px".toList, "5px".toList] := by
    decide +kernel
  obtain ⟨_, _, _, exchanges⟩ := flipEdges_exchanges value
  obtain ⟨_, _, _, _, _, restores⟩ := exchanges _ _ _ _ four
  have closed : depthFrom 0 "5px".toList = 0 := by decide
  exact ⟨four, closed, by decide +kernel, (restores closed).2⟩

end Standard
end StyleFlip
