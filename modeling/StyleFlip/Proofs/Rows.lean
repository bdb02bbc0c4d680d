import StyleFlip.Standard.Row
import Mathlib.Data.List.Basic
import Mathlib.Tactic.Common

/-!
Rows of words against the text that they are read from. The pieces of a text outside parentheses are said once
(`piecesOutside`), and all about them follows from how they split at a cut (`piecesOutside_append`). A row that is read from
a text gives the text back (`Row.text_ofText`), and its words are laid out with blanks between them (`Laid`,
`laid_rowFrom`), so they are the values of its text (`Laid.values_text`).
-/
namespace StyleFlip

theorem Text.join_cons_cons (separator : Char) (first second : Text) (rest : List Text) :
    join [separator] (first :: second :: rest) = first ++ separator :: join [separator] (second :: rest) := by
  simp [join, List.intercalate]

namespace Standard

/-! ## Pieces outside parentheses -/

/-- The depth of parentheses behind a text. -/
def depthFrom (depth : Nat) (text : Text) : Nat := text.foldl depthAfter depth

theorem depthFrom_append (depth : Nat) (text rest : Text) :
    depthFrom depth (text ++ rest) = depthFrom (depthFrom depth text) rest :=
  List.foldl_append

theorem depthAfter_of_isBlank {c : Char} (blank : Text.isBlank c = true) (depth : Nat) : depthAfter depth c = depth := by
  unfold depthAfter
  split
  · rename_i opens
    subst opens
    exact absurd blank (by decide)
  · split
    · rename_i closes
      subst closes
      exact absurd blank (by decide)
    · rfl

theorem depthFrom_of_blanks {gap : Text} (blanks : ∀ c ∈ gap, Text.isBlank c = true) (depth : Nat) :
    depthFrom depth gap = depth := by
  induction gap with
  | nil => rfl
  | cons c gap ih =>
    obtain ⟨blank, others⟩ := List.forall_mem_cons.mp blanks
    rw [depthFrom, List.foldl_cons, depthAfter_of_isBlank blank]
    exact ih others

/-- The pieces of a text between the characters that `cuts` picks outside parentheses. -/
def piecesOutside (cuts : Char → Bool) (depth : Nat) : Text → List Text
  | [] => [[]]
  | c :: rest =>
    if cuts c && depth == 0 then [] :: piecesOutside cuts 0 rest
    else (piecesOutside cuts (depthAfter depth c) rest).modifyHead (c :: ·)

section
variable {cuts : Char → Bool}

theorem piecesOutside_ne_nil (cuts : Char → Bool) (depth : Nat) (text : Text) : piecesOutside cuts depth text ≠ [] := by
  cases text with
  | nil => exact List.cons_ne_nil _ _
  | cons c rest =>
    unfold piecesOutside
    split
    · exact List.cons_ne_nil _ _
    · rw [ne_eq, List.modifyHead_eq_nil_iff]
      exact piecesOutside_ne_nil _ _ _

/-- A cut parts the pieces before it from those behind it. -/
theorem piecesOutside_append (plain : ∀ c, cuts c = true → depthAfter 0 c = 0) {c : Char} (cut : cuts c = true) {depth : Nat}
    {text : Text} (closed : depthFrom depth text = 0) (rest : Text) :
    piecesOutside cuts depth (text ++ c :: rest) = piecesOutside cuts depth text ++ piecesOutside cuts 0 rest := by
  induction text generalizing depth with
  | nil =>
    obtain rfl : depth = 0 := closed
    simp [piecesOutside, cut]
  | cons d text ih =>
    rw [depthFrom, List.foldl_cons, ← depthFrom] at closed
    rw [List.cons_append, piecesOutside, piecesOutside]
    split
    · rename_i here
      simp only [Bool.and_eq_true, beq_iff_eq] at here
      obtain ⟨cutsHere, rfl⟩ := here
      rw [plain d cutsHere] at closed
      rw [ih closed, List.cons_append]
    · rw [ih closed]
      obtain ⟨piece, pieces, same⟩ := List.exists_cons_of_ne_nil (piecesOutside_ne_nil cuts (depthAfter depth d) text)
      rw [same]
      rfl

end

/-! ## Sides and values -/

/-- The sides of a value: the pieces between slashes outside parentheses. -/
def sides (value : Text) : List Text := piecesOutside (· == '/') 0 value

/-- The values of a side: the pieces between blanks outside parentheses. -/
def values (side : Text) : List Text := (piecesOutside Text.isBlank 0 side).filter (· ≠ [])

theorem sides_append {side : Text} (closed : depthFrom 0 side = 0) (rest : Text) :
    sides (side ++ '/' :: rest) = sides side ++ sides rest := by
  refine piecesOutside_append (fun c slash => ?_) rfl closed rest
  rw [beq_iff_eq.mp slash]
  rfl

theorem values_append {c : Char} (blank : Text.isBlank c = true) {text : Text} (closed : depthFrom 0 text = 0) (rest : Text) :
    values (text ++ c :: rest) = values text ++ values rest := by
  rw [values, piecesOutside_append (fun c blank => depthAfter_of_isBlank blank 0) blank closed, List.filter_append]
  rfl

theorem values_blanks_append {gap : Text} (blanks : ∀ c ∈ gap, Text.isBlank c = true) (text : Text) :
    values (gap ++ text) = values text := by
  induction gap with
  | nil => rfl
  | cons c gap ih =>
    obtain ⟨blank, others⟩ := List.forall_mem_cons.mp blanks
    rw [List.cons_append, ← List.nil_append (c :: (gap ++ text)), values_append blank rfl, ih others]
    rfl

theorem values_of_blanks {gap : Text} (blanks : ∀ c ∈ gap, Text.isBlank c = true) : values gap = [] := by
  rw [← List.append_nil gap, values_blanks_append blanks]
  rfl

/-! ## Rows -/

/-- A text that is a single word where it starts at a depth of parentheses. -/
def IsWord (depth : Nat) (word : Text) : Prop := word ≠ [] ∧ piecesOutside Text.isBlank depth word = [word]

/-- What stands behind a word of a row. -/
def gapBehind (rest : List (Text × Text)) (trailing : Text) : Text := (rest.map Prod.fst).headD trailing

/-- The words of a row that starts at a depth of parentheses are words, and blanks stand between them: only the last word may
leave parentheses open, and then nothing stands behind it. -/
def Laid (depth : Nat) : List (Text × Text) → Text → Prop
  | [], trailing => ∀ c ∈ trailing, Text.isBlank c = true
  | (gap, word) :: rest, trailing =>
    (∀ c ∈ gap, Text.isBlank c = true) ∧ IsWord depth word ∧
      (depthFrom depth word = 0 ∧ gapBehind rest trailing ≠ [] ∨ rest = [] ∧ trailing = []) ∧ Laid 0 rest trailing

theorem separates_eq (depth : Nat) (c : Char) : separates (depthAfter depth c) c = (Text.isBlank c && depth == 0) := by
  unfold separates
  cases blank : Text.isBlank c with
  | false => rfl
  | true => rw [depthAfter_of_isBlank blank]

def startsWord (depth : Nat) : Text → Bool
  | [] => false
  | c :: _ => !separates (depthAfter depth c) c

theorem rowFrom_cons (depth : Nat) (c : Char) (rest : Text) :
    rowFrom depth (c :: rest) =
      if startsWord depth (c :: rest) then
        (rowFrom (depthAfter depth c) rest).consWord (!startsWord (depthAfter depth c) rest) c
      else (rowFrom (depthAfter depth c) rest).consGap c := by
  conv_lhs => rw [rowFrom.eq_def]
  cases separated : separates (depthAfter depth c) c with
  | true => simp [startsWord, separated]
  | false => cases rest <;> simp [startsWord, separated]

theorem words_consWord_true (c : Char) (row : Row) : row.consWord true c = { row with words := ([], [c]) :: row.words } := rfl

/-- A text that starts with a word has no gap before its first word. -/
theorem exists_words_of_startsWord {depth : Nat} {text : Text} (starts : startsWord depth text = true) :
    ∃ word rest, (rowFrom depth text).words = ([], word) :: rest := by
  induction text generalizing depth with
  | nil => cases starts
  | cons c text ih =>
    rw [rowFrom_cons, if_pos starts]
    cases inner : startsWord (depthAfter depth c) text with
    | false => exact ⟨[c], _, rfl⟩
    | true =>
      obtain ⟨word, rest, words⟩ := ih inner
      exact ⟨c :: word, rest, by simp [Row.consWord, words]⟩

/-- Where a text goes on with something else than a word, a gap stands there. -/
theorem gapBehind_of_not_startsWord {depth : Nat} {text : Text} (other : startsWord depth text = false)
    (nonempty : text ≠ []) :
    depth = 0 ∧ gapBehind (rowFrom depth text).words (rowFrom depth text).trailing ≠ [] := by
  cases text with
  | nil => exact absurd rfl nonempty
  | cons c rest =>
    have separated : separates (depthAfter depth c) c = true := by simpa [startsWord] using other
    rw [rowFrom_cons, if_neg (by simp [other])]
    rw [separates_eq, Bool.and_eq_true, beq_iff_eq] at separated
    refine ⟨separated.2, ?_⟩
    generalize rowFrom (depthAfter depth c) rest = row
    obtain ⟨words, trailing⟩ := row
    cases words <;> simp [Row.consGap, gapBehind]

theorem text_consGap (c : Char) (row : Row) : (row.consGap c).text = c :: row.text := by
  obtain ⟨words, trailing⟩ := row
  cases words <;> simp [Row.consGap, Row.text]

theorem text_rowFrom (depth : Nat) (text : Text) : (rowFrom depth text).text = text := by
  induction text generalizing depth with
  | nil => rfl
  | cons c text ih =>
    rw [rowFrom_cons]
    split
    · cases inner : startsWord (depthAfter depth c) text with
      | false => 
        rw [Bool.not_false, words_consWord_true]
        exact congrArg (c :: ·) (ih _)
      | true =>
        obtain ⟨word, rest, words⟩ := exists_words_of_startsWord inner
        have whole := ih (depthAfter depth c)
        simp only [Row.text, words, List.flatMap_cons, List.nil_append] at whole
        simp only [Bool.not_true, Row.consWord, words, Row.text, List.flatMap_cons, List.nil_append, List.cons_append, whole]
    · rw [text_consGap, ih]

/-- A character that does not separate goes on to a word. -/
theorem isWord_cons {depth : Nat} {c : Char} {text word : Text} (starts : startsWord depth (c :: text) = true)
    (single : piecesOutside Text.isBlank (depthAfter depth c) word = [word]) : IsWord depth (c :: word) := by
  have whole : (Text.isBlank c && depth == 0) = false := by
    rw [← separates_eq]
    simpa [startsWord] using starts
  refine ⟨List.cons_ne_nil _ _, ?_⟩
  rw [piecesOutside, whole, single]
  rfl

/-- A gap in front of a row. -/
theorem Laid.consGap {c : Char} (blank : Text.isBlank c = true) {row : Row} (laid : Laid 0 row.words row.trailing) :
    Laid 0 (row.consGap c).words (row.consGap c).trailing := by
  obtain ⟨words, trailing⟩ := row
  cases words with
  | nil => exact List.forall_mem_cons.mpr ⟨blank, laid⟩
  | cons first rest =>
    obtain ⟨gap, word⟩ := first
    obtain ⟨blanks, others⟩ := laid
    exact ⟨List.forall_mem_cons.mpr ⟨blank, blanks⟩, others⟩

theorem laid_rowFrom (depth : Nat) (text : Text) : Laid depth (rowFrom depth text).words (rowFrom depth text).trailing := by
  induction text generalizing depth with
  | nil => exact nofun
  | cons c text ih =>
    have laid := ih (depthAfter depth c)
    rw [rowFrom_cons]
    cases starts : startsWord depth (c :: text) with
    | true =>
      cases inner : startsWord (depthAfter depth c) text with
      | false =>
        -- The word ends here, before a gap or at the end of the text.
        simp only [if_true, Bool.not_false, words_consWord_true]
        have single : IsWord depth [c] := isWord_cons starts rfl
        cases text with
        | nil => exact ⟨nofun, single, .inr ⟨rfl, rfl⟩, nofun⟩
        | cons d rest =>
          obtain ⟨closed, parted⟩ := gapBehind_of_not_startsWord inner (List.cons_ne_nil _ _)
          exact ⟨nofun, single, .inl ⟨closed, parted⟩, closed ▸ laid⟩
      | true =>
        obtain ⟨word, rest, words⟩ := exists_words_of_startsWord inner
        rw [words] at laid
        obtain ⟨_, isWord, ends, others⟩ := laid
        simp only [if_true, Bool.not_true, Row.consWord, words]
        exact ⟨nofun, isWord_cons starts isWord.2, ends, others⟩
    | false =>
      have separated : separates (depthAfter depth c) c = true := by simpa [startsWord] using starts
      rw [separates_eq, Bool.and_eq_true, beq_iff_eq] at separated
      obtain ⟨blank, rfl⟩ := separated
      rw [depthAfter_of_isBlank blank] at laid ⊢
      exact laid.consGap blank

/-- All gaps are blank, and only the first and the last one may be empty. -/
theorem Laid.gaps {depth : Nat} {words : List (Text × Text)} {trailing : Text} (laid : Laid depth words trailing) :
    (∀ pair ∈ words, ∀ c ∈ pair.1, Text.isBlank c = true) ∧ (∀ pair ∈ words.tail, pair.1 ≠ []) ∧
      ∀ c ∈ trailing, Text.isBlank c = true := by
  induction words generalizing depth with
  | nil => exact ⟨nofun, nofun, laid⟩
  | cons first rest ih =>
    obtain ⟨gap, word⟩ := first
    obtain ⟨blanks, _, ends, others⟩ := laid
    obtain ⟨later, parted, behind⟩ := ih others
    refine ⟨List.forall_mem_cons.mpr ⟨blanks, later⟩, ?_, behind⟩
    cases rest with
    | nil => exact nofun
    | cons second rest =>
      have next := ends.elim And.right fun none => nomatch none.1
      exact List.forall_mem_cons.mpr ⟨next, parted⟩

theorem IsWord.values {word : Text} (isWord : IsWord 0 word) : values word = [word] := by
  rw [Standard.values, isWord.2]
  exact List.filter_eq_self.mpr (by simpa using isWord.1)

theorem Row.text_cons (gap word : Text) (rest : List (Text × Text)) (trailing : Text) :
    Row.text ⟨(gap, word) :: rest, trailing⟩ = gap ++ (word ++ Row.text ⟨rest, trailing⟩) := by
  simp [Row.text]

/-- As many words take the places of the old ones. -/
theorem Row.replaceWords_eq {row : Row} {words : List Text} (fits : words.length = row.words.length) :
    row.replaceWords words = Row.text ⟨(row.words.map Prod.fst).zip words, row.trailing⟩ := by
  unfold Row.replaceWords
  split
  · rename_i none
    simp [Row.text, none]
  · rename_i gap word rest some
    rw [if_pos (by rw [fits, some]; rfl), some]

theorem Laid.exists_blank {words : List (Text × Text)} {trailing : Text} (laid : Laid 0 words trailing)
    (parted : gapBehind words trailing ≠ []) : ∃ c text, Row.text ⟨words, trailing⟩ = c :: text ∧ Text.isBlank c = true := by
  cases words with
  | nil =>
    obtain ⟨c, rest, rfl⟩ := List.exists_cons_of_ne_nil parted
    exact ⟨c, rest, rfl, laid c List.mem_cons_self⟩
  | cons first rest =>
    obtain ⟨gap, word⟩ := first
    obtain ⟨c, others, rfl⟩ := List.exists_cons_of_ne_nil parted
    exact ⟨c, _, Row.text_cons _ _ _ _, laid.1 c List.mem_cons_self⟩

/-- The words of a row are the values of its text. -/
theorem Laid.values_text {words : List (Text × Text)} {trailing : Text} (laid : Laid 0 words trailing) :
    values (Row.text ⟨words, trailing⟩) = words.map Prod.snd := by
  induction words with
  | nil => exact values_of_blanks laid
  | cons first rest ih =>
    obtain ⟨gap, word⟩ := first
    obtain ⟨blanks, isWord, ends, others⟩ := laid
    rw [Row.text_cons, values_blanks_append blanks, List.map_cons, ← ih others]
    rcases ends with ⟨closed, parted⟩ | ⟨rfl, rfl⟩
    · obtain ⟨c, text, same, blank⟩ := others.exists_blank parted
      have onward := values_append blank (show depthFrom 0 [] = 0 from rfl) text
      rw [same, values_append blank closed, isWord.values, ← List.nil_append (c :: text), onward]
      rfl
    · simp [Row.text, isWord.values]
      rfl

theorem values_eq_texts (text : Text) : values text = (rowFrom 0 text).texts := by
  have whole := (laid_rowFrom 0 text).values_text
  rwa [show Row.text ⟨(rowFrom 0 text).words, (rowFrom 0 text).trailing⟩ = text from text_rowFrom 0 text] at whole

theorem text_absorb (carried : Text) (words : List (Text × Text)) (trailing : Text) :
    (absorb carried words trailing).text = carried ++ Row.text ⟨words, trailing⟩ := by
  induction words generalizing carried with
  | nil => rfl
  | cons first rest ih =>
    obtain ⟨gap, word⟩ := first
    rw [absorb]
    split
    · rw [ih, Row.text_cons]
      simp only [List.append_assoc]
    · have whole := ih []
      rw [Row.text_cons, Row.text_cons, List.append_assoc]
      exact congrArg (fun text => carried ++ (gap ++ (word ++ text))) whole

theorem Row.text_ofText (text : Text) : (Row.ofText text).text = text := by
  rw [Row.ofText, text_absorb]
  exact text_rowFrom 0 text

theorem absorb_of_plain {words : List (Text × Text)} (plain : ∀ pair ∈ words, standsForComment pair.2 = false)
    (trailing : Text) :
    absorb [] words trailing = ⟨words, trailing⟩ := by
  induction words with
  | nil => rfl
  | cons first rest ih =>
    obtain ⟨own, others⟩ := List.forall_mem_cons.mp plain
    simp [absorb, own, ih others]

end Standard
end StyleFlip
