import StyleFlip.Proofs.Blanks
import StyleFlip.Proofs.Edges
import StyleFlip.Proofs.Restoring
import StyleFlip.Proofs.ValueComments

/-!
Comments around the values for the edges of a box. Taking the placeholders out of a text (`bare`) does what taking the
comments out of the text with its comments does (`outsideFrom_restore`), and it can be done before or after the text is cut
into values (`values_bare`). A value with comments attached to it moves together with them. But a value that stands between
two comments without blanks is taken for a comment itself, so the edges are exchanged as they should exactly where this does
not change whether there are four values (`values_flipByRule`).
-/
namespace StyleFlip
namespace Text

/-! ## Texts outside comments -/

theorem outsideFrom_false_cons {c : Char} {rest : Text} (other : ¬ (c = '/' ∧ rest.head? = some '*')) :
    outsideFrom false (c :: rest) = c :: outsideFrom false rest := by
  rw [outsideFrom]
  intro following slash star
  exact other ⟨slash, by rw [star]; rfl⟩

theorem outsideFrom_of_cut? {text body following : Text} (cut : cut? commentClose text = some (body, following)) :
    outsideFrom true text = outsideFrom false following := by
  rw [outsideFrom_true_eq, cut, Option.elim_some]

theorem outsideFrom_comment_append {comment : Text} (isComment : IsComment comment) (rest : Text) :
    outsideFrom false (comment ++ rest) = outsideFrom false rest := by
  obtain ⟨body, rfl, cut⟩ := isComment
  have whole : (Piece.comment body).text ++ rest = '/' :: '*' :: (body ++ commentClose ++ rest) := by
    simp [Piece.text, commentOpen]
  rw [whole]
  exact outsideFrom_of_cut? (cut rest)

/-! ## Texts without their placeholders -/

/-- The text without its placeholders of the first numbers. -/
def bare (count : Nat) (text : Text) : Text := restore (List.replicate count []) text

section
variable (count : Nat)

theorem bare_nil : bare count [] = [] := restore_nil _

/-- A placeholder in front of a text is taken out, or stays if its number is not known. -/
theorem bare_place {digits : Text} (nonempty : digits ≠ []) (numeric : ∀ c ∈ digits, c.isDigit = true) (rest : Text) :
    bare count (placeholderOpen :: (digits ++ placeholderClose :: rest)) =
      (if digitsValue digits < count then [] else placeholderOpen :: (digits ++ [placeholderClose])) ++ bare count rest := by
  rw [bare, restore_open_of_some (placeholderDigits?_of_digits nonempty numeric rest), List.getElem?_replicate]
  split <;> rfl

theorem bare_unread {rest : Text} (unread : placeholderDigits? rest = none) :
    bare count (placeholderOpen :: rest) = placeholderOpen :: bare count rest :=
  restore_open_of_none unread

theorem bare_cons {c : Char} (other : c ≠ placeholderOpen) (rest : Text) : bare count (c :: rest) = c :: bare count rest :=
  restore_cons_of_ne other rest

end

/-- The text outside comments, of a text in which placeholders were exchanged for comments and no other comment is opened, is
the text without the placeholders. -/
theorem outsideFrom_restore {set : List Text} (genuine : ∀ comment ∈ set, IsComment comment) {text : Text}
    (unopened : .opening ∉ marks text) (known : ∀ index, .place index ∈ marks text → index < set.length) :
    outsideFrom false (restore set text) = bare set.length text := by
  induction text using placeInduction with
  | nil => rw [bare_nil, restore_nil, outsideFrom]
  | place digits following nonempty numeric ih =>
    rw [marks_open_cons, marksFrom_number_close numeric nonempty] at unopened known
    have inside := known _ List.mem_cons_self
    rw [restore_open_of_some (placeholderDigits?_of_digits nonempty numeric following), List.getElem?_eq_getElem inside,
      Option.getD_some, outsideFrom_comment_append (genuine _ (List.getElem_mem inside)),
      bare_place _ nonempty numeric, if_pos inside, List.nil_append,
      ih (fun member => unopened (List.mem_cons_of_mem _ member))
        fun index member => known index (List.mem_cons_of_mem _ member)]
  | unread rest unread ih =>
    rw [marks_open_cons, marksFrom_number_of_none unread] at unopened known
    rw [restore_open_of_none unread, bare_unread _ unread,
      outsideFrom_false_cons fun both => absurd both.1 (by decide), ih unopened known]
  | char c rest other ih =>
    have same : marks (c :: rest) = marks rest := by
      by_cases slash : c = '/'
      · subst slash
        exact marksFrom_slash (head?_ne_of_unopened unopened)
      · exact marks_cons_of_ne slash other rest
    have plain : ¬ (c = '/' ∧ (restore set rest).head? = some '*') := by
      rintro ⟨rfl, star⟩
      exact head?_ne_of_unopened unopened (head?_restore genuine star)
    rw [same] at unopened known
    rw [restore_cons_of_ne other, bare_cons _ other, outsideFrom_false_cons plain, ih unopened known]

/-- A text of which nothing is left without its placeholders starts and ends with one. -/
theorem ends_of_bare_eq_nil {count : Nat} {text : Text} (nothing : bare count text = []) (nonempty : text ≠ []) :
    text.head? = some placeholderOpen ∧ text.getLast? = some placeholderClose := by
  induction text using placeInduction with
  | nil => exact absurd rfl nonempty
  | place digits following some numeric ih =>
    rw [bare_place _ some numeric] at nothing
    refine ⟨rfl, ?_⟩
    rw [List.getLast?_cons, List.getLast?_append, List.getLast?_cons]
    cases following with
    | nil => rfl
    | cons d more =>
      rw [(ih (List.append_eq_nil_iff.mp nothing).2 (List.cons_ne_nil _ _)).2]
      rfl
  | unread rest unread ih =>
    rw [bare_unread _ unread] at nothing
    cases nothing
  | char c rest other ih =>
    rw [bare_cons _ other] at nothing
    cases nothing

/-- What was made of a text whose comments were set aside, outside its comments. -/
theorem outsideFrom_restore_setAside {text out : Text} (closes : closesComments false text = true)
    (unmarked : placeholderOpen ∉ text) (carried : marks out ⊆ marks (setAside text).1) :
    outsideFrom false (restore (setAside text).2 out) = bare (comments text).length out := by
  rw [marks_setAside closes unmarked] at carried
  rw [snd_setAside]
  refine outsideFrom_restore (fun _ => isComment_of_mem_comments) ?_ ?_
  · intro member
    simpa using carried member
  · intro index member
    simpa using carried member

end Text

namespace Standard
open Text

/-! ## Values without their placeholders -/

theorem depthAfter_of_ne {c : Char} (opens : c ≠ '(') (closes : c ≠ ')') (depth : Nat) : depthAfter depth c = depth := by
  rw [depthAfter, if_neg opens, if_neg closes]

/-- Characters that neither cut a text nor count for its parentheses. -/
def isLetter (c : Char) : Bool := !isBlank c && c ≠ '(' && c ≠ ')'

theorem isLetter_of_isDigit {c : Char} (digit : c.isDigit = true) : isLetter c = true := by
  have notBlank : isBlank c = false := by
    rw [← Bool.not_eq_true]
    intro blank
    have other := (isInert_iff.mp (isInert_of_isBlank blank)).2.2.2.2
    rw [digit] at other
    cases other
  have notOpen := ne_of_isDigit digit (by decide : '('.isDigit = false)
  have notClose := ne_of_isDigit digit (by decide : ')'.isDigit = false)
  simp [isLetter, notBlank, notOpen, notClose]

theorem isLetter_of_mem_place {digits : Text} (numeric : ∀ c ∈ digits, c.isDigit = true) :
    ∀ c ∈ placeholderOpen :: (digits ++ [placeholderClose]), isLetter c = true := by
  refine List.forall_mem_cons.mpr ⟨by decide, List.forall_mem_append.mpr ⟨?_, List.forall_mem_singleton.mpr (by decide)⟩⟩
  exact fun c member => isLetter_of_isDigit (numeric c member)

theorem piecesOutside_letters_append {letters : Text} (plain : ∀ c ∈ letters, isLetter c = true) (depth : Nat)
    (rest : Text) :
    piecesOutside isBlank depth (letters ++ rest) = (piecesOutside isBlank depth rest).modifyHead (letters ++ ·) := by
  induction letters with
  | nil => exact (List.modifyHead_id ▸ rfl)
  | cons c letters ih =>
    obtain ⟨here, others⟩ := List.forall_mem_cons.mp plain
    simp only [isLetter, Bool.and_eq_true, Bool.not_eq_true', decide_eq_true_eq] at here
    rw [List.cons_append, piecesOutside, here.1.1, Bool.false_and, if_neg Bool.false_ne_true,
      depthAfter_of_ne here.1.2 here.2, ih others, List.modifyHead_modifyHead]
    rfl

theorem depthFrom_letters_append {letters : Text} (plain : ∀ c ∈ letters, isLetter c = true) (depth : Nat) (rest : Text) :
    depthFrom depth (letters ++ rest) = depthFrom depth rest := by
  induction letters with
  | nil => rfl
  | cons c letters ih =>
    obtain ⟨here, others⟩ := List.forall_mem_cons.mp plain
    simp only [isLetter, Bool.and_eq_true, Bool.not_eq_true', decide_eq_true_eq] at here
    rw [List.cons_append, depthFrom, List.foldl_cons, depthAfter_of_ne here.1.2 here.2]
    exact ih others

/-- The first piece is the start of the text. -/
theorem exists_append_of_piecesOutside {cuts : Char → Bool} {depth : Nat} {text first : Text} {others : List Text}
    (pieces : piecesOutside cuts depth text = first :: others) : ∃ rest, text = first ++ rest := by
  induction text generalizing depth first others with
  | nil =>
    cases pieces
    exact ⟨[], rfl⟩
  | cons c text ih =>
    rw [piecesOutside] at pieces
    split at pieces
    · cases pieces
      exact ⟨_, rfl⟩
    · obtain ⟨second, later, same⟩ := List.exists_cons_of_ne_nil (piecesOutside_ne_nil cuts (depthAfter depth c) text)
      rw [same] at pieces
      obtain ⟨rfl, rfl⟩ := List.cons_eq_cons.mp pieces
      obtain ⟨rest, rfl⟩ := ih same
      exact ⟨rest, rfl⟩

theorem map_modifyHead_of_forall {α β : Type} {f : α → β} {g : α → α} {h : β → β} {list : List α}
    (commutes : ∀ a ∈ list.head?, f (g a) = h (f a)) : (list.modifyHead g).map f = (list.map f).modifyHead h := by
  cases list with
  | nil => rfl
  | cons a list => exact congrArg (· :: list.map f) (commutes a rfl)

/-- Placeholders can be taken out before or after a text is cut at its blanks. -/
theorem piecesOutside_bare (count depth : Nat) (text : Text) :
    piecesOutside isBlank depth (bare count text) = (piecesOutside isBlank depth text).map (bare count) := by
  induction text using placeInduction generalizing depth with
  | nil =>
    rw [bare_nil, piecesOutside, List.map_singleton, bare_nil]
  | place digits following nonempty numeric ih =>
    have letters := isLetter_of_mem_place numeric
    have whole : placeholderOpen :: (digits ++ placeholderClose :: following) =
        placeholderOpen :: (digits ++ [placeholderClose]) ++ following := by simp
    rw [bare_place _ nonempty numeric, whole, piecesOutside_letters_append letters]
    rw [piecesOutside_letters_append, ih, map_modifyHead_of_forall]
    · intro piece _
      rw [← bare_place count nonempty numeric piece]
      simp
    · split
      · exact List.forall_mem_nil _
      · exact letters
  | unread rest unread ih =>
    have letter : ∀ c ∈ [placeholderOpen], isLetter c = true := List.forall_mem_singleton.mpr (by decide)
    have onward : ∀ text, piecesOutside isBlank depth (placeholderOpen :: text) =
        (piecesOutside isBlank depth text).modifyHead (placeholderOpen :: ·) := piecesOutside_letters_append letter depth
    rw [bare_unread _ unread, onward, onward, ih, map_modifyHead_of_forall]
    intro piece first
    obtain ⟨others, pieces⟩ := List.head?_eq_some_iff.mp first
    obtain ⟨more, whole⟩ := exists_append_of_piecesOutside pieces
    rw [whole] at unread
    exact bare_unread count (placeholderDigits?_eq_none_of_append unread)
  | char c rest other ih =>
    rw [bare_cons _ other, piecesOutside, piecesOutside]
    split
    · rw [ih, List.map_cons, bare_nil]
    · rw [ih, map_modifyHead_of_forall]
      exact fun piece _ => bare_cons count other piece

theorem depthFrom_bare (count depth : Nat) (text : Text) : depthFrom depth (bare count text) = depthFrom depth text := by
  induction text using placeInduction generalizing depth with
  | nil => rw [bare_nil]
  | place digits following nonempty numeric ih =>
    have letters := isLetter_of_mem_place numeric
    have whole : placeholderOpen :: (digits ++ placeholderClose :: following) =
        placeholderOpen :: (digits ++ [placeholderClose]) ++ following := by simp
    rw [bare_place _ nonempty numeric, whole, depthFrom_letters_append letters, depthFrom_letters_append, ih]
    split
    · exact List.forall_mem_nil _
    · exact letters
  | unread rest unread ih =>
    rw [bare_unread _ unread]
    exact ih _
  | char c rest other ih =>
    rw [bare_cons _ other]
    exact ih _

/-- What words show without their placeholders; a word of placeholders shows nothing. -/
def shown (count : Nat) (words : List Text) : List Text := (words.map (bare count)).filter (· ≠ [])

theorem shown_cons (count : Nat) (word : Text) (words : List Text) :
    shown count (word :: words) = if bare count word = [] then shown count words else bare count word :: shown count words := by
  rw [shown, List.map_cons, List.filter_cons]
  by_cases nothing : bare count word = []
  · simp [nothing, shown]
  · simp [nothing, shown]

/-- Taking the placeholders out of a text, its values stay what they show. -/
theorem values_bare (count : Nat) (text : Text) : values (bare count text) = shown count (values text) := by
  rw [values, piecesOutside_bare, shown, values]
  induction piecesOutside isBlank 0 text with
  | nil => rfl
  | cons piece pieces ih =>
    rw [List.map_cons, List.filter_cons, ih]
    by_cases empty : piece = []
    · simp [empty, bare_nil]
    · simp [empty, List.filter_cons]

theorem bare_ne_nil_of_plain {count : Nat} {word : Text} (plain : standsForComment word = false) (nonempty : word ≠ []) :
    bare count word ≠ [] := by
  intro nothing
  obtain ⟨first, last⟩ := ends_of_bare_eq_nil nothing nonempty
  simp [standsForComment, first, last] at plain

theorem values_append_blanks {text gap : Text} (closed : depthFrom 0 text = 0) (blanks : ∀ c ∈ gap, isBlank c = true) :
    values (text ++ gap) = values text := by
  cases gap with
  | nil => rw [List.append_nil]
  | cons c gap =>
    obtain ⟨blank, others⟩ := List.forall_mem_cons.mp blanks
    rw [values_append blank closed, values_of_blanks others, List.append_nil]

theorem depthFrom_trim (text : Text) : depthFrom 0 (trim text) = depthFrom 0 text := by
  have tail := blanks_blankTail (trimStart text)
  conv_rhs => rw [eq_trim text, depthFrom_append, depthFrom_of_blanks (blanks_blankHead text), depthFrom_append,
    depthFrom_of_blanks tail]

/-- Where parentheses are closed, blanks at the ends do not matter. -/
theorem values_trim {text : Text} (closed : depthFrom 0 text = 0) : values (trim text) = values text := by
  rw [← depthFrom_trim] at closed
  conv_rhs => rw [eq_trim text, values_blanks_append (blanks_blankHead text),
    values_append_blanks closed (blanks_blankTail _)]

/-! ## Edges -/

/-- Four values with the second and the fourth exchanged; any others stay. -/
def exchangeEdges : List Text → List Text
  | [top, right, bottom, left] => [top, left, bottom, right]
  | other => other

theorem exchangeEdges_of_length_ne {words : List Text} (other : words.length ≠ 4) : exchangeEdges words = words := by
  unfold exchangeEdges
  split
  · exact absurd rfl other
  · rfl

theorem refill_of_stands {old : Text} (stands : standsForComment old = true) (gap : Text) (rest : List (Text × Text))
    (words : List Text) : refill ((gap, old) :: rest) words = (gap, old) :: refill rest words := by
  cases words with
  | nil => rw [refill_nil, refill_nil]
  | cons word words => rw [refill, if_pos stands]

theorem refill_plain (row : List (Text × Text)) :
    refill row ((row.map Prod.snd).filter fun word => !standsForComment word) = row := by
  induction row with
  | nil => rfl
  | cons first rest ih =>
    obtain ⟨gap, old⟩ := first
    cases stands : standsForComment old with
    | true => simp [refill_of_stands stands, stands, ih]
    | false => simp [refill, stands, ih]

theorem forall_mem_refill {motive : Text → Prop} {row : List (Text × Text)} {words : List Text}
    (old : ∀ pair ∈ row, motive pair.2) (new : ∀ word ∈ words, motive word) : ∀ pair ∈ refill row words, motive pair.2 := by
  induction row generalizing words with
  | nil => exact List.forall_mem_nil _
  | cons first rest ih =>
    obtain ⟨here, later⟩ := List.forall_mem_cons.mp old
    cases words with
    | nil => exact old
    | cons word words =>
      obtain ⟨own, others⟩ := List.forall_mem_cons.mp new
      rw [refill]
      split
      · exact List.forall_mem_cons.mpr ⟨here, ih later new⟩
      · exact List.forall_mem_cons.mpr ⟨own, ih later others⟩

/-- Words with what stands before each of them and behind the last one. -/
def weave (gaps : List (List Text)) (last words : List Text) : List Text :=
  (gaps.zip words).flatMap (fun pair => pair.1 ++ [pair.2]) ++ last

theorem weave_cons (gap : List Text) (gaps : List (List Text)) (last : List Text) (word : Text) (words : List Text) :
    weave (gap :: gaps) last (word :: words) = gap ++ word :: weave gaps last words := by
  simp [weave]

section
variable {gaps : List (List Text)} {words : List Text} (fits : words.length = gaps.length) (last : List Text)
include fits

theorem length_weave : (weave gaps last words).length = gaps.flatten.length + words.length + last.length := by
  induction gaps generalizing words with
  | nil =>
    obtain rfl := List.length_eq_zero_iff.mp fits
    simp [weave]
  | cons gap gaps ih =>
    obtain ⟨word, words, rfl⟩ := List.exists_cons_of_length_eq_add_one fits
    rw [weave_cons, List.length_append, List.length_cons, ih (Nat.succ.inj fits), List.flatten_cons, List.length_append,
      List.length_cons]
    omega

theorem sublist_weave : words.Sublist (weave gaps last words) := by
  induction gaps generalizing words with
  | nil =>
    obtain rfl := List.length_eq_zero_iff.mp fits
    exact List.nil_sublist _
  | cons gap gaps ih =>
    obtain ⟨word, words, rfl⟩ := List.exists_cons_of_length_eq_add_one fits
    rw [weave_cons]
    exact ((ih (Nat.succ.inj fits)).cons_cons word).trans (List.sublist_append_right _ _)

theorem weave_inj {others : List Text} (same : others.length = gaps.length) :
    weave gaps last words = weave gaps last others ↔ words = others := by
  refine ⟨fun equal => ?_, fun equal => by rw [equal]⟩
  induction gaps generalizing words others with
  | nil => rw [List.length_eq_zero_iff.mp fits, List.length_eq_zero_iff.mp same]
  | cons gap gaps ih =>
    obtain ⟨word, words, rfl⟩ := List.exists_cons_of_length_eq_add_one fits
    obtain ⟨other, others, rfl⟩ := List.exists_cons_of_length_eq_add_one same
    rw [weave_cons, weave_cons, List.append_cancel_left_eq] at equal
    obtain ⟨rfl, rest⟩ := List.cons_eq_cons.mp equal
    rw [ih (Nat.succ.inj fits) (Nat.succ.inj same) rest]

end

/-- What a row shows are its words without their placeholders, among values that are taken for comments. The latter stay
where they are when other words come in. -/
theorem exists_weave (count : Nat) (row : List (Text × Text)) :
    ∃ (gaps : List (List Text)) (last : List Text),
      gaps.length = ((row.map Prod.snd).filter fun word => !standsForComment word).length ∧
      ∀ words : List Text, words.length = gaps.length → (∀ word ∈ words, bare count word ≠ []) →
        shown count ((refill row words).map Prod.snd) = weave gaps last (words.map (bare count)) := by
  induction row with
  | nil => exact ⟨[], [], rfl, fun words _ _ => rfl⟩
  | cons first rest ih =>
    obtain ⟨gap, old⟩ := first
    obtain ⟨gaps, last, fits, woven⟩ := ih
    cases stands : standsForComment old with
    | false =>
      refine ⟨[] :: gaps, last, by simp [stands, fits], fun words enough visible => ?_⟩
      cases words with
      | nil => cases enough
      | cons word words =>
        obtain ⟨own, others⟩ := List.forall_mem_cons.mp visible
        rw [refill, stands, if_neg Bool.false_ne_true, List.map_cons, shown_cons, if_neg own,
          woven words (Nat.succ.inj enough) others]
        rfl
    | true =>
      by_cases nothing : bare count old = []
      · refine ⟨gaps, last, by simp [stands, fits], fun words enough visible => ?_⟩
        rw [refill_of_stands stands, List.map_cons, shown_cons, if_pos nothing, woven words enough visible]
      · -- A value that is taken for a comment belongs to the gap before the next word, or to what stands behind the last.
        cases gaps with
        | nil =>
          refine ⟨[], bare count old :: last, by simp [stands, fits], fun words enough visible => ?_⟩
          rw [refill_of_stands stands, List.map_cons, shown_cons, if_neg nothing, woven words enough visible]
          rfl
        | cons before gaps =>
          refine ⟨(bare count old :: before) :: gaps, last, by simpa [stands] using fits, fun words enough visible => ?_⟩
          rw [refill_of_stands stands, List.map_cons, shown_cons, if_neg nothing, woven words enough visible]
          cases words with
          | nil => cases enough
          | cons word words => rfl

/-- What a value shows and what it shows with its edges exchanged, where four of its words stand for no comment. -/
theorem exists_weave_flipEdges (count : Nat) {value top right bottom left : Text}
    (four : (Row.ofText value).texts = [top, right, bottom, left]) (closed : depthFrom 0 value = 0) :
    depthFrom 0 (flipEdges value) = 0 ∧
      ∃ (gaps : List (List Text)) (last : List Text), gaps.length = 4 ∧
        shown count (values value) = weave gaps last ([top, right, bottom, left].map (bare count)) ∧
        shown count (values (flipEdges value)) = weave gaps last ([top, left, bottom, right].map (bare count)) := by
  have laid := laid_rowFrom 0 value
  have plain : ((rowFrom 0 value).words.map Prod.snd).filter (fun word => !standsForComment word) =
      [top, right, bottom, left] := by
    rw [← four, texts_ofText, values_eq_texts]
    rfl
  have inner : ∀ pair ∈ (rowFrom 0 value).words, depthFrom 0 pair.2 = 0 :=
    laid.closed (by rwa [show Row.text ⟨_, _⟩ = value from text_rowFrom 0 value])
  have member : ∀ word ∈ [top, right, bottom, left],
      (∃ pair ∈ (rowFrom 0 value).words, pair.2 = word) ∧ standsForComment word = false := by
    intro word listed
    rw [← plain, List.mem_filter] at listed
    exact ⟨List.mem_map.mp listed.1, by simpa using listed.2⟩
  have visible : ∀ word ∈ [top, right, bottom, left], bare count word ≠ [] := by
    intro word listed
    obtain ⟨⟨pair, inside, rfl⟩, own⟩ := member word listed
    exact bare_ne_nil_of_plain own (laid.isWord pair inside).1
  have movable : Movable value [top, left, bottom, right] := by
    obtain ⟨⟨pair, inside, same⟩, _⟩ := member left (by simp)
    exact movable_of_four four (same ▸ inner pair inside)
  have row : rowFrom 0 (flipEdges value) = _ := (flipEdges_of_four four) ▸ movable.rowFrom_replaceWords
  obtain ⟨gaps, last, fits, woven⟩ := exists_weave count (rowFrom 0 value).words
  rw [plain] at fits
  refine ⟨?_, gaps, last, fits, ?_, ?_⟩
  · have turned := laid_rowFrom 0 (flipEdges value)
    rw [← text_rowFrom 0 (flipEdges value)]
    rw [row] at turned ⊢
    exact turned.depthFrom_text (forall_mem_refill inner movable.closed)
  · have same := refill_plain (rowFrom 0 value).words
    rw [plain] at same
    rw [values_eq_texts, ← woven _ fits.symm visible, same]
    rfl
  · have known : ∀ word ∈ [top, left, bottom, right], bare count word ≠ [] :=
      fun word listed => visible word (four ▸ movable.known listed)
    rw [values_eq_texts, row, ← woven [top, left, bottom, right] fits.symm known]
    rfl

/-- No value stands between two comments without blanks: words that start and end like comments show nothing. -/
def Apart (count : Nat) (value : Text) : Prop :=
  ∀ word ∈ values value, standsForComment word = true → bare count word = []

theorem Apart.shown_values {count : Nat} {value : Text} (apart : Apart count value) :
    shown count (values value) = (Row.ofText value).texts.map (bare count) := by
  have nonempty : ∀ word ∈ values value, word ≠ [] := fun word member => by simpa using (List.mem_filter.mp member).2
  unfold Apart at apart
  rw [texts_ofText]
  generalize values value = words at apart nonempty
  induction words with
  | nil => rfl
  | cons word words ih =>
    obtain ⟨own, others⟩ := List.forall_mem_cons.mp apart
    obtain ⟨here, later⟩ := List.forall_mem_cons.mp nonempty
    cases stands : standsForComment word with
    | true => simp [shown_cons, own stands, stands, ih others later]
    | false => simp [shown_cons, bare_ne_nil_of_plain stands here, stands, ih others later]

section
variable {written : Text} (closes : closesComments false written = true) (unmarked : placeholderOpen ∉ written)
include closes unmarked

theorem withoutComments_eq_trim_bare :
    withoutComments written = trim (bare (comments written).length (setAside written).1) := by
  conv_lhs => rw [withoutComments, ← restore_setAside unmarked]
  rw [outsideFrom_restore_setAside closes unmarked (List.Subset.refl _)]

/-- Where parentheses are closed, the values outside comments are what the words show. -/
theorem values_withoutComments (balanced : depthFrom 0 (withoutComments written) = 0) :
    values (withoutComments written) = shown (comments written).length (values (setAside written).1) := by
  have bared := withoutComments_eq_trim_bare closes unmarked
  rw [bared, depthFrom_trim] at balanced
  rw [bared, values_trim balanced, values_bare]

/-- Where parentheses are closed, the edges are exchanged outside comments exactly if four values are seen where four are,
unless neither exchange would make a difference. -/
theorem values_flipEdges_iff
    (closed : (Row.ofText (setAside written).1).texts.length = 4 → depthFrom 0 (withoutComments written) = 0) :
    let seen := (Row.ofText (setAside written).1).texts.map (bare (comments written).length)
    let real := values (withoutComments written)
    values (withoutComments (restore (setAside written).2 (flipEdges (setAside written).1))) = exchangeEdges real ↔
      (seen.length = 4 ↔ real.length = 4) ∨ exchangeEdges seen = seen ∧ exchangeEdges real = real := by
  intro seen real
  by_cases counted : (Row.ofText (setAside written).1).texts.length = 4
  · obtain ⟨top, right, bottom, left, four⟩ := List.length_eq_four.mp counted
    have whole := closed counted
    have balanced : depthFrom 0 (setAside written).1 = 0 := by
      rwa [withoutComments_eq_trim_bare closes unmarked, depthFrom_trim, depthFrom_bare] at whole
    obtain ⟨turned, gaps, last, fits, before, after⟩ := exists_weave_flipEdges (comments written).length four balanced
    have shows : real = weave gaps last seen := by
      rw [show seen = [top, right, bottom, left].map _ from congrArg _ four, ← before]
      exact values_withoutComments closes unmarked whole
    have exchanged : [top, left, bottom, right].map (bare (comments written).length) = exchangeEdges seen := by
      rw [show seen = [top, right, bottom, left].map _ from congrArg _ four]
      rfl
    have length : seen.length = 4 := by rw [List.length_map, counted]
    have other : (exchangeEdges seen).length = 4 := by rw [← exchanged]; rfl
    rw [withoutComments, outsideFrom_restore_setAside closes unmarked (perm_marks_flipEdges _).subset,
      values_trim (by rw [depthFrom_bare, turned]), values_bare, after, exchanged]
    by_cases all : real.length = 4
    · -- Four values are seen and there are no others: the gaps are empty.
      have same : real = seen := by
        rw [shows] at all ⊢
        exact ((sublist_weave (length.trans fits.symm) last).eq_of_length (length.trans all.symm)).symm
      have size : (weave gaps last (exchangeEdges seen)).length = 4 := by
        rw [length_weave (other.trans fits.symm), other, ← length, ← length_weave (length.trans fits.symm), ← shows, all]
        exact length.symm
      rw [same, ← (sublist_weave (other.trans fits.symm) last).eq_of_length (other.trans size.symm)]
      simp
    · rw [exchangeEdges_of_length_ne all, shows, weave_inj (other.trans fits.symm) last (length.trans fits.symm), ← shows]
      simp [length, all]
  · have unchanged := flipEdges_of_length_ne counted
    have fewer : seen.length ≠ 4 := by rwa [List.length_map]
    rw [unchanged, restore_setAside unmarked, exchangeEdges_of_length_ne fewer]
    by_cases all : real.length = 4
    · simp [fewer, all, eq_comm, real]
    · simp [fewer, all, exchangeEdges_of_length_ne all, real]

end

/-! ## Declarations -/

theorem answer?_edges {name : Text} (edges : (edgeShorthands : FlipRule State).fits name = true) (value : Text) :
    answer? name value = some ⟨name, flipEdges value⟩ := by
  have listed := Pattern.fits_names_iff.mp edges
  simp only [List.mem_cons, List.not_mem_nil, or_false] at listed
  rcases listed with rfl | rfl | rfl | rfl | rfl | rfl | rfl | rfl <;> rfl

/-- A shorthand of four values counts as flipped exactly if its text changes. -/
theorem isSome_flipped?_of_edges {options : Options} {decl : Declaration}
    (edges : (edgeShorthands : FlipRule State).fits ((options.alias? decl.property).getD decl.property) = true) :
    (flipped? options decl).isSome = true ↔ ((flipped? options decl).getD decl).written ≠ decl.written := by
  simp only [flipped?, ← workingValue.eq_def, answer?_edges edges, true_and]
  split
  · simp
  · rename_i other
    simpa using other

theorem flips_flipByRule (options : Options) {run : Run State} {node : Nat} {decl : Declaration}
    (found : run.scene.sheet.declaration? node = some decl) :
    (Run.flipByRule (engine options).registry run node).flips =
      run.flips + if (flipped? run.scene.options decl).isSome then 1 else 0 := by
  have flipped : Run.flipByRule (engine options).registry run node = _ := flipByRule_eq rfl found
  rw [flipped]
  cases flipped? run.scene.options decl <;> rfl

/-- Let the parentheses of a shorthand close if four words are seen in it that stand for no comment, or if it has four values.
Its values outside its comments are then those that it had, with the second and the fourth exchanged if there are four, exactly
if four such words are seen just where there are four values (unless no exchange makes a difference). This is so if no value
stands between two comments without blanks; and then whether the declaration counts as flipped is said by the values alone,
except where the second and the fourth are the same and only their comments differ. -/
theorem values_flipByRule (options : Options) {run : Run State} {node : Nat} {decl : Declaration}
    (found : run.scene.sheet.declaration? node = some decl)
    (edges : (edgeShorthands : FlipRule State).fits
      ((run.scene.options.alias? decl.property).getD decl.property) = true)
    (insets : run.scene.options.processEnv = false) (closes : closesComments false decl.written = true)
    (unmarked : placeholderOpen ∉ decl.written) :
    let count := (comments decl.written).length
    let seen := (Row.ofText (setAside decl.written).1).texts.map (bare count)
    let real := values (withoutComments decl.written)
    let flipped := Run.flipByRule (engine options).registry run node
    (seen.length = 4 ∨ real.length = 4 → depthFrom 0 (withoutComments decl.written) = 0) →
    ∃ changed, flipped.scene.sheet.declaration? node = some changed ∧
      (values (withoutComments changed.written) = exchangeEdges real ↔
        (seen.length = 4 ↔ real.length = 4) ∨ exchangeEdges seen = seen ∧ exchangeEdges real = real) ∧
      (Apart count (setAside decl.written).1 → (seen.length = 4 ↔ real.length = 4)) ∧
      ((seen.length = 4 ↔ real.length = 4) →
        (real.length ≠ 4 → flipped.flips = run.flips) ∧ (exchangeEdges real ≠ real → flipped.flips = run.flips + 1)) := by
  intro count seen real flipped closed
  have size : seen.length = (Row.ofText (setAside decl.written).1).texts.length := List.length_map _
  have written : ((flipped? run.scene.options decl).getD decl).written =
      restore (setAside decl.written).2 (flipEdges (setAside decl.written).1) := by
    rw [written_flipped?, answer?_edges edges, workingValue, insets]
    rfl
  have exchanges := values_flipEdges_iff closes unmarked fun four => closed (.inl (size.trans four))
  rw [← written] at exchanges
  have flips : flipped.flips = _ := flips_flipByRule options found
  refine ⟨_, declaration?_flipByRule options found, exchanges, fun apart => ?_, fun counted => ⟨fun other => ?_, fun differs => ?_⟩⟩
  · have same : depthFrom 0 (withoutComments decl.written) = 0 → real = seen := fun balanced =>
      (values_withoutComments closes unmarked balanced).trans apart.shown_values
    exact ⟨fun four => (same (closed (.inl four))) ▸ four, fun four => (same (closed (.inr four))) ▸ four⟩
  · have kept : ¬ (flipped? run.scene.options decl).isSome = true := by
      rw [isSome_flipped?_of_edges edges, written, flipEdges_of_length_ne (size ▸ mt counted.mp other),
        restore_setAside unmarked]
      exact fun differs => differs rfl
    rw [flips, if_neg kept]
    rfl
  · have changes : (flipped? run.scene.options decl).isSome = true := by
      rw [isSome_flipped?_of_edges edges]
      intro same
      have turned := exchanges.mpr (.inl counted)
      rw [same] at turned
      exact differs turned.symm
    rw [flips, if_pos changes]

/-- Comments attached to the values and between them, one of which is a sum. -/
theorem values_flipByRule_attached :
    ∃ sheet decl changed, Sheet.parse "a{margin:1px/*a*/ 2px /*b*/ calc(3px + 1px) /*c*/4px}".toList = .ok sheet ∧
      sheet.declaration? 2 = some decl ∧ closesComments false decl.written = true ∧ placeholderOpen ∉ decl.written ∧
      (Run.flipByRule (engine {}).registry ((engine { processEnv := false }).start sheet) 2).scene.sheet.declaration? 2 = some changed ∧
      values (withoutComments changed.written) =
        ["1px".toList, "4px".toList, "calc(3px + 1px)".toList, "2px".toList] := by
  let decl : Declaration :=
    { property := "margin".toList, between := ":".toList, value := "1px 2px  calc(3px + 1px) 4px".toList
      raw := some "1px/*a*/ 2px /*b*/ calc(3px + 1px) /*c*/4px".toList, important := none }
  let sheet : Sheet := ⟨#[{ content := .root, children := [1] },
    { content := .rule "a".toList, parent := some 0, children := [2] },
    { content := .declaration decl, parent := some 1 }]⟩
  have parsed : Sheet.parse "a{margin:1px/*a*/ 2px /*b*/ calc(3px + 1px) /*c*/4px}".toList = .ok sheet := by cbv
  have closes : closesComments false decl.written = true := by cbv
  have unmarked : placeholderOpen ∉ decl.written := by decide +kernel
  have aside : (setAside decl.written).1 = "1px\ue0000\ue001 2px \ue0001\ue001 calc(3px + 1px) \ue0002\ue0014px".toList := by
    cbv
  have outside : withoutComments decl.written = "1px 2px  calc(3px + 1px) 4px".toList := by cbv
  have real : values "1px 2px  calc(3px + 1px) 4px".toList =
      ["1px".toList, "2px".toList, "calc(3px + 1px)".toList, "4px".toList] := by decide +kernel
  have seen : (Row.ofText "1px\ue0000\ue001 2px \ue0001\ue001 calc(3px + 1px) \ue0002\ue0014px".toList).texts.length = 4 := by
    decide +kernel
  have exchanges := @values_flipByRule {} ((engine { processEnv := false }).start sheet) 2 decl rfl rfl rfl closes unmarked
  dsimp only at exchanges
  rw [aside, outside, real, List.length_map, seen] at exchanges
  obtain ⟨changed, result, turned, _⟩ := exchanges fun _ => by decide +kernel
  exact ⟨sheet, decl, changed, parsed, rfl, closes, unmarked, result, turned.mpr (.inl (iff_of_true rfl rfl))⟩

/-- A value between two comments is taken for a comment: three values are seen, and none are exchanged. -/
theorem values_flipByRule_enclosed :
    ∃ sheet decl changed, Sheet.parse "a{margin:1px /*a*/2px/*b*/ 3px 4px}".toList = .ok sheet ∧
      sheet.declaration? 2 = some decl ∧ closesComments false decl.written = true ∧ placeholderOpen ∉ decl.written ∧
      (Run.flipByRule (engine {}).registry ((engine { processEnv := false }).start sheet) 2).scene.sheet.declaration? 2 = some changed ∧
      values (withoutComments decl.written) = ["1px".toList, "2px".toList, "3px".toList, "4px".toList] ∧
      values (withoutComments changed.written) = ["1px".toList, "2px".toList, "3px".toList, "4px".toList] := by
  let decl : Declaration :=
    { property := "margin".toList, between := ":".toList, value := "1px 2px 3px 4px".toList
      raw := some "1px /*a*/2px/*b*/ 3px 4px".toList, important := none }
  let sheet : Sheet := ⟨#[{ content := .root, children := [1] },
    { content := .rule "a".toList, parent := some 0, children := [2] },
    { content := .declaration decl, parent := some 1 }]⟩
  have unmarked : placeholderOpen ∉ decl.written := by decide +kernel
  have aside : (setAside decl.written).1 = "1px \ue0000\ue0012px\ue0001\ue001 3px 4px".toList := by cbv
  have three : (Row.ofText (setAside decl.written).1).texts.length ≠ 4 := by
    rw [aside]
    decide +kernel
  let options : Options := { processEnv := false }
  have written : ((flipped? options decl).getD decl).written = decl.written := by
    have edges : (edgeShorthands : FlipRule State).fits ((options.alias? decl.property).getD decl.property) = true :=
      rfl
    rw [written_flipped?, answer?_edges edges, workingValue, if_neg Bool.false_ne_true, flipEdges_of_length_ne three]
    exact restore_setAside unmarked
  have outside : withoutComments decl.written = "1px 2px 3px 4px".toList := by cbv
  have real : values "1px 2px 3px 4px".toList = ["1px".toList, "2px".toList, "3px".toList, "4px".toList] := by decide +kernel
  have result := @declaration?_flipByRule {} ((engine options).start sheet) 2 decl rfl
  refine ⟨sheet, decl, _, by cbv, rfl, by cbv, unmarked, result, outside ▸ real, ?_⟩
  rw [show ((engine options).start sheet).scene.options = options from rfl, written, outside, real]

end Standard
end StyleFlip
