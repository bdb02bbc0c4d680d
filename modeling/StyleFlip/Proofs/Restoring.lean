import Mathlib
import StyleFlip.Proofs.Placeholders

/-!
When the comments that were set aside come back to their places. Between its comments a text may hold anything, also what
looks like a placeholder. Putting back goes through a text placeholder by placeholder (`placeInduction`), and as a placeholder
starts with a character that stands nowhere else in it, the stretches between the comments and the placeholders that stand for
the comments are dealt with apart (`restore_append_open`). A stretch comes back unless it forges a placeholder, a written one
whose number a comment has (`Forges`); what is put in there starts with another character, so nothing that follows makes up for
it (`restore_append_eq_append_iff`). Hence a text comes back exactly if none of its stretches forges one (`restore_setAside_iff`).
-/
namespace StyleFlip.Text

/-! ## Putting back -/

theorem restore_nil (set : List Text) : restore set [] = [] := by rw [restore]

theorem restore_open_of_some {set : List Text} {rest digits following : Text}
    (found : placeholderDigits? rest = some (digits, following)) :
    restore set (placeholderOpen :: rest) =
      set[digitsValue digits]?.getD (placeholderOpen :: (digits ++ [placeholderClose])) ++ restore set following := by
  rw [restore, if_pos rfl]
  split
  · rename_i same
    rw [found] at same
    cases same
    rfl
  · rename_i same
    rw [found] at same
    cases same

theorem restore_open_of_none {set : List Text} {rest : Text} (unread : placeholderDigits? rest = none) :
    restore set (placeholderOpen :: rest) = placeholderOpen :: restore set rest := by
  rw [restore, if_pos rfl]
  split
  · rename_i same
    rw [unread] at same
    cases same
  · rfl

theorem restore_cons_of_ne {set : List Text} {c : Char} (other : c ≠ placeholderOpen) (rest : Text) :
    restore set (c :: rest) = c :: restore set rest := by
  rw [restore, if_neg other]

theorem placeholderDigits?_of_digits {digits : Text} (nonempty : digits ≠ []) (numeric : ∀ c ∈ digits, c.isDigit = true)
    (following : Text) : placeholderDigits? (digits ++ placeholderClose :: following) = some (digits, following) := by
  obtain ⟨d, more, rfl⟩ := List.exists_cons_of_ne_nil nonempty
  have taken : (d :: more ++ placeholderClose :: following).takeWhile Char.isDigit = d :: more := by
    rw [List.takeWhile_append_of_pos numeric, List.takeWhile_cons_of_neg (by decide), List.append_nil]
  have dropped : (d :: more ++ placeholderClose :: following).dropWhile Char.isDigit = placeholderClose :: following := by
    rw [List.dropWhile_append_of_pos numeric, List.dropWhile_cons_of_neg (by decide)]
  simp only [placeholderDigits?, taken, dropped, if_true]

theorem placeholderDigits?_eq_none_of_append {text rest : Text} (unread : placeholderDigits? (text ++ rest) = none) :
    placeholderDigits? text = none := by
  cases found : placeholderDigits? text with
  | none => rfl
  | some pair =>
    obtain ⟨rfl, nonempty, numeric⟩ := placeholderDigits?_eq_some found
    rw [List.append_assoc, List.cons_append, placeholderDigits?_of_digits nonempty numeric] at unread
    cases unread

/-- Induction over a text placeholder by placeholder. -/
@[elab_as_elim]
theorem placeInduction {motive : Text → Prop} (nil : motive [])
    (place : ∀ digits following, digits ≠ [] → (∀ c ∈ digits, c.isDigit = true) → motive following →
      motive (placeholderOpen :: (digits ++ placeholderClose :: following)))
    (unread : ∀ rest, placeholderDigits? rest = none → motive rest → motive (placeholderOpen :: rest))
    (char : ∀ c rest, c ≠ placeholderOpen → motive rest → motive (c :: rest)) (text : Text) : motive text := by
  fun_induction restore [] text with
  | case1 => exact nil
  | case2 rest digits following found ih =>
    obtain ⟨rfl, nonempty, numeric⟩ := placeholderDigits?_eq_some found
    exact place digits following nonempty numeric ih
  | case3 rest none ih => exact unread rest none ih
  | case4 c rest other ih => exact char c rest other ih

/-- No placeholder goes on behind a character that opens one. -/
theorem placeholderDigits?_append_open {text : Text} (unread : placeholderDigits? text = none) (rest : Text) :
    placeholderDigits? (text ++ placeholderOpen :: rest) = none := by
  cases found : placeholderDigits? (text ++ placeholderOpen :: rest) with
  | none => rfl
  | some pair =>
    obtain ⟨digits, following⟩ := pair
    obtain ⟨whole, nonempty, numeric⟩ := placeholderDigits?_eq_some found
    rcases List.append_eq_append_iff.mp whole with ⟨more, front, behind⟩ | ⟨more, front, behind⟩
    · -- The digits would hold the opening character.
      cases more with
      | nil => cases (List.cons_eq_cons.mp behind).1
      | cons d more =>
        obtain ⟨rfl, -⟩ := List.cons_eq_cons.mp behind
        exact absurd (numeric placeholderOpen (by simp [front])) (by decide)
    · cases more with
      | nil => cases (List.cons_eq_cons.mp behind).1
      | cons d more =>
        obtain ⟨rfl, -⟩ := List.cons_eq_cons.mp behind
        rw [front, placeholderDigits?_of_digits nonempty numeric] at unread
        cases unread

/-- What stands before a character that opens a placeholder is dealt with apart. -/
theorem restore_append_open (set : List Text) (text rest : Text) :
    restore set (text ++ placeholderOpen :: rest) = restore set text ++ restore set (placeholderOpen :: rest) := by
  induction text using placeInduction with
  | nil => rw [restore_nil, List.nil_append, List.nil_append]
  | place digits following nonempty numeric ih =>
    have read := placeholderDigits?_of_digits nonempty numeric
    rw [List.cons_append, List.append_assoc, List.cons_append, restore_open_of_some (read _), restore_open_of_some (read _), ih,
      List.append_assoc]
  | unread following unread ih =>
    rw [List.cons_append, restore_open_of_none (placeholderDigits?_append_open unread rest), restore_open_of_none unread, ih,
      List.cons_append]
  | char c following other ih =>
    rw [List.cons_append, restore_cons_of_ne other, restore_cons_of_ne other, ih, List.cons_append]

/-- The comment of a number is put in the place of its placeholder. -/
theorem restore_placeholder_append {set : List Text} {index : Nat} {comment : Text} (known : set[index]? = some comment)
    (text rest : Text) : restore set (text ++ (placeholder index ++ rest)) = restore set text ++ (comment ++ restore set rest) := by
  have read := placeholderDigits?_of_digits Nat.toDigits_ne_nil (isDigit_of_mem_toDigits index) rest
  rw [placeholder_append, restore_append_open, restore_open_of_some read, digitsValue_toDigits, known, Option.getD_some]

/-! ## Forged placeholders -/

/-- The text holds a written placeholder with one of the first numbers. -/
def Forges (count : Nat) (text : Text) : Prop :=
  ∃ digits : Text, digits ≠ [] ∧ (∀ c ∈ digits, c.isDigit = true) ∧ digitsValue digits < count ∧
    placeholderOpen :: (digits ++ [placeholderClose]) <:+: text

section
variable {count : Nat}

theorem not_forges_nil : ¬ Forges count [] := by
  rintro ⟨digits, -, -, -, inside⟩
  simp at inside

theorem not_forges_of_not_mem {text : Text} (unmarked : placeholderOpen ∉ text) : ¬ Forges count text := by
  rintro ⟨digits, -, -, -, inside⟩
  exact unmarked (inside.mem List.mem_cons_self)

theorem forges_cons_of_ne {c : Char} (other : c ≠ placeholderOpen) (rest : Text) :
    Forges count (c :: rest) ↔ Forges count rest := by
  simp only [Forges, List.infix_cons_iff, List.cons_prefix_cons, Ne.symm other, false_and, false_or]

theorem forges_append_of_not_mem {front : Text} (unmarked : placeholderOpen ∉ front) (rest : Text) :
    Forges count (front ++ rest) ↔ Forges count rest := by
  induction front with
  | nil => rfl
  | cons c front ih =>
    obtain ⟨other, later⟩ := not_or.mp (fun either => unmarked (List.mem_cons.mpr either))
    rw [List.cons_append, forges_cons_of_ne (Ne.symm other), ih later]

/-- A placeholder is forged at the start of a text, or behind it. -/
theorem forges_open_iff (rest : Text) :
    Forges count (placeholderOpen :: rest) ↔
      (∃ digits following, placeholderDigits? rest = some (digits, following) ∧ digitsValue digits < count) ∨ Forges count rest := by
  constructor
  · rintro ⟨digits, nonempty, numeric, small, inside⟩
    rcases List.infix_cons_iff.mp inside with ⟨following, here⟩ | later
    · have whole : digits ++ placeholderClose :: following = rest := by simpa using here
      refine .inl ⟨digits, following, ?_, small⟩
      rw [← whole]
      exact placeholderDigits?_of_digits nonempty numeric following
    · exact .inr ⟨digits, nonempty, numeric, small, later⟩
  · rintro (⟨digits, following, read, small⟩ | ⟨digits, nonempty, numeric, small, inside⟩)
    · obtain ⟨rfl, nonempty, numeric⟩ := placeholderDigits?_eq_some read
      exact ⟨digits, nonempty, numeric, small, [], following, by simp⟩
    · exact ⟨digits, nonempty, numeric, small, List.infix_cons_iff.mpr (.inr inside)⟩

theorem forges_place_iff {digits : Text} (nonempty : digits ≠ []) (numeric : ∀ c ∈ digits, c.isDigit = true) (rest : Text) :
    Forges count (placeholderOpen :: (digits ++ placeholderClose :: rest)) ↔ digitsValue digits < count ∨ Forges count rest := by
  have unmarked : placeholderOpen ∉ digits := fun member => absurd (numeric _ member) (by decide)
  rw [forges_open_iff, placeholderDigits?_of_digits nonempty numeric, forges_append_of_not_mem unmarked,
    forges_cons_of_ne (by decide)]
  simp

theorem forges_unread_iff {rest : Text} (unread : placeholderDigits? rest = none) :
    Forges count (placeholderOpen :: rest) ↔ Forges count rest := by
  rw [forges_open_iff, unread]
  simp

end

/-- Whatever follows, a stretch comes back exactly if it forges no placeholder. -/
theorem restore_append_eq_append_iff {set : List Text} (genuine : ∀ comment ∈ set, IsComment comment) (stretch rest other : Text) :
    restore set stretch ++ rest = stretch ++ other ↔ ¬ Forges set.length stretch ∧ rest = other := by
  induction stretch using placeInduction with
  | nil => simp [restore_nil, not_forges_nil]
  | place digits following nonempty numeric ih =>
    rw [restore_open_of_some (placeholderDigits?_of_digits nonempty numeric following), forges_place_iff nonempty numeric]
    by_cases known : digitsValue digits < set.length
    · -- A comment was put in, and it starts with a slash.
      obtain ⟨body, comment, -⟩ := genuine _ (List.getElem_mem known)
      rw [List.getElem?_eq_getElem known, Option.getD_some, comment]
      simp [known, Piece.text, commentOpen, placeholderOpen]
    · rw [List.getElem?_eq_none (Nat.le_of_not_lt known), Option.getD_none]
      simp [known, ih]
  | unread following unread ih =>
    rw [restore_open_of_none unread, forges_unread_iff unread, List.cons_append, List.cons_append, List.cons_inj_right, ih]
  | char c following plain ih =>
    rw [restore_cons_of_ne plain, forges_cons_of_ne plain, List.cons_append, List.cons_append, List.cons_inj_right, ih]

/-! ## Stretches between comments -/

/-- The texts before, between and behind the comments among some pieces. -/
def stretchesOf (found : List Piece) : List Text :=
  (found.splitOnP fun piece => piece.comment?.isSome).map fun row => row.flatMap Piece.text

/-- The texts before, between and behind the closed comments of a text. -/
def stretches (text : Text) : List Text := stretchesOf (pieces text)

theorem stretchesOf_nil : stretchesOf [] = [[]] := by
  simp [stretchesOf, List.splitOnP_nil]

theorem stretchesOf_char (c : Char) (rest : List Piece) : stretchesOf (.char c :: rest) = (stretchesOf rest).modifyHead (c :: ·) := by
  rw [stretchesOf, List.splitOnP_cons_eq_if_modifyHead, stretchesOf]
  cases List.splitOnP (fun piece : Piece => piece.comment?.isSome) rest <;> rfl

theorem stretchesOf_comment (body : Text) (rest : List Piece) : stretchesOf (.comment body :: rest) = [] :: stretchesOf rest := by
  rw [stretchesOf, List.splitOnP_cons_eq_if_modifyHead, stretchesOf]
  rfl

/-- A stretch consists of characters outside comments. -/
theorem char_mem_of_mem_stretchesOf {found : List Piece} {stretch : Text} {c : Char} (member : stretch ∈ stretchesOf found)
    (own : c ∈ stretch) : .char c ∈ found := by
  induction found generalizing stretch with
  | nil =>
    rw [stretchesOf_nil, List.mem_singleton] at member
    rw [member] at own
    cases own
  | cons piece rest ih =>
    cases piece with
    | comment body =>
      rw [stretchesOf_comment] at member
      rcases List.mem_cons.mp member with rfl | later
      · cases own
      · exact List.mem_cons_of_mem _ (ih later own)
    | char d =>
      rw [stretchesOf_char] at member
      cases row : stretchesOf rest with
      | nil =>
        rw [row] at member
        cases member
      | cons first others =>
        rw [row, List.modifyHead_cons] at member
        rcases List.mem_cons.mp member with rfl | later
        · rcases List.mem_cons.mp own with rfl | inside
          · exact List.mem_cons_self
          · exact List.mem_cons_of_mem _ (ih (row ▸ List.mem_cons_self) inside)
        · exact List.mem_cons_of_mem _ (ih (row ▸ List.mem_cons_of_mem _ later) own)

/-- Pieces whose comments were set aside come back exactly if no stretch of them forges a placeholder. The text `front` is the
part of the first stretch that was gone through before. -/
theorem restore_setAsideFrom_iff {set : List Text} (genuine : ∀ comment ∈ set, IsComment comment) (found : List Piece) (next : Nat)
    (listed : ∀ index < (found.filterMap Piece.comment?).length, set[next + index]? = (found.filterMap Piece.comment?)[index]?)
    (front : Text) :
    restore set (front ++ (setAsideFrom next found).1) = front ++ found.flatMap Piece.text ↔
      ∀ stretch ∈ (stretchesOf found).modifyHead (front ++ ·), ¬ Forges set.length stretch := by
  induction found generalizing next front with
  | nil =>
    have alone := restore_append_eq_append_iff genuine front [] []
    simpa [setAsideFrom, stretchesOf_nil] using alone
  | cons piece rest ih =>
    cases piece with
    | char c =>
      have joined : ((front ++ ·) ∘ (c :: ·) : Text → Text) = (front ++ [c] ++ ·) := by
        funext text
        simp
      have onward := ih next listed (front ++ [c])
      rw [List.append_assoc, List.append_assoc] at onward
      rw [stretchesOf_char, List.modifyHead_modifyHead, joined]
      exact onward
    | comment body =>
      have first : set[next]? = some (Piece.comment body).text := listed 0 (Nat.succ_pos _)
      have later : ∀ index < (rest.filterMap Piece.comment?).length,
          set[next + 1 + index]? = (rest.filterMap Piece.comment?)[index]? := by
        intro index inside
        rw [Nat.add_assoc, Nat.add_comm 1]
        exact listed (index + 1) (Nat.succ_lt_succ inside)
      have onward := ih (next + 1) later []
      have whole : (setAsideFrom next (.comment body :: rest)).1 = placeholder next ++ (setAsideFrom (next + 1) rest).1 := rfl
      rw [whole, restore_placeholder_append first, List.flatMap_cons, restore_append_eq_append_iff genuine, List.append_right_inj,
        stretchesOf_comment, List.modifyHead_cons, List.forall_mem_cons, List.append_nil]
      refine and_congr_right fun _ => onward.trans ?_
      rw [show ([] ++ · : Text → Text) = id from rfl, List.modifyHead_id]
      rfl

/-- A text comes back exactly if none of its stretches forges a placeholder. -/
theorem restore_setAside_iff (text : Text) :
    restore (setAside text).2 (setAside text).1 = text ↔ ∀ stretch ∈ stretches text, ¬ Forges (comments text).length stretch := by
  have listed : ∀ index < (comments text).length, (comments text)[0 + index]? = (comments text)[index]? := by
    intro index _
    rw [Nat.zero_add]
  have pieced := restore_setAsideFrom_iff (fun _ => isComment_of_mem_comments) (pieces text) 0 listed []
  rw [flatMap_text_pieces, show ([] ++ · : Text → Text) = id from rfl, List.modifyHead_id] at pieced
  rw [snd_setAside]
  exact pieced

/-- A text without marks comes back from what was set aside. -/
theorem restore_setAside {text : Text} (unmarked : placeholderOpen ∉ text) :
    restore (setAside text).2 (setAside text).1 = text := by
  refine (restore_setAside_iff text).mpr fun stretch member => not_forges_of_not_mem fun inside => unmarked ?_
  have piece := char_mem_of_mem_stretchesOf member inside
  rw [← flatMap_text_pieces text]
  exact List.mem_flatMap.mpr ⟨_, piece, List.mem_singleton_self _⟩

/-! ## What is left of the comments -/

theorem pieces_of_unclosed {text : Text} (unclosed : ¬ commentClose <:+: text) : pieces text = text.map .char := by
  fun_induction pieces text with
  | case1 => rfl
  | case2 rest body following found ih =>
    refine absurd ?_ unclosed
    exact ⟨'/' :: '*' :: body, following, by simp [cut?_eq_some found]⟩
  | case3 rest none ih =>
    rw [ih fun inside => unclosed (List.infix_cons_iff.mpr (.inr inside))]
    rfl
  | case4 c rest other ih =>
    rw [ih fun inside => unclosed (List.infix_cons_iff.mpr (.inr inside))]
    rfl

theorem fst_setAsideFrom_chars (next : Nat) (text : Text) : (setAsideFrom next (text.map .char)).1 = text := by
  induction text with
  | nil => rfl
  | cons c rest ih => exact congrArg (c :: ·) ih

/-- A comment stands in a text behind a part without slashes, or not at all. -/
theorem comment_infix_append {front rest body : Text} (plain : '/' ∉ front) (inside : (Piece.comment body).text <:+: front ++ rest) :
    (Piece.comment body).text <:+: rest := by
  induction front with
  | nil => exact inside
  | cons c front ih =>
    rcases List.infix_cons_iff.mp inside with here | later
    · exact absurd (List.cons_prefix_cons.mp here).1 fun slash => plain (slash ▸ List.mem_cons_self)
    · exact ih (fun member => plain (List.mem_cons_of_mem _ member)) later

/-- Where the comments of a text were set aside, no comment is left and none has come about. -/
theorem not_comment_infix_setAsideFrom (next : Nat) (text body : Text) :
    ¬ (Piece.comment body).text <:+: (setAsideFrom next (pieces text)).1 := by
  fun_induction pieces text generalizing next with
  | case1 =>
    intro inside
    simp [setAsideFrom, Piece.text, commentOpen] at inside
  | case2 rest first following found ih =>
    have plain : '/' ∉ placeholder next := by
      intro member
      rcases List.mem_cons.mp member with slash | later
      · exact absurd slash (by decide)
      · rcases List.mem_append.mp later with digit | close
        · exact absurd (isDigit_of_mem_toDigits next _ digit) (by decide)
        · exact absurd (List.mem_singleton.mp close) (by decide)
    exact fun inside => ih (next + 1) (comment_infix_append plain inside)
  | case3 rest none ih =>
    -- What is opened here is never closed, so all of the rest stays as it is.
    have unclosed : ¬ commentClose <:+: rest := by
      rw [← holds_iff, holds, none]
      simp
    have stays : (setAsideFrom next (pieces ('*' :: rest))).1 = '*' :: rest := by
      rw [pieces_cons (by simp), pieces_of_unclosed unclosed]
      exact fst_setAsideFrom_chars next ('*' :: rest)
    intro inside
    rcases List.infix_cons_iff.mp inside with here | later
    · rw [stays] at here
      obtain ⟨following, whole⟩ := (List.cons_prefix_cons.mp (List.cons_prefix_cons.mp here).2).2
      exact unclosed ⟨body, following, whole⟩
    · exact ih next later
  | case4 c rest other ih =>
    intro inside
    rcases List.infix_cons_iff.mp inside with here | later
    · obtain ⟨rfl, star⟩ := List.cons_prefix_cons.mp here
      obtain ⟨following, whole⟩ := star
      have first : rest.head? = some '*' := head?_setAsideFrom (by rw [← whole]; rfl)
      obtain ⟨more, rfl⟩ := List.head?_eq_some_iff.mp first
      exact other more rfl rfl
    · exact ih next later

/-- Comments that are set aside come back to their places if and only if there are none, or no stretch of the text between them
holds a written placeholder whose number is smaller than their number; and where they were set aside, no comment is left. -/
theorem comments_come_back_iff (text : Text) :
    (restore (setAside text).2 (setAside text).1 = text ↔
      comments text = [] ∨ ∀ stretch ∈ stretches text, ¬ Forges (comments text).length stretch) ∧
    ∀ body, ¬ (Piece.comment body).text <:+: (setAside text).1 := by
  refine ⟨?_, not_comment_infix_setAsideFrom 0 text⟩
  rw [restore_setAside_iff, or_iff_right_of_imp]
  rintro none stretch - ⟨digits, -, -, small, -⟩
  simp [none] at small

/-- A forged placeholder is exchanged for a second copy of the comment whose number it has. -/
example :
    let text := "\uE0000\uE001 /*a*/".toList
    restore (setAside text).2 (setAside text).1 = "/*a*/ /*a*/".toList := by
  cbv

end StyleFlip.Text
