import StyleFlip.Text.Comment
import Mathlib.Data.List.Basic
import Mathlib.Tactic.Common

/-!
Comments that are set aside for placeholders and put back. What of a text matters for this are its marks (`marks`): the
places where a comment is opened, and the placeholders. A text whose comments were all set aside has the placeholders in
order and nothing else (`marks_setAside`). Whatever is made of it then, as long as no mark is new to it, its comments are
those that its marks stand for (`comments_restore_setAside`). Marks can be told piece by piece where a text is cut next to a
character that belongs to none (`marks_append_of_starts`, `marks_append_of_ends`).
-/
namespace StyleFlip.Text

/-! ## Comments of a text -/

def Piece.comment? : Piece → Option Text
  | .char _ => none
  | .comment body => some (Piece.comment body).text

def comments (text : Text) : List Text := (pieces text).filterMap Piece.comment?

/-- Whether every comment is closed, from inside a comment or from outside. -/
def closesComments : Bool → Text → Bool
  | false, '/' :: '*' :: rest => closesComments true rest
  | false, _ :: rest => closesComments false rest
  | true, '*' :: '/' :: rest => closesComments false rest
  | true, _ :: rest => closesComments true rest
  | inside, [] => !inside

theorem closesComments_false_cons {c : Char} {rest : Text} (other : ¬ (c = '/' ∧ rest.head? = some '*')) :
    closesComments false (c :: rest) = closesComments false rest := by
  rw [closesComments]
  intro following slash star
  exact other ⟨slash, by rw [star]; rfl⟩

theorem closesComments_true_cons {c : Char} {rest : Text} (other : ¬ (c = '*' ∧ rest.head? = some '/')) :
    closesComments true (c :: rest) = closesComments true rest := by
  rw [closesComments]
  intro following star slash
  exact other ⟨star, by rw [slash]; rfl⟩

theorem after?_commentClose_eq_none {c : Char} {rest : Text} :
    after? commentClose (c :: rest) = none ↔ ¬ (c = '*' ∧ rest.head? = some '/') := by
  by_cases star : c = '*'
  · cases rest with
    | nil => simp [after?, commentClose, List.isPrefixOf?, star]
    | cons d rest =>
      by_cases slash : d = '/'
      · simp [after?, commentClose, List.isPrefixOf?, star, slash]
      · simp [after?, commentClose, List.isPrefixOf?, star, slash, Ne.symm slash]
  · simp [after?, commentClose, List.isPrefixOf?, star, Ne.symm star]

/-- A text that goes on inside a comment and closes it has a first place where it is closed. -/
theorem exists_cut_of_closesComments {text : Text} (closes : closesComments true text = true) :
    ∃ body following, cut? commentClose text = some (body, following) ∧ closesComments false following = true := by
  induction text with
  | nil => cases closes
  | cons c rest ih =>
    rw [cut?]
    cases start : after? commentClose (c :: rest) with
    | some following =>
      obtain ⟨rfl, rfl⟩ := List.cons_eq_cons.mp (after?_eq_some start)
      exact ⟨[], following, rfl, closes⟩
    | none =>
      rw [closesComments_true_cons (after?_commentClose_eq_none.mp start)] at closes
      obtain ⟨body, following, cut, outside⟩ := ih closes
      exact ⟨c :: body, following, by rw [cut]; rfl, outside⟩

def IsComment (text : Text) : Prop :=
  ∃ body, text = (Piece.comment body).text ∧
    ∀ later, cut? commentClose (body ++ commentClose ++ later) = some (body, later)

theorem pieces_cons {c : Char} {rest : Text} (other : ¬ (c = '/' ∧ rest.head? = some '*')) :
    pieces (c :: rest) = .char c :: pieces rest := by
  rw [pieces]
  intro following slash star
  exact other ⟨slash, by rw [star]; rfl⟩

theorem comments_cons {c : Char} {rest : Text} (other : ¬ (c = '/' ∧ rest.head? = some '*')) :
    comments (c :: rest) = comments rest := by
  rw [comments, pieces_cons other]
  rfl

theorem comments_nil : comments [] = [] := by
  rw [comments, pieces, List.filterMap_nil]

theorem pieces_of_cut? {rest body following : Text} (cut : cut? commentClose rest = some (body, following)) :
    pieces ('/' :: '*' :: rest) = .comment body :: pieces following := by
  rw [pieces]
  split
  · rename_i found
    rw [cut] at found
    cases found
    rfl
  · rename_i found
    rw [cut] at found
    cases found

theorem comments_append {comment : Text} (isComment : IsComment comment) (rest : Text) :
    comments (comment ++ rest) = comment :: comments rest := by
  obtain ⟨body, rfl, cut⟩ := isComment
  have whole : (Piece.comment body).text ++ rest = '/' :: '*' :: (body ++ commentClose ++ rest) := by
    simp [Piece.text, commentOpen]
  rw [whole, comments, pieces_of_cut? (cut rest)]
  rfl

theorem isComment_of_cut? {text body following : Text} (cut : cut? commentClose text = some (body, following)) :
    IsComment (Piece.comment body).text := ⟨body, rfl, cut?_again cut⟩

/-! ## Marks -/

/-- What to watch for in a text that has placeholders. -/
inductive Mark where
  /-- A comment is opened. -/
  | opening
  /-- The placeholder with this number. -/
  | place (index : Nat)
deriving DecidableEq, Repr

/-- What the last characters were. -/
inductive Reading where
  | idle
  | slash
  /-- A placeholder was opened, with these digits so far. -/
  | number (digits : Text)
deriving DecidableEq, Repr

namespace Reading

def next (reading : Reading) (c : Char) : Reading :=
  if c = '/' then .slash
  else if c = placeholderOpen then .number []
  else match reading with
    | .number digits => if c.isDigit then .number (digits ++ [c]) else .idle
    | _ => .idle

/-- The mark that a character completes. -/
def mark? (reading : Reading) (c : Char) : Option Mark :=
  match reading with
  | .idle => none
  | .slash => if c = '*' then some .opening else none
  | .number digits => if c = placeholderClose ∧ digits ≠ [] then some (.place (digitsValue digits)) else none

end Reading

/-- The marks of a text, from where a reading stands. -/
def marksFrom (reading : Reading) : Text → List Mark
  | [] => []
  | c :: rest => (reading.mark? c).toList ++ marksFrom (reading.next c) rest

/-- The marks of a text: comments that are opened, and placeholders. -/
def marks (text : Text) : List Mark := marksFrom .idle text

theorem marks_nil : marks [] = [] := rfl

/-- Characters that belong to no mark. -/
def isInert (c : Char) : Bool :=
  c ≠ '/' && c ≠ '*' && c ≠ placeholderOpen && c ≠ placeholderClose && !c.isDigit

theorem isInert_iff {c : Char} :
    isInert c = true ↔ c ≠ '/' ∧ c ≠ '*' ∧ c ≠ placeholderOpen ∧ c ≠ placeholderClose ∧ c.isDigit = false := by
  simp [isInert, and_assoc]

theorem marksFrom_append (reading : Reading) (text rest : Text) :
    marksFrom reading (text ++ rest) = marksFrom reading text ++ marksFrom (text.foldl Reading.next reading) rest := by
  induction text generalizing reading with
  | nil => rfl
  | cons c text ih => simp only [List.cons_append, marksFrom, ih, List.foldl_cons, List.append_assoc]

theorem Reading.next_of_isInert {c : Char} (inert : isInert c = true) (reading : Reading) : reading.next c = .idle := by
  rw [isInert_iff] at inert
  unfold Reading.next
  simp only [inert, if_false, Bool.false_eq_true]
  cases reading <;> rfl

theorem Reading.mark?_of_isInert {c : Char} (inert : isInert c = true) (reading : Reading) :
    reading.mark? c = none := by
  rw [isInert_iff] at inert
  unfold Reading.mark?
  cases reading <;> simp [inert]

theorem marksFrom_cons_of_isInert {c : Char} (inert : isInert c = true) (reading : Reading) (rest : Text) :
    marksFrom reading (c :: rest) = marks rest := by
  rw [marksFrom, Reading.mark?_of_isInert inert, Reading.next_of_isInert inert]
  rfl

theorem marksFrom_inert_append {text : Text} (inert : ∀ c ∈ text, isInert c = true) (nonempty : text ≠ [])
    (reading : Reading) (rest : Text) : marksFrom reading (text ++ rest) = marks rest := by
  induction text generalizing reading with
  | nil => exact absurd rfl nonempty
  | cons c text ih =>
    obtain ⟨here, others⟩ := List.forall_mem_cons.mp inert
    rw [List.cons_append, marksFrom_cons_of_isInert here]
    cases text with
    | nil => rfl
    | cons d text => exact ih others (List.cons_ne_nil _ _) .idle

theorem marksFrom_slash {text : Text} (other : text.head? ≠ some '*') : marksFrom .slash text = marks text := by
  cases text with
  | nil => rfl
  | cons c rest =>
    have plain : c ≠ '*' := fun star => other (by rw [star]; rfl)
    simp only [marks, marksFrom, Reading.mark?, if_neg plain]
    rfl

theorem marks_cons_of_ne {c : Char} (notSlash : c ≠ '/') (notOpen : c ≠ placeholderOpen) (rest : Text) :
    marks (c :: rest) = marks rest := by
  simp only [marks, marksFrom, Reading.mark?, Reading.next, if_neg notSlash, if_neg notOpen, Option.toList_none,
    List.nil_append]

/-- Where no comment is opened, no star follows a slash. -/
theorem head?_ne_of_unopened {rest : Text} (unopened : .opening ∉ marksFrom .slash rest) : rest.head? ≠ some '*' := by
  cases rest with
  | nil => exact nofun
  | cons c rest =>
    rintro ⟨⟩
    exact unopened List.mem_cons_self

/-! ## Clean cuts -/

/-- Characters of a kind that leaves out those of the marks. -/
theorem isInert_of_kind (kind : Char → Bool) {c : Char} (own : kind c = true) (slash : kind '/' = false)
    (star : kind '*' = false) (opening : kind placeholderOpen = false) (closing : kind placeholderClose = false)
    (notDigit : c.isDigit = false) : isInert c = true := by
  have other : ∀ {d}, kind d = false → c ≠ d := by
    rintro d outside rfl
    rw [own] at outside
    cases outside
  exact isInert_iff.mpr ⟨other slash, other star, other opening, other closing, notDigit⟩

theorem isInert_of_isBlank {c : Char} (blank : isBlank c = true) : isInert c = true := by
  refine isInert_of_kind isBlank blank (by decide) (by decide) (by decide) (by decide) ?_
  simp only [isBlank, Bool.or_eq_true, Bool.and_eq_true, decide_eq_true_eq, beq_iff_eq] at blank
  rw [← Bool.not_eq_true]
  intro digit
  simp only [Char.isDigit, Bool.and_eq_true, decide_eq_true_eq] at digit
  have low : 48 ≤ c.toNat := digit.1
  have high : c.toNat ≤ 57 := digit.2
  omega

/-- Whether a text is a word of small letters and dashes. -/
def isKeyword (text : Text) : Bool := text ≠ [] && text.all fun c => c.isLower || c = '-'

theorem isInert_of_isKeyword {text : Text} (keyword : isKeyword text = true) :
    text ≠ [] ∧ ∀ c ∈ text, isInert c = true := by
  simp only [isKeyword, Bool.and_eq_true, decide_eq_true_eq, List.all_eq_true] at keyword
  refine ⟨keyword.1, fun c member => ?_⟩
  have own := keyword.2 c member
  refine isInert_of_kind (fun c => c.isLower || c = '-') own (by decide) (by decide) (by decide) (by decide) ?_
  simp only [Bool.or_eq_true, decide_eq_true_eq] at own
  rcases own with lower | rfl
  · rw [← Bool.not_eq_true]
    intro digit
    simp only [Char.isDigit, Bool.and_eq_true, decide_eq_true_eq] at digit
    have letter : ('a' ≤ c && c ≤ 'z') = true := lower
    simp only [Bool.and_eq_true, decide_eq_true_eq] at letter
    have low : 97 ≤ c.toNat := letter.1
    have high : c.toNat ≤ 57 := digit.2
    omega
  · rfl

/-- Nothing, or a text that starts with a character outside all marks. -/
def StartsInert (text : Text) : Prop := ∀ c, text.head? = some c → isInert c = true

/-- Nothing, or a text that ends with a character outside all marks. -/
def EndsInert (text : Text) : Prop := ∀ c, text.getLast? = some c → isInert c = true

theorem startsInert_nil : StartsInert [] := nofun

theorem startsInert_of_forall {text : Text} (inert : ∀ c ∈ text, isInert c = true) : StartsInert text :=
  fun c first => inert c (List.mem_of_mem_head? first)

theorem endsInert_of_forall {text : Text} (inert : ∀ c ∈ text, isInert c = true) : EndsInert text :=
  fun c last => inert c (List.mem_of_getLast? last)

theorem StartsInert.append_of_ne_nil {text : Text} (starts : StartsInert text) (nonempty : text ≠ []) (rest : Text) :
    StartsInert (text ++ rest) := by
  obtain ⟨c, more, rfl⟩ := List.exists_cons_of_ne_nil nonempty
  exact starts

theorem StartsInert.append {text rest : Text} (starts : StartsInert text) (onward : StartsInert rest) :
    StartsInert (text ++ rest) := by
  cases text with
  | nil => exact onward
  | cons c text => exact starts

theorem EndsInert.append_left {rest : Text} (ends : EndsInert rest) (nonempty : rest ≠ []) (text : Text) :
    EndsInert (text ++ rest) := by
  intro c last
  rw [List.getLast?_append_of_ne_nil _ nonempty] at last
  exact ends c last

theorem marks_append_of_starts {rest : Text} (starts : StartsInert rest) (text : Text) :
    marks (text ++ rest) = marks text ++ marks rest := by
  rw [marks, marksFrom_append]
  cases rest with
  | nil => rfl
  | cons c rest =>
    have inert := starts c rfl
    rw [marksFrom_cons_of_isInert inert, ← marksFrom_cons_of_isInert inert .idle rest]
    rfl

theorem marks_append_of_ends {text : Text} (ends : EndsInert text) (rest : Text) :
    marks (text ++ rest) = marks text ++ marks rest := by
  rw [marks, marksFrom_append]
  rcases List.eq_nil_or_concat' text with rfl | ⟨init, c, rfl⟩
  · rfl
  · rw [List.foldl_append, List.foldl_cons, List.foldl_nil, Reading.next_of_isInert (ends c (by simp))]
    rfl

/-! ## Placeholders -/

theorem marks_open_cons (rest : Text) : marks (placeholderOpen :: rest) = marksFrom (.number []) rest := by
  have opened : Reading.next .idle placeholderOpen = .number [] := by decide
  rw [marks, marksFrom, opened]
  rfl

theorem ne_of_isDigit {c d : Char} (digit : c.isDigit = true) (other : d.isDigit = false) : c ≠ d := by
  rintro rfl
  rw [digit] at other
  cases other

section
variable {digits : Text} (numeric : ∀ c ∈ digits, c.isDigit = true)
include numeric

theorem marksFrom_number (start rest : Text) :
    marksFrom (.number start) (digits ++ rest) = marksFrom (.number (start ++ digits)) rest := by
  induction digits generalizing start with
  | nil => rw [List.nil_append, List.append_nil]
  | cons c digits ih =>
    obtain ⟨digit, others⟩ := List.forall_mem_cons.mp numeric
    have notSlash := ne_of_isDigit digit (by decide : '/'.isDigit = false)
    have notOpen := ne_of_isDigit digit (by decide : placeholderOpen.isDigit = false)
    have notClose := ne_of_isDigit digit (by decide : placeholderClose.isDigit = false)
    simp only [List.cons_append, marksFrom, Reading.mark?, Reading.next, notSlash, notOpen, notClose, digit, false_and,
      if_false, if_true, ih others, List.append_assoc, List.nil_append, Option.toList_none]

theorem marks_digits_append (rest : Text) : marks (digits ++ rest) = marks rest := by
  induction digits with
  | nil => rfl
  | cons c digits ih =>
    obtain ⟨digit, others⟩ := List.forall_mem_cons.mp numeric
    have notSlash := ne_of_isDigit digit (by decide : '/'.isDigit = false)
    have notOpen := ne_of_isDigit digit (by decide : placeholderOpen.isDigit = false)
    rw [List.cons_append, marks_cons_of_ne notSlash notOpen, ih others]

/-- The mark of a placeholder. -/
theorem marksFrom_number_close (nonempty : digits ≠ []) (rest : Text) :
    marksFrom (.number []) (digits ++ placeholderClose :: rest) = .place (digitsValue digits) :: marks rest := by
  rw [marksFrom_number numeric, List.nil_append, marksFrom]
  have idle : Reading.next (.number digits) placeholderClose = .idle := by
    have notSlash : placeholderClose ≠ '/' := by decide
    have notOpen : placeholderClose ≠ placeholderOpen := by decide
    have notDigit : placeholderClose.isDigit = false := by decide
    simp only [Reading.next, if_neg notSlash, if_neg notOpen, notDigit, Bool.false_eq_true, if_false]
  rw [idle]
  simp only [Reading.mark?, nonempty, ne_eq, not_false_eq_true, and_self, if_true, Option.toList_some]
  rfl

end

theorem isDigit_of_mem_toDigits (index : Nat) : ∀ c ∈ Nat.toDigits 10 index, c.isDigit = true :=
  fun _ member => Nat.isDigit_of_mem_toDigits (by decide) (by decide) member

theorem digitsValue_toDigits (index : Nat) : digitsValue (Nat.toDigits 10 index) = index := by
  have read := Nat.ofDigitChars_toDigits (by decide : 1 < 10) (by decide : 10 ≤ 10) (n := index)
  rw [Nat.ofDigitChars] at read
  simp only [digitsValue, Nat.mul_comm _ 10, read]

theorem placeholder_append (index : Nat) (rest : Text) :
    placeholder index ++ rest = placeholderOpen :: (Nat.toDigits 10 index ++ placeholderClose :: rest) := by
  simp [placeholder]

theorem marks_placeholder_append (index : Nat) (rest : Text) :
    marks (placeholder index ++ rest) = .place index :: marks rest := by
  rw [placeholder_append, marks_open_cons, marksFrom_number_close (isDigit_of_mem_toDigits index) Nat.toDigits_ne_nil,
    digitsValue_toDigits]

theorem placeholderDigits?_eq_some {text digits following : Text}
    (found : placeholderDigits? text = some (digits, following)) :
    text = digits ++ placeholderClose :: following ∧ digits ≠ [] ∧ ∀ c ∈ digits, c.isDigit = true := by
  have whole : text.takeWhile Char.isDigit ++ text.dropWhile Char.isDigit = text := List.takeWhile_append_dropWhile
  have numeric : ∀ c ∈ text.takeWhile Char.isDigit, c.isDigit = true := List.all_eq_true.mp List.all_takeWhile
  unfold placeholderDigits? at found
  split at found
  · cases found
  · rename_i taken dropped
    split at found
    · rename_i closes
      cases found
      rw [taken, dropped, closes] at whole
      rw [taken] at numeric
      exact ⟨whole.symm, List.cons_ne_nil _ _, numeric⟩
    · cases found
  · cases found

/-- Where no placeholder follows, the reading goes on as if none had been opened. -/
theorem marksFrom_number_of_none {text : Text} (none : placeholderDigits? text = none) :
    marksFrom (.number []) text = marks text := by
  have whole : text.takeWhile Char.isDigit ++ text.dropWhile Char.isDigit = text := List.takeWhile_append_dropWhile
  have numeric : ∀ c ∈ text.takeWhile Char.isDigit, c.isDigit = true := List.all_eq_true.mp List.all_takeWhile
  rw [← whole, marksFrom_number numeric, marks_digits_append numeric, List.nil_append]
  cases dropped : text.dropWhile Char.isDigit with
  | nil => rfl
  | cons c rest =>
    have other : c.isDigit = false := by
      have stops := List.head?_dropWhile_not Char.isDigit text
      rw [dropped] at stops
      exact stops
    -- The character after the digits closes no placeholder, so it is read as it would be anywhere.
    have unclosed : ¬ (c = placeholderClose ∧ text.takeWhile Char.isDigit ≠ []) := by
      rintro ⟨rfl, nonempty⟩
      obtain ⟨d, digits, taken⟩ := List.exists_cons_of_ne_nil nonempty
      simp [placeholderDigits?, taken, dropped] at none
    simp only [marks, marksFrom, Reading.mark?, if_neg unclosed, Reading.next, other, Bool.false_eq_true, if_false]

/-! ## Setting aside and putting back -/

def Mark.comment? (set : List Text) : Mark → Option Text
  | .opening => none
  | .place index => set[index]?

theorem head?_restore {set : List Text} (genuine : ∀ comment ∈ set, IsComment comment) {text : Text}
    (star : (restore set text).head? = some '*') : text.head? = some '*' := by
  cases text with
  | nil =>
    rw [restore] at star
    cases star
  | cons c rest =>
    rw [restore] at star
    split at star
    · rename_i opens
      subst opens
      split at star
      · rename_i digits following found
        cases known : set[digitsValue digits]? with
        | none =>
          rw [known] at star
          exact absurd star (by simp [placeholderOpen])
        | some comment =>
          obtain ⟨body, rfl, _⟩ := genuine comment (List.mem_of_getElem? known)
          rw [known] at star
          exact absurd star (by simp [Piece.text, commentOpen])
      · exact star
    · exact star

/-- The comments of a text in which placeholders were exchanged for comments are these comments, if no other comment is
opened in it. -/
theorem comments_restore {set : List Text} (genuine : ∀ comment ∈ set, IsComment comment) {text : Text}
    (unopened : .opening ∉ marks text) (known : ∀ index, .place index ∈ marks text → index < set.length) :
    comments (restore set text) = (marks text).filterMap (Mark.comment? set) := by
  fun_induction restore set text with
  | case1 => rw [comments_nil, marks_nil, List.filterMap_nil]
  | case2 rest digits following found ih =>
    obtain ⟨rfl, nonempty, numeric⟩ := placeholderDigits?_eq_some found
    rw [marks_open_cons, marksFrom_number_close numeric nonempty] at unopened known ⊢
    have inside := known _ List.mem_cons_self
    have comment := List.getElem?_eq_getElem inside
    have read : Mark.comment? set (.place (digitsValue digits)) = some set[digitsValue digits] := comment
    rw [comment, Option.getD_some, comments_append (genuine _ (List.getElem_mem inside)), List.filterMap_cons_some read,
      ih (fun member => unopened (List.mem_cons_of_mem _ member))
        fun index member => known index (List.mem_cons_of_mem _ member)]
  | case3 rest none ih =>
    rw [marks_open_cons, marksFrom_number_of_none none] at unopened known ⊢
    rw [comments_cons fun both => absurd both.1 (by decide), ih unopened known]
  | case4 c rest other ih =>
    by_cases slash : c = '/'
    · subst slash
      have plain := head?_ne_of_unopened unopened
      have same : marks ('/' :: rest) = marks rest := marksFrom_slash plain
      rw [same] at unopened known ⊢
      rw [comments_cons fun star => plain (head?_restore genuine star.2), ih unopened known]
    · rw [marks_cons_of_ne slash other] at unopened known ⊢
      rw [comments_cons fun both => slash both.1, ih unopened known]

theorem isComment_of_mem_comments {text comment : Text} (member : comment ∈ comments text) : IsComment comment := by
  unfold comments at member
  fun_induction pieces text with
  | case1 => cases member
  | case2 rest body following found ih =>
    rw [List.filterMap_cons_some (show Piece.comment? (.comment body) = some _ from rfl)] at member
    rcases List.mem_cons.mp member with rfl | later
    · exact isComment_of_cut? found
    · exact ih later
  | case3 rest none ih => exact ih member
  | case4 c rest other ih => exact ih member

theorem snd_setAsideFrom (next : Nat) (found : List Piece) :
    (setAsideFrom next found).2 = found.filterMap Piece.comment? := by
  induction found generalizing next with
  | nil => rfl
  | cons piece rest ih =>
    cases piece with
    | char c => exact ih next
    | comment body => exact congrArg _ (ih (next + 1))

theorem snd_setAside (text : Text) : (setAside text).2 = comments text := snd_setAsideFrom 0 (pieces text)

theorem head?_setAsideFrom {next : Nat} {text : Text} (star : (setAsideFrom next (pieces text)).1.head? = some '*') :
    text.head? = some '*' := by
  revert star
  fun_cases pieces text with
  | case1 => exact id
  | case2 rest body following found => simp [setAsideFrom, placeholder, placeholderOpen]
  | case3 rest none => exact id
  | case4 c rest other => exact id

/-- Where all comments are closed and set aside, their placeholders stand in order, and no comment is opened. -/
theorem marks_setAsideFrom {text : Text} (closes : closesComments false text = true) (unmarked : placeholderOpen ∉ text)
    (next : Nat) : marks (setAsideFrom next (pieces text)).1 = (List.range' next (comments text).length).map .place := by
  fun_induction pieces text generalizing next with
  | case1 =>
    rw [comments_nil]
    rfl
  | case2 rest body following found ih =>
    have outside : closesComments false following = true := by
      obtain ⟨_, _, same, outside⟩ := exists_cut_of_closesComments closes
      rw [found] at same
      cases same
      exact outside
    have behind : placeholderOpen ∉ following := by
      rw [cut?_eq_some found] at unmarked
      exact fun member => unmarked (by simp [member])
    have more : comments ('/' :: '*' :: rest) = (Piece.comment body).text :: comments following := by
      rw [comments, pieces_of_cut? found]
      rfl
    rw [more, List.length_cons, List.range'_succ, List.map_cons, ← ih outside behind]
    exact marks_placeholder_append next _
  | case3 rest none ih =>
    obtain ⟨_, _, same, _⟩ := exists_cut_of_closesComments closes
    rw [none] at same
    cases same
  | case4 c rest other ih =>
    have plain : ¬ (c = '/' ∧ rest.head? = some '*') := by
      rintro ⟨slash, star⟩
      obtain ⟨following, rfl⟩ := List.head?_eq_some_iff.mp star
      exact other following slash rfl
    rw [closesComments_false_cons plain] at closes
    have onward := ih closes (fun member => unmarked (List.mem_cons_of_mem _ member)) next
    rw [comments_cons plain, ← onward]
    change marks (c :: (setAsideFrom next (pieces rest)).1) = _
    by_cases slash : c = '/'
    · subst slash
      exact marksFrom_slash fun star => plain ⟨rfl, head?_setAsideFrom star⟩
    · refine marks_cons_of_ne slash ?_ _
      rintro rfl
      exact unmarked List.mem_cons_self

theorem filterMap_place (set : List Text) :
    ((List.range' 0 set.length).map .place).filterMap (Mark.comment? set) = set := by
  rw [List.filterMap_map, ← List.range_eq_range']
  calc (List.range set.length).filterMap (Mark.comment? set ∘ .place)
      = (List.range set.length).filterMap (some ∘ fun index => set.getD index []) := by
        refine List.filterMap_congr fun index member => ?_
        simp [Mark.comment?, List.mem_range.mp member]
    _ = (List.range set.length).map fun index => set.getD index [] := by rw [List.filterMap_eq_map]
    _ = set := List.ext_getElem (by simp) fun index _ inside => by simp [inside]

section
variable {text : Text} (closes : closesComments false text = true) (unmarked : placeholderOpen ∉ text)
include closes unmarked

theorem marks_setAside : marks (setAside text).1 = (List.range' 0 (comments text).length).map .place :=
  marks_setAsideFrom closes unmarked 0

theorem unopened_setAside : .opening ∉ marks (setAside text).1 := by
  simp [marks_setAside closes unmarked]

theorem comments_eq_filterMap : comments text = (marks (setAside text).1).filterMap (Mark.comment? (setAside text).2) := by
  rw [snd_setAside, marks_setAside closes unmarked, filterMap_place]

/-- What was made of a text whose comments were set aside has the comments that its marks stand for. -/
theorem comments_restore_setAside {out : Text} (carried : marks out ⊆ marks (setAside text).1) :
    comments (restore (setAside text).2 out) = (marks out).filterMap (Mark.comment? (setAside text).2) := by
  rw [marks_setAside closes unmarked] at carried
  rw [snd_setAside]
  refine comments_restore (fun _ => isComment_of_mem_comments) ?_ ?_
  · intro member
    simpa using carried member
  · intro index member
    simpa using carried member

end

end StyleFlip.Text
