import StyleFlip.Proofs.Rereading

/-!
Headers as rows of lexemes: strings, comments and the characters outside them. A text has one row of lexemes, and its last one
alone may be a string or comment that never ends (`lexemes`). Reading a header is reading its lexemes one after the other: a
character outside strings and comments may end it, a whole string or comment is stepped over, and one that never ends is an error
at the byte where it starts (`readHeader_eq_readLexemes`). So a header has the same lexemes in the text that it was read from and
on its own (`lexemes_of_readHeader`).
-/
namespace StyleFlip

namespace Segment
open Text

/-! ## Strings -/

/-- The rest of a string and what follows it, behind its opening quote. A character behind a backslash does not close the string;
`escaped` says whether a backslash was read last. -/
def cutString? (quote : Char) : Bool → Text → Option (Text × Text)
  | _, [] => none
  | true, c :: rest => (cutString? quote false rest).map (keep [c])
  | false, c :: rest =>
    if c = '\\' then (cutString? quote true rest).map (keep [c])
    else if c = quote then some ([c], rest)
    else (cutString? quote false rest).map (keep [c])

section
variable {quote : Char} {escaped : Bool} {text body following : Text}

theorem map_keep_eq_some {head : Text} {found : Option (Text × Text)} (mapped : found.map (keep head) = some (body, following)) :
    ∃ rest, found = some (rest, following) ∧ body = head ++ rest := by
  obtain ⟨⟨rest, last⟩, inner, equal⟩ := Option.map_eq_some_iff.mp mapped
  cases equal
  exact ⟨rest, inner, rfl⟩

theorem cutString?_eq_some (found : cutString? quote escaped text = some (body, following)) : text = body ++ following := by
  fun_induction cutString? quote escaped text generalizing body with
  | case1 => cases found
  | case2 c rest ih | case3 rest ih | case5 c rest _ _ ih =>
    obtain ⟨inner, later, rfl⟩ := map_keep_eq_some found
    simp [ih later]
  | case4 =>
    cases found
    rfl

/-- Where a string ends does not depend on what follows it. -/
theorem cutString?_again (found : cutString? quote escaped text = some (body, following)) (other : Text) :
    cutString? quote escaped (body ++ other) = some (body, other) := by
  fun_induction cutString? quote escaped text generalizing body with
  | case1 => cases found
  | case2 c rest ih =>
    obtain ⟨inner, later, rfl⟩ := map_keep_eq_some found
    rw [List.append_assoc, List.singleton_append, cutString?, ih later]
    rfl
  | case3 rest ih =>
    obtain ⟨inner, later, rfl⟩ := map_keep_eq_some found
    rw [List.append_assoc, List.singleton_append, cutString?, if_pos rfl, ih later]
    rfl
  | case4 rest plain =>
    cases found
    rw [List.singleton_append, cutString?, if_neg plain, if_pos rfl]
  | case5 c rest plain inside ih =>
    obtain ⟨inner, later, rfl⟩ := map_keep_eq_some found
    rw [List.append_assoc, List.singleton_append, cutString?, if_neg plain, if_neg inside, ih later]
    rfl

/-- A string ends with its quote. -/
theorem getLast?_of_cutString? (found : cutString? quote escaped text = some (body, following)) : body.getLast? = some quote := by
  fun_induction cutString? quote escaped text generalizing body with
  | case1 => cases found
  | case2 c rest ih | case3 rest ih | case5 c rest _ _ ih =>
    obtain ⟨inner, later, rfl⟩ := map_keep_eq_some found
    rw [List.getLast?_append, ih later]
    rfl
  | case4 =>
    cases found
    rfl

end

/-! ## Lexemes -/

/-- A character outside strings and comments, a string or a comment. -/
inductive Lexeme where
  | plain (c : Char)
  /-- A string; `rest` is what follows its opening quote, the closing one included. -/
  | string (quote : Char) (rest : Text)
  | comment (body : Text)
  /-- A string that never ends. -/
  | openString (quote : Char) (rest : Text)
  /-- A comment that never ends. -/
  | openComment (rest : Text)
deriving DecidableEq, Repr

namespace Lexeme

def text : Lexeme → Text
  | .plain c => [c]
  | .string quote rest | .openString quote rest => quote :: rest
  | .comment body => commentOpen ++ body ++ commentClose
  | .openComment rest => commentOpen ++ rest

def isClosed : Lexeme → Bool
  | .openString _ _ | .openComment _ => false
  | _ => true

/-- Whether a lexeme hides what would end a header: a string or a comment. -/
def hides : Lexeme → Bool
  | .string _ _ | .comment _ => true
  | _ => false

theorem text_ne_nil (lexeme : Lexeme) : lexeme.text ≠ [] := by
  cases lexeme <;> simp [text, commentOpen]

end Lexeme

/-- The first lexeme of a text and what follows it. -/
def firstLexeme? : Text → Option (Lexeme × Text)
  | [] => none
  | '/' :: '*' :: rest =>
    match cut? commentClose rest with
    | some (body, following) => some (.comment body, following)
    | none => some (.openComment rest, [])
  | c :: rest =>
    if isQuote c then
      match cutString? c false rest with
      | some (body, following) => some (.string c body, following)
      | none => some (.openString c rest, [])
    else some (.plain c, rest)

theorem firstLexeme?_eq_some {text following : Text} {lexeme : Lexeme} (found : firstLexeme? text = some (lexeme, following)) :
    text = lexeme.text ++ following := by
  unfold firstLexeme? at found
  split at found
  · cases found
  · split at found
    · rename_i cut
      cases found
      simp [Lexeme.text, commentOpen, cut?_eq_some cut]
    · cases found
      simp [Lexeme.text, commentOpen]
  · split at found
    · split at found
      · rename_i cut
        cases found
        simp [Lexeme.text, cutString?_eq_some cut]
      · cases found
        simp [Lexeme.text]
    · cases found
      rfl

theorem length_of_firstLexeme? {text following : Text} {lexeme : Lexeme} (found : firstLexeme? text = some (lexeme, following)) :
    following.length < text.length := by
  have own := List.length_pos_iff.mpr lexeme.text_ne_nil
  rw [firstLexeme?_eq_some found, List.length_append]
  omega

def lexemes (text : Text) : List Lexeme :=
  match _found : firstLexeme? text with
  | none => []
  | some (lexeme, following) => lexeme :: lexemes following
termination_by text.length
decreasing_by exact length_of_firstLexeme? _found

theorem lexemes_of_first {text following : Text} {lexeme : Lexeme} (found : firstLexeme? text = some (lexeme, following)) :
    lexemes text = lexeme :: lexemes following := by
  rw [lexemes]
  split
  · rename_i none
    rw [found] at none
    cases none
  · rename_i some
    rw [found] at some
    cases some
    rfl

theorem lexemes_nil : lexemes [] = [] := by
  rw [lexemes]
  rfl

theorem eq_nil_of_first {text : Text} (none : firstLexeme? text = none) : text = [] := by
  unfold firstLexeme? at none
  split at none
  · rfl
  · split at none <;> cases none
  · split at none
    · split at none <;> cases none
    · cases none

/-- The lexemes of a text join to it again. -/
theorem flatMap_text_lexemes (text : Text) : (lexemes text).flatMap Lexeme.text = text := by
  fun_induction lexemes text with
  | case1 text none => rw [eq_nil_of_first none, List.flatMap_nil]
  | case2 text lexeme following found ih => rw [List.flatMap_cons, ih, firstLexeme?_eq_some found]

/-- A lexeme that comes to its end is the first lexeme wherever its text stands, as long as a slash does not come to stand
before a star. -/
theorem firstLexeme?_again {text following next : Text} {lexeme : Lexeme} (found : firstLexeme? text = some (lexeme, following))
    (closed : lexeme.isClosed = true) (apart : lexeme = .plain '/' → next.head? ≠ some '*') :
    firstLexeme? (lexeme.text ++ next) = some (lexeme, next) := by
  unfold firstLexeme? at found
  split at found
  · cases found
  · split at found
    · rename_i body _ cut
      cases found
      have again := cut?_again cut next
      simp only [Lexeme.text, commentOpen, List.cons_append, List.nil_append, firstLexeme?, again]
    · cases found
      cases closed
  · rename_i c rest _
    split at found
    · rename_i quoted
      have slash : c ≠ '/' := by
        rintro rfl
        cases quoted
      split at found
      · rename_i body _ cut
        cases found
        rw [Lexeme.text, List.cons_append, firstLexeme?, if_pos quoted, cutString?_again cut next]
        exact fun _ same => absurd same slash
      · cases found
        cases closed
    · rename_i bare
      cases found
      rw [Lexeme.text, List.singleton_append, firstLexeme?, if_neg bare]
      rintro inner rfl star
      exact apart rfl (by rw [star, List.head?_cons])

/-- Behind a slash that opens no comment no star stands. -/
theorem head?_of_slash {text following : Text} (found : firstLexeme? text = some (.plain '/', following)) :
    following.head? ≠ some '*' := by
  intro star
  obtain ⟨rest, rfl⟩ := List.head?_eq_some_iff.mp star
  have whole := firstLexeme?_eq_some found
  rw [whole, Lexeme.text, List.singleton_append, firstLexeme?] at found
  split at found <;> cases found

/-- The first lexemes of a text, if they all come to their ends, are the lexemes of their own text before anything that does
not start with a star. -/
theorem lexemes_again {text next : Text} {front back : List Lexeme} (split : lexemes text = front ++ back)
    (closed : ∀ lexeme ∈ front, lexeme.isClosed = true) (apart : next.head? ≠ some '*') :
    lexemes (front.flatMap Lexeme.text ++ next) = front ++ lexemes next := by
  induction front generalizing text with
  | nil => rfl
  | cons lexeme front ih =>
    obtain ⟨here, later⟩ := List.forall_mem_cons.mp closed
    rw [lexemes] at split
    split at split
    · cases split
    · rename_i first following found
      obtain ⟨rfl, inner⟩ : first = lexeme ∧ lexemes following = front ++ back := List.cons_eq_cons.mp split
      have joined : following = front.flatMap Lexeme.text ++ back.flatMap Lexeme.text := by
        rw [← List.flatMap_append, ← inner, flatMap_text_lexemes]
      have again : firstLexeme? (first.text ++ (front.flatMap Lexeme.text ++ next)) =
          some (first, front.flatMap Lexeme.text ++ next) := by
        refine firstLexeme?_again found here ?_
        rintro rfl
        -- Either more of the same text follows the slash, or the text that comes next.
        cases some : front.flatMap Lexeme.text with
        | nil => exact apart
        | cons c more =>
          have other := head?_of_slash found
          rw [joined, some] at other
          exact other
      rw [List.flatMap_cons, List.append_assoc, lexemes_of_first again, ih inner later]
      rfl

/-! ## Reading lexeme by lexeme -/

/-- The header at the start of a row of lexemes and the text behind it. -/
def readLexemes : Nat → Nat → List Lexeme → Except ParseError (Text × Text)
  | _, _, [] => .ok ([], [])
  | _, offset, .openString _ _ :: _ => .error (.openString offset)
  | _, offset, .openComment _ :: _ => .error (.openComment offset)
  | depth, offset, .plain c :: rest =>
    if depth = 0 && endsHeader c then .ok ([], c :: rest.flatMap Lexeme.text)
    else (readLexemes (depthAfter depth c) (offset + c.utf8Size) rest).map (keep [c])
  | depth, offset, .string quote inner :: rest =>
    (readLexemes depth (offset + byteCount (quote :: inner)) rest).map (keep (quote :: inner))
  | depth, offset, .comment body :: rest =>
    let text := commentOpen ++ body ++ commentClose
    (readLexemes depth (offset + byteCount text) rest).map (keep text)

theorem map_keep_keep (result : Except ParseError (Text × Text)) (head tail : Text) :
    (result.map (keep tail)).map (keep head) = result.map (keep (head ++ tail)) := by
  cases result with
  | error => rfl
  | ok found => simp [Except.map, keep]

/-- Reading goes on behind the rest of a string or comment, or fails if that has no end. -/
def resume (fault : ParseError) (depth offset : Nat) : Option (Text × Text) → Except ParseError (Text × Text)
  | none => .error fault
  | some (body, following) => (readHeader .plain depth (offset + byteCount body) following).map (keep body)

theorem map_keep_resume (fault : ParseError) (depth offset : Nat) (c : Char) (found : Option (Text × Text)) :
    (resume fault depth (offset + c.utf8Size) found).map (keep [c]) = resume fault depth offset (found.map (keep [c])) := by
  cases found with
  | none => rfl
  | some found => simp [resume, map_keep_keep, keep, byteCount, Nat.add_assoc]

/-- Reading inside a comment goes on to its end. -/
theorem readHeader_commented (opened depth offset : Nat) (text : Text) :
    readHeader (.commented opened) depth offset text =
      resume (.openComment opened) depth offset ((cut? commentClose text).map fun found => (found.1 ++ commentClose, found.2)) := by
  induction text generalizing offset with
  | nil => rfl
  | cons c rest ih =>
    cases close : after? commentClose (c :: rest) with
    | some following =>
      obtain ⟨rfl, rfl⟩ := List.cons_eq_cons.mp (after?_eq_some close)
      rw [cut?, close]
      rfl
    | none =>
      have stays : ∀ inner, c = '*' → rest = '/' :: inner → False := by
        rintro inner rfl rfl
        cases close
      rw [readHeader, ih, map_keep_resume, cut?, close]
      · cases cut? commentClose rest <;> rfl
      · exact stays

/-- Reading inside a string goes on to its end. -/
theorem readHeader_quoted (quote : Char) (opened depth offset : Nat) (escaped : Bool) (text : Text) :
    readHeader (if escaped then .escaped quote opened else .quoted quote opened) depth offset text =
      resume (.openString opened) depth offset (cutString? quote escaped text) := by
  fun_induction cutString? quote escaped text generalizing offset with
  | case1 escaped => cases escaped <;> rfl
  | case2 c rest ih =>
    rw [← map_keep_resume, ← ih, if_pos rfl, if_neg Bool.false_ne_true, readHeader]
  | case3 rest ih =>
    rw [← map_keep_resume, ← ih, if_pos rfl, if_neg Bool.false_ne_true, readHeader, if_pos rfl]
  | case4 rest plain =>
    rw [if_neg Bool.false_ne_true, readHeader, if_neg plain, if_pos rfl]
    rfl
  | case5 c rest plain inside ih =>
    rw [← map_keep_resume, ← ih, if_neg Bool.false_ne_true, readHeader, if_neg plain, if_neg inside]

theorem isQuote_iff {c : Char} : isQuote c = true ↔ c = '\x22' ∨ c = '\x27' := by
  simp [isQuote]

/-- A quote opens a string. -/
theorem readHeader_string {quote : Char} (quoted : isQuote quote = true) (depth offset : Nat) (rest : Text) :
    readHeader .plain depth offset (quote :: rest) =
      resume (.openString offset) depth offset ((cutString? quote false rest).map (keep [quote])) := by
  have inside : (depth = 0 && endsHeader quote) = false ∧ depthAfter depth quote = depth ∧ quote ≠ '/' := by
    rcases isQuote_iff.mp quoted with rfl | rfl <;> simp [endsHeader, depthAfter]
  obtain ⟨stays, level, slash⟩ := inside
  rw [← map_keep_resume, ← readHeader_quoted, readHeader, if_neg (Bool.eq_false_iff.mp stays), level, if_pos quoted]
  · rfl
  · exact fun _ same => absurd same slash

/-- Reading a header is reading its lexemes. -/
theorem readHeader_eq_readLexemes (depth offset : Nat) (text : Text) :
    readHeader .plain depth offset text = readLexemes depth offset (lexemes text) := by
  fun_induction lexemes text generalizing depth offset with
  | case1 text none => rw [eq_nil_of_first none, readHeader, readLexemes]
  | case2 text lexeme following found ih =>
    unfold firstLexeme? at found
    split at found
    · cases found
    · rename_i rest
      rw [readHeader, readHeader_commented]
      split at found
      · rename_i body _ cut
        cases found
        have size : offset + byteCount (commentOpen ++ body ++ commentClose) = offset + 2 + byteCount (body ++ commentClose) := by
          rw [List.append_assoc, byteCount_append, ← Nat.add_assoc]
          rfl
        rw [cut, readLexemes, ← ih, size, List.append_assoc]
        exact map_keep_keep _ _ _
      · rename_i cut
        cases found
        rw [cut]
        rfl
    · rename_i c rest alone
      split at found
      · rename_i quoted
        rw [readHeader_string quoted]
        split at found
        · rename_i inner _ cut
          cases found
          rw [cut, readLexemes, ← ih]
          rfl
        · rename_i cut
          cases found
          rw [cut]
          rfl
      · rename_i bare
        cases found
        rw [readLexemes, ← ih, flatMap_text_lexemes, readHeader, if_neg bare]
        exact alone

/-- A header that is read from a row of lexemes takes up the first of them, which all come to their ends, and would be read
from them alone. -/
theorem exists_front_of_readLexemes {depth offset : Nat} {row : List Lexeme} {header following : Text}
    (read : readLexemes depth offset row = .ok (header, following)) :
    ∃ front back, row = front ++ back ∧ front.flatMap Lexeme.text = header ∧ (∀ lexeme ∈ front, lexeme.isClosed = true) ∧
      ∀ start, readLexemes depth start front = .ok (header, []) := by
  fun_induction readLexemes depth offset row generalizing header with
  | case1 =>
    cases read
    exact ⟨[], [], rfl, rfl, by simp, fun _ => rfl⟩
  | case2 | case3 => cases read
  | case4 depth offset c rest stops =>
    cases read
    exact ⟨[], .plain c :: rest, rfl, rfl, by simp, fun _ => rfl⟩
  | case5 depth offset c rest stays ih =>
    obtain ⟨inner, later, rfl⟩ := map_keep_eq_ok read
    obtain ⟨front, back, rfl, rfl, closed, again⟩ := ih later
    refine ⟨.plain c :: front, back, rfl, rfl, List.forall_mem_cons.mpr ⟨rfl, closed⟩, fun start => ?_⟩
    rw [readLexemes, if_neg stays, again]
    rfl
  | case6 depth offset quote text rest ih =>
    obtain ⟨inner, later, rfl⟩ := map_keep_eq_ok read
    obtain ⟨front, back, rfl, rfl, closed, again⟩ := ih later
    refine ⟨.string quote text :: front, back, rfl, rfl, List.forall_mem_cons.mpr ⟨rfl, closed⟩, fun start => ?_⟩
    rw [readLexemes, again]
    rfl
  | case7 depth offset body rest text =>
    rename_i ih
    obtain ⟨inner, later, rfl⟩ := map_keep_eq_ok read
    obtain ⟨front, back, rfl, rfl, closed, again⟩ := ih later
    refine ⟨.comment body :: front, back, rfl, rfl, List.forall_mem_cons.mpr ⟨rfl, closed⟩, fun start => ?_⟩
    rw [readLexemes, again]
    rfl

/-- A header has the same lexemes in the text that it was read from and on its own; they all come to their ends, and the header
is read from its own text, too. -/
theorem lexemes_of_readHeader {depth offset : Nat} {text header following : Text}
    (read : readHeader .plain depth offset text = .ok (header, following)) :
    lexemes text = lexemes header ++ lexemes following ∧ (∀ lexeme ∈ lexemes header, lexeme.isClosed = true) ∧
      ∀ start, readHeader .plain depth start header = .ok (header, []) := by
  have whole := readHeader_eq_ok read
  have apart : following.head? ≠ some '*' := by
    rcases readHeader_following read with rfl | ⟨c, rest, rfl, ends⟩
    · simp
    · rintro ⟨⟩
      cases ends
  rw [readHeader_eq_readLexemes] at read
  obtain ⟨front, back, row, rfl, closed, again⟩ := exists_front_of_readLexemes read
  have own : lexemes (front.flatMap Lexeme.text) = front := by
    have alone := @lexemes_again _ [] _ _ row closed (by simp)
    rwa [List.append_nil, lexemes_nil, List.append_nil] at alone
  refine ⟨?_, by rwa [own], fun start => ?_⟩
  · rw [own, whole]
    exact lexemes_again row closed apart
  · rw [readHeader_eq_readLexemes, own, again]

end Segment
end StyleFlip
