import StyleFlip.Text.Comment

/-!
Values as rows of words. A word is a stretch without blanks, where blanks inside parentheses do not count as such; the
text is kept as the words and the gaps before and between them, so that words can be exchanged and all else stays. A
word that is a placeholder for a comment belongs to the gap.
-/
namespace StyleFlip.Standard

/-- The row of words of a text: each with the gap before it, and the gap at the end. -/
structure Row where
  words : List (Text × Text)
  trailing : Text
deriving DecidableEq, Repr, Inhabited

namespace Row

def texts (row : Row) : List Text := row.words.map Prod.snd

def text (row : Row) : Text := row.words.flatMap (fun (gap, word) => gap ++ word) ++ row.trailing

/-- The row with a character in front of its first gap. -/
def consGap (c : Char) (row : Row) : Row :=
  match row.words with
  | [] => { row with trailing := c :: row.trailing }
  | (gap, word) :: rest => { row with words := (c :: gap, word) :: rest }

/-- The row with a character in front of its first word, which has no gap before it; `starts` says that a word has to
be begun. -/
def consWord (starts : Bool) (c : Char) (row : Row) : Row :=
  match starts, row.words with
  | false, (gap, word) :: rest => { row with words := (gap, c :: word) :: rest }
  | _, words => { row with words := ([], [c]) :: words }

end Row

/-- The depth of parentheses after a character. -/
def depthAfter (depth : Nat) (c : Char) : Nat :=
  if c = '(' then depth + 1 else if c = ')' then depth - 1 else depth

/-- Whether a character separates words at a depth of parentheses, which it counts towards itself. -/
def separates (depth : Nat) (c : Char) : Bool := Text.isBlank c && depth == 0

/-- The row of words of a text that starts at a depth of parentheses. -/
def rowFrom (depth : Nat) : Text → Row
  | [] => ⟨[], []⟩
  | c :: rest =>
    let inner := depthAfter depth c
    let row := rowFrom inner rest
    if separates inner c then row.consGap c
    else
      let ends := match rest with
        | [] => true
        | d :: _ => separates (depthAfter inner d) d
      row.consWord ends c

/-- Whether a word stands for a comment. -/
def standsForComment (word : Text) : Bool :=
  word.head? == some Text.placeholderOpen && word.getLast? == some Text.placeholderClose

/-- The words with those that stand for comments moved into the gaps. -/
def absorb (carried : Text) : List (Text × Text) → Text → Row
  | [], trailing => ⟨[], carried ++ trailing⟩
  | (gap, word) :: rest, trailing =>
    if standsForComment word then absorb (carried ++ gap ++ word) rest trailing
    else
      let row := absorb [] rest trailing
      { row with words := (carried ++ gap, word) :: row.words }

/-- The row of words of a text. -/
def Row.ofText (text : Text) : Row :=
  let found := rowFrom 0 text
  absorb [] found.words found.trailing

/-- The row with other words. As many words take the places of the old ones; otherwise they stand with single spaces
between them where the first to the last word stood. -/
def Row.replaceWords (row : Row) (words : List Text) : Text :=
  match row.words with
  | [] => row.trailing
  | (gap, _) :: rest =>
    if words.length = rest.length + 1 then
      Row.text { row with words := (row.words.map Prod.fst).zip words }
    else gap ++ Text.join [' '] words ++ row.trailing

end StyleFlip.Standard
