import StyleFlip.Text.Fold
import StyleFlip.Text.Lower
import StyleFlip.Text.Word

/-!
Exchanging two tokens in a text. All occurrences are exchanged in one pass from left to right, so that what has been
put in is never looked at again. Where both tokens could start, the first one is preferred. Unless a swap is greedy, an
occurrence must have a word boundary at either end.
-/
namespace StyleFlip

/-- Two tokens that take each other's place. -/
structure Swap where
  first : Text
  second : Text
  /-- Tokens match in any case. -/
  ignoreCase : Bool := false
  /-- Tokens match inside words too. -/
  greedy : Bool := false
deriving DecidableEq, Repr, Inhabited

namespace Swap

/-- What follows a token at the start of a text. -/
def afterToken? (swap : Swap) (token text : Text) : Option Text :=
  if swap.ignoreCase then Text.afterFolded? token text else Text.after? token text

/-- The occurrence of a token at the start of a text that `previous` precedes. -/
def tokenAt? (swap : Swap) (previous : Option Char) (text token : Text) : Option Text :=
  match swap.afterToken? token text with
  | none => none
  | some rest =>
    let found := text.take token.length
    if swap.greedy || Text.isBoundary (found.getLast? <|> previous) rest.head? then some found else none

/-- The occurrence of either token at the start of a text that `previous` precedes. -/
def matchAt? (swap : Swap) (previous : Option Char) (text : Text) : Option Text :=
  if swap.greedy || Text.isBoundary previous text.head? then
    swap.tokenAt? previous text swap.first <|> swap.tokenAt? previous text swap.second
  else none

/-- What takes the place of an occurrence: the second token for the first one in any case, and the first otherwise. -/
def replacement (swap : Swap) (found : Text) : Text :=
  if Text.lower found = Text.lower swap.first then swap.second else swap.first

/-- The rest of a text with the tokens exchanged. `pending` characters still belong to the last occurrence, and
`adjacent` says that it ends right here, where an empty occurrence does not count. -/
def applyFrom (swap : Swap) (previous : Option Char) (pending : Nat) (adjacent : Bool) : Text → Text
  | [] =>
    match swap.matchAt? previous [] with
    | some _ => if adjacent then [] else swap.replacement []
    | none => []
  | c :: rest =>
    match pending with
    | left + 1 => swap.applyFrom (some c) left (left == 0) rest
    | 0 =>
      match swap.matchAt? previous (c :: rest) with
      | none => c :: swap.applyFrom (some c) 0 false rest
      | some [] => (if adjacent then [] else swap.replacement []) ++ c :: swap.applyFrom (some c) 0 false rest
      | some (first :: more) =>
        swap.replacement (first :: more) ++ swap.applyFrom (some c) more.length more.isEmpty rest

/-- The text with the two tokens exchanged. -/
def apply (swap : Swap) (text : Text) : Text := swap.applyFrom none 0 false text

end Swap
end StyleFlip
