import StyleFlip.Swap

/-!
String maps: tables of tokens that are exchanged in selectors and in URL-like text. The entries apply by ascending
priority, those of one priority in the order in which they are listed; within an entry each pair of tokens is swapped
in turn. An exclusive entry that applies ends the map.
-/
namespace StyleFlip

/-- The kinds of text that are flipped. -/
inductive Target where
  | selector
  | url
deriving DecidableEq, Repr

/-- The kinds of text an entry applies to. -/
inductive Scope where
  | all
  | url
  | selector
deriving DecidableEq, Repr, Inhabited

def Scope.covers : Scope → Target → Bool
  | .all, _ => true
  | .url, target => target == .url
  | .selector, target => target == .selector

/-- An entry of a string map: the tokens of `search` and `replace` are exchanged pair by pair. -/
structure MapEntry where
  name : Text
  priority : Int := 100
  search : List Text
  replace : List Text
  scope : Scope := .all
  ignoreCase : Bool := false
  /-- Overrides the greediness of the whole map. -/
  greedy : Option Bool := none
  exclusive : Bool := false
deriving DecidableEq, Repr, Inhabited

/-- The entries that are in force unless others are given. -/
def defaultStringMap : List MapEntry :=
  [{ name := "left-right".toList
     search := ["left".toList, "Left".toList, "LEFT".toList]
     replace := ["right".toList, "Right".toList, "RIGHT".toList] },
   { name := "ltr-rtl".toList
     search := ["ltr".toList, "Ltr".toList, "LTR".toList]
     replace := ["rtl".toList, "Rtl".toList, "RTL".toList] }]

/-- The swaps of an entry in a map that is greedy or not. -/
def MapEntry.swaps (entry : MapEntry) (greedy : Bool) : List Swap :=
  (entry.search.zip entry.replace).map fun (search, replace) =>
    { first := search, second := replace, ignoreCase := entry.ignoreCase, greedy := entry.greedy.getD greedy }

/-- A string map made ready for use: its entries in the order in which they apply, with their swaps. -/
structure StringMap where
  stages : List (MapEntry × List Swap)
deriving DecidableEq, Repr, Inhabited

namespace StringMap

def ofEntries (entries : List MapEntry) (greedy : Bool) : StringMap :=
  ⟨(entries.mergeSort fun a b => a.priority ≤ b.priority).map fun entry => (entry, entry.swaps greedy)⟩

/-- The text after the swaps of one entry. -/
def applySwaps (swaps : List Swap) (text : Text) : Text := swaps.foldl (fun text swap => swap.apply text) text

/-- The text after the stages that cover its kind, up to the first exclusive one. -/
def applyStages (target : Target) : List (MapEntry × List Swap) → Text → Text
  | [], text => text
  | (entry, swaps) :: rest, text =>
    if entry.scope.covers target then
      if entry.exclusive then applySwaps swaps text else applyStages target rest (applySwaps swaps text)
    else applyStages target rest text

/-- The flipped text. -/
def apply (map : StringMap) (target : Target) (text : Text) : Text := applyStages target map.stages text

end StringMap
end StyleFlip
