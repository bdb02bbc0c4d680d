import StyleFlip.Sheet.Basic

/-!
Walks over a sheet that may change under way. The nodes are visited in document order, and the children of a node are taken down
when the walk reaches them: those that are cut off before their turn are passed over, and nodes that come in later are not visited.
Nothing bounds how far down a walk goes. If every visit hangs a new node below its own, the walk has no end, and what it gives is
then what the visit to the root gave.
-/
namespace StyleFlip

/-- How a walk visits nodes, and the sheet that it finds in its state. -/
structure Walker (ρ : Type) where
  sheet : ρ → Sheet
  visit : ρ → NodeId → ρ

namespace Walker
variable {ρ : Type}

/-- One child of `parent`, and what lies below it by `inner`. -/
def pass (walker : Walker ρ) (inner : NodeId → ρ → Option ρ) (parent : NodeId) (state : ρ) (child : NodeId) : Option ρ :=
  if (walker.sheet state).parent child = some parent then
    let state := walker.visit state child
    if (walker.sheet state).parent child = some parent then inner child state else some state
  else some state

/-- The nodes below `parent`, if they reach down no further than the given number of levels. -/
def below (walker : Walker ρ) : Nat → NodeId → ρ → Option ρ
  | 0, _, _ => none
  | levels + 1, parent, state =>
    ((walker.sheet state).children parent).foldlM (walker.pass (walker.below levels) parent) state

/-- How many levels are enough for the nodes below the root: more and more are tried until some number is. -/
def depth (walker : Walker ρ) (state : ρ) : Nat → Nat :=
  WellFounded.extrinsicFix (fun next levels => next = levels + 1 ∧ (walker.below levels Sheet.root state).isNone = true)
    fun levels onward =>
      if short : (walker.below levels Sheet.root state).isNone = true then onward (levels + 1) ⟨rfl, short⟩ else levels

/-- The root and all nodes below it. -/
def walk (walker : Walker ρ) (state : ρ) : ρ :=
  let state := walker.visit state Sheet.root
  -- A sheet has no more levels than nodes, so that this is enough unless visits hang further nodes below their own.
  match walker.below (walker.sheet state).size Sheet.root state with
  | some after => after
  | none => (walker.below (walker.depth state ((walker.sheet state).size + 1)) Sheet.root state).getD state

end Walker
end StyleFlip
