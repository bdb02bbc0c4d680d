import StyleFlip.Directive.Form
import StyleFlip.Engine.Plugin
import StyleFlip.Options.Decode
import StyleFlip.Sheet.Parser

/-!
The standard control directives: `ignore` leaves nodes as they are, `rename` flips selectors, `remove` drops nodes,
`raw` puts stylesheet text in the place of its comment, and `options` replaces the options in force.
-/
namespace StyleFlip.Standard

/-- What the standard directives keep between calls. -/
structure State where
  /-- The last node that an `ignore` of one form covers, once it has met its first. -/
  ignoreEnd : Option NodeId := none
  /-- The options to go back to, innermost block first. -/
  saved : List Options := []
deriving DecidableEq, Repr, Inhabited

variable {σ : Type}

/-- A directive that always ends where its form closes. -/
def leaveAlways : NodeId → Invocation → Handler σ Bool := fun _ _ store scene => (true, store, scene)

/-- `ignore`, entered: every node is claimed except the comment that closes the block. An `ignore` of one form notes
the last node that it covers. -/
def enterIgnore (slot : Slot σ State) : NodeId → Invocation → Handler σ Bool := fun node invocation store scene =>
  let state := slot.get store
  let store :=
    if state.ignoreEnd.isNone && invocation.opensAndCloses then
      slot.set { state with ignoreEnd := some (scene.sheet.lastBelow node) } store
    else store
  (!(scene.sheet.comment? node).any Directive.closesIgnore, store, scene)

/-- `ignore`, left: a block ends at its closing comment, and one form at the last node that it covers. -/
def leaveIgnore (slot : Slot σ State) : NodeId → Invocation → Handler σ Bool := fun node invocation store scene =>
  let state := slot.get store
  let blockClosed := invocation.opens != invocation.closes && scene.sheet.kind node == .comment
  let oneShotDone := invocation.opensAndCloses && state.ignoreEnd == some node
  if blockClosed || oneShotDone then (true, slot.set { state with ignoreEnd := none } store, scene)
  else (false, store, scene)

/-- `ignore`: leaves the next node with everything below it, or a whole block, as it is. -/
def ignore (slot : Slot σ State) : Control σ where
  name := "ignore".toList
  interest := .kinds [.atRule, .comment, .declaration, .rule]
  enter := enterIgnore slot
  leave := leaveIgnore slot
  reset store := slot.set { slot.get store with ignoreEnd := none } store

/-- `rename`, entered: the selector of the rule is flipped, and the rule is transformed like any other. -/
def enterRename : NodeId → Invocation → Handler σ Bool := fun node _ store scene =>
  match scene.sheet.selector? node with
  | some selector => (false, store, { scene with sheet := scene.sheet.setSelector node (scene.map.apply .selector selector) })
  | none => (false, store, scene)

/-- `rename`: flips the selectors of rules. -/
def rename : Control σ where
  name := "rename".toList
  interest := .kinds [.rule]
  enter := enterRename
  leave := leaveAlways
  reset := id

/-- `remove`, entered: the node is cut off. -/
def enterRemove : NodeId → Invocation → Handler σ Bool := fun node _ store scene =>
  (true, store, { scene with sheet := scene.sheet.remove node })

def remove : Control σ where
  name := "remove".toList
  interest := .kinds [.atRule, .rule, .declaration]
  enter := enterRemove
  leave := leaveAlways
  reset := id

/-- `raw`, entered: the nodes of the argument come in before the comment and are done with. -/
def enterRaw : NodeId → Invocation → Handler σ Bool := fun node invocation store scene =>
  match Sheet.parse invocation.argument with
  | .ok fragment =>
    let (sheet, inserted) := scene.sheet.insertSheetBefore node fragment
    (true, store, inserted.foldl Scene.markHandled { scene with sheet := sheet })
  | .error error =>
    (true, store, scene.warn .badArgument node ("invalid raw stylesheet: ".toList ++ error.message.toList))

/-- What `raw` does: nodes come in that are done with, or it warns. -/
theorem enterRaw_cases (node : NodeId) (invocation : Invocation) (store : σ) (scene : Scene) :
    (∃ fragment handled, Sheet.parse invocation.argument = .ok fragment ∧
      (∀ n, n ∈ handled ↔ n ∈ scene.handled ∨ n ∈ (scene.sheet.insertSheetBefore node fragment).2) ∧
      enterRaw node invocation store scene =
        (true, store, { scene with sheet := (scene.sheet.insertSheetBefore node fragment).1, handled })) ∨
    ∃ error message, Sheet.parse invocation.argument = .error error ∧
      enterRaw node invocation store scene = (true, store, scene.warn .badArgument node message) := by
  unfold enterRaw
  split
  · rename_i fragment read
    obtain ⟨handled, same, listed⟩ := Scene.foldl_markHandled_eq
      { scene with sheet := (scene.sheet.insertSheetBefore node fragment).1 } (scene.sheet.insertSheetBefore node fragment).2
    exact .inl ⟨fragment, handled, read, listed, congrArg (fun after => (true, store, after)) same⟩
  · rename_i error refused
    exact .inr ⟨error, _, refused, rfl⟩

/-- `raw`: puts stylesheet text in, which is not flipped. -/
def raw : Control σ where
  name := "raw".toList
  interest := .itself
  enter := enterRaw
  leave := leaveAlways
  reset := id

/-- The warning about options that cannot be used. -/
def warnOptions (scene : Scene) (node : NodeId) : Scene :=
  scene.warn .badArgument node "invalid options: configuration error".toList

/-- `options`, entered: the options in force are saved and replaced by those of the argument. -/
def enterOptions (slot : Slot σ State) : NodeId → Invocation → Handler σ Bool := fun node invocation store scene =>
  let state := slot.get store
  let store := slot.set { state with saved := scene.options :: state.saved } store
  let replaced := match Options.ofText .json invocation.argument with
    | .ok options => scene.adopt? options
    | .error _ => none
  (true, store, replaced.getD (warnOptions scene node))

/-- `options`, left: the saved options are dropped, and a block goes back to them. -/
def leaveOptions (slot : Slot σ State) : NodeId → Invocation → Handler σ Bool := fun node invocation store scene =>
  let state := slot.get store
  match state.saved with
  | [] => (true, store, scene)
  | saved :: outer =>
    let store := slot.set { state with saved := outer } store
    if invocation.opens then (true, store, scene)
    else (true, store, (scene.adopt? saved).getD (warnOptions scene node))

/-- `options`: replaces the options, for the rest of the document or for a block. -/
def options (slot : Slot σ State) : Control σ where
  name := "options".toList
  interest := .itself
  enter := enterOptions slot
  leave := leaveOptions slot
  reset store := slot.set { slot.get store with saved := [] } store

end StyleFlip.Standard
