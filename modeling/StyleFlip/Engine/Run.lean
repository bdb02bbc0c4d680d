import StyleFlip.Engine.Registry

/-!
The state of a run and the gate. The open directives stand in a row, outermost first. Before a node is transformed the
gate asks every open directive with an interest in its kind; one that claims the node keeps it from being transformed,
and one whose form also closes may end there. A comment whose last directive is closed is stripped unless it is to be
kept.
-/
namespace StyleFlip

/-- A directive that is open. A directive that is switched off leaves a marker without a control. -/
structure OpenDirective (σ : Type) where
  invocation : Invocation
  control : Option (Control σ)

structure Run (σ : Type) where
  store : σ
  scene : Scene
  /-- The open directives, outermost first. -/
  stack : List (OpenDirective σ) := []
  /-- The rules that wait for the rule with the flipped selector, with their own selectors, earliest first. -/
  pending : List (Text × NodeId) := []
  /-- The declarations flipped since the last rule began. -/
  flipped : Nat := 0
  /-- The declarations flipped in the whole run. -/
  flips : Nat := 0

namespace Run
variable {σ : Type}

/-- The answer of a handler and the run after it. -/
def call {α : Type} (run : Run σ) (handler : Handler σ α) : α × Run σ :=
  let (answer, store, scene) := handler run.store run.scene
  (answer, { run with store := store, scene := scene })

def warn (run : Run σ) (kind : WarningKind) (node : NodeId) (message : Text) : Run σ :=
  { run with scene := run.scene.warn kind node message }

def setSheet (run : Run σ) (sheet : Sheet) : Run σ := { run with scene := { run.scene with sheet := sheet } }

/-- Strips a comment unless it is to be kept or a directive that it opened is still open. -/
def stripSource (run : Run σ) (source : NodeId) (preserve : Bool) : Run σ :=
  if preserve || run.stack.any (·.invocation.source == source) then run
  else run.setSheet (run.scene.sheet.remove source)

/-- Closes a directive, given the directives that stay open, and strips its comment. -/
def endDirective (run : Run σ) (entry : OpenDirective σ) (stack : List (OpenDirective σ)) : Run σ :=
  { run with stack := stack }.stripSource entry.invocation.source entry.invocation.preserve

/-- Asks the open directives in `entries` about a node, where `kept` are those before them that stay open and `claimed`
says whether one of them has claimed it. -/
def consult (node : NodeId) (kind : Kind) (kept : List (OpenDirective σ)) (claimed : Bool) :
    List (OpenDirective σ) → Run σ → Bool × Run σ
  | [], run => (claimed, { run with stack := kept })
  | entry :: rest, run =>
    match entry.control with
    | none => consult node kind (kept ++ [entry]) claimed rest run
    | some control =>
      if control.interest.accepts kind then
        let (claims, run) := run.call (control.enter node entry.invocation)
        if entry.invocation.closes then
          let (closed, run) := run.call (control.leave node entry.invocation)
          if closed then consult node kind kept (claimed || claims) rest (run.endDirective entry (kept ++ rest))
          else consult node kind (kept ++ [entry]) (claimed || claims) rest run
        else consult node kind (kept ++ [entry]) (claimed || claims) rest run
      else consult node kind (kept ++ [entry]) claimed rest run

/-- Whether a node may be transformed. A node is asked about once; from then on it is done with. -/
def gate (run : Run σ) (node : NodeId) : Bool × Run σ :=
  if node ∈ run.scene.handled then (false, run)
  else
    let run := { run with scene := run.scene.markHandled node }
    let (claimed, run) := consult node (run.scene.sheet.kind node) [] false run.stack run
    (!claimed, run)

end Run
end StyleFlip
