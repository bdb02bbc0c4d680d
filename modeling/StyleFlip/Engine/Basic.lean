import StyleFlip.Engine.Comments
import StyleFlip.Engine.Declarations
import StyleFlip.Engine.Walk
import StyleFlip.Sheet.Parser

/-!
The engine. A run visits the nodes of a sheet in document order. Nothing that it meets makes it fail; what is wrong ends up
as warnings in its report.
-/
namespace StyleFlip

structure Report where
  /-- The warnings in the order in which they were raised. -/
  warnings : List Warning
  /-- The declarations that a value directive or a flip rule changed. -/
  flips : Nat
deriving DecidableEq, Repr

def Report.warningsOf (report : Report) (kind : WarningKind) : List Warning := report.warnings.filter (·.kind == kind)

namespace Run
variable {σ : Type}

/-- Flips the params of an at-rule if the options ask for it. -/
def flipParams (run : Run σ) (node : NodeId) : Run σ :=
  if run.scene.options.processUrls.atRules then
    match run.scene.sheet.params? node with
    | some params => run.setSheet (run.scene.sheet.setParams node (run.scene.map.apply .url params))
    | none => run
  else run

/-- One node: it passes the gate and is transformed according to its kind. -/
def visit (registry : Registry σ) (run : Run σ) (node : NodeId) : Run σ :=
  let (passes, run) := run.gate node
  if passes then
    match run.scene.sheet.kind node with
    | .comment => obeyComment registry run node
    | .rule => { run with flipped := 0 }
    | .atRule => run.flipParams node
    | .declaration => flipDeclaration registry run node
    | .root => run
  else run

/-- The visits of a run. -/
def walker (registry : Registry σ) : Walker (Run σ) := ⟨(·.scene.sheet), visit registry⟩

/-- The whole sheet. -/
def traverse (registry : Registry σ) (run : Run σ) : Run σ := (walker registry).walk run

/-- The report at the end of the document: directives that are still open and rules that still wait are warned about. -/
def report (run : Run σ) : Report :=
  let unclosed := run.stack.map fun entry =>
    { kind := .stillOpen, node := entry.invocation.source
      message := "unclosed directive \"".toList ++ entry.invocation.name ++ "\".".toList : Warning }
  let skipped := run.pending.map fun (_, rule) =>
    { kind := .unpaired, node := rule
      message := "renaming skipped due to lack of a matching pair.".toList : Warning }
  { warnings := run.scene.warnings ++ unclosed ++ skipped, flips := run.flips }

end Run

/-- An engine: plugins, options and hooks, with the store that the plugins share. -/
structure Engine (σ : Type) where
  registry : Registry σ
  options : Options
  hooks : Hooks σ := {}
  store : σ

namespace Engine
variable {σ : Type}

/-- The run with which an engine begins. -/
def start (engine : Engine σ) (sheet : Sheet) : Run σ :=
  let (sheet, store) := engine.hooks.before sheet (engine.registry.reset engine.store)
  { store, scene := { sheet, options := engine.options, map := engine.options.map } }

/-- Flips a sheet. The engine that comes with the result is ready for another run. -/
def flip (engine : Engine σ) (sheet : Sheet) : Sheet × Report × Engine σ :=
  let run := (engine.start sheet).traverse engine.registry
  let (sheet, store) := engine.hooks.after run.scene.sheet run.store
  (sheet, run.report, { engine with store := store })

/-- What is said of a text that is no stylesheet, before the cause. -/
def parseFailure : String := "stylesheet parse error"

def flipText (engine : Engine σ) (text : Text) : Except ParseError (Text × Report × Engine σ) :=
  match Sheet.parse text with
  | .error error => .error error
  | .ok sheet =>
    let (sheet, report, engine) := engine.flip sheet
    .ok (sheet.toText, report, engine)

end Engine
end StyleFlip
