import StyleFlip.Standard.Basic

/-!
Plugins that follow a script and keep a log of their calls, for trying out an engine. A scripted control directive
gives its answers from a list, the last of which it repeats; a scripted value directive always gives the same answer;
a scripted flip rule fills templates. Any number of scripted and standard plugins can share an engine.
-/
namespace StyleFlip.Scripted

/-- What a scripted control directive does when it is entered, besides answering. -/
inductive Effect where
  /-- Warns about the node. -/
  | warn
  /-- Cuts the node off. -/
  | remove
  /-- Marks the children of the node as done. -/
  | markChildren
  /-- Logs its argument as flipped for either target. -/
  | flip
deriving DecidableEq, Repr

structure ControlScript where
  name : Text
  interest : Interest
  enters : List Bool
  leaves : List Bool
  effect : Option Effect

structure ValueScript where
  name : Text
  answer : Bool
  /-- The value to be set, if there is one. -/
  set : Option Text

/-- The script of a flip rule. A template stands for the text in which each `%` is what the rule was given. -/
structure RuleScript where
  pattern : Text
  property : Option Text
  value : Option Text

structure Script where
  name : Text
  controls : List ControlScript
  values : List ValueScript
  rules : List RuleScript

/-- What is logged. -/
inductive Event where
  | reset (label : Text)
  | entered (label : Text) (node : NodeId) (invocation : Invocation) (answer : Bool)
  | left (label : Text) (node : NodeId) (invocation : Invocation) (answer : Bool)
  | flipped (selector url : Text) (clean : Bool)
  | value (name : Text) (node : NodeId) (argument : Option Text)
  | rule (pattern property value : Text)
  | before (text : Text)
  | after (text : Text)
deriving DecidableEq, Repr

/-- How often a control directive has been entered and left. -/
structure Calls where
  enters : Nat := 0
  leaves : Nat := 0
deriving DecidableEq, Repr

/-- What the plugins of an engine share. -/
structure Stage where
  /-- The log, earliest event first. -/
  events : List Event := []
  /-- The calls of each scripted control directive, by the places of the plugin and the directive. -/
  calls : List ((Nat × Nat) × Calls) := []
  /-- The states of the standard plugins, by place. -/
  standard : List (Nat × Standard.State) := []

namespace Stage

def log (stage : Stage) (event : Event) : Stage := { stage with events := stage.events ++ [event] }

def callsOf (stage : Stage) (place : Nat × Nat) : Calls := (stage.calls.lookup place).getD {}

/-- The stage with other calls of a control directive. -/
def setCalls (stage : Stage) (place : Nat × Nat) (calls : Calls) : Stage :=
  { stage with calls := (place, calls) :: stage.calls.filter (·.1 != place) }

/-- The place of a standard plugin's state. -/
def slot (plugin : Nat) : Slot Stage Standard.State where
  get stage := (stage.standard.lookup plugin).getD {}
  set state stage := { stage with standard := (plugin, state) :: stage.standard.filter (·.1 != plugin) }

end Stage

/-- The answer to a call by its number; the last answer is repeated, and no answers at all mean yes. -/
def answerAt (answers : List Bool) (call : Nat) : Bool := answers[min call (answers.length - 1)]?.getD true

/-- What an effect does to the scene, and what it logs. -/
def Effect.perform (effect : Effect) (node : NodeId) (invocation : Invocation) (stage : Stage) (scene : Scene) :
    Stage × Scene :=
  match effect with
  | .warn => (stage, scene.warn .badArgument node ("custom warning ".toList ++ invocation.argument))
  | .remove => (stage, { scene with sheet := scene.sheet.remove node })
  | .markChildren => (stage, (scene.sheet.children node).foldl Scene.markHandled scene)
  | .flip =>
    (stage.log (.flipped (scene.map.apply .selector invocation.argument) (scene.map.apply .url invocation.argument)
      scene.options.clean), scene)

/-- The control directive that follows a script, at its place in the engine. -/
def control (label : Text) (place : Nat × Nat) (script : ControlScript) : Control Stage where
  name := script.name
  interest := script.interest
  enter node invocation stage scene :=
    let calls := stage.callsOf place
    let answer := answerAt script.enters calls.enters
    let stage := (stage.setCalls place { calls with enters := calls.enters + 1 }).log
      (.entered label node invocation answer)
    let (stage, scene) := match script.effect with
      | some effect => effect.perform node invocation stage scene
      | none => (stage, scene)
    (answer, stage, scene)
  leave node invocation stage scene :=
    let calls := stage.callsOf place
    let answer := answerAt script.leaves calls.leaves
    let stage := (stage.setCalls place { calls with leaves := calls.leaves + 1 }).log
      (.left label node invocation answer)
    (answer, stage, scene)
  reset stage := (stage.setCalls place {}).log (.reset label)

def value (script : ValueScript) : MarkRule Stage where
  name := script.name
  act node stage scene :=
    let source := ((scene.sheet.declaration? node).map Declaration.markText).getD []
    let argument := (Directive.findMark? script.name source).bind (·.argument)
    let scene := match script.set with
      | some raw => scene.modifyDeclaration node fun decl => decl.withWritten raw
      | none => scene
    (script.answer, stage.log (.value script.name node argument), scene)

/-- A template with what the rule was given. -/
def fill (template : Option Text) (given : Text) : Text :=
  match template with
  | some template => template.flatMap fun c => if c = '%' then given else [c]
  | none => given

def rule (plugin : Text) (script : RuleScript) : Except PatternError (FlipRule Stage) :=
  match Pattern.ofText? script.pattern with
  | none => .error { plugin, pattern := script.pattern }
  | some pattern => .ok
    { fits := pattern.fits
      flip := fun property value _ stage =>
        (⟨fill script.property property, fill script.value value⟩, stage.log (.rule script.pattern property value)) }

/-- The plugin that follows a script, at its place in the engine. -/
def plugin (place : Nat) (script : Script) : Except PatternError (Plugin Stage) := do
  let rules ← script.rules.mapM (rule script.name)
  return {
    name := script.name
    controls := script.controls.mapIdx fun index entry =>
      control (script.name ++ '.' :: Nat.toDigits 10 index) (place, index) entry
    marks := script.values.map value
    rules := rules }

/-- A plugin of a trial: the standard one or a scripted one. -/
inductive Part where
  | standard
  | scripted (script : Script)

/-- The plugin at a place of the engine. -/
def Part.plugin (place : Nat) : Part → Except PatternError (Plugin Stage)
  | .standard => .ok (Standard.plugin (Stage.slot place))
  | .scripted script => Scripted.plugin place script

/-- Hooks that log the text of the sheet. -/
def hooks : Hooks Stage where
  before sheet stage := (sheet, stage.log (.before sheet.toText))
  after sheet stage := (sheet, stage.log (.after sheet.toText))

def engine (options : Options) (parts : List Part) (logged : Bool) : Except PatternError (Engine Stage) := do
  let plugins ← parts.zipIdx.mapM fun (part, place) => part.plugin place
  return { registry := ⟨plugins⟩, options, hooks := if logged then hooks else {}, store := {} }

end StyleFlip.Scripted
