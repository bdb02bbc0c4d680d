import StyleFlip.Directive.Mark
import StyleFlip.Engine.Run

/-!
Declarations in a run. A declaration first goes to the value directives whose marks it carries, in the order in which
they were registered, until one deals with it. If none does, the first flip rule for its property is applied, with the
comments of the value set aside. At the last declaration of a rule in which nothing was flipped, the selector may be
exchanged for its flipped form.
-/
namespace StyleFlip

def Declaration.withoutMarks (decl : Declaration) : Declaration :=
  let decl := { decl with between := Directive.withoutMarks decl.between }
  let decl :=
    if Directive.hasMark decl.written then decl.withWritten (Text.trim (Directive.withoutMarks decl.written)) else decl
  { decl with important := decl.important.map Directive.withoutMarks }

/-- The two names of insets that are exchanged in values. -/
def safeAreaInsets : Swap := { first := "safe-area-inset-left".toList, second := "safe-area-inset-right".toList }

namespace Run
variable {σ : Type}

def countFlip (run : Run σ) : Run σ := { run with flipped := run.flipped + 1, flips := run.flips + 1 }

/-- Tries value directives on a declaration with the given source until one deals with it. -/
def obeyMarksFrom (node : NodeId) (source : Text) : List (MarkRule σ) → Run σ → Bool × Run σ
  | [], run => (false, run)
  | directive :: rest, run =>
    if (Directive.findMark? directive.name source).isSome then
      let (dealt, run) := run.call (directive.act node)
      if dealt then
        let run :=
          if run.scene.options.clean then { run with scene := run.scene.modifyDeclaration node Declaration.withoutMarks }
          else run
        (true, run.countFlip)
      else obeyMarksFrom node source rest run
    else obeyMarksFrom node source rest run

/-- Tries all value directives on a declaration; one without comments has no marks. -/
def obeyMarks (registry : Registry σ) (run : Run σ) (node : NodeId) : Bool × Run σ :=
  match run.scene.sheet.declaration? node with
  | none => (false, run)
  | some decl =>
    let source := decl.markText
    if Text.holds Text.commentOpen source then obeyMarksFrom node source registry.marks run else (false, run)

/-- Applies the first flip rule for a declaration. The rule sees the name under which the property is looked up, and the
property is renamed only if the rule renames that name. -/
def flipByRule (registry : Registry σ) (run : Run σ) (node : NodeId) : Run σ :=
  match run.scene.sheet.declaration? node with
  | none => run
  | some decl =>
    let key := (run.scene.options.alias? decl.property).getD decl.property
    match registry.ruleFor? key with
    | none => run
    | some rule =>
      let written := decl.written
      let (working, comments) := Text.setAside written
      let working := if run.scene.options.processEnv then safeAreaInsets.apply working else working
      let (flip, store) := rule.flip key working run.scene run.store
      let run := { run with store := store }
      let value := Text.restore comments flip.value
      if flip.property = key ∧ value = written then run
      else
        let change := fun (decl : Declaration) =>
          (if flip.property = key then decl else { decl with property := flip.property }).withWritten value
        { run with scene := run.scene.modifyDeclaration node change }.countFlip

/-- Flips the selector of a rule, alone or, in strict mode, together with the rule that carries the flipped one. -/
def renameRule (run : Run σ) (rule : NodeId) (selector : Text) : Run σ :=
  let flipped := run.scene.map.apply .selector selector
  if run.scene.options.autoRenameStrict then
    match run.pending.find? fun (waiting, _) => waiting == flipped with
    | some (waiting, pair) =>
      let sheet := (run.scene.sheet.setSelector pair selector).setSelector rule flipped
      { run.setSheet sheet with pending := run.pending.eraseP fun (other, _) => other == waiting }
    | none => { run with pending := run.pending ++ [(selector, rule)] }
  else if flipped = selector then run
  else run.setSheet (run.scene.sheet.setSelector rule flipped)

/-- Flips the selector of the rule around a declaration if that is its last one and none was flipped. -/
def renameAround (run : Run σ) (node : NodeId) : Run σ :=
  if !run.scene.options.autoRename || 0 < run.flipped then run
  else match run.scene.sheet.parent node with
    | none => run
    | some parent =>
      match run.scene.sheet.selector? parent with
      | none => run
      | some selector => if run.scene.sheet.isFinalOfKind node then run.renameRule parent selector else run

/-- A declaration that the gate lets through. -/
def flipDeclaration (registry : Registry σ) (run : Run σ) (node : NodeId) : Run σ :=
  let (dealt, run) := obeyMarks registry run node
  let run := if dealt then run else flipByRule registry run node
  run.renameAround node

end Run
end StyleFlip
