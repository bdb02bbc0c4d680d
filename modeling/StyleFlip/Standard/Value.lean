import StyleFlip.Directive.Mark
import StyleFlip.Engine.Plugin

/-!
The standard value directives: `ignore` keeps a declaration, `prepend` and `append` put their argument before or after
the value, `insert` puts it in the place of the mark, and a mark without one of these names replaces the whole value.
-/
namespace StyleFlip.Standard
variable {σ : Type}

/-- The argument of the first mark for a directive in a declaration; a mark without one has an empty argument. -/
def argument? (name : Text) (decl : Declaration) : Option Text :=
  (Directive.findMark? name decl.markText).map fun mark => mark.argument.getD []

/-- A value directive that changes the declaration if it can. -/
def changing (name : Text) (change? : Declaration → Option Declaration) : MarkRule σ where
  name := name
  act node store scene :=
    match (scene.sheet.declaration? node).bind change? with
    | some changed => (true, store, scene.modifyDeclaration node fun _ => changed)
    | none => (false, store, scene)

/-- `ignore`: keeps the declaration as it is written. -/
def keepValue : MarkRule σ where
  name := "ignore".toList
  act _ store scene := (true, store, scene)

/-- `prepend`: puts its argument in front of the value. -/
def prepend : MarkRule σ :=
  let name := "prepend".toList
  changing name fun decl => (argument? name decl).map fun argument => decl.withWritten (argument ++ decl.written)

/-- `append`: puts its argument after the value. -/
def append : MarkRule σ :=
  let name := "append".toList
  changing name fun decl => (argument? name decl).map fun argument => decl.withWritten (decl.written ++ argument)

/-- `insert`: puts its argument in the place of the mark, if the mark stands in the value. -/
def insert : MarkRule σ :=
  let name := "insert".toList
  changing name fun decl =>
    match Directive.findMark? name decl.written with
    | some mark => some (decl.withWritten (mark.before ++ mark.argument.getD [] ++ mark.following))
    | none => some (decl.withWritten decl.written)

/-- The mark without a name: its text replaces the value. The mark itself stays behind the new value until marks are
stripped. -/
def replace : MarkRule σ :=
  changing [] fun decl =>
    (argument? [] decl).map fun argument =>
      match Directive.findMark? [] decl.written with
      | some mark => decl.withWritten (argument ++ mark.token)
      | none => decl.withValue argument

end StyleFlip.Standard
