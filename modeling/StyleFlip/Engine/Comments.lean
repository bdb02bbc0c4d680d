import StyleFlip.Directive.Form
import StyleFlip.Engine.Run

/-!
Directive comments in a run. The forms of a comment are dealt with one after the other. A form that opens a directive
puts it on the row of open directives, unless the directive is done within its own comment; a form that closes ends the
innermost open directive of its name. Closing forms and directives that are done end the comment: forms after them are
not looked at. A directive that is switched off never reaches its handler, but opening it leaves a marker for the form
that closes it.
-/
namespace StyleFlip.Run
variable {σ : Type}

/-- What became of a form. -/
inductive Outcome where
  /-- It was dealt with. -/
  | taken
  /-- Nothing knows its directive. -/
  | unknown
  /-- It was dealt with and ends the comment. -/
  | final
deriving DecidableEq, Repr

/-- The innermost open directive of a name, with the directives before and after it. -/
def lastNamed? (name : Text) :
    List (OpenDirective σ) → Option (List (OpenDirective σ) × OpenDirective σ × List (OpenDirective σ))
  | [] => none
  | entry :: rest =>
    match lastNamed? name rest with
    | some (before, found, later) => some (entry :: before, found, later)
    | none => if entry.invocation.name = name then some ([], entry, rest) else none

/-- A form of a directive that is switched off. -/
def passOver (run : Run σ) (plugin : Text) (invocation : Invocation) : Run σ :=
  let run :=
    if invocation.opens then
      run.warn .disabled invocation.source
        ("directive \"".toList ++ plugin ++ '.' :: (invocation.name ++ "\" is blacklisted.".toList))
    else run
  match invocation.opens, invocation.closes with
  | true, false => { run with stack := run.stack ++ [⟨invocation, none⟩] }
  | false, true =>
    match lastNamed? invocation.name run.stack with
    | some (before, entry, later) => run.endDirective entry (before ++ later)
    | none => run
  | _, _ => run

/-- A form that closes the innermost open directive of its name. -/
def obeyEnd (run : Run σ) (invocation : Invocation) : Run σ :=
  match lastNamed? invocation.name run.stack with
  | none =>
    run.warn .strayEnd invocation.source
      ("found end \"".toList ++ invocation.name ++ "\" without a matching begin.".toList)
  | some (before, entry, later) =>
    let (closed, run) := match entry.control with
      | some control => run.call (control.leave invocation.source invocation)
      | none => (true, run)
    if closed then run.endDirective entry (before ++ later) else run

/-- Whether a directive that is done within its own comment is done, and the run after asking it. -/
def completes (run : Run σ) (control : Control σ) (invocation : Invocation) : Bool × Run σ :=
  if control.interest.isSelfClosing then
    let (entered, run) := run.call (control.enter invocation.source invocation)
    if entered && invocation.closes then run.call (control.leave invocation.source invocation) else (false, run)
  else (false, run)

/-- One form of a directive comment. -/
def obey (registry : Registry σ) (run : Run σ) (invocation : Invocation) : Outcome × Run σ :=
  match registry.lookup run.scene.options invocation.name with
  | .disabled plugin => (.taken, run.passOver plugin { invocation with disabled := true })
  | .missing =>
    (.unknown, run.warn .unknown invocation.source
      ("unsupported directive \"".toList ++ invocation.name ++ "\".".toList))
  | .found control =>
    if invocation.opens then
      let (done, run) := run.completes control invocation
      if done then (.final, run) else (.taken, { run with stack := run.stack ++ [⟨invocation, some control⟩] })
    else (.final, run.obeyEnd invocation)

/-- The forms of a comment in turn, and whether any of them was dealt with. -/
def obeyForms (registry : Registry σ) (source : NodeId) (preserve : Bool) (consumed : Bool) :
    List Directive.Form → Run σ → Bool × Run σ
  | [], run => (consumed, run)
  | form :: rest, run =>
    let (outcome, run) := obey registry run
      { name := form.name, argument := form.argument, opens := form.opens, closes := form.closes, preserve, source }
    match outcome with
    | .taken => obeyForms registry source preserve true rest run
    | .unknown => obeyForms registry source preserve consumed rest run
    | .final => (true, run)

/-- A comment: its directives are obeyed, and it is stripped if it had any that were. -/
def obeyComment (registry : Registry σ) (run : Run σ) (node : NodeId) : Run σ :=
  match (run.scene.sheet.comment? node).bind Directive.Comment.parse? with
  | none => run
  | some comment =>
    let preserve := comment.preserve || !run.scene.options.clean
    let (consumed, run) := obeyForms registry node preserve false comment.forms run
    if consumed then run.stripSource node preserve else run

end StyleFlip.Run
