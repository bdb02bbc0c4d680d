import StyleFlip.Proofs.MarkedRuns
import StyleFlip.Proofs.ValueComments

/-!
Which of the registered value directives and flip rules a declaration is given to. The value directives that its marks name form a
row, in the order of the registration. Either all of the row decline in their turn, or there is a first one that deals with the
declaration (`declines_or_deals`), and what the run does is said for the two cases (`obeyMarks_of_declines`, `obeyMarks_of_deals`).
Then at most one flip rule is applied, the first that fits (`flipByRule_of_rule`). To say which handlers are called, the same run
is made with handlers that keep a log of their calls beside their store (`Registry.logged`, `Run.logged`); apart from the log it is
the same run (`flipDeclaration_dispatch`).
-/
namespace StyleFlip

section
variable {σ : Type}

/-- A declaration carries a mark with the name of the directive, where `source` is the text in which its marks stand. -/
def MarkRule.isNamedIn (source : Text) (directive : MarkRule σ) : Bool := (Directive.findMark? directive.name source).isSome

/-- The directive does not turn a declaration into something else. -/
def MarkRule.KeepsDeclaration (node : NodeId) (directive : MarkRule σ) : Prop :=
  ∀ store scene, (scene.sheet.declaration? node).isSome = true →
    ((directive.act node store scene).2.2.sheet.declaration? node).isSome = true

/-- The value directives that the marks of a declaration name, in the order in which they were registered. -/
def Registry.named (registry : Registry σ) (decl : Declaration) : List (MarkRule σ) :=
  registry.marks.filter (·.isNamedIn decl.markText)

theorem Registry.isNamedIn_of_mem_named {registry : Registry σ} {decl : Declaration} {directive : MarkRule σ}
    (member : directive ∈ registry.named decl) : directive.isNamedIn decl.markText = true :=
  List.of_mem_filter member

namespace Run

/-! ## Rows of value directives -/

/-- The run after the value directives of a row have been called about a node. -/
def afterMarks (node : NodeId) (row : List (MarkRule σ)) (run : Run σ) : Run σ :=
  row.foldl (fun run directive => (run.call (directive.act node)).2) run

/-- Every value directive of a row, called in its turn, leaves the node to others. -/
def Declines (node : NodeId) : List (MarkRule σ) → Run σ → Prop
  | [], _ => True
  | directive :: rest, run =>
    (run.call (directive.act node)).1 = false ∧ Declines node rest (run.call (directive.act node)).2

/-- The run after a value directive has dealt with a declaration. -/
def settle (node : NodeId) (run : Run σ) : Run σ :=
  countFlip <|
    if run.scene.options.clean then { run with scene := run.scene.modifyDeclaration node Declaration.withoutMarks } else run

theorem afterMarks_cons (node : NodeId) (directive : MarkRule σ) (rest : List (MarkRule σ)) (run : Run σ) :
    run.afterMarks node (directive :: rest) = (run.call (directive.act node)).2.afterMarks node rest := rfl

theorem counts_afterMarks (node : NodeId) (row : List (MarkRule σ)) (run : Run σ) :
    (run.afterMarks node row).flips = run.flips ∧ (run.afterMarks node row).flipped = run.flipped := by
  induction row generalizing run with
  | nil => exact ⟨rfl, rfl⟩
  | cons directive rest ih => exact ih (run.call (directive.act node)).2

theorem counts_settle (node : NodeId) (run : Run σ) :
    (run.settle node).flips = run.flips + 1 ∧ (run.settle node).flipped = run.flipped + 1 := by
  unfold settle
  split <;> exact ⟨rfl, rfl⟩

/-- Directives that keep declarations leave one behind. -/
theorem isSome_declaration?_afterMarks {node : NodeId} {row : List (MarkRule σ)}
    (keeps : ∀ directive ∈ row, directive.KeepsDeclaration node) {run : Run σ}
    (declares : (run.scene.sheet.declaration? node).isSome = true) :
    ((run.afterMarks node row).scene.sheet.declaration? node).isSome = true := by
  induction row generalizing run with
  | nil => exact declares
  | cons directive rest ih =>
    obtain ⟨own, others⟩ := List.forall_mem_cons.mp keeps
    exact ih others (own run.store run.scene declares)

/-- A row of value directives declines as a whole, or one of them is the first to deal with the node. -/
theorem declines_or_deals (node : NodeId) (row : List (MarkRule σ)) (run : Run σ) :
    Declines node row run ∨ ∃ front directive later, row = front ++ directive :: later ∧ Declines node front run ∧
      ((run.afterMarks node front).call (directive.act node)).1 = true := by
  induction row generalizing run with
  | nil => exact .inl trivial
  | cons first rest ih =>
    cases answer : (run.call (first.act node)).1 with
    | true => exact .inr ⟨[], first, rest, rfl, trivial, answer⟩
    | false =>
      rcases ih (run.call (first.act node)).2 with declined | ⟨front, directive, later, rfl, declined, deals⟩
      · exact .inl ⟨answer, declined⟩
      · exact .inr ⟨first :: front, directive, later, rfl, ⟨answer, declined⟩, deals⟩

theorem obeyMarksFrom_cons (node : NodeId) (source : Text) (directive : MarkRule σ) (rest : List (MarkRule σ)) (run : Run σ) :
    obeyMarksFrom node source (directive :: rest) run =
      if directive.isNamedIn source then
        if (run.call (directive.act node)).1 then (true, (run.call (directive.act node)).2.settle node)
        else obeyMarksFrom node source rest (run.call (directive.act node)).2
      else obeyMarksFrom node source rest run := rfl

/-- Directives that are not named are passed over. -/
theorem obeyMarksFrom_filter (node : NodeId) (source : Text) (directives : List (MarkRule σ)) (run : Run σ) :
    obeyMarksFrom node source (directives.filter (·.isNamedIn source)) run = obeyMarksFrom node source directives run := by
  induction directives generalizing run with
  | nil => rfl
  | cons directive rest ih =>
    by_cases named : directive.isNamedIn source = true
    · rw [List.filter_cons_of_pos named, obeyMarksFrom_cons, obeyMarksFrom_cons, ih, ih]
    · rw [List.filter_cons_of_neg named, obeyMarksFrom_cons, if_neg named, ih]

/-- Directives that decline hand the run on to those behind them. -/
theorem obeyMarksFrom_append {node : NodeId} {source : Text} {front : List (MarkRule σ)} {run : Run σ}
    (named : ∀ directive ∈ front, directive.isNamedIn source = true) (declined : Declines node front run)
    (later : List (MarkRule σ)) :
    obeyMarksFrom node source (front ++ later) run = obeyMarksFrom node source later (run.afterMarks node front) := by
  induction front generalizing run with
  | nil => rfl
  | cons first front ih =>
    obtain ⟨own, others⟩ := List.forall_mem_cons.mp named
    rw [List.cons_append, obeyMarksFrom_cons, if_pos own, declined.1, if_neg Bool.false_ne_true, ih others declined.2,
      afterMarks_cons]

section
variable {registry : Registry σ} {run : Run σ} {node : NodeId} {decl : Declaration}
  (declares : run.scene.sheet.declaration? node = some decl)
include declares

/-- All that counts is the row of the directives that are named; a declaration without comments names none. -/
theorem obeyMarks_eq : obeyMarks registry run node = obeyMarksFrom node decl.markText (registry.named decl) run := by
  rw [Registry.named, obeyMarksFrom_filter]
  simp only [obeyMarks, declares]
  split
  · rfl
  · rename_i bare
    have none : registry.named decl = [] := by
      refine List.filter_eq_nil_iff.mpr fun directive _ named => bare ?_
      exact Directive.holds_of_findMark? named
    rw [← obeyMarksFrom_filter, ← Registry.named, none]
    rfl

theorem obeyMarks_of_declines (declined : Declines node (registry.named decl) run) :
    obeyMarks registry run node = (false, run.afterMarks node (registry.named decl)) := by
  have walk := obeyMarksFrom_append (fun _ => Registry.isNamedIn_of_mem_named) declined []
  rw [List.append_nil] at walk
  rw [obeyMarks_eq declares, walk]
  rfl

theorem obeyMarks_of_deals {front later : List (MarkRule σ)} {directive : MarkRule σ}
    (row : registry.named decl = front ++ directive :: later) (declined : Declines node front run)
    (deals : ((run.afterMarks node front).call (directive.act node)).1 = true) :
    obeyMarks registry run node = (true, ((run.afterMarks node front).call (directive.act node)).2.settle node) := by
  have named : ∀ other ∈ front ++ directive :: later, other.isNamedIn decl.markText = true := by
    rw [← row]
    exact fun _ => Registry.isNamedIn_of_mem_named
  obtain ⟨before, own, _⟩ := List.forall_mem_append.mp named |>.imp_right List.forall_mem_cons.mp
  rw [obeyMarks_eq declares, row, obeyMarksFrom_append before declined, obeyMarksFrom_cons, if_pos own, if_pos deals]

/-! ## Flip rules -/

/-- What the first flip rule that fits makes of a declaration, if there is one. -/
theorem flipByRule_of_rule {rule : FlipRule σ}
    (found : registry.ruleFor? ((run.scene.options.alias? decl.property).getD decl.property) = some rule) :
    let key := (run.scene.options.alias? decl.property).getD decl.property
    let answer := rule.flip key (Standard.workingValue run.scene.options decl.written) run.scene run.store
    let value := Text.restore (Text.setAside decl.written).2 answer.1.value
    flipByRule registry run node =
      if answer.1.property = key ∧ value = decl.written then { run with store := answer.2 }
      else
        { run with
          store := answer.2
          scene := run.scene.modifyDeclaration node fun decl =>
            (if answer.1.property = key then decl else { decl with property := answer.1.property }).withWritten value }.countFlip := by
  simp only [flipByRule, declares, found]
  rfl

/-- A flip counts if the rule renames what it was asked for or if the value with its comments is another one, and otherwise
nothing has changed. -/
theorem counts_flipByRule {rule : FlipRule σ}
    (found : registry.ruleFor? ((run.scene.options.alias? decl.property).getD decl.property) = some rule) :
    let key := (run.scene.options.alias? decl.property).getD decl.property
    let flip := (rule.flip key (Standard.workingValue run.scene.options decl.written) run.scene run.store).1
    let grown := if flip.property ≠ key ∨ Text.restore (Text.setAside decl.written).2 flip.value ≠ decl.written then 1 else 0
    (flipByRule registry run node).flips = run.flips + grown ∧ (flipByRule registry run node).flipped = run.flipped + grown ∧
      (grown = 0 → (flipByRule registry run node).scene = run.scene) := by
  intro key flip grown
  have outcome := flipByRule_of_rule declares found
  by_cases same : flip.property = key ∧ Text.restore (Text.setAside decl.written).2 flip.value = decl.written
  · have none : grown = 0 := if_neg (by rw [not_or, not_not, not_not]; exact same)
    rw [outcome, none, if_pos same]
    exact ⟨rfl, rfl, fun _ => rfl⟩
  · have one : grown = 1 := if_pos (by rwa [← not_and_or])
    rw [outcome, one, if_neg same]
    exact ⟨rfl, rfl, fun zero => absurd zero Nat.one_ne_zero⟩

theorem flipByRule_of_missing (missing : registry.ruleFor? ((run.scene.options.alias? decl.property).getD decl.property) = none) :
    flipByRule registry run node = run := by
  simp only [flipByRule, declares, missing]

end

end Run

/-! ## Calls -/

/-- A call of a value directive about a node, or of a flip rule with the name and the value that it sees, and the store and the
scene that were there. -/
inductive Dispatch (σ : Type) where
  | mark (directive : MarkRule σ) (node : NodeId) (store : σ) (scene : Scene)
  | rule (rule : FlipRule σ) (key value : Text) (store : σ) (scene : Scene)

def MarkRule.logged (directive : MarkRule σ) : MarkRule (σ × List (Dispatch σ)) where
  name := directive.name
  act := fun node store scene =>
    let result := directive.act node store.1 scene
    (result.1, (result.2.1, store.2 ++ [.mark directive node store.1 scene]), result.2.2)

def FlipRule.logged (rule : FlipRule σ) : FlipRule (σ × List (Dispatch σ)) where
  fits := rule.fits
  flip := fun key value scene store =>
    let result := rule.flip key value scene store.1
    (result.1, (result.2, store.2 ++ [.rule rule key value store.1 scene]))

/-- The handler beside a log that it does not touch. -/
def Handler.beside {τ α : Type} (handler : Handler σ α) : Handler (σ × τ) α := fun store scene =>
  let result := handler store.1 scene
  (result.1, (result.2.1, store.2), result.2.2)

/-- The control beside a log that it does not touch. -/
def Control.beside {τ : Type} (control : Control σ) : Control (σ × τ) where
  name := control.name
  interest := control.interest
  enter := fun node invocation => (control.enter node invocation).beside
  leave := fun node invocation => (control.leave node invocation).beside
  reset := fun store => (control.reset store.1, store.2)

/-- The plugins with a log of the calls of their value directives and flip rules. -/
def Registry.logged (registry : Registry σ) : Registry (σ × List (Dispatch σ)) where
  plugins := registry.plugins.map fun plugin =>
    { name := plugin.name
      controls := plugin.controls.map Control.beside
      marks := plugin.marks.map MarkRule.logged
      rules := plugin.rules.map FlipRule.logged }

/-- The run with a log of the calls of value directives and flip rules. -/
def Run.logged (run : Run σ) (log : List (Dispatch σ)) : Run (σ × List (Dispatch σ)) where
  store := (run.store, log)
  scene := run.scene
  stack := run.stack.map fun entry => ⟨entry.invocation, entry.control.map Control.beside⟩
  pending := run.pending
  flipped := run.flipped
  flips := run.flips

namespace Registry

theorem named_logged (registry : Registry σ) (decl : Declaration) :
    registry.logged.named decl = (registry.named decl).map MarkRule.logged := by
  have marks : registry.logged.marks = registry.marks.map MarkRule.logged := by
    rw [Registry.marks, Registry.marks, logged, List.flatMap_map, List.map_flatMap]
  rw [named, named, marks, List.filter_map]
  rfl

theorem ruleFor?_logged (registry : Registry σ) (property : Text) :
    registry.logged.ruleFor? property = (registry.ruleFor? property).map FlipRule.logged := by
  have rules : registry.logged.plugins.flatMap (·.rules) = (registry.plugins.flatMap (·.rules)).map FlipRule.logged := by
    rw [logged, List.flatMap_map, List.map_flatMap]
  rw [ruleFor?, ruleFor?, rules, List.find?_map]
  rfl

end Registry

namespace Run

theorem scene_logged (run : Run σ) (log : List (Dispatch σ)) : (run.logged log).scene = run.scene := rfl

theorem pending_logged (run : Run σ) (log : List (Dispatch σ)) : (run.logged log).pending = run.pending := rfl

theorem flipped_logged (run : Run σ) (log : List (Dispatch σ)) : (run.logged log).flipped = run.flipped := rfl

/-- The calls of the value directives of a row about a node, one after the other. -/
def markCalls (node : NodeId) : List (MarkRule σ) → Run σ → List (Dispatch σ)
  | [], _ => []
  | directive :: rest, run =>
    .mark directive node run.store run.scene :: markCalls node rest (run.call (directive.act node)).2

theorem call_logged (run : Run σ) (log : List (Dispatch σ)) (directive : MarkRule σ) (node : NodeId) :
    (run.logged log).call (directive.logged.act node) =
      ((run.call (directive.act node)).1,
        (run.call (directive.act node)).2.logged (log ++ [.mark directive node run.store run.scene])) := rfl

theorem afterMarks_logged (node : NodeId) (row : List (MarkRule σ)) (run : Run σ) (log : List (Dispatch σ)) :
    (run.logged log).afterMarks node (row.map MarkRule.logged) =
      (run.afterMarks node row).logged (log ++ markCalls node row run) := by
  induction row generalizing run log with
  | nil => rw [markCalls, List.append_nil]; rfl
  | cons directive rest ih =>
    rw [List.map_cons, afterMarks_cons, call_logged, ih, afterMarks_cons, markCalls, List.append_assoc, List.singleton_append]

theorem declines_logged {node : NodeId} {row : List (MarkRule σ)} {run : Run σ} (log : List (Dispatch σ))
    (declined : Declines node row run) : Declines node (row.map MarkRule.logged) (run.logged log) := by
  induction row generalizing run log with
  | nil => trivial
  | cons directive rest ih => exact ⟨declined.1, ih _ declined.2⟩

theorem markCalls_concat (node : NodeId) (row : List (MarkRule σ)) (directive : MarkRule σ) (run : Run σ) :
    markCalls node (row ++ [directive]) run =
      markCalls node row run ++ [.mark directive node (run.afterMarks node row).store (run.afterMarks node row).scene] := by
  induction row generalizing run with
  | nil => rfl
  | cons first rest ih => rw [List.cons_append, markCalls, markCalls, ih, List.cons_append]; rfl

theorem settle_logged (node : NodeId) (run : Run σ) (log : List (Dispatch σ)) :
    (run.logged log).settle node = (run.settle node).logged log := by
  unfold settle
  by_cases clean : run.scene.options.clean = true
  · rw [if_pos clean, if_pos (by exact clean)]
    rfl
  · rw [if_neg clean, if_neg (by exact clean)]
    rfl

theorem renameRule_logged (run : Run σ) (rule : NodeId) (selector : Text) (log : List (Dispatch σ)) :
    (run.logged log).renameRule rule selector = (run.renameRule rule selector).logged log := by
  simp only [renameRule, scene_logged, pending_logged]
  by_cases strict : run.scene.options.autoRenameStrict = true
  · refine (if_pos strict).trans ?_
    rw [if_pos strict]
    cases run.pending.find? fun waiting => waiting.1 == run.scene.map.apply .selector selector <;> rfl
  · refine (if_neg strict).trans ?_
    rw [if_neg strict]
    by_cases same : run.scene.map.apply .selector selector = selector
    · rw [if_pos same]
      exact if_pos same
    · rw [if_neg same]
      exact if_neg same

theorem renameAround_logged (run : Run σ) (node : NodeId) (log : List (Dispatch σ)) :
    (run.logged log).renameAround node = (run.renameAround node).logged log := by
  simp only [renameAround, scene_logged, flipped_logged, renameRule_logged]
  by_cases off : (!run.scene.options.autoRename || decide (0 < run.flipped)) = true
  · rw [if_pos off]
    exact if_pos off
  · rw [if_neg off]
    refine (if_neg off).trans ?_
    cases run.scene.sheet.parent node with
    | none => rfl
    | some above =>
      simp only
      cases run.scene.sheet.selector? above with
      | none => rfl
      | some selector => exact (apply_ite (logged · log) _ _ _).symm

section
variable {registry : Registry σ} {run : Run σ} {node : NodeId} {decl : Declaration}
  (declares : run.scene.sheet.declaration? node = some decl) (log : List (Dispatch σ))
include declares

theorem obeyMarks_logged_of_declines (declined : Declines node (registry.named decl) run) :
    obeyMarks registry.logged (run.logged log) node =
      (false, (run.afterMarks node (registry.named decl)).logged (log ++ markCalls node (registry.named decl) run)) := by
  have row := registry.named_logged decl
  have walk := @obeyMarks_of_declines _ registry.logged (run.logged log) node decl declares (row ▸ declines_logged log declined)
  rw [walk, row, afterMarks_logged]

theorem obeyMarks_logged_of_deals {front later : List (MarkRule σ)} {directive : MarkRule σ}
    (row : registry.named decl = front ++ directive :: later) (declined : Declines node front run)
    (deals : ((run.afterMarks node front).call (directive.act node)).1 = true) :
    obeyMarks registry.logged (run.logged log) node =
      (true, (((run.afterMarks node front).call (directive.act node)).2.settle node).logged
        (log ++ markCalls node (front ++ [directive]) run)) := by
  have rowLogged : registry.logged.named decl = front.map MarkRule.logged ++ directive.logged :: later.map MarkRule.logged := by
    rw [Registry.named_logged, row, List.map_append, List.map_cons]
  have walk := @obeyMarks_of_deals _ registry.logged (run.logged log) node decl declares _ _ _ rowLogged
    (declines_logged log declined) (by rw [afterMarks_logged]; exact deals)
  rw [walk, afterMarks_logged, call_logged, settle_logged, markCalls_concat, List.append_assoc]

theorem flipByRule_logged_of_missing
    (missing : registry.ruleFor? ((run.scene.options.alias? decl.property).getD decl.property) = none) :
    flipByRule registry.logged (run.logged log) node = (flipByRule registry run node).logged log := by
  rw [flipByRule_of_missing declares missing]
  refine @flipByRule_of_missing _ registry.logged (run.logged log) node decl declares ?_
  rw [Registry.ruleFor?_logged, scene_logged, missing]
  rfl

theorem flipByRule_logged_of_rule {rule : FlipRule σ}
    (found : registry.ruleFor? ((run.scene.options.alias? decl.property).getD decl.property) = some rule) :
    flipByRule registry.logged (run.logged log) node =
      (flipByRule registry run node).logged (log ++ [.rule rule ((run.scene.options.alias? decl.property).getD decl.property)
        (Standard.workingValue run.scene.options decl.written) run.store run.scene]) := by
  have foundLogged : registry.logged.ruleFor? (((run.logged log).scene.options.alias? decl.property).getD decl.property) =
      some rule.logged := by
    rw [Registry.ruleFor?_logged, scene_logged, found]
    rfl
  rw [flipByRule_of_rule declares found, @flipByRule_of_rule _ registry.logged (run.logged log) node decl declares _ foundLogged]
  rw [apply_ite (logged · (log ++ _))]
  rfl

/-- The first registered flip rule that fits is called and no other, and it has left the scene alone if no flip counts. -/
theorem flipByRule_dispatch (registry : Registry σ) :
    let key := (run.scene.options.alias? decl.property).getD decl.property
    let working := Standard.workingValue run.scene.options decl.written
    let result := flipByRule registry run node
    ∃ calls, flipByRule registry.logged (run.logged log) node = result.logged (log ++ calls) ∧
      (result.flips = run.flips → result.scene = run.scene) ∧
      ((∀ rule ∈ registry.plugins.flatMap (·.rules), rule.fits key = false) ∧ calls = [] ∧
          result.flips = run.flips ∧ result.flipped = run.flipped ∨
        ∃ earlier rule later, registry.plugins.flatMap (·.rules) = earlier ++ rule :: later ∧
          (∀ other ∈ earlier, other.fits key = false) ∧ rule.fits key = true ∧
          calls = [.rule rule key working run.store run.scene] ∧
          let flip := (rule.flip key working run.scene run.store).1
          let grown := if flip.property ≠ key ∨ Text.restore (Text.setAside decl.written).2 flip.value ≠ decl.written then 1 else 0
          result.flips = run.flips + grown ∧ result.flipped = run.flipped + grown) := by
  intro key working result
  cases chosen : registry.ruleFor? key with
  | none =>
    have untouched : result = run := flipByRule_of_missing declares chosen
    refine ⟨[], ?_, fun _ => by rw [untouched], .inl ⟨?_, rfl, by rw [untouched], by rw [untouched]⟩⟩
    · rw [List.append_nil]
      exact flipByRule_logged_of_missing declares log chosen
    · intro rule member
      exact Bool.eq_false_iff.mpr (List.find?_eq_none.mp chosen rule member)
  | some rule =>
    obtain ⟨fits, earlier, later, row, others⟩ := List.find?_eq_some_iff_append.mp chosen
    obtain ⟨counts, countsHere, unchanged⟩ := counts_flipByRule declares chosen
    refine ⟨_, flipByRule_logged_of_rule declares log chosen, fun still => unchanged ?_,
      .inr ⟨earlier, rule, later, row, ?_, fits, rfl, counts, countsHere⟩⟩
    · have none := counts.symm.trans still
      omega
    · intro other member
      have unfit := others other member
      rwa [Bool.not_eq_true'] at unfit

end

theorem flipDeclaration_eq (registry : Registry σ) (run : Run σ) (node : NodeId) :
    flipDeclaration registry run node = (flipValue registry run node).renameAround node := rfl

theorem flipValue_of_obeyMarks {registry : Registry σ} {run after : Run σ} {node : NodeId} {dealt : Bool}
    (obeyed : obeyMarks registry run node = (dealt, after)) :
    flipValue registry run node = if dealt then after else flipByRule registry after node := by
  simp only [flipValue, obeyed]

/-- What becomes of a declaration that the gate lets through, whatever the handlers of the plugins do, if the value directives
keep it a declaration. Apart from its log the run that keeps one is the same run, and its log says which handlers were called.
The value directives that the marks name are called in the order of the registration, each once, up to the first that deals with
the declaration; then no flip rule is called, and one flip counts. If all decline, the first registered flip rule that fits the
property, or what stands for it, is called and no other; if none fits, none is called. A flip counts exactly if the rule
renamed what it was asked for or if it gave another value, comments included. Where no flip counts, the flip rules have left the
scene as the value directives had made it. -/
theorem flipDeclaration_dispatch {registry : Registry σ} {run : Run σ} {node : NodeId} {decl : Declaration}
    (declares : run.scene.sheet.declaration? node = some decl)
    (keeps : ∀ directive ∈ registry.marks, directive.KeepsDeclaration node) (log : List (Dispatch σ)) :
    let result := flipDeclaration registry run node
    let named := registry.named decl
    let middle := run.afterMarks node named
    ∃ calls, flipDeclaration registry.logged (run.logged log) node = result.logged (log ++ calls) ∧
      ((∃ front directive later, named = front ++ directive :: later ∧ Declines node front run ∧
          ((run.afterMarks node front).call (directive.act node)).1 = true ∧
          calls = markCalls node (front ++ [directive]) run ∧
          result.flips = run.flips + 1 ∧ result.flipped = run.flipped + 1) ∨
        Declines node named run ∧ ∃ current, middle.scene.sheet.declaration? node = some current ∧
          (result.flips = run.flips → (flipValue registry run node).scene = middle.scene ∧
            result.scene.sheet.declaration? node = some current) ∧
          let key := (middle.scene.options.alias? current.property).getD current.property
          let working := Standard.workingValue middle.scene.options current.written
          ((∀ rule ∈ registry.plugins.flatMap (·.rules), rule.fits key = false) ∧
              calls = markCalls node named run ∧ result.flips = run.flips ∧ result.flipped = run.flipped ∨
            ∃ earlier rule later, registry.plugins.flatMap (·.rules) = earlier ++ rule :: later ∧
              (∀ other ∈ earlier, other.fits key = false) ∧ rule.fits key = true ∧
              calls = markCalls node named run ++ [.rule rule key working middle.store middle.scene] ∧
              let flip := (rule.flip key working middle.scene middle.store).1
              let grown := if flip.property ≠ key ∨
                Text.restore (Text.setAside current.written).2 flip.value ≠ current.written then 1 else 0
              result.flips = run.flips + grown ∧ result.flipped = run.flipped + grown)) := by
  intro result named middle
  -- The selector of the rule around is seen to last; it changes neither the counts nor the log nor the declaration.
  have flips : result.flips = (flipValue registry run node).flips := (counts_renameAround _ node).1
  have flipped : result.flipped = (flipValue registry run node).flipped := (counts_renameAround _ node).2
  have last : ∀ calls, flipValue registry.logged (run.logged log) node = (flipValue registry run node).logged (log ++ calls) →
      flipDeclaration registry.logged (run.logged log) node = result.logged (log ++ calls) := by
    intro calls logged
    rw [flipDeclaration_eq, logged, renameAround_logged]
    rfl
  rw [flips, flipped]
  rcases declines_or_deals node named run with declined | ⟨front, directive, later, row, declined, deals⟩
  · have plain := flipValue_of_obeyMarks (obeyMarks_of_declines declares declined)
    have logged := flipValue_of_obeyMarks (obeyMarks_logged_of_declines declares log declined)
    rw [if_neg Bool.false_ne_true] at plain logged
    have kept : (middle.scene.sheet.declaration? node).isSome = true :=
      isSome_declaration?_afterMarks (fun other member => keeps other (List.mem_of_mem_filter member)) (by rw [declares]; rfl)
    obtain ⟨current, found⟩ := Option.isSome_iff_exists.mp kept
    obtain ⟨flipsBefore, flippedBefore⟩ := counts_afterMarks node named run
    obtain ⟨calls, alike, unchanged, outcome⟩ := flipByRule_dispatch found (log ++ markCalls node named run) registry
    rw [← plain, flipsBefore] at unchanged
    rw [← plain, flipsBefore, flippedBefore] at outcome
    refine ⟨markCalls node named run ++ calls, last _ ?_, .inr ⟨declined, current, found, ?_, ?_⟩⟩
    · rw [logged, alike, plain, List.append_assoc]
    · intro still
      refine ⟨unchanged still, ?_⟩
      rw [← found, ← unchanged still]
      exact declaration?_renameAround _ node node
    · rcases outcome with ⟨unfit, rfl, counts⟩ | ⟨earlier, rule, later, row, unfit, fits, rfl, counts⟩
      · exact .inl ⟨unfit, List.append_nil _, counts⟩
      · exact .inr ⟨earlier, rule, later, row, unfit, fits, rfl, counts⟩
  · have plain := flipValue_of_obeyMarks (obeyMarks_of_deals declares row declined deals)
    have logged := flipValue_of_obeyMarks (obeyMarks_logged_of_deals declares log row declined deals)
    rw [if_pos rfl] at plain logged
    obtain ⟨flipsBefore, flippedBefore⟩ := counts_afterMarks node front run
    obtain ⟨more, moreHere⟩ := counts_settle node ((run.afterMarks node front).call (directive.act node)).2
    refine ⟨_, last _ (logged.trans (by rw [plain])), .inl ⟨front, directive, later, row, declined, deals, rfl, ?_, ?_⟩⟩
    · rw [plain, more]
      exact congrArg (· + 1) flipsBefore
    · rw [plain, moreHere]
      exact congrArg (· + 1) flippedBefore

/-- Two of three value directives are named, and the first of them brings an alias for the property: both decline, the rule for
the property itself is passed over, and of the two rules that fit the alias the first is called, which takes every name between
`--` and `-start`. -/
theorem flipDeclaration_dispatch_alias :
    let directive (name : String) (deals : Bool) (change : Options → Options) : MarkRule Nat :=
      ⟨name.toList, fun _ calls scene => (deals, calls + 1, { scene with options := change scene.options })⟩
    let rule (fits : Text → Bool) (value : String) : FlipRule Nat :=
      ⟨fits, fun key _ _ calls => (⟨key, value.toList⟩, calls + 1)⟩
    let first := directive "a" false fun options => { options with aliases := [("--x".toList, "--a-start".toList)] }
    let second := directive "b" false id
    let chosen := rule (fun name => "--".toList.isPrefixOf name && "-start".toList.isSuffixOf name) "right"
    let registry : Registry Nat := ⟨[
      { name := "one".toList, marks := [first, directive "c" true id], rules := [rule (· == "--x".toList) "none"] },
      { name := "two".toList, marks := [second], rules := [chosen, rule (fun _ => true) "none"] }]⟩
    let decl : Declaration := ⟨"--x".toList, ":".toList, "left".toList, some "left/*rtl:a*//*rtl:b*/".toList, none⟩
    let run : Run Nat :=
      { store := 0
        scene := ⟨⟨#[{ content := .root, children := [1] }, { content := .declaration decl, parent := some 0 }]⟩, {}, default,
          [], []⟩ }
    run.scene.sheet.declaration? 1 = some decl ∧ (∀ directive ∈ registry.marks, directive.KeepsDeclaration 1) ∧
    (flipDeclaration registry run 1).flips = 1 ∧
    ∃ working scene, flipDeclaration registry.logged (run.logged []) 1 = (flipDeclaration registry run 1).logged
      [.mark first 1 0 run.scene, .mark second 1 1 scene, .rule chosen "--a-start".toList working 2 scene] := by
  intro directive rule first second chosen registry decl run
  have declares : run.scene.sheet.declaration? 1 = some decl := rfl
  have keeps : ∀ directive ∈ registry.marks, directive.KeepsDeclaration 1 := by
    intro directive member
    simp only [registry, Registry.marks, List.flatMap_cons, List.flatMap_nil, List.append_nil, List.cons_append, List.nil_append,
      List.mem_cons, List.not_mem_nil, or_false] at member
    rcases member with rfl | rfl | rfl <;> exact fun _ _ declared => declared
  have named : registry.named decl = [first, second] := rfl
  obtain ⟨calls, logged, outcome⟩ := flipDeclaration_dispatch declares keeps []
  rw [List.nil_append] at logged
  rcases outcome with ⟨front, dealing, later, row, _, deals, _⟩ | ⟨_, current, found, _, outcome⟩
  · have member : dealing ∈ registry.named decl := by simp [row]
    rw [named] at member
    rcases List.mem_pair.mp member with rfl | rfl <;> cases deals
  · rw [named] at found outcome
    obtain rfl : decl = current := Option.some.inj found
    rcases outcome with ⟨unfit, _⟩ | ⟨earlier, applied, later, row, unfit, fits, rfl, flips, _⟩
    · cases unfit chosen (by simp [registry])
    · obtain rfl : chosen = applied := by
        rcases earlier with _ | ⟨own, _ | ⟨other, earlier⟩⟩
        · obtain ⟨rfl, _⟩ := List.cons.inj row
          cases fits
        · obtain ⟨_, row⟩ := List.cons.inj row
          exact (List.cons.inj row).1
        · obtain ⟨_, row⟩ := List.cons.inj row
          obtain ⟨rfl, _⟩ := List.cons.inj row
          cases unfit chosen (by simp)
      have changed : Text.restore (Text.setAside "left/*rtl:a*//*rtl:b*/".toList).2 "right".toList ≠
          "left/*rtl:a*//*rtl:b*/".toList := by
        decide +kernel
      exact ⟨declares, keeps, flips.trans (congrArg (0 + ·) (if_pos (.inr changed))), _, _, logged⟩

end Run
end
end StyleFlip
