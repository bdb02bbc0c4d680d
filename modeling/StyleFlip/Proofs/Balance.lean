import StyleFlip.Proofs.Counting
import StyleFlip.Proofs.Rewriting
import StyleFlip.Proofs.Trail
import StyleFlip.Scripted

/-!
Blocks that are opened and closed by comments of their own. For control directives that take no interest in comments, always
agree to close and leave the sheet alone (`Bracketing`), a run obeys the directive comments in document order, and what is open
at each point are the blocks that the forms so far leave open (`At`). So its warnings about blocks are those of the count of
each name, and of the directive comments those stay whose blocks were never closed. Main statement: `warnings_of_blocks`.
-/
namespace StyleFlip

namespace Sheet

def directive? (sheet : Sheet) (node : NodeId) : Option Directive.Comment := (sheet.comment? node).bind Directive.Comment.parse?

theorem directive?_of_content {sheet other : Sheet} {n : Nat} (same : other.content n = sheet.content n) :
    other.directive? n = sheet.directive? n := by
  simp only [directive?, comment?, same]

theorem kind_of_directive? {sheet : Sheet} {n : Nat} (isSome : (sheet.directive? n).isSome = true) : sheet.kind n = .comment := by
  by_contra other
  rw [directive?, comment?_eq_none other] at isSome
  cases isSome

theorem Reworded.directive? {before after : Sheet} (reworded : Reworded before after) (n : Nat) :
    after.directive? n = before.directive? n := by
  by_cases comment : before.kind n = .comment
  · exact directive?_of_content (reworded.comment n comment)
  · have other : after.kind n ≠ .comment := by rwa [reworded.similar.kind n]
    rw [Sheet.directive?, Sheet.directive?, comment?_eq_none comment, comment?_eq_none other]

theorem Stripped.directive?_eq {sheet bare : Sheet} {gone : List Nat}
    (stripped : sheet.Stripped gone (fun n => sheet.kind n = .comment) bare) (n : Nat) : bare.directive? n = sheet.directive? n := by
  by_cases comment : sheet.kind n = .comment
  · exact directive?_of_content (stripped.content n comment)
  · have other : bare.kind n ≠ .comment := by rwa [stripped.kind n]
    rw [directive?, directive?, comment?_eq_none comment, comment?_eq_none other]

/-- The shape of sheets that were read: items in document order below a root, with comments as leaves. -/
structure Rooted (sheet : Sheet) (whole : Item) : Prop where
  holds : sheet.Holds whole
  top : sheet.kind root = .root
  leaves : ∀ n : Nat, sheet.kind n = .comment → sheet.children n = []

theorem exists_rooted_of_parse {text : Text} {sheet : Sheet} (parsed : parse text = .ok sheet) : ∃ whole, sheet.Rooted whole := by
  obtain ⟨items, trailing, _, holds⟩ := exists_holds_of_parse parsed
  exact ⟨_, holds, kind_root_of_parse parsed, fun n => children_of_comment parsed⟩

end Sheet

/-- If nothing but comments is cut off, and those only once they are reached, a run visits every node in turn. -/
theorem Run.invariant_of_stripped {σ : Type} {registry : Registry σ} {sheet : Sheet} {whole : Item}
    {At : Nat → Run σ → Prop} (rooted : sheet.Rooted whole)
    (cut : ∀ k run, At k run → ∃ gone, sheet.Stripped gone (fun n => sheet.kind n = .comment) run.scene.sheet ∧
      (k ≤ sheet.size → ∀ n ∈ gone, n < k))
    (visits : ∀ k run, At k run → k < sheet.size → At (k + 1) (visit registry run k)) : Invariant registry sheet At where
  attached := by
    intro k run now inside
    obtain ⟨gone, stripped, early⟩ := cut k run now
    rw [stripped.parent, if_neg fun member => Nat.lt_irrefl k (early (Nat.le_of_lt inside) k member)]
  children := by
    intro k run now inside
    obtain ⟨gone, stripped, early⟩ := cut _ _ (visits k run now inside)
    rw [stripped.children]
    refine List.filter_eq_self.mpr fun child member => decide_eq_true fun away => ?_
    exact Nat.not_le_of_lt (rooted.holds.of_mem_children member).1 (Nat.le_of_lt_succ (early inside child away))
  top := by
    intro run now
    have inside : Sheet.root < sheet.size := Sheet.lt_size_of_getElem? rooted.holds.1.getElem?
    obtain ⟨_, stripped, _⟩ := cut _ _ (visits Sheet.root run now inside)
    refine stripped.parent_eq ?_
    rw [rooted.top]
    decide
  next := by
    intro k run now inside
    have after := visits k run now inside
    have onward : resume sheet k (visit registry run k) = k + 1 := by
      obtain ⟨_, stripped, _⟩ := cut _ _ after
      rw [resume]
      by_cases comment : sheet.kind k = .comment
      · rw [Sheet.stop_of_children_eq_nil (rooted.leaves k comment), ite_self]
      · rw [if_pos (stripped.parent_eq comment)]
    rw [onward]
    exact after

namespace Balance
variable {σ : Type}

/-! ## Directives that only open and close -/

/-- A handler that leaves the options and the sheet alone, what nodes other than comments say apart, that does not mark
directive comments as done and raises no warnings but about arguments. -/
structure Quiet (handler : Handler σ Bool) : Prop where
  sheet : ∀ store (scene : Scene), scene.sheet.Reworded (handler store scene).2.2.sheet
  options : ∀ store scene, (handler store scene).2.2.options = scene.options
  handled : ∀ store scene n, (scene.sheet.directive? n).isSome = true → n ∈ (handler store scene).2.2.handled →
    n ∈ scene.handled
  warnings : ∀ store scene, ∃ raised, (handler store scene).2.2.warnings = scene.warnings ++ raised ∧
    ∀ warning ∈ raised, warning.kind = .badArgument

/-- A control directive with blocks that take no interest in comments, that can always be closed, and whose handlers are
quiet. -/
structure Bracketing (control : Control σ) : Prop where
  ordinary : control.interest.isSelfClosing = false
  blind : control.interest.accepts .comment = false
  enter : ∀ node invocation, Quiet (control.enter node invocation)
  leave : ∀ node invocation, Quiet (control.leave node invocation)
  agrees : ∀ node invocation store scene, (control.leave node invocation store scene).1 = true

/-- All control directives of the plugins only open and close blocks, and their value directives are quiet. -/
def BracketingAll (registry : Registry σ) : Prop :=
  ∀ plugin ∈ registry.plugins, (∀ control ∈ plugin.controls, Bracketing control) ∧
    ∀ mark ∈ plugin.marks, ∀ node, Quiet (mark.act node)

theorem Quiet.of_scene_eq {handler : Handler σ Bool} (same : ∀ store scene, (handler store scene).2.2 = scene) : Quiet handler where
  sheet := fun store scene => by
    rw [same]
    exact .refl _
  options := fun store scene => by rw [same]
  handled := fun store scene n _ member => by rwa [same] at member
  warnings := fun store scene => ⟨[], by rw [same, List.append_nil], by simp⟩

/-- Scripted directives that at most warn or log are among those that only open and close blocks. -/
theorem bracketing_control (label : Text) (place : Nat × Nat) {script : Scripted.ControlScript}
    (ordinary : script.interest.isSelfClosing = false) (blind : script.interest.accepts .comment = false)
    (agrees : ∀ call, Scripted.answerAt script.leaves call = true)
    (gentle : script.effect ≠ some .remove ∧ script.effect ≠ some .markChildren) :
    Bracketing (Scripted.control label place script) where
  ordinary := ordinary
  blind := blind
  enter := by
    intro node invocation
    obtain ⟨name, interest, enters, leaves, effect⟩ := script
    cases effect with
    | none => exact .of_scene_eq fun _ _ => rfl
    | some effect =>
      cases effect with
      | warn => exact ⟨fun _ _ => .refl _, fun _ _ => rfl, fun _ _ _ _ member => member, fun _ _ => ⟨[_], rfl, by simp⟩⟩
      | remove => exact absurd rfl gentle.1
      | markChildren => exact absurd rfl gentle.2
      | flip => exact .of_scene_eq fun _ _ => rfl
  leave := fun _ _ => .of_scene_eq fun _ _ => rfl
  agrees := fun _ _ _ _ => agrees _

theorem exists_lookup_eq_found {registry : Registry σ} (brackets : BracketingAll registry) {options : Options}
    (enabled : ∀ plugin name, options.disables plugin name = false) {name : Text}
    (provided : ∃ plugin ∈ registry.plugins, ∃ control ∈ plugin.controls, control.name = name) :
    ∃ control, registry.lookup options name = .found control ∧ Bracketing control := by
  obtain ⟨plugins⟩ := registry
  change ∃ control, Registry.lookupIn options name plugins = .found control ∧ Bracketing control
  change ∀ plugin ∈ plugins, _ at brackets
  change ∃ plugin ∈ plugins, _ at provided
  induction plugins with
  | nil =>
    obtain ⟨_, member, _⟩ := provided
    cases member
  | cons plugin rest ih =>
    rw [Registry.lookupIn, if_neg (by rw [enabled]; exact Bool.false_ne_true)]
    cases found : plugin.controls.find? (·.name == name) with
    | some control =>
      exact ⟨control, rfl, (brackets plugin List.mem_cons_self).1 control (List.mem_of_find?_eq_some found)⟩
    | none =>
      refine ih (fun other member => brackets other (List.mem_cons_of_mem _ member)) ?_
      obtain ⟨other, member, control, listed, named⟩ := provided
      rcases List.mem_cons.mp member with rfl | later
      · exact absurd (by simpa using named) (List.find?_eq_none.mp found control listed)
      · exact ⟨other, later, control, listed, named⟩

/-! ## Steps without directive comments -/

/-- A step of a run that leaves open directives, options, comments and places alone and says nothing about blocks. -/
structure Mild (before after : Run σ) : Prop where
  stack : after.stack = before.stack
  options : after.scene.options = before.scene.options
  sheet : before.scene.sheet.Reworded after.scene.sheet
  handled : ∀ n, (before.scene.sheet.directive? n).isSome = true → n ∈ after.scene.handled → n ∈ before.scene.handled
  warnings : ∃ raised, after.scene.warnings = before.scene.warnings ++ raised ∧ ∀ warning ∈ raised, warning.kind = .badArgument

section
variable {registry : Registry σ} {run first second third : Run σ}

theorem Mild.refl (run : Run σ) : Mild run run := ⟨rfl, rfl, .refl _, fun _ _ member => member, [], by simp, by simp⟩

theorem Mild.trans (one : Mild first second) (two : Mild second third) : Mild first third where
  stack := two.stack.trans one.stack
  options := two.options.trans one.options
  sheet := one.sheet.trans two.sheet
  handled := fun n directive member => one.handled n directive (two.handled n (by rwa [one.sheet.directive? n]) member)
  warnings := by
    obtain ⟨raised, warned, kinds⟩ := one.warnings
    obtain ⟨others, warnedNext, kindsNext⟩ := two.warnings
    refine ⟨raised ++ others, by rw [warnedNext, warned, List.append_assoc], ?_⟩
    intro warning member
    rcases List.mem_append.mp member with early | late
    · exact kinds warning early
    · exact kindsNext warning late

theorem Mild.setSheet {sheet : Sheet} (reworded : run.scene.sheet.Reworded sheet) : Mild run (run.setSheet sheet) :=
  { Mild.refl run with sheet := reworded }

/-- The store, what is counted and which rules wait make no difference. -/
theorem Mild.recount (mild : Mild first second) (store : σ) (pending : List (Text × NodeId)) (flipped flips : Nat) :
    Mild first { second with store := store, pending := pending, flipped := flipped, flips := flips } :=
  { mild with }

theorem Quiet.mild {handler : Handler σ Bool} (quiet : Quiet handler) (run : Run σ) : Mild run (run.call handler).2 where
  stack := rfl
  options := quiet.options run.store run.scene
  sheet := quiet.sheet run.store run.scene
  handled := quiet.handled run.store run.scene
  warnings := quiet.warnings run.store run.scene

theorem mild_of_rewritten (rewritten : run.Rewritten second) : Mild run second := by
  obtain ⟨sheet, pending, flipped, flips, reworded, rfl⟩ := rewritten
  exact (Mild.setSheet reworded).recount _ _ _ _

theorem mild_obeyMarksFrom (node : NodeId) (source : Text) {marks : List (MarkRule σ)}
    (quiet : ∀ mark ∈ marks, ∀ node, Quiet (mark.act node)) (run : Run σ) : Mild run (Run.obeyMarksFrom node source marks run).2 := by
  induction marks generalizing run with
  | nil => exact .refl run
  | cons mark rest ih =>
    have others : ∀ other ∈ rest, ∀ node, Quiet (other.act node) := fun other member => quiet other (List.mem_cons_of_mem _ member)
    have acted := (quiet mark List.mem_cons_self node).mild run
    unfold Run.obeyMarksFrom
    split
    · simp only
      split
      · split
        · exact (acted.trans (.setSheet (.modifyDeclaration _ _ _))).recount _ _ _ _
        · exact acted.recount _ _ _ _
      · exact acted.trans (ih others _)
    · exact ih others run

theorem mild_flipByRule (registry : Registry σ) (run : Run σ) (node : NodeId) : Mild run (Run.flipByRule registry run node) := by
  unfold Run.flipByRule
  split
  · exact .refl run
  · simp only
    split
    · exact .refl run
    · split <;> split
      · exact (Mild.refl run).recount _ _ _ _
      · exact Mild.recount (.setSheet (.modifyDeclaration run.scene.sheet node _)) _ _ _ _
      · exact (Mild.refl run).recount _ _ _ _
      · exact Mild.recount (.setSheet (.modifyDeclaration run.scene.sheet node _)) _ _ _ _

theorem mild_flipDeclaration (brackets : BracketingAll registry) (run : Run σ) (node : NodeId) :
    Mild run (Run.flipDeclaration registry run node) := by
  have marks : Mild run (Run.obeyMarks registry run node).2 := by
    unfold Run.obeyMarks
    split
    · exact .refl run
    · simp only
      split
      · refine mild_obeyMarksFrom node _ ?_ run
        intro mark member
        obtain ⟨plugin, listed, own⟩ := List.mem_flatMap.mp member
        exact (brackets plugin listed).2 mark own
      · exact .refl run
  unfold Run.flipDeclaration
  simp only
  split
  · exact marks.trans (mild_of_rewritten (Run.rewritten_renameAround _ node))
  · exact (marks.trans (mild_flipByRule registry _ node)).trans (mild_of_rewritten (Run.rewritten_renameAround _ node))

/-! ## The gate -/

/-- An open block. -/
structure Held (entry : OpenDirective σ) : Prop where
  block : entry.invocation.closes = false
  live : ∃ control, entry.control = some control ∧ Bracketing control

theorem Held.ask {entry : OpenDirective σ} (held : Held entry) (node : NodeId) (kind : Kind) (run : Run σ) :
    Mild run (Run.ask node kind entry run).1 ∧ (Run.ask node kind entry run).2.2 = false := by
  obtain ⟨block, control, live, brackets⟩ := held
  cases accepts : control.interest.accepts kind with
  | true =>
    rw [Run.ask_of_block live accepts block]
    exact ⟨(brackets.enter node entry.invocation).mild run, rfl⟩
  | false =>
    rw [Run.ask_of_not_accepts (fun other same => by cases live.symm.trans same; exact accepts)]
    exact ⟨.refl run, rfl⟩

/-- The gate closes no block. -/
theorem mild_consult (node : NodeId) (kind : Kind) (claimed : Bool) {entries kept : List (OpenDirective σ)}
    (held : ∀ entry ∈ entries, Held entry) (row : run.stack = kept ++ entries) :
    Mild run (Run.consult node kind kept claimed entries run).2 := by
  induction entries generalizing run kept claimed with
  | nil =>
    rw [List.append_nil] at row
    exact { Mild.refl run with stack := row.symm }
  | cons entry rest ih =>
    obtain ⟨asked, stays⟩ := (held entry List.mem_cons_self).ask node kind run
    rw [Run.consult_cons]
    simp only [stays, Bool.false_eq_true, if_false]
    refine asked.trans (ih _ (fun other member => held other (List.mem_cons_of_mem _ member)) ?_)
    rw [Run.stack_ask, row, List.append_assoc, List.singleton_append]

/-- Open directives let nodes pass that they take no interest in. -/
theorem consult_of_unseen (node : NodeId) {kind : Kind} (claimed : Bool) {entries kept : List (OpenDirective σ)}
    (unseen : ∀ entry ∈ entries, ∀ control, entry.control = some control → control.interest.accepts kind = false) (run : Run σ) :
    Run.consult node kind kept claimed entries run = (claimed, { run with stack := kept ++ entries }) := by
  induction entries generalizing kept with
  | nil => rw [Run.consult, List.append_nil]
  | cons entry rest ih =>
    rw [Run.consult_cons, Run.ask_of_not_accepts (unseen entry List.mem_cons_self)]
    simp only [Bool.false_eq_true, if_false, Bool.or_false]
    rw [ih fun other member => unseen other (List.mem_cons_of_mem _ member), List.append_assoc, List.singleton_append]

/-- Blocks do not see comments. -/
theorem Held.unseen {entry : OpenDirective σ} (held : Held entry) (control : Control σ) (same : entry.control = some control) :
    control.interest.accepts .comment = false := by
  obtain ⟨_, own, live, brackets⟩ := held
  cases live.symm.trans same
  exact brackets.blind

theorem visit_of_fresh (registry : Registry σ) {node : NodeId} (fresh : node ∉ run.scene.handled) :
    Run.visit registry run node =
      let asked := Run.consult node (run.scene.sheet.kind node) [] false run.stack (run.marked node)
      if asked.1 then asked.2 else Run.transform registry asked.2 node := by
  rw [Run.visit, Run.gate_eq_consult fresh]
  generalize Run.consult node (run.scene.sheet.kind node) [] false run.stack (run.marked node) = asked
  obtain ⟨claimed, after⟩ := asked
  cases claimed <;> rfl

/-- A visit to anything but a directive comment. -/
theorem mild_visit (brackets : BracketingAll registry) (held : ∀ entry ∈ run.stack, Held entry) {node : NodeId}
    (plain : run.scene.sheet.directive? node = none) : Mild run (Run.visit registry run node) := by
  by_cases known : node ∈ run.scene.handled
  · have passed : Run.visit registry run node = run := by
      simp only [Run.visit, Run.gate, if_pos known, Bool.false_eq_true, if_false]
    rw [passed]
    exact .refl run
  · have notes : Mild run (run.marked node) := by
      refine ⟨rfl, rfl, .refl _, ?_, [], (List.append_nil _).symm, by simp⟩
      intro n directive member
      rcases List.mem_cons.mp member with rfl | old
      · rw [plain] at directive
        cases directive
      · exact old
    have asked := notes.trans (mild_consult node (run.scene.sheet.kind node) false held (List.nil_append _).symm)
    rw [visit_of_fresh registry known]
    simp only
    split
    · exact asked
    · refine asked.trans ?_
      have silent := (asked.sheet.directive? node).trans plain
      generalize (Run.consult node (run.scene.sheet.kind node) [] false run.stack (run.marked node)).2 = after at silent
      unfold Run.transform
      split
      · rw [Sheet.directive?] at silent
        simp only [Run.obeyComment, silent]
        exact .refl _
      · exact (Mild.refl _).recount _ _ _ _
      · exact mild_of_rewritten (Run.rewritten_flipParams _ node)
      · exact mild_flipDeclaration brackets _ node
      · exact .refl _

/-- A directive comment gets past open blocks. -/
theorem visit_of_directive (held : ∀ entry ∈ run.stack, Held entry) {node : NodeId} (fresh : node ∉ run.scene.handled)
    (isSome : (run.scene.sheet.directive? node).isSome = true) :
    Run.visit registry run node = Run.obeyComment registry (run.marked node) node := by
  have comment := Sheet.kind_of_directive? isSome
  rw [visit_of_fresh registry fresh, comment, consult_of_unseen node false fun entry member => (held entry member).unseen]
  simp only [Bool.false_eq_true, if_false, List.nil_append]
  have same : (run.marked node).scene.sheet.kind node = .comment := comment
  change Run.transform registry (run.marked node) node = _
  rw [Run.transform, same]

end

/-! ## Rows of open directives -/

section
variable {β : Type} {view : OpenDirective σ → β} {label : Placed → β} {stack : List (OpenDirective σ)} {forms : List Placed}

/-- If the open directives are those of some forms and none of a name is open, none of the forms has the name. -/
theorem forall_ne_of_row (row : stack.map view = forms.map label)
    (names : ∀ entry form, view entry = label form → entry.invocation.name = form.2.name) {name : Text}
    (none : Run.lastNamed? name stack = none) : ∀ form ∈ forms, form.2.name ≠ name := by
  intro form member
  have listed : label form ∈ stack.map view := by
    rw [row]
    exact List.mem_map_of_mem member
  obtain ⟨entry, isOpen, same⟩ := List.mem_map.mp listed
  rw [← names entry form same]
  exact Run.forall_ne_of_lastNamed?_eq_none none entry isOpen

/-- If the open directives are those of some forms, the innermost of a name is that of the last form with the name. -/
theorem exists_found_of_row (row : stack.map view = forms.map label)
    (names : ∀ entry form, view entry = label form → entry.invocation.name = form.2.name) {name : Text}
    {before later : List (OpenDirective σ)} {entry : OpenDirective σ}
    (innermost : Run.lastNamed? name stack = some (before, entry, later)) :
    ∃ front found behind, forms = front ++ found :: behind ∧ view entry = label found ∧ found.2.name = name ∧
      (∀ other ∈ behind, other.2.name ≠ name) ∧ (before ++ later).map view = (front ++ behind).map label := by
  obtain ⟨whole, named⟩ := Run.mem_of_lastNamed? innermost
  rw [whole, List.map_append, List.map_cons] at row
  obtain ⟨front, rest, split, early, others⟩ := List.map_eq_append_iff.mp row.symm
  obtain ⟨found, behind, rfl, own, late⟩ := List.map_eq_cons_iff.mp others
  refine ⟨front, found, behind, split, own.symm, ?_, ?_, ?_⟩
  · rw [← names entry found own.symm, named]
  · intro other member
    have listed : label other ∈ later.map view := by
      rw [← late]
      exact List.mem_map_of_mem member
    obtain ⟨inner, isLater, same⟩ := List.mem_map.mp listed
    rw [← names inner other same]
    exact Run.forall_ne_of_lastNamed? innermost inner isLater
  · rw [List.map_append, List.map_append, early, late]

end

/-! ## Comments with one form -/

/-- The forms of the directive comment at a node, with their place. -/
def placedAt (sheet : Sheet) (node : NodeId) : List Placed := (Standard.formsAt sheet node).map (node, ·)

/-- The forms of the directive comments before a number. -/
def placedBefore (sheet : Sheet) (k : Nat) : List Placed := (List.range k).flatMap (placedAt sheet)

/-- The forms of the directive comments of a sheet in document order. -/
def placed (sheet : Sheet) : List Placed := (sheet.preorder Sheet.root).flatMap (placedAt sheet)

/-- Some plugin has a control directive of the name. -/
def Provides (registry : Registry σ) (name : Text) : Prop :=
  ∃ plugin ∈ registry.plugins, ∃ control ∈ plugin.controls, control.name = name

instance (registry : Registry σ) (name : Text) : Decidable (Provides registry name) :=
  inferInstanceAs (Decidable (∃ plugin ∈ registry.plugins, ∃ control ∈ plugin.controls, control.name = name))

/-- No directive comment is to be kept, and each has one form, which either opens or closes a block of a name that is
provided. -/
def SingleForms (registry : Registry σ) (sheet : Sheet) : Prop :=
  ∀ node < sheet.size, ∀ comment ∈ sheet.directive? node, comment.preserve = false ∧ comment.forms.length = 1 ∧
    ∀ form ∈ comment.forms, form.opens = !form.closes ∧ Provides registry form.name

instance (registry : Registry σ) (sheet : Sheet) : Decidable (SingleForms registry sheet) :=
  inferInstanceAs (Decidable (∀ node < sheet.size, ∀ comment ∈ sheet.directive? node, comment.preserve = false ∧
    comment.forms.length = 1 ∧ ∀ form ∈ comment.forms, form.opens = !form.closes ∧ Provides registry form.name))

/-- What is said of a form that closes where nothing is open. -/
def strayWarning (form : Placed) : Warning :=
  { kind := .strayEnd, node := form.1
    message := "found end \"".toList ++ form.2.name ++ "\" without a matching begin.".toList }

/-- What is said of a form that opens a block that is never closed. -/
def openWarning (form : Placed) : Warning :=
  { kind := .stillOpen, node := form.1, message := "unclosed directive \"".toList ++ form.2.name ++ "\".".toList }

section
variable {registry : Registry σ} {sheet : Sheet} {options : Options} {k : Nat} {run : Run σ}

theorem SingleForms.exists_form (single : SingleForms registry sheet) (inside : k < sheet.size)
    (isSome : (sheet.directive? k).isSome = true) :
    ∃ form, sheet.directive? k = some ⟨false, [form]⟩ ∧ form.opens = !form.closes ∧ Provides registry form.name := by
  obtain ⟨⟨preserve, forms⟩, read⟩ := Option.isSome_iff_exists.mp isSome
  obtain ⟨bare, one, each⟩ := single k inside _ read
  obtain ⟨form, rfl⟩ := List.length_eq_one_iff.mp one
  obtain rfl : preserve = false := bare
  exact ⟨form, read, each form List.mem_cons_self⟩

theorem placedAt_of_plain (plain : sheet.directive? k = none) : placedAt sheet k = [] := by
  rw [placedAt, Standard.formsAt, ← Sheet.directive?, plain]
  rfl

theorem placedAt_of_form {preserve : Bool} {form : Directive.Form} (read : sheet.directive? k = some ⟨preserve, [form]⟩) :
    placedAt sheet k = [(k, form)] := by
  rw [placedAt, Standard.formsAt, ← Sheet.directive?, read]
  rfl

theorem placedBefore_succ (sheet : Sheet) (k : Nat) : placedBefore sheet (k + 1) = placedBefore sheet k ++ placedAt sheet k := by
  simp [placedBefore, List.range_succ]

theorem placedBefore_of_form {preserve : Bool} {form : Directive.Form} (read : sheet.directive? k = some ⟨preserve, [form]⟩) :
    placedBefore sheet (k + 1) = placedBefore sheet k ++ [(k, form)] := by
  rw [placedBefore_succ, placedAt_of_form read]

/-- The forms stand for the directive comments. -/
theorem sources_placedBefore (single : SingleForms registry sheet) (inside : k ≤ sheet.size) :
    (placedBefore sheet k).map Prod.fst = (List.range k).filter fun n => (sheet.directive? n).isSome := by
  induction k with
  | zero => rfl
  | succ k ih =>
    rw [placedBefore_succ, List.map_append, ih (Nat.le_of_succ_le inside), List.range_succ, List.filter_append]
    congr 1
    cases isSome : (sheet.directive? k).isSome with
    | true =>
      obtain ⟨form, read, _⟩ := single.exists_form inside isSome
      rw [placedAt_of_form read]
      simp [isSome]
    | false =>
      rw [placedAt_of_plain (Option.isSome_eq_false_iff.mp isSome |> Option.isNone_iff_eq_none.mp)]
      simp [isSome]

theorem lt_of_mem_sources (single : SingleForms registry sheet) (inside : k ≤ sheet.size) {n : Nat}
    (member : n ∈ (placedBefore sheet k).map Prod.fst) : n < k := by
  rw [sources_placedBefore single inside, List.mem_filter, List.mem_range] at member
  exact member.1

theorem nodup_sources (single : SingleForms registry sheet) (inside : k ≤ sheet.size) :
    ((placedBefore sheet k).map Prod.fst).Nodup := by
  rw [sources_placedBefore single inside]
  exact List.nodup_range.filter _

/-! ## What holds between two visits -/

/-- A sheet without the comments of the given forms, but for those whose blocks are still open. -/
def Cut (sheet : Sheet) (forms : List Placed) (bare : Sheet) : Prop :=
  ∃ gone, sheet.Stripped gone (fun n => sheet.kind n = .comment) bare ∧
    ∀ n, n ∈ gone ↔ n ∈ forms.map Prod.fst ∧ n ∉ (unclosed forms).map Prod.fst

/-- A run that has obeyed the directive comments before number `k` and is about to visit `k`. -/
structure At (sheet : Sheet) (options : Options) (k : Nat) (run : Run σ) : Prop where
  inForce : run.scene.options = options
  cut : Cut sheet (placedBefore sheet k) run.scene.sheet
  ahead : ∀ n, k ≤ n → (sheet.directive? n).isSome = true → n ∉ run.scene.handled
  stack : run.stack.map (·.invocation) = (unclosed (placedBefore sheet k)).map fun form => Run.invocationOf form.1 false form.2
  held : ∀ entry ∈ run.stack, Held entry
  strayEnds : run.scene.warnings.filter (·.kind == .strayEnd) = (strays (placedBefore sheet k)).map strayWarning
  stillOpen : run.scene.warnings.filter (·.kind == .stillOpen) = []

theorem Cut.directive?_eq {forms : List Placed} {bare : Sheet} (cut : Cut sheet forms bare) (n : Nat) :
    bare.directive? n = sheet.directive? n := by
  obtain ⟨_, stripped, _⟩ := cut
  exact stripped.directive?_eq n

theorem Cut.reworded {forms : List Placed} {bare other : Sheet} (cut : Cut sheet forms bare) (reworded : bare.Reworded other) :
    Cut sheet forms other := by
  obtain ⟨gone, stripped, listed⟩ := cut
  refine ⟨gone, stripped.similar (.refl _) reworded.similar fun n comment => ?_, listed⟩
  rw [reworded.comment n ((stripped.kind n).trans comment), stripped.content n comment]

theorem filter_warnings_of_mild {before after : Run σ} (mild : Mild before after) {kind : WarningKind} (other : kind ≠ .badArgument) :
    after.scene.warnings.filter (·.kind == kind) = before.scene.warnings.filter (·.kind == kind) := by
  obtain ⟨raised, warned, kinds⟩ := mild.warnings
  have none : raised.filter (·.kind == kind) = [] := by
    refine List.filter_eq_nil_iff.mpr fun warning member => ?_
    rw [kinds warning member, beq_iff_eq]
    exact Ne.symm other
  rw [warned, List.filter_append, none, List.append_nil]

/-- Where there is no directive comment, a visit changes nothing that matters. -/
theorem At.of_mild (now : At sheet options k run) (plain : sheet.directive? k = none) {after : Run σ} (mild : Mild run after) :
    At sheet options (k + 1) after := by
  have same : placedBefore sheet (k + 1) = placedBefore sheet k := by
    rw [placedBefore_succ, placedAt_of_plain plain, List.append_nil]
  constructor
  · exact mild.options.trans now.inForce
  · rw [same]
    exact now.cut.reworded mild.sheet
  · intro n later isSome member
    exact now.ahead n (Nat.le_of_succ_le later) isSome (mild.handled n (by rwa [now.cut.directive?_eq]) member)
  · rw [same, mild.stack]
    exact now.stack
  · rw [mild.stack]
    exact now.held
  · rw [same, filter_warnings_of_mild mild (by decide)]
    exact now.strayEnds
  · rw [filter_warnings_of_mild mild (by decide)]
    exact now.stillOpen

/-! ## A directive comment -/

theorem sources_stack (now : At sheet options k run) :
    run.stack.map (·.invocation.source) = (unclosed (placedBefore sheet k)).map Prod.fst := by
  have sources := congrArg (List.map Invocation.source) now.stack
  rwa [List.map_map, List.map_map] at sources

theorem stripSource_of_closed {source : NodeId} (closed : source ∉ run.stack.map (·.invocation.source)) :
    run.stripSource source false = run.setSheet (run.scene.sheet.remove source) := by
  have none : run.stack.any (·.invocation.source == source) = false := by
    rw [List.any_eq_false]
    intro entry member same
    exact closed (List.mem_map.mpr ⟨entry, member, by simpa using same⟩)
  rw [Run.stripSource, none]
  rfl

/-- A directive comment is obeyed and then stripped, unless its block is open. -/
theorem visit_of_form (now : At sheet options k run) (clean : options.clean = true) {form : Directive.Form}
    (read : sheet.directive? k = some ⟨false, [form]⟩) {outcome : Run.Outcome} {after : Run σ}
    (obeyed : Run.obey registry (run.marked k) (Run.invocationOf k false form) = (outcome, after)) (known : outcome ≠ .unknown) :
    Run.visit registry run k = after.stripSource k false := by
  have here : (run.marked k).scene.sheet.directive? k = some ⟨false, [form]⟩ := (now.cut.directive?_eq k).trans read
  have isSome : (run.scene.sheet.directive? k).isSome = true := Option.isSome_of_mem here
  have fresh := now.ahead k (Nat.le_refl k) (Option.isSome_of_mem read)
  have cleaning : (run.marked k).scene.options.clean = true := (congrArg Options.clean now.inForce).trans clean
  rw [Sheet.directive?] at here
  rw [Run.invocationOf] at obeyed
  rw [visit_of_directive now.held fresh isSome, Run.obeyComment, here]
  simp only [cleaning, Bool.not_true, Bool.or_false, Run.obeyForms, obeyed]
  cases outcome with
  | taken => rfl
  | unknown => exact absurd rfl known
  | final => rfl

theorem mem_of_concat {forms : List Placed} {form : Placed} {n : Nat} :
    n ∈ (forms ++ [form]).map Prod.fst ↔ n ∈ forms.map Prod.fst ∨ n = form.1 := by
  simp [or_comm]

theorem At.ahead_marked (now : At sheet options k run) :
    ∀ n, k + 1 ≤ n → (sheet.directive? n).isSome = true → n ∉ (run.marked k).scene.handled := by
  intro n later isSome member
  rcases List.mem_cons.mp member with rfl | old
  · exact Nat.not_succ_le_self _ later
  · exact now.ahead n (Nat.le_of_succ_le later) isSome old

/-- The comments of open blocks are behind the run. -/
theorem lt_of_mem_unclosed (single : SingleForms registry sheet) (inside : k < sheet.size) {n : Nat}
    (isOpen : n ∈ (unclosed (placedBefore sheet k)).map Prod.fst) : n < k :=
  lt_of_mem_sources single (Nat.le_of_lt inside) (((unclosed_sublist _).map _).subset isOpen)

/-- A comment that opens a block stays where it is. -/
theorem At.opens (single : SingleForms registry sheet) (inside : k < sheet.size) (now : At sheet options k run) {form : Directive.Form}
    (read : sheet.directive? k = some ⟨false, [form]⟩) (opens : form.opens = true) (closes : form.closes = false)
    {control : Control σ} (brackets : Bracketing control) :
    At sheet options (k + 1)
      { run.marked k with stack := run.stack ++ [⟨Run.invocationOf k false form, some control⟩] } := by
  have forms := placedBefore_of_form read
  have row : unclosed (placedBefore sheet (k + 1)) = unclosed (placedBefore sheet k) ++ [(k, form)] := by
    rw [forms, unclosed_concat_opens opens]
  constructor
  · exact now.inForce
  · obtain ⟨gone, stripped, listed⟩ := now.cut
    refine ⟨gone, stripped, fun n => ?_⟩
    have early : n ∈ (placedBefore sheet k).map Prod.fst → n < k := lt_of_mem_sources single (Nat.le_of_lt inside)
    rw [listed, row, forms, mem_of_concat, mem_of_concat]
    constructor
    · rintro ⟨old, closed⟩
      exact ⟨.inl old, not_or.mpr ⟨closed, Nat.ne_of_lt (early old)⟩⟩
    · rintro ⟨old | rfl, closed⟩
      · exact ⟨old, fun isOpen => closed (.inl isOpen)⟩
      · exact absurd (.inr rfl) closed
  · exact now.ahead_marked
  · rw [row, List.map_append, List.map_append, now.stack]
    rfl
  · intro entry member
    rcases List.mem_append.mp member with old | new
    · exact now.held entry old
    · obtain rfl := List.mem_singleton.mp new
      exact ⟨closes, control, rfl, brackets⟩
  · have stays : strays (placedBefore sheet (k + 1)) = strays (placedBefore sheet k) := by
      rw [forms, strays_concat, if_neg (by rw [opens]; exact fun both => Bool.noConfusion both.1), List.append_nil]
    rw [stays]
    exact now.strayEnds
  · exact now.stillOpen

/-- No block of a name is open if the run has none open. -/
theorem At.openBlocks_eq_zero (now : At sheet options k run) {name : Text} (none : Run.lastNamed? name run.stack = none) :
    openBlocks name (placedBefore sheet k) = 0 :=
  openBlocks_eq_zero_iff.mpr (forall_ne_of_row now.stack (fun _ _ same => congrArg Invocation.name same) none)

/-- A comment whose form closes no block is warned about and goes. -/
theorem At.stray (single : SingleForms registry sheet) (inside : k < sheet.size) (now : At sheet options k run) {form : Directive.Form}
    (read : sheet.directive? k = some ⟨false, [form]⟩) (closes : form.opens = false)
    (none : Run.lastNamed? form.name run.stack = none) :
    At sheet options (k + 1) (((run.marked k).obeyEnd (Run.invocationOf k false form)).stripSource k false) := by
  have stray := now.openBlocks_eq_zero none
  have warned : (run.marked k).obeyEnd (Run.invocationOf k false form) =
      (run.marked k).warn .strayEnd k (strayWarning (k, form)).message := by
    rw [Run.obeyEnd, show Run.lastNamed? (Run.invocationOf k false form).name (run.marked k).stack = .none from none]
    rfl
  have fresh : k ∉ ((run.marked k).warn .strayEnd k (strayWarning (k, form)).message).stack.map (·.invocation.source) := by
    change k ∉ run.stack.map (·.invocation.source)
    rw [sources_stack now]
    exact fun isOpen => Nat.lt_irrefl k (lt_of_mem_unclosed single inside isOpen)
  rw [warned, stripSource_of_closed fresh]
  have forms := placedBefore_of_form read
  have row : unclosed (placedBefore sheet (k + 1)) = unclosed (placedBefore sheet k) := by
    rw [forms, unclosed_concat_stray closes stray]
  have comment : sheet.kind k = .comment := Sheet.kind_of_directive? (Option.isSome_of_mem read)
  constructor
  · exact now.inForce
  · obtain ⟨gone, stripped, listed⟩ := now.cut
    refine ⟨k :: gone, stripped.strip comment, fun n => ?_⟩
    rw [List.mem_cons, listed, row, forms, mem_of_concat]
    constructor
    · rintro (rfl | ⟨old, closed⟩)
      · exact ⟨.inr rfl, fun isOpen => Nat.lt_irrefl _ (lt_of_mem_unclosed single inside isOpen)⟩
      · exact ⟨.inl old, closed⟩
    · rintro ⟨old | rfl, closed⟩
      · exact .inr ⟨old, closed⟩
      · exact .inl rfl
  · exact now.ahead_marked
  · rw [row]
    exact now.stack
  · exact now.held
  · have more : strays (placedBefore sheet (k + 1)) = strays (placedBefore sheet k) ++ [(k, form)] := by
      rw [forms, strays_concat, if_pos ⟨closes, stray⟩]
    rw [more, List.map_append, ← now.strayEnds]
    exact List.filter_append ..
  · refine (List.filter_append ..).trans ?_
    rw [show (run.marked k).scene.warnings.filter (·.kind == .stillOpen) = [] from now.stillOpen]
    rfl

/-- The comment of an open block belongs to no other open block. -/
theorem once_of_row (single : SingleForms registry sheet) (inside : k < sheet.size) {front behind : List Placed} {found : Placed}
    (row : unclosed (placedBefore sheet k) = front ++ found :: behind) :
    found.1 ∈ (placedBefore sheet k).map Prod.fst ∧ found.1 ∉ (front ++ behind).map Prod.fst ∧
      k ∉ (front ++ behind).map Prod.fst := by
  have listed := (unclosed_sublist (placedBefore sheet k)).map Prod.fst
  have distinct := (nodup_sources single (Nat.le_of_lt inside)).sublist listed
  rw [row, List.map_append, List.map_cons, List.nodup_middle, ← List.map_append] at distinct
  refine ⟨listed.subset (by rw [row]; simp), (List.nodup_cons.mp distinct).1, ?_⟩
  intro member
  refine Nat.lt_irrefl k (lt_of_mem_unclosed single inside ?_)
  rw [row]
  exact ((List.Sublist.refl front).append (List.sublist_cons_self found behind)).map _ |>.subset member

/-- When a block is closed, the comments of both of its forms go. -/
theorem Cut.closes (single : SingleForms registry sheet) (inside : k < sheet.size) {bare : Sheet}
    (cut : Cut sheet (placedBefore sheet k) bare) {front behind : List Placed} {found : Placed} {form : Directive.Form}
    (read : sheet.directive? k = some ⟨false, [form]⟩) (row : unclosed (placedBefore sheet k) = front ++ found :: behind)
    (shrinks : unclosed (placedBefore sheet (k + 1)) = front ++ behind) :
    Cut sheet (placedBefore sheet (k + 1)) ((bare.remove found.1).remove k) := by
  obtain ⟨listed, once, ahead⟩ := once_of_row single inside row
  obtain ⟨gone, stripped, cut⟩ := cut
  have comment : sheet.kind found.1 = .comment := by
    rw [sources_placedBefore single (Nat.le_of_lt inside), List.mem_filter] at listed
    exact Sheet.kind_of_directive? listed.2
  have isComment : sheet.kind k = .comment := Sheet.kind_of_directive? (Option.isSome_of_mem read)
  refine ⟨k :: found.1 :: gone, (stripped.strip comment).strip isComment, fun n => ?_⟩
  have middle : n ∈ (unclosed (placedBefore sheet k)).map Prod.fst ↔ n = found.1 ∨ n ∈ (front ++ behind).map Prod.fst := by
    rw [row]
    simp [or_left_comm]
  rw [List.mem_cons, List.mem_cons, cut, middle, shrinks, placedBefore_of_form read, mem_of_concat]
  constructor
  · rintro (rfl | rfl | ⟨old, closed⟩)
    · exact ⟨.inr rfl, ahead⟩
    · exact ⟨.inl listed, once⟩
    · exact ⟨.inl old, fun isOpen => closed (.inr isOpen)⟩
  · rintro ⟨old | rfl, closed⟩
    · by_cases same : n = found.1
      · exact .inr (.inl same)
      · exact .inr (.inr ⟨old, not_or.mpr ⟨same, closed⟩⟩)
    · exact .inl rfl

/-- A form that closes a block takes the comment of the block with it. -/
theorem At.closes (single : SingleForms registry sheet) (inside : k < sheet.size) (now : At sheet options k run)
    {form : Directive.Form} (read : sheet.directive? k = some ⟨false, [form]⟩) (closes : form.opens = false)
    {before later : List (OpenDirective σ)} {entry : OpenDirective σ}
    (innermost : Run.lastNamed? form.name run.stack = some (before, entry, later)) {left : Run σ} (mild : Mild (run.marked k) left) :
    At sheet options (k + 1) ((left.endDirective entry (before ++ later)).stripSource k false) := by
  obtain ⟨front, found, behind, row, own, named, others, rest⟩ :=
    exists_found_of_row now.stack (fun _ _ same => congrArg Invocation.name same) innermost
  obtain ⟨_, once, ahead⟩ := once_of_row single inside row
  have forms := placedBefore_of_form read
  have shrinks : unclosed (placedBefore sheet (k + 1)) = front ++ behind := by
    rw [forms, unclosed_concat_closes closes row named others]
  have sources : (before ++ later).map (·.invocation.source) = (front ++ behind).map Prod.fst := by
    have each := congrArg (List.map Invocation.source) rest
    rwa [List.map_map, List.map_map] at each
  rw [← sources] at once ahead
  have ends : left.endDirective entry (before ++ later) =
      { left with stack := before ++ later }.setSheet (left.scene.sheet.remove found.1) := by
    rw [Run.endDirective, own]
    exact stripSource_of_closed once
  have strips : (left.endDirective entry (before ++ later)).stripSource k false =
      { left with stack := before ++ later }.setSheet ((left.scene.sheet.remove found.1).remove k) := by
    rw [ends]
    exact stripSource_of_closed ahead
  rw [strips]
  constructor
  · exact mild.options.trans now.inForce
  · exact (now.cut.reworded mild.sheet).closes single inside read row shrinks
  · intro n further isSome member
    have directive : ((run.marked k).scene.sheet.directive? n).isSome = true := by
      rw [← now.cut.directive?_eq n] at isSome
      exact isSome
    exact now.ahead_marked n further isSome (mild.handled n directive member)
  · rw [shrinks]
    exact rest
  · intro other member
    refine now.held other ?_
    rw [(Run.mem_of_lastNamed? innermost).1]
    exact ((List.Sublist.refl before).append (List.sublist_cons_self entry later)).subset member
  · have counted : openBlocks form.name (placedBefore sheet k) ≠ 0 := fun none =>
      openBlocks_eq_zero_iff.mp none found (by rw [row]; simp) named
    have stays : strays (placedBefore sheet (k + 1)) = strays (placedBefore sheet k) := by
      rw [forms, strays_concat, if_neg fun both => counted both.2, List.append_nil]
    rw [stays, ← now.strayEnds]
    exact filter_warnings_of_mild mild (by decide)
  · exact (filter_warnings_of_mild mild (by decide)).trans now.stillOpen

/-- One visit. -/
theorem At.visit (brackets : BracketingAll registry) (enabled : ∀ plugin name, options.disables plugin name = false)
    (clean : options.clean = true) (single : SingleForms registry sheet) (now : At sheet options k run) (inside : k < sheet.size) :
    At sheet options (k + 1) (Run.visit registry run k) := by
  cases isSome : (sheet.directive? k).isSome with
  | false =>
    have plain : sheet.directive? k = none := by simpa using isSome
    exact now.of_mild plain (mild_visit brackets now.held ((now.cut.directive?_eq k).trans plain))
  | true =>
    obtain ⟨form, read, shape, provided⟩ := single.exists_form inside isSome
    obtain ⟨control, found, bracketing⟩ := exists_lookup_eq_found brackets enabled provided
    have reads : registry.lookup (run.marked k).scene.options (Run.invocationOf k false form).name = .found control := by
      rw [← found, ← now.inForce]
      rfl
    cases opens : form.opens with
    | true =>
      rw [visit_of_form now clean read (Run.obey_of_opens reads bracketing.ordinary opens) (by decide)]
      have stays : ∀ after : Run σ, after.stack = run.stack ++ [⟨Run.invocationOf k false form, some control⟩] →
          after.stripSource k false = after := by
        intro after row
        rw [Run.stripSource, if_pos (by simp [row, Run.invocationOf])]
      rw [stays _ rfl]
      exact now.opens single inside read opens (by simpa [opens] using shape) bracketing
    | false =>
      have obeyed : Run.obey registry (run.marked k) (Run.invocationOf k false form) =
          (.final, (run.marked k).obeyEnd (Run.invocationOf k false form)) := by
        simp only [Run.obey, reads, show (Run.invocationOf k false form).opens = false from opens, Bool.false_eq_true, if_false]
      rw [visit_of_form now clean read obeyed (by decide)]
      cases innermost : Run.lastNamed? form.name run.stack with
      | none => exact now.stray single inside read opens innermost
      | some triple =>
        obtain ⟨before, entry, later⟩ := triple
        obtain ⟨_, own, live, agreeing⟩ := now.held entry (by rw [(Run.mem_of_lastNamed? innermost).1]; simp)
        have left : (run.marked k).obeyEnd (Run.invocationOf k false form) =
            ((run.marked k).call (own.leave k (Run.invocationOf k false form))).2.endDirective entry (before ++ later) := by
          have agrees : ((run.marked k).call (own.leave k (Run.invocationOf k false form))).1 = true := agreeing.agrees _ _ _ _
          simp only [Run.obeyEnd,
            show Run.lastNamed? (Run.invocationOf k false form).name (run.marked k).stack = some (before, entry, later) from innermost,
            live, show (Run.invocationOf k false form).source = k from rfl, agrees, if_true]
        rw [left]
        exact now.closes single inside read opens innermost ((agreeing.leave _ _).mild _)

/-! ## The whole run -/

theorem invariant_at {whole : Item} (rooted : sheet.Rooted whole) (brackets : BracketingAll registry)
    (enabled : ∀ plugin name, options.disables plugin name = false) (clean : options.clean = true)
    (single : SingleForms registry sheet) : Run.Invariant registry sheet (At sheet options) := by
  refine Run.invariant_of_stripped rooted (fun k run now => ?_) fun k run now inside =>
    now.visit brackets enabled clean single inside
  obtain ⟨gone, stripped, cut⟩ := now.cut
  exact ⟨gone, stripped, fun inside n member => lt_of_mem_sources single inside ((cut n).mp member).1⟩

theorem At.warningsOf_strayEnd (now : At sheet options k run) :
    run.report.warningsOf .strayEnd = (strays (placedBefore sheet k)).map strayWarning := by
  simp [Report.warningsOf, Run.report, List.filter_append, now.strayEnds, List.filter_map, Function.comp_def]

theorem At.warningsOf_stillOpen (now : At sheet options k run) :
    run.report.warningsOf .stillOpen = (unclosed (placedBefore sheet k)).map openWarning := by
  -- The report says of each open directive what the forms say of it.
  have same := congrArg (List.map fun invocation : Invocation => (⟨.stillOpen, invocation.source,
    "unclosed directive \"".toList ++ invocation.name ++ "\".".toList⟩ : Warning)) now.stack
  rw [List.map_map, List.map_map] at same
  refine Eq.trans ?_ same
  simp [Report.warningsOf, Run.report, List.filter_append, now.stillOpen, List.filter_map, Function.comp_def]

/-- The comments of open blocks stand where they stood, and those of the other forms are cut off. -/
theorem Cut.attached_iff {text : Text} (parsed : Sheet.parse text = .ok sheet) (single : SingleForms registry sheet) {bare : Sheet}
    (cut : Cut sheet (placedBefore sheet sheet.size) bare) {n : Nat} (inside : n < sheet.size)
    (isSome : (sheet.directive? n).isSome = true) :
    bare.parent n ≠ none ↔ n ∈ (unclosed (placedBefore sheet sheet.size)).map Prod.fst := by
  obtain ⟨gone, stripped, cut⟩ := cut
  have listed : n ∈ (placedBefore sheet sheet.size).map Prod.fst := by
    rw [sources_placedBefore single (Nat.le_refl _), List.mem_filter, List.mem_range]
    exact ⟨inside, isSome⟩
  have attached := Sheet.parent_of_comment parsed inside (Sheet.kind_of_directive? isSome)
  rw [stripped.parent]
  by_cases isOpen : n ∈ (unclosed (placedBefore sheet sheet.size)).map Prod.fst
  · rw [if_neg fun member => ((cut n).mp member).2 isOpen]
    exact iff_of_true attached isOpen
  · rw [if_pos ((cut n).mpr ⟨listed, isOpen⟩)]
    exact iff_of_false (not_not.mpr rfl) isOpen

/-- The forms are balanced: each name's forms close what they open and nothing else. -/
def Balanced (forms : List Placed) : Prop := strays forms = [] ∧ ∀ name, openBlocks name forms = 0

theorem Balanced.unclosed_eq_nil {forms : List Placed} (balanced : Balanced forms) : unclosed forms = [] := by
  refine List.eq_nil_iff_forall_not_mem.mpr fun form member => ?_
  exact openBlocks_eq_zero_iff.mp (balanced.2 form.2.name) form member rfl

end

section
variable {engine : Engine σ} {sheet : Sheet}

/-- What holds when an engine has been through a sheet. -/
theorem at_traverse {text : Text} (parsed : Sheet.parse text = .ok sheet) (brackets : BracketingAll engine.registry)
    (enabled : ∀ plugin name, engine.options.disables plugin name = false) (clean : engine.options.clean = true)
    (before : ∀ store, (engine.hooks.before sheet store).1 = sheet) (single : SingleForms engine.registry sheet) :
    At sheet engine.options sheet.size (Run.traverse engine.registry (engine.start sheet)) := by
  obtain ⟨whole, rooted⟩ := Sheet.exists_rooted_of_parse parsed
  have holds := rooted.holds
  refine (invariant_at rooted brackets enabled clean single).traverse holds ?_
  constructor
  · rfl
  · refine ⟨[], ?_, fun n => ?_⟩
    · rw [show (engine.start sheet).scene.sheet = sheet from before _]
      exact .refl holds
    · simp [placedBefore, Sheet.root]
  · intro n _ _ member
    cases member
  · rfl
  · intro entry member
    cases member
  · rfl
  · rfl

/-- With control directives that only open and close blocks, what a run says about blocks is what counting the open blocks of
each name over its directive comments gives: a form that closes where none of its name is open is a stray one, and a form whose
block is not closed is warned about at the end, in the order of opening. The names do not touch each other, and of the directive
comments those of unclosed blocks stay in their places. -/
theorem warnings_of_blocks {text : Text} (parsed : Sheet.parse text = .ok sheet) (brackets : BracketingAll engine.registry)
    (enabled : ∀ plugin name, engine.options.disables plugin name = false) (clean : engine.options.clean = true)
    (before : ∀ store, (engine.hooks.before sheet store).1 = sheet)
    (after : ∀ sheet store, (engine.hooks.after sheet store).1 = sheet) (single : SingleForms engine.registry sheet) :
    let forms := placed sheet
    let flipped := (engine.flip sheet).1
    let report := (engine.flip sheet).2.1
    let stack := (Run.traverse engine.registry (engine.start sheet)).stack
    report.warningsOf .strayEnd = (strays forms).map strayWarning ∧
    report.warningsOf .stillOpen = (unclosed forms).map openWarning ∧
    stack.map (·.invocation) = (unclosed forms).map (fun form => Run.invocationOf form.1 false form.2) ∧
    (∀ name, (strays forms).filter (isNamed name) = strays (forms.filter (isNamed name)) ∧
      (unclosed forms).filter (isNamed name) = unclosed (forms.filter (isNamed name)) ∧
      ((unclosed forms).filter (isNamed name)).length = openBlocks name (forms.filter (isNamed name))) ∧
    Cut sheet forms flipped ∧
    (∀ n < sheet.size, (sheet.directive? n).isSome = true →
      (flipped.parent n ≠ none ↔ n ∈ (unclosed forms).map Prod.fst)) ∧
    (Balanced forms → report.warningsOf .strayEnd = [] ∧ report.warningsOf .stillOpen = [] ∧ stack = []) := by
  intro forms flipped report stack
  have done := at_traverse parsed brackets enabled clean before single
  obtain ⟨items, trailing, _, holds⟩ := Sheet.exists_holds_of_parse parsed
  have whole : placedBefore sheet sheet.size = forms := by
    rw [placedBefore, ← holds.preorder_root]
    rfl
  have strayEnds : report.warningsOf .strayEnd = (strays forms).map strayWarning := by
    rw [← whole]
    exact done.warningsOf_strayEnd
  have stillOpen : report.warningsOf .stillOpen = (unclosed forms).map openWarning := by
    rw [← whole]
    exact done.warningsOf_stillOpen
  have row : stack.map (·.invocation) = (unclosed forms).map fun form => Run.invocationOf form.1 false form.2 := by
    rw [← whole]
    exact done.stack
  have cut : Cut sheet (placedBefore sheet sheet.size) flipped := by
    rw [show flipped = (Run.traverse engine.registry (engine.start sheet)).scene.sheet from after _ _]
    exact done.cut
  refine ⟨strayEnds, stillOpen, row, fun name => ?_, whole ▸ cut, fun n inside isSome => ?_, fun balanced => ?_⟩
  · exact ⟨strays_filter name forms, unclosed_filter name forms,
      (length_filter_unclosed name forms).trans (openBlocks_filter name forms).symm⟩
  · rw [← whole]
    exact cut.attached_iff parsed single inside isSome
  · rw [strayEnds, stillOpen, balanced.1, balanced.unclosed_eq_nil]
    rw [balanced.unclosed_eq_nil] at row
    exact ⟨rfl, rfl, List.map_eq_nil_iff.mp row⟩

/-- Blocks of two names that overlap: one form finds nothing to close, and one block of each name is left open. -/
theorem warnings_of_blocks_overlapping :
    let script (name : Text) : Scripted.ControlScript := ⟨name, .kinds [.rule], [true], [true], some .warn⟩
    let parts : List Scripted.Part := [.scripted ⟨"t".toList, [script "x".toList, script "y".toList], [], []⟩]
    ∃ engine sheet, Scripted.engine {} parts true = .ok engine ∧
      Sheet.parse ("/*rtl:begin:x*//*rtl:begin:y*/.a\x7b/*rtl:end:x*/\x7d/*rtl:end:x*//*rtl:begin:x*/".toList) = .ok sheet ∧
      BracketingAll engine.registry ∧ SingleForms engine.registry sheet ∧
      (engine.flip sheet).2.1.warningsOf .strayEnd =
        [⟨.strayEnd, 5, "found end \"x\" without a matching begin.".toList⟩] ∧
      (engine.flip sheet).2.1.warningsOf .stillOpen =
        [⟨.stillOpen, 2, "unclosed directive \"y\".".toList⟩, ⟨.stillOpen, 6, "unclosed directive \"x\".".toList⟩] ∧
      (engine.flip sheet).1.parent 2 ≠ none ∧ (engine.flip sheet).1.parent 1 = none := by
  intro script parts
  let engine : Engine Scripted.Stage :=
    { registry := ⟨[{ name := "t".toList
                      controls := [Scripted.control "t.0".toList (0, 0) (script "x".toList),
                        Scripted.control "t.1".toList (0, 1) (script "y".toList)] }]⟩
      options := {}, hooks := Scripted.hooks, store := {} }
  have built : Scripted.engine {} parts true = .ok engine := by cbv
  obtain ⟨sheet, parsed, test⟩ := Sheet.exists_of_readable
    (by decide +kernel : (Sheet.parse
        ("/*rtl:begin:x*//*rtl:begin:y*/.a\x7b/*rtl:end:x*/\x7d/*rtl:end:x*//*rtl:begin:x*/".toList)).toOption.any (fun sheet =>
      decide (SingleForms engine.registry sheet) && sheet.size == 7 &&
        (sheet.directive? 1).isSome && (sheet.directive? 2).isSome &&
        (strays (placed sheet)).map strayWarning == [⟨.strayEnd, 5, "found end \"x\" without a matching begin.".toList⟩] &&
        (unclosed (placed sheet)).map openWarning ==
          [⟨.stillOpen, 2, "unclosed directive \"y\".".toList⟩, ⟨.stillOpen, 6, "unclosed directive \"x\".".toList⟩] &&
        (unclosed (placed sheet)).map Prod.fst == [2, 6]) = true)
  simp only [Bool.and_eq_true, decide_eq_true_eq, beq_iff_eq] at test
  obtain ⟨⟨⟨⟨⟨⟨single, size⟩, first⟩, second⟩, strayEnds⟩, stillOpen⟩, sources⟩ := test
  have agrees : ∀ call, Scripted.answerAt [true] call = true := fun call => by simp [Scripted.answerAt]
  have brackets : BracketingAll engine.registry := by
    intro plugin member
    obtain rfl := List.mem_singleton.mp member
    refine ⟨?_, fun _ none => by cases none⟩
    intro control listed
    rcases List.mem_cons.mp listed with rfl | listed
    · exact bracketing_control _ _ rfl rfl agrees ⟨by simp [script], by simp [script]⟩
    · obtain rfl := List.mem_singleton.mp listed
      exact bracketing_control _ _ rfl rfl agrees ⟨by simp [script], by simp [script]⟩
  obtain ⟨warned, left, _, _, _, attached, _⟩ := @warnings_of_blocks _ engine sheet _ parsed brackets (fun _ _ => rfl) rfl
    (fun _ => rfl) (fun _ _ => rfl) single
  rw [strayEnds] at warned
  rw [stillOpen] at left
  rw [sources] at attached
  refine ⟨engine, sheet, built, parsed, brackets, single, warned, left, ?_, ?_⟩
  · exact (attached 2 (by omega) second).mpr (by simp)
  · by_contra stays
    exact absurd ((attached 1 (by omega) first).mp stays) (by simp)

/-- A directive that changes neither sheet nor options but marks the children of a rule as done, the comment that closes its
block among them: the forms are balanced, and the block stays open. -/
theorem stays_open_behind_marked_comment :
    let script : Scripted.ControlScript := ⟨"x".toList, .kinds [.rule], [true], [true], some .markChildren⟩
    ∃ engine sheet, Scripted.engine {} [.scripted ⟨"t".toList, [script], [], []⟩] false = .ok engine ∧
      Sheet.parse "/*rtl:begin:x*/.a\x7b/*rtl:end:x*/\x7d".toList = .ok sheet ∧
      (∀ plugin ∈ engine.registry.plugins, ∀ control ∈ plugin.controls,
        control.interest.isSelfClosing = false ∧ control.interest.accepts .comment = false ∧
        ∀ node invocation stage scene, (control.leave node invocation stage scene).1 = true ∧
          (control.leave node invocation stage scene).2.2 = scene ∧
          (control.enter node invocation stage scene).2.2.sheet = scene.sheet ∧
          (control.enter node invocation stage scene).2.2.options = scene.options ∧
          (control.enter node invocation stage scene).2.2.warnings = scene.warnings) ∧
      SingleForms engine.registry sheet ∧ strays (placed sheet) = [] ∧ unclosed (placed sheet) = [] ∧
      (engine.flip sheet).2.1.warningsOf .stillOpen = [⟨.stillOpen, 1, "unclosed directive \"x\".".toList⟩] ∧
      (engine.flip sheet).1.toText = "/*rtl:begin:x*/.a\x7b/*rtl:end:x*/\x7d".toList := by
  intro script
  let engine : Engine Scripted.Stage :=
    { registry := ⟨[{ name := "t".toList, controls := [Scripted.control "t.0".toList (0, 0) script] }]⟩
      options := {}, store := {} }
  have built : Scripted.engine {} [.scripted ⟨"t".toList, [script], [], []⟩] false = .ok engine := by cbv
  obtain ⟨sheet, parsed, test⟩ := Sheet.exists_of_readable
    (by decide +kernel : (Sheet.parse "/*rtl:begin:x*/.a\x7b/*rtl:end:x*/\x7d".toList).toOption.any (fun sheet =>
      decide (SingleForms engine.registry sheet) && strays (placed sheet) == [] && unclosed (placed sheet) == [] &&
        (engine.flip sheet).2.1.warningsOf .stillOpen == [⟨.stillOpen, 1, "unclosed directive \"x\".".toList⟩] &&
        (engine.flip sheet).1.toText == "/*rtl:begin:x*/.a\x7b/*rtl:end:x*/\x7d".toList) = true)
  simp only [Bool.and_eq_true, decide_eq_true_eq, beq_iff_eq] at test
  obtain ⟨⟨⟨⟨single, noStrays⟩, noOpen⟩, warned⟩, text⟩ := test
  refine ⟨engine, sheet, built, parsed, ?_, single, noStrays, noOpen, warned, text⟩
  intro plugin member control listed
  obtain rfl := List.mem_singleton.mp member
  obtain rfl := List.mem_singleton.mp listed
  refine ⟨rfl, rfl, fun node invocation stage scene => ⟨?_, rfl, ?_⟩⟩
  · simp [Scripted.control, Scripted.answerAt, script]
  · obtain ⟨handled, same, _⟩ := Scene.foldl_markHandled_eq scene (scene.sheet.children node)
    have marked : ((Scripted.control "t.0".toList (0, 0) script).enter node invocation stage scene).2.2 =
        { scene with handled } := same
    rw [marked]
    exact ⟨rfl, rfl, rfl⟩

end
end Balance
end StyleFlip
