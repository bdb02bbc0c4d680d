import StyleFlip.Proofs.Balance
import StyleFlip.Proofs.StrictRename
import StyleFlip.Proofs.Twins

/-!
A plugin that is switched off. If the options switch off all control directives of the standard plugin, what a run says of its
directive comments can be read off their forms (`Told`), and a form does no more than to be told and to cut off comments
(`Shed`). So the run visits every node in turn, whatever the control directives would do (`traverse_wired`), and it does to the
nodes other than comments what it does to them in the sheet without the texts of its comments (`Parallel`). Main statement:
`inert_of_disabled`.
-/
namespace StyleFlip

/-! ## Comments without texts -/

def Content.emptied : Content → Content
  | .comment _ => .comment []
  | other => other

theorem Content.kind_emptied (content : Content) : content.emptied.kind = content.kind := by cases content <;> rfl

theorem Content.emptied_of_kind_ne {content : Content} (other : content.kind ≠ .comment) : content.emptied = content := by
  cases content with
  | comment text => exact absurd rfl other
  | _ => rfl

namespace Item

mutual
/-- The item with the content of every node changed. -/
def mapContent (change : Content → Content) : Item → Item
  | .node content spacing children => .node (change content) spacing (mapContents change children)

/-- The items with the content of every node changed. -/
def mapContents (change : Content → Content) : List Item → List Item
  | [] => []
  | item :: rest => item.mapContent change :: mapContents change rest
end

mutual
theorem count_mapContent (change : Content → Content) : ∀ item : Item, (item.mapContent change).count = item.count
  | .node content spacing children => by rw [mapContent, count, count, countAll_mapContents change children]

theorem countAll_mapContents (change : Content → Content) :
    ∀ items : List Item, countAll (mapContents change items) = countAll items
  | [] => rfl
  | item :: rest => by rw [mapContents, countAll, countAll, count_mapContent change item, countAll_mapContents change rest]
end

theorem places_mapContents (change : Content → Content) (start : Nat) (items : List Item) :
    places start (mapContents change items) = places start items := by
  induction items generalizing start with
  | nil => rfl
  | cons item rest ih => rw [mapContents, places, places, count_mapContent, ih]

end Item

namespace Sheet
open Item

theorem getElem?_mapContent (sheet : Sheet) (change : Content → Content) (n : Nat) :
    (sheet.mapContent change).nodes[n]? = (sheet.nodes[n]?).map fun node => { node with content := change node.content } := by
  rw [mapContent, Array.getElem?_map]

mutual
theorem Stores.mapContent {sheet : Sheet} (change : Content → Content) {parent : Option NodeId} {id : Nat} :
    ∀ {item : Item}, sheet.Stores parent id item → (sheet.mapContent change).Stores parent id (item.mapContent change)
  | .node content spacing children, stored => by
    refine ⟨?_, StoresAll.mapContents change stored.2⟩
    rw [getElem?_mapContent, stored.1, places_mapContents]
    rfl

theorem StoresAll.mapContents {sheet : Sheet} (change : Content → Content) {parent start : Nat} :
    ∀ {items : List Item}, sheet.StoresAll parent start items →
      (sheet.mapContent change).StoresAll parent start (mapContents change items)
  | [], _ => trivial
  | item :: rest, stored => by
    refine ⟨Stores.mapContent change stored.1, ?_⟩
    rw [count_mapContent]
    exact StoresAll.mapContents change stored.2
end

theorem Holds.mapContent {sheet : Sheet} {whole : Item} (holds : sheet.Holds whole) (change : Content → Content) :
    (sheet.mapContent change).Holds (whole.mapContent change) := by
  refine ⟨holds.1.mapContent change, ?_⟩
  rw [count_mapContent, ← holds.2]
  simp [size, Sheet.mapContent]

def emptied (sheet : Sheet) : Sheet := sheet.mapContent Content.emptied

theorem node_emptied (sheet : Sheet) (n : Nat) :
    sheet.emptied.node n = { sheet.node n with content := (sheet.content n).emptied } := by
  simp only [content, node, emptied, getElem?_mapContent]
  cases sheet.nodes[n]? <;> rfl

theorem kind_emptied (sheet : Sheet) (n : Nat) : sheet.emptied.kind n = sheet.kind n := by
  rw [kind, content, node_emptied]
  exact Content.kind_emptied _

theorem directive?_emptied (sheet : Sheet) (n : Nat) : sheet.emptied.directive? n = none := by
  rw [directive?, comment?, content, node_emptied]
  cases sheet.content n <;> rfl

theorem Rooted.emptied {sheet : Sheet} {whole : Item} (rooted : sheet.Rooted whole) :
    sheet.emptied.Rooted (whole.mapContent Content.emptied) where
  holds := rooted.holds.mapContent Content.emptied
  top := (sheet.kind_emptied root).trans rooted.top
  leaves := fun n comment => by
    rw [children, node_emptied]
    exact rooted.leaves n ((sheet.kind_emptied n).symm.trans comment)

theorem size_emptied (sheet : Sheet) : sheet.emptied.size = sheet.size := by simp [size, emptied, mapContent]

/-- A sheet differs from the one without the texts by what its comments say. -/
theorem stripped_emptied {sheet : Sheet} {whole : Item} (holds : sheet.Holds whole) :
    sheet.emptied.Stripped [] (fun n => sheet.kind n ≠ .comment) sheet where
  size := sheet.size_emptied.symm
  comments := fun _ member => by cases member
  kind := fun n => (sheet.kind_emptied n).symm
  content := fun n other => by
    rw [content, content, node_emptied, Content.emptied_of_kind_ne other]
    rfl
  spacing := fun n => by rw [node_emptied]
  parent := fun n => by simp [parent, node_emptied]
  children := fun n => by simp [children, node_emptied]
  attached := fun n child member => by
    rw [children, node_emptied] at member
    rw [parent, node_emptied]
    exact (holds.of_mem_children member).2.2

/-- Several comments more may be cut off. -/
theorem Stripped.stripAll {gone : List Nat} {agree : Nat → Prop} {full bare : Sheet} (stripped : Stripped gone agree full bare)
    {more : List Nat} (comments : ∀ n ∈ more, full.kind n = .comment) :
    ∃ all, Stripped all agree full (more.foldl Sheet.remove bare) ∧ ∀ n ∈ all, n ∈ gone ∨ n ∈ more := by
  induction more generalizing gone bare with
  | nil => exact ⟨gone, stripped, fun _ member => .inl member⟩
  | cons first rest ih =>
    obtain ⟨isComment, others⟩ := List.forall_mem_cons.mp comments
    obtain ⟨all, cut, sources⟩ := ih (stripped.strip isComment) others
    refine ⟨all, cut, fun n member => ?_⟩
    rcases sources n member with old | new
    · rcases List.mem_cons.mp old with rfl | old
      · exact .inr List.mem_cons_self
      · exact .inl old
    · exact .inr (List.mem_cons_of_mem _ new)

end Sheet

namespace Standard
open Balance
open Run (invocationOf)

/-! ## Forms of directives that are switched off -/

/-- The plugins of the standard engine with other control directives. -/
def wired (controls : List (Control State)) : Registry State := ⟨[{ plugin (.whole State) with controls := controls }]⟩

/-- The options switch off all of the control directives. -/
def Off (options : Options) (controls : List (Control State)) : Prop :=
  ∀ control ∈ controls, options.disables pluginName control.name = true

instance (options : Options) (controls : List (Control State)) : Decidable (Off options controls) :=
  inferInstanceAs (Decidable (∀ control ∈ controls, options.disables pluginName control.name = true))

/-- What is said of a form that opens a directive that is switched off. -/
def disabledWarning (form : Placed) : Warning :=
  { kind := .disabled, node := form.1
    message := "directive \"".toList ++ pluginName ++ '.' :: (form.2.name ++ "\" is blacklisted.".toList) }

/-- What is said of a form of a directive that nothing knows. -/
def unknownWarning (form : Placed) : Warning :=
  { kind := .unknown, node := form.1, message := "unsupported directive \"".toList ++ form.2.name ++ "\".".toList }

/-- What is said of a form if the plugin is switched off. -/
def remark? (options : Options) (form : Placed) : Option Warning :=
  if options.disables pluginName form.2.name then if form.2.opens then some (disabledWarning form) else none
  else some (unknownWarning form)

/-- The forms that open or close a block of a directive that is switched off. -/
def switchedBlocks (options : Options) (forms : List Placed) : List Placed :=
  forms.filter fun form => options.disables pluginName form.2.name && form.2.opens != form.2.closes

section
variable {options : Options} {controls : List (Control State)} {forms : List Placed} {run : Run State}

/-- No handler is found for a form. -/
theorem obey_of_off (off : Off options controls) (inForce : run.scene.options = options) (form : Invocation) :
    Run.obey (wired controls) run form =
      if options.disables pluginName form.name then (.taken, run.passOver pluginName { form with disabled := true })
      else (.unknown, run.warn .unknown form.source ("unsupported directive \"".toList ++ form.name ++ "\".".toList)) := by
  have found : (wired controls).lookup options form.name =
      if options.disables pluginName form.name then .disabled pluginName else .missing := by
    change Registry.lookupIn options form.name [{ plugin (.whole State) with controls := controls }] = _
    rw [Registry.lookupIn, show (plugin (.whole State)).name = pluginName from rfl]
    split
    · rfl
    · rename_i enabled
      have none : controls.find? (·.name == form.name) = none := by
        rw [List.find?_eq_none]
        intro control member same
        exact enabled (eq_of_beq same ▸ off control member)
      rw [none]
      rfl
  rw [Run.obey, inForce, found]
  cases options.disables pluginName form.name <;> rfl

/-- A run under options that switch the plugin off, after some forms: all of them were told, and of the blocks that are switched
off markers stand in the row of open directives. -/
structure Told (options : Options) (forms : List Placed) (run : Run State) : Prop where
  inForce : run.scene.options = options
  markers : ∀ entry ∈ run.stack, entry.control = none
  row : run.stack.map (fun entry => (entry.invocation.source, entry.invocation.name)) =
    (unclosed (switchedBlocks options forms)).map fun form => (form.1, form.2.name)
  warnings : run.scene.warnings = forms.filterMap (remark? options)

theorem switchedBlocks_concat (options : Options) (forms : List Placed) (form : Placed) :
    switchedBlocks options (forms ++ [form]) = switchedBlocks options forms ++
      if (options.disables pluginName form.2.name && form.2.opens != form.2.closes) = true then [form] else [] := by
  rw [switchedBlocks, List.filter_append, ← switchedBlocks, List.filter_singleton, Bool.cond_eq_ite]

theorem switchedBlocks_concat_block {form : Placed} (disabled : options.disables pluginName form.2.name = true)
    (half : form.2.opens = !form.2.closes) : switchedBlocks options (forms ++ [form]) = switchedBlocks options forms ++ [form] := by
  rw [switchedBlocks_concat, disabled, half]
  cases form.2.closes <;> rfl

/-- A form that neither opens nor closes a block that is switched off leaves the row alone. -/
theorem Told.of_row (told : Told options forms run) {form : Placed} {after : Run State} (same : after.stack = run.stack)
    (inForce : after.scene.options = run.scene.options)
    (other : (options.disables pluginName form.2.name && form.2.opens != form.2.closes) = false)
    (warnings : after.scene.warnings = run.scene.warnings ++ (remark? options form).toList) :
    Told options (forms ++ [form]) after where
  inForce := inForce.trans told.inForce
  markers := by
    rw [same]
    exact told.markers
  row := by
    rw [same, switchedBlocks_concat, other, if_neg Bool.false_ne_true, List.append_nil]
    exact told.row
  warnings := by
    rw [warnings, told.warnings, List.filterMap_append]
    cases said : remark? options form <;> simp [said]

/-- The names of the markers are those of the forms. -/
theorem name_eq_of_pair {entry : OpenDirective State} {form : Placed}
    (same : (entry.invocation.source, entry.invocation.name) = (form.1, form.2.name)) : entry.invocation.name = form.2.name :=
  congrArg Prod.snd same

/-- A form that closes takes the innermost marker of its name away. -/
theorem Told.closes (told : Told options forms run) {form : Placed} (disabled : options.disables pluginName form.2.name = true)
    (ends : form.2.opens = false) (closes : form.2.closes = true) {before later : List (OpenDirective State)}
    {entry : OpenDirective State} (innermost : Run.lastNamed? form.2.name run.stack = some (before, entry, later)) :
    Told options (forms ++ [form]) (run.endDirective entry (before ++ later)) := by
  obtain ⟨front, found, behind, split, _, named, others, rest⟩ :=
    exists_found_of_row told.row (fun _ _ => name_eq_of_pair) innermost
  have blocks := @switchedBlocks_concat_block options forms form disabled (by rw [ends, closes]; rfl)
  have silent : remark? options form = none := by simp [remark?, disabled, ends]
  have sheets : ∀ source preserve, ∃ sheet, { run with stack := before ++ later }.stripSource source preserve =
      { run with stack := before ++ later }.setSheet sheet := by
    intro source preserve
    unfold Run.stripSource
    split
    · exact ⟨run.scene.sheet, rfl⟩
    · exact ⟨_, rfl⟩
  obtain ⟨sheet, stripped⟩ := sheets entry.invocation.source entry.invocation.preserve
  rw [Run.endDirective, stripped]
  refine ⟨told.inForce, fun other member => ?_, ?_, ?_⟩
  · refine told.markers other ?_
    rw [(Run.mem_of_lastNamed? innermost).1]
    exact ((List.Sublist.refl before).append (List.sublist_cons_self entry later)).subset member
  · rw [blocks, unclosed_concat_closes ends split named others]
    exact rest
  · rw [List.filterMap_append, List.filterMap_cons, silent, List.filterMap_nil, List.append_nil]
    exact told.warnings

/-- A form is told, and what it opens or closes is noted by a marker. -/
theorem Told.passOver (told : Told options forms run) (source : NodeId) (preserve : Bool) {form : Directive.Form}
    (disabled : options.disables pluginName form.name = true) :
    Told options (forms ++ [(source, form)])
      (run.passOver pluginName { invocationOf source preserve form with disabled := true }) := by
  cases opens : form.opens with
  | true =>
    have said : remark? options (source, form) = some (disabledWarning (source, form)) := by simp [remark?, disabled, opens]
    cases closes : form.closes with
    | true =>
      simp only [Run.passOver, invocationOf, opens, closes, if_true]
      exact told.of_row rfl rfl (by simp [opens, closes]) (by rw [said]; rfl)
    | false =>
      simp only [Run.passOver, invocationOf, opens, closes, if_true]
      have blocks := @switchedBlocks_concat_block options forms (source, form) disabled (by rw [opens, closes]; rfl)
      refine ⟨told.inForce, ?_, ?_, ?_⟩
      · intro entry member
        rcases List.mem_append.mp member with old | new
        · exact told.markers entry old
        · rw [List.mem_singleton.mp new]
      · rw [blocks, unclosed_concat_opens opens, List.map_append, List.map_append, ← told.row]
        rfl
      · rw [List.filterMap_append, List.filterMap_cons, said, ← told.warnings]
        rfl
  | false =>
    have silent : remark? options (source, form) = none := by simp [remark?, disabled, opens]
    cases closes : form.closes with
    | true =>
      simp only [Run.passOver, invocationOf, opens, closes, Bool.false_eq_true, if_false]
      split
      · rename_i before entry later innermost
        exact told.closes disabled opens closes innermost
      · rename_i none
        have stray : openBlocks form.name (switchedBlocks options forms) = 0 :=
          openBlocks_eq_zero_iff.mpr (forall_ne_of_row told.row (fun _ _ => name_eq_of_pair) none)
        have blocks := @switchedBlocks_concat_block options forms (source, form) disabled (by rw [opens, closes]; rfl)
        refine ⟨told.inForce, told.markers, ?_, ?_⟩
        · rw [blocks, unclosed_concat_stray opens stray]
          exact told.row
        · rw [List.filterMap_append, List.filterMap_cons, silent, List.filterMap_nil, List.append_nil]
          exact told.warnings
    | false =>
      simp only [Run.passOver, invocationOf, opens, closes, Bool.false_eq_true, if_false]
      exact told.of_row rfl rfl (by simp [opens, closes]) (by rw [silent]; exact (List.append_nil _).symm)

theorem Told.obey (told : Told options forms run) (off : Off options controls) (source : NodeId) (preserve : Bool)
    (form : Directive.Form) :
    Told options (forms ++ [(source, form)]) (Run.obey (wired controls) run (invocationOf source preserve form)).2 := by
  rw [obey_of_off off told.inForce, show (invocationOf source preserve form).name = form.name from rfl]
  cases disabled : options.disables pluginName form.name with
  | true => exact told.passOver source preserve disabled
  | false => exact told.of_row rfl rfl (by simp [disabled]) (by simp [remark?, disabled]; rfl)

/-! ## What forms leave alone -/

/-- Nodes of the given sort are cut off, and otherwise only what is open and what was said has changed. -/
def Shed (sort : Nat → Prop) (before after : Run State) : Prop :=
  ∃ (gone : List Nat) (stack : List (OpenDirective State)) (warnings : List Warning), (∀ n ∈ gone, sort n) ∧
    after = { before with stack := stack, scene := { before.scene with
      sheet := gone.foldl Sheet.remove before.scene.sheet, warnings := warnings } }

theorem Shed.refl (sort : Nat → Prop) (run : Run State) : Shed sort run run :=
  ⟨[], run.stack, run.scene.warnings, by simp, rfl⟩

theorem Shed.trans {sort : Nat → Prop} {first second third : Run State} (one : Shed sort first second)
    (two : Shed sort second third) : Shed sort first third := by
  obtain ⟨gone, _, _, early, rfl⟩ := one
  obtain ⟨more, stack, warnings, late, rfl⟩ := two
  refine ⟨gone ++ more, stack, warnings, fun n member => ?_, by simp only [List.foldl_append]⟩
  exact (List.mem_append.mp member).elim (early n) (late n)

theorem Shed.stripSource {sort : Nat → Prop} (run : Run State) {source : NodeId} (own : sort source) (preserve : Bool) :
    Shed sort run (run.stripSource source preserve) := by
  unfold Run.stripSource
  split
  · exact .refl sort run
  · exact ⟨[source], run.stack, run.scene.warnings, by simpa using own, rfl⟩

theorem Shed.restack {sort : Nat → Prop} (run : Run State) (stack : List (OpenDirective State)) :
    Shed sort run { run with stack := stack } :=
  ⟨[], stack, run.scene.warnings, by simp, rfl⟩

theorem Shed.warn {sort : Nat → Prop} (run : Run State) (kind : WarningKind) (node : NodeId) (message : Text) :
    Shed sort run (run.warn kind node message) :=
  ⟨[], run.stack, _, by simp, rfl⟩

theorem shed_passOver {sort : Nat → Prop} (sources : ∀ entry ∈ run.stack, sort entry.invocation.source) (name : Text)
    (form : Invocation) : Shed sort run (run.passOver name form) := by
  have closes : ∀ {before later entry}, Run.lastNamed? form.name run.stack = some (before, entry, later) →
      Shed sort run (run.endDirective entry (before ++ later)) := by
    intro before later entry innermost
    refine (Shed.restack run (before ++ later)).trans (.stripSource _ (sources entry ?_) _)
    rw [(Run.mem_of_lastNamed? innermost).1]
    simp
  unfold Run.passOver
  cases form.opens with
  | true =>
    cases form.closes with
    | true => exact .warn run _ _ _
    | false => exact (Shed.warn run _ _ _).trans (.restack _ _)
  | false =>
    cases form.closes with
    | true =>
      simp only [Bool.false_eq_true, if_false]
      split
      · rename_i innermost
        exact closes innermost
      · exact .refl sort run
    | false => exact .refl sort run

/-- The comments of markers are those of the forms before them. -/
theorem Told.sources (told : Told options forms run) {sort : Nat → Prop} (sorted : ∀ form ∈ forms, sort form.1) :
    ∀ entry ∈ run.stack, sort entry.invocation.source := by
  intro entry member
  have listed : (entry.invocation.source, entry.invocation.name) ∈
      (unclosed (switchedBlocks options forms)).map fun form => (form.1, form.2.name) := by
    rw [← told.row]
    exact List.mem_map_of_mem member
  obtain ⟨form, isOpen, same⟩ := List.mem_map.mp listed
  have source : form.1 = entry.invocation.source := congrArg Prod.fst same
  rw [← source]
  exact sorted form (List.mem_of_mem_filter ((unclosed_sublist _).subset isOpen))

/-- No form ends its comment early, so all forms of a comment are told. -/
theorem Told.obeyForms (told : Told options forms run) (off : Off options controls) {sort : Nat → Prop}
    (sorted : ∀ form ∈ forms, sort form.1) {source : NodeId} (own : sort source) (preserve consumed : Bool)
    (row : List Directive.Form) :
    Told options (forms ++ row.map (source, ·)) (Run.obeyForms (wired controls) source preserve consumed row run).2 ∧
      Shed sort run (Run.obeyForms (wired controls) source preserve consumed row run).2 := by
  induction row generalizing forms run consumed with
  | nil =>
    rw [List.map_nil, List.append_nil]
    exact ⟨told, .refl sort run⟩
  | cons form rest ih =>
    have next := told.obey off source preserve form
    have shed : Shed sort run (Run.obey (wired controls) run (invocationOf source preserve form)).2 := by
      rw [obey_of_off off told.inForce]
      split
      · exact shed_passOver (told.sources sorted) _ _
      · exact .warn run _ _ _
    have onward : (Run.obey (wired controls) run (invocationOf source preserve form)).1 ≠ .final := by
      rw [obey_of_off off told.inForce]
      split <;> simp
    have sources : ∀ other ∈ forms ++ [(source, form)], sort other.1 := by
      intro other member
      rcases List.mem_append.mp member with old | new
      · exact sorted other old
      · rw [List.mem_singleton.mp new]
        exact own
    rw [Run.obeyForms, ← invocationOf, List.map_cons, List.append_cons]
    generalize Run.obey (wired controls) run (invocationOf source preserve form) = obeyed at next shed onward
    obtain ⟨outcome, after⟩ := obeyed
    cases outcome with
    | taken => exact (ih next sources true).imp_right shed.trans
    | unknown => exact (ih next sources consumed).imp_right shed.trans
    | final => exact absurd rfl onward

/-- A comment tells of its forms, and cuts off comments at most. -/
theorem Told.obeyComment (told : Told options forms run) (off : Off options controls) (sort : Nat → Prop)
    (sorted : ∀ form ∈ forms, sort form.1) {node : NodeId} (own : sort node) :
    Told options (forms ++ placedAt run.scene.sheet node) (Run.obeyComment (wired controls) run node) ∧
      Shed sort run (Run.obeyComment (wired controls) run node) := by
  unfold Run.obeyComment placedAt formsAt
  cases (run.scene.sheet.comment? node).bind Directive.Comment.parse? with
  | none =>
    simp only [Option.map_none, Option.getD_none, List.map_nil, List.append_nil]
    exact ⟨told, .refl sort run⟩
  | some comment =>
    obtain ⟨obeyed, shed⟩ := told.obeyForms off sorted own (comment.preserve || !run.scene.options.clean) false comment.forms
    simp only [Option.map_some, Option.getD_some]
    split
    · refine ⟨?_, shed.trans (.stripSource _ own _)⟩
      unfold Run.stripSource
      split
      · exact obeyed
      · exact ⟨obeyed.inForce, obeyed.markers, obeyed.row, obeyed.warnings⟩
    · exact ⟨obeyed, shed⟩

end

/-! ## Visits -/

/-- A run under options that switch the plugin off, about to visit number `k`. -/
structure Idle (sheet : Sheet) (options : Options) (k : Nat) (run : Run State) : Prop where
  told : Told options (placedBefore sheet k) run
  cut : ∃ gone, sheet.Stripped gone (fun n => sheet.kind n = .comment) run.scene.sheet ∧ ∀ n ∈ gone, n < k
  ahead : ∀ n, k ≤ n → n ∉ run.scene.handled

section
variable {options : Options} {controls : List (Control State)} {sheet : Sheet} {whole : Item} {k : Nat}
  {forms : List Placed} {run : Run State}

/-- Markers claim no node. -/
theorem Idle.visit_eq (idle : Idle sheet options k run) (registry : Registry State) :
    Run.visit registry run k = Run.transform registry (run.marked k) k := by
  have unseen : ∀ entry ∈ run.stack, ∀ control, entry.control = some control →
      control.interest.accepts (run.scene.sheet.kind k) = false := by
    intro entry member control live
    rw [idle.told.markers entry member] at live
    cases live
  rw [visit_of_fresh registry (idle.ahead k (Nat.le_refl k)), consult_of_unseen k false unseen]
  rfl

theorem Idle.told_marked (idle : Idle sheet options k run) : Told options (placedBefore sheet k) (run.marked k) :=
  ⟨idle.told.inForce, idle.told.markers, idle.told.row, idle.told.warnings⟩

theorem lt_of_mem_placedBefore {form : Placed} (member : form ∈ placedBefore sheet k) :
    form.1 < k ∧ sheet.kind form.1 = .comment := by
  obtain ⟨n, early, listed⟩ := List.mem_flatMap.mp member
  obtain ⟨own, read, rfl⟩ := List.mem_map.mp listed
  refine ⟨List.mem_range.mp early, ?_⟩
  by_contra other
  rw [formsAt, Sheet.comment?_eq_none other] at read
  cases read

/-- Which control directives there are makes no difference to nodes other than comments. -/
theorem transform_wired (options : Options) {node : NodeId} (other : run.scene.sheet.kind node ≠ .comment) :
    Run.transform (wired controls) run node = Run.transform (engine options).registry run node := by
  unfold Run.transform
  split
  · rename_i comment
    exact absurd comment other
  · rfl
  · rfl
  · rfl
  · rfl

/-- One visit. -/
theorem Idle.visit (idle : Idle sheet options k run) (off : Off options controls) :
    Idle sheet options (k + 1) (Run.visit (wired controls) run k) := by
  obtain ⟨gone, stripped, early⟩ := idle.cut
  have ahead : ∀ n, k + 1 ≤ n → n ∉ (run.marked k).scene.handled := by
    intro n later member
    rcases List.mem_cons.mp member with rfl | old
    · exact Nat.not_succ_le_self _ later
    · exact idle.ahead n (Nat.le_of_succ_le later) old
  have forms : placedAt (run.marked k).scene.sheet k = placedAt sheet k := by
    rw [placedAt, placedAt, formsAt, formsAt, ← Sheet.directive?, ← Sheet.directive?]
    rw [show (run.marked k).scene.sheet.directive? k = sheet.directive? k from stripped.directive?_eq k]
  rw [idle.visit_eq]
  by_cases comment : sheet.kind k = .comment
  · have here : (run.marked k).scene.sheet.kind k = .comment := (stripped.kind k).trans comment
    have sorted : ∀ form ∈ placedBefore sheet k, form.1 < k + 1 ∧ sheet.kind form.1 = .comment := fun form member =>
      (lt_of_mem_placedBefore member).imp_left Nat.lt_succ_of_lt
    obtain ⟨obeyed, shed⟩ := idle.told_marked.obeyComment off (fun n => n < k + 1 ∧ sheet.kind n = .comment) sorted
      ⟨Nat.lt_succ_self k, comment⟩
    rw [Run.transform, here]
    simp only
    rw [forms, ← placedBefore_succ] at obeyed
    refine ⟨obeyed, ?_, ?_⟩
    · obtain ⟨more, _, _, cut, outcome⟩ := shed
      obtain ⟨all, stripped, sources⟩ := stripped.stripAll fun n member => (cut n member).2
      rw [outcome]
      refine ⟨all, stripped, fun n member => ?_⟩
      exact (sources n member).elim (fun old => Nat.lt_succ_of_lt (early n old)) fun new => (cut n new).1
    · obtain ⟨_, _, _, _, outcome⟩ := shed
      rw [outcome]
      exact ahead
  · have here : (run.marked k).scene.sheet.kind k ≠ .comment := fun same => comment ((stripped.kind k).symm.trans same)
    have silent : placedAt sheet k = [] := by
      rw [placedAt, formsAt, Sheet.comment?_eq_none comment]
      rfl
    rw [transform_wired options here]
    obtain ⟨after, _, _, _, reworded, outcome⟩ := rewritten_transform options here
    rw [outcome]
    refine ⟨?_, ⟨gone, ?_, fun n member => Nat.lt_succ_of_lt (early n member)⟩, ahead⟩
    · rw [placedBefore_succ, silent, List.append_nil]
      exact ⟨idle.told.inForce, idle.told.markers, idle.told.row, idle.told.warnings⟩
    · refine stripped.similar (.refl _) reworded.similar fun n isComment => ?_
      rw [← stripped.content n isComment]
      exact reworded.comment n ((stripped.kind n).trans isComment)

/-- The run after its visits to the numbers below `k`. -/
def visited (options : Options) (sheet : Sheet) (k : Nat) : Run State :=
  (List.range k).foldl (Run.visit (engine options).registry) ((engine options).start sheet)

theorem visited_succ (options : Options) (sheet : Sheet) (k : Nat) :
    visited options sheet (k + 1) = Run.visit (engine options).registry (visited options sheet k) k := by
  rw [visited, List.range_succ, List.foldl_append]
  rfl

theorem idle_visited (holds : sheet.Holds whole) (off : Off options (plugin (.whole State)).controls) (k : Nat) :
    Idle sheet options k (visited options sheet k) := by
  induction k with
  | zero => exact ⟨⟨rfl, nofun, rfl, rfl⟩, ⟨[], .refl holds, by simp⟩, fun _ _ => nofun⟩
  | succ k ih =>
    rw [visited_succ]
    exact ih.visit off

/-- The forms of a comment fare the same with other control directives that are switched off. -/
theorem obeyForms_wired (told : Told options forms run) (off : Off options controls)
    (others : Off options (plugin (.whole State)).controls) (source : NodeId) (preserve consumed : Bool)
    (row : List Directive.Form) :
    Run.obeyForms (wired controls) source preserve consumed row run =
      Run.obeyForms (engine options).registry source preserve consumed row run := by
  induction row generalizing forms run consumed with
  | nil => rfl
  | cons form rest ih =>
    have next := told.obey off source preserve form
    have same : Run.obey (wired controls) run (invocationOf source preserve form) =
        Run.obey (engine options).registry run (invocationOf source preserve form) :=
      (obey_of_off off told.inForce _).trans (obey_of_off others told.inForce _).symm
    rw [Run.obeyForms, Run.obeyForms, ← invocationOf, ← same]
    generalize Run.obey (wired controls) run (invocationOf source preserve form) = obeyed at next
    obtain ⟨outcome, after⟩ := obeyed
    cases outcome with
    | taken => exact ih next true
    | unknown => exact ih next consumed
    | final => rfl

theorem Idle.visit_wired (idle : Idle sheet options k run) (off : Off options controls)
    (others : Off options (plugin (.whole State)).controls) :
    Run.visit (wired controls) run k = Run.visit (engine options).registry run k := by
  rw [idle.visit_eq, idle.visit_eq]
  by_cases comment : (run.marked k).scene.sheet.kind k = .comment
  · rw [Run.transform, Run.transform, comment]
    simp only [Run.obeyComment, obeyForms_wired idle.told_marked off others]
  · exact transform_wired options comment

/-- The run visits every node in turn, and control directives that are switched off might do anything. -/
theorem traverse_wired (rooted : sheet.Rooted whole) (off : Off options controls)
    (others : Off options (plugin (.whole State)).controls) :
    Run.traverse (wired controls) ((engine options).start sheet) = visited options sheet sheet.size := by
  have inv : Run.Invariant (wired controls) sheet fun k run => run = visited options sheet k := by
    refine Run.invariant_of_stripped rooted ?_ ?_
    · rintro k _ rfl
      obtain ⟨gone, stripped, early⟩ := (idle_visited rooted.holds others k).cut
      exact ⟨gone, stripped, fun _ => early⟩
    · rintro k _ rfl _
      rw [(idle_visited rooted.holds others k).visit_wired off others, visited_succ]
  exact inv.traverse rooted.holds rfl

end

/-! ## The run without texts -/

section
variable {gone : List Nat} {agree : Nat → Prop} {full bare : Sheet}

theorem stripped_setContent (stripped : full.Stripped gone agree bare) {c : Nat} {content : Content}
    (same : content.kind = full.kind c) : (full.setContent c content).Stripped gone agree (bare.setContent c content) := by
  refine stripped.similar (.setContent same) (.setContent (same.trans (stripped.kind c).symm)) fun n alike => ?_
  rw [content_setContent_eq, content_setContent_eq, stripped.size, stripped.content n alike]

theorem selector?_of_comment {sheet : Sheet} {c : Nat} (comment : sheet.kind c = .comment) : sheet.selector? c = none := by
  unfold Sheet.selector?
  split
  · rename_i content
    rw [Sheet.kind, content] at comment
    cases comment
  · rfl

theorem setSelector_of_comment {sheet : Sheet} {c : Nat} (comment : sheet.kind c = .comment) (selector : Text) :
    sheet.setSelector c selector = sheet := by
  unfold Sheet.setSelector
  split
  · rename_i content
    rw [Sheet.kind, content] at comment
    cases comment
  · rfl

theorem stripped_setSelector (stripped : full.Stripped gone agree bare) (beside : ∀ n, full.kind n ≠ .comment → agree n)
    (c : Nat) (selector : Text) : (full.setSelector c selector).Stripped gone agree (bare.setSelector c selector) := by
  by_cases comment : full.kind c = .comment
  · rw [setSelector_of_comment comment, setSelector_of_comment ((stripped.kind c).trans comment)]
    exact stripped
  · unfold Sheet.setSelector
    rw [stripped.content c (beside c comment)]
    split
    · rename_i content
      exact stripped_setContent stripped (by rw [Sheet.kind, content]; rfl)
    · exact stripped

end

/-- Two runs that agree in what they make of nodes other than comments, the second of which may have cut off more comments. -/
structure Parallel (sheet : Sheet) (full bare : Run State) : Prop where
  stripped : ∃ gone, full.scene.sheet.Stripped gone (fun n => sheet.kind n ≠ .comment) bare.scene.sheet
  kinds : ∀ n, full.scene.sheet.kind n = sheet.kind n
  options : bare.scene.options = full.scene.options
  map : bare.scene.map = full.scene.map
  pending : bare.pending = full.pending
  flipped : bare.flipped = full.flipped
  flips : bare.flips = full.flips

section
variable {options : Options} {sheet : Sheet} {whole : Item} {k : Nat} {full bare : Run State}

theorem Parallel.content_eq (parallel : Parallel sheet full bare) {n : Nat} (other : sheet.kind n ≠ .comment) :
    bare.scene.sheet.content n = full.scene.sheet.content n := by
  obtain ⟨_, stripped⟩ := parallel.stripped
  exact stripped.content n other

theorem Parallel.setContent (parallel : Parallel sheet full bare) {c : Nat} {content : Content}
    (same : content.kind = full.scene.sheet.kind c) :
    Parallel sheet (full.setSheet (full.scene.sheet.setContent c content))
      (bare.setSheet (bare.scene.sheet.setContent c content)) := by
  obtain ⟨gone, stripped⟩ := parallel.stripped
  exact { parallel with
    stripped := ⟨gone, stripped_setContent stripped same⟩
    kinds := fun n => ((Sheet.Similar.setContent same).kind n).trans (parallel.kinds n) }

theorem Parallel.setSelector (parallel : Parallel sheet full bare) (c : Nat) (selector : Text) :
    Parallel sheet (full.setSheet (full.scene.sheet.setSelector c selector))
      (bare.setSheet (bare.scene.sheet.setSelector c selector)) := by
  obtain ⟨gone, stripped⟩ := parallel.stripped
  have beside : ∀ n, full.scene.sheet.kind n ≠ .comment → sheet.kind n ≠ .comment := fun n other => by
    rwa [parallel.kinds n] at other
  exact { parallel with
    stripped := ⟨gone, stripped_setSelector stripped beside c selector⟩
    kinds := fun n => ((Sheet.Reworded.setSelector _ c selector).similar.kind n).trans (parallel.kinds n) }

theorem Parallel.flipParams (parallel : Parallel sheet full bare) (other : sheet.kind k ≠ .comment) :
    Parallel sheet (full.flipParams k) (bare.flipParams k) := by
  have content := parallel.content_eq other
  have params : bare.scene.sheet.params? k = full.scene.sheet.params? k := by simp only [Sheet.params?, content]
  unfold Run.flipParams
  rw [parallel.options, parallel.map, params]
  split
  · split
    · unfold Sheet.setParams
      rw [content]
      split
      · rename_i written
        exact parallel.setContent (by rw [Sheet.kind, written]; rfl)
      · exact parallel
    · exact parallel
  · exact parallel

theorem Parallel.flipValue (parallel : Parallel sheet full bare) (other : sheet.kind k ≠ .comment) :
    Parallel sheet (Run.flipValue (engine options).registry full k) (Run.flipValue (engine options).registry bare k) := by
  have content := parallel.content_eq other
  cases found : full.scene.sheet.declaration? k with
  | none =>
    have missing : bare.scene.sheet.declaration? k = none := by rwa [Sheet.declaration?, content]
    simp only [Run.flipValue, Run.obeyMarks, Run.flipByRule, found, missing, Bool.false_eq_true, if_false]
    exact parallel
  | some decl =>
    have written := Sheet.content_of_declaration? found
    obtain ⟨result, uniform⟩ := exists_flipValue_eq full.scene.options decl
    have one : Run.flipValue (engine options).registry full k = _ := uniform full k rfl written
    have two : Run.flipValue (engine options).registry bare k = _ := uniform bare k parallel.options (content.trans written)
    rw [one, two]
    split
    · have same : (Content.declaration result).kind = full.scene.sheet.kind k := by
        rw [Sheet.kind, written]
        rfl
      have changed := parallel.setContent same
      exact { changed with flipped := congrArg (· + 1) changed.flipped, flips := congrArg (· + 1) changed.flips }
    · exact parallel

theorem Parallel.renameRule (parallel : Parallel sheet full bare) (rule : Nat) (selector : Text) :
    Parallel sheet (full.renameRule rule selector) (bare.renameRule rule selector) := by
  unfold Run.renameRule
  rw [parallel.options, parallel.map, parallel.pending]
  simp only
  split
  · split
    · exact { (parallel.setSelector _ selector).setSelector rule _ with pending := rfl }
    · exact { parallel with pending := rfl }
  · split
    · exact parallel
    · exact parallel.setSelector rule _

/-- Comments do not count among the declarations of a rule. -/
theorem Parallel.renameAround (parallel : Parallel sheet full bare) (other : sheet.kind k ≠ .comment) :
    Parallel sheet (full.renameAround k) (bare.renameAround k) := by
  obtain ⟨gone, stripped⟩ := parallel.stripped
  have here : full.scene.sheet.kind k ≠ .comment := by rwa [parallel.kinds k]
  have selectors : ∀ n, bare.scene.sheet.selector? n = full.scene.sheet.selector? n := by
    intro n
    by_cases comment : sheet.kind n = .comment
    · have one : full.scene.sheet.kind n = .comment := (parallel.kinds n).trans comment
      have two : bare.scene.sheet.kind n = .comment := (stripped.kind n).trans one
      rw [selector?_of_comment one, selector?_of_comment two]
    · simp only [Sheet.selector?, parallel.content_eq comment]
  unfold Run.renameAround
  simp only [parallel.options, parallel.flipped, stripped.parent_eq here, selectors, stripped.isFinalOfKind_eq here]
  split
  · exact parallel
  · split
    · exact parallel
    · split
      · exact parallel
      · split
        · exact parallel.renameRule _ _
        · exact parallel

theorem Parallel.transform (parallel : Parallel sheet full bare) (other : sheet.kind k ≠ .comment) :
    Parallel sheet (Run.transform (engine options).registry full k) (Run.transform (engine options).registry bare k) := by
  obtain ⟨gone, stripped⟩ := parallel.stripped
  rw [Run.transform, Run.transform, stripped.kind k, parallel.kinds k]
  cases kind : sheet.kind k with
  | comment => exact absurd kind other
  | rule => exact { parallel with flipped := rfl }
  | atRule => exact parallel.flipParams other
  | declaration => exact (parallel.flipValue other).renameAround other
  | root => exact parallel

/-- The second run may lose comments. -/
theorem Parallel.shed (parallel : Parallel sheet full bare) {after : Run State}
    (shed : Shed (fun n => sheet.kind n = .comment) bare after) : Parallel sheet full after := by
  obtain ⟨more, _, _, comments, rfl⟩ := shed
  obtain ⟨gone, stripped⟩ := parallel.stripped
  obtain ⟨all, cut, _⟩ := stripped.stripAll fun n member => (parallel.kinds n).trans (comments n member)
  exact { parallel with stripped := ⟨all, cut⟩ }

/-- Markers and comments that are cut off make no difference to what becomes of the other nodes. -/
theorem parallel_visited (rooted : sheet.Rooted whole) (off : Off options (plugin (.whole State)).controls) (k : Nat) :
    Parallel sheet (visited options sheet.emptied k) (visited options sheet k) := by
  induction k with
  | zero => exact ⟨⟨[], Sheet.stripped_emptied rooted.holds⟩, sheet.kind_emptied, rfl, rfl, rfl, rfl, rfl⟩
  | succ k ih =>
    have idle := idle_visited rooted.holds off k
    have blank := idle_visited rooted.emptied.holds off k
    have marked : Parallel sheet ((visited options sheet.emptied k).marked k) ((visited options sheet k).marked k) := { ih with }
    rw [visited_succ, visited_succ, idle.visit_eq, blank.visit_eq]
    by_cases comment : sheet.kind k = .comment
    · -- The comment without its text is passed over.
      obtain ⟨_, stripped, _⟩ := blank.cut
      have plain : ((visited options sheet.emptied k).marked k).scene.sheet.directive? k = none :=
        (stripped.directive?_eq k).trans (sheet.directive?_emptied k)
      have passed : Run.transform (engine options).registry ((visited options sheet.emptied k).marked k) k =
          (visited options sheet.emptied k).marked k := by
        rw [Run.transform, marked.kinds, comment]
        simp only [Run.obeyComment]
        rw [← Sheet.directive?, plain]
      have here : ((visited options sheet k).marked k).scene.sheet.kind k = .comment := by
        obtain ⟨_, cut, _⟩ := idle.cut
        exact (cut.kind k).trans comment
      rw [passed, Run.transform, here]
      exact marked.shed (idle.told_marked.obeyComment off _ (fun form member => (lt_of_mem_placedBefore member).2) comment).2
    · exact marked.transform comment

/-! ## The whole run -/

theorem flip_eq_visited (rooted : sheet.Rooted whole) (off : Off options (plugin (.whole State)).controls) :
    ((engine options).flip sheet).1 = (visited options sheet sheet.size).scene.sheet ∧
      ((engine options).flip sheet).2.1 = (visited options sheet sheet.size).report := by
  have run : Run.traverse (engine options).registry ((engine options).start sheet) = _ := traverse_wired rooted off off
  rw [← run]
  exact ⟨rfl, rfl⟩

/-- The report tells of the forms, of the markers that are left and of the rules that wait. -/
theorem Told.report_eq {forms : List Placed} {run : Run State} (told : Told options forms run) :
    run.report.warnings = forms.filterMap (remark? options) ++ (unclosed (switchedBlocks options forms)).map openWarning ++
      run.pending.map fun entry => unpairedWarning entry.2 := by
  have markers := congrArg (List.map fun marker : NodeId × Text => (⟨.stillOpen, marker.1,
    "unclosed directive \"".toList ++ marker.2 ++ "\".".toList⟩ : Warning)) told.row
  rw [List.map_map, List.map_map] at markers
  have row : (unclosed (switchedBlocks options forms)).map openWarning = _ := markers.symm
  rw [row, ← told.warnings]
  rfl

theorem placed_emptied (sheet : Sheet) (k : Nat) : placedBefore sheet.emptied k = [] := by
  refine List.flatMap_eq_nil_iff.mpr fun n _ => ?_
  exact placedAt_of_plain (sheet.directive?_emptied n)

end

theorem off_of_names {options : Options}
    (off : ∀ name ∈ ["ignore", "rename", "remove", "raw", "options"], options.disables pluginName name.toList = true) :
    Off options (plugin (.whole State)).controls := by
  intro control member
  obtain rfl | rfl | rfl | rfl | rfl := control_cases member
  · exact off "ignore" (by simp)
  · exact off "rename" (by simp)
  · exact off "remove" (by simp)
  · exact off "raw" (by simp)
  · exact off "options" (by simp)

/-- If the options switch off all control directives of the standard plugin, a run does to nodes other than comments what it
does to them in the sheet without the texts of its comments. Every form that opens a directive that is switched off is told
once, forms of other names are told as unknown ones, blocks that are not closed later are told at the end, and all other
warnings are those about selectors that were not flipped. No handler of a control directive is called: the run is the same with
any others in their place that are switched off. -/
theorem inert_of_disabled {text : Text} {sheet : Sheet} (parsed : Sheet.parse text = .ok sheet) {options : Options}
    (off : ∀ name ∈ ["ignore", "rename", "remove", "raw", "options"], options.disables pluginName name.toList = true) :
    let forms := placed sheet
    let flipped := (engine options).flip sheet
    let blank := (engine options).flip sheet.emptied
    (∃ gone, blank.1.Stripped gone (fun n => sheet.kind n ≠ .comment) flipped.1) ∧
    (∀ n, flipped.1.kind n = sheet.kind n) ∧
    flipped.2.1.flips = blank.2.1.flips ∧
    flipped.2.1.warnings = forms.filterMap (remark? options) ++
      (unclosed (switchedBlocks options forms)).map openWarning ++ blank.2.1.warnings ∧
    (∀ warning ∈ blank.2.1.warnings, warning.kind = .unpaired) ∧
    ∀ controls, Off options controls →
      Run.traverse (wired controls) ((engine options).start sheet) =
        Run.traverse (engine options).registry ((engine options).start sheet) := by
  intro forms flipped blank
  have none := off_of_names off
  obtain ⟨whole, rooted⟩ := Sheet.exists_rooted_of_parse parsed
  have parallel := parallel_visited rooted none sheet.size
  have told := (idle_visited rooted.holds none sheet.size).told
  have silent := (idle_visited rooted.emptied.holds none sheet.size).told
  obtain ⟨sheetEq, reportEq⟩ := flip_eq_visited rooted none
  obtain ⟨blankEq, blankReport⟩ := flip_eq_visited rooted.emptied none
  rw [sheet.size_emptied] at blankEq blankReport
  rw [placed_emptied] at silent
  have whole : placedBefore sheet sheet.size = forms := by
    rw [placedBefore, ← rooted.holds.preorder_root]
    rfl
  have waiting : blank.2.1.warnings =
      (visited options sheet.emptied sheet.size).pending.map fun entry => unpairedWarning entry.2 := by
    rw [show blank.2.1 = _ from blankReport, silent.report_eq]
    rfl
  refine ⟨?_, ?_, ?_, ?_, ?_, ?_⟩
  · rw [show flipped.1 = _ from sheetEq, show blank.1 = _ from blankEq]
    exact parallel.stripped
  · intro n
    obtain ⟨_, stripped, _⟩ := (idle_visited rooted.holds none sheet.size).cut
    rw [show flipped.1 = _ from sheetEq, stripped.kind n]
  · rw [show flipped.2.1 = _ from reportEq, show blank.2.1 = _ from blankReport]
    exact parallel.flips
  · rw [show flipped.2.1 = _ from reportEq, told.report_eq, whole, waiting, parallel.pending]
  · intro warning member
    rw [waiting] at member
    obtain ⟨_, _, rfl⟩ := List.mem_map.mp member
    rfl
  · intro controls others
    exact (traverse_wired rooted others none).trans (traverse_wired rooted none none).symm

/-- A block that stays open, a form in a rule, one of an unknown name, and a form that closes nothing before a block that is
closed. -/
theorem inert_of_disabled_unclosed :
    let options : Options := { blacklist := [(pluginName,
      ["ignore", "rename", "remove", "raw", "options"].map fun name => (name.toList, true))] }
    ∃ sheet, Sheet.parse ("/*rtl:begin:rename*/.left\x7b/*rtl:ignore*/left:0;/*rtl:foo*/color:red\x7d" ++
        "/*rtl:end:raw*//*rtl:begin:raw*//*rtl:end:raw*/").toList = .ok sheet ∧
      (∀ name ∈ ["ignore", "rename", "remove", "raw", "options"], options.disables pluginName name.toList = true) ∧
      ((engine options).flip sheet).2.1.warnings =
        [⟨.disabled, 1, "directive \"rtlcss.rename\" is blacklisted.".toList⟩,
          ⟨.disabled, 3, "directive \"rtlcss.ignore\" is blacklisted.".toList⟩,
          ⟨.unknown, 5, "unsupported directive \"foo\".".toList⟩,
          ⟨.disabled, 8, "directive \"rtlcss.raw\" is blacklisted.".toList⟩,
          ⟨.stillOpen, 1, "unclosed directive \"rename\".".toList⟩] ++ ((engine options).flip sheet.emptied).2.1.warnings ∧
      ((engine options).flip sheet).2.1.flips = ((engine options).flip sheet.emptied).2.1.flips := by
  intro options
  have off : ∀ name ∈ ["ignore", "rename", "remove", "raw", "options"], options.disables pluginName name.toList = true := by
    decide
  obtain ⟨sheet, parsed, test⟩ := Sheet.exists_of_readable
    (by decide +kernel : (Sheet.parse ("/*rtl:begin:rename*/.left\x7b/*rtl:ignore*/left:0;/*rtl:foo*/color:red\x7d" ++
        "/*rtl:end:raw*//*rtl:begin:raw*//*rtl:end:raw*/").toList).toOption.any (fun sheet =>
      (placed sheet).filterMap (remark? options) ++ (unclosed (switchedBlocks options (placed sheet))).map openWarning ==
        [⟨.disabled, 1, "directive \"rtlcss.rename\" is blacklisted.".toList⟩,
          ⟨.disabled, 3, "directive \"rtlcss.ignore\" is blacklisted.".toList⟩,
          ⟨.unknown, 5, "unsupported directive \"foo\".".toList⟩,
          ⟨.disabled, 8, "directive \"rtlcss.raw\" is blacklisted.".toList⟩,
          ⟨.stillOpen, 1, "unclosed directive \"rename\".".toList⟩]) = true)
  obtain ⟨_, _, flips, warnings, _, _⟩ := inert_of_disabled parsed off
  rw [eq_of_beq test] at warnings
  exact ⟨sheet, parsed, off, warnings, flips⟩

/-- A further name that the options switch off for the plugin is told as switched off, not as unknown, although the plugin has
no directive of that name. -/
theorem disables_further_name :
    let options : Options := { blacklist := [(pluginName,
      ["ignore", "rename", "remove", "raw", "options", "foo"].map fun name => (name.toList, true))] }
    ∃ sheet, Sheet.parse "/*rtl:foo*/.a\x7bleft:0\x7d".toList = .ok sheet ∧
      (∀ name ∈ ["ignore", "rename", "remove", "raw", "options"], options.disables pluginName name.toList = true) ∧
      ⟨.disabled, 1, "directive \"rtlcss.foo\" is blacklisted.".toList⟩ ∈ ((engine options).flip sheet).2.1.warnings ∧
      ((engine options).flip sheet).2.1.warningsOf .unknown = [] := by
  intro options
  have off : ∀ name ∈ ["ignore", "rename", "remove", "raw", "options"], options.disables pluginName name.toList = true := by
    decide
  obtain ⟨sheet, parsed, test⟩ := Sheet.exists_of_readable
    (by decide +kernel : (Sheet.parse "/*rtl:foo*/.a\x7bleft:0\x7d".toList).toOption.any (fun sheet =>
      (placedBefore sheet sheet.size).filterMap (remark? options) ==
        [⟨.disabled, 1, "directive \"rtlcss.foo\" is blacklisted.".toList⟩] &&
      unclosed (switchedBlocks options (placedBefore sheet sheet.size)) == []) = true)
  simp only [Bool.and_eq_true, beq_iff_eq] at test
  obtain ⟨whole, rooted⟩ := Sheet.exists_rooted_of_parse parsed
  have told := (idle_visited rooted.holds (off_of_names off) sheet.size).told
  have warnings := told.report_eq
  rw [test.1, test.2, ← (flip_eq_visited rooted (off_of_names off)).2] at warnings
  refine ⟨sheet, parsed, off, ?_, ?_⟩
  · rw [warnings]
    simp
  · rw [Report.warningsOf, warnings]
    simp [unpairedWarning, List.filter_map, Function.comp_def]

end Standard
end StyleFlip
