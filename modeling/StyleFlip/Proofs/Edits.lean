import StyleFlip.Proofs.Course

/-!
What a step of a run may do. While node `c` is visited the sheet goes through edits of four kinds (`Sheet.Edit`): the node
is rewritten, its selector is changed by an open `rename`, an earlier node or the node itself is cut off, or new nodes come in
before it. So a run keeps the kinds of all nodes, and the children of a node are always those that were read and not cut off,
in their order, among new ones (`Sheet.Trimmed`). Apart from edits and the renaming around a declaration a step leaves
selectors alone (`Sheet.Edit.selector?_eq`), and no step before the end of the document raises the warning about a rule
without a pair (`Effect`).
-/
namespace StyleFlip

namespace Sheet

/-! ## Cutting off and putting in -/

theorem parent_remove (sheet : Sheet) (n m : Nat) :
    (sheet.remove n).parent m = if m = n then none else sheet.parent m := by
  unfold remove
  split
  · rename_i detached
    split
    · rename_i own
      rw [own, detached]
    · rfl
  · simp only [Sheet.parent, Sheet.node, getElem?_modify]
    by_cases own : m = n
    · rw [if_pos own, if_pos own.symm]
      cases sheet.nodes[m]? <;> split <;> rfl
    · rw [if_neg own, if_neg (Ne.symm own)]
      cases sheet.nodes[m]? <;> split <;> rfl

theorem children_remove (sheet : Sheet) (n m : Nat) :
    (sheet.remove n).children m =
      if sheet.parent n = some m then (sheet.children m).filter (· ≠ n) else sheet.children m := by
  unfold remove
  split
  · rename_i detached
    rw [detached]
    rfl
  · rename_i above attached
    rw [attached]
    simp only [Sheet.children, Sheet.node, getElem?_modify, Option.some.injEq]
    by_cases own : n = m
    · rw [if_pos own]
      cases sheet.nodes[m]? <;> split <;> rfl
    · rw [if_neg own]
      cases sheet.nodes[m]? <;> split <;> rfl

theorem content_remove (sheet : Sheet) (n m : Nat) : (sheet.remove n).content m = sheet.content m := by
  unfold remove
  split
  · rfl
  · simp only [Sheet.content, Sheet.node, getElem?_modify]
    cases sheet.nodes[m]? <;> split <;> split <;> rfl

theorem spacing_remove (sheet : Sheet) (n m : Nat) : ((sheet.remove n).node m).spacing = (sheet.node m).spacing := by
  unfold remove
  split
  · rfl
  · simp only [Sheet.node, getElem?_modify]
    cases sheet.nodes[m]? <;> split <;> split <;> rfl

theorem size_remove (sheet : Sheet) (n : Nat) : (sheet.remove n).size = sheet.size := by
  unfold remove
  split
  · rfl
  · simp only [size_modify]

theorem filter_placeBefore {keep : Nat → Bool} {anchor id : Nat} (dropped : keep id = false) (ids : List Nat) :
    (placeBefore anchor id ids).filter keep = ids.filter keep := by
  induction ids with
  | nil => rfl
  | cons first rest ih =>
    rw [placeBefore]
    split
    · rw [List.filter_cons, dropped]
      rfl
    · rw [List.filter_cons, List.filter_cons, ih]

/-- What becomes of the nodes that were there when others come in: each says the same under the same parent, and among its
children are the same as before, in the same order. -/
structure Spread (before after : Sheet) : Prop where
  size : before.size ≤ after.size
  content : ∀ n : Nat, n < before.size → after.content n = before.content n
  parent : ∀ n : Nat, n < before.size → after.parent n = before.parent n
  children : ∀ n : Nat, n < before.size →
    (after.children n).filter (· < before.size) = (before.children n).filter (· < before.size)

theorem Spread.refl (sheet : Sheet) : Spread sheet sheet :=
  ⟨Nat.le_refl _, fun _ _ => rfl, fun _ _ => rfl, fun _ _ => rfl⟩

theorem filter_lt_filter_lt {low high : Nat} (le : low ≤ high) (ids : List Nat) :
    (ids.filter (· < high)).filter (· < low) = ids.filter (· < low) := by
  rw [List.filter_filter]
  refine List.filter_congr fun n _ => ?_
  simp only [Bool.and_eq_decide, decide_eq_true_eq]
  grind

theorem Spread.trans {first second third : Sheet} (one : Spread first second) (two : Spread second third) :
    Spread first third where
  size := Nat.le_trans one.size two.size
  content := fun n inside => (two.content n (Nat.lt_of_lt_of_le inside one.size)).trans (one.content n inside)
  parent := fun n inside => (two.parent n (Nat.lt_of_lt_of_le inside one.size)).trans (one.parent n inside)
  children := by
    intro n inside
    rw [← filter_lt_filter_lt one.size, two.children n (Nat.lt_of_lt_of_le inside one.size), filter_lt_filter_lt one.size,
      one.children n inside]

/-- Where a new node stands among the children of its parent does not matter: the others keep their order. -/
theorem Spread.attach {sheet : Sheet} {parent : Nat} (inside : parent < sheet.size) (content : Content) (spacing : Spacing)
    {place : List NodeId → List NodeId}
    (kept : ∀ ids, (place ids).filter (· < sheet.size) = ids.filter (· < sheet.size)) :
    Spread sheet (sheet.attach parent content spacing place) := by
  have node : ∀ n : Nat, n < sheet.size → (sheet.attach parent content spacing place).node n =
      if n = parent then { sheet.node n with children := place (sheet.children n) } else sheet.node n :=
    fun n low => (node_attach inside content spacing place n).trans (if_neg (Nat.ne_of_lt low))
  refine ⟨by rw [size_attach]; omega, ?_, ?_, ?_⟩
  · intro n low
    rw [Sheet.content, node n low]
    split <;> rfl
  · intro n low
    rw [Sheet.parent, node n low]
    split <;> rfl
  · intro n low
    rw [Sheet.children, node n low]
    split
    · exact kept _
    · rfl

/-- Of the nodes that were there, a node that comes in before another changes at most the parent of both, by one child. -/
theorem Spread.insertBefore? {sheet after : Sheet} {c id : Nat} {content : Content} {spacing : Spacing}
    (inserted : sheet.insertBefore? c content spacing = some (after, id)) :
    Spread sheet after ∧ id = sheet.size ∧ after.size = sheet.size + 1 := by
  obtain ⟨numbered, above, _, member, rfl⟩ := insertBefore?_eq_some inserted
  exact ⟨.attach (lt_size_of_mem_children member) content spacing (filter_placeBefore (by simp)), numbered, size_attach ..⟩

theorem Spread.insertItemsBefore (sheet : Sheet) (c : Nat) (items : List Item) :
    Spread sheet (sheet.insertItemsBefore c items).1 := by
  induction items generalizing sheet with
  | nil => exact .refl sheet
  | cons item rest ih =>
    obtain ⟨content, spacing, children⟩ := item
    rw [Sheet.insertItemsBefore]
    cases inserted : sheet.insertBefore? c content spacing with
    | none => exact .refl sheet
    | some found =>
      obtain ⟨middle, id⟩ := found
      obtain ⟨first, rfl, size⟩ := Spread.insertBefore? inserted
      have grown := appendItems_grown middle sheet.size (by omega) children
      -- Only the new node gets children.
      have filled : Spread sheet (middle.appendItems sheet.size children).1 := by
        have others : ∀ n : Nat, n < sheet.size →
            (middle.appendItems sheet.size children).1.nodes[n]? = middle.nodes[n]? :=
          fun n low => grown.others n (by omega) (by omega)
        refine ⟨by rw [grown.size]; omega, ?_, ?_, ?_⟩
        · intro n low
          rw [← first.content n low]
          simp only [Sheet.content, node_congr (others n low)]
        · intro n low
          rw [← first.parent n low]
          simp only [Sheet.parent, node_congr (others n low)]
        · intro n low
          rw [← first.children n low]
          simp only [Sheet.children, node_congr (others n low)]
      exact filled.trans (ih _)

/-! ## Edits -/

/-- What may be done to a sheet while node `c` is visited, where `renames` says whether its selector may change. -/
inductive Edit (c : Nat) (renames : Prop) (before : Sheet) : Sheet → Prop where
  /-- The node, which is no rule, says something else of the same kind. -/
  | rewrite {content : Content} (same : content.kind = before.kind c) (plain : content.kind ≠ .rule) :
      Edit c renames before (before.setContent c content)
  | rename (allowed : renames) (selector : Text) : Edit c renames before (before.setSelector c selector)
  | cut {n : Nat} (low : n ≤ c) : Edit c renames before (before.remove n)
  | graft (items : List Item) : Edit c renames before (before.insertItemsBefore c items).1

/-- Nodes of the sheet may have been cut off, and new ones may have come in between. -/
structure Trimmed (sheet now : Sheet) : Prop where
  size : sheet.size ≤ now.size
  kind : ∀ n : Nat, n < sheet.size → now.kind n = sheet.kind n
  children : ∀ n : Nat, n < sheet.size →
    (now.children n).filter (· < sheet.size) = (sheet.children n).filter fun child => now.parent child = some n

theorem Trimmed.refl {sheet : Sheet} {whole : Item} (holds : sheet.Holds whole) : Trimmed sheet sheet where
  size := Nat.le_refl _
  kind := fun _ _ => rfl
  children := by
    intro n _
    refine List.filter_congr fun child member => ?_
    obtain ⟨_, inside, attached⟩ := holds.of_mem_children member
    simp [inside, attached]

theorem kind_modifyContent_of_keeps {sheet : Sheet} {c : Nat} {change : Content → Content}
    (keeps : (change (sheet.content c)).kind = sheet.kind c) (n : Nat) : (sheet.modifyContent c change).kind n = sheet.kind n := by
  simp only [Sheet.kind, Sheet.content, Sheet.node, getElem?_modifyContent] at keeps ⊢
  cases found : sheet.nodes[n]? with
  | none => rfl
  | some node =>
    by_cases own : n = c
    · subst own
      rw [found] at keeps
      simpa using keeps
    · simp [own]

/-- Other content of the same kind keeps the shape. -/
theorem Trimmed.modifyContent {sheet now : Sheet} (trimmed : Trimmed sheet now) {c : Nat} {change : Content → Content}
    (keeps : (change (now.content c)).kind = now.kind c) : Trimmed sheet (now.modifyContent c change) := by
  have shape := sameShape_modifyContent now c change
  refine ⟨by rw [shape.size]; exact trimmed.size, ?_, ?_⟩
  · intro n inside
    rw [← trimmed.kind n inside, kind_modifyContent_of_keeps keeps]
  · intro n inside
    simp only [shape.children, shape.parent]
    exact trimmed.children n inside

theorem Trimmed.remove {sheet now : Sheet} (trimmed : Trimmed sheet now) (n : Nat) :
    Trimmed sheet (now.remove n) := by
  refine ⟨by rw [size_remove]; exact trimmed.size, ?_, ?_⟩
  · intro m inside
    rw [← trimmed.kind m inside]
    simp only [Sheet.kind, content_remove]
  · intro m inside
    have before := trimmed.children m inside
    rw [children_remove]
    have after : (sheet.children m).filter (fun child => (now.remove n).parent child = some m) =
        ((sheet.children m).filter fun child => now.parent child = some m).filter (· ≠ n) := by
      rw [List.filter_filter]
      refine List.filter_congr fun child _ => ?_
      rw [parent_remove]
      by_cases own : child = n <;> simp [own]
    rw [after, ← before]
    split
    · rw [List.filter_filter, List.filter_filter]
      exact List.filter_congr fun child _ => Bool.and_comm _ _
    · rename_i other
      -- The node is not among these children, so leaving it out changes nothing.
      refine (List.filter_eq_self.mpr fun child member => ?_).symm
      rw [before] at member
      have attached := (List.mem_filter.mp member).2
      simp only [decide_eq_true_eq] at attached ⊢
      rintro rfl
      exact other attached

theorem Trimmed.spread {sheet now after : Sheet} {whole : Item} (holds : sheet.Holds whole) (trimmed : Trimmed sheet now)
    (spread : Spread now after) : Trimmed sheet after where
  size := Nat.le_trans trimmed.size spread.size
  kind := by
    intro n inside
    rw [← trimmed.kind n inside]
    simp only [Sheet.kind, spread.content n (Nat.lt_of_lt_of_le inside trimmed.size)]
  children := by
    intro n inside
    have low := Nat.lt_of_lt_of_le inside trimmed.size
    rw [← filter_lt_filter_lt trimmed.size, spread.children n low, filter_lt_filter_lt trimmed.size, trimmed.children n inside]
    refine List.filter_congr fun child member => ?_
    rw [spread.parent child (Nat.lt_of_lt_of_le (holds.of_mem_children member).2.1 trimmed.size)]

theorem setSelector_eq_modifyContent (sheet : Sheet) (id : Nat) (selector : Text) :
    sheet.setSelector id selector = sheet.modifyContent id fun content =>
      match content with
      | .rule _ => .rule selector
      | other => other := by
  unfold setSelector
  split
  · rename_i content
    exact setContent_eq_modifyContent (by rw [content])
  · rename_i other
    refine (modifyContent_eq_self ?_).symm
    split
    · rename_i content
      exact absurd content (other _)
    · rfl

theorem Trimmed.setSelector {sheet now : Sheet} (trimmed : Trimmed sheet now) (id : Nat) (selector : Text) :
    Trimmed sheet (now.setSelector id selector) := by
  rw [setSelector_eq_modifyContent]
  refine trimmed.modifyContent ?_
  unfold Sheet.kind
  split
  · rename_i content
    rw [content]
    rfl
  · rfl

theorem Trimmed.edit {sheet now after : Sheet} {whole : Item} {c : Nat} {renames : Prop} (holds : sheet.Holds whole)
    (trimmed : Trimmed sheet now) (edit : Edit c renames now after) : Trimmed sheet after := by
  cases edit with
  | @rewrite content same plain =>
    change Trimmed sheet (now.modifyContent c fun _ => content)
    exact trimmed.modifyContent same
  | rename _ selector => exact trimmed.setSelector c selector
  | cut _ => exact trimmed.remove _
  | graft items => exact trimmed.spread holds (.insertItemsBefore now c items)

theorem selector?_setSelector (sheet : Sheet) (id n : Nat) (selector : Text) :
    (sheet.setSelector id selector).selector? n =
      if n = id then (sheet.selector? n).map fun _ => selector else sheet.selector? n := by
  rw [setSelector_eq_modifyContent]
  simp only [selector?, Sheet.content, Sheet.node, getElem?_modifyContent]
  cases sheet.nodes[n]? with
  | none => simp
  | some node =>
    by_cases own : n = id
    · simp only [own, if_true, Option.map_some, Option.getD_some]
      cases node.content <;> rfl
    · simp [own]

theorem selector?_setContent_of_ne {sheet : Sheet} {id : Nat} {content : Content} (before : sheet.kind id ≠ .rule)
    (after : content.kind ≠ .rule) (n : Nat) : (sheet.setContent id content).selector? n = sheet.selector? n := by
  change (sheet.modifyContent id fun _ => content).selector? n = sheet.selector? n
  simp only [selector?, Sheet.kind, Sheet.content, Sheet.node, getElem?_modifyContent] at before ⊢
  cases found : sheet.nodes[n]? with
  | none => rfl
  | some node =>
    by_cases own : n = id
    · subst own
      rw [found] at before
      simp only [Option.map_some, Option.getD_some, if_true] at before ⊢
      cases content <;> cases shape : node.content <;> simp_all [Content.kind]
    · simp [own]

/-- Selectors change at the node that is visited at most, and only if that is allowed. -/
theorem Edit.selector?_eq {before after : Sheet} {c : Nat} {renames : Prop} (edit : Edit c renames before after) {n : Nat}
    (inside : n < before.size) (elsewhere : renames → n ≠ c) : after.selector? n = before.selector? n := by
  cases edit with
  | rewrite same plain => exact selector?_setContent_of_ne (same ▸ plain) plain n
  | rename allowed selector => rw [selector?_setSelector, if_neg (elsewhere allowed)]
  | cut low => simp only [selector?, content_remove]
  | graft items => simp only [selector?, (Spread.insertItemsBefore before c items).content n inside]

theorem Edit.size_le {before after : Sheet} {c : Nat} {renames : Prop} (edit : Edit c renames before after) :
    before.size ≤ after.size := by
  cases edit with
  | rewrite same plain => exact Nat.le_of_eq (size_modify _ _ _).symm
  | rename allowed selector =>
    rw [setSelector_eq_modifyContent]
    exact Nat.le_of_eq (size_modify _ _ _).symm
  | cut low => exact Nat.le_of_eq (size_remove _ _).symm
  | graft items => exact (Spread.insertItemsBefore before c items).size

end Sheet

namespace Standard
open Run (Moment Stage)

/-! ## Steps of a run -/

/-- What a step other than the renaming around a declaration may do while node `c` is visited. -/
structure Effect (c : Nat) (renames : Prop) (before after : Run State) : Prop where
  edits : Relation.ReflTransGen (Sheet.Edit c renames) before.scene.sheet after.scene.sheet
  pending : after.pending = before.pending
  warnings : ∃ raised, after.scene.warnings = before.scene.warnings ++ raised ∧ ∀ warning ∈ raised, warning.kind ≠ .unpaired

section
variable {c : Nat} {renames : Prop} {run : Run State}

theorem Effect.refl (run : Run State) : Effect c renames run run := ⟨.refl, rfl, [], by simp, by simp⟩

theorem Effect.trans {first second third : Run State} (one : Effect c renames first second)
    (two : Effect c renames second third) : Effect c renames first third := by
  obtain ⟨raised, warned, kinds⟩ := one.warnings
  obtain ⟨others, warnedNext, kindsNext⟩ := two.warnings
  refine ⟨one.edits.trans two.edits, two.pending.trans one.pending, raised ++ others, ?_, ?_⟩
  · rw [warnedNext, warned, List.append_assoc]
  · intro warning member
    rcases List.mem_append.mp member with early | late
    · exact kinds warning early
    · exact kindsNext warning late

/-- Anything but the sheet, the waiting rules and the warnings may change. -/
theorem Effect.of_eq {before after : Run State} (sheet : after.scene.sheet = before.scene.sheet)
    (pending : after.pending = before.pending) (warnings : after.scene.warnings = before.scene.warnings) :
    Effect c renames before after :=
  ⟨by rw [sheet], pending, [], by simp [warnings], by simp⟩

theorem Effect.of_edit {before after : Run State} (edit : Sheet.Edit c renames before.scene.sheet after.scene.sheet)
    (pending : after.pending = before.pending) (warnings : after.scene.warnings = before.scene.warnings) :
    Effect c renames before after :=
  ⟨.single edit, pending, [], by simp [warnings], by simp⟩

theorem Effect.warn {kind : WarningKind} (other : kind ≠ .unpaired) (node : NodeId) (message : Text) :
    Effect c renames run (run.warn kind node message) :=
  ⟨.refl, rfl, [{ kind, node, message }], rfl, by simpa using other⟩

theorem Effect.refuseOptions {store : State} {node : NodeId} :
    Effect c renames run { run with store := store, scene := warnOptions run.scene node } :=
  ⟨.refl, rfl, [{ kind := .badArgument, node, message := "invalid options: configuration error".toList }], rfl, by simp⟩

theorem Effect.adopt (options : Options) {store : State} {node : NodeId} :
    Effect c renames run
      { run with store := store, scene := (run.scene.adopt? options).getD (warnOptions run.scene node) } := by
  unfold Scene.adopt?
  split
  · exact .refuseOptions
  · exact .of_eq rfl rfl rfl

theorem Effect.enter {control : Control State} (member : control ∈ (plugin (.whole State)).controls) (invocation : Invocation)
    (allowed : control.name = "rename".toList → renames) : Effect c renames run (run.call (control.enter c invocation)).2 := by
  obtain rfl | rfl | rfl | rfl | rfl := control_cases member
  · exact .of_eq rfl rfl rfl
  · change Effect c renames run (run.call (enterRename c invocation)).2
    simp only [Run.call, enterRename]
    split
    · exact .of_edit (.rename (allowed rfl) _) rfl rfl
    · exact .refl run
  · exact .of_edit (.cut (Nat.le_refl c)) rfl rfl
  · change Effect c renames run (run.call (enterRaw c invocation)).2
    obtain ⟨fragment, _, _, _, same⟩ | ⟨_, _, _, same⟩ := enterRaw_cases c invocation run.store run.scene <;>
      simp only [Run.call, same]
    · exact .of_edit (.graft (fragment.item Sheet.root).children) rfl rfl
    · exact .warn (by decide) _ _
  · change Effect c renames run (run.call (enterOptions (.whole State) c invocation)).2
    simp only [Run.call, enterOptions]
    cases Options.ofText .json invocation.argument with
    | ok replacing => exact .adopt replacing
    | error => exact .refuseOptions

theorem Effect.leave {control : Control State} (member : control ∈ (plugin (.whole State)).controls) (node : Nat)
    (invocation : Invocation) : Effect c renames run (run.call (control.leave node invocation)).2 := by
  obtain rfl | rfl | rfl | rfl | rfl := control_cases member
  · change Effect c renames run (run.call (leaveIgnore (.whole State) node invocation)).2
    simp only [Run.call, leaveIgnore]
    split <;> exact .of_eq rfl rfl rfl
  · exact .refl run
  · exact .refl run
  · exact .refl run
  · change Effect c renames run (run.call (leaveOptions (.whole State) node invocation)).2
    simp only [Run.call, leaveOptions]
    split
    · exact .refl run
    · split
      · exact .of_eq rfl rfl rfl
      · exact .adopt _

theorem Effect.ask (kind : Kind) {entry : OpenDirective State} (genuine : Genuine entry)
    (allowed : entry.invocation.name = "rename".toList → entry.control ≠ none → renames) :
    Effect c renames run (Run.ask c kind entry run).1 := by
  unfold Run.ask
  split
  · exact .refl run
  · rename_i control live
    obtain ⟨member, named⟩ := genuine.control control live
    have entered : Effect c renames run (run.call (control.enter c entry.invocation)).2 :=
      .enter member _ fun rename => allowed (named ▸ rename) (by rw [live]; simp)
    simp only
    split
    · split
      · exact entered.trans (.leave member _ _)
      · exact entered
    · exact .refl run

theorem Effect.stripSource {source : Nat} (low : source ≤ c) (preserve : Bool) :
    Effect c renames run (run.stripSource source preserve) := by
  unfold Run.stripSource
  split
  · exact .refl run
  · exact .of_edit (.cut low) rfl rfl

theorem Effect.endDirective {entry : OpenDirective State} (low : entry.invocation.source ≤ c)
    (stack : List (OpenDirective State)) : Effect c renames run (run.endDirective entry stack) := by
  have fewer : Effect c renames run { run with stack := stack } := .of_eq rfl rfl rfl
  exact fewer.trans (.stripSource low _)

section
variable (known : ∀ entry ∈ run.stack, entry.invocation.source ≤ c ∧ Genuine entry)
include known

theorem Effect.passOver (name : Text) (invocation : Invocation) : Effect c renames run (run.passOver name invocation) := by
  unfold Run.passOver
  cases invocation.opens with
  | true =>
    have warned : Effect c renames run (run.warn .disabled invocation.source
        ("directive \"".toList ++ name ++ '.' :: (invocation.name ++ "\" is blacklisted.".toList))) := .warn (by decide) _ _
    cases invocation.closes with
    | true => exact warned
    | false => exact warned.trans (.of_eq rfl rfl rfl)
  | false =>
    cases invocation.closes with
    | false => exact .refl run
    | true =>
      simp only [Bool.false_eq_true, if_false]
      split
      · rename_i before entry later found
        obtain ⟨row, _⟩ := Run.mem_of_lastNamed? found
        exact .endDirective (known entry (by rw [row]; simp)).1 _
      · exact .refl run

theorem Effect.obeyEnd (invocation : Invocation) : Effect c renames run (run.obeyEnd invocation) := by
  unfold Run.obeyEnd
  split
  · exact .warn (by decide) _ _
  · rename_i before entry later found
    obtain ⟨row, _⟩ := Run.mem_of_lastNamed? found
    obtain ⟨low, genuine⟩ := known entry (by rw [row]; simp)
    cases live : entry.control with
    | none =>
      simp only
      exact .endDirective low _
    | some control =>
      have left : Effect c renames run (run.call (control.leave invocation.source invocation)).2 :=
        .leave (genuine.control control live).1 _ _
      simp only
      split
      · exact left.trans (.endDirective low _)
      · exact left

theorem Effect.obey (options : Options) {invocation : Invocation} (source : invocation.source = c) :
    Effect c renames run (Run.obey (engine options).registry run invocation).2 := by
  unfold Run.obey
  split
  · exact .passOver known _ _
  · exact .warn (by decide) _ _
  · rename_i control found
    obtain ⟨member, _⟩ := of_lookup_eq_found found
    split
    · have completed : Effect c renames run (run.completes control invocation).2 := by
        unfold Run.completes
        split
        · rename_i itself
          -- A directive that is done within its own comment is no `rename`.
          have entered : Effect c renames run (run.call (control.enter invocation.source invocation)).2 := by
            rw [source]
            refine .enter member invocation fun named => ?_
            obtain rfl | rfl | rfl | rfl | rfl := control_cases member
            · cases itself
            · cases itself
            · cases itself
            · exact absurd named (by decide)
            · exact absurd named (by decide)
          simp only
          split
          · exact entered.trans (.leave member _ _)
          · exact entered
        · exact .refl run
      simp only
      split
      · exact completed
      · exact completed.trans (.of_eq rfl rfl rfl)
    · exact .obeyEnd known _

end

theorem Effect.modifyDeclaration (change : Declaration → Declaration) :
    Effect c renames run { run with scene := run.scene.modifyDeclaration c change } := by
  unfold Scene.modifyDeclaration Sheet.modifyDeclaration
  split
  · rename_i content
    exact .of_edit (.rewrite (by rw [Sheet.kind, content]; rfl) (by simp [Content.kind])) rfl rfl
  · exact .refl run

theorem Effect.obeyMarksFrom (source : Text) {rules : List (MarkRule State)}
    (known : ∀ rule ∈ rules, rule ∈ (plugin (.whole State)).marks) :
    Effect c renames run (Run.obeyMarksFrom c source rules run).2 := by
  induction rules generalizing run with
  | nil => exact .refl run
  | cons rule rest ih =>
    have others : ∀ other ∈ rest, other ∈ (plugin (.whole State)).marks :=
      fun other member => known other (List.mem_cons_of_mem _ member)
    have changes : ∀ name change?, Effect c renames run (run.call ((changing name change?).act c)).2 := by
      intro name change?
      simp only [Run.call, changing]
      split
      · exact .modifyDeclaration _
      · exact .refl run
    have acted : Effect c renames run (run.call (rule.act c)).2 := by
      have member := known rule List.mem_cons_self
      obtain rfl | rfl | rfl | rfl | rfl := mark_cases member
      · exact .refl run
      · exact changes _ _
      · exact changes _ _
      · exact changes _ _
      · exact changes _ _
    unfold Run.obeyMarksFrom
    split
    · simp only
      split
      · split
        · exact (acted.trans (.modifyDeclaration _)).trans (.of_eq rfl rfl rfl)
        · exact acted.trans (.of_eq rfl rfl rfl)
      · exact acted.trans (ih others)
    · exact ih others

theorem Effect.flipValue (options : Options) : Effect c renames run (Run.flipValue (engine options).registry run c) := by
  have obeyed : Effect c renames run (Run.obeyMarks (engine options).registry run c).2 := by
    unfold Run.obeyMarks
    split
    · exact .refl run
    · simp only
      split
      · refine .obeyMarksFrom _ ?_
        intro rule member
        simpa [Registry.marks, engine] using member
      · exact .refl run
  have flipped : ∀ run, Effect c renames run (Run.flipByRule (engine options).registry run c) := by
    intro run
    cases found : run.scene.sheet.declaration? c with
    | none =>
      unfold Run.flipByRule
      rw [found]
      exact .refl run
    | some decl =>
      have outcome : Run.flipByRule (engine options).registry run c = _ := flipByRule_eq (rfl : run.scene.options = _) found
      rw [outcome]
      split
      · exact .refl run
      · have content := Sheet.content_of_declaration? found
        exact .of_edit (.rewrite (by rw [Sheet.kind, content]; rfl) (by simp [Content.kind])) rfl rfl
  unfold Run.flipValue
  simp only
  split
  · exact obeyed
  · exact obeyed.trans (flipped _)

theorem Effect.flipParams : Effect c renames run (run.flipParams c) := by
  unfold Run.flipParams
  split
  · split
    · unfold Sheet.setParams
      split
      · rename_i content
        exact .of_edit (.rewrite (by rw [Sheet.kind, content]; rfl) (by simp [Content.kind])) rfl rfl
      · exact .of_eq rfl rfl rfl
    · exact .refl run
  · exact .refl run

def renameIsOpen (run : Run State) : Prop := ∃ entry ∈ run.stack, entry.invocation.name = "rename".toList ∧ entry.control ≠ none

/-- Every step of a visit but the last look at a declaration has such an effect. -/
theorem Standing.effect {sheet : Sheet} {later : List Nat} {moment : Moment State} (options : Options)
    (standing : Standing sheet c later moment) (other : moment.tasks.head? ≠ some (.rename c)) :
    Effect c (renameIsOpen moment.run) moment.run (moment.next (engine options).registry).run := by
  obtain ⟨stage, ⟨earlier, during⟩, _⟩ := standing
  have known : ∀ entry ∈ moment.run.stack, entry.invocation.source ≤ c ∧ Genuine entry :=
    fun entry member => ⟨Nat.le_of_lt_succ (during.stack entry member).1, (during.stack entry member).2⟩
  cases stage with
  | @asking kept entries kind claimed run row =>
    cases entries with
    | nil => exact .of_eq rfl rfl rfl
    | cons entry others =>
      have member : entry ∈ run.stack := by
        rw [row]
        simp
      obtain ⟨low, genuine⟩ := known entry member
      have asked : Effect c (renameIsOpen run) run (Run.ask c kind entry run).1 :=
        .ask kind genuine fun named live => ⟨entry, member, named, live⟩
      simp only [Moment.next, Run.Task.step]
      split
      · exact asked.trans (.endDirective low _)
      · exact asked
  | passing run =>
    simp only [Moment.next, Run.Task.step]
    split
    · split <;> exact .refl run
    · exact .of_eq rfl rfl rfl
    · exact .flipParams
    · exact .refl run
    · exact .refl run
  | obeying preserve consumed forms run =>
    cases forms with
    | nil =>
      simp only [Moment.next, Run.Task.step]
      split
      · exact .stripSource (Nat.le_refl c) preserve
      · exact .refl run
    | cons form others =>
      have obeyed : Effect c (renameIsOpen run) run (Run.obey (engine options).registry run (Run.invocationOf c preserve form)).2 :=
        .obey known options rfl
      simp only [Moment.next, Run.Task.step]
      split <;> exact obeyed
  | flipping run => exact .flipValue options
  | naming run => exact absurd rfl other

end
end Standard
end StyleFlip
