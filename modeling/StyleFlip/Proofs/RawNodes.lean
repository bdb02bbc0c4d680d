import StyleFlip.Proofs.Links
import StyleFlip.Proofs.Trail
import StyleFlip.Proofs.ValueMarks

/-!
Nodes that `raw` brings in. They are stored behind all others and are done with at once (`Linked.insertItemsBefore`). A step
of a visit writes, cuts off, warns about and remembers only the visited node, the node above it and what the run remembers
already (`touches_next`). So a region of nodes that are done with, and of which the run does not speak, is never reached again:
arrivals at its nodes are passed over, and steps elsewhere leave it as it is (`Sealed`). Whatever is open around it, what
`raw` brings in is such a region from the start (`raw_nodes_are_final`).
-/
namespace StyleFlip

namespace Sheet
open Item

/-! ## Items that come in -/

mutual
theorem snd_appendItem (sheet : Sheet) (above : Nat) :
    ∀ item, (sheet.appendItem above item).2 = List.range' sheet.size item.count
  | .node content spacing children => by
    have size := append_size sheet above content spacing
    have below : ((sheet.append above content spacing).1.appendItems sheet.size children).2 = _ :=
      snd_appendItems (by omega) children
    simp only [appendItem, append_snd, below, size, Item.count, List.range'_succ]

theorem snd_appendItems {sheet : Sheet} {above : Nat} (inside : above < sheet.size) :
    ∀ items, (sheet.appendItems above items).2 = List.range' sheet.size (countAll items)
  | [] => rfl
  | item :: rest => by
    have size : (sheet.appendItem above item).1.size = sheet.size + item.count := by
      simpa [countAll] using (appendItem_grown sheet above inside item).size
    have first := snd_appendItem sheet above item
    have later : ((sheet.appendItem above item).1.appendItems above rest).2 = _ := snd_appendItems (by omega) rest
    simp only [appendItems, first, later, size, countAll, List.range'_append_1]
end

/-- What a sheet is after one item came in before a node that stands under `above`: the item is stored behind all earlier nodes,
`above` has it right before the anchor, and the anchor stays where it is. -/
structure CameIn (sheet after : Sheet) (anchor above : Nat) (item : Item) : Prop where
  linked : after.Linked
  size : after.size = sheet.size + item.count
  stored : after.Stores (some above) sheet.size item
  anchored : after.parent anchor = some above
  placed : after.nodes[above]? =
    sheet.nodes[above]?.map fun node => { node with children := placeBefore anchor sheet.size node.children }

theorem Linked.insertItemsBefore_cons {sheet : Sheet} (linked : sheet.Linked) {anchor above : Nat}
    (attached : sheet.parent anchor = some above) (item : Item) :
    ∃ after, CameIn sheet after anchor above item ∧ ∀ rest, sheet.insertItemsBefore anchor (item :: rest) =
      ((after.insertItemsBefore anchor rest).1,
        List.range' sheet.size item.count ++ (after.insertItemsBefore anchor rest).2) := by
  obtain ⟨content, spacing, children⟩ := item
  cases inserted : sheet.insertBefore? anchor content spacing with
  | none =>
    rw [(linked.insertBefore?_eq_none_iff anchor content spacing).mp inserted] at attached
    cases attached
  | some found =>
    obtain ⟨middle, id⟩ := found
    obtain ⟨rfl, same, attachedTo, joins⟩ := joins_insertBefore? inserted
    obtain rfl : same = above := Option.some.inj (attachedTo.symm.trans attached)
    have size := joins.size
    have inner := joins.inside
    have grown := appendItems_grown middle sheet.size (by omega) children
    have listed : (middle.appendItems sheet.size children).2 = _ := snd_appendItems (by omega) children
    have known : anchor < sheet.size := lt_size_of_parent attached
    have nodes : middle.nodes[sheet.size]? = some { content, spacing, parent := some same } ∧ middle.nodes[same]? =
        sheet.nodes[same]?.map fun node => { node with children := placeBefore anchor sheet.size node.children } := by
      obtain ⟨_, parent, found, -, rfl⟩ := insertBefore?_eq_some inserted
      obtain rfl : parent = same := Option.some.inj (found.symm.trans attached)
      rw [getElem?_attach inner, getElem?_attach inner, if_pos rfl, if_neg (Nat.ne_of_lt inner), if_pos rfl]
      exact ⟨rfl, rfl⟩
    refine ⟨(middle.appendItems sheet.size children).1, ⟨?_, ?_, ⟨?_, ?_⟩, ?_, ?_⟩, ?_⟩
    · exact (linked.joins joins).extends (extends_appendItems (by omega) children)
    · rw [grown.size, size, Item.count]
      omega
    · rw [grown.extended, nodes.1, size]
      rfl
    · have below := grown.stored
      rwa [size] at below
    · have kept : (middle.appendItems sheet.size children).1.nodes[anchor]? = middle.nodes[anchor]? :=
        grown.others anchor (by omega) (by omega)
      rw [Sheet.parent, node_congr kept, ← Sheet.parent, joins.parent, if_neg (Nat.ne_of_lt known), attached]
    · rw [grown.others same (by omega) (by omega), nodes.2]
    · intro rest
      simp only [Sheet.insertItemsBefore, inserted, listed, size, Item.count, List.range'_succ]
      rfl

/-- Items that come in before a node that stands under a parent are stored one after the other, and all their nodes are
listed. -/
theorem Linked.insertItemsBefore {sheet : Sheet} (linked : sheet.Linked) {anchor above : Nat}
    (attached : sheet.parent anchor = some above) (items : List Item) :
    (sheet.insertItemsBefore anchor items).1.size = sheet.size + countAll items ∧
      (sheet.insertItemsBefore anchor items).1.StoresAll above sheet.size items ∧
      (sheet.insertItemsBefore anchor items).2 = List.range' sheet.size (countAll items) := by
  induction items generalizing sheet with
  | nil => exact ⟨rfl, trivial, rfl⟩
  | cons item rest ih =>
    obtain ⟨middle, first, onward⟩ := linked.insertItemsBefore_cons attached item
    obtain ⟨sizes, stored, numbers⟩ := ih first.linked first.anchored
    have size := first.size
    rw [onward, countAll]
    refine ⟨by rw [sizes]; omega, ⟨?_, ?_⟩, ?_⟩
    · refine first.stored.congr fun n low high => ?_
      have upper := linked.ascending anchor above attached
      have known := lt_size_of_parent attached
      have elsewhere : middle.parent anchor ≠ some n := by
        rw [first.anchored]
        rintro ⟨⟩
        omega
      exact getElem?_insertItemsBefore (by omega) elsewhere (by omega) rest
    · rwa [size] at stored
    · rw [numbers, size, List.range'_append_1]

/-! ## Changes from outside -/

theorem SameShape.linked {sheet other : Sheet} (shape : sheet.SameShape other) (linked : other.Linked) : sheet.Linked where
  inhabited := by
    rw [shape.size]
    exact linked.inhabited
  top := by
    rw [shape.parent]
    exact linked.top
  mem_children_iff := by
    intro n above
    rw [shape.parent, shape.children]
    exact linked.mem_children_iff n above
  nodup := by
    intro above
    rw [shape.children]
    exact linked.nodup above
  ascending := by
    intro n above
    rw [shape.parent]
    exact linked.ascending n above

/-- What may be done to a sheet while node `c` is visited, where only the nodes in `free` are written or cut off. -/
inductive Change (c : Nat) (free : Nat → Prop) (before : Sheet) : Sheet → Prop where
  | reword {n : Nat} (allowed : free n) (change : Content → Content) : Change c free before (before.modifyContent n change)
  | cut {n : Nat} (allowed : free n) : Change c free before (before.remove n)
  | graft (items : List Item) : Change c free before (before.insertItemsBefore c items).1

/-- Nodes with all that stands below them. -/
structure Region (zone : Nat → Prop) (sheet : Sheet) : Prop where
  inside : ∀ n, zone n → n < sheet.size
  below : ∀ n above : Nat, sheet.parent n = some above → zone above → zone n

section
variable {c : Nat} {free zone : Nat → Prop} {before after : Sheet}

theorem Change.size_le (change : Change c free before after) : before.size ≤ after.size := by
  cases change with
  | reword allowed change => exact Nat.le_of_eq (sameShape_modifyContent before _ change).size.symm
  | cut allowed => exact Nat.le_of_eq (size_remove before _).symm
  | graft items => exact (extends_insertItemsBefore before c items).preserves.size

theorem Linked.change (linked : before.Linked) (change : Change c free before after) : after.Linked := by
  cases change with
  | reword allowed change => exact (sameShape_modifyContent before _ change).linked linked
  | cut allowed => exact linked.remove _
  | graft items => exact linked.extends (extends_insertItemsBefore before c items)

/-- A region is left as it is where only nodes outside it are written or cut off, and nothing is put in before its nodes. -/
theorem Region.getElem?_change (region : Region zone before) (outside : ¬ zone c)
    (apart : ∀ n, free n → ¬ zone n) (change : Change c free before after) {n : Nat} (member : zone n) :
    after.nodes[n]? = before.nodes[n]? := by
  cases change with
  | @reword m allowed change =>
    have other : m ≠ n := fun same => apart m allowed (same ▸ member)
    rw [modifyContent, getElem?_modify, if_neg other]
  | @cut m allowed =>
    unfold remove
    split
    · rfl
    · rename_i above attached
      have other : m ≠ n := fun same => apart m allowed (same ▸ member)
      have elsewhere : above ≠ n := fun same => apart m allowed (region.below m n (same ▸ attached) member)
      simp only [getElem?_modify, if_neg other, if_neg elsewhere]
  | graft items =>
    cases attached : before.parent c with
    | none => rw [insertItemsBefore_of_detached attached]
    | some above =>
      have elsewhere : before.parent c ≠ some n := fun same => outside (region.below c n same member)
      exact getElem?_insertItemsBefore (region.inside n member) elsewhere (lt_size_of_parent attached) items

theorem Region.change (region : Region zone before) (linked : before.Linked) (outside : ¬ zone c)
    (apart : ∀ n, free n → ¬ zone n) (change : Change c free before after) : Region zone after where
  inside := fun n member => Nat.lt_of_lt_of_le (region.inside n member) change.size_le
  below := by
    intro n above attached member
    -- The children of a node of the region are those that it had.
    have listed : n ∈ after.children above := ((linked.change change).mem_children_iff n above).mpr attached
    have same := region.getElem?_change outside apart change member
    rw [Sheet.children, node_congr same] at listed
    exact region.below n above ((linked.mem_children_iff n above).mp listed) member

end

end Sheet

namespace Run
variable {σ : Type}

/-- What holds at a moment and is kept by arrivals and by every step of a visit holds from there on. -/
theorem courseAt_of_le {registry : Registry σ} {start : Run σ} {nodes : List NodeId} {motive : Moment σ → Prop}
    (visiting : ∀ {node : NodeId} {later : List NodeId} {moment : Moment σ}, Stage node (later.map .arrive) moment →
      motive moment → motive (moment.next registry))
    (arriving : ∀ {node : NodeId} {later : List NodeId} {run : Run σ}, motive ⟨.arrive node :: later.map .arrive, run⟩ →
      motive (Moment.next registry ⟨.arrive node :: later.map .arrive, run⟩))
    {first time : Nat} (holds : motive (courseAt registry start nodes first)) (order : first ≤ time) :
    motive (courseAt registry start nodes time) := by
  induction time, order using Nat.le_induction with
  | base => exact holds
  | succ time _ ih =>
    rw [courseAt]
    obtain ⟨later, between | ⟨node, stage⟩⟩ := exists_stage_courseAt registry start nodes time
    · generalize courseAt registry start nodes time = moment at between ih ⊢
      obtain ⟨tasks, run⟩ := moment
      obtain rfl : tasks = _ := between
      cases later with
      | nil => exact ih
      | cons node others => exact arriving ih
    · exact visiting stage ih

/-- In the middle of a visit the next task is about its node. -/
theorem Stage.exists_head {node : NodeId} {rest : List (Task σ)} {moment : Moment σ} (stage : Stage node rest moment) :
    ∃ task, moment.tasks.head? = some task ∧ task.node = node ∧ ∀ other, task ≠ .arrive other := by
  cases stage with
  | asking kind claimed row => exact ⟨_, rfl, rfl, fun _ => nofun⟩
  | passing run => exact ⟨_, rfl, rfl, fun _ => nofun⟩
  | obeying preserve consumed forms run => exact ⟨_, rfl, rfl, fun _ => nofun⟩
  | flipping run => exact ⟨_, rfl, rfl, fun _ => nofun⟩
  | naming run => exact ⟨_, rfl, rfl, fun _ => nofun⟩

/-- A visit is under way only before the end of a run. -/
theorem lt_of_stage {registry : Registry σ} {start : Run σ} {nodes rest : List NodeId} {node : NodeId} {time final : Nat}
    (stage : Stage node (rest.map .arrive) (courseAt registry start nodes time))
    (ended : (courseAt registry start nodes final).tasks = []) : time < final := by
  by_contra early
  have still : (courseAt registry start nodes time).tasks = [] := by
    refine courseAt_of_le (motive := fun moment => moment.tasks = []) ?_ nofun ended (Nat.le_of_not_lt early)
    intro node later moment stage cleared
    cases stage <;> cases cleared
  obtain ⟨task, first, _⟩ := stage.exists_head
  rw [still] at first
  cases first

end Run

namespace Standard
open Run (Moment Stage)

/-! ## What a step touches -/

/-- What a step may do while node `c` is visited, where only the nodes in `free` are written, cut off, warned about or
remembered, and declarations are counted only if `counts` holds. -/
structure Touches (c : Nat) (free : Nat → Prop) (counts : Prop) (before after : Run State) : Prop where
  sheet : Relation.ReflTransGen (Sheet.Change c free) before.scene.sheet after.scene.sheet
  handled : before.scene.handled ⊆ after.scene.handled
  stack : ∀ entry ∈ after.stack, entry ∈ before.stack ∨ free entry.invocation.source ∧ Genuine entry
  pending : ∀ waiting ∈ after.pending, waiting ∈ before.pending ∨ free waiting.2
  warnings : ∀ warning ∈ after.scene.warnings, warning ∈ before.scene.warnings ∨ free warning.node
  flips : after.flips = before.flips ∨ counts

section
variable {c : Nat} {free : Nat → Prop} {counts : Prop} {run : Run State}

theorem Touches.refl (run : Run State) : Touches c free counts run run :=
  ⟨.refl, List.Subset.refl _, fun _ => .inl, fun _ => .inl, fun _ => .inl, .inl rfl⟩

theorem Touches.trans {first second third : Run State} (one : Touches c free counts first second)
    (two : Touches c free counts second third) : Touches c free counts first third where
  sheet := one.sheet.trans two.sheet
  handled := List.Subset.trans one.handled two.handled
  stack := fun entry member => (two.stack entry member).elim (one.stack entry) .inr
  pending := fun waiting member => (two.pending waiting member).elim (one.pending waiting) .inr
  warnings := fun warning member => (two.warnings warning member).elim (one.warnings warning) .inr
  flips := two.flips.elim (fun same => same ▸ one.flips) .inr

/-- What the directives keep, the options and the count since the last rule may change, and so may the sheet. -/
theorem Touches.of_change {before after : Run State}
    (sheet : Relation.ReflTransGen (Sheet.Change c free) before.scene.sheet after.scene.sheet)
    (handled : before.scene.handled ⊆ after.scene.handled) (stack : after.stack ⊆ before.stack)
    (pending : after.pending = before.pending) (warnings : after.scene.warnings = before.scene.warnings)
    (flips : after.flips = before.flips ∨ counts) : Touches c free counts before after :=
  ⟨sheet, handled, fun _ member => .inl (stack member), fun _ member => .inl (pending ▸ member),
    fun _ member => .inl (warnings ▸ member), flips⟩

theorem Touches.setSheet {sheet : Sheet} (change : Sheet.Change c free run.scene.sheet sheet) :
    Touches c free counts run (run.setSheet sheet) :=
  .of_change (.single change) (List.Subset.refl _) (List.Subset.refl _) rfl rfl (.inl rfl)

theorem Touches.setScene {store : State} {options : Options} {map : StringMap} :
    Touches c free counts run { run with store := store, scene := { run.scene with options := options, map := map } } :=
  .of_change .refl (List.Subset.refl _) (List.Subset.refl _) rfl rfl (.inl rfl)

theorem Touches.setStore {store : State} : Touches c free counts run { run with store := store } :=
  .of_change .refl (List.Subset.refl _) (List.Subset.refl _) rfl rfl (.inl rfl)

theorem Touches.keepOpen {stack : List (OpenDirective State)} (fewer : stack ⊆ run.stack) :
    Touches c free counts run { run with stack := stack } :=
  .of_change .refl (List.Subset.refl _) fewer rfl rfl (.inl rfl)

theorem Touches.open {entry : OpenDirective State} (source : free entry.invocation.source) (genuine : Genuine entry) :
    Touches c free counts run { run with stack := run.stack ++ [entry] } where
  sheet := .refl
  handled := List.Subset.refl _
  stack := by
    intro other member
    rcases List.mem_append.mp member with old | new
    · exact .inl old
    · rw [List.mem_singleton.mp new]
      exact .inr ⟨source, genuine⟩
  pending := fun _ => .inl
  warnings := fun _ => .inl
  flips := .inl rfl

theorem Touches.warn {node : Nat} (allowed : free node) (kind : WarningKind) (message : Text) :
    Touches c free counts run (run.warn kind node message) where
  sheet := .refl
  handled := List.Subset.refl _
  stack := fun _ => .inl
  pending := fun _ => .inl
  warnings := by
    intro warning member
    rcases List.mem_append.mp member with old | new
    · exact .inl old
    · rw [List.mem_singleton.mp new]
      exact .inr allowed
  flips := .inl rfl

theorem Touches.adopt {node : Nat} (allowed : free node) (options : Options) {store : State} :
    Touches c free counts run
      { run with store := store, scene := (run.scene.adopt? options).getD (warnOptions run.scene node) } := by
  unfold Scene.adopt?
  split
  · exact .trans .setStore (.warn allowed _ _)
  · exact .setScene

theorem Touches.enter (own : free c) {control : Control State} (member : control ∈ (plugin (.whole State)).controls)
    (invocation : Invocation) : Touches c free counts run (run.call (control.enter c invocation)).2 := by
  obtain rfl | rfl | rfl | rfl | rfl := control_cases member
  · exact .setStore
  · change Touches c free counts run (run.call (enterRename c invocation)).2
    simp only [Run.call, enterRename]
    split
    · refine .setSheet ?_
      rw [Sheet.setSelector_eq_modifyContent]
      exact .reword own _
    · exact .refl run
  · exact .setSheet (.cut own)
  · change Touches c free counts run (run.call (enterRaw c invocation)).2
    obtain ⟨_, _, _, listed, same⟩ | ⟨_, _, _, same⟩ := enterRaw_cases c invocation run.store run.scene <;>
      simp only [Run.call, same]
    · exact .of_change (.single (.graft _)) (fun n old => (listed n).mpr (.inl old)) (List.Subset.refl _) rfl rfl (.inl rfl)
    · exact .warn own _ _
  · change Touches c free counts run (run.call (enterOptions (.whole State) c invocation)).2
    simp only [Run.call, enterOptions]
    cases Options.ofText .json invocation.argument with
    | ok replacing => exact .adopt own replacing
    | error => exact .trans .setStore (.warn own _ _)

theorem Touches.leave {node : Nat} (allowed : free node) {control : Control State}
    (member : control ∈ (plugin (.whole State)).controls) (invocation : Invocation) :
    Touches c free counts run (run.call (control.leave node invocation)).2 := by
  obtain rfl | rfl | rfl | rfl | rfl := control_cases member
  · change Touches c free counts run (run.call (leaveIgnore (.whole State) node invocation)).2
    simp only [Run.call, leaveIgnore]
    split <;> exact .setStore
  · exact .refl run
  · exact .refl run
  · exact .refl run
  · change Touches c free counts run (run.call (leaveOptions (.whole State) node invocation)).2
    simp only [Run.call, leaveOptions]
    split
    · exact .refl run
    · split
      · exact .setStore
      · exact .adopt allowed _

theorem Touches.ask (own : free c) (kind : Kind) {entry : OpenDirective State} (genuine : Genuine entry) :
    Touches c free counts run (Run.ask c kind entry run).1 := by
  unfold Run.ask
  split
  · exact .refl run
  · rename_i control live
    have member := (genuine.control control live).1
    simp only
    split
    · split
      · exact .trans (.enter own member _) (.leave own member _)
      · exact .enter own member _
    · exact .refl run

theorem Touches.stripSource {source : Nat} (allowed : free source) (preserve : Bool) :
    Touches c free counts run (run.stripSource source preserve) := by
  unfold Run.stripSource
  split
  · exact .refl run
  · exact .setSheet (.cut allowed)

theorem Touches.endDirective {entry : OpenDirective State} (allowed : free entry.invocation.source)
    {stack : List (OpenDirective State)} (fewer : stack ⊆ run.stack) :
    Touches c free counts run (run.endDirective entry stack) :=
  .trans (.keepOpen fewer) (.stripSource allowed _)

/-- The innermost directive of a name is open, and so are those that stay when it is closed. -/
theorem subset_of_lastNamed? {name : Text} {stack before later : List (OpenDirective State)} {entry : OpenDirective State}
    (found : Run.lastNamed? name stack = some (before, entry, later)) : entry ∈ stack ∧ before ++ later ⊆ stack := by
  obtain ⟨row, _⟩ := Run.mem_of_lastNamed? found
  rw [row]
  exact ⟨by simp, ((List.sublist_cons_self entry later).append_left before).subset⟩

section
variable (known : ∀ entry ∈ run.stack, free entry.invocation.source ∧ Genuine entry) {invocation : Invocation}
  (own : free invocation.source)
include known own

theorem Touches.passOver (name : Text) : Touches c free counts run (run.passOver name invocation) := by
  unfold Run.passOver
  cases opens : invocation.opens with
  | true =>
    cases invocation.closes with
    | true => exact .warn own _ _
    | false => exact .trans (.warn own _ _) (.open own ⟨opens, fun _ live => nomatch live⟩)
  | false =>
    cases invocation.closes with
    | false => exact .refl run
    | true =>
      simp only [Bool.false_eq_true, if_false]
      split
      · rename_i before entry later found
        obtain ⟨member, fewer⟩ := subset_of_lastNamed? found
        exact .endDirective (known entry member).1 fewer
      · exact .refl run

theorem Touches.obeyEnd : Touches c free counts run (run.obeyEnd invocation) := by
  unfold Run.obeyEnd
  split
  · exact .warn own _ _
  · rename_i before entry later found
    obtain ⟨member, fewer⟩ := subset_of_lastNamed? found
    obtain ⟨source, genuine⟩ := known entry member
    cases live : entry.control with
    | none => exact .endDirective source fewer
    | some control =>
      have left : Touches c free counts run (run.call (control.leave invocation.source invocation)).2 :=
        .leave own (genuine.control control live).1 _
      simp only
      split
      · exact left.trans (.endDirective source fewer)
      · exact left

theorem Touches.obey (options : Options) :
    Touches invocation.source free counts run (Run.obey (engine options).registry run invocation).2 := by
  unfold Run.obey
  split
  · have same : free { invocation with disabled := true }.source := own
    exact .passOver known same _
  · exact .warn own _ _
  · rename_i control found
    obtain ⟨member, named⟩ := of_lookup_eq_found found
    split
    · rename_i opens
      have completed : Touches invocation.source free counts run (run.completes control invocation).2 := by
        unfold Run.completes
        split
        · simp only
          split
          · exact .trans (.enter own member _) (.leave own member _)
          · exact .enter own member _
        · exact .refl run
      simp only
      split
      · exact completed
      · refine completed.trans (.open own ⟨opens, ?_⟩)
        rintro _ ⟨⟩
        exact ⟨member, named⟩
    · exact .obeyEnd known own

end

theorem Touches.flipValue (options : Options) (own : free c) (counted : counts) :
    Touches c free counts run (Run.flipValue (engine options).registry run c) := by
  cases found : run.scene.sheet.declaration? c with
  | none =>
    simp only [Run.flipValue, Run.obeyMarks, Run.flipByRule, found, Bool.false_eq_true, if_false]
    exact .refl run
  | some decl =>
    obtain ⟨written, acts⟩ := exists_flipValue_eq run.scene.options decl
    have flipped : Run.flipValue (engine options).registry run c = _ := acts run c rfl (Sheet.content_of_declaration? found)
    rw [flipped]
    split
    · exact .of_change (.single (.reword own fun _ => .declaration written)) (List.Subset.refl _) (List.Subset.refl _) rfl rfl
        (.inr counted)
    · exact .refl run

theorem Touches.flipParams (own : free c) : Touches c free counts run (run.flipParams c) := by
  unfold Run.flipParams
  split
  · split
    · unfold Sheet.setParams
      split
      · exact .setSheet (.reword own fun _ => _)
      · exact .refl run
    · exact .refl run
  · exact .refl run

theorem Touches.renameAround (around : ∀ above, run.scene.sheet.parent c = some above → free above)
    (waiting : ∀ rule ∈ run.pending, free rule.2) : Touches c free counts run (run.renameAround c) := by
  have reword : ∀ (sheet : Sheet) {n : Nat} (selector : Text), free n →
      Sheet.Change c free sheet (sheet.setSelector n selector) := by
    intro sheet n selector allowed
    rw [Sheet.setSelector_eq_modifyContent]
    exact .reword allowed _
  unfold Run.renameAround
  split
  · exact .refl run
  · split
    · exact .refl run
    · rename_i above attached
      have allowed := around above attached
      split
      · exact .refl run
      · rename_i selector _
        split
        · unfold Run.renameRule
          simp only
          split
          · split
            · rename_i pair found
              have paired := waiting _ (List.mem_of_find?_eq_some found)
              exact {
                sheet := .tail (.single (reword _ selector paired)) (reword _ _ allowed)
                handled := List.Subset.refl _
                stack := fun _ => .inl
                pending := fun _ member => .inl (List.mem_of_mem_eraseP member)
                warnings := fun _ => .inl
                flips := .inl rfl }
            · refine ⟨.refl, List.Subset.refl _, fun _ => .inl, ?_, fun _ => .inl, .inl rfl⟩
              intro rule member
              rcases List.mem_append.mp member with old | new
              · exact .inl old
              · rw [List.mem_singleton.mp new]
                exact .inr allowed
          · split
            · exact .refl run
            · exact .setSheet (reword _ _ allowed)
        · exact .refl run

/-- Every step of a visit touches only the visited node, the node above it and what the run has remembered, and counts a
declaration only when it comes to flip it. -/
theorem touches_next (options : Options) {rest : List (Run.Task State)} {moment : Moment State}
    (stage : Stage c rest moment) (own : free c)
    (around : ∀ above, moment.run.scene.sheet.parent c = some above → free above)
    (known : ∀ entry ∈ moment.run.stack, free entry.invocation.source ∧ Genuine entry)
    (waiting : ∀ rule ∈ moment.run.pending, free rule.2) :
    Touches c free (moment.tasks.head? = some (.flip c)) moment.run (moment.next (engine options).registry).run := by
  cases stage with
  | @asking kept entries kind claimed run row =>
    cases entries with
    | nil =>
      refine .keepOpen ?_
      rw [row, List.append_nil]
      exact List.Subset.refl _
    | cons entry others =>
      obtain ⟨source, genuine⟩ := known entry (by rw [row]; simp)
      simp only [Moment.next, Run.Task.step]
      split
      · refine .trans (.ask own kind genuine) (.endDirective source ?_)
        rw [Run.stack_ask, row]
        exact ((List.sublist_cons_self entry others).append_left kept).subset
      · exact .ask own kind genuine
  | passing run =>
    simp only [Moment.next, Run.Task.step]
    split
    · split <;> exact .refl run
    · exact .of_change .refl (List.Subset.refl _) (List.Subset.refl _) rfl rfl (.inl rfl)
    · exact .flipParams own
    · exact .refl run
    · exact .refl run
  | obeying preserve consumed forms run =>
    cases forms with
    | nil =>
      simp only [Moment.next, Run.Task.step]
      split
      · exact .stripSource own _
      · exact .refl run
    | cons form others =>
      have source : free (Run.invocationOf c preserve form).source := own
      rw [Run.run_next_obey]
      exact .obey known source options
  | flipping run => exact .flipValue options own rfl
  | naming run => exact .renameAround around waiting

end

/-! ## Nodes that are there -/

theorem linked_of_changes {c : Nat} {free : Nat → Prop} {before after : Sheet} (linked : before.Linked)
    (changes : Relation.ReflTransGen (Sheet.Change c free) before after) : after.Linked ∧ before.size ≤ after.size := by
  induction changes with
  | refl => exact ⟨linked, Nat.le_refl _⟩
  | tail _ change ih => exact ⟨ih.1.change change, Nat.le_trans ih.2 change.size_le⟩

/-- A task that may do something is about a node that is there. -/
def Grounded (sheet : Sheet) : Run.Task State → Prop
  | .arrive _ => True
  | .ask node kind _ _ _ => kind = .root ∨ node < sheet.size
  | .transform _ => True
  | .obey source _ _ _ => source < sheet.size
  | .flip node => node < sheet.size
  | .rename node => node < sheet.size

/-- All that a run speaks of is in its sheet. -/
structure Bound (moment : Moment State) : Prop where
  linked : moment.run.scene.sheet.Linked
  stack : ∀ entry ∈ moment.run.stack, entry.invocation.source < moment.run.scene.sheet.size ∧ Genuine entry
  pending : ∀ rule ∈ moment.run.pending, rule.2 < moment.run.scene.sheet.size
  warnings : ∀ warning ∈ moment.run.scene.warnings, warning.node < moment.run.scene.sheet.size
  task : ∀ task, moment.tasks.head? = some task → Grounded moment.run.scene.sheet task

theorem task_of_arrivals {later : List NodeId} {task : Run.Task State}
    (first : (later.map Run.Task.arrive).head? = some task) : ∃ node, task = .arrive node := by
  cases later with
  | nil => cases first
  | cons node others =>
    cases first
    exact ⟨node, rfl⟩

theorem grounded_of_arrivals {sheet : Sheet} {later : List NodeId} {task : Run.Task State}
    (first : (later.map Run.Task.arrive).head? = some task) : Grounded sheet task := by
  obtain ⟨_, rfl⟩ := task_of_arrivals first
  trivial

theorem kind_of_size_le {sheet : Sheet} {n : Nat} (high : sheet.size ≤ n) : sheet.kind n = .root := by
  by_contra other
  refine absurd (Sheet.lt_size_of_content_ne fun content => other ?_) (Nat.not_lt.mpr high)
  rw [Sheet.kind, content]
  rfl

section
variable {c : Nat} {later : List NodeId} {moment : Moment State}

theorem grounded_of_stage {rest : List (Run.Task State)} (stage : Stage c rest moment) {sheet : Sheet}
    (inside : c < sheet.size) {task : Run.Task State} (first : moment.tasks.head? = some task) : Grounded sheet task := by
  cases stage with
  | asking kind claimed row =>
    cases first
    exact .inr inside
  | passing run =>
    cases first
    trivial
  | obeying preserve consumed forms run =>
    cases first
    exact inside
  | flipping run =>
    cases first
    exact inside
  | naming run =>
    cases first
    exact inside

/-- A step of a visit touches only nodes that are there, and so does the next one. -/
theorem Bound.touches (options : Options) (bound : Bound moment) (stage : Stage c (later.map .arrive) moment) :
    let next := moment.next (engine options).registry
    Touches c (· < moment.run.scene.sheet.size) (moment.tasks.head? = some (.flip c)) moment.run next.run ∧
      ∀ task, next.tasks.head? = some task → Grounded next.run.scene.sheet task := by
  intro next
  by_cases inside : c < moment.run.scene.sheet.size
  · have touches := touches_next options stage inside
      (fun above attached => Nat.lt_trans (bound.linked.ascending c above attached) inside) bound.stack bound.pending
    refine ⟨touches, fun task first => ?_⟩
    have still := Nat.lt_of_lt_of_le inside (linked_of_changes bound.linked touches.sheet).2
    rcases stage.next with onward | left
    · exact grounded_of_stage onward still first
    · exact grounded_of_arrivals (left ▸ first)
  · -- A node that is not there reads as a root, and nothing happens to it.
    have grounded := bound.task
    cases stage with
    | @asking kept entries kind claimed run row =>
      cases entries with
      | nil =>
        refine ⟨.keepOpen (by rw [row, List.append_nil]; exact List.Subset.refl _), fun task first => ?_⟩
        cases claimed with
        | true => exact grounded_of_arrivals first
        | false =>
          cases first
          trivial
      | cons entry others =>
        obtain rfl : kind = .root := (grounded _ rfl).resolve_right inside
        have unasked : Run.ask c .root entry run = (run, false, false) := by
          refine Run.ask_of_not_accepts (fun control live => ?_) c run
          have member := ((bound.stack entry (by rw [row]; simp)).2.control control live).1
          obtain rfl | rfl | rfl | rfl | rfl := control_cases member <;> rfl
        have same : next = ⟨.ask c .root (kept ++ [entry]) (claimed || false) others :: later.map .arrive, run⟩ := by
          simp only [next, Moment.next, Run.Task.step, unasked, Bool.false_eq_true, if_false, List.cons_append,
            List.nil_append]
        rw [same]
        refine ⟨.refl run, fun task first => ?_⟩
        cases first
        exact .inl rfl
    | passing run =>
      have same : next = ⟨later.map .arrive, run⟩ := by
        simp only [next, Moment.next, Run.Task.step, kind_of_size_le (Nat.le_of_not_lt inside), List.nil_append]
      rw [same]
      exact ⟨.refl run, fun task => grounded_of_arrivals⟩
    | obeying preserve consumed forms run => exact absurd (grounded _ rfl) inside
    | flipping run => exact absurd (grounded _ rfl) inside
    | naming run => exact absurd (grounded _ rfl) inside

theorem Bound.next (options : Options) (bound : Bound moment) (stage : Stage c (later.map .arrive) moment) :
    Bound (moment.next (engine options).registry) := by
  obtain ⟨touches, grounded⟩ := bound.touches options stage
  obtain ⟨linked, grown⟩ := linked_of_changes bound.linked touches.sheet
  refine ⟨linked, ?_, ?_, ?_, grounded⟩
  · intro entry member
    rcases touches.stack entry member with old | ⟨source, genuine⟩
    · exact ⟨Nat.lt_of_lt_of_le (bound.stack entry old).1 grown, (bound.stack entry old).2⟩
    · exact ⟨Nat.lt_of_lt_of_le source grown, genuine⟩
  · intro rule member
    exact Nat.lt_of_lt_of_le ((touches.pending rule member).elim (bound.pending rule) id) grown
  · intro warning member
    exact Nat.lt_of_lt_of_le ((touches.warnings warning member).elim (bound.warnings warning) id) grown

end

/-- On arrival a run goes on to another node, or asks about one that is there. -/
theorem Bound.arrive (options : Options) {node : NodeId} {later : List NodeId} {run : Run State}
    (bound : Bound ⟨.arrive node :: later.map .arrive, run⟩) :
    Bound (Moment.next (engine options).registry ⟨.arrive node :: later.map .arrive, run⟩) := by
  rw [Run.next_arrive]
  split
  · exact { bound with task := fun _ => grounded_of_arrivals }
  · refine ⟨bound.linked, bound.stack, bound.pending, bound.warnings, fun task first => ?_⟩
    cases first
    rcases Nat.lt_or_ge node run.scene.sheet.size with inside | high
    · exact .inr inside
    · exact .inl (kind_of_size_le high)

theorem bound_momentAt (options : Options) {sheet : Sheet} (linked : sheet.Linked) (time : Nat) :
    Bound ((engine options).momentAt sheet time) := by
  refine Run.courseAt_of_le (fun stage bound => bound.next options stage) (fun bound => bound.arrive options) ?_
    (Nat.zero_le time)
  exact ⟨linked, nofun, nofun, nofun, fun _ => grounded_of_arrivals⟩

/-! ## Nodes that nothing reaches -/

/-- A region whose nodes are done with, are as they were in `frozen`, and are not what the run speaks of. -/
structure Sealed (zone : Nat → Prop) (frozen : Sheet) (moment : Moment State) : Prop where
  region : Sheet.Region zone moment.run.scene.sheet
  kept : ∀ n, zone n → moment.run.scene.sheet.nodes[n]? = frozen.nodes[n]?
  handled : ∀ n, zone n → n ∈ moment.run.scene.handled
  stack : ∀ entry ∈ moment.run.stack, ¬ zone entry.invocation.source
  pending : ∀ rule ∈ moment.run.pending, ¬ zone rule.2
  warnings : ∀ warning ∈ moment.run.scene.warnings, ¬ zone warning.node
  task : ∀ task, moment.tasks.head? = some task → (∃ node, task = .arrive node) ∨ ¬ zone task.node

section
variable {zone : Nat → Prop} {frozen : Sheet}

/-- What a step does to other nodes leaves the region as it is. -/
theorem Sealed.touched {c : Nat} {counts : Prop} {moment next : Moment State} (region : Sealed zone frozen moment)
    (linked : moment.run.scene.sheet.Linked) (outside : ¬ zone c) (touches : Touches c (¬ zone ·) counts moment.run next.run)
    (task : ∀ task, next.tasks.head? = some task → (∃ node, task = .arrive node) ∨ ¬ zone task.node) :
    Sealed zone frozen next := by
  have changed : ∀ {after : Sheet}, Relation.ReflTransGen (Sheet.Change c (¬ zone ·)) moment.run.scene.sheet after →
      after.Linked ∧ Sheet.Region zone after ∧ ∀ n, zone n → after.nodes[n]? = frozen.nodes[n]? := by
    intro after changes
    induction changes with
    | refl => exact ⟨linked, region.region, region.kept⟩
    | tail _ change ih =>
      obtain ⟨linked, closed, kept⟩ := ih
      refine ⟨linked.change change, closed.change linked outside (fun _ => id) change, fun n member => ?_⟩
      rw [closed.getElem?_change outside (fun _ => id) change member, kept n member]
  obtain ⟨_, closed, kept⟩ := changed touches.sheet
  refine ⟨closed, kept, fun n member => touches.handled (region.handled n member), ?_, ?_, ?_, task⟩
  · exact fun entry member => (touches.stack entry member).elim (region.stack entry) And.left
  · exact fun rule member => (touches.pending rule member).elim (region.pending rule) id
  · exact fun warning member => (touches.warnings warning member).elim (region.warnings warning) id

/-- A visit to another node does not reach the region. -/
theorem Sealed.next (options : Options) {c : Nat} {later : List NodeId} {moment : Moment State}
    (region : Sealed zone frozen moment) (bound : Bound moment) (stage : Stage c (later.map .arrive) moment) :
    Sealed zone frozen (moment.next (engine options).registry) := by
  have outside : ¬ zone c := by
    obtain ⟨task, first, rfl, visits⟩ := stage.exists_head
    rcases region.task task first with ⟨node, arrives⟩ | outside
    · exact absurd arrives (visits node)
    · exact outside
  have touches : Touches c (¬ zone ·) _ moment.run (moment.next (engine options).registry).run :=
    touches_next options stage outside (fun above attached within => outside (region.region.below c above attached within))
    (fun entry member => ⟨region.stack entry member, (bound.stack entry member).2⟩) region.pending
  refine region.touched bound.linked outside touches fun task first => ?_
  rcases stage.next with onward | left
  · obtain ⟨_, same, rfl, _⟩ := onward.exists_head
    obtain rfl := Option.some.inj (same.symm.trans first)
    exact .inr outside
  · exact .inl (task_of_arrivals (left ▸ first))

/-- The nodes of the region are done with, so an arrival at one of them is passed over. -/
theorem Sealed.arrive (options : Options) {node : NodeId} {later : List NodeId} {run : Run State}
    (region : Sealed zone frozen ⟨.arrive node :: later.map .arrive, run⟩) :
    Sealed zone frozen (Moment.next (engine options).registry ⟨.arrive node :: later.map .arrive, run⟩) := by
  rw [Run.next_arrive]
  split
  · exact { region with task := fun _ first => .inl (task_of_arrivals first) }
  · rename_i known
    refine { region with
      handled := fun n member => List.mem_cons_of_mem _ (region.handled n member)
      task := fun task first => ?_ }
    cases first
    exact .inr fun within => known (region.handled node within)

end

/-! ## What `raw` brings in -/

/-- A form that opens `raw` does what `raw` does on being entered; nothing else about the scene changes. -/
theorem obey_raw {run : Run State} (enabled : run.scene.options.disables pluginName "raw".toList = false)
    {invocation : Invocation} (named : invocation.name = "raw".toList) (opens : invocation.opens = true) (options : Options) :
    (Run.obey (engine options).registry run invocation).2.scene =
        (enterRaw invocation.source invocation run.store run.scene).2.2 ∧
      (Run.obey (engine options).registry run invocation).2.flips = run.flips := by
  have found : (engine options).registry.lookup run.scene.options invocation.name = .found raw := by
    rw [named, lookup_of_enabled enabled]
    rfl
  have claims : (enterRaw invocation.source invocation run.store run.scene).1 = true := by
    unfold enterRaw
    split <;> rfl
  have completed : run.completes raw invocation = (invocation.closes,
      { run with
        store := (enterRaw invocation.source invocation run.store run.scene).2.1
        scene := (enterRaw invocation.source invocation run.store run.scene).2.2 }) := by
    simp only [Run.completes, raw, Interest.isSelfClosing, if_true, Run.call, claims, Bool.true_and]
    cases invocation.closes <;> rfl
  simp only [Run.obey, found, opens, if_true, completed]
  cases invocation.closes <;> exact ⟨rfl, rfl⟩

/-- Nodes that come in at a step and are done with at once are sealed. -/
theorem Bound.sealed (options : Options) {c : Nat} {later : List NodeId} {moment : Moment State} (bound : Bound moment)
    (stage : Stage c (later.map .arrive) moment) (inside : c < moment.run.scene.sheet.size)
    (handled : ∀ n : Nat, moment.run.scene.sheet.size ≤ n → n < (moment.next (engine options).registry).run.scene.sheet.size →
      n ∈ (moment.next (engine options).registry).run.scene.handled) :
    Sealed (fun n => moment.run.scene.sheet.size ≤ n ∧ n < (moment.next (engine options).registry).run.scene.sheet.size)
      (moment.next (engine options).registry).run.scene.sheet (moment.next (engine options).registry) := by
  have low : ∀ {n : Nat} {high : Nat}, n < moment.run.scene.sheet.size → ¬ (moment.run.scene.sheet.size ≤ n ∧ n < high) :=
    fun early within => absurd early (Nat.not_lt.mpr within.1)
  obtain ⟨touches, _⟩ := bound.touches options stage
  have onward := bound.next options stage
  refine ⟨⟨fun n within => within.2, ?_⟩, fun _ _ => rfl, fun n within => handled n within.1 within.2, ?_, ?_, ?_, ?_⟩
  · intro n above attached within
    have ahead := onward.linked.ascending n above attached
    exact ⟨Nat.le_of_lt (Nat.lt_of_le_of_lt within.1 ahead), Sheet.lt_size_of_parent attached⟩
  · intro entry member
    exact low ((touches.stack entry member).elim (fun old => (bound.stack entry old).1) And.left)
  · intro rule member
    exact low ((touches.pending rule member).elim (bound.pending rule) id)
  · intro warning member
    exact low ((touches.warnings warning member).elim (bound.warnings warning) id)
  · intro task first
    rcases stage.next with still | left
    · obtain ⟨_, same, about, _⟩ := still.exists_head
      obtain rfl := Option.some.inj (same.symm.trans first)
      exact .inr (low (about ▸ inside))
    · exact .inl (task_of_arrivals (left ▸ first))

/-- Nodes that come in at some step and are done with at once stay sealed to the end of the run. -/
theorem sealed_momentAt (options : Options) {sheet : Sheet} (linked : sheet.Linked) {time c : Nat}
    {rest : List NodeId} (stage : Stage c (rest.map .arrive) ((engine options).momentAt sheet time))
    (inside : c < ((engine options).momentAt sheet time).run.scene.sheet.size)
    (handled : ∀ n : Nat, ((engine options).momentAt sheet time).run.scene.sheet.size ≤ n →
      n < ((engine options).momentAt sheet (time + 1)).run.scene.sheet.size →
      n ∈ ((engine options).momentAt sheet (time + 1)).run.scene.handled) (later : Nat) (behind : time < later) :
    Sealed (fun n => ((engine options).momentAt sheet time).run.scene.sheet.size ≤ n ∧
        n < ((engine options).momentAt sheet (time + 1)).run.scene.sheet.size)
      ((engine options).momentAt sheet (time + 1)).run.scene.sheet ((engine options).momentAt sheet later) := by
  have bound := bound_momentAt options linked time
  have first := And.intro (bound_momentAt options linked (time + 1)) (bound.sealed options stage inside handled)
  exact (Run.courseAt_of_le (motive := fun moment => Bound moment ∧ Sealed _ _ moment)
    (fun stage now => ⟨now.1.next options stage, now.2.next options now.1 stage⟩)
    (fun now => ⟨now.1.arrive options, now.2.arrive options⟩) first behind).2

theorem exists_stage_of_form (options : Options) {sheet : Sheet} (linked : sheet.Linked) {time : Nat}
    {invocation : Invocation} (form : ((engine options).momentAt sheet time).invocations.head? = some invocation) :
    ∃ rest : List NodeId, Stage invocation.source (rest.map .arrive) ((engine options).momentAt sheet time) ∧
      invocation.source < ((engine options).momentAt sheet time).run.scene.sheet.size := by
  obtain ⟨others, invoked⟩ := List.head?_eq_some_iff.mp form
  obtain ⟨consumed, first, forms, rest, _, _, here⟩ := Run.exists_obey_of_invocations invoked
  refine ⟨rest, ?_, ?_⟩
  · rw [Engine.momentAt, here]
    exact .obeying _ _ _ _
  · exact (bound_momentAt options linked time).task _ (by rw [Engine.momentAt, here]; rfl)

/-- No step but an arrival is about a node of the region. -/
theorem Sealed.node_ne {zone : Nat → Prop} {frozen : Sheet} {moment : Moment State} (region : Sealed zone frozen moment)
    {n : Nat} (inside : zone n) {task : Run.Task State} (first : moment.tasks.head? = some task) :
    (∃ node, task = .arrive node) ∨ task.node ≠ n :=
  (region.task task first).imp_right fun outside same => outside (same ▸ inside)

/-- The report speaks of no node of the region. -/
theorem Sealed.report {zone : Nat → Prop} {frozen : Sheet} {moment : Moment State} (region : Sealed zone frozen moment) :
    ∀ warning ∈ moment.run.report.warnings, ¬ zone warning.node := by
  intro warning member
  simp only [Run.report, List.append_assoc, List.mem_append, List.mem_map] at member
  rcases member with raised | ⟨entry, opened, rfl⟩ | ⟨rule, waits, rfl⟩
  · exact region.warnings warning raised
  · exact region.stack entry opened
  · exact region.pending rule waits

/-- Only where a declaration is flipped the count of flips changes. -/
theorem flips_momentAt_succ (options : Options) {sheet : Sheet} (linked : sheet.Linked) {time : Nat}
    (counted : ((engine options).momentAt sheet (time + 1)).run.flips ≠
      ((engine options).momentAt sheet time).run.flips) :
    ∃ node, ((engine options).momentAt sheet time).tasks.head? = some (.flip node) := by
  have bound := bound_momentAt options linked time
  rw [Engine.momentAt, Run.courseAt] at counted
  obtain ⟨later, between | ⟨node, stage⟩⟩ :=
    Run.exists_stage_courseAt (engine options).registry ((engine options).start sheet) ((engine options).trail sheet) time
  · refine absurd ?_ counted
    rw [Engine.momentAt]
    generalize Run.courseAt (engine options).registry ((engine options).start sheet) ((engine options).trail sheet) time = moment
      at between ⊢
    obtain ⟨tasks, run⟩ := moment
    obtain rfl : tasks = _ := between
    cases later with
    | nil => rfl
    | cons node others =>
      simp only [List.map_cons, Moment.next, Run.Task.step]
      split <;> rfl
  · exact ⟨node, (bound.touches options stage).1.flips.resolve_left counted⟩

/-- In every run of the standard engine, whatever the options and the sheet and whatever directives are open: let a form open
`raw` where it is not switched off. If its argument can be read, its nodes come in before the comment and are at the end
exactly what they were when they came in, with all that stands below them: no later step is about one of them, no warning
names one of them, and none of them is counted as flipped. If the argument cannot be read, the form leaves the sheet as it is
and raises one warning about the comment. -/
theorem raw_nodes_are_final (options : Options) {sheet : Sheet} (linked : sheet.Linked) {time : Nat} {invocation : Invocation}
    (form : ((engine options).momentAt sheet time).invocations.head? = some invocation)
    (named : invocation.name = "raw".toList) (opens : invocation.opens = true)
    (enabled : ((engine options).momentAt sheet time).run.scene.options.disables pluginName "raw".toList = false) :
    let moment := (engine options).momentAt sheet
    let before := (moment time).run
    let after := (moment (time + 1)).run
    let result := (engine options).flip sheet
    (∃ final, (moment final).tasks = [] ∧ result.1 = (moment final).run.scene.sheet ∧
      result.2.1 = (moment final).run.report) ∧
    result.1.Linked ∧ after.flips = before.flips ∧
    (∀ fragment, Sheet.parse invocation.argument = .ok fragment →
      let items := (fragment.item Sheet.root).children
      let inserted := (before.scene.sheet.insertSheetBefore invocation.source fragment).2
      after.scene.sheet = (before.scene.sheet.insertSheetBefore invocation.source fragment).1 ∧
      after.scene.warnings = before.scene.warnings ∧
      (before.scene.sheet.parent invocation.source = none → after.scene.sheet = before.scene.sheet ∧ inserted = []) ∧
      (∀ above, before.scene.sheet.parent invocation.source = some above →
        inserted = List.range' before.scene.sheet.size (Item.countAll items) ∧
        result.1.StoresAll above before.scene.sheet.size items) ∧
      ∀ n ∈ inserted,
        result.1.nodes[n]? = after.scene.sheet.nodes[n]? ∧
        (∀ warning ∈ result.2.1.warnings, warning.node ≠ n) ∧
        ∀ later, time < later →
          (∀ task, (moment later).tasks.head? = some task → (∃ node, task = .arrive node) ∨ task.node ≠ n) ∧
          ((moment (later + 1)).run.flips ≠ (moment later).run.flips →
            ∃ node, (moment later).tasks.head? = some (.flip node) ∧ node ≠ n)) ∧
    (∀ error, Sheet.parse invocation.argument = .error error →
      after.scene.sheet = before.scene.sheet ∧
      after.scene.warnings = before.scene.warnings ++
        [{ kind := .badArgument, node := invocation.source
           message := "invalid raw stylesheet: ".toList ++ error.message.toList }]) := by
  intro moment before after result
  obtain ⟨final, ended⟩ := (engine options).exists_momentAt_eq_traverse sheet
  have ends : (moment final).tasks = [] ∧ result.1 = (moment final).run.scene.sheet ∧
      result.2.1 = (moment final).run.report := by
    rw [show moment final = _ from ended]
    exact ⟨rfl, rfl, rfl⟩
  obtain ⟨cleared, sheetAtEnd, reportAtEnd⟩ := ends
  have bound : ∀ time, Bound (moment time) := bound_momentAt options linked
  obtain ⟨rest, stage, known⟩ := exists_stage_of_form options linked form
  have obeyed : after = (Run.obey (engine options).registry before invocation).2 := Run.run_succ_of_invocation form
  obtain ⟨scene, flips⟩ :=
    obey_raw (show before.scene.options.disables pluginName "raw".toList = false from enabled) named opens options
  rw [← obeyed] at scene flips
  refine ⟨⟨final, cleared, sheetAtEnd, reportAtEnd⟩, ?_, flips, ?_, ?_⟩
  · rw [sheetAtEnd]
    exact (bound final).linked
  · intro fragment read items inserted
    obtain ⟨_, handled, same, listed, grafted⟩ | ⟨_, _, refused, _⟩ :=
      enterRaw_cases invocation.source invocation before.store before.scene
    swap
    · cases read.symm.trans refused
    cases read.symm.trans same
    rw [grafted] at scene
    have sheetAfter : after.scene.sheet = (before.scene.sheet.insertItemsBefore invocation.source items).1 := by
      rw [scene]
      rfl
    refine ⟨sheetAfter, by rw [scene], ?_, ?_⟩
    · intro detached
      have nothing := Sheet.insertItemsBefore_of_detached detached items
      exact ⟨by rw [sheetAfter, nothing], congrArg Prod.snd nothing⟩
    cases attached : before.scene.sheet.parent invocation.source with
    | none =>
      have nothing : inserted = [] := congrArg Prod.snd (Sheet.insertItemsBefore_of_detached attached items)
      rw [nothing]
      exact ⟨nofun, nofun⟩
    | some above =>
      obtain ⟨size, stored, numbers⟩ := (bound time).linked.insertItemsBefore attached items
      rw [← sheetAfter] at size stored
      have within : ∀ {n : Nat}, n ∈ inserted ↔ before.scene.sheet.size ≤ n ∧ n < after.scene.sheet.size := by
        intro n
        rw [show inserted = _ from numbers, List.mem_range'_1, size]
      have done : ∀ n : Nat, before.scene.sheet.size ≤ n → n < after.scene.sheet.size → n ∈ after.scene.handled := by
        intro n low high
        rw [scene]
        exact (listed n).mpr (.inr (within.mpr ⟨low, high⟩))
      have sealedAt := sealed_momentAt options linked stage known done
      have atEnd := sealedAt final (Run.lt_of_stage stage cleared)
      refine ⟨?_, ?_⟩
      · rintro _ ⟨⟩
        refine ⟨numbers, stored.congr fun n low high => ?_⟩
        rw [sheetAtEnd]
        exact atEnd.kept n ⟨low, Nat.lt_of_lt_of_eq high size.symm⟩
      · intro n member
        have inside := within.mp member
        refine ⟨?_, ?_, fun later behind => ⟨?_, ?_⟩⟩
        · rw [sheetAtEnd]
          exact atEnd.kept n inside
        · rintro warning raised rfl
          rw [reportAtEnd] at raised
          exact atEnd.report warning raised inside
        · exact fun task first => (sealedAt later behind).node_ne inside first
        · intro counted
          obtain ⟨node, flips⟩ := flips_momentAt_succ options linked counted
          rcases (sealedAt later behind).node_ne inside flips with ⟨_, arrives⟩ | other
          · cases arrives
          · exact ⟨node, flips, other⟩
  · intro error refused
    simp only [enterRaw, refused] at scene
    rw [scene]
    exact ⟨rfl, rfl⟩

/-- A rule comes in with a declaration that would be flipped, while selectors are to be renamed: only the declaration behind it
is flipped. -/
theorem raw_nodes_are_final_in_rule :
    ∃ sheet invocation, Sheet.parse ".a{/*rtl:raw:.left{left:1px}*/left:2px}".toList = .ok sheet ∧
      let options : Options := { autoRename := true }
      let moment := (engine options).momentAt sheet
      let result := (engine options).flip sheet
      (moment 9).invocations.head? = some invocation ∧ invocation.name = "raw".toList ∧ invocation.opens = true ∧
      (moment 9).run.scene.options.disables pluginName "raw".toList = false ∧
      result.1.toText = ".a{.left{left:1px}right:2px}".toList ∧ result.2.1.flips = 1 ∧
      ∀ n ∈ [4, 5], result.1.nodes[n]? = (moment 10).run.scene.sheet.nodes[n]? ∧
        ∀ warning ∈ result.2.1.warnings, warning.node ≠ n := by
  obtain ⟨sheet, parsed, test⟩ := Sheet.exists_of_readable
    (by decide +kernel : (Sheet.parse ".a{/*rtl:raw:.left{left:1px}*/left:2px}".toList).toOption.any (fun sheet =>
        let options : Options := { autoRename := true }
        let moment := (engine options).momentAt sheet
        let result := (engine options).flip sheet
        (moment 9).invocations.head? ==
            some (Run.invocationOf 2 false ⟨"raw".toList, ".left{left:1px}".toList, true, true⟩) &&
          !(moment 9).run.scene.options.disables pluginName "raw".toList &&
          result.1.toText == ".a{.left{left:1px}right:2px}".toList && result.2.1.flips == 1 &&
          (Sheet.parse ".left{left:1px}".toList).toOption.any fun fragment =>
            ((moment 9).run.scene.sheet.insertSheetBefore 2 fragment).2 == [4, 5]) = true)
  simp only [Bool.and_eq_true, beq_iff_eq, Bool.not_eq_eq_eq_not, Bool.not_true] at test
  obtain ⟨⟨⟨⟨form, enabled⟩, text⟩, flips⟩, readable⟩ := test
  obtain ⟨fragment, read, inserted⟩ := Sheet.exists_of_readable readable
  have linked := (Sheet.Built.parsed parsed).linked
  obtain ⟨_, _, _, brought, _⟩ := raw_nodes_are_final { autoRename := true } linked form rfl rfl enabled
  obtain ⟨_, _, _, _, stays⟩ := brought fragment read
  refine ⟨sheet, _, parsed, form, rfl, rfl, enabled, text, flips, fun n member => ?_⟩
  have listed : (((engine { autoRename := true }).momentAt sheet 9).run.scene.sheet.insertSheetBefore 2 fragment).2 = [4, 5] :=
    eq_of_beq inserted
  obtain ⟨same, silent, _⟩ := stays n (listed.symm ▸ member)
  exact ⟨same, silent⟩

end Standard
end StyleFlip
