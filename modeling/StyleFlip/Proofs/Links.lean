import StyleFlip.Proofs.Edits

/-!
How the nodes of a sheet hang together. Every node knows its parent and its children, and whatever sheets are put together
from, these two accounts agree (`Linked`): a node stands exactly once among the children of its parent and nowhere else, and
has a larger number than its parent. A new node joins the sheet under one parent (`Joins`), a node that is cut off leaves it,
and nothing else happens to a sheet (`Operation`). As numbers grow on the way down, the tree below a node is always finite, and
the depth to which it is written, listed or followed is never felt (`Linked.item_eq`, `Linked.preorder_eq`,
`Linked.lastBelow_eq`).
-/
namespace StyleFlip.Sheet

/-! ## Parents and children -/

/-- Parents and children agree, and the root stands above all. -/
structure Linked (sheet : Sheet) : Prop where
  inhabited : root < sheet.size
  top : sheet.parent root = none
  mem_children_iff : ∀ n above : Nat, n ∈ sheet.children above ↔ sheet.parent n = some above
  nodup : ∀ above : Nat, (sheet.children above).Nodup
  ascending : ∀ n above : Nat, sheet.parent n = some above → above < n

section
variable {sheet : Sheet} {n : Nat}

theorem Linked.count_children (linked : sheet.Linked) (n above : Nat) :
    (sheet.children above).count n = if sheet.parent n = some above then 1 else 0 := by
  rw [(linked.nodup above).count]
  simp only [linked.mem_children_iff]

theorem Holds.linked {whole : Item} (holds : sheet.Holds whole) : sheet.Linked where
  inhabited := lt_size_of_getElem? holds.1.getElem?
  top := holds.1.parent_eq
  mem_children_iff := fun _ _ => ⟨fun member => (holds.of_mem_children member).2.2, holds.mem_children⟩
  nodup := fun above => (holds.children_increasing above).imp Nat.ne_of_lt
  ascending := fun _ _ attached => (holds.of_mem_children (holds.mem_children attached)).1

/-- A node that is cut off leaves its parent, and no other link changes. -/
theorem Linked.remove (linked : sheet.Linked) (n : Nat) : (sheet.remove n).Linked where
  inhabited := by
    rw [size_remove]
    exact linked.inhabited
  top := by
    rw [parent_remove, linked.top, ite_self]
  mem_children_iff := by
    intro child above
    rw [children_remove, parent_remove]
    by_cases own : child = n
    · subst own
      by_cases attached : sheet.parent child = some above
      · simp [attached]
      · simp [attached, linked.mem_children_iff]
    · split <;> simp [own, linked.mem_children_iff]
  nodup := by
    intro above
    rw [children_remove]
    split
    · exact (linked.nodup above).filter _
    · exact linked.nodup above
  ascending := by
    intro child above attached
    rw [parent_remove] at attached
    split at attached
    · cases attached
    · exact linked.ascending child above attached

end

/-! ## Nodes that come in -/

/-- One node has come in under `above`, with a number of its own. -/
structure Joins (above : Nat) (before after : Sheet) : Prop where
  inside : above < before.size
  size : after.size = before.size + 1
  parent : ∀ n : Nat, after.parent n = if n = before.size then some above else before.parent n
  children : ∀ n : Nat, n ≠ above → after.children n = before.children n
  placed : (after.children above).Perm (before.size :: before.children above)
  content : ∀ n : Nat, n < before.size → after.content n = before.content n
  spacing : ∀ n : Nat, n < before.size → (after.node n).spacing = (before.node n).spacing

/-- Nodes have come in one after the other. -/
def Extends (before after : Sheet) : Prop := Relation.ReflTransGen (fun before after => ∃ above, Joins above before after) before after

theorem Linked.joins {before after : Sheet} {above : Nat} (linked : before.Linked) (joins : Joins above before after) :
    after.Linked where
  inhabited := by
    rw [joins.size]
    exact Nat.lt_succ_of_lt linked.inhabited
  top := by
    rw [joins.parent, if_neg (Nat.ne_of_lt linked.inhabited)]
    exact linked.top
  mem_children_iff := by
    intro n owner
    have missing : before.parent before.size = none := parent_of_size_le (Nat.le_refl _)
    by_cases here : owner = above
    · subst here
      rw [joins.placed.mem_iff, List.mem_cons, linked.mem_children_iff, joins.parent]
      split <;> simp_all
    · rw [joins.children owner here, linked.mem_children_iff, joins.parent]
      by_cases new : n = before.size
      · simp [new, missing, Ne.symm here]
      · simp [new]
  nodup := by
    intro owner
    by_cases here : owner = above
    · subst here
      rw [joins.placed.nodup_iff, List.nodup_cons, linked.mem_children_iff, parent_of_size_le (Nat.le_refl _)]
      exact ⟨by simp, linked.nodup owner⟩
    · rw [joins.children owner here]
      exact linked.nodup owner
  ascending := by
    intro n owner attached
    rw [joins.parent] at attached
    split at attached
    · rename_i new
      cases attached
      rw [new]
      exact joins.inside
    · exact linked.ascending n owner attached

/-- A node that is put behind all others and noted by its parent joins the sheet, wherever among its siblings it is noted. -/
theorem joins_attach {sheet : Sheet} {above : Nat} (inside : above < sheet.size) (content : Content) (spacing : Spacing)
    (place : List NodeId → List NodeId) (placed : (place (sheet.children above)).Perm (sheet.size :: sheet.children above)) :
    Joins above sheet (sheet.attach above content spacing place) := by
  have node := node_attach inside content spacing place
  refine ⟨inside, size_attach .., ?_, ?_, ?_, ?_, ?_⟩
  · intro n
    simp only [Sheet.parent, node]
    split
    · rfl
    · split <;> rfl
  · intro n other
    simp only [Sheet.children, node, if_neg other]
    split
    · rename_i new
      rw [new]
      exact (children_of_size_le (Nat.le_refl _)).symm
    · rfl
  · simp only [Sheet.children, node, if_neg (Nat.ne_of_lt inside), if_true]
    exact placed
  · intro n low
    simp only [Sheet.content, node, if_neg (Nat.ne_of_lt low)]
    split <;> rfl
  · intro n low
    simp only [node, if_neg (Nat.ne_of_lt low)]
    split <;> rfl

theorem joins_append {sheet : Sheet} {above : Nat} (inside : above < sheet.size) (content : Content) (spacing : Spacing) :
    Joins above sheet (sheet.append above content spacing).1 :=
  joins_attach inside content spacing (· ++ [sheet.size]) (List.perm_append_singleton _ _)

theorem perm_placeBefore {anchor : Nat} (id : Nat) {ids : List Nat} (member : anchor ∈ ids) :
    (placeBefore anchor id ids).Perm (id :: ids) := by
  induction ids with
  | nil => cases member
  | cons first rest ih =>
    rw [placeBefore]
    split
    · exact .refl _
    · rename_i other
      have later : anchor ∈ rest := (List.mem_cons.mp member).resolve_left (Ne.symm other)
      exact ((ih later).cons first).trans (.swap id first rest)

theorem joins_insertBefore? {sheet after : Sheet} {anchor id : Nat} {content : Content} {spacing : Spacing}
    (inserted : sheet.insertBefore? anchor content spacing = some (after, id)) :
    id = sheet.size ∧ ∃ above, sheet.parent anchor = some above ∧ Joins above sheet after := by
  obtain ⟨numbered, above, attached, member, rfl⟩ := insertBefore?_eq_some inserted
  exact ⟨numbered, above, attached, joins_attach (lt_size_of_mem_children member) content spacing _ (perm_placeBefore _ member)⟩

theorem Linked.insertBefore?_eq_none_iff {sheet : Sheet} (linked : sheet.Linked) (anchor : Nat) (content : Content)
    (spacing : Spacing) : sheet.insertBefore? anchor content spacing = none ↔ sheet.parent anchor = none := by
  unfold Sheet.insertBefore?
  cases attached : sheet.parent anchor with
  | none => simp
  | some above =>
    have member : anchor ∈ sheet.children above := (linked.mem_children_iff anchor above).mpr attached
    simp [member]

mutual
theorem extends_appendItem {sheet : Sheet} {above : Nat} (inside : above < sheet.size) :
    ∀ item, Extends sheet (sheet.appendItem above item).1
  | .node content spacing children => by
    have first := joins_append inside content spacing
    have below := extends_appendItems (by rw [first.size]; exact Nat.lt_succ_self _) children
    exact .head ⟨above, first⟩ below

theorem extends_appendItems {sheet : Sheet} {above : Nat} (inside : above < sheet.size) :
    ∀ items, Extends sheet (sheet.appendItems above items).1
  | [] => .refl
  | item :: rest => by
    have first := extends_appendItem inside item
    have larger := (appendItem_grown sheet above inside item).size
    exact first.trans (extends_appendItems (by omega) rest)
end

theorem extends_insertItemsBefore (sheet : Sheet) (anchor : Nat) (items : List Item) :
    Extends sheet (sheet.insertItemsBefore anchor items).1 := by
  induction items generalizing sheet with
  | nil => exact .refl
  | cons item rest ih =>
    obtain ⟨content, spacing, children⟩ := item
    rw [Sheet.insertItemsBefore]
    cases inserted : sheet.insertBefore? anchor content spacing with
    | none => exact .refl
    | some found =>
      obtain ⟨middle, id⟩ := found
      obtain ⟨rfl, above, _, first⟩ := joins_insertBefore? inserted
      have below := extends_appendItems (by rw [first.size]; exact Nat.lt_succ_self _) children
      exact .head ⟨above, first⟩ (below.trans (ih _))

theorem Linked.extends {before after : Sheet} (linked : before.Linked) (extended : Extends before after) : after.Linked := by
  induction extended with
  | refl => exact linked
  | tail _ step ih =>
    obtain ⟨above, joins⟩ := step
    exact ih.joins joins

/-! ## What nodes keep -/

/-- Every node keeps its number, what it says and the fragments around it. -/
structure Preserves (before after : Sheet) : Prop where
  size : before.size ≤ after.size
  content : ∀ n : Nat, n < before.size → after.content n = before.content n
  spacing : ∀ n : Nat, n < before.size → (after.node n).spacing = (before.node n).spacing

theorem Extends.preserves {before after : Sheet} (extended : Extends before after) : Preserves before after := by
  induction extended with
  | refl => exact ⟨Nat.le_refl _, fun _ _ => rfl, fun _ _ => rfl⟩
  | @tail middle after _ step ih =>
    obtain ⟨above, joins⟩ := step
    have larger := joins.size
    refine ⟨by have := ih.size; omega, ?_, ?_⟩
    · intro n low
      rw [joins.content n (Nat.lt_of_lt_of_le low ih.size), ih.content n low]
    · intro n low
      rw [joins.spacing n (Nat.lt_of_lt_of_le low ih.size), ih.spacing n low]

theorem preserves_remove (sheet : Sheet) (n : Nat) : Preserves sheet (sheet.remove n) where
  size := Nat.le_of_eq (size_remove sheet n).symm
  content := fun m _ => content_remove sheet n m
  spacing := fun m _ => spacing_remove sheet n m

/-! ## The tree below a node -/

section
variable {sheet : Sheet} (linked : sheet.Linked)
include linked

theorem Linked.lt_of_mem_children {n child : Nat} (member : child ∈ sheet.children n) : n < child :=
  linked.ascending child n ((linked.mem_children_iff child n).mp member)

/-- What holds of a node if it holds of its children holds of every node. -/
theorem Linked.induction {motive : Nat → Prop}
    (step : ∀ n, (∀ child ∈ sheet.children n, motive child) → motive n) (n : Nat) : motive n := by
  -- Children have larger numbers, and behind the last number there are none.
  induction room : sheet.size - n using Nat.strong_induction_on generalizing n with
  | _ room ih =>
    refine step n fun child member => ih (sheet.size - child) ?_ child rfl
    have above := linked.lt_of_mem_children member
    have inside := lt_size_of_mem_children member
    omega

theorem Linked.itemWithin_succ {depth n : Nat} (deep : sheet.size ≤ n + depth) :
    sheet.itemWithin (depth + 1) n = sheet.itemWithin depth n := by
  induction depth generalizing n with
  | zero => simp only [itemWithin, children_of_size_le (show sheet.size ≤ n from deep), List.map_nil]
  | succ depth ih =>
    rw [itemWithin, itemWithin]
    refine congrArg _ (List.map_congr_left fun child member => ih ?_)
    have := linked.lt_of_mem_children member
    omega

/-- A node is written with all that stands below it. -/
theorem Linked.item_eq (n : Nat) :
    sheet.item n = .node (sheet.content n) (sheet.node n).spacing ((sheet.children n).map sheet.item) := by
  rw [item, ← linked.itemWithin_succ (Nat.le_add_left _ _), itemWithin]
  rfl

theorem Linked.preorderWithin_succ {depth n : Nat} (deep : sheet.size ≤ n + depth) :
    sheet.preorderWithin (depth + 1) n = sheet.preorderWithin depth n := by
  induction depth generalizing n with
  | zero => simp only [preorderWithin, children_of_size_le (show sheet.size ≤ n from deep), List.flatMap_nil]
  | succ depth ih =>
    rw [preorderWithin, preorderWithin]
    refine congrArg _ (List.flatMap_congr fun child member => ih ?_)
    have := linked.lt_of_mem_children member
    omega

/-- A node is listed before all that stands below it. -/
theorem Linked.preorder_eq (n : Nat) : sheet.preorder n = n :: (sheet.children n).flatMap sheet.preorder := by
  rw [preorder, ← linked.preorderWithin_succ (Nat.le_add_left _ _), preorderWithin]
  rfl

theorem Linked.lastBelowWithin_succ {depth n : Nat} (deep : sheet.size ≤ n + depth) :
    sheet.lastBelowWithin (depth + 1) n = sheet.lastBelowWithin depth n := by
  induction depth generalizing n with
  | zero => simp only [lastBelowWithin, children_of_size_le (show sheet.size ≤ n from deep), List.getLast?_nil]
  | succ depth ih =>
    rw [lastBelowWithin, lastBelowWithin]
    cases last : (sheet.children n).getLast? with
    | none => rfl
    | some child =>
      have := linked.lt_of_mem_children (List.mem_of_getLast? last)
      exact ih (by omega)

/-- The last node below a node is found by going to the last child as long as there is one. -/
theorem Linked.lastBelow_eq (n : Nat) : sheet.lastBelow n = ((sheet.children n).getLast?.map sheet.lastBelow).getD n := by
  rw [lastBelow, ← linked.lastBelowWithin_succ (Nat.le_add_left _ _), lastBelowWithin]
  cases (sheet.children n).getLast? <;> rfl

/-- The last node below a node is the last of its subtree in document order. -/
theorem Linked.getLast?_preorder (n : Nat) : (sheet.preorder n).getLast? = some (sheet.lastBelow n) := by
  induction n using linked.induction with
  | step n ih =>
    rw [linked.preorder_eq, linked.lastBelow_eq]
    rcases List.eq_nil_or_concat (sheet.children n) with none | ⟨front, last, split⟩
    · simp [none]
    · have found := ih last (by simp [split])
      simp [split, found, List.getLast?_cons]

theorem Linked.children_lastBelow (n : Nat) : sheet.children (sheet.lastBelow n) = [] := by
  induction n using linked.induction with
  | step n ih =>
    rw [linked.lastBelow_eq]
    cases last : (sheet.children n).getLast? with
    | none => simpa using List.getLast?_eq_none_iff.mp last
    | some child => exact ih child (List.mem_of_getLast? last)

end

/-! ## Sheets as they are put together -/

/-- What can be done to a sheet. -/
inductive Operation where
  | append (parent : NodeId) (content : Content) (spacing : Spacing)
  | insertBefore (anchor : NodeId) (content : Content) (spacing : Spacing)
  | insertSheetBefore (anchor : NodeId) (fragment : Sheet)
  | remove (id : NodeId)

namespace Operation

def node : Operation → NodeId
  | .append parent _ _ => parent
  | .insertBefore anchor _ _ => anchor
  | .insertSheetBefore anchor _ => anchor
  | .remove id => id

/-- The sheet whose nodes an operation brings in. -/
def fragment? : Operation → Option Sheet
  | .insertSheetBefore _ fragment => some fragment
  | _ => none

/-- The sheet after an operation; one that is refused leaves the sheet as it is. -/
def apply (sheet : Sheet) : Operation → Sheet
  | .append parent content spacing => (sheet.append parent content spacing).1
  | .insertBefore anchor content spacing => ((sheet.insertBefore? anchor content spacing).map Prod.fst).getD sheet
  | .insertSheetBefore anchor fragment => (sheet.insertSheetBefore anchor fragment).1
  | .remove id => sheet.remove id

/-- An operation cuts off a node or lets nodes come in. -/
theorem apply_cases {sheet : Sheet} {operation : Operation} (inside : operation.node < sheet.size) :
    (∃ id, operation.apply sheet = sheet.remove id) ∨ Extends sheet (operation.apply sheet) := by
  cases operation with
  | append parent content spacing => exact .inr (.single ⟨parent, joins_append inside content spacing⟩)
  | insertBefore anchor content spacing =>
    refine .inr ?_
    rw [apply]
    cases inserted : sheet.insertBefore? anchor content spacing with
    | none => exact .refl
    | some found =>
      obtain ⟨after, id⟩ := found
      obtain ⟨_, above, _, joins⟩ := joins_insertBefore? inserted
      exact .single ⟨above, joins⟩
  | insertSheetBefore anchor fragment => exact .inr (extends_insertItemsBefore sheet anchor _)
  | remove id => exact .inl ⟨id, rfl⟩

end Operation

/-- The sheets that can be put together, starting from the empty one or from sheets that were read. -/
inductive Built : Sheet → Prop where
  | empty : Built .empty
  | parsed {text : Text} {sheet : Sheet} (read : parse text = .ok sheet) : Built sheet
  | apply {sheet : Sheet} (operation : Operation) (built : Built sheet) (inside : operation.node < sheet.size)
      (pieces : ∀ fragment ∈ operation.fragment?, Built fragment) : Built (operation.apply sheet)

theorem Built.linked {sheet : Sheet} (built : Built sheet) : sheet.Linked := by
  induction built with
  | empty => exact (holds_ofItems [] []).linked
  | parsed read =>
    obtain ⟨_, _, _, holds⟩ := exists_holds_of_parse read
    exact holds.linked
  | apply operation _ inside _ ih =>
    rcases Operation.apply_cases inside with ⟨id, same⟩ | extended
    · rw [same]
      exact ih.remove id
    · exact ih.extends extended

theorem Operation.preserves {sheet : Sheet} {operation : Operation} (inside : operation.node < sheet.size) :
    Preserves sheet (operation.apply sheet) := by
  rcases apply_cases inside with ⟨id, same⟩ | extended
  · rw [same]
    exact preserves_remove sheet id
  · exact extended.preserves

theorem insertItemsBefore_of_detached {sheet : Sheet} {anchor : Nat} (detached : sheet.parent anchor = none) (items : List Item) :
    sheet.insertItemsBefore anchor items = (sheet, []) := by
  cases items with
  | nil => rfl
  | cons item rest =>
    obtain ⟨content, spacing, children⟩ := item
    simp only [insertItemsBefore, insertBefore?, detached]

/-- However a sheet was put together, its root is node 0 and has no parent; a node stands exactly once among the children of
its parent and not among those of other nodes, and its number is larger than that of its parent; a subtree is therefore
written, listed and followed to its end, and its last node is the last in document order; no operation changes the number,
the content or the spacing of a node that is there; and nothing can be put in front of a node without a parent. -/
theorem links_of_built {sheet : Sheet} (built : Built sheet) :
    (root < sheet.size ∧ sheet.parent root = none) ∧
    (∀ n above : Nat, (sheet.children above).count n = if sheet.parent n = some above then 1 else 0) ∧
    (∀ n above : Nat, sheet.parent n = some above → above < n ∧ n < sheet.size) ∧
    (∀ n, sheet.item n = .node (sheet.content n) (sheet.node n).spacing ((sheet.children n).map sheet.item)) ∧
    (∀ n, sheet.preorder n = n :: (sheet.children n).flatMap sheet.preorder) ∧
    (∀ n, sheet.lastBelow n = ((sheet.children n).getLast?.map sheet.lastBelow).getD n ∧
      sheet.children (sheet.lastBelow n) = [] ∧ (sheet.preorder n).getLast? = some (sheet.lastBelow n)) ∧
    (∀ operation : Operation, operation.node < sheet.size → Preserves sheet (operation.apply sheet)) ∧
    (∀ anchor content spacing, sheet.insertBefore? anchor content spacing = none ↔ sheet.parent anchor = none) ∧
    (∀ anchor, sheet.parent anchor = none → ∀ fragment, sheet.insertSheetBefore anchor fragment = (sheet, [])) ∧
    ∀ anchor content spacing, sheet.parent anchor = none →
      (Operation.insertBefore anchor content spacing).apply sheet = sheet := by
  have linked := built.linked
  refine ⟨⟨linked.inhabited, linked.top⟩, linked.count_children, ?_, linked.item_eq, linked.preorder_eq, ?_, ?_,
    linked.insertBefore?_eq_none_iff, ?_, ?_⟩
  · intro n above attached
    exact ⟨linked.ascending n above attached, lt_size_of_parent attached⟩
  · intro n
    exact ⟨linked.lastBelow_eq n, linked.children_lastBelow n, linked.getLast?_preorder n⟩
  · intro operation inside
    exact Operation.preserves inside
  · intro anchor detached fragment
    exact insertItemsBefore_of_detached detached _
  · intro anchor content spacing detached
    rw [Operation.apply, (linked.insertBefore?_eq_none_iff anchor content spacing).mpr detached]
    rfl

/-- A rule is cut off, and another one with a declaration is put in front of its own declaration: the two accounts agree below
the rule, and nothing can be put in front of the rule itself. -/
theorem links_of_built_detached :
    ∃ sheet, Built sheet ∧ sheet.children root = [] ∧ sheet.children 1 = [3, 2] ∧ sheet.parent 4 = some 3 ∧
      (sheet.children 1).count 3 = 1 ∧ (sheet.children 1).count 4 = 0 ∧ sheet.preorder 1 = [1, 3, 4, 2] ∧
      (sheet.preorder 1).getLast? = some (sheet.lastBelow 1) ∧ sheet.lastBelow 1 = 2 ∧
      ∀ content spacing, sheet.insertBefore? 1 content spacing = none := by
  let rule : Operation := .append root (.rule "x".toList) {}
  let declaration : Operation := .append 1 (.declaration (.ofValue "y".toList "z".toList)) {}
  let fragment := declaration.apply (rule.apply .empty)
  have whole : Built fragment :=
    .apply declaration (.apply rule .empty (by decide) (by rintro _ ⟨⟩)) (by decide) (by rintro _ ⟨⟩)
  obtain ⟨read, parsed, test⟩ := exists_of_readable
    (by decide +kernel : (parse "a\x7bb:c\x7d".toList).toOption.any (fun read =>
      let sheet := (Operation.insertSheetBefore 2 fragment).apply (read.remove 1)
      read.size == 3 && (read.remove 1).size == 3 && sheet.children root == [] && sheet.children 1 == [3, 2] &&
        sheet.parent 4 == some 3 && sheet.parent 3 == some 1 && sheet.parent 1 == none && sheet.preorder 1 == [1, 3, 4, 2] &&
        sheet.lastBelow 1 == 2) = true)
  simp only [Bool.and_eq_true, beq_iff_eq] at test
  obtain ⟨⟨⟨⟨⟨⟨⟨⟨size, kept⟩, top⟩, below⟩, inner⟩, outer⟩, detached⟩, listed⟩, last⟩ := test
  have cut : Built (read.remove 1) := .apply (.remove 1) (.parsed parsed) (by rw [size]; decide) (by rintro _ ⟨⟩)
  have built : Built ((Operation.insertSheetBefore 2 fragment).apply (read.remove 1)) :=
    .apply _ cut (by rw [kept]; decide) (by rintro _ ⟨⟩; exact whole)
  obtain ⟨_, counts, _, _, _, ends, _, refused, _⟩ := links_of_built built
  refine ⟨_, built, top, below, inner, ?_, ?_, listed, (ends 1).2.2, last, ?_⟩
  · rw [counts, outer]
    rfl
  · rw [counts, inner]
    rfl
  · intro content spacing
    exact (refused 1 content spacing).mpr detached

end StyleFlip.Sheet
