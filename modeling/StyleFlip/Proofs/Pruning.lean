import StyleFlip.Proofs.Rereading
import StyleFlip.Proofs.Trail

/-!
Sheets from which nodes were cut off. Such a sheet keeps every node and gives up only places among the children, so every
item in it can be read from what is written for it (`Pruned.legible`). Reading the text of the sheet gives its tree again, with
the numbers closed up: the nodes that are still attached are numbered in document order.
-/
namespace StyleFlip.Sheet
open Item

/-! ## Cutting nodes off -/

/-- A sheet from which nodes were cut off: every node says what it said and has some of its children, in their order. -/
structure Pruned (sheet now : Sheet) : Prop where
  size : now.size = sheet.size
  content : ∀ n : Nat, now.content n = sheet.content n
  spacing : ∀ n : Nat, (now.node n).spacing = (sheet.node n).spacing
  children : ∀ n : Nat, (now.children n).Sublist (sheet.children n)
  attached : ∀ n child : Nat, child ∈ now.children n → now.parent child = some n
  detached : ∀ n : Nat, sheet.parent n = none → now.parent n = none

theorem Pruned.refl {sheet : Sheet} {whole : Item} (holds : sheet.Holds whole) : Pruned sheet sheet where
  size := rfl
  content := fun _ => rfl
  spacing := fun _ => rfl
  children := fun _ => .refl _
  attached := fun _ _ member => (holds.of_mem_children member).2.2
  detached := fun _ none => none

theorem Pruned.remove {sheet now : Sheet} (pruned : Pruned sheet now) (id : Nat) : Pruned sheet (now.remove id) where
  size := by rw [size_remove, pruned.size]
  content := fun n => by rw [content_remove, pruned.content]
  spacing := fun n => by rw [spacing_remove, pruned.spacing]
  children := by
    intro n
    rw [children_remove]
    split
    · exact List.filter_sublist.trans (pruned.children n)
    · exact pruned.children n
  attached := by
    intro n child member
    rw [children_remove] at member
    rw [parent_remove]
    split at member
    · obtain ⟨there, other⟩ := List.mem_filter.mp member
      rw [if_neg (of_decide_eq_true other), pruned.attached n child there]
    · rename_i elsewhere
      have there := pruned.attached n child member
      rw [if_neg, there]
      rintro rfl
      exact elsewhere there
  detached := by
    intro n none
    rw [parent_remove, pruned.detached n none]
    split <;> rfl

theorem Pruned.foldl_remove {sheet now : Sheet} (pruned : Pruned sheet now) (nodes : List NodeId) :
    Pruned sheet (nodes.foldl Sheet.remove now) := by
  induction nodes generalizing now with
  | nil => exact pruned
  | cons id nodes ih => exact ih (pruned.remove id)

/-! ## Reading what is left -/

theorem ends_node_congr (content : Content) (spacing : Spacing) (children others : List Item) :
    (Item.node content spacing children).ends = (Item.node content spacing others).ends := by
  cases content with
  | atRule name params hasBlock => cases hasBlock <;> rfl
  | _ => rfl

section
variable {sheet now : Sheet} (pruned : Pruned sheet now)
include pruned

theorem Pruned.ends_itemWithin (depth n : Nat) : (now.itemWithin depth n).ends = (sheet.itemWithin depth n).ends := by
  cases depth with
  | zero => rw [itemWithin, itemWithin, pruned.content, pruned.spacing]
  | succ depth =>
    rw [itemWithin, itemWithin, pruned.content, pruned.spacing]
    exact ends_node_congr _ _ _ _

theorem Pruned.spaced {after : Text} {depth n : Nat} (spaced : Spaced after ((sheet.children n).map (sheet.itemWithin depth))) :
    Spaced after ((now.children n).map (now.itemWithin depth)) := by
  refine ⟨spaced.blank, ?_, ?_⟩
  · have own := List.pairwise_map.mp spaced.own
    refine List.pairwise_map.mpr ((own.sublist (pruned.children n)).imp ?_)
    intro earlier _ ends
    rwa [pruned.ends_itemWithin]
  · refine spaced.last.imp_right fun each => ?_
    simp only [List.forall_mem_map] at each ⊢
    intro child member
    rw [pruned.ends_itemWithin]
    exact each child ((pruned.children n).subset member)

/-- What can be read from its own text can be read when nodes were cut off below it. -/
theorem Pruned.legible {close : Option Char} {depth n : Nat} (legible : Legible close (sheet.itemWithin depth n)) :
    Legible close (now.itemWithin depth n) := by
  induction depth generalizing close n with
  | zero => rwa [itemWithin, pruned.content, pruned.spacing]
  | succ depth ih =>
    rw [itemWithin] at legible
    rw [itemWithin, pruned.content, pruned.spacing]
    refine legible.exchange ?_ pruned.spaced ?_
    · intro none
      have bare := pruned.children n
      rw [List.map_eq_nil_iff.mp none] at bare
      rw [List.sublist_nil.mp bare, List.map_nil]
    · simp only [List.forall_mem_map]
      intro below child member
      exact ih (below child ((pruned.children n).subset member))

end

/-! ## New numbers -/

theorem length_preorderWithin (sheet : Sheet) (depth n : Nat) :
    (sheet.preorderWithin depth n).length = (sheet.itemWithin depth n).count := by
  induction depth generalizing n with
  | zero => simp [preorderWithin, itemWithin, Item.count, countAll]
  | succ depth ih =>
    have below : ∀ ids : List Nat,
        (ids.flatMap (sheet.preorderWithin depth)).length = countAll (ids.map (sheet.itemWithin depth)) := by
      intro ids
      induction ids with
      | nil => rfl
      | cons id ids rest => rw [List.flatMap_cons, List.length_append, ih, rest, List.map_cons, countAll]
    rw [preorderWithin, itemWithin, List.length_cons, below, Item.count]

theorem self_mem_preorderWithin (sheet : Sheet) (depth n : Nat) : n ∈ sheet.preorderWithin depth n := by
  cases depth <;> exact List.mem_cons_self

/-- Numbers that run on through the subtree at a node start with the number of the node. -/
theorem number_eq_of_map {sheet : Sheet} {number : Nat → Nat} {depth n start : Nat}
    (numbered : (sheet.preorderWithin depth n).map number = List.range' start (sheet.itemWithin depth n).count) :
    number n = start := by
  rw [count_eq, List.range'_succ] at numbered
  cases depth <;> exact (List.cons_eq_cons.mp numbered).1

/-- Numbers that run on through the subtrees at some siblings run on through each, from its place on. -/
theorem StoresAll.places_eq_map {sheet again : Sheet} {number : Nat → Nat} {depth above start : Nat} {ids : List Nat}
    (stored : again.StoresAll above start (ids.map (sheet.itemWithin depth)))
    (numbered : (ids.flatMap (sheet.preorderWithin depth)).map number =
      List.range' start (countAll (ids.map (sheet.itemWithin depth)))) :
    places start (ids.map (sheet.itemWithin depth)) = ids.map number ∧
      ∀ id ∈ ids, again.Stores (some above) (number id) (sheet.itemWithin depth id) ∧
        (sheet.preorderWithin depth id).map number = List.range' (number id) (sheet.itemWithin depth id).count := by
  induction ids generalizing start with
  | nil => exact ⟨rfl, fun id member => by cases member⟩
  | cons id ids ih =>
    rw [List.map_cons] at stored
    rw [List.map_cons, countAll, List.flatMap_cons, List.map_append, ← List.range'_append_1] at numbered
    have lengths : ((sheet.preorderWithin depth id).map number).length =
        (List.range' start (sheet.itemWithin depth id).count).length := by
      rw [List.length_map, List.length_range', length_preorderWithin]
    obtain ⟨first, others⟩ := List.append_inj numbered lengths
    have here := number_eq_of_map first
    obtain ⟨placed, each⟩ := ih stored.2 others
    refine ⟨?_, List.forall_mem_cons.mpr ⟨?_, each⟩⟩
    · rw [List.map_cons, places, placed, List.map_cons, here]
    · rw [here]
      exact ⟨stored.1, first⟩

/-- A sheet whose nodes come before their children and are the parents of them. -/
structure Ordered (sheet : Sheet) : Prop where
  children : ∀ n child : Nat, child ∈ sheet.children n → n < child ∧ child < sheet.size
  parent : ∀ n child : Nat, child ∈ sheet.children n → sheet.parent child = some n

/-- The nodes of a subtree have new numbers in another sheet that stores the subtree. -/
theorem Stores.renumbered {sheet again : Sheet} (ordered : Ordered sheet) {number : Nat → Nat} {depth n start : Nat}
    {above : Option NodeId} (inside : n < sheet.size) (deep : sheet.size ≤ depth + n)
    (stored : again.Stores above start (sheet.itemWithin depth n)) (attached : above = (sheet.parent n).map number)
    (numbered : (sheet.preorderWithin depth n).map number = List.range' start (sheet.itemWithin depth n).count) :
    ∀ m ∈ sheet.preorderWithin depth n,
      again.node (number m) =
          { sheet.node m with parent := (sheet.parent m).map number, children := (sheet.children m).map number } ∧
        ∀ child ∈ sheet.children m, child ∈ sheet.preorderWithin depth n := by
  induction depth generalizing n start above with
  | zero => omega
  | succ depth ih =>
    have here := number_eq_of_map numbered
    rw [itemWithin] at stored numbered
    rw [preorderWithin, Item.count, List.range'_succ, List.map_cons, here] at numbered
    obtain ⟨placed, each⟩ := stored.2.places_eq_map (List.cons_eq_cons.mp numbered).2
    rw [preorderWithin]
    refine List.forall_mem_cons.mpr ⟨⟨?_, ?_⟩, ?_⟩
    · rw [here, node_eq_of_getElem? stored.1, attached, placed]
      rfl
    · intro child member
      exact List.mem_cons_of_mem _ (List.mem_flatMap.mpr ⟨child, member, self_mem_preorderWithin _ _ _⟩)
    · intro m later
      obtain ⟨child, member, inChild⟩ := List.mem_flatMap.mp later
      obtain ⟨low, high⟩ := ordered.children n child member
      obtain ⟨found, run⟩ := each child member
      obtain ⟨same, closed⟩ := ih high (by omega) found (by rw [ordered.parent n child member, ← here]; rfl) run m inChild
      refine ⟨same, fun inner below => ?_⟩
      exact List.mem_cons_of_mem _ (List.mem_flatMap.mpr ⟨child, member, closed inner below⟩)

section
variable {sheet now : Sheet} {whole : Item} (holds : sheet.Holds whole) (pruned : Pruned sheet now)
include holds pruned

theorem Pruned.ordered : Ordered now where
  children := by
    intro n child member
    obtain ⟨low, high, _⟩ := holds.of_mem_children ((pruned.children n).subset member)
    rw [pruned.size]
    exact ⟨low, high⟩
  parent := pruned.attached

omit holds in
theorem Pruned.preorderWithin_sublist (depth n : Nat) :
    (now.preorderWithin depth n).Sublist (sheet.preorderWithin depth n) := by
  induction depth generalizing n with
  | zero => exact .refl _
  | succ depth ih =>
    rw [preorderWithin, preorderWithin]
    refine .cons_cons n ?_
    have below : ((now.children n).flatMap (now.preorderWithin depth)).Sublist
        ((now.children n).flatMap (sheet.preorderWithin depth)) := .flatMap_right _ fun child _ => ih child
    exact below.trans ((pruned.children n).flatMap _)

theorem Pruned.nodup_preorder : (now.preorder root).Nodup := by
  have part := pruned.preorderWithin_sublist sheet.size root
  have all := holds.preorder_root
  rw [preorder] at all
  rw [all] at part
  rw [preorder, pruned.size]
  exact List.nodup_range.sublist part

end

theorem map_idxOf_self {ids : List Nat} (nodup : ids.Nodup) : ids.map (ids.idxOf ·) = List.range ids.length := by
  refine List.ext_getElem (by simp) fun place inside _ => ?_
  rw [List.getElem_map, List.getElem_range]
  exact nodup.idxOf_getElem place (by simpa using inside)

/-- The text of a sheet from which nodes were cut off is read as a sheet that stores its tree. -/
theorem Pruned.exists_parse {sheet now : Sheet} {text : Text} (parsed : parse text = .ok sheet) (pruned : Pruned sheet now) :
    ∃ again, parse now.toText = .ok again ∧ again.Holds (now.item root) := by
  obtain ⟨items, trailing, read, stored, size⟩ := exists_holds_of_parse parsed
  obtain ⟨legible, spaced⟩ := legible_parseItems read
  have whole : sheet.itemWithin sheet.size root = rootItem items trailing := stored.itemWithin_eq (by omega)
  obtain ⟨depth, deep⟩ : ∃ depth, sheet.size = depth + 1 := ⟨_, by rw [size, count_eq]⟩
  rw [deep, itemWithin, rootItem] at whole
  obtain ⟨top, around, listed⟩ := Item.node.inj whole
  have left : now.item root = rootItem ((now.children root).map (now.itemWithin depth)) trailing := by
    rw [item, pruned.size, deep, itemWithin, pruned.content, pruned.spacing, top, around, rootItem]
  have written : now.toText = renderAll ((now.children root).map (now.itemWithin depth)) ++ trailing := by
    rw [toText, left, rootItem, render]
  rw [← listed] at legible spaced
  have readable : ∀ item ∈ (now.children root).map (now.itemWithin depth), Legible none item := by
    simp only [List.forall_mem_map] at legible ⊢
    exact fun child member => pruned.legible (legible child ((pruned.children root).subset member))
  refine ⟨ofItems ((now.children root).map (now.itemWithin depth)) trailing, ?_, ?_⟩
  · rw [parse, written, parseItems_renderAll readable (pruned.spaced spaced)]
    rfl
  · rw [left]
    exact holds_ofItems _ _

/-- Whatever nodes are cut off from a sheet that was read, its text is read as its tree again: the nodes that are left are
numbered in document order, and but for the numbers each is as it was, with its spacing, its parent and its children. -/
theorem parse_toText_of_removed {text : Text} {sheet : Sheet} (parsed : parse text = .ok sheet) (nodes : List NodeId) :
    let now := nodes.foldl Sheet.remove sheet
    ∃ (again : Sheet) (number : NodeId → NodeId), parse now.toText = .ok again ∧ again.item root = now.item root ∧
      (now.preorder root).map number = List.range again.size ∧ root ∈ now.preorder root ∧
      ∀ n ∈ now.preorder root,
        again.node (number n) =
            { now.node n with parent := (now.parent n).map number, children := (now.children n).map number } ∧
          ∀ child ∈ now.children n, child ∈ now.preorder root := by
  intro now
  obtain ⟨items, trailing, _, holds⟩ := exists_holds_of_parse parsed
  have pruned : Pruned sheet now := (Pruned.refl holds).foldl_remove nodes
  obtain ⟨again, reread, stored, size⟩ := pruned.exists_parse parsed
  have length : (now.preorder root).length = again.size := by
    rw [preorder, length_preorderWithin, size, item]
  have numbered : (now.preorder root).map ((now.preorder root).idxOf ·) = List.range again.size := by
    rw [map_idxOf_self (pruned.nodup_preorder holds), length]
  have inside : root < now.size := by
    rw [pruned.size, holds.2, count_eq]
    exact Nat.succ_pos _
  have top : now.parent root = none := pruned.detached root holds.1.parent_eq
  refine ⟨again, (now.preorder root).idxOf, reread, stored.itemWithin_eq (by omega), numbered,
    self_mem_preorderWithin _ _ _, ?_⟩
  refine Stores.renumbered (pruned.ordered holds) inside (Nat.le_add_right _ _) stored (by rw [top]; rfl) ?_
  rw [size, List.range_eq_range'] at numbered
  exact numbered

/-- A comment, the last declaration of a rule and a comment between statements are cut off, some of them twice. -/
theorem parse_toText_of_removed_nested :
    ∃ sheet, parse ";@m a)\x7b/*x*/.b\x7bc:d;e:f \x7d/**/\x7d /*y*/;g:url(".toList = .ok sheet ∧
      let now := [2, 5, 7, 5, 0].foldl Sheet.remove sheet
      now.toText = ";@m a)\x7b.b\x7bc:d;\x7d/**/\x7d;g:url(".toList ∧ now.preorder root = [0, 1, 3, 4, 6, 8] ∧
      ∃ (again : Sheet) (number : NodeId → NodeId), parse now.toText = .ok again ∧ again.item root = now.item root ∧
        (now.preorder root).map number = List.range again.size ∧
        again.node (number 3) =
          { now.node 3 with parent := (now.parent 3).map number, children := (now.children 3).map number } := by
  obtain ⟨sheet, parsed, test⟩ := exists_of_readable
    (by decide +kernel : (parse ";@m a)\x7b/*x*/.b\x7bc:d;e:f \x7d/**/\x7d /*y*/;g:url(".toList).toOption.any
      (fun sheet =>
        let now := [2, 5, 7, 5, 0].foldl Sheet.remove sheet
        now.toText == ";@m a)\x7b.b\x7bc:d;\x7d/**/\x7d;g:url(".toList && now.preorder root == [0, 1, 3, 4, 6, 8]) = true)
  simp only [Bool.and_eq_true, beq_iff_eq] at test
  obtain ⟨again, number, reread, same, numbered, _, each⟩ := parse_toText_of_removed parsed [2, 5, 7, 5, 0]
  refine ⟨sheet, parsed, test.1, test.2, again, number, reread, same, numbered, (each 3 ?_).1⟩
  rw [test.2]
  decide

end StyleFlip.Sheet
