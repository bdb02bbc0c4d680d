import Mathlib
import StyleFlip.Sheet.Parser

/-!
How a sheet stores items. Items that are appended to a sheet take consecutive numbers in document order, and every node
knows its parent and its children by these numbers (`Stores`). A sheet that was read is stored in this way from its root
on (`exists_holds_of_parse`), so the subtree at a node is a stretch of numbers that ends with its last node, and the tree
can be read back from the numbers (`Stores.itemWithin_eq`).
-/
namespace StyleFlip

namespace Item

mutual
def count : Item → Nat
  | .node _ _ children => countAll children + 1

def countAll : List Item → Nat
  | [] => 0
  | item :: rest => item.count + countAll rest
end

/-- The numbers of items that are stored one after the other from `start` on. -/
def places (start : Nat) : List Item → List NodeId
  | [] => []
  | item :: rest => start :: places (start + item.count) rest

theorem count_pos (item : Item) : 0 < item.count := by
  cases item
  simp [count]

theorem le_of_mem_places {start n : Nat} {items : List Item} (member : n ∈ places start items) : start ≤ n := by
  induction items generalizing start with
  | nil => cases member
  | cons item rest ih =>
    rcases List.mem_cons.mp member with rfl | later
    · exact Nat.le_refl _
    · exact Nat.le_trans (Nat.le_add_right _ _) (ih later)

theorem places_increasing (start : Nat) (items : List Item) : (places start items).Pairwise (· < ·) := by
  induction items generalizing start with
  | nil => exact .nil
  | cons item rest ih =>
    refine .cons ?_ (ih _)
    intro n member
    exact Nat.lt_of_lt_of_le (Nat.lt_add_of_pos_right item.count_pos) (le_of_mem_places member)

end Item

namespace Sheet
open Item

mutual
/-- The sheet holds an item under `parent` with its nodes in document order from `id` on. -/
def Stores (sheet : Sheet) (parent : Option NodeId) (id : Nat) : Item → Prop
  | .node content spacing children =>
    sheet.nodes[id]? = some { content, spacing, parent, children := places (id + 1) children } ∧
      StoresAll sheet id (id + 1) children

/-- The sheet holds several items under `parent`, one after the other from `start` on. -/
def StoresAll (sheet : Sheet) (parent start : Nat) : List Item → Prop
  | [] => True
  | item :: rest => Stores sheet (some parent) start item ∧ StoresAll sheet parent (start + item.count) rest
end

theorem getElem?_modify (sheet : Sheet) (id other : Nat) (change : Node → Node) :
    (sheet.modify id change).nodes[other]? = if id = other then sheet.nodes[other]?.map change else sheet.nodes[other]? := by
  simp only [modify, Array.getElem?_modify]

@[simp] theorem size_modify (sheet : Sheet) (id : Nat) (change : Node → Node) : (sheet.modify id change).size = sheet.size := by
  simp [modify, size]

theorem node_eq_of_getElem? {sheet : Sheet} {id : Nat} {node : Node} (found : sheet.nodes[id]? = some node) :
    sheet.node id = node := by
  simp [Sheet.node, found]

theorem content_eq_of_getElem? {sheet : Sheet} {id : Nat} {node : Node} (found : sheet.nodes[id]? = some node) :
    sheet.content id = node.content := by
  rw [content, node_eq_of_getElem? found]

theorem content_of_selector? {sheet : Sheet} {id : Nat} {selector : Text} (found : sheet.selector? id = some selector) :
    sheet.content id = .rule selector := by
  unfold selector? at found
  split at found
  · rename_i content
    cases found
    exact content
  · cases found

theorem content_of_declaration? {sheet : Sheet} {id : Nat} {decl : Declaration} (found : sheet.declaration? id = some decl) :
    sheet.content id = .declaration decl := by
  unfold declaration? at found
  split at found
  · rename_i content
    cases found
    exact content
  · cases found

theorem content_of_comment? {sheet : Sheet} {id : Nat} {text : Text} (found : sheet.comment? id = some text) :
    sheet.content id = .comment text := by
  unfold comment? at found
  split at found
  · rename_i content
    cases found
    exact content
  · cases found

theorem exists_content_of_declaration {sheet : Sheet} {id : Nat} (declares : sheet.kind id = .declaration) :
    ∃ decl, sheet.content id = .declaration decl := by
  rw [kind] at declares
  cases content : sheet.content id with
  | declaration decl => exact ⟨decl, rfl⟩
  | _ => rw [content] at declares; cases declares

theorem kind_eq_comment_iff {sheet : Sheet} {id : Nat} : sheet.kind id = .comment ↔ (sheet.comment? id).isSome = true := by
  simp only [kind, comment?]
  cases sheet.content id <;> simp [Content.kind]

/-- The sheet with the content of one node changed. -/
def modifyContent (sheet : Sheet) (id : Nat) (change : Content → Content) : Sheet :=
  sheet.modify id fun node => { node with content := change node.content }

theorem getElem?_modifyContent (sheet : Sheet) (id other : Nat) (change : Content → Content) :
    (sheet.modifyContent id change).nodes[other]? = sheet.nodes[other]?.map fun node =>
      { node with content := if other = id then change node.content else node.content } := by
  rw [modifyContent, getElem?_modify]
  by_cases own : other = id
  · simp [own]
  · simp [own, Ne.symm own]

theorem modify_congr {sheet : Sheet} {id : Nat} {change other : Node → Node}
    (same : ∀ node, sheet.nodes[id]? = some node → change node = other node) :
    sheet.modify id change = sheet.modify id other := by
  refine congrArg Sheet.mk (Array.ext_getElem? fun n => ?_)
  simp only [Array.getElem?_modify]
  split
  · rename_i here
    subst here
    cases found : sheet.nodes[id]? with
    | none => rfl
    | some node => simp [same node found]
  · rfl

theorem modify_eq_self {sheet : Sheet} {id : Nat} {change : Node → Node}
    (same : ∀ node, sheet.nodes[id]? = some node → change node = node) : sheet.modify id change = sheet := by
  have kept : sheet.modify id change = sheet.modify id fun node => node := modify_congr same
  rw [kept]
  refine congrArg Sheet.mk (Array.ext_getElem? fun n => ?_)
  simp [Array.getElem?_modify]

theorem setContent_eq_modifyContent {sheet : Sheet} {id : Nat} {content : Content} {change : Content → Content}
    (same : change (sheet.content id) = content) : sheet.setContent id content = sheet.modifyContent id change := by
  refine modify_congr fun node found => ?_
  rw [← same, content_eq_of_getElem? found]

theorem modifyContent_eq_self {sheet : Sheet} {id : Nat} {change : Content → Content}
    (same : change (sheet.content id) = sheet.content id) : sheet.modifyContent id change = sheet := by
  refine modify_eq_self fun node found => ?_
  rw [content_eq_of_getElem? found] at same
  rw [same]

theorem node_congr {sheet other : Sheet} {id : Nat} (same : sheet.nodes[id]? = other.nodes[id]?) :
    sheet.node id = other.node id := by
  simp only [Sheet.node, same]

theorem lt_size_of_getElem? {sheet : Sheet} {id : Nat} {node : Node} (found : sheet.nodes[id]? = some node) :
    id < sheet.size :=
  (Array.getElem?_eq_some_iff.mp found).1

/-! ## Appending -/

theorem append_nodes (sheet : Sheet) {parent : Nat} (inside : parent < sheet.size) (content : Content)
    (spacing : Spacing) (id : Nat) :
    (sheet.append parent content spacing).1.nodes[id]? =
      if id = sheet.size then some { content, spacing, parent := some parent }
      else if id = parent then sheet.nodes[id]?.map fun node => { node with children := node.children ++ [sheet.size] }
      else sheet.nodes[id]? := by
  have other : parent ≠ sheet.size := Nat.ne_of_lt inside
  have pushed : ∀ node : Node, (sheet.nodes.push node)[id]? = if id = sheet.size then some node else sheet.nodes[id]? :=
    fun node => Array.getElem?_push
  simp only [append, getElem?_modify, pushed]
  by_cases new : id = sheet.size
  · simp [new, other]
  · by_cases own : id = parent
    · simp [own, other]
    · simp [new, own, Ne.symm own]

@[simp] theorem append_snd (sheet : Sheet) (parent : Nat) (content : Content) (spacing : Spacing) :
    (sheet.append parent content spacing).2 = sheet.size := rfl

@[simp] theorem append_size (sheet : Sheet) (parent : Nat) (content : Content) (spacing : Spacing) :
    (sheet.append parent content spacing).1.size = sheet.size + 1 := by
  simp [append, modify, size]

mutual
/-- Storing an item depends on its own stretch of numbers only. -/
theorem Stores.congr {sheet other : Sheet} {parent : Option NodeId} {id : Nat} :
    ∀ {item : Item}, sheet.Stores parent id item →
      (∀ n, id ≤ n → n < id + item.count → other.nodes[n]? = sheet.nodes[n]?) → other.Stores parent id item
  | .node content spacing children, stored, same => by
    simp only [Item.count] at same
    refine ⟨?_, ?_⟩
    · rw [same id (Nat.le_refl id) (by omega)]
      exact stored.1
    · exact StoresAll.congr stored.2 fun n low high => same n (by omega) (by omega)

theorem StoresAll.congr {sheet other : Sheet} {parent start : Nat} :
    ∀ {items : List Item}, sheet.StoresAll parent start items →
      (∀ n, start ≤ n → n < start + countAll items → other.nodes[n]? = sheet.nodes[n]?) →
      other.StoresAll parent start items
  | [], _, _ => trivial
  | item :: rest, stored, same => by
    simp only [countAll] at same
    refine ⟨?_, ?_⟩
    · exact Stores.congr stored.1 fun n low high => same n low (by omega)
    · exact StoresAll.congr stored.2 fun n low high => same n (by omega) (by omega)
end

/-- What a sheet is after items were appended under `parent`: they are stored behind all earlier nodes, `parent` has
them as its last children, and nothing else has changed. -/
structure Grown (sheet after : Sheet) (parent : Nat) (items : List Item) : Prop where
  size : after.size = sheet.size + countAll items
  others : ∀ id, id < sheet.size → id ≠ parent → after.nodes[id]? = sheet.nodes[id]?
  stored : after.StoresAll parent sheet.size items
  extended : after.nodes[parent]? =
    sheet.nodes[parent]?.map fun node => { node with children := node.children ++ places sheet.size items }

mutual
theorem appendItem_grown (sheet : Sheet) (parent : Nat) (inside : parent < sheet.size) :
    ∀ item, Grown sheet (sheet.appendItem parent item).1 parent [item]
  | .node content spacing children => by
    have sizes := append_size sheet parent content spacing
    have below := appendItems_grown (sheet.append parent content spacing).1 sheet.size (by omega) children
    have nodes := append_nodes sheet inside content spacing
    have old : parent ≠ sheet.size := Nat.ne_of_lt inside
    refine ⟨?_, ?_, ⟨⟨?_, ?_⟩, trivial⟩, ?_⟩
    · simp only [appendItem, append_snd, below.size, sizes, countAll, Item.count]
      omega
    · intro id low ne
      simp only [appendItem, append_snd]
      rw [below.others id (by omega) (by omega), nodes]
      simp [Nat.ne_of_lt low, ne]
    · simp only [appendItem, append_snd]
      rw [below.extended, nodes]
      simp
    · simpa [appendItem] using below.stored
    · simp only [appendItem, append_snd]
      rw [below.others parent (by omega) old, nodes]
      simp [old, places]

theorem appendItems_grown (sheet : Sheet) (parent : Nat) (inside : parent < sheet.size) :
    ∀ items, Grown sheet (sheet.appendItems parent items).1 parent items
  | [] => ⟨by simp [appendItems, countAll], fun _ _ _ => by simp [appendItems], trivial, by simp [appendItems, places]⟩
  | item :: rest => by
    have first := appendItem_grown sheet parent inside item
    have sizes : (sheet.appendItem parent item).1.size = sheet.size + item.count := by
      simpa [countAll] using first.size
    have later := appendItems_grown (sheet.appendItem parent item).1 parent (by omega) rest
    refine ⟨?_, ?_, ⟨?_, ?_⟩, ?_⟩
    · simp only [appendItems, later.size, countAll]
      omega
    · intro id low ne
      simp only [appendItems]
      rw [later.others id (by omega) ne, first.others id low ne]
    · exact Stores.congr first.stored.1 fun n low high => later.others n (by omega) (by omega)
    · rw [← sizes]
      exact later.stored
    · simp only [appendItems]
      rw [later.extended, first.extended, sizes]
      simp [places, Function.comp_def]
end

/-- The root item of a sheet with the given items and the given blanks at its end. -/
def rootItem (items : List Item) (trailing : Text) : Item := .node .root { after := trailing } items

/-- A sheet that is nothing but one stored item. -/
def Holds (sheet : Sheet) (item : Item) : Prop := sheet.Stores none root item ∧ sheet.size = item.count

theorem holds_ofItems (items : List Item) (trailing : Text) : (ofItems items trailing).Holds (rootItem items trailing) := by
  have one : (empty.setSpacing root { after := trailing }).size = 1 := rfl
  have grown := appendItems_grown (empty.setSpacing root { after := trailing }) root (by rw [one]; decide) items
  refine ⟨⟨?_, ?_⟩, ?_⟩
  · rw [ofItems, grown.extended, one]
    rfl
  · exact grown.stored
  · rw [ofItems, grown.size, one, rootItem, Item.count]
    omega

theorem exists_holds_of_parse {text : Text} {sheet : Sheet} (parsed : parse text = .ok sheet) :
    ∃ items trailing, parseItems text = .ok (items, trailing) ∧ sheet.Holds (rootItem items trailing) := by
  unfold parse at parsed
  cases read : parseItems text with
  | error => simp [read, Except.map] at parsed
  | ok found =>
    simp only [read, Except.map] at parsed
    cases parsed
    exact ⟨found.1, found.2, rfl, holds_ofItems _ _⟩

/-! ## Reading the tree back -/

mutual
/-- Every later number in the stretch of a stored item is that of an item below it, whose stretch lies inside. -/
theorem Stores.exists_below {sheet : Sheet} {parent : Option NodeId} {id : Nat} :
    ∀ {item : Item}, sheet.Stores parent id item → ∀ n : Nat, id < n → n < id + item.count →
      ∃ (above : Nat) (inner : Item), sheet.Stores (some above) n inner ∧ n ∈ sheet.children above ∧ id ≤ above ∧
        above < n ∧ n + inner.count ≤ id + item.count
  | .node content spacing children, stored, n, low, high => by
    have listed : sheet.children id = places (id + 1) children := by rw [Sheet.children, node_eq_of_getElem? stored.1]
    simp only [Item.count] at high ⊢
    obtain ⟨above, inner, found, member, bounds⟩ :=
      StoresAll.exists_below (Nat.lt_succ_self id) stored.2 (fun n member => listed ▸ member) n low (by omega)
    exact ⟨above, inner, found, member, by omega⟩

theorem StoresAll.exists_below {sheet : Sheet} {parent start : Nat} (ahead : parent < start) :
    ∀ {items : List Item}, sheet.StoresAll parent start items → (∀ n ∈ places start items, n ∈ sheet.children parent) →
      ∀ n : Nat, start ≤ n → n < start + countAll items →
      ∃ (above : Nat) (inner : Item), sheet.Stores (some above) n inner ∧ n ∈ sheet.children above ∧ parent ≤ above ∧
        above < n ∧ n + inner.count ≤ start + countAll items
  | [], _, _, n, low, high => by
    simp only [countAll] at high
    omega
  | item :: rest, stored, listed, n, low, high => by
    simp only [countAll] at high ⊢
    rcases Nat.eq_or_lt_of_le low with rfl | later
    · exact ⟨parent, item, stored.1, listed _ List.mem_cons_self, by omega⟩
    · by_cases first : n < start + item.count
      · obtain ⟨above, inner, found, member, bounds⟩ := Stores.exists_below stored.1 n later first
        exact ⟨above, inner, found, member, by omega⟩
      · obtain ⟨above, inner, found, member, bounds⟩ := StoresAll.exists_below (by omega) stored.2
          (fun n member => listed n (List.mem_cons_of_mem _ member)) n (by omega) (by omega)
        exact ⟨above, inner, found, member, by omega⟩
end

/-- The items of a block are stored at their places. -/
theorem StoresAll.of_mem_places {sheet : Sheet} {parent start : Nat} {items : List Item}
    (stored : sheet.StoresAll parent start items) {n : Nat} (member : n ∈ places start items) :
    ∃ item : Item, sheet.Stores (some parent) n item ∧ start ≤ n ∧ n + item.count ≤ start + countAll items := by
  induction items generalizing start with
  | nil => simp [places] at member
  | cons item rest ih =>
    simp only [countAll]
    rcases List.mem_cons.mp member with rfl | later
    · exact ⟨item, stored.1, by omega⟩
    · obtain ⟨found, there, bounds⟩ := ih stored.2 later
      exact ⟨found, there, by omega⟩

theorem Stores.getElem? {sheet : Sheet} {parent : Option NodeId} {id : Nat} {item : Item}
    (stored : sheet.Stores parent id item) :
    sheet.nodes[id]? =
      some { content := item.content, spacing := item.spacing, parent, children := places (id + 1) item.children } := by
  cases item
  exact stored.1

theorem Stores.below {sheet : Sheet} {parent : Option NodeId} {id : Nat} {item : Item}
    (stored : sheet.Stores parent id item) : sheet.StoresAll id (id + 1) item.children := by
  cases item
  exact stored.2

theorem count_eq (item : Item) : item.count = countAll item.children + 1 := by
  cases item
  simp [Item.count, Item.children]

section
variable {sheet : Sheet} {parent : Option NodeId} {id : Nat} {item : Item} (stored : sheet.Stores parent id item)
include stored

theorem Stores.parent_eq : sheet.parent id = parent := by
  rw [Sheet.parent, node_eq_of_getElem? stored.getElem?]

theorem Stores.children_eq : sheet.children id = places (id + 1) item.children := by
  rw [children, node_eq_of_getElem? stored.getElem?]

end

/-- Every number of a sheet is that of a stored item, and all but the root are among the children of an earlier one. -/
theorem Holds.exists_stores {sheet : Sheet} {whole : Item} (holds : sheet.Holds whole) {id : Nat} (inside : id < sheet.size) :
    ∃ (parent : Option NodeId) (item : Item), sheet.Stores parent id item ∧ id + item.count ≤ sheet.size ∧
      (id ≠ root → ∃ above : Nat, parent = some above ∧ id ∈ sheet.children above ∧ above < id) := by
  obtain ⟨stored, size⟩ := holds
  rcases Nat.eq_zero_or_pos id with rfl | later
  · exact ⟨none, whole, stored, by omega, fun other => absurd rfl other⟩
  · obtain ⟨above, inner, found, member, bounds⟩ := stored.exists_below id later (by simpa [root, size] using inside)
    exact ⟨some above, inner, found, by simp only [root] at bounds; omega, fun _ => ⟨above, rfl, member, bounds.2.1⟩⟩

/-- The children of a node come after it and have it as their parent. -/
theorem Holds.of_mem_children {sheet : Sheet} {whole : Item} (holds : sheet.Holds whole) {id child : Nat}
    (member : child ∈ sheet.children id) : id < child ∧ child < sheet.size ∧ sheet.parent child = some id := by
  by_cases inside : id < sheet.size
  · obtain ⟨parent, item, stored, _, _⟩ := holds.exists_stores inside
    rw [stored.children_eq] at member
    obtain ⟨inner, found, low, _⟩ := stored.below.of_mem_places member
    exact ⟨low, lt_size_of_getElem? found.getElem?, found.parent_eq⟩
  · rw [children, Sheet.node, Array.getElem?_eq_none (Nat.le_of_not_lt inside)] at member
    cases member

/-- A node is among the children of its parent. -/
theorem Holds.mem_children {sheet : Sheet} {whole : Item} (holds : sheet.Holds whole) {id above : Nat}
    (attached : sheet.parent id = some above) : id ∈ sheet.children above := by
  by_cases inside : id < sheet.size
  · obtain ⟨parent, item, stored, _, listed⟩ := holds.exists_stores inside
    by_cases top : id = root
    · rw [top, holds.1.parent_eq] at attached
      cases attached
    · obtain ⟨found, rfl, member, _⟩ := listed top
      rw [stored.parent_eq] at attached
      cases attached
      exact member
  · rw [Sheet.parent, Sheet.node, Array.getElem?_eq_none (Nat.le_of_not_lt inside)] at attached
    cases attached

/-- The children of a node stand in the order of their numbers. -/
theorem Holds.children_increasing {sheet : Sheet} {whole : Item} (holds : sheet.Holds whole) (id : Nat) :
    (sheet.children id).Pairwise (· < ·) := by
  by_cases inside : id < sheet.size
  · obtain ⟨parent, item, stored, _, _⟩ := holds.exists_stores inside
    rw [stored.children_eq]
    exact places_increasing _ _
  · rw [children, Sheet.node, Array.getElem?_eq_none (Nat.le_of_not_lt inside)]
    exact .nil

theorem eq_nil_of_countAll {items : List Item} (none : countAll items = 0) : items = [] := by
  cases items with
  | nil => rfl
  | cons item rest =>
    have := item.count_pos
    simp only [countAll] at none
    omega

mutual
/-- A depth that is at least the number of nodes below an item reaches all of it. -/
theorem Stores.itemWithin_eq {sheet : Sheet} {parent : Option NodeId} {id : Nat} :
    ∀ {item : Item}, sheet.Stores parent id item → ∀ {depth : Nat}, item.count ≤ depth + 1 →
      sheet.itemWithin depth id = item
  | .node content spacing children, stored, depth, deep => by
    simp only [Item.count] at deep
    have found := node_eq_of_getElem? stored.1
    cases depth with
    | zero =>
      obtain rfl : children = [] := eq_nil_of_countAll (by omega)
      simp [itemWithin, Sheet.content, found]
    | succ depth =>
      simp only [itemWithin, Sheet.content, Sheet.children, found]
      rw [StoresAll.map_itemWithin stored.2 (by omega)]

theorem StoresAll.map_itemWithin {sheet : Sheet} {parent start : Nat} :
    ∀ {items : List Item}, sheet.StoresAll parent start items → ∀ {depth : Nat}, countAll items ≤ depth + 1 →
      (places start items).map (sheet.itemWithin depth) = items
  | [], _, _, _ => rfl
  | item :: rest, stored, depth, deep => by
    simp only [countAll] at deep
    rw [places, List.map_cons, stored.1.itemWithin_eq (by omega), StoresAll.map_itemWithin stored.2 (by omega)]
end

mutual
theorem Stores.preorderWithin_eq {sheet : Sheet} {parent : Option NodeId} {id : Nat} :
    ∀ {item : Item}, sheet.Stores parent id item → ∀ {depth : Nat}, item.count ≤ depth + 1 →
      sheet.preorderWithin depth id = List.range' id item.count
  | .node content spacing children, stored, depth, deep => by
    simp only [Item.count] at deep ⊢
    rw [List.range'_succ]
    cases depth with
    | zero =>
      obtain rfl : children = [] := eq_nil_of_countAll (by omega)
      simp [preorderWithin, countAll]
    | succ depth =>
      simp only [preorderWithin, Sheet.children, node_eq_of_getElem? stored.1]
      rw [StoresAll.flatMap_preorderWithin stored.2 (by omega)]

theorem StoresAll.flatMap_preorderWithin {sheet : Sheet} {parent start : Nat} :
    ∀ {items : List Item}, sheet.StoresAll parent start items → ∀ {depth : Nat}, countAll items ≤ depth + 1 →
      (places start items).flatMap (sheet.preorderWithin depth) = List.range' start (countAll items)
  | [], _, _, _ => rfl
  | item :: rest, stored, depth, deep => by
    simp only [countAll] at deep ⊢
    rw [places, List.flatMap_cons, stored.1.preorderWithin_eq (by omega),
      StoresAll.flatMap_preorderWithin stored.2 (by omega), List.range'_append_1]
end

/-- The last item of a block ends where the block ends. -/
theorem StoresAll.getLast?_places {sheet : Sheet} {parent start : Nat} {first : Item} {rest : List Item}
    (stored : sheet.StoresAll parent start (first :: rest)) :
    ∃ (n : Nat) (item : Item), (places start (first :: rest)).getLast? = some n ∧ sheet.Stores (some parent) n item ∧
      n + item.count = start + countAll (first :: rest) ∧ item.count ≤ countAll (first :: rest) := by
  induction rest generalizing start first with
  | nil => exact ⟨start, first, rfl, stored.1, by simp [countAll], by simp [countAll]⟩
  | cons second rest ih =>
    obtain ⟨n, item, last, found, stop, bound⟩ := ih stored.2
    refine ⟨n, item, ?_, found, ?_, ?_⟩
    · simpa [places, List.getLast?_cons_cons] using last
    · simp only [countAll] at stop ⊢
      omega
    · simp only [countAll] at bound ⊢
      omega

/-- The last node below a node is found from what is stored below it. -/
theorem StoresAll.lastBelowWithin_eq {sheet : Sheet} {id : Nat} {items : List Item} {depth : Nat}
    (below : sheet.StoresAll id (id + 1) items) (listed : sheet.children id = places (id + 1) items)
    (deep : countAll items ≤ depth) : sheet.lastBelowWithin depth id = id + countAll items := by
  induction depth generalizing id items with
  | zero =>
    obtain rfl : items = [] := eq_nil_of_countAll (by omega)
    rfl
  | succ depth ih =>
    rw [lastBelowWithin, listed]
    cases items with
    | nil => rfl
    | cons first rest =>
      obtain ⟨n, last, isLast, found, stop, bound⟩ := below.getLast?_places
      have whole := count_eq last
      have same : n + countAll last.children = id + countAll (first :: rest) := by omega
      simp only [isLast]
      rw [ih found.below found.children_eq (by omega), same]

/-- The number behind everything below a node. -/
def stop (sheet : Sheet) (id : Nat) : Nat := sheet.lastBelow id + 1

theorem Stores.stop_eq {sheet : Sheet} {parent : Option NodeId} {id : Nat} {item : Item}
    (stored : sheet.Stores parent id item) (room : id + item.count ≤ sheet.size) : sheet.stop id = id + item.count := by
  have whole := count_eq item
  rw [stop, lastBelow, stored.below.lastBelowWithin_eq stored.children_eq (by omega), whole]
  exact Nat.add_assoc _ _ _

theorem stop_of_children_eq_nil {sheet : Sheet} {id : Nat} (none : sheet.children id = []) : sheet.stop id = id + 1 := by
  unfold stop lastBelow
  cases sheet.size with
  | zero => rfl
  | succ depth => simp [lastBelowWithin, none]

section
variable {sheet : Sheet} {whole : Item} (holds : sheet.Holds whole) {id : Nat} (inside : id < sheet.size)
include holds inside

theorem Holds.stop_bounds : id < sheet.stop id ∧ sheet.stop id ≤ sheet.size := by
  obtain ⟨parent, item, stored, room, _⟩ := holds.exists_stores inside
  have positive := item.count_pos
  rw [stored.stop_eq room]
  omega

/-- Subtrees are nested. -/
theorem Holds.stop_le_stop {n : Nat} (low : id ≤ n) (high : n < sheet.stop id) : sheet.stop n ≤ sheet.stop id := by
  obtain ⟨parent, item, stored, room, _⟩ := holds.exists_stores inside
  rw [stored.stop_eq room] at high ⊢
  rcases Nat.eq_or_lt_of_le low with rfl | later
  · exact Nat.le_of_eq (stored.stop_eq room)
  · obtain ⟨above, inner, found, _, bounds⟩ := stored.exists_below n later high
    rw [found.stop_eq (by omega)]
    exact bounds.2.2

/-- The last node below a node has nothing below it. -/
theorem Holds.stop_lastBelow : sheet.stop (sheet.lastBelow id) = sheet.stop id := by
  obtain ⟨low, high⟩ := holds.stop_bounds inside
  have reached : (sheet.lastBelow id).succ ≤ sheet.size := high
  have nested := holds.stop_le_stop inside (Nat.le_of_lt_succ low) (Nat.lt_succ_self (sheet.lastBelow id))
  exact Nat.le_antisymm nested (holds.stop_bounds reached).1

end

/-! ## Roots and comments -/

/-- An item as it is read: no node of it is a root, and nothing stands below its comments. -/
inductive Proper : Item → Prop where
  | node {content : Content} {spacing : Spacing} {children : List Item} (own : content.kind ≠ .root)
      (leaf : content.kind = .comment → children = []) (below : ∀ child ∈ children, Proper child) :
      Proper (.node content spacing children)

theorem kind_blockOf (before header : Text) :
    (blockOf before header).1.kind ≠ .root ∧ (blockOf before header).1.kind ≠ .comment := by
  unfold blockOf
  split <;> simp [atRuleOf, Content.kind]

theorem kind_statementOf? {before header : Text} {semicolon : Bool} {content : Content} {spacing : Spacing}
    (found : statementOf? before header semicolon = some (content, spacing)) : content.kind ≠ .root := by
  unfold statementOf? at found
  split at found
  · cases found
    simp [Content.kind]
  · obtain ⟨read, _, equal⟩ := Option.map_eq_some_iff.mp found
    cases equal
    simp [Content.kind]

theorem proper_assemble {segments : List Segment} {frames : List Frame} {done items : List Item} {trailing : Text}
    {ending : Ending}
    (around : ∀ frame ∈ frames,
      (frame.content.kind ≠ .root ∧ frame.content.kind ≠ .comment) ∧ ∀ item ∈ frame.earlier, Proper item)
    (own : ∀ item ∈ done, Proper item) (assembled : assemble frames done segments ending = .ok (items, trailing)) :
    ∀ item ∈ items, Proper item := by
  have leaf : ∀ {content : Content} (spacing : Spacing), content.kind ≠ .root → Proper (.node content spacing []) :=
    fun spacing inner => .node inner (fun _ => rfl) fun child member => by cases member
  induction segments generalizing frames done with
  | nil =>
    cases ending with
    | fault => cases assembled
    | spacing ended =>
      cases frames with
      | nil =>
        cases assembled
        exact fun item member => own item (List.mem_reverse.mp member)
      | cons => cases assembled
  | cons segment rest ih =>
    cases shape : segment.shape with
    | comment body =>
      simp only [assemble, shape] at assembled
      exact ih around (List.forall_mem_cons.mpr ⟨leaf _ (by simp [Content.kind]), own⟩) assembled
    | closing =>
      simp only [assemble, shape] at assembled
      cases frames with
      | nil => cases assembled
      | cons frame outer =>
        obtain ⟨⟨⟨inner, block⟩, earlier⟩, outside⟩ := List.forall_mem_cons.mp around
        have closed : Proper (.node frame.content { frame.spacing with after := segment.before } done.reverse) :=
          .node inner (fun comment => absurd comment block) fun item member => own item (List.mem_reverse.mp member)
        exact ih outside (List.forall_mem_cons.mpr ⟨closed, earlier⟩) assembled
    | opening header =>
      simp only [assemble, shape] at assembled
      exact ih (List.forall_mem_cons.mpr ⟨⟨kind_blockOf _ _, own⟩, around⟩) (by simp) assembled
    | statement header semicolon =>
      simp only [assemble, shape] at assembled
      split at assembled
      · cases assembled
      · rename_i found
        exact ih around (List.forall_mem_cons.mpr ⟨leaf _ (kind_statementOf? found), own⟩) assembled

mutual
theorem Stores.proper {sheet : Sheet} {parent : Option NodeId} {id : Nat} :
    ∀ {item : Item}, sheet.Stores parent id item → Proper item → ∀ n, id ≤ n → n < id + item.count →
      sheet.kind n ≠ .root ∧ (sheet.kind n = .comment → sheet.children n = [])
  | .node content spacing children, stored, .node own leaf below, n, low, high => by
    simp only [Item.count] at high
    rcases Nat.eq_or_lt_of_le low with rfl | later
    · rw [kind, content_eq_of_getElem? stored.1, stored.children_eq]
      refine ⟨own, fun comment => ?_⟩
      simp only [Item.children, leaf comment, places]
    · exact stored.2.proper below n later (by omega)

theorem StoresAll.proper {sheet : Sheet} {parent start : Nat} :
    ∀ {items : List Item}, sheet.StoresAll parent start items → (∀ item ∈ items, Proper item) →
      ∀ n, start ≤ n → n < start + countAll items →
        sheet.kind n ≠ .root ∧ (sheet.kind n = .comment → sheet.children n = [])
  | [], _, _, n, low, high => by
    simp only [countAll] at high
    omega
  | item :: rest, stored, proper, n, low, high => by
    simp only [countAll] at high
    obtain ⟨first, others⟩ := List.forall_mem_cons.mp proper
    by_cases early : n < start + item.count
    · exact stored.1.proper first n low early
    · exact stored.2.proper others n (by omega) (by omega)
end

theorem proper_of_parse {text : Text} {sheet : Sheet} (parsed : parse text = .ok sheet) {id : Nat} (inner : root < id)
    (inside : id < sheet.size) : sheet.kind id ≠ .root ∧ (sheet.kind id = .comment → sheet.children id = []) := by
  obtain ⟨items, trailing, read, stored, size⟩ := exists_holds_of_parse parsed
  have proper : ∀ item ∈ items, Proper item :=
    proper_assemble (fun frame member => by cases member) (fun item member => by cases member) read
  have whole : sheet.size = countAll items + 1 := by rw [size, rootItem, Item.count]
  exact stored.2.proper proper id inner (by simp only [root]; omega)

/-- Only the root of a sheet that was read is one. -/
theorem kind_ne_root_of_parse {text : Text} {sheet : Sheet} (parsed : parse text = .ok sheet) {id : Nat} (inner : root < id)
    (inside : id < sheet.size) : sheet.kind id ≠ .root :=
  (proper_of_parse parsed inner inside).1

theorem kind_root_of_parse {text : Text} {sheet : Sheet} (parsed : parse text = .ok sheet) : sheet.kind root = .root := by
  obtain ⟨items, trailing, _, stored, _⟩ := exists_holds_of_parse parsed
  rw [kind, content_eq_of_getElem? stored.1]
  rfl

/-- Nothing stands below the comments of a sheet that was read. -/
theorem children_of_comment {text : Text} {sheet : Sheet} (parsed : parse text = .ok sheet) {id : Nat}
    (comment : sheet.kind id = .comment) : sheet.children id = [] := by
  by_cases inside : id < sheet.size
  · by_cases inner : root < id
    · exact (proper_of_parse parsed inner inside).2 comment
    · obtain rfl : id = root := Nat.eq_zero_of_not_pos inner
      rw [kind_root_of_parse parsed] at comment
      cases comment
  · simp only [children, node, Array.getElem?_eq_none (Nat.le_of_not_lt inside), Option.getD_none]

/-- The comments of a sheet that was read stand in it. -/
theorem parent_of_comment {text : Text} {sheet : Sheet} (parsed : parse text = .ok sheet) {id : Nat}
    (inside : id < sheet.size) (comment : sheet.kind id = .comment) : sheet.parent id ≠ none := by
  obtain ⟨items, trailing, _, holds⟩ := exists_holds_of_parse parsed
  obtain ⟨parent, item, stored, _, placed⟩ := holds.exists_stores inside
  have inner : id ≠ root := by
    rintro rfl
    rw [kind_root_of_parse parsed] at comment
    cases comment
  obtain ⟨above, rfl, _⟩ := placed inner
  rw [stored.parent_eq]
  simp

end Sheet
end StyleFlip
