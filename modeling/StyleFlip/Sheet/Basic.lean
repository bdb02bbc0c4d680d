import StyleFlip.Sheet.Item

/-!
Stylesheets as numbered nodes. A node keeps its number for good: a removed node is only cut off from its parent, so
numbers held elsewhere stay valid. The root is node 0. A number that no node has reads as an empty node without parent
and children.
-/
namespace StyleFlip

/-- The number of a node in its sheet. -/
abbrev NodeId := Nat

/-- A node as the sheet stores it. -/
structure Node where
  content : Content
  spacing : Spacing := {}
  parent : Option NodeId := none
  children : List NodeId := []
deriving DecidableEq, Repr, Inhabited

/-- A stylesheet: its nodes by number. -/
structure Sheet where
  nodes : Array Node
deriving DecidableEq, Repr

namespace Sheet

def empty : Sheet := ⟨#[{ content := .root }]⟩

instance : Inhabited Sheet := ⟨empty⟩

def root : NodeId := 0

/-- How many nodes the sheet has ever had. -/
def size (sheet : Sheet) : Nat := sheet.nodes.size

def node (sheet : Sheet) (id : NodeId) : Node := sheet.nodes[id]?.getD { content := .root }

def content (sheet : Sheet) (id : NodeId) : Content := (sheet.node id).content

def kind (sheet : Sheet) (id : NodeId) : Kind := (sheet.content id).kind

/-- The node above a node that is attached. -/
def parent (sheet : Sheet) (id : NodeId) : Option NodeId := (sheet.node id).parent

def children (sheet : Sheet) (id : NodeId) : List NodeId := (sheet.node id).children

def selector? (sheet : Sheet) (id : NodeId) : Option Text :=
  match sheet.content id with
  | .rule selector => some selector
  | _ => none

def params? (sheet : Sheet) (id : NodeId) : Option Text :=
  match sheet.content id with
  | .atRule _ params _ => some params
  | _ => none

def declaration? (sheet : Sheet) (id : NodeId) : Option Declaration :=
  match sheet.content id with
  | .declaration decl => some decl
  | _ => none

def comment? (sheet : Sheet) (id : NodeId) : Option Text :=
  match sheet.content id with
  | .comment text => some text
  | _ => none

def modify (sheet : Sheet) (id : NodeId) (change : Node → Node) : Sheet := ⟨sheet.nodes.modify id change⟩

def setContent (sheet : Sheet) (id : NodeId) (content : Content) : Sheet :=
  sheet.modify id fun node => { node with content := content }

def setSpacing (sheet : Sheet) (id : NodeId) (spacing : Spacing) : Sheet :=
  sheet.modify id fun node => { node with spacing := spacing }

/-- The sheet with a new selector for a rule; a node of another kind stays. -/
def setSelector (sheet : Sheet) (id : NodeId) (selector : Text) : Sheet :=
  match sheet.content id with
  | .rule _ => sheet.setContent id (.rule selector)
  | _ => sheet

/-- The sheet with new params for an at-rule; a node of another kind stays. -/
def setParams (sheet : Sheet) (id : NodeId) (params : Text) : Sheet :=
  match sheet.content id with
  | .atRule name _ hasBlock => sheet.setContent id (.atRule name params hasBlock)
  | _ => sheet

/-- The sheet with a declaration changed; a node of another kind stays. -/
def modifyDeclaration (sheet : Sheet) (id : NodeId) (change : Declaration → Declaration) : Sheet :=
  match sheet.content id with
  | .declaration decl => sheet.setContent id (.declaration (change decl))
  | _ => sheet

/-- The sheet with a new last child of `parent`, and the number of the child. -/
def append (sheet : Sheet) (parent : NodeId) (content : Content) (spacing : Spacing) : Sheet × NodeId :=
  let id := sheet.size
  let grown : Sheet := ⟨sheet.nodes.push { content := content, spacing := spacing, parent := some parent }⟩
  (grown.modify parent fun node => { node with children := node.children ++ [id] }, id)

/-- The numbers with `id` in front of `anchor`. -/
def placeBefore (anchor id : NodeId) : List NodeId → List NodeId
  | [] => []
  | first :: rest => if first = anchor then id :: first :: rest else first :: placeBefore anchor id rest

/-- The sheet with a new node in front of `anchor`, and its number; refused if the anchor stands under no parent. -/
def insertBefore? (sheet : Sheet) (anchor : NodeId) (content : Content) (spacing : Spacing) :
    Option (Sheet × NodeId) :=
  match sheet.parent anchor with
  | none => none
  | some parent =>
    if anchor ∈ sheet.children parent then
      let id := sheet.size
      let grown : Sheet := ⟨sheet.nodes.push { content := content, spacing := spacing, parent := some parent }⟩
      some (grown.modify parent fun node => { node with children := placeBefore anchor id node.children }, id)
    else none

mutual
/-- The sheet with an item as the last child of `parent`, and the numbers of the new nodes in document order. -/
def appendItem (sheet : Sheet) (parent : NodeId) : Item → Sheet × List NodeId
  | .node content spacing children =>
    let (sheet, id) := sheet.append parent content spacing
    let (sheet, below) := sheet.appendItems id children
    (sheet, id :: below)

/-- The sheet with several items as the last children of `parent`. -/
def appendItems (sheet : Sheet) (parent : NodeId) : List Item → Sheet × List NodeId
  | [] => (sheet, [])
  | item :: rest =>
    let (sheet, first) := sheet.appendItem parent item
    let (sheet, others) := sheet.appendItems parent rest
    (sheet, first ++ others)
end

/-- The sheet with items in front of `anchor`, and the numbers of the new nodes in document order. Nothing happens if
the anchor stands under no parent. -/
def insertItemsBefore (sheet : Sheet) (anchor : NodeId) : List Item → Sheet × List NodeId
  | [] => (sheet, [])
  | .node content spacing children :: rest =>
    match sheet.insertBefore? anchor content spacing with
    | none => (sheet, [])
    | some (sheet, id) =>
      let (sheet, below) := sheet.appendItems id children
      let (sheet, others) := sheet.insertItemsBefore anchor rest
      (sheet, id :: (below ++ others))

/-- The sheet with a node cut off from its parent. -/
def remove (sheet : Sheet) (id : NodeId) : Sheet :=
  match sheet.parent id with
  | none => sheet
  | some parent =>
    (sheet.modify id fun node => { node with parent := none }).modify parent fun node =>
      { node with children := node.children.filter (· ≠ id) }

/-- The last node below `id` within the given depth. -/
def lastBelowWithin (sheet : Sheet) : Nat → NodeId → NodeId
  | 0, id => id
  | depth + 1, id =>
    match (sheet.children id).getLast? with
    | none => id
    | some last => sheet.lastBelowWithin depth last

/-- The last node of the subtree at `id` in document order. No path is longer than the sheet has nodes. -/
def lastBelow (sheet : Sheet) (id : NodeId) : NodeId := sheet.lastBelowWithin sheet.size id

/-- Whether no later sibling has the same kind. -/
def isFinalOfKind (sheet : Sheet) (id : NodeId) : Bool :=
  match sheet.parent id with
  | none => true
  | some parent =>
    !((sheet.children parent).dropWhile (· ≠ id)).tail.any fun sibling => sheet.kind sibling == sheet.kind id

/-- The nodes of a subtree in document order, within the given depth. -/
def preorderWithin (sheet : Sheet) : Nat → NodeId → List NodeId
  | 0, id => [id]
  | depth + 1, id => id :: (sheet.children id).flatMap (sheet.preorderWithin depth)

/-- The nodes of the subtree at `id` in document order. -/
def preorder (sheet : Sheet) (id : NodeId) : List NodeId := sheet.preorderWithin sheet.size id

/-- The subtree at `id` as an item, within the given depth. -/
def itemWithin (sheet : Sheet) : Nat → NodeId → Item
  | 0, id => .node (sheet.content id) (sheet.node id).spacing []
  | depth + 1, id =>
    .node (sheet.content id) (sheet.node id).spacing ((sheet.children id).map (sheet.itemWithin depth))

/-- The subtree at `id` as an item. -/
def item (sheet : Sheet) (id : NodeId) : Item := sheet.itemWithin sheet.size id

/-- The sheet with the given items below its root and the given blanks at its end. -/
def ofItems (items : List Item) (trailing : Text) : Sheet :=
  (empty.setSpacing root { after := trailing }).appendItems root items |>.1

/-- The sheet with the top-level items of another one in front of `anchor`. -/
def insertSheetBefore (sheet : Sheet) (anchor : NodeId) (fragment : Sheet) : Sheet × List NodeId :=
  sheet.insertItemsBefore anchor (fragment.item root).children

def toText (sheet : Sheet) : Text := (sheet.item root).render true

end Sheet
end StyleFlip
