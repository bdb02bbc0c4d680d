import StyleFlip.Sheet.Declaration

/-!
The nodes of a stylesheet as trees. An `Item` is a node with everything below it; it carries the raw fragments around
the node, so that writing it gives back what was read.
-/
namespace StyleFlip

inductive Kind where
  | root
  | rule
  | atRule
  | declaration
  | comment
deriving DecidableEq, Repr, Inhabited

inductive Content where
  | root
  | rule (selector : Text)
  | atRule (name params : Text) (hasBlock : Bool)
  | declaration (decl : Declaration)
  | comment (text : Text)
deriving DecidableEq, Repr, Inhabited

def Content.kind : Content → Kind
  | .root => .root
  | .rule _ => .rule
  | .atRule _ _ _ => .atRule
  | .declaration _ => .declaration
  | .comment _ => .comment

/-- The raw fragments around a node. -/
structure Spacing where
  /-- Blanks and stray semicolons before the node. -/
  before : Text := []
  /-- Blanks between a selector or the params of an at-rule and what follows. -/
  between : Text := []
  /-- Blanks before the end of a block, or after the value of a declaration. -/
  after : Text := []
  /-- Blanks between the name of an at-rule and its params. -/
  afterName : Text := []
  /-- Whether a semicolon ended the statement. -/
  semicolon : Bool := false
deriving DecidableEq, Repr, Inhabited

/-- A node with the nodes below it. -/
inductive Item where
  | node (content : Content) (spacing : Spacing) (children : List Item)
deriving Repr, Inhabited

namespace Item

def content : Item → Content
  | .node content _ _ => content

def spacing : Item → Spacing
  | .node _ spacing _ => spacing

def children : Item → List Item
  | .node _ _ children => children

mutual
/-- The text of an item. A statement without its own semicolon gets one unless it is the last of its block. -/
def render (last : Bool) : Item → Text
  | .node .root spacing children => renderAll children ++ spacing.after
  | .node (.rule selector) spacing children =>
    spacing.before ++ selector ++ spacing.between ++ '{' :: (renderAll children ++ spacing.after ++ ['}'])
  | .node (.atRule name params hasBlock) spacing children =>
    spacing.before ++ '@' :: (name ++ spacing.afterName ++ params ++ spacing.between ++
      if hasBlock then '{' :: (renderAll children ++ spacing.after ++ ['}'])
      else if spacing.semicolon || !last then [';'] else [])
  | .node (.declaration decl) spacing _ =>
    spacing.before ++ decl.text ++ spacing.after ++ if spacing.semicolon || !last then [';'] else []
  | .node (.comment text) spacing _ => spacing.before ++ Text.commentOpen ++ text ++ Text.commentClose

/-- The text of the items of one block, one after the other. -/
def renderAll : List Item → Text
  | [] => []
  | item :: rest => item.render rest.isEmpty ++ renderAll rest
end

end Item
end StyleFlip
