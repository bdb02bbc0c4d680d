import StyleFlip.Proofs.Links
import StyleFlip.Proofs.Pruning

/-!
The nodes of a sheet that was read. They are numbered in document order, from the root on and without gaps, and every item of
the sheet can be read from its own text (`legible_item_of_parse`). What an item has to be like for this (`Legible`) says what
its node is like: where it has a block, which fragments stand around it, whether a statement may do without its semicolon,
and how the value of a declaration is kept.
-/
namespace StyleFlip

/-! ## Blocks and statements -/

/-- Whether a node with the given content has a block of its own; the block of the root is the whole text. -/
def Content.hasBlock : Content → Bool
  | .root => true
  | .rule _ => true
  | .atRule _ _ hasBlock => hasBlock
  | .declaration _ => false
  | .comment _ => false

/-- Whether a node with the given content is a statement that ends with a semicolon: a declaration, or an at-rule without a
block. -/
def Content.isStatement : Content → Bool
  | .atRule _ _ hasBlock => !hasBlock
  | .declaration _ => true
  | _ => false

theorem Item.ends_eq (item : Item) : item.ends = (!item.content.isStatement || item.spacing.semicolon) := by
  obtain ⟨content, spacing, children⟩ := item
  cases content with
  | atRule name params hasBlock => cases hasBlock <;> simp [Item.ends, Item.content, Item.spacing, Content.isStatement]
  | _ => simp [Item.ends, Item.content, Item.spacing, Content.isStatement]

/-- A declaration keeps its value without comments, and the value as written only where the two differ. -/
def Declaration.KeepsValue (decl : Declaration) : Prop :=
  decl.value = Text.withoutComments decl.written ∧ (decl.raw.isSome = true ↔ decl.value ≠ decl.written)

theorem Declaration.keepsValue_withWritten (decl : Declaration) (raw : Text) : (decl.withWritten raw).KeepsValue := by
  unfold KeepsValue
  rw [written_withWritten]
  by_cases same : Text.withoutComments raw = raw
  · simp [withWritten, same]
  · simp [withWritten, same]

namespace Sheet
open Item Segment

/-! ## Items that can be read -/

theorem hasBlock_blockOf (before header : Text) : (blockOf before header).1.hasBlock = true := by
  unfold blockOf
  split <;> rfl

theorem before_blockOf (before header : Text) : (blockOf before header).2.before = before := by
  unfold blockOf
  split <;> rfl

/-- A statement is an at-rule without a block, or a declaration that keeps its value. -/
theorem statementOf?_cases {before header : Text} {semicolon : Bool} {content : Content} {spacing : Spacing}
    (read : statementOf? before header semicolon = some (content, spacing)) :
    spacing.before = before ∧
      ((∃ name params, content = .atRule name params false) ∨ ∃ decl, content = .declaration decl ∧ decl.KeepsValue) := by
  unfold statementOf? at read
  split at read
  · cases read
    exact ⟨rfl, .inl ⟨_, _, rfl⟩⟩
  · obtain ⟨⟨decl, after⟩, found, equal⟩ := Option.map_eq_some_iff.mp read
    cases equal
    refine ⟨rfl, .inr ⟨decl, rfl, ?_⟩⟩
    unfold declarationOf? at found
    split at found
    · cases found
    · simp only [Option.some.injEq, Prod.mk.injEq] at found
      rw [← found.1]
      exact Declaration.keepsValue_withWritten _ _

/-- A segment that is cut wherever its text stands has nothing but spacing before it. -/
theorem blank_of_lasting {close : Option Char} {before : Text} {shape : Shape} (lasting : Lasting close before shape) :
    ∀ c ∈ before, isSpacing c = true :=
  blank_of_segment (lasting 0 close.toList fun _ => by cases close <;> rfl)

section
variable {close : Option Char} {item : Item} (legible : Legible close item)
include legible

theorem Legible.blank : ∀ c ∈ item.spacing.before, isSpacing c = true := by
  cases legible with
  | comment lasting => exact blank_of_lasting lasting
  | statement lasting read =>
    have own := (statementOf?_cases read).1
    simp only [Item.spacing, own]
    exact blank_of_lasting lasting
  | @block _ before header content spacing children lasting read around =>
    have own : spacing.before = before := by rw [← around, before_blockOf]
    simp only [Item.spacing, own]
    exact blank_of_lasting lasting

theorem Legible.of_mem_children {child : Item} (member : child ∈ item.children) : Legible (some '}') child := by
  cases legible with
  | comment => cases member
  | statement => cases member
  | block _ _ _ _ below => exact below child member

/-- What stands below an item is the content of a block, with nothing but spacing at its end. -/
theorem Legible.block_or_leaf :
    item.content.hasBlock = true ∧ Spaced item.spacing.after item.children ∨
      item.content.hasBlock = false ∧ item.children = [] := by
  cases legible with
  | comment => exact .inr ⟨rfl, rfl⟩
  | statement _ read =>
    rcases (statementOf?_cases read).2 with ⟨name, params, rfl⟩ | ⟨decl, rfl, -⟩
    · exact .inr ⟨rfl, rfl⟩
    · exact .inr ⟨rfl, rfl⟩
  | @block _ before header _ _ _ _ read _ spaced =>
    refine .inl ⟨?_, spaced⟩
    rw [Item.content, ← read]
    exact hasBlock_blockOf before header

theorem Legible.keepsValue {decl : Declaration} (declares : item.content = .declaration decl) : decl.KeepsValue := by
  cases legible with
  | comment => cases declares
  | statement _ read =>
    rcases (statementOf?_cases read).2 with ⟨name, params, rfl⟩ | ⟨_, rfl, keeps⟩
    · cases declares
    · cases declares
      exact keeps
  | @block _ before header _ _ _ _ read =>
    have block := hasBlock_blockOf before header
    obtain rfl : _ = Content.declaration decl := declares
    rw [read] at block
    cases block

end

/-! ## Nodes of a sheet that was read -/

theorem Linked.item_mem_children {sheet : Sheet} (linked : sheet.Linked) {n above : Nat} (attached : sheet.parent n = some above) :
    sheet.item n ∈ (sheet.item above).children := by
  rw [linked.item_eq above]
  exact List.mem_map_of_mem ((linked.mem_children_iff n above).mpr attached)

section
variable {text : Text} {sheet : Sheet} (parsed : parse text = .ok sheet)
include parsed

theorem item_root_of_parse : ∃ items trailing, sheet.item root = rootItem items trailing ∧
    (∀ item ∈ items, Legible none item) ∧ Spaced trailing items := by
  obtain ⟨items, trailing, read, stored, size⟩ := exists_holds_of_parse parsed
  exact ⟨items, trailing, stored.itemWithin_eq (by omega), legible_parseItems read⟩

theorem linked_of_parse : sheet.Linked := by
  obtain ⟨items, trailing, _, holds⟩ := exists_holds_of_parse parsed
  exact holds.linked

/-- Every node but the root stands among the children of its parent. -/
theorem attached_of_parse {n : Nat} (inner : n ≠ root) (inside : n < sheet.size) :
    ∃ above : Nat, sheet.parent n = some above ∧ n ∈ sheet.children above := by
  obtain ⟨items, trailing, _, holds⟩ := exists_holds_of_parse parsed
  obtain ⟨parent, item, stored, _, placed⟩ := holds.exists_stores inside
  obtain ⟨above, rfl, member, _⟩ := placed inner
  exact ⟨above, stored.parent_eq, member⟩

/-- Every item below the root of a sheet that was read can be read from its own text. -/
theorem legible_item_of_parse {n : Nat} (inner : n ≠ root) (inside : n < sheet.size) :
    ∃ close, Legible close (sheet.item n) := by
  have linked := linked_of_parse parsed
  -- A node comes after its parent, so the item of the parent is known to be one.
  induction n using Nat.strong_induction_on with
  | _ n ih =>
    obtain ⟨above, attached, listed⟩ := attached_of_parse parsed inner inside
    have member := linked.item_mem_children attached
    by_cases top : above = root
    · obtain ⟨items, trailing, whole, legible, _⟩ := item_root_of_parse parsed
      rw [top, whole] at member
      exact ⟨none, legible _ member⟩
    · obtain ⟨close, legible⟩ := ih above (linked.ascending n above attached) top (lt_size_of_mem_children listed)
      exact ⟨some '}', legible.of_mem_children member⟩

/-- A node has a block, with nothing but spacing at its end and nothing but its last child without a semicolon, or nothing below
it. -/
theorem block_or_leaf_of_parse {n : Nat} (inside : n < sheet.size) :
    (sheet.content n).hasBlock = true ∧ Spaced (sheet.node n).spacing.after ((sheet.children n).map sheet.item) ∨
      (sheet.content n).hasBlock = false ∧ sheet.children n = [] := by
  have own := (linked_of_parse parsed).item_eq n
  by_cases top : n = root
  · obtain ⟨items, trailing, whole, _, spaced⟩ := item_root_of_parse parsed
    rw [top] at own ⊢
    rw [whole, rootItem] at own
    obtain ⟨content, spacing, children⟩ := Item.node.inj own
    rw [← content, ← spacing, ← children]
    exact .inl ⟨rfl, spaced⟩
  · obtain ⟨close, legible⟩ := legible_item_of_parse parsed top inside
    have cases := legible.block_or_leaf
    rw [own] at cases
    refine cases.imp_right fun leaf => ⟨leaf.1, ?_⟩
    simpa [Item.children] using leaf.2

theorem blank_before_of_parse (n : Nat) : ∀ c ∈ (sheet.node n).spacing.before, isSpacing c = true := by
  have linked := linked_of_parse parsed
  by_cases inside : n < sheet.size
  · by_cases top : n = root
    · obtain ⟨items, trailing, whole, _⟩ := item_root_of_parse parsed
      have own := linked.item_eq root
      rw [whole, rootItem] at own
      rw [top, ← (Item.node.inj own).2.1]
      simp
    · obtain ⟨close, legible⟩ := legible_item_of_parse parsed top inside
      have blank := legible.blank
      rwa [linked.item_eq] at blank
  · simp [Sheet.node, Array.getElem?_eq_none (Nat.le_of_not_lt inside)]

/-- A statement without a semicolon is the last of its block. -/
theorem getLast?_of_bare {n above : Nat} (attached : sheet.parent n = some above) (statement : (sheet.content n).isStatement = true)
    (bare : (sheet.node n).spacing.semicolon = false) : (sheet.children above).getLast? = some n := by
  have linked := linked_of_parse parsed
  have listed : n ∈ sheet.children above := (linked.mem_children_iff n above).mpr attached
  have lacking : (sheet.item n).ends = false := by
    rw [ends_eq, linked.item_eq]
    simp [Item.content, Item.spacing, statement, bare]
  obtain ⟨front, behind, split⟩ := List.append_of_mem listed
  rcases block_or_leaf_of_parse parsed (lt_size_of_mem_children listed) with ⟨_, spaced⟩ | ⟨_, none⟩
  · have own := List.pairwise_map.mp spaced.own
    rw [split, List.pairwise_append, List.pairwise_cons] at own
    cases behind with
    | nil => rw [split, List.getLast?_concat]
    | cons next others =>
      have ended := own.2.1.1 next List.mem_cons_self
      rw [lacking] at ended
      cases ended
  · rw [none] at listed
    cases listed

theorem content_of_hasBlock {n : Nat} (inside : n < sheet.size) (block : (sheet.content n).hasBlock = true) :
    n = root ∨ (∃ selector, sheet.content n = .rule selector) ∨ ∃ name params, sheet.content n = .atRule name params true := by
  by_cases top : n = root
  · exact .inl top
  · have kind := kind_ne_root_of_parse parsed (Nat.pos_of_ne_zero top) inside
    rw [Sheet.kind] at kind
    cases content : sheet.content n with
    | root => simp [content, Content.kind] at kind
    | rule selector => exact .inr (.inl ⟨selector, rfl⟩)
    | atRule name params hasBlock =>
      rw [content] at block
      exact .inr (.inr ⟨name, params, by rw [show hasBlock = true from block]⟩)
    | declaration decl => simp [content, Content.hasBlock] at block
    | comment body => simp [content, Content.hasBlock] at block

/-- The nodes of a sheet that was read: all of them are attached, and listed in document order they are numbered from the root on
without gaps; only the root, rules and at-rules with a block have children; before a node, and at the end of the text and of each
block, stand blanks and semicolons only; a declaration or an at-rule without a block that lacks its semicolon is the last of
its block; and a declaration has its value without comments and blanks at its ends, with the value as written beside it exactly
where the two differ. -/
theorem document_order_of_parse :
    sheet.preorder root = List.range sheet.size ∧
    (∀ n : Nat, n ≠ root → n < sheet.size → ∃ above : Nat, sheet.parent n = some above ∧ n ∈ sheet.children above) ∧
    (∀ n, sheet.children n ≠ [] →
      n = root ∨ (∃ selector, sheet.content n = .rule selector) ∨ ∃ name params, sheet.content n = .atRule name params true) ∧
    (∀ n, ∀ c ∈ (sheet.node n).spacing.before, Text.isBlank c = true ∨ c = ';') ∧
    (∀ n, (sheet.content n).hasBlock = true → ∀ c ∈ (sheet.node n).spacing.after, Text.isBlank c = true ∨ c = ';') ∧
    (∀ n above : Nat, sheet.parent n = some above → (sheet.content n).isStatement = true →
      (sheet.node n).spacing.semicolon = false → (sheet.children above).getLast? = some n) ∧
    ∀ n decl, sheet.declaration? n = some decl →
      decl.value = Text.withoutComments decl.written ∧ (decl.raw.isSome = true ↔ decl.value ≠ decl.written) := by
  have linked := linked_of_parse parsed
  have either : ∀ c, isSpacing c = true → Text.isBlank c = true ∨ c = ';' := by
    intro c spacing
    simpa [isSpacing] using spacing
  refine ⟨?_, ?_, ?_, ?_, ?_, ?_, ?_⟩
  · obtain ⟨items, trailing, _, holds⟩ := exists_holds_of_parse parsed
    exact holds.preorder_root
  · intro n inner inside
    exact attached_of_parse parsed inner inside
  · intro n below
    have inside : n < sheet.size := by
      by_contra beyond
      exact below (children_of_size_le (Nat.le_of_not_lt beyond))
    rcases block_or_leaf_of_parse parsed inside with ⟨block, _⟩ | ⟨_, none⟩
    · exact content_of_hasBlock parsed inside block
    · exact absurd none below
  · intro n c member
    exact either c (blank_before_of_parse parsed n c member)
  · intro n block c member
    by_cases inside : n < sheet.size
    · rcases block_or_leaf_of_parse parsed inside with ⟨_, spaced⟩ | ⟨leaf, _⟩
      · exact either c (spaced.blank c member)
      · rw [leaf] at block
        cases block
    · simp [Sheet.node, Array.getElem?_eq_none (Nat.le_of_not_lt inside)] at member
  · intro n above attached statement bare
    exact getLast?_of_bare parsed attached statement bare
  · intro n decl declares
    have content := content_of_declaration? declares
    have inner : n ≠ root := by
      rintro rfl
      have top := kind_root_of_parse parsed
      simp [Sheet.kind, content, Content.kind] at top
    have inside : n < sheet.size := by
      by_contra beyond
      simp [Sheet.content, Sheet.node, Array.getElem?_eq_none (Nat.le_of_not_lt beyond)] at content
    obtain ⟨close, legible⟩ := legible_item_of_parse parsed inner inside
    refine legible.keepsValue ?_
    rw [linked.item_eq]
    exact content

end

/-- An at-rule with two declarations, of which the first has a comment in its value and the second no semicolon. -/
theorem document_order_of_parse_block :
    ∃ sheet, parse ";@m a\x7b x:1/*c*/; y:2\x7d/**/ z:3".toList = .ok sheet ∧ sheet.preorder root = [0, 1, 2, 3, 4, 5] ∧
      sheet.parent 3 = some 1 ∧ (sheet.children 1).getLast? = some 3 ∧
      ∃ decl, sheet.declaration? 2 = some decl ∧ decl.written = "1/*c*/".toList ∧ decl.value = "1".toList ∧ decl.raw.isSome = true := by
  obtain ⟨sheet, parsed, test⟩ := exists_of_readable
    (by decide +kernel : (parse ";@m a\x7b x:1/*c*/; y:2\x7d/**/ z:3".toList).toOption.any (fun sheet =>
      sheet.size == 6 && sheet.parent 3 == some 1 && (sheet.content 3).isStatement && !(sheet.node 3).spacing.semicolon &&
        (sheet.declaration? 2).any (·.written == "1/*c*/".toList)) = true)
  simp only [Bool.and_eq_true, beq_iff_eq, Bool.not_eq_true', Option.any_eq_true] at test
  obtain ⟨⟨⟨⟨size, attached⟩, statement⟩, bare⟩, decl, declares, written⟩ := test
  obtain ⟨order, _, _, _, _, last, values⟩ := document_order_of_parse parsed
  obtain ⟨value, kept⟩ := values 2 decl declares
  have plain : Text.withoutComments decl.written = "1".toList := by
    rw [written]
    rfl
  refine ⟨sheet, parsed, by rw [order, size]; rfl, attached, last 3 1 attached statement bare, decl, declares, written, ?_, ?_⟩
  · rw [value, plain]
  · rw [kept, value, plain, written]
    decide

end Sheet
end StyleFlip
